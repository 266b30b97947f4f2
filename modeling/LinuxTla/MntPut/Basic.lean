import Mathlib.Data.Finset.Card
import Mathlib.Algebra.BigOperators.Group.List.Basic
import Mathlib.Algebra.Order.Group.Int
import Mathlib.Algebra.Ring.Int.Defs
import Mathlib.Tactic.Simps.Basic
import LinuxTla.Lib.Transition

/-! The reference count of one mount under concurrent lockless use: the state of
`MntPut.tla`. Stores go through one buffer per task; `mnt_count` is one counter
per CPU, with `fixSplitCount` a pair of counters, summed CPU by CPU. -/

namespace LinuxTla.MntPut

/-- The constants. The switches take single pieces of the protocol out. -/
structure Config (T : Type) where
  taskList : List T
  /-- `U`, the umounter. -/
  umounter : T
  walkers : Finset T
  holders : Finset T
  ncpu : ℕ
  getBudget : ℕ
  migrate : Bool
  migBudget : ℕ
  lazy : Bool
  fixMbLegit : Bool
  fixMbUmount : Bool
  fixMbPut : Bool
  fixRcuDelay : Bool
  fixPutRcu : Bool
  fixSyncFlag : Bool
  fixDoomedFlag : Bool
  fixSplitCount : Bool
  splitGetsFirst : Bool
  weakStores : Bool
  fixPutWmb : Bool

/-- One umounter, walkers and holders, listed without repetition, and two CPUs
for the initial references to sit on. -/
structure Config.WellFormed {T : Type} (cfg : Config T) : Prop where
  nodup : cfg.taskList.Nodup
  tasks : ∀ t, t ∈ cfg.taskList ↔ t = cfg.umounter ∨ t ∈ cfg.walkers ∨ t ∈ cfg.holders
  umounter_walker : cfg.umounter ∉ cfg.walkers
  umounter_holder : cfg.umounter ∉ cfg.holders
  disjoint : ∀ t, t ∈ cfg.walkers → t ∉ cfg.holders
  ncpu : 2 ≤ cfg.ncpu

/-- Every piece of the protocol is in place. -/
structure Config.Fixed {T : Type} (cfg : Config T) : Prop where
  mbLegit : cfg.fixMbLegit = true
  mbUmount : cfg.fixMbUmount = true
  mbPut : cfg.fixMbPut = true
  rcuDelay : cfg.fixRcuDelay = true
  putRcu : cfg.fixPutRcu = true
  syncFlag : cfg.fixSyncFlag = true
  doomedFlag : cfg.fixDoomedFlag = true
  splitCount : cfg.fixSplitCount = true
  getsFirst : cfg.splitGetsFirst = false
  putWmb : cfg.fixPutWmb = true

inductive Label
  | uLock | uMb | uSum | uBusy | uTree | uUnlock | uNsUnlock | uGpWait | uNsPut | uRet
  | wStart | wLookup | wL1 | wL2 | wMb | wL4 | wLock | wFlags | wUse | wNone
  | hIdle
  | pEnter | pFast | pLock | pMb | pDec | pSum | pCheck | pCleanup
  | done | lost
deriving DecidableEq, Repr

/-- The labels at which a task reads or writes the mount. -/
def Label.touching : Label → Bool
  | .wL1 | .wL2 | .wMb | .wL4 | .wLock | .wFlags | .wUse
  | .pEnter | .pFast | .pLock | .pMb | .pDec | .pSum | .pCheck | .pCleanup
  | .uLock | .uMb | .uSum | .uBusy | .uTree | .uUnlock | .uNsPut => true
  | _ => false

def Label.isDone : Label → Bool
  | .done | .lost | .wNone => true
  | _ => false

inductive UResult
  | none | ok | busy
deriving DecidableEq, Repr

/-- A store in a buffer; `wmb` is `smp_wmb()`. -/
inductive Store (T : Type)
  | wmb
  | seq (v : ℕ)
  | cnt (c : ℕ) (d : ℤ)
  | hashed (v : Bool)
  | ns (v : Bool)
  | lock (v : Option T)
deriving DecidableEq, Repr

structure Mount where
  hashed : Bool
  ns : Bool
  umount : Bool
  sync : Bool
  doomed : Bool
  freed : Bool
deriving DecidableEq, Repr

structure Vis (T : Type) where
  seqv : ℕ
  cntv : ℕ → ℤ
  putv : ℕ → ℤ
  lockv : Option T
  m : Mount

/-- A grace period and the readers it waits for. -/
structure Gp (T : Type) where
  on : Bool
  wait : Finset T

structure State (T : Type) where
  vis : Vis T
  buf : T → List (Store T)
  cpu : T → ℕ
  rcu : T → Bool
  gp : Gp T
  gpfree : Gp T
  pc : T → Label
  ret : T → Label
  sq : T → ℕ
  acc : T → ℤ
  ci : T → ℕ
  refs : T → ℤ
  nsref : Bool
  nsput : Bool
  gets : T → ℕ
  migs : T → ℕ
  cleaner : Option T
  uresult : UResult

variable {T : Type} [DecidableEq T]

/-! ### The store buffers -/

def wmb (on : Bool) : List (Store T) := if on then [.wmb] else []

def apply (v : Vis T) : Store T → Vis T
  | .seq x => { v with seqv := x }
  | .cnt c d =>
    { v with
      cntv := Function.update v.cntv c (v.cntv c + d)
      putv := Function.update v.putv c (v.putv c + if d < 0 then 1 else 0) }
  | .hashed x => { v with m := { v.m with hashed := x } }
  | .ns x => { v with m := { v.m with ns := x } }
  | .lock x => { v with lockv := x }
  | .wmb => v

def applyAll (v : Vis T) : List (Store T) → Vis T
  | [] => v
  | e :: es => applyAll (apply v e) es

/-- What a store adds to the counter of CPU `c`. -/
def Store.delta (c : ℕ) : Store T → ℤ
  | .cnt c' d => if c' = c then d else 0
  | _ => 0

def Store.puts (c : ℕ) : Store T → ℤ
  | .cnt c' d => if c' = c ∧ d < 0 then 1 else 0
  | _ => 0

def Store.gets (c : ℕ) : Store T → ℤ
  | .cnt c' d => if c' = c ∧ 0 < d then 1 else 0
  | _ => 0

namespace State

variable (s : State T)

/-- The task's own buffered increments of one counter. -/
def buffered (t : T) (c : ℕ) : ℤ := ((s.buf t).map (Store.delta c)).sum
def bufferedPuts (t : T) (c : ℕ) : ℤ := ((s.buf t).map (Store.puts c)).sum
def bufferedGets (t : T) (c : ℕ) : ℤ := ((s.buf t).map (Store.gets c)).sum

def seenCnt (t : T) (c : ℕ) : ℤ := s.vis.cntv c + s.buffered t c
def seenPuts (t : T) (c : ℕ) : ℤ := s.vis.putv c + s.bufferedPuts t c
def seenGets (t : T) (c : ℕ) : ℤ := s.vis.cntv c + s.vis.putv c + s.bufferedGets t c

@[simps] def pushAll (t : T) (es : List (Store T)) : State T :=
  { s with buf := Function.update s.buf t (s.buf t ++ es) }

/-- Everything `t` has stored becomes visible, `extra` after it. -/
@[simps] def drained (t : T) (extra : List (Store T)) : State T :=
  { s with vis := applyAll s.vis (s.buf t ++ extra), buf := Function.update s.buf t [] }

/-- `ApplyTasks`: the buffers of the tasks in list order. -/
def applyTasks (v : Vis T) : List T → Vis T
  | [] => v
  | t :: ts => applyTasks (applyAll v (s.buf t)) ts

/-- A grace period is a full barrier on every CPU. -/
@[simps] def drainedAll (cfg : Config T) : State T :=
  { s with vis := s.applyTasks s.vis cfg.taskList, buf := fun _ => [] }

/-! ### RCU -/

@[simps] def rcuOut (t : T) : State T :=
  { s with
    rcu := Function.update s.rcu t false
    gp := { s.gp with wait := s.gp.wait.erase t }
    gpfree := { s.gpfree with wait := s.gpfree.wait.erase t } }

def Waited (t : T) : Prop := t ∈ s.gp.wait ∨ t ∈ s.gpfree.wait

def readers (cfg : Config T) : Finset T := cfg.taskList.toFinset.filter fun t => s.rcu t

/-! ### mount_lock -/

/-- The seqcount as `t` sees it: its own increment may still sit in its buffer. -/
def seenSeq (t : T) : ℕ :=
  (s.buf t).foldl (fun seen e => match e with | .seq v => v | _ => seen) s.vis.seqv

/-- `unlock_mount_hash()`. -/
def unlockStores (t : T) : List (Store T) := [.wmb, .seq (s.seenSeq t + 1), .wmb, .lock none]

@[simps] def doom : State T := { s with vis := { s.vis with m := { s.vis.m with doomed := true } } }

end State

/-! ### The first state -/

def init (cfg : Config T) : State T where
  vis :=
    { seqv := 0
      -- the namespace's and the umounter's references on CPU 1, the holders' on CPU 2
      cntv := fun c => if c = 1 then 2 else if c = 2 then cfg.holders.card else 0
      putv := fun _ => 0
      lockv := none
      m := { hashed := true, ns := true, umount := false, sync := false, doomed := false, freed := false } }
  buf _ := []
  cpu t := if t ∈ cfg.holders then 2 else 1
  rcu _ := false
  gp := { on := false, wait := ∅ }
  gpfree := { on := false, wait := ∅ }
  pc t := if t = cfg.umounter then .uLock else if t ∈ cfg.walkers then .wStart else .hIdle
  ret _ := .done
  sq _ := 0
  acc _ := 0
  ci _ := 1
  refs t := if t = cfg.umounter ∨ t ∈ cfg.holders then 1 else 0
  nsref := true
  nsput := false
  gets _ := 0
  migs _ := 0
  cleaner := none
  uresult := .none

/-! ### What is checked -/

section Checked

variable (cfg : Config T) (s : State T)

/-- The count as it will be once every buffer has drained. -/
def total : ℤ :=
  ((List.range' 1 cfg.ncpu).map s.vis.cntv).sum +
    (cfg.taskList.map fun t => ((List.range' 1 cfg.ncpu).map (s.buffered t)).sum).sum

/-- A walker's count between the increment and the decision, or one it drops
itself after `__legitimize_mnt()` returned -1. -/
def Transient (t : T) : Prop :=
  t ∈ cfg.walkers ∧ (s.pc t ∈ [Label.wMb, .wL4, .wLock, .wFlags] ∨ s.ret t = .lost)

instance (t : T) : Decidable (Transient cfg s t) := inferInstanceAs (Decidable (_ ∧ _))

def realRefs : ℤ := (cfg.taskList.map fun t => if Transient cfg s t then 0 else s.refs t).sum

/-- The ledger: the counters add up to the references. -/
def Ledger : Prop := total cfg s = (if s.nsref then 1 else 0) + (cfg.taskList.map s.refs).sum

def NoUAF : Prop := s.vis.m.freed → ∀ t ∈ cfg.taskList, (s.pc t).touching = false

def DoomedIsLast : Prop := s.vis.m.doomed → s.nsref = false ∧ realRefs cfg s = 0

def NoNegative : Prop := ∀ t ∈ cfg.taskList, s.pc t = .pCheck → 0 ≤ s.acc t

def SyncClean : Prop :=
  s.uresult = .ok ∧ cfg.lazy = false →
    (∀ t ∈ cfg.taskList, t ≠ cfg.umounter → ¬ Transient cfg s t → s.refs t = 0) ∧
    (s.cleaner ≠ none → s.cleaner = some cfg.umounter)

end Checked

end LinuxTla.MntPut
