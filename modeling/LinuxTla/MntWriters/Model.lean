import LinuxTla.Lib.Buffers
import LinuxTla.Lib.Transition
import Mathlib.Tactic.Simps.Basic
import Mathlib.Data.Finset.Card
import Mathlib.Data.Finset.Option
import Mathlib.Order.Interval.Finset.Nat

/-! `WRITE_HOLD` in `MntWriters.tla`: writers of one mount with per-CPU counts
against one holder that makes it read-only. Loads and stores are TSO. -/

namespace LinuxTla.MntWriters

/-- `HMODE`: mnt_make_readonly(), or sb_prepare_remount_readonly() and the remount. -/
inductive HMode
  | mnt | sb
deriving DecidableEq, Repr

structure Config (W : Type) where
  writers : Finset W
  wcpu : W → ℕ
  ncpu : ℕ
  hmode : HMode
  fixMbGet : Bool
  fixMbHold : Bool
  fixSbro : Bool

/-- `WCpu` gives every writer an existing CPU. -/
structure Config.WellFormed {W : Type} (cfg : Config W) : Prop where
  cpus : ∀ w ∈ cfg.writers, 1 ≤ cfg.wcpu w ∧ cfg.wcpu w ≤ cfg.ncpu

/-- Every piece of the protocol is in place. -/
structure Config.Fixed {W : Type} (cfg : Config W) : Prop where
  mbGet : cfg.fixMbGet = true
  mbHold : cfg.fixMbHold = true
  sbro : cfg.fixSbro = true

abbrev Task (W : Type) := Option W

abbrev holder {W : Type} : Task W := none

abbrev writer {W : Type} (w : W) : Task W := some w

inductive Label
  | wInc | wMb | wSpin | wCheck | wActive
  | hLock | hHold | hMb | hSum | hDecide | hRemount
  | done
deriving DecidableEq, Repr

inductive Result
  | none | ok | busy
deriving DecidableEq, Repr

inductive Store (W : Type)
  | cnt (c : ℕ) (d : ℤ)
  | hold (v : Bool)
  | ro (v : Bool)
  | sbro (v : Bool)
  | sbrd (v : Bool)
  | lock (v : Option (Task W))
deriving DecidableEq, Repr

structure Vis (W : Type) where
  cntv : ℕ → ℤ
  holdv : Bool
  rov : Bool
  sbrov : Bool
  sbrdv : Bool
  lockv : Option (Task W)

def apply {W : Type} (v : Vis W) : Store W → Vis W
  | .cnt c d => { v with cntv := Function.update v.cntv c (v.cntv c + d) }
  | .hold x => { v with holdv := x }
  | .ro x => { v with rov := x }
  | .sbro x => { v with sbrov := x }
  | .sbrd x => { v with sbrdv := x }
  | .lock x => { v with lockv := x }

/-- What a store adds to the count of CPU `c`. -/
def Store.delta {W : Type} (c : ℕ) : Store W → ℤ
  | .cnt c' d => if c' = c then d else 0
  | _ => 0

structure State (W : Type) where
  mem : Lib.Memory (Vis W) (Store W) (Task W)
  pc : Task W → Label
  acc : ℤ
  ci : ℕ
  result : Result

variable {W : Type} [DecidableEq W] (cfg : Config W)

namespace State

variable (s : State W)

def buffered (t : Task W) (c : ℕ) : ℤ := ((s.mem.buf t).map (Store.delta c)).sum

def seenCnt (t : Task W) (c : ℕ) : ℤ := s.mem.vis.cntv c + s.buffered t c

@[simps] def push (t : Task W) (es : List (Store W)) : State W := { s with mem := s.mem.push t es }

@[simps] def drained (t : Task W) (extra : List (Store W)) : State W := { s with mem := s.mem.drained apply t extra }

@[simps] def setPc (t : Task W) (l : Label) : State W := { s with pc := Function.update s.pc t l }

def Readonly : Prop :=
  cfg.fixSbro = true ∧ s.mem.vis.sbrov = true ∨ s.mem.vis.rov = true ∨ s.mem.vis.sbrdv = true

def Settled : Prop :=
  (∀ w ∈ cfg.writers, s.pc (writer w) = .done ∧ s.mem.buf (writer w) = []) ∧
    s.pc holder = .done ∧ s.mem.buf holder = []

end State

def init : State W where
  mem :=
    { vis := { cntv := fun _ => 0, holdv := false, rov := false, sbrov := false, sbrdv := false, lockv := none }
      buf := fun _ => [] }
  pc t := t.elim .hLock fun _ => .wInc
  acc := 0
  ci := 1
  result := .none

inductive Write (s : State W) (w : W) : State W → Prop
  | inc (label : s.pc (writer w) = .wInc) :
      Write s w ((s.push (writer w) [.cnt (cfg.wcpu w) 1]).setPc (writer w) .wMb)
  | mb (label : s.pc (writer w) = .wMb) (drained : cfg.fixMbGet → s.mem.buf (writer w) = []) :
      Write s w (s.setPc (writer w) .wSpin)
  -- cpu_relax() until the bit is clear
  | spin (label : s.pc (writer w) = .wSpin) (clear : s.mem.vis.holdv = false) : Write s w (s.setPc (writer w) .wCheck)
  | checkReadonly (label : s.pc (writer w) = .wCheck) (readonly : s.Readonly cfg) :
      Write s w ((s.push (writer w) [.cnt (cfg.wcpu w) (-1)]).setPc (writer w) .done)
  | check (label : s.pc (writer w) = .wCheck) (writable : ¬ s.Readonly cfg) : Write s w (s.setPc (writer w) .wActive)
  -- mnt_put_write_access()
  | put (label : s.pc (writer w) = .wActive) :
      Write s w ((s.push (writer w) [.cnt (cfg.wcpu w) (-1)]).setPc (writer w) .done)

inductive Hold (s : State W) : State W → Prop
  -- the atomic RMW drains the buffer
  | lock (label : s.pc holder = .hLock) (free : s.mem.vis.lockv = none) (drained : s.mem.buf holder = []) :
      Hold s (State.setPc
        { s with mem := { s.mem with vis := { s.mem.vis with lockv := some holder } } } holder .hHold)
  | hold (label : s.pc holder = .hHold) : Hold s ((s.push holder [.hold true]).setPc holder .hMb)
  | mb (label : s.pc holder = .hMb) (drained : cfg.fixMbHold → s.mem.buf holder = []) :
      Hold s (State.setPc { s with acc := 0, ci := 1 } holder .hSum)
  | sum (label : s.pc holder = .hSum) (more : s.ci ≤ cfg.ncpu) :
      Hold s { s with acc := s.acc + s.seenCnt holder s.ci, ci := s.ci + 1 }
  | sumEnd (label : s.pc holder = .hSum) (ended : cfg.ncpu < s.ci) : Hold s (s.setPc holder .hDecide)
  -- -EBUSY: mnt_unhold_writers()
  | decideBusy (label : s.pc holder = .hDecide) (busy : 0 < s.acc) :
      Hold s (State.setPc { s.drained holder [.hold false, .lock none] with result := .busy } holder .done)
  | decideMnt (label : s.pc holder = .hDecide) (idle : ¬ 0 < s.acc) (mode : cfg.hmode = .mnt) :
      Hold s (State.setPc { s.drained holder [.ro true, .hold false, .lock none] with result := .ok } holder .done)
  | decideSb (label : s.pc holder = .hDecide) (idle : ¬ 0 < s.acc) (mode : cfg.hmode ≠ .mnt) :
      Hold s (State.setPc { s.drained holder [.sbro true, .hold false, .lock none] with result := .ok } holder .hRemount)
  -- SB_RDONLY, then sb_end_ro_state_change()
  | remount (label : s.pc holder = .hRemount) :
      Hold s ((s.push holder [.sbrd true, .sbro false]).setPc holder .done)

inductive Next (s : State W) : State W → Prop
  | write {w after} (member : w ∈ cfg.writers) (step : Write cfg s w after) : Next s after
  | hold {after} (step : Hold cfg s after) : Next s after
  | flush {t} (member : t ∈ Finset.insertNone cfg.writers) (pending : s.mem.buf t ≠ []) :
      Next s { s with mem := s.mem.flush apply t }
  | settled (all : s.Settled cfg) : Next s s

def spec : Lib.System (State W) where
  init s := s = init
  next := Next cfg

/-! ### What is checked -/

section Checked

variable (s : State W)

def Active : Finset W := cfg.writers.filter fun w => s.pc (writer w) = .wActive

def ReadOnlyOK : Prop :=
  s.mem.vis.rov = true ∨ s.mem.vis.sbrov = true ∨ s.mem.vis.sbrdv = true → Active cfg s = ∅

def DecisionOK : Prop := s.result = .ok → Active cfg s = ∅

/-- The labels between a writer's increment and its decrement. -/
def Label.counted : Label → Bool
  | .wMb | .wSpin | .wCheck | .wActive => true
  | _ => false

/-- The counts, visible and buffered, add up to the writers between their increment
and their decrement. -/
def Ledger : Prop :=
  ∑ c ∈ Finset.Icc 1 cfg.ncpu, s.mem.vis.cntv c +
      ∑ w ∈ cfg.writers, ∑ c ∈ Finset.Icc 1 cfg.ncpu, s.buffered (writer w) c =
    (cfg.writers.filter fun w => (s.pc (writer w)).counted).card

def HoldUnderLock : Prop := s.mem.vis.holdv = true → s.mem.vis.lockv = some holder

end Checked

end LinuxTla.MntWriters
