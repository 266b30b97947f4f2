import LinuxTla.MntPut.Basic

/-! The steps of `MntPut.tla`: mntput(), the walker, the holder, the umounter and
the memory system. An IF of the source is one constructor for each branch. -/

namespace LinuxTla.MntPut

variable {T : Type} [DecidableEq T] (cfg : Config T)

namespace State

variable (s : State T)

@[simps] def setPc (t : T) (l : Label) : State T := { s with pc := Function.update s.pc t l }
@[simps] def setRet (t : T) (l : Label) : State T := { s with ret := Function.update s.ret t l }
@[simps] def addRefs (t : T) (d : ℤ) : State T := { s with refs := Function.update s.refs t (s.refs t + d) }
@[simps] def startSum (t : T) : State T :=
  { s with acc := Function.update s.acc t 0, ci := Function.update s.ci t 1 }

/-- The state part of `Lock(t)`: the increment of the seqcount is a plain store. -/
@[simps] def locked (t : T) : State T :=
  { s with
    vis := { s.vis with lockv := some t }
    buf := Function.update s.buf t (s.buf t ++ [.seq (s.vis.seqv + 1), .wmb]) }

/-- The condition of `Lock(t)`: the atomic RMW drains the buffer. -/
def CanLock (t : T) : Prop := s.vis.lockv = none ∧ s.buf t = []

end State

/-! ### The memory system -/

inductive Loc
  | wmb | seq | cnt (c : ℕ) | cntOf (c : ℕ) (get : Bool) | hashed | ns | lock
deriving DecidableEq

/-- The word a store writes; with the split counters the gets and the puts of a
CPU are two words. -/
def Store.loc (split : Bool) : Store T → Loc
  | .wmb => .wmb
  | .seq _ => .seq
  | .cnt c d => if split then .cntOf c (0 < d) else .cnt c
  | .hashed _ => .hashed
  | .ns _ => .ns
  | .lock _ => .lock

/-- May entry `i` of the buffer leave it: the oldest one, or with `weakStores`
one that no fence and no older store to its word precede. -/
def Flushable (b : List (Store T)) (i : ℕ) (e : Store T) : Prop :=
  if cfg.weakStores then
    (∀ e' ∈ b.take i, e' ≠ .wmb ∧ e'.loc cfg.fixSplitCount ≠ e.loc cfg.fixSplitCount) ∧ (e = .wmb → i = 0)
  else i = 0

instance (b : List (Store T)) (i : ℕ) (e : Store T) : Decidable (Flushable cfg b i e) := by
  unfold Flushable; infer_instance

@[simps] def flush (s : State T) (t : T) (i : ℕ) (e : Store T) : State T :=
  { s with vis := apply s.vis e, buf := Function.update s.buf t ((s.buf t).eraseIdx i) }

/-- `delayed_free_vfsmnt()`. -/
@[simps] def rcuFree (s : State T) : State T :=
  { s with gpfree := { on := false, wait := ∅ }, vis := { s.vis with m := { s.vis.m with freed := true } } }

/-! ### mntput() -/

/-- The ledger entry a put drops: the namespace's when `nsput`, else `t`'s own. -/
@[simps] def dropRef (s : State T) (t : T) : State T :=
  { s with
    nsref := if t = cfg.umounter ∧ s.nsput then false else s.nsref
    refs := if t = cfg.umounter ∧ s.nsput then s.refs else Function.update s.refs t (s.refs t - 1) }

/-- The stores of `mnt_add_count(mnt, -1)`. -/
def putStores (s : State T) (t : T) : List (Store T) := wmb cfg.fixPutWmb ++ [.cnt (s.cpu t) (-1)]

/-- How many loads a sum takes. -/
def reads : ℕ := if cfg.fixSplitCount then 2 * cfg.ncpu else cfg.ncpu

def readCnt (s : State T) (t : T) (i : ℕ) : ℤ :=
  if cfg.fixSplitCount then
    let c := if i ≤ cfg.ncpu then i else i - cfg.ncpu
    if decide (i ≤ cfg.ncpu) ≠ cfg.splitGetsFirst then -s.seenPuts t c else s.seenGets t c
  else s.seenCnt t i

@[simps] def sumRead (s : State T) (t : T) : State T :=
  { s with
    acc := Function.update s.acc t (s.acc t + readCnt cfg s t (s.ci t))
    ci := Function.update s.ci t (s.ci t + 1) }

/-- `cleanup_mnt()`: `call_rcu(&mnt->mnt_rcu, delayed_free_vfsmnt)`. -/
@[simps] def cleanup (s : State T) (t : T) : State T :=
  { s with gpfree := { on := true, wait := s.readers cfg }, cleaner := some t }

/-- The mount is also found as the pwd of a task that shares its fs_struct. -/
def ViaPwd (s : State T) : Prop := ∃ h ∈ cfg.holders, 0 < s.refs h ∧ s.pc h = .hIdle

/-! ### The specification -/

/-- `TaskStep(t)`: `Put(t)`, `Walk(t)`, `Hold(t)` and `Umount`. -/
inductive Step (s : State T) : T → State T → Prop
  | putEnterFast {t} (label : s.pc t = .pEnter) (ns : s.vis.m.ns = true) :
      Step s t (State.setPc { s with rcu := Function.update s.rcu t cfg.fixPutRcu } t .pFast)
  | putEnterSlow {t} (label : s.pc t = .pEnter) (ns : s.vis.m.ns = false) :
      Step s t (State.setPc { s with rcu := Function.update s.rcu t cfg.fixPutRcu } t .pLock)
  | putFast {t} (label : s.pc t = .pFast) (waited : ¬ s.Waited t) :
      Step s t (((dropRef cfg (s.pushAll t (putStores cfg s t)) t).rcuOut t).setPc t (s.ret t))
  | putFastWaited {t} (label : s.pc t = .pFast) (waited : s.Waited t) :
      Step s t (((dropRef cfg (s.drained t (putStores cfg s t)) t).rcuOut t).setPc t (s.ret t))
  | putLock {t} (label : s.pc t = .pLock) (lock : s.CanLock t) : Step s t ((s.locked t).setPc t .pMb)
  | putMb {t} (label : s.pc t = .pMb) (drained : cfg.fixMbPut → s.buf t = []) : Step s t (s.setPc t .pDec)
  | putDec {t} (label : s.pc t = .pDec) :
      Step s t (((dropRef cfg (s.pushAll t (putStores cfg s t)) t).startSum t).setPc t .pSum)
  | putSum {t} (label : s.pc t = .pSum) (more : s.ci t ≤ reads cfg) : Step s t (sumRead cfg s t)
  | putSumEnd {t} (label : s.pc t = .pSum) (ended : reads cfg < s.ci t) : Step s t (s.setPc t .pCheck)
  -- not the last reference, or MNT_DOOMED already: somebody else's job
  | putCheckOther {t} (label : s.pc t = .pCheck) (other : s.acc t ≠ 0 ∨ s.vis.m.doomed = true) :
      Step s t (((s.drained t (s.unlockStores t)).rcuOut t).setPc t (s.ret t))
  | putCheckLast {t} (label : s.pc t = .pCheck) (last : s.acc t = 0) (alive : s.vis.m.doomed = false) :
      Step s t (((s.drained t (s.unlockStores t)).doom.rcuOut t).setPc t .pCleanup)
  | putCleanup {t} (label : s.pc t = .pCleanup) : Step s t ((cleanup cfg s t).setPc t (s.ret t))
  -- read_seqbegin() spins while the count is odd
  | wStart {t} (walker : t ∈ cfg.walkers) (label : s.pc t = .wStart) (even : s.vis.seqv % 2 = 0) :
      Step s t (State.setPc { s with
        rcu := Function.update s.rcu t true, sq := Function.update s.sq t s.vis.seqv } t .wLookup)
  | wLookup {t} (walker : t ∈ cfg.walkers) (label : s.pc t = .wLookup)
      (found : s.vis.m.hashed = true ∨ ViaPwd cfg s) : Step s t (s.setPc t .wL1)
  | wLookupNone {t} (walker : t ∈ cfg.walkers) (label : s.pc t = .wLookup)
      (missed : ¬ (s.vis.m.hashed = true ∨ ViaPwd cfg s)) : Step s t ((s.rcuOut t).setPc t .wNone)
  | wL1Lost {t} (walker : t ∈ cfg.walkers) (label : s.pc t = .wL1) (retry : s.vis.seqv ≠ s.sq t) :
      Step s t ((s.rcuOut t).setPc t .lost)
  | wL1 {t} (walker : t ∈ cfg.walkers) (label : s.pc t = .wL1) (same : s.vis.seqv = s.sq t) : Step s t (s.setPc t .wL2)
  | wL2 {t} (walker : t ∈ cfg.walkers) (label : s.pc t = .wL2) :
      Step s t (((s.pushAll t [.cnt (s.cpu t) 1]).addRefs t 1).setPc t .wMb)
  | wMb {t} (walker : t ∈ cfg.walkers) (label : s.pc t = .wMb) (drained : cfg.fixMbLegit → s.buf t = []) :
      Step s t (s.setPc t .wL4)
  | wL4 {t} (walker : t ∈ cfg.walkers) (label : s.pc t = .wL4) (same : s.vis.seqv = s.sq t) : Step s t (s.setPc t .wUse)
  | wL4Retry {t} (walker : t ∈ cfg.walkers) (label : s.pc t = .wL4) (retry : s.vis.seqv ≠ s.sq t) :
      Step s t (s.setPc t .wLock)
  | wLock {t} (walker : t ∈ cfg.walkers) (label : s.pc t = .wLock) (lock : s.CanLock t) :
      Step s t ((s.locked t).setPc t .wFlags)
  -- MNT_SYNC_UMOUNT or MNT_DOOMED: drop the count under the lock
  | wFlagsDrop {t} (walker : t ∈ cfg.walkers) (label : s.pc t = .wFlags)
      (going : cfg.fixSyncFlag = true ∧ s.vis.m.sync = true ∨ cfg.fixDoomedFlag = true ∧ s.vis.m.doomed = true) :
      Step s t ((((s.drained t (putStores cfg s t ++ s.unlockStores t)).addRefs t (-1)).rcuOut t).setPc t .lost)
  -- __legitimize_mnt() returns -1: the caller will mntput()
  | wFlagsPut {t} (walker : t ∈ cfg.walkers) (label : s.pc t = .wFlags)
      (staying : ¬ (cfg.fixSyncFlag = true ∧ s.vis.m.sync = true ∨ cfg.fixDoomedFlag = true ∧ s.vis.m.doomed = true)) :
      Step s t ((((s.drained t (s.unlockStores t)).setRet t .lost).rcuOut t).setPc t .pEnter)
  | wUse {t} (walker : t ∈ cfg.walkers) (label : s.pc t = .wUse) (waited : ¬ s.Waited t) :
      Step s t (((s.rcuOut t).setRet t .done).setPc t .pEnter)
  | wUseWaited {t} (walker : t ∈ cfg.walkers) (label : s.pc t = .wUse) (waited : s.Waited t) :
      Step s t ((((s.drained t []).rcuOut t).setRet t .done).setPc t .pEnter)
  | hGet {t} (holder : t ∈ cfg.holders) (label : s.pc t = .hIdle) (held : 0 < s.refs t)
      (budget : s.gets t < cfg.getBudget) :
      Step s t { (s.pushAll t [.cnt (s.cpu t) 1]).addRefs t 1 with gets := Function.update s.gets t (s.gets t + 1) }
  | hMigrate {t c} (holder : t ∈ cfg.holders) (on : cfg.migrate = true) (label : s.pc t = .hIdle)
      (budget : s.migs t < cfg.migBudget) (cpu : 1 ≤ c ∧ c ≤ cfg.ncpu) (other : c ≠ s.cpu t) :
      Step s t { s.drained t [] with
        cpu := Function.update s.cpu t c, migs := Function.update s.migs t (s.migs t + 1) }
  | hPut {t} (holder : t ∈ cfg.holders) (label : s.pc t = .hIdle) (held : 0 < s.refs t) :
      Step s t ((s.setRet t .hIdle).setPc t .pEnter)
  | hDone {t} (holder : t ∈ cfg.holders) (label : s.pc t = .hIdle) (released : s.refs t = 0) :
      Step s t (s.setPc t .done)
  | uLock {u} (umounter : u = cfg.umounter) (label : s.pc u = .uLock) (lock : s.CanLock u)
      (sync : cfg.lazy = false) : Step s u ((s.locked u).setPc u .uMb)
  | uLockLazy {u} (umounter : u = cfg.umounter) (label : s.pc u = .uLock) (lock : s.CanLock u)
      (lazy : cfg.lazy = true) : Step s u ((s.locked u).setPc u .uTree)
  | uMb {u} (umounter : u = cfg.umounter) (label : s.pc u = .uMb) (drained : cfg.fixMbUmount → s.buf u = []) :
      Step s u ((s.startSum u).setPc u .uSum)
  | uSum {u} (umounter : u = cfg.umounter) (label : s.pc u = .uSum) (more : s.ci u ≤ reads cfg) :
      Step s u (sumRead cfg s u)
  | uSumEnd {u} (umounter : u = cfg.umounter) (label : s.pc u = .uSum) (ended : reads cfg < s.ci u) :
      Step s u (s.setPc u .uBusy)
  -- propagate_mount_busy(mnt, 2)
  | uBusy {u} (umounter : u = cfg.umounter) (label : s.pc u = .uBusy) (busy : 2 < s.acc u) :
      Step s u (State.setPc
        { (s.drained u (s.unlockStores u)).setRet u .done with uresult := .busy } u .pEnter)
  | uBusyNot {u} (umounter : u = cfg.umounter) (label : s.pc u = .uBusy) (idle : s.acc u ≤ 2) :
      Step s u (s.setPc u .uTree)
  | uTree {u} (umounter : u = cfg.umounter) (label : s.pc u = .uTree) :
      Step s u (State.setPc { s.pushAll u [.hashed false, .ns false] with
        vis := { s.vis with m := { s.vis.m with umount := true, sync := !cfg.lazy } }, uresult := .ok } u .uUnlock)
  | uUnlock {u} (umounter : u = cfg.umounter) (label : s.pc u = .uUnlock) :
      Step s u ((s.drained u (s.unlockStores u)).setPc u .uNsUnlock)
  -- up_write(), then synchronize_rcu_expedited()
  | uNsUnlock {u} (umounter : u = cfg.umounter) (label : s.pc u = .uNsUnlock) (drained : s.buf u = [])
      (delay : cfg.fixRcuDelay = true) :
      Step s u (State.setPc { s.drainedAll cfg with gp := { on := true, wait := s.readers cfg } } u .uGpWait)
  | uNsUnlockNow {u} (umounter : u = cfg.umounter) (label : s.pc u = .uNsUnlock) (drained : s.buf u = [])
      (delay : cfg.fixRcuDelay = false) : Step s u (s.setPc u .uNsPut)
  | uGpWait {u} (umounter : u = cfg.umounter) (label : s.pc u = .uGpWait) (ended : s.gp.wait = ∅) :
      Step s u (State.setPc { s with gp := { on := false, wait := ∅ } } u .uNsPut)
  | uNsPut {u} (umounter : u = cfg.umounter) (label : s.pc u = .uNsPut) :
      Step s u (State.setPc { s.setRet u .uRet with nsput := true } u .pEnter)
  | uRet {u} (umounter : u = cfg.umounter) (label : s.pc u = .uRet) :
      Step s u (State.setPc { s.setRet u .done with nsput := false } u .pEnter)

inductive Next (s : State T) : State T → Prop
  | task {t after} (member : t ∈ cfg.taskList) (step : Step cfg s t after) : Next s after
  | flush {t i e} (member : t ∈ cfg.taskList) (entry : (s.buf t)[i]? = some e)
      (allowed : Flushable cfg (s.buf t) i e) : Next s (flush s t i e)
  | rcuFree (on : s.gpfree.on = true) (ended : s.gpfree.wait = ∅) : Next s (rcuFree s)

def spec : Lib.System (State T) where
  init s := s = init cfg
  next := Next cfg

end LinuxTla.MntPut
