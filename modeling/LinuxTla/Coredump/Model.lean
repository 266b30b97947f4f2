import LinuxTla.Lib.Transition
import Mathlib.Data.Fintype.Card
import Mathlib.Data.Fintype.Sets

/-! `Coredump.tla`: one thread group under the coredump rendezvous, the signal
code around it and the code that makes and tears down threads while it runs. -/

namespace LinuxTla.Coredump

open Lib

inductive Sig
  | kill | core | term | usr
deriving DecidableEq, Repr

inductive Flag
  | signaled | postcoredump | dumpcore | exiting
deriving DecidableEq, Repr

inductive Role
  | user | sqpoll | iowq | slot
deriving DecidableEq, Repr

/-- `PCs`: where a thread is. -/
inductive PC
  | none | run | sigwait
  | dumpWait | dumpWrite | dumpFinish | dumpRelease
  | execCancelTw | execWaitWorkers | execDethread | execWait | execPost | execLateTw | execLateWait
  | sqCancel | sqCancelTw | sqWaitWorkers
  | wqExit
  | exitSync | parked | exitCancel | exitCancelTw | exitWaitWorkers | exitSignals | exitNotify
  | zombie | dead
deriving DecidableEq, Repr

/-- Creation task work queued on a ring owner: a worker's create_worker_cb(), a
create_worker_cont(), or one that still sits in delayed work. -/
inductive Work (T : Type)
  | worker (w : T)
  | cont
  | retry
deriving DecidableEq

/-- What the constants give; every `fix` is one patch of the series. -/
structure Config (T : Type) where
  role : T → Role
  owner0 : T → Option T
  ringOwners : Finset T
  leader : T
  chunks : ℕ
  sigBudget : Sig → ℕ
  execBudget : ℕ
  tracerBudget : ℕ
  retryBudget : ℕ
  fixRcuRelease : Bool
  fixSigpendingDumpcore : Bool
  fixRetargetGroupExit : Bool
  fixWorkerNodump : Bool
  fixPtraceMask : Bool
  fixExecCancelFirst : Bool
  fixGateSignaled : Bool
  fixGatePostcoredump : Bool

/-- The assumptions on the constants; io-wq workers are owned by ring owners. -/
structure Config.WellFormed {T : Type} (cfg : Config T) : Prop where
  leader : cfg.role cfg.leader = .user
  chunks : 1 ≤ cfg.chunks
  owners : ∀ w, cfg.role w = .iowq → ∃ o ∈ cfg.ringOwners, cfg.owner0 w = some o

/-- Every patch of the series is applied. -/
structure Config.Fixed {T : Type} (cfg : Config T) : Prop where
  rcuRelease : cfg.fixRcuRelease = true
  sigpendingDumpcore : cfg.fixSigpendingDumpcore = true
  retargetGroupExit : cfg.fixRetargetGroupExit = true
  workerNodump : cfg.fixWorkerNodump = true
  ptraceMask : cfg.fixPtraceMask = true
  execCancelFirst : cfg.fixExecCancelFirst = true
  gateSignaled : cfg.fixGateSignaled = true
  gatePostcoredump : cfg.fixGatePostcoredump = true

structure Thread (T : Type) where
  pc : PC
  flags : Finset Flag
  pending : Finset Sig
  blocked : Finset Sig
  realblocked : Finset Sig
  sigpending : Bool
  notify : Bool
  decremented : Bool
  released : Bool
  freed : Bool
  wqexit : Bool
  twq : Finset (Work T)
  owner : Option T
  refput : Bool

/-- signal_struct; `none` for `exec` is `NoThread`. -/
structure Group (T : Type) where
  exit : Bool
  exec : Option T
  notifyCount : ℤ
  quick : ℤ

structure Core (T : Type) where
  active : Bool
  remaining : ℤ
  tasks : Finset T

inductive Outcome
  | none | complete | truncated
deriving DecidableEq, Repr

structure Dump where
  written : ℕ
  result : Outcome
deriving DecidableEq, Repr

/-- Which freezer struck: PM or cgroup v1, or cgroup v2. -/
inductive Freezer
  | none | pm | cg2
deriving DecidableEq, Repr

structure Hist where
  kill : Bool
  notifyDumper : Bool
  freezeMidDump : Bool
deriving DecidableEq, Repr

structure Budget where
  sig : Sig → ℕ
  exec : ℕ
  tracer : ℕ
  retry : ℕ

structure State (T : Type) where
  thread : T → Thread T
  shared : Finset Sig
  group : Group T
  core : Core T
  dumper : Option T
  counted : Finset T
  releaseList : Finset T
  rcuReader : Bool
  dump : Dump
  freeze : Freezer
  hist : Hist
  budget : Budget

/-- `siginitsetinv(KILL|STOP)`: the mask of a user worker. -/
def allButKill : Finset Sig := {.core, .term, .usr}

def signals : Finset Sig := {.kill, .core, .term, .usr}

/-! ### Derived predicates -/

/-- `Live`: on signal->thread_head. -/
def PC.live : PC → Bool
  | .none | .dead => false
  | _ => true

/-- `Alive`: not past exit_notify(). -/
def PC.alive : PC → Bool
  | .none | .dead | .zombie => false
  | _ => true

/-- `DumpStates`. -/
def PC.dumping : PC → Bool
  | .dumpWait | .dumpWrite | .dumpFinish | .dumpRelease => true
  | _ => false

def PC.execWindow : PC → Bool
  | .execPost | .execLateTw | .execLateWait => true
  | _ => false

def PC.taskWork : PC → Bool
  | .run | .exitCancelTw | .sqCancelTw | .execCancelTw | .execLateTw => true
  | _ => false

def Role.worker : Role → Bool
  | .user => false
  | _ => true

/-- `IsIoWq`: holds a wq->worker_refs. -/
def Role.ioWq : Role → Bool
  | .iowq | .slot => true
  | _ => false

section Steps

variable {T : Type} [DecidableEq T]

def State.set (s : State T) (t : T) (th : Thread T) : State T :=
  { s with thread := Function.update s.thread t th }

/-- SIGKILL queued on some threads, and the threads woken for it. -/
def State.zap (s : State T) (zapped : T → Prop) [DecidablePred zapped] : State T :=
  { s with thread := fun u =>
      if zapped u then { s.thread u with pending := insert .kill (s.thread u).pending, sigpending := true }
      else s.thread u }

variable [Fintype T] (cfg : Config T) (s : State T) (t : T)

def othersLive : Finset T := Finset.univ.filter fun u => u ≠ t ∧ (s.thread u).pc.live = true

def GroupEmpty : Prop := othersLive s t = ∅

instance : Decidable (GroupEmpty s t) := inferInstanceAs (Decidable (_ = _))

omit [DecidableEq T] [Fintype T] in
def HoldsRef : Prop :=
  (cfg.role t).ioWq = true ∧ (s.thread t).pc ≠ .none ∧ (s.thread t).refput = false

def dumperPc : PC := s.dumper.elim .none fun d => (s.thread d).pc

def Dumping : Prop := (dumperPc s).dumping = true

instance : Decidable (Dumping s) := inferInstanceAs (Decidable (_ = _))

/-- `Runnable`: everything but the delayed retries. -/
def runnable : Finset (Work T) := (s.thread t).twq.erase .retry

def WorkersDone : Prop :=
  (∀ w, (cfg.role w).ioWq = true ∧ (s.thread w).owner = some t → ¬ HoldsRef cfg s w) ∧
    (s.thread t).twq = ∅

def Freezing : Prop := s.freeze ≠ .none

instance : Decidable (Freezing s) := inferInstanceAs (Decidable (_ ≠ _))

/-- fatal_signal_pending(). -/
def FatalPending : Prop := (s.thread t).sigpending = true ∧ Sig.kill ∈ (s.thread t).pending

instance : Decidable (FatalPending s t) := inferInstanceAs (Decidable (_ ∧ _))

/-- signal_pending() with the PF_DUMPCORE rule of the series. -/
def SignalPending : Prop :=
  (s.thread t).notify = true ∨
    (s.thread t).sigpending = true ∧
      (cfg.fixSigpendingDumpcore = false ∨ Flag.dumpcore ∉ (s.thread t).flags ∨
        Sig.kill ∈ (s.thread t).pending ∨ Freezing s)

/-- dump_interrupted(): a fatal signal, freezing() and, with the fix, the cgroup
v2 trap. -/
def DumpInterrupted : Prop :=
  FatalPending s t ∨ s.freeze = .pm ∨ cfg.fixSigpendingDumpcore = true ∧ s.freeze = .cg2

instance : Decidable (DumpInterrupted cfg s t) := inferInstanceAs (Decidable (_ ∨ _ ∨ _))

/-- recalc_sigpending() keeps TIF_SIGPENDING while freezing() or a trap is set. -/
def recalc (pend sh bl : Finset Sig) : Bool :=
  decide (Freezing s ∨ pend \ bl ≠ ∅ ∨ sh \ bl ≠ ∅)

/-- prepare_signal(): a dying group takes SIGKILL only, and only while it dumps. -/
def Accepts (sig : Sig) : Prop :=
  s.group.exit = true → s.core.active = true ∧ sig = .kill

instance (sig : Sig) : Decidable (Accepts s sig) := inferInstanceAs (Decidable (_ → _))

def Wants (sig : Sig) : Prop :=
  (s.thread t).pc.alive = true ∧ sig ∉ (s.thread t).blocked ∧ Flag.exiting ∉ (s.thread t).flags

instance (sig : Sig) : Decidable (Wants s t sig) := inferInstanceAs (Decidable (_ ∧ _ ∧ _))

/-- A new system call only starts with nothing pending. -/
def InUserMode : Prop :=
  (s.thread t).pc = .run ∧ (s.thread t).sigpending = false ∧ (s.thread t).notify = false

/-! ### Signal generation -/

/-- complete_signal() once `t` wants the signal. A fatal signal without a core
starts the group exit and wakes everybody with SIGKILL. -/
def completeSignal (sig : Sig) : State T :=
  if (sig = .kill ∨ sig = .term) ∧ sig ∉ (s.thread t).realblocked then
    { s.zap fun u => (s.thread u).pc.live = true with
      group := { s.group with exit := true }
      hist := { s.hist with kill := s.hist.kill || decide (sig = .kill) } }
  else s.set t { s.thread t with sigpending := true }

def spend (sig : Sig) : State T :=
  { s with budget := { s.budget with sig := Function.update s.budget.sig sig (s.budget.sig sig - 1) } }

/-- kill(2) on the group: `__send_signal_locked()` on the shared queue. -/
def SendGroup (sig : Sig) (s' : State T) : Prop :=
  0 < s.budget.sig sig ∧ (∃ u, (s.thread u).pc.live = true) ∧
    if ¬ Accepts s sig ∨ sig ∈ s.shared then s' = spend s sig
    else if ∃ u, Wants s u sig then
      ∃ u, Wants s u sig ∧ s' = completeSignal { spend s sig with shared := insert sig s.shared } u sig
    else s' = { spend s sig with shared := insert sig s.shared }

/-- tgkill(2), a fault or a tracer's injection, on the private queue. -/
def SendThread (sig : Sig) (s' : State T) : Prop :=
  0 < s.budget.sig sig ∧ (s.thread t).pc.alive = true ∧
    if ¬ Accepts s sig ∨ sig ∈ (s.thread t).pending then s' = spend s sig
    else
      let queued := (spend s sig).set t { s.thread t with pending := insert sig (s.thread t).pending }
      if Wants s t sig then s' = completeSignal queued t sig else s' = queued

/-! ### get_signal() and what a fatal signal leads to -/

/-- A user worker returns from get_signal() on a fatal signal and runs its own
exit. -/
def workerLeave : State T :=
  s.set t { s.thread t with pc := if cfg.role t = .sqpoll then .sqCancel else .wqExit }

/-- do_group_exit(): zap_other_threads() unless a group action is under way. -/
def doGroupExit : State T :=
  if s.group.exit = true ∨ s.group.exec ≠ none then s.set t { s.thread t with pc := .exitSync }
  else
    { (s.zap fun u => u ≠ t ∧ (s.thread u).pc.alive = true).set t { s.thread t with pc := .exitSync } with
      group := { s.group with exit := true } }

/-- The threads zap_process() counts. -/
def zapped : Finset T :=
  Finset.univ.filter fun u =>
    u ≠ t ∧ (s.thread u).pc.live = true ∧ Flag.postcoredump ∉ (s.thread u).flags

/-- coredump_wait(): zap_process() kills and counts the others, and `t` waits for
them or goes on to write. -/
def startDump : State T :=
  { (s.zap fun u => u ∈ zapped s t).set t
      { s.thread t with
        sigpending := false
        flags := (s.thread t).flags ∪ {.signaled, .dumpcore}
        pc := if 0 < (zapped s t).card then .dumpWait else .dumpWrite } with
    group := { s.group with exit := true }
    core := ⟨true, (zapped s t).card, ∅⟩
    dumper := some t
    counted := zapped s t
    dump := ⟨0, .none⟩ }

/-- vfs_coredump(), or -EAGAIN and the thread dies like on any fatal signal. -/
def vfsCoredump : State T :=
  if s.group.exit = false ∧ s.group.exec = none then startDump s t
  else
    let signaled := s.set t { s.thread t with flags := insert .signaled (s.thread t).flags }
    if (cfg.role t).worker = true then workerLeave cfg signaled t else doGroupExit signaled t

/-- The "fatal:" label of get_signal(). -/
def fatal (sig : Sig) : State T :=
  let signaled := s.set t { s.thread t with flags := insert .signaled (s.thread t).flags }
  if (cfg.role t).worker = true ∧ cfg.fixWorkerNodump = true then workerLeave cfg signaled t
  else if sig = .core then vfsCoredump cfg s t
  else if (cfg.role t).worker = true then workerLeave cfg signaled t
  else doGroupExit signaled t

def deliver (sig : Sig) : State T := if sig = .usr then s else fatal cfg s t sig

/-- One pass of the get_signal() loop under siglock, with the notifications and
the task work drained. -/
def GetSignal (s' : State T) : Prop :=
  let th := s.thread t
  th.pc = .run ∧ th.sigpending = true ∧ th.notify = false ∧ runnable s t = ∅ ∧
    if s.group.exit = true ∨ s.group.exec ≠ none then
      s' = fatal cfg (s.set t { th with
        pending := th.pending.erase .kill
        sigpending := recalc s (th.pending.erase .kill) s.shared th.blocked }) t .kill
    else if th.pending \ th.blocked ≠ ∅ then
      ∃ sig ∈ th.pending \ th.blocked,
        s' = deliver cfg (s.set t { th with
          pending := th.pending.erase sig
          sigpending := recalc s (th.pending.erase sig) s.shared th.blocked }) t sig
    else if s.shared \ th.blocked ≠ ∅ then
      ∃ sig ∈ s.shared \ th.blocked,
        s' = deliver cfg { s.set t { th with
          sigpending := recalc s th.pending (s.shared.erase sig) th.blocked } with
          shared := s.shared.erase sig } t sig
    else s' = s.set t { th with sigpending := recalc s th.pending s.shared th.blocked }

/-- clear_notify_signal(). -/
def HandleNotify (s' : State T) : Prop :=
  (s.thread t).pc = .run ∧ (s.thread t).notify = true ∧ s' = s.set t { s.thread t with notify := false }

/-! ### Signal masks -/

/-- retarget_shared_pending(): wake one other thread that can take a shared
pending signal. -/
def RetargetWake (which : Finset Sig) (s' : State T) : Prop :=
  let rt := s.shared ∩ which
  let cand := Finset.univ.filter fun u => u ≠ t ∧ (s.thread u).pc.live = true ∧
    Flag.exiting ∉ (s.thread u).flags ∧ rt \ (s.thread u).blocked ≠ ∅
  if cfg.fixRetargetGroupExit = true ∧ s.group.exit = true ∨ rt = ∅ ∨ cand = ∅ then s' = s
  else ∃ u ∈ cand, s' = s.set u { s.thread u with sigpending := true }

/-- `__set_task_blocked()` retargets only for a thread with a signal pending and
others around. -/
def Retarget (which : Finset Sig) (s' : State T) : Prop :=
  if (s.thread t).sigpending = true ∧ ¬ GroupEmpty s t then RetargetWake cfg s t which s' else s' = s

/-- sigprocmask(SIG_BLOCK, {USR}). -/
def BlockUsr (s' : State T) : Prop :=
  cfg.role t = .user ∧ InUserMode s t ∧ Sig.usr ∉ (s.thread t).blocked ∧
    ∃ s₁, Retarget cfg s t {.usr} s₁ ∧
      s' = s₁.set t { s₁.thread t with blocked := insert .usr (s.thread t).blocked }

/-- sigprocmask(SIG_UNBLOCK, {USR}). -/
def UnblockUsr (s' : State T) : Prop :=
  let th := s.thread t
  cfg.role t = .user ∧ InUserMode s t ∧ Sig.usr ∈ th.blocked ∧
    s' = s.set t { th with
      blocked := th.blocked.erase .usr
      sigpending := th.sigpending || recalc s th.pending s.shared (th.blocked.erase .usr) }

/-- do_sigtimedwait() for USR with USR blocked and nothing queued. -/
def SigWaitEnter (s' : State T) : Prop :=
  let th := s.thread t
  cfg.role t = .user ∧ InUserMode s t ∧ Sig.usr ∈ th.blocked ∧ Sig.usr ∉ th.pending ∧ Sig.usr ∉ s.shared ∧
    s' = s.set t { th with
      realblocked := th.blocked
      blocked := th.blocked.erase .usr
      sigpending := recalc s th.pending s.shared (th.blocked.erase .usr)
      pc := .sigwait }

/-- Back from the sleep: the real mask is restored, which retargets USR, then the
wait dequeues with its own mask. -/
def SigWaitWake (s' : State T) : Prop :=
  let th := s.thread t
  th.pc = .sigwait ∧
    ∃ s₁, Retarget cfg s t (th.realblocked \ th.blocked) s₁ ∧
      s' = { s₁.set t { s₁.thread t with
          blocked := th.realblocked
          realblocked := ∅
          pending := th.pending.erase .usr
          pc := .run } with
        shared := if Sig.usr ∈ th.pending then s.shared else s.shared.erase .usr }

/-- PTRACE_SETSIGMASK on a user worker: refused with the fix. -/
def TracerClearMask (s' : State T) : Prop :=
  let th := s.thread t
  (cfg.role t).worker = true ∧ th.pc.alive = true ∧ cfg.fixPtraceMask = false ∧ 0 < s.budget.tracer ∧
    s' = { s.set t { th with
        blocked := ∅
        sigpending := th.sigpending || recalc s th.pending s.shared ∅ } with
      budget := { s.budget with tracer := s.budget.tracer - 1 } }

/-- A freezer lands on a running dump. -/
def Freeze (kind : Freezer) (s' : State T) : Prop :=
  kind ≠ .none ∧ s.freeze = .none ∧ (dumperPc s = .dumpWait ∨ dumperPc s = .dumpWrite) ∧
    s' = { s with
      freeze := kind
      thread := fun u =>
        if (s.thread u).pc.alive = true then { s.thread u with sigpending := true } else s.thread u
      hist := { s.hist with
        freezeMidDump := decide (dumperPc s = .dumpWait ∨ dumperPc s = .dumpWrite) } }

/-! ### The dumper -/

/-- The wait for the counted threads returns. -/
def DumpWaitDone (s' : State T) : Prop :=
  (s.thread t).pc = .dumpWait ∧ s.core.remaining = 0 ∧
    s' = s.set t { s.thread t with pc := .dumpWrite }

/-- dump_emit(): dump_interrupted() first, then a write that may have to wait for
room and then fails on signal_pending(). -/
def DumpChunk (s' : State T) : Prop :=
  let truncated := { s.set t { s.thread t with pc := .dumpFinish } with
    dump := { s.dump with result := .truncated } }
  (s.thread t).pc = .dumpWrite ∧
    if DumpInterrupted cfg s t then s' = truncated
    else
      SignalPending cfg s t ∧ s' = truncated ∨
      s.dump.written + 1 < cfg.chunks ∧
        s' = { s with dump := { s.dump with written := s.dump.written + 1 } } ∨
      s.dump.written + 1 = cfg.chunks ∧
        s' = { s.set t { s.thread t with pc := .dumpFinish } with
          dump := ⟨s.dump.written + 1, .complete⟩ }

/-- coredump_finish(): detach core_state, then release the parked threads, under
rcu_read_lock() with the fix. -/
def DumpFinish (s' : State T) : Prop :=
  (s.thread t).pc = .dumpFinish ∧
    s' = { s.set t { s.thread t with pc := .dumpRelease } with
      releaseList := s.core.tasks
      core := ⟨false, 0, ∅⟩
      rcuReader := cfg.fixRcuRelease }

/-- From here on the parked thread `u` may leave. -/
def ReleaseClear (u : T) (s' : State T) : Prop :=
  (s.thread t).pc = .dumpRelease ∧ u ∈ s.releaseList ∧ (s.thread u).released = false ∧
    s' = s.set u { s.thread u with released := true }

/-- wake_up_process(). -/
def ReleaseWake (u : T) (s' : State T) : Prop :=
  (s.thread t).pc = .dumpRelease ∧ u ∈ s.releaseList ∧ (s.thread u).released = true ∧
    s' = { s with releaseList := s.releaseList.erase u }

def ReleaseDone (s' : State T) : Prop :=
  let unlocked := { s with rcuReader := false }
  (s.thread t).pc = .dumpRelease ∧ s.releaseList = ∅ ∧
    s' = if (cfg.role t).worker = true then workerLeave cfg unlocked t else doGroupExit unlocked t

/-! ### do_exit() -/

def ExitSyscall (s' : State T) : Prop :=
  cfg.role t = .user ∧ InUserMode s t ∧ s' = s.set t { s.thread t with pc := .exitSync }

def ExitGroupSyscall (s' : State T) : Prop :=
  cfg.role t = .user ∧ InUserMode s t ∧ s' = doGroupExit s t

/-- synchronize_group_exit() and coredump_task_exit(). With core_state set the
thread decrements threads_remaining; only a PF_SIGNALED one joins the list and
parks. -/
def SyncGroupExit (s' : State T) : Prop :=
  let th := s.thread t
  let quick := s.group.quick - 1
  let left := { th with flags := insert Flag.postcoredump th.flags }
  let base := { s with group := { s.group with quick := quick, exit := s.group.exit || decide (quick = 0) } }
  th.pc = .exitSync ∧
    s' =
      if s.core.active = true then
        if Flag.signaled ∈ th.flags then
          { base.set t { left with decremented := true, pc := .parked } with
            core := { s.core with remaining := s.core.remaining - 1, tasks := insert t s.core.tasks } }
        else
          { base.set t { left with decremented := true, pc := .exitCancel } with
            core := { s.core with remaining := s.core.remaining - 1 } }
      else base.set t { left with pc := .exitCancel }

/-- The parked thread sees that it was released. -/
def Unpark (s' : State T) : Prop :=
  (s.thread t).pc = .parked ∧ (s.thread t).released = true ∧
    s' = s.set t { s.thread t with pc := .exitCancel }

/-- io_uring_files_cancel(): a ring owner sets IO_WQ_BIT_EXIT. -/
def ExitCancel (s' : State T) : Prop :=
  (s.thread t).pc = .exitCancel ∧
    s' = if t ∈ cfg.ringOwners then s.set t { s.thread t with wqexit := true, pc := .exitCancelTw }
      else s.set t { s.thread t with pc := .exitSignals }

/-- io_wq_cancel_tw_create(): the queued creations of `t` are dropped, delayed
ones stay, and `t` waits for its workers. -/
def CancelWait (here next : PC) (s' : State T) : Prop :=
  (s.thread t).pc = here ∧
    s' = s.set t { s.thread t with twq := (s.thread t).twq ∩ {.retry}, pc := next }

/-- wait_for_completion(worker_done). -/
def WaitDone (here next : PC) (s' : State T) : Prop :=
  (s.thread t).pc = here ∧ WorkersDone cfg s t ∧ s' = s.set t { s.thread t with pc := next }

def ExitCancelWait (s' : State T) : Prop := CancelWait s t .exitCancelTw .exitWaitWorkers s'

def ExitWorkersDone (s' : State T) : Prop := WaitDone cfg s t .exitWaitWorkers .exitSignals s'

/-- exit_signals(): PF_EXITING, and shared signals are retargeted unless the group
is already dying. -/
def ExitSignals (s' : State T) : Prop :=
  (s.thread t).pc = .exitSignals ∧
    ∃ s₁, (if GroupEmpty s t ∨ s.group.exit = true ∨ (s.thread t).sigpending = false then s₁ = s
        else RetargetWake cfg s t (signals \ (s.thread t).blocked) s₁) ∧
      s' = s₁.set t { s₁.thread t with flags := insert .exiting (s.thread t).flags, pc := .exitNotify }

/-- exit_notify() and release_task(). A leader with live siblings stays a zombie,
everybody else is released; the last one has the zombie leader reaped. -/
def ExitNotify (s' : State T) : Prop :=
  (s.thread t).pc = .exitNotify ∧
    s' =
      if t = cfg.leader ∧ ¬ GroupEmpty s t then s.set t { s.thread t with pc := .zombie }
      else
        { s with
          thread := fun u =>
            if u = t then { s.thread u with pc := .dead }
            else if u = cfg.leader ∧ (s.thread cfg.leader).pc = .zombie ∧ othersLive s t = {cfg.leader} then
              { s.thread u with pc := .dead }
            else s.thread u
          group := { s.group with
            notifyCount :=
              if s.group.notifyCount > 0 ∧ t ≠ cfg.leader then s.group.notifyCount - 1
              else s.group.notifyCount } }

/-- A grace period after release_task(), for a thread the dumper still has to
wake. -/
def Freed (s' : State T) : Prop :=
  (s.thread t).pc = .dead ∧ t ∈ s.releaseList ∧ (s.thread t).freed = false ∧ s.rcuReader = false ∧
    s' = s.set t { s.thread t with freed := true }

/-! ### io-wq workers and the SQPOLL thread -/

/-- io_wq_worker() sees IO_WQ_BIT_EXIT. -/
def WorkerSeesExit (s' : State T) : Prop :=
  (cfg.role t).ioWq = true ∧ (s.thread t).pc = .run ∧
    (∃ o, (s.thread t).owner = some o ∧ (s.thread o).wqexit = true) ∧
    s' = s.set t { s.thread t with pc := .wqExit }

/-- Task work lands on `o`; history remembers when that was a running dumper. -/
def notified (o : T) (th : Thread T) : State T :=
  { s.set o { th with notify := true } with
    hist := { s.hist with
      notifyDumper := s.hist.notifyDumper || decide (some o = s.dumper ∧ Dumping s) } }

/-- A worker blocks inside a request: create_worker_cb() goes to its owner unless
the wq is on its way out. -/
def WorkerQueuesCreate (s' : State T) : Prop :=
  (cfg.role t).ioWq = true ∧ (s.thread t).pc = .run ∧
    ∃ o, (s.thread t).owner = some o ∧ (s.thread o).wqexit = false ∧
      Work.worker t ∉ (s.thread o).twq ∧
      s' = notified s o { s.thread o with twq := insert (.worker t) (s.thread o).twq }

/-- io_worker_exit(): cancel the worker's own queued creation, drop the wq
reference, then do_exit(). -/
def WorkerExit (s' : State T) : Prop :=
  let cancelled : State T := (s.thread t).owner.elim s fun o =>
    s.set o { s.thread o with twq := (s.thread o).twq.erase (.worker t) }
  (s.thread t).pc = .wqExit ∧
    s' = cancelled.set t { cancelled.thread t with refput := true, pc := .exitSync }

/-- io_sq_thread() after get_signal(). -/
def SqCancel (s' : State T) : Prop :=
  (s.thread t).pc = .sqCancel ∧ s' = s.set t { s.thread t with wqexit := true, pc := .sqCancelTw }

def SqCancelWait (s' : State T) : Prop := CancelWait s t .sqCancelTw .sqWaitWorkers s'

def SqWorkersDone (s' : State T) : Prop := WaitDone cfg s t .sqWaitWorkers .exitSync s'

/-! ### Worker creation -/

/-- copy_process() for an io thread `n`: it inherits the creator's flags, blocks
everything but SIGKILL and joins the group. -/
def newWorker (n : T) : State T :=
  { s.set n { s.thread n with
      pc := .run
      owner := some t
      flags := (s.thread t).flags
      blocked := allButKill
      pending := ∅
      sigpending := false
      notify := false
      refput := false } with
    group := { s.group with quick := s.group.quick + 1 } }

/-- create_worker_cb() and create_worker_cont() as task work: an idle worker is
woken, the gates or a pending signal refuse, a new thread is made or there is no
slot left. -/
def CreateWorker (s' : State T) : Prop :=
  let th := s.thread t
  t ∈ cfg.ringOwners ∧ th.pc.taskWork = true ∧
    ∃ item ∈ runnable s t,
      let taken := s.set t { th with twq := th.twq.erase item }
      (item ≠ .cont ∧
        (∃ w, (cfg.role w).ioWq = true ∧ (s.thread w).owner = some t ∧ (s.thread w).pc = .run ∧
          Work.worker w ≠ item) ∧
        s' = taken) ∨
      if cfg.fixGateSignaled = true ∧ Flag.signaled ∈ th.flags ∨
          cfg.fixGatePostcoredump = true ∧ Flag.postcoredump ∈ th.flags then s' = taken
      else if th.sigpending = true then
        if ¬ FatalPending s t ∧ 0 < s.budget.retry then
          s' = { s.set t { th with twq := insert .retry (th.twq.erase item) } with
            budget := { s.budget with retry := s.budget.retry - 1 } }
        else s' = taken
      else
        (∃ n, cfg.role n = .slot ∧ (s.thread n).pc = .none ∧ s' = newWorker taken t n) ∨
        (∀ n, cfg.role n = .slot → (s.thread n).pc ≠ .none) ∧ s' = taken

/-- The delayed work fires: create_worker_cont() is queued, or given up when the
wq is on its way out. -/
def RetryFires (s' : State T) : Prop :=
  let th := s.thread t
  Work.retry ∈ th.twq ∧
    s' = if th.wqexit = true then s.set t { th with twq := th.twq.erase .retry }
      else notified s t { th with twq := insert .cont (th.twq.erase .retry) }

/-! ### execve(2) -/

/-- begin_new_exec(). -/
def ExecStart (s' : State T) : Prop :=
  cfg.role t = .user ∧ InUserMode s t ∧ 0 < s.budget.exec ∧
    s' = { (if cfg.fixExecCancelFirst = true ∧ t ∈ cfg.ringOwners then
          s.set t { s.thread t with wqexit := true, pc := .execCancelTw }
        else s.set t { s.thread t with pc := .execDethread }) with
      budget := { s.budget with exec := s.budget.exec - 1 } }

def ExecCancelWait (s' : State T) : Prop := CancelWait s t .execCancelTw .execWaitWorkers s'

def ExecWorkersDone (s' : State T) : Prop := WaitDone cfg s t .execWaitWorkers .execDethread s'

/-- de_thread(): refuse if a group action is under way, else become
group_exec_task, SIGKILL the siblings and count them. -/
def DeThread (s' : State T) : Prop :=
  (s.thread t).pc = .execDethread ∧
    s' =
      if GroupEmpty s t then s.set t { s.thread t with pc := .execPost }
      else if s.group.exit = true ∨ s.group.exec ≠ none then s.set t { s.thread t with pc := .run }
      else
        { (s.zap fun u => u ≠ t ∧ (s.thread u).pc.alive = true).set t
            { s.thread t with pc := .execWait } with
          group := { s.group with
            exec := some t
            notifyCount := ((othersLive s t).card : ℤ) - (if t = cfg.leader then 0 else 1) } }

/-- notify_count reached zero and, for a non-leader, the leader is a zombie it can
release. -/
def DeThreadDone (s' : State T) : Prop :=
  (s.thread t).pc = .execWait ∧ s.group.notifyCount = 0 ∧
    (t = cfg.leader ∨ (s.thread cfg.leader).pc = .zombie) ∧
    s' = { s with
      thread := fun u =>
        if u = t then { s.thread u with pc := .execPost }
        else if u = cfg.leader then { s.thread u with pc := .dead }
        else s.thread u
      group := { s.group with exec := none } }

/-- A fatal signal while waiting gives the group back. -/
def DeThreadKilled (s' : State T) : Prop :=
  (s.thread t).pc = .execWait ∧ Sig.kill ∈ (s.thread t).pending ∧
    s' = { s.set t { s.thread t with pc := .run } with
      group := { s.group with exec := none, notifyCount := 0 } }

/-- The unfixed tree cancels io_uring only here. -/
def ExecPost (s' : State T) : Prop :=
  (s.thread t).pc = .execPost ∧
    s' = if cfg.fixExecCancelFirst = false ∧ t ∈ cfg.ringOwners then
        s.set t { s.thread t with wqexit := true, pc := .execLateTw }
      else s.set t { s.thread t with pc := .run }

def ExecLateWait (s' : State T) : Prop := CancelWait s t .execLateTw .execLateWait s'

def ExecLateDone (s' : State T) : Prop := WaitDone cfg s t .execLateWait .run s'

/-! ### The specification -/

def Init : Prop :=
  s = {
    thread := fun t => {
      pc := if cfg.role t = .slot then .none else .run
      flags := ∅
      pending := ∅
      blocked := if (cfg.role t).worker = true then allButKill else ∅
      realblocked := ∅
      sigpending := false
      notify := false
      decremented := false
      released := false
      freed := false
      wqexit := false
      twq := ∅
      owner := cfg.owner0 t
      refput := false }
    shared := ∅
    group := ⟨false, none, 0, (Finset.univ.filter fun t => cfg.role t ≠ .slot).card⟩
    core := ⟨false, 0, ∅⟩
    dumper := none
    counted := ∅
    releaseList := ∅
    rcuReader := false
    dump := ⟨0, .none⟩
    freeze := .none
    hist := ⟨false, false, false⟩
    budget := ⟨cfg.sigBudget, cfg.execBudget, cfg.tracerBudget, cfg.retryBudget⟩ }

end Steps

inductive ThreadStep {T : Type} [DecidableEq T] [Fintype T] (cfg : Config T) (s : State T) (t : T)
    (s' : State T) : Prop
  | getSignal (step : GetSignal cfg s t s')
  | handleNotify (step : HandleNotify s t s')
  | sigWaitWake (step : SigWaitWake cfg s t s')
  | dumpWaitDone (step : DumpWaitDone s t s')
  | dumpChunk (step : DumpChunk cfg s t s')
  | dumpFinish (step : DumpFinish cfg s t s')
  | releaseClear (u : T) (step : ReleaseClear s t u s')
  | releaseWake (u : T) (step : ReleaseWake s t u s')
  | releaseDone (step : ReleaseDone cfg s t s')
  | syncGroupExit (step : SyncGroupExit s t s')
  | unpark (step : Unpark s t s')
  | exitCancel (step : ExitCancel cfg s t s')
  | exitCancelWait (step : ExitCancelWait s t s')
  | exitWorkersDone (step : ExitWorkersDone cfg s t s')
  | exitSignals (step : ExitSignals cfg s t s')
  | exitNotify (step : ExitNotify cfg s t s')
  | workerSeesExit (step : WorkerSeesExit cfg s t s')
  | workerExit (step : WorkerExit s t s')
  | sqCancel (step : SqCancel s t s')
  | sqCancelWait (step : SqCancelWait s t s')
  | sqWorkersDone (step : SqWorkersDone cfg s t s')
  | createWorker (step : CreateWorker cfg s t s')
  | retryFires (step : RetryFires s t s')
  | execCancelWait (step : ExecCancelWait s t s')
  | execWorkersDone (step : ExecWorkersDone cfg s t s')
  | deThread (step : DeThread cfg s t s')
  | deThreadDone (step : DeThreadDone cfg s t s')
  | deThreadKilled (step : DeThreadKilled s t s')
  | execPost (step : ExecPost cfg s t s')
  | execLateWait (step : ExecLateWait s t s')
  | execLateDone (step : ExecLateDone cfg s t s')

/-- Some thread takes a step of its own. -/
def Advance {T : Type} [DecidableEq T] [Fintype T] (cfg : Config T) (s s' : State T) : Prop :=
  ∃ t, ThreadStep cfg s t s'

/-- Steps the environment or user space takes; nothing forces them. -/
inductive EnvStep {T : Type} [DecidableEq T] [Fintype T] (cfg : Config T) (s s' : State T) : Prop
  | sendGroup (sig : Sig) (step : SendGroup s sig s')
  | sendThread (t : T) (sig : Sig) (step : SendThread s t sig s')
  | blockUsr (t : T) (step : BlockUsr cfg s t s')
  | unblockUsr (t : T) (step : UnblockUsr cfg s t s')
  | sigWaitEnter (t : T) (step : SigWaitEnter cfg s t s')
  | tracerClearMask (t : T) (step : TracerClearMask cfg s t s')
  | exitSyscall (t : T) (step : ExitSyscall cfg s t s')
  | exitGroupSyscall (t : T) (step : ExitGroupSyscall cfg s t s')
  | execStart (t : T) (step : ExecStart cfg s t s')
  | workerQueuesCreate (t : T) (step : WorkerQueuesCreate cfg s t s')
  | freed (t : T) (step : Freed s t s')
  | freeze (kind : Freezer) (step : Freeze s kind s')

def Next {T : Type} [DecidableEq T] [Fintype T] (cfg : Config T) (s s' : State T) : Prop :=
  EnvStep cfg s s' ∨ Advance cfg s s'

def spec {T : Type} [DecidableEq T] [Fintype T] (cfg : Config T) : System (State T) := ⟨Init cfg, Next cfg⟩

/-! ### The properties -/

section Properties

variable {T : Type} [DecidableEq T] (s : State T)

omit [DecidableEq T] in
def RemainingNonNegative : Prop := s.core.active = true → 0 ≤ s.core.remaining

/-- `CountConsistent`: threads_remaining is exactly the counted threads that have
not announced themselves yet. -/
def CountConsistent : Prop :=
  s.core.active = true →
    s.core.remaining = (s.counted.filter fun t => (s.thread t).decremented = false).card

omit [DecidableEq T] in
def OnlyCountedDecrement : Prop := ∀ t, (s.thread t).decremented = true → t ∈ s.counted

omit [DecidableEq T] in
def ReleasedAfterAllParked : Prop :=
  s.dumper ≠ none ∧ dumperPc s ≠ .dumpWait → ∀ t ∈ s.counted, (s.thread t).decremented = true

omit [DecidableEq T] in
def SingleThreadedExec : Prop :=
  ∀ e, (s.thread e).pc.execWindow = true → ∀ t, t ≠ e → (s.thread t).pc = .none ∨ (s.thread t).pc = .dead

omit [DecidableEq T] in
/-- When de_thread() may return, nobody but a zombie leader is left beside the
exec'ing thread. -/
def NotifyCountHolds (cfg : Config T) : Prop :=
  ∀ e, (s.thread e).pc = .execWait → s.group.notifyCount = 0 →
    (e = cfg.leader ∨ (s.thread cfg.leader).pc = .zombie) → ∀ t, t ≠ e → (s.thread t).pc.live = true →
      t = cfg.leader ∧ (s.thread t).pc = .zombie

omit [DecidableEq T] in
def WorkerNeverDumps (cfg : Config T) : Prop :=
  ∀ t, (cfg.role t).worker = true → (s.thread t).pc.dumping = false

omit [DecidableEq T] in
/-- `TruncationJustified`: SIGKILL, a freezer, or task work landing on the
dumper. -/
def TruncationJustified : Prop :=
  s.dump.result = .truncated → s.hist.kill = true ∨ Freezing s ∨ s.hist.notifyDumper = true

omit [DecidableEq T] in
def FreezeAbortsDump : Prop := s.hist.freezeMidDump = true → s.dump.result ≠ .complete

omit [DecidableEq T] in
def AllDead : Prop := ∀ t, (s.thread t).pc = .none ∨ (s.thread t).pc = .dead

end Properties

end LinuxTla.Coredump
