import LinuxTla.Lib.Transition
import Mathlib.Data.Fintype.Basic
import Mathlib.Data.Finset.Basic
import Mathlib.Data.Int.Order.Basic

/-! `Executor.tla`: one service that the manager starts through systemd-executor, and what
the manager hears of it. `none` says that an action is not enabled. -/

namespace LinuxTla.Executor

open Lib

inductive ServiceType
  | simple | exec | oneshot
deriving DecidableEq, Repr

inductive KillMode
  | controlGroup | mixed
deriving DecidableEq, Repr

/-- `Procs`: the executor, the pid namespace child and (sd-pam). -/
inductive Proc
  | executor | child | sdPam
deriving DecidableEq, Repr

instance : Fintype Proc := ⟨{.executor, .child, .sdPam}, fun p => by cases p <;> decide⟩

/-- `Events`: the sources of the manager's loop. -/
inductive Event
  | userLookup | cgInotify | pidref | handoff | execFd | sigchld | signals | cgEmpty | timer
deriving DecidableEq, Repr

instance : Fintype Event :=
  ⟨{.userLookup, .cgInotify, .pidref, .handoff, .execFd, .sigchld, .signals, .cgEmpty, .timer}, fun ev => by cases ev <;> decide⟩

structure Config where
  type : ServiceType
  pam : Bool
  pidns : Bool
  user : Bool
  remainAfterExit : Bool
  killMode : KillMode
  prio : Event → ℤ
  stopBudget : ℕ
  timeoutBudget : ℕ
  payloadStatuses : ℕ → Bool
  pamDropMayFail : Bool
  fixColdMark : Bool
  fixPamClosesExecFd : Bool
  fixPpidCheck : Bool
  barrier : Bool
  pamWaitsForParent : Bool
  fixPidnsParentClosesExecFd : Bool

def prioDefault : Event → ℤ
  | .userLookup => -12
  | .cgInotify => -10
  | .pidref => -8
  | .handoff => -7
  | .execFd => -6
  | .sigchld => -4
  | .signals => -3
  | .cgEmpty => -2
  | .timer => 0

/-- `PCs`: the phases of exec_invoke() and of (sd-pam). -/
inductive Pc
  | none | init | creds | setup | pam | pamsync | ns | nsexit | sandbox | hot | handoff | execve | payload
  | closefd | drop | prctl | place | check | wait | close | exit | dead
deriving DecidableEq, Repr

inductive ServiceState
  | start | running | exited | stopSigterm | stopSigkill | finalSigterm | finalSigkill | dead | failed
deriving DecidableEq, Repr

inductive Result
  | success | exitCode | signal | timeout
deriving DecidableEq, Repr

inductive Job
  | running | done | failed | canceled
deriving DecidableEq, Repr

inductive Uid
  | root | user
deriving DecidableEq, Repr

inductive Session
  | none | opened | closed
deriving DecidableEq, Repr

inductive Signal
  | term | kill
deriving DecidableEq, Repr

/-- What waitid() reports of a process. -/
inductive Status
  | none
  | exited (code : ℕ)
  | killed (signal : Signal)
deriving DecidableEq, Repr

/-- `parent` is `none` for a child of the manager, `mainPid` once pidref_done() ran. -/
structure State where
  state : ServiceState
  result : Result
  mainPid : Option Proc
  job : Job
  timerArmed : Bool
  timerFired : Bool
  execFdSrc : Bool
  hot : Bool
  watched : Finset Proc
  uidKnown : Bool
  handoffRec : Bool
  mainStatus : Status
  sigchldDefer : Bool
  sigPending : Bool
  cgInotify : Bool
  cgEmptyQ : Bool
  pc : Proc → Pc
  uid : Proc → Uid
  pdeath : Proc → Bool
  parent : Proc → Option Proc
  exitst : Proc → Status
  unreaped : Finset Proc
  pipeW : Finset Proc
  pipeB : List Bool
  ulQ : List Proc
  hoQ : List Proc
  prQ : List Proc
  sigterm : Proc → Bool
  sigkill : Proc → Bool
  session : Session
  placed : Bool
  dropFailed : Bool
  execd : Bool
  lost : Bool
  uidLate : Bool
  handoffLost : Bool
  stops : ℕ
  timeouts : ℕ

variable (cfg : Config)

/-- `Payload`: the process that execve()s. -/
def Config.payload : Proc := if cfg.pidns then .child else .executor

namespace State

variable (s : State)

def Alive (p : Proc) : Prop := s.pc p ≠ .none ∧ s.pc p ≠ .dead

instance (p : Proc) : Decidable (s.Alive p) := inferInstanceAs (Decidable (_ ∧ _))

def aliveSet : Finset Proc := Finset.univ.filter s.Alive

/-- A fatal signal is delivered before any further user code runs; (sd-pam) blocks SIGTERM. -/
def NoFatal (p : Proc) : Prop := s.sigkill p = false ∧ (p = .sdPam ∨ s.sigterm p = false)

instance (p : Proc) : Decidable (s.NoFatal p) := inferInstanceAs (Decidable (_ ∧ _))

/-- `Exists`: the process is there, if only as a zombie. -/
def There (p : Proc) : Prop := s.Alive p ∨ p ∈ s.unreaped

instance (p : Proc) : Decidable (s.There p) := inferInstanceAs (Decidable (_ ∨ _))

def zombies : Finset Proc := s.unreaped.filter fun p => s.parent p = none

def Ready : Event → Prop
  | .userLookup => s.ulQ ≠ []
  | .pidref => s.prQ ≠ []
  | .handoff => s.hoQ ≠ []
  | .execFd => s.execFdSrc = true ∧ (s.pipeB ≠ [] ∨ s.pipeW = ∅)
  | .sigchld => s.sigchldDefer = true
  | .signals => s.sigPending = true
  | .cgInotify => s.cgInotify = true
  | .cgEmpty => s.cgEmptyQ = true
  | .timer => s.timerFired = true ∧ s.timerArmed = true

instance (ev : Event) : Decidable (s.Ready ev) := by
  cases ev <;> rw [Ready] <;> infer_instance

/-- sd_event_dispatch(): the pending source with the lowest priority number. -/
def Top (ev : Event) : Prop := s.Ready ev ∧ ∀ e, s.Ready e → cfg.prio ev ≤ cfg.prio e

instance (ev : Event) : Decidable (s.Top cfg ev) := inferInstanceAs (Decidable (_ ∧ _))

end State

/-! ### The service -/

/-- The fields of the Service object, and the signals the manager sends. -/
structure Mgr where
  state : ServiceState
  result : Result
  main : Option Proc
  job : Job
  timer : Bool
  execFd : Bool
  hot : Bool
  watched : Finset Proc
  term : Finset Proc
  kill : Finset Proc

def State.mgr (s : State) : Mgr where
  state := s.state
  result := s.result
  main := s.mainPid
  job := s.job
  timer := s.timerArmed
  execFd := s.execFdSrc
  hot := s.hot
  watched := s.watched
  term := ∅
  kill := ∅

def sticky (r : Mgr) (f : Result) : Result := if r.result = .success then f else r.result

def ServiceState.WithMain (st : ServiceState) : Prop :=
  st = .start ∨ st = .running ∨ st = .stopSigterm ∨ st = .stopSigkill ∨ st = .finalSigterm ∨ st = .finalSigkill

instance (st : ServiceState) : Decidable st.WithMain := inferInstanceAs (Decidable (_ ∨ _))

def ServiceState.Inactive (st : ServiceState) : Prop := st = .dead ∨ st = .failed

instance (st : ServiceState) : Decidable st.Inactive := inferInstanceAs (Decidable (_ ∨ _))

def ServiceState.Active (st : ServiceState) : Prop := st = .running ∨ st = .exited

instance (st : ServiceState) : Decidable st.Active := inferInstanceAs (Decidable (_ ∨ _))

/-- service_set_state() and the rule for the start job of unit_notify(). -/
def setState (r : Mgr) (st : ServiceState) : Mgr :=
  { r with
    state := st
    job :=
      if r.job ≠ .running then r.job
      else if st.Active ∨ st = .dead then .done
      else if st = .failed then .failed
      else .running
    main := if st.WithMain then r.main else none
    watched :=
      if st.Inactive then ∅ else if st.WithMain then r.watched else r.watched \ r.main.elim ∅ fun p => {p}
    execFd := if st = .start then r.execFd else false
    timer := if st = .start then r.timer else false }

section Service

variable (s : State)

/-- unit_kill_context(): the main process if it still exists, and the others of the cgroup. -/
def killTargets (r : Mgr) (op : Signal) : Finset Proc :=
  (r.main.elim ∅ fun p => if s.There p then {p} else ∅) ∪
    (if cfg.killMode = .controlGroup ∨ op = .kill then s.aliveSet \ r.main.elim ∅ fun p => {p} else ∅)

def enterDead (r : Mgr) (f : Result) : Mgr :=
  let r1 := { r with result := sticky r f }
  setState r1 (if r1.result = .success then .dead else .failed)

/-- One stage of service_enter_signal(): if nothing was signalled, the next stage follows
right away. -/
def enterStage (st : ServiceState) (op : Signal) (next : Mgr → Mgr) (r : Mgr) (f : Result) : Mgr :=
  let r1 := { r with result := sticky r f }
  let tg := killTargets cfg s r1 op
  if tg.Nonempty then
    { setState r1 st with term := if op = .term then tg else ∅, kill := if op = .kill then tg else ∅ }
  else next r1

def enterFinalSigkill : Mgr → Result → Mgr := enterStage cfg s .finalSigkill .kill fun r => enterDead r .success
def enterFinalSigterm : Mgr → Result → Mgr :=
  enterStage cfg s .finalSigterm .term fun r => enterFinalSigkill cfg s r .success

/-- service_enter_stop_post(): no ExecStopPost=. -/
def enterStopPost (r : Mgr) (f : Result) : Mgr := enterFinalSigterm cfg s { r with result := sticky r f } .success

def enterStopSigkill : Mgr → Result → Mgr := enterStage cfg s .stopSigkill .kill fun r => enterStopPost cfg s r .success
def enterStopSigterm : Mgr → Result → Mgr :=
  enterStage cfg s .stopSigterm .term fun r => enterStopSigkill cfg s r .success

def enterStop (r : Mgr) (f : Result) : Mgr := enterStopSigterm cfg s { r with result := sticky r f } .success

def enterRunning (r : Mgr) (f : Result) : Mgr :=
  let r1 := { r with result := sticky r f }
  if r1.result ≠ .success then enterStopSigterm cfg s r1 f
  else if r1.main ≠ none then setState r1 .running
  else if cfg.remainAfterExit then setState r1 .exited
  else enterStop cfg s r1 .success

/-- service_enter_start_post(): no ExecStartPost=. -/
def enterStartPost (r : Mgr) : Mgr := enterRunning cfg s r .success

def Config.Clean : Status → Prop
  | .exited code => code = 0
  | .killed signal => cfg.type ≠ .oneshot ∧ signal = .term
  | .none => False

instance (st : Status) : Decidable (cfg.Clean st) := by
  cases st <;> rw [Config.Clean] <;> infer_instance

def Config.failure (st : Status) : Result :=
  if cfg.Clean st then .success else match st with
    | .exited _ => .exitCode
    | _ => .signal

/-- service_sigchld_event() for the main process. The source has no other case. -/
def mainExit (r : Mgr) (st : Status) : Mgr :=
  let f := cfg.failure st
  let r1 := { r with execFd := false, main := none, result := sticky r f }
  match r.state with
  | .start =>
    if cfg.type = .oneshot then
      if f = .success then enterStartPost cfg s r1 else enterStopSigterm cfg s r1 f
    else enterRunning cfg s r1 f
  | .running => enterRunning cfg s r1 f
  | .stopSigterm | .stopSigkill => enterStopPost cfg s r1 f
  | .finalSigterm | .finalSigkill => enterDead r1 f
  | .exited | .dead | .failed => r1

/-- service_notify_cgroup_empty_event() -/
def cgEmpty (r : Mgr) : Mgr :=
  match r.state with
  | .running => enterRunning cfg s r .success
  | .stopSigterm | .stopSigkill => if r.main = none then enterStopPost cfg s r .success else r
  | .finalSigterm | .finalSigkill => if r.main = none then enterDead r .success else r
  | _ => r

/-- The record is written back and the signals it carries are delivered. -/
def apply (r : Mgr) : State :=
  { s with
    state := r.state
    result := r.result
    mainPid := r.main
    job := r.job
    timerArmed := r.timer
    execFdSrc := r.execFd
    hot := r.hot
    watched := r.watched
    timerFired := if r.timer then s.timerFired else false
    sigterm := fun q => s.sigterm q || decide (q ∈ r.term)
    sigkill := fun q => s.sigkill q || decide (q ∈ r.kill) }

end Service

/-! ### The processes -/

section Processes

variable (s : State) (p : Proc)

/-- exit(): a zombie for its parent; the children go to the reaper, and
PR_SET_PDEATHSIG fires if the parent may kill the child. -/
def die (st : Status) : State :=
  { s with
    pc := Function.update s.pc p .dead
    exitst := Function.update s.exitst p st
    unreaped := insert p s.unreaped
    pipeW := s.pipeW.erase p
    parent := fun q => if s.parent q = some p then none else s.parent q
    sigterm := fun q => s.sigterm q || decide (q ≠ p ∧ s.Alive q ∧ s.parent q = some p ∧ s.pdeath q = true ∧
      (s.uid p = .root ∨ s.uid p = s.uid q))
    sigPending := s.sigPending || decide (s.parent p = none ∨ ∃ q ∈ s.unreaped, s.parent q = some p)
    cgInotify := s.cgInotify || decide (s.aliveSet \ {p} = ∅) }

def advance (nx : Pc) : State := { s with pc := Function.update s.pc p nx }

def exitFds : ℕ := 202
def exitExec : ℕ := 203
def exitUser : ℕ := 217
def exitCgroup : ℕ := 219
def exitPam : ℕ := 224
def exitNamespace : ℕ := 226
def exitSeccomp : ℕ := 228

def execFail (code : ℕ) : State := die s p (.exited code)

/-- A process that is at the phase and has no fatal signal pending takes the step. -/
def State.step (pc : Pc) (t : State) : Option State := if s.NoFatal p ∧ s.pc p = pc then some t else none

def initPhase (fails : Bool) : Option State :=
  s.step p .init (if fails then execFail s p exitFds else advance s p .creds)

/-- get_user_creds() and send_user_lookup() -/
def creds (fails : Bool) : Option State :=
  s.step p .creds
    (if fails then execFail s p exitUser
      else { advance s p .setup with ulQ := if cfg.user then s.ulQ ++ [p] else s.ulQ })

def setup (fails : Bool) : Option State :=
  s.step p .setup (if fails then execFail s p exitCgroup else advance s p .pam)

/-- setup_pam() forks (sd-pam), which inherits every fd. -/
def pam (fails : Bool) : Option State :=
  s.step p .pam
    (if cfg.pam = false then advance s p .ns
      else if fails then execFail s p exitPam
      else
        { s with
          session := .opened
          pc := Function.update (Function.update s.pc p .pamsync) .sdPam .closefd
          parent := Function.update s.parent .sdPam (some p)
          pipeW := if cfg.type = .exec then insert .sdPam s.pipeW else s.pipeW
          uid := Function.update s.uid .sdPam (s.uid p) })

/-- barrier_place_and_sync() -/
def pamSync : Option State :=
  if cfg.barrier = false ∨ s.placed = true ∨ ¬ s.Alive .sdPam then s.step p .pamsync (advance s p .ns) else none

/-- setup_private_pids(): the child is one of the manager from birth, and its pidref is sent. -/
def nsFork : State :=
  { s with
    pc := Function.update (Function.update s.pc .executor .nsexit) .child .sandbox
    parent := Function.update s.parent .child none
    pipeW :=
      if cfg.type ≠ .exec then s.pipeW
      else if cfg.fixPidnsParentClosesExecFd then insert .child (s.pipeW.erase .executor)
      else insert .child s.pipeW
    prQ := s.prQ ++ [.executor]
    uid := Function.update s.uid .child (s.uid .executor) }

def ns (fails : Bool) : Option State :=
  if cfg.pidns = false then s.step p .ns (advance s p .sandbox)
  else if fails then s.step p .ns (execFail s p exitNamespace)
  else if p = .executor then s.step p .ns (nsFork cfg s)
  else none

def nsExit : Option State := s.step p .nsexit (die s p (.exited 0))

def sandbox (fails : Bool) : Option State :=
  s.step p .sandbox
    (if fails then execFail s p exitSeccomp
      else { advance s p .hot with uid := Function.update s.uid p (if cfg.user then .user else .root) })

/-- exec_fd_mark_hot(true) -/
def hot : Option State :=
  s.step p .hot { advance s p .handoff with pipeB := if cfg.type = .exec then s.pipeB ++ [true] else s.pipeB }

def handoff : Option State := s.step p .handoff { advance s p .execve with hoQ := s.hoQ ++ [p] }

/-- fexecve_or_execve(): exec_fd is O_CLOEXEC; on failure it is marked cold. -/
def execve (fails : Bool) : Option State :=
  s.step p .execve
    (if fails then
        { execFail s p exitExec with
          pipeB := if cfg.fixColdMark = true ∧ cfg.type = .exec then s.pipeB ++ [false] else s.pipeB }
      else { advance s p .payload with pipeW := s.pipeW.erase p, execd := true })

def payloadExit (st : ℕ) : Option State :=
  if s.pc p = .payload ∧ s.sigkill p = false ∧ cfg.payloadStatuses st = true then some (die s p (.exited st)) else none

/-- A pending fatal signal takes effect. -/
def killed : Option State :=
  if s.Alive p ∧ (s.sigkill p = true ∨ s.sigterm p = true ∧ p ≠ .sdPam) then
    some (die s p (.killed (if s.sigkill p then .kill else .term)))
  else none

/-- close_many(fds) and safe_close(exec_fd) of (sd-pam). -/
def pCloseFd : Option State :=
  s.step .sdPam .closefd
    { advance s .sdPam .drop with pipeW := if cfg.fixPamClosesExecFd then s.pipeW.erase .sdPam else s.pipeW }

/-- fully_set_uid_gid(): a failure is only logged. -/
def pDrop (fails : Bool) : Option State :=
  if fails then
    if cfg.pamDropMayFail = true ∧ cfg.user = true then s.step .sdPam .drop { advance s .sdPam .prctl with dropFailed := true }
    else none
  else
    s.step .sdPam .drop
      { advance s .sdPam .prctl with
        uid := Function.update s.uid .sdPam (if cfg.user then .user else .root)
        dropFailed := false }

def pPrctl : Option State :=
  s.step .sdPam .prctl { advance s .sdPam .place with pdeath := Function.update s.pdeath .sdPam true }

def pPlace : Option State := s.step .sdPam .place { advance s .sdPam .check with placed := true }

def pCheck : Option State :=
  s.step .sdPam .check (advance s .sdPam (if cfg.fixPpidCheck = false ∨ s.parent .sdPam ≠ none then .wait else .close))

def pWait : Option State :=
  if s.sigterm .sdPam = true then
    s.step .sdPam .wait
      { advance s .sdPam (if cfg.pamWaitsForParent = true ∧ s.parent .sdPam ≠ none then .wait else .close) with
        sigterm := Function.update s.sigterm .sdPam false }
  else none

def pClose : Option State :=
  s.step .sdPam .close { advance s .sdPam .exit with session := if s.parent .sdPam = none then .closed else s.session }

def pExit : Option State := s.step .sdPam .exit (die s .sdPam (.exited 0))

end Processes

/-! ### The loop of the manager -/

section Loop

variable (s : State)

def dispatchUserLookup : State :=
  { s with ulQ := s.ulQ.tail, uidKnown := true, uidLate := s.uidLate || decide s.state.Inactive }

/-- service_notify_pidref(): the parent must still exist and be the main process. -/
def dispatchPidref : State :=
  match s.prQ with
  | [] => s
  | par :: rest =>
    if s.There par ∧ s.mainPid = some par then
      { s with prQ := rest, mainPid := some .child, watched := insert .child (s.watched.erase par) }
    else { s with prQ := rest }

/-- service_handoff_timestamp(): recorded for the current main process only. -/
def dispatchHandoff : State :=
  match s.hoQ with
  | [] => s
  | sender :: rest =>
    if some sender = s.mainPid then { s with hoQ := rest, handoffRec := true }
    else { s with hoQ := rest, handoffLost := true }

/-- The hot flag once every byte of the pipe is read. -/
def State.lastHot : Bool := s.pipeB.getLastD s.hot

/-- service_dispatch_exec_io() -/
def dispatchExecFd : State :=
  let r0 := { s.mgr with hot := s.lastHot }
  let r1 := { r0 with execFd := false, hot := false }
  { apply s
      (if s.pipeW = ∅ then
          if s.lastHot = true ∧ cfg.type = .exec ∧ s.state = .start then enterStartPost cfg s r1 else r1
        else r0) with
    pipeB := [] }

def dispatchSignals : State := { s with sigPending := false, sigchldDefer := true }

/-- manager_dispatch_sigchld() for zombie `z`. -/
def reap (z : Proc) : State :=
  let r0 := { s.mgr with watched := s.watched.erase z }
  let t := if s.mainPid = some z then { apply s (mainExit cfg s r0 (s.exitst z)) with mainStatus := s.exitst z }
    else apply s r0
  { t with
    unreaped := s.unreaped.erase z
    lost := s.lost || decide (z ∈ s.ulQ ∨ z ∈ s.hoQ ∨ z ∈ s.prQ ∨ s.mainPid = some z ∧ s.Ready .execFd) }

def dispatchCgInotify : State := { s with cgInotify := false, cgEmptyQ := decide (s.aliveSet = ∅) }

def dispatchCgEmpty : State :=
  { apply s (if s.state.Inactive then s.mgr else cgEmpty cfg s s.mgr) with cgEmptyQ := false }

def dispatchTimer : State := apply s (enterStopSigterm cfg s s.mgr .timeout)

/-- One dispatched source; `z` is the zombie that waitid() picks. -/
def dispatch (ev : Event) (z : Proc) : Option State :=
  if s.Top cfg ev then
    match ev with
    | .userLookup => some (dispatchUserLookup s)
    | .pidref => some (dispatchPidref s)
    | .handoff => some (dispatchHandoff s)
    | .execFd => some (dispatchExecFd cfg s)
    | .signals => some (dispatchSignals s)
    | .sigchld =>
      if s.zombies = ∅ then some { s with sigchldDefer := false }
      else if z ∈ s.zombies then some (reap cfg s z) else none
    | .cgInotify => some (dispatchCgInotify s)
    | .cgEmpty => some (dispatchCgEmpty cfg s)
    | .timer => some (dispatchTimer cfg s)
  else none

/-- systemctl stop: the stop job replaces a running start job. -/
def stopRequest : Option State :=
  if 0 < s.stops ∧ (s.state = .start ∨ s.state = .running ∨ s.state = .exited) then
    let r := enterStopSigterm cfg s s.mgr .success
    some { apply s { r with job := if s.job = .running then .canceled else r.job } with stops := s.stops - 1 }
  else none

/-- TimeoutStartSec= expires. -/
def timeoutFire : Option State :=
  if 0 < s.timeouts ∧ s.timerArmed = true ∧ s.timerFired = false then
    some { s with timerFired := true, timeouts := s.timeouts - 1 }
  else none

end Loop

/-! ### The specification -/

inductive Move
  | initPhase (p : Proc) (fails : Bool)
  | creds (p : Proc) (fails : Bool)
  | setup (p : Proc) (fails : Bool)
  | pam (p : Proc) (fails : Bool)
  | pamSync (p : Proc)
  | ns (p : Proc) (fails : Bool)
  | nsExit (p : Proc)
  | sandbox (p : Proc) (fails : Bool)
  | hot (p : Proc)
  | handoff (p : Proc)
  | execve (p : Proc) (fails : Bool)
  | payloadExit (p : Proc) (st : ℕ)
  | killed (p : Proc)
  | pCloseFd
  | pDrop (fails : Bool)
  | pPrctl
  | pPlace
  | pCheck
  | pWait
  | pClose
  | pExit
  | dispatch (ev : Event) (z : Proc)
  | stopRequest
  | timeoutFire

/-- The executor and the pid namespace child run exec_invoke(). -/
def invoke (p : Proc) (t : Option State) : Option State := if p = .sdPam then none else t

def perform (s : State) : Move → Option State
  | .initPhase p fails => invoke p (initPhase s p fails)
  | .creds p fails => invoke p (creds cfg s p fails)
  | .setup p fails => invoke p (setup s p fails)
  | .pam p fails => invoke p (pam cfg s p fails)
  | .pamSync p => invoke p (pamSync cfg s p)
  | .ns p fails => invoke p (ns cfg s p fails)
  | .nsExit p => invoke p (nsExit s p)
  | .sandbox p fails => invoke p (sandbox cfg s p fails)
  | .hot p => invoke p (hot cfg s p)
  | .handoff p => invoke p (handoff s p)
  | .execve p fails => invoke p (execve cfg s p fails)
  | .payloadExit p st => invoke p (payloadExit cfg s p st)
  | .killed p => killed s p
  | .pCloseFd => pCloseFd cfg s
  | .pDrop fails => pDrop cfg s fails
  | .pPrctl => pPrctl s
  | .pPlace => pPlace s
  | .pCheck => pCheck cfg s
  | .pWait => pWait cfg s
  | .pClose => pClose s
  | .pExit => pExit s
  | .dispatch ev z => dispatch cfg s ev z
  | .stopRequest => stopRequest cfg s
  | .timeoutFire => timeoutFire s

def init : State where
  state := if cfg.type = .simple then .running else .start
  job := if cfg.type = .simple then .done else .running
  result := .success
  mainPid := some .executor
  watched := {.executor}
  timerArmed := decide (cfg.type ≠ .simple)
  timerFired := false
  execFdSrc := decide (cfg.type = .exec)
  hot := false
  uidKnown := false
  handoffRec := false
  mainStatus := .none
  sigchldDefer := false
  sigPending := false
  cgInotify := true
  cgEmptyQ := false
  pc p := if p = .executor then .init else .none
  uid _ := .root
  pdeath _ := false
  parent _ := none
  exitst _ := .none
  unreaped := ∅
  pipeW := if cfg.type = .exec then {.executor} else ∅
  pipeB := []
  ulQ := []
  hoQ := []
  prQ := []
  sigterm _ := false
  sigkill _ := false
  session := .none
  placed := false
  dropFailed := false
  execd := false
  lost := false
  uidLate := false
  handoffLost := false
  stops := cfg.stopBudget
  timeouts := cfg.timeoutBudget

def spec : System State := ⟨fun s => s = init cfg, fun s t => ∃ move, perform cfg s move = some t⟩

/-! ### What is checked -/

section Properties

variable (s : State)

/-- The handoff timestamp of the payload is attributed to the main process. -/
def HandoffRecorded : Prop := s.handoffLost = false

/-- Type=exec: the unit is active only after execve() succeeded. -/
def ActiveImpliesExeced : Prop := cfg.type = .exec ∧ s.state.Active → s.execd = true

def JobDoneImpliesExeced : Prop := cfg.type = .exec ∧ s.job = .done → s.execd = true

/-- A payload that was executed and failed right away does not fail the start job, unless a
stop or a timeout intervened. -/
def JobFailedImpliesNotExeced : Prop :=
  cfg.type = .exec ∧ s.job = .failed ∧ s.stops = cfg.stopBudget ∧ s.timeouts = cfg.timeoutBudget → s.execd = false

/-- A live executor or payload is signalled only on a stop request or a timeout. -/
def ExecutorSignaledOnlyOnRequest : Prop :=
  (∃ p, p ≠ .sdPam ∧ s.Alive p ∧ s.pc p ≠ .nsexit ∧ (s.sigterm p = true ∨ s.sigkill p = true)) →
    s.stops < cfg.stopBudget ∨ s.timeouts < cfg.timeoutBudget

end Properties

end LinuxTla.Executor
