import LinuxTla.Executor.Model

/-! Which phases the processes can be in together, who holds the write end of exec_fd, and
what one step of a process changes. -/

namespace LinuxTla.Executor

variable {cfg : Config} {s t : State} {p : Proc}

/-- Type=exec with every fix of the module and without PAMName= in a private pid namespace: all
messages are read before a death is, and the pidref before the handoff timestamp. -/
structure Config.Sound (cfg : Config) : Prop where
  type : cfg.type = .exec
  userLookup : cfg.prio .userLookup < cfg.prio .sigchld
  pidref : cfg.prio .pidref < cfg.prio .sigchld
  handoff : cfg.prio .handoff < cfg.prio .sigchld
  execFd : cfg.prio .execFd < cfg.prio .sigchld
  attributed : cfg.prio .pidref < cfg.prio .handoff
  single : cfg.pam = false ∨ cfg.pidns = false
  coldMark : cfg.fixColdMark = true
  pamCloses : cfg.fixPamClosesExecFd = true
  ppidCheck : cfg.fixPpidCheck = true
  barrier : cfg.barrier = true
  waits : cfg.pamWaitsForParent = false
  pidnsCloses : cfg.fixPidnsParentClosesExecFd = true

/-- The phases before the fork of (sd-pam). -/
def Pc.fresh : Pc → Bool
  | .init | .creds | .setup | .pam => true
  | .none | .pamsync | .ns | .nsexit | .sandbox | .hot | .handoff | .execve | .payload | .closefd | .drop
  | .prctl | .place | .check | .wait | .close | .exit | .dead => false

/-- The phases up to the pid namespace. -/
def Pc.early : Pc → Bool
  | .init | .creds | .setup | .pam | .pamsync | .ns => true
  | .none | .nsexit | .sandbox | .hot | .handoff | .execve | .payload | .closefd | .drop | .prctl | .place
  | .check | .wait | .close | .exit | .dead => false

/-- The phases of the process that will execve(). -/
def Pc.late : Pc → Bool
  | .sandbox | .hot | .handoff | .execve => true
  | .none | .init | .creds | .setup | .pam | .pamsync | .ns | .nsexit | .payload | .closefd | .drop
  | .prctl | .place | .check | .wait | .close | .exit | .dead => false

@[grind →]
theorem Pc.early_apart {pc : Pc} (early : pc.early = true) :
    pc.late = false ∧ pc ≠ .none ∧ pc ≠ .nsexit ∧ pc ≠ .payload ∧ pc ≠ .dead := by
  revert early
  cases pc <;> decide

@[grind →]
theorem Pc.late_apart {pc : Pc} (late : pc.late = true) :
    pc.early = false ∧ pc ≠ .none ∧ pc ≠ .nsexit ∧ pc ≠ .payload ∧ pc ≠ .dead := by
  revert late
  cases pc <;> decide

@[grind →]
theorem Pc.fresh_apart {pc : Pc} (fresh : pc.fresh = true) : pc.early = true ∧ pc ≠ .pamsync ∧ pc ≠ .ns := by
  revert fresh
  cases pc <;> decide

theorem Proc.invoker (other : p ≠ .sdPam) : p = .executor ∨ p = .child := by
  cases p with
  | executor => exact .inl rfl
  | child => exact .inr rfl
  | sdPam => exact absurd rfl other

/-- The part of the state that the properties are about. -/
structure View where
  state : ServiceState
  result : Result
  main : Option Proc
  job : Job
  execFd : Bool
  hot : Bool
  timerFired : Bool
  pc : Proc → Pc
  exitst : Proc → Status
  unreaped : Finset Proc
  pdeath : Proc → Bool
  pipeW : Finset Proc
  pipeB : List Bool
  hoQ : List Proc
  prQ : List Proc
  sigterm : Proc → Bool
  sigkill : Proc → Bool
  placed : Bool
  execd : Bool
  handoffLost : Bool
  stops : ℕ
  timeouts : ℕ

def State.view (s : State) : View where
  state := s.state
  result := s.result
  main := s.mainPid
  job := s.job
  execFd := s.execFdSrc
  hot := s.hot
  timerFired := s.timerFired
  pc := s.pc
  exitst := s.exitst
  unreaped := s.unreaped
  pdeath := s.pdeath
  pipeW := s.pipeW
  pipeB := s.pipeB
  hoQ := s.hoQ
  prQ := s.prQ
  sigterm := s.sigterm
  sigkill := s.sigkill
  placed := s.placed
  execd := s.execd
  handoffLost := s.handoffLost
  stops := s.stops
  timeouts := s.timeouts

variable {v w : View}

/-- The phases the executor and its child can be in together. -/
structure Phases (cfg : Config) (v : View) : Prop where
  plain : cfg.pidns = false → v.pc .child = .none ∧
    ((v.pc .executor).early = true ∨ (v.pc .executor).late = true ∨ v.pc .executor = .payload ∨ v.pc .executor = .dead)
  nested : cfg.pidns = true → v.pc .sdPam = .none ∧
    (v.pc .child = .none ∧ ((v.pc .executor).early = true ∨ v.pc .executor = .dead) ∨
      ((v.pc .child).late = true ∨ v.pc .child = .payload ∨ v.pc .child = .dead) ∧
        (v.pc .executor = .nsexit ∨ v.pc .executor = .dead))

/-- Who has the write end of exec_fd. -/
structure Writers (v : View) : Prop where
  writes : ∀ p, p ≠ .sdPam → (p ∈ v.pipeW ↔ (v.pc p).early = true ∨ (v.pc p).late = true)
  inherits : .sdPam ∈ v.pipeW → v.pc .sdPam = .closefd
  closes : v.pc .sdPam = .closefd →
    (v.pc .executor = .pamsync ∨ v.pc .executor = .dead) ∧ v.placed = false ∧ v.execd = false
  placed : v.placed = true → v.pc .sdPam ≠ .none
  forks : v.pc .sdPam ≠ .none → (v.pc .executor).fresh = false

/-- The phases of the processes fit together, and only they hold the write end. -/
structure Machine (cfg : Config) (v : View) : Prop extends Phases cfg v, Writers v where
  runs : ∀ p, p ≠ .sdPam → v.pc p = .payload → v.execd = true
  execd : v.execd = true → v.pc cfg.payload = .payload ∨ v.pc cfg.payload = .dead
  unreaped : ∀ p ∈ v.unreaped, v.pc p = .dead
  pdeath : ∀ p, p ≠ .sdPam → v.pdeath p = false

/-! ### The steps of a process -/

/-- The exec failed, the program exited, or a signal is pending. -/
def View.Ends (v : View) (p : Proc) (st : Status) : Prop :=
  (∃ code, st = .exited code ∧ code ≠ 0 ∧ v.pc p ≠ .handoff ∧ (v.pc p = .execve → code = exitExec)) ∨ v.pc p = .payload ∨ v.pc p = .nsexit ∨ p = .sdPam ∨
    v.sigterm p = true ∨ v.sigkill p = true

inductive Turn (cfg : Config) (v : View) : View → Prop
  | advance {p : Proc} {nx : Pc} (other : p ≠ .sdPam)
      (within : (v.pc p).early = true ∧ nx.early = true ∨ cfg.pidns = false ∧ v.pc p = .ns ∧ nx = .sandbox ∨
        v.pc p = .sandbox ∧ nx = .hot)
      (fresh : nx.fresh = true → (v.pc p).fresh = true)
      (sync : v.pc p = .pamsync → v.pc .sdPam ≠ .closefd) :
      Turn cfg v { v with pc := Function.update v.pc p nx }
  | pam {p : Proc} (other : p ≠ .sdPam) (pam : cfg.pidns = false) (at_pam : v.pc p = .pam) :
      Turn cfg v
        { v with
          pc := Function.update (Function.update v.pc p .pamsync) .sdPam .closefd
          pipeW := insert .sdPam v.pipeW }
  | nsFork (pidns : cfg.pidns = true) (at_ns : v.pc .executor = .ns) :
      Turn cfg v
        { v with
          pc := Function.update (Function.update v.pc .executor .nsexit) .child .sandbox
          pipeW := insert .child (v.pipeW.erase .executor)
          prQ := v.prQ ++ [.executor] }
  | hot {p : Proc} (other : p ≠ .sdPam) (at_hot : v.pc p = .hot) :
      Turn cfg v { v with pc := Function.update v.pc p .handoff, pipeB := v.pipeB ++ [true] }
  | handoff {p : Proc} (other : p ≠ .sdPam) (at_handoff : v.pc p = .handoff) :
      Turn cfg v { v with pc := Function.update v.pc p .execve, hoQ := v.hoQ ++ [p] }
  | execve {p : Proc} (other : p ≠ .sdPam) (at_execve : v.pc p = .execve) :
      Turn cfg v { v with pc := Function.update v.pc p .payload, pipeW := v.pipeW.erase p, execd := true }
  | die {p : Proc} {st : Status} {term : Proc → Bool} {bytes : List Bool} (alive : v.pc p ≠ .none ∧ v.pc p ≠ .dead)
      (ends : v.Ends p st) (signals : ∀ q, q ≠ .sdPam → term q = v.sigterm q)
      (cold : bytes = (if p ≠ .sdPam ∧ v.pc p = .execve ∧ st = .exited exitExec then v.pipeB ++ [false] else v.pipeB)) :
      Turn cfg v
        { v with
          pc := Function.update v.pc p .dead
          exitst := Function.update v.exitst p st
          unreaped := insert p v.unreaped
          pipeW := v.pipeW.erase p
          sigterm := term
          pipeB := bytes }
  | sdPam {nx : Pc} {pipeW : Finset Proc} {placed : Bool} {pdeath term : Proc → Bool} (alive : v.pc .sdPam ≠ .none ∧ v.pc .sdPam ≠ .dead)
      (next : nx ≠ .none ∧ nx ≠ .closefd ∧ nx ≠ .dead) (own : ∀ q, q ≠ .sdPam → pdeath q = v.pdeath q)
      (signals : ∀ q, q ≠ .sdPam → term q = v.sigterm q)
      (writers : pipeW = v.pipeW.erase .sdPam ∨ v.pc .sdPam ≠ .closefd ∧ pipeW = v.pipeW) :
      Turn cfg v
        { v with
          pc := Function.update v.pc .sdPam nx
          pipeW := pipeW
          placed := placed
          pdeath := pdeath
          sigterm := term }

theorem Machine.phases_turn (machine : Machine cfg v) (turn : Turn cfg v w) : Phases cfg w := by
  have plain := machine.plain
  have nested := machine.nested
  have forks := machine.forks
  clear machine
  cases turn with
  | advance other within fresh sync =>
    rcases Proc.invoker other with rfl | rfl
    all_goals constructor
    all_goals grind -ring -linarith [Function.update_apply, Pc.early, Pc.late]
  | pam other pam at_pam =>
    rcases Proc.invoker other with rfl | rfl
    all_goals constructor
    all_goals grind -ring -linarith [Function.update_apply, Pc.early]
  | nsFork pidns at_ns =>
    constructor
    all_goals grind -ring -linarith [Function.update_apply, Pc.early, Pc.late]
  | hot other at_hot =>
    rcases Proc.invoker other with rfl | rfl
    all_goals constructor
    all_goals grind -ring -linarith [Function.update_apply, Pc.early, Pc.late]
  | handoff other at_handoff =>
    rcases Proc.invoker other with rfl | rfl
    all_goals constructor
    all_goals grind -ring -linarith [Function.update_apply, Pc.early, Pc.late]
  | execve other at_execve =>
    rcases Proc.invoker other with rfl | rfl
    all_goals constructor
    all_goals grind -ring -linarith [Function.update_apply, Pc.early, Pc.late]
  | die alive ends signals cold =>
    constructor
    all_goals grind -ring -linarith [Function.update_apply, Pc.early, Pc.late]
  | sdPam alive next own signals writers =>
    constructor
    all_goals grind -ring -linarith [Function.update_apply]

theorem Machine.writers_turn (machine : Machine cfg v) (turn : Turn cfg v w) : Writers w := by
  obtain ⟨⟨plain, nested⟩, ⟨writes, inherits, closes, placed, forks⟩, _, execd, _, _⟩ := machine
  cases turn with
  | advance other within fresh sync =>
    refine ⟨?_, ?_, ?_, ?_, ?_⟩
    all_goals rcases Proc.invoker other with rfl | rfl
    all_goals grind -ring -linarith [Function.update_apply, Pc.fresh, Pc.early, Pc.late]
  | pam other pam at_pam =>
    refine ⟨?_, ?_, ?_, ?_, ?_⟩
    all_goals rcases Proc.invoker other with rfl | rfl
    all_goals grind -ring -linarith [Config.payload, Function.update_apply, Pc.fresh, Pc.early, Pc.late]
  | nsFork pidns at_ns =>
    refine ⟨?_, ?_, ?_, ?_, ?_⟩
    all_goals grind -ring -linarith [Function.update_apply, Pc.fresh, Pc.early, Pc.late]
  | hot other at_hot =>
    refine ⟨?_, ?_, ?_, ?_, ?_⟩
    all_goals rcases Proc.invoker other with rfl | rfl
    all_goals grind -ring -linarith [Function.update_apply, Pc.fresh, Pc.early, Pc.late]
  | handoff other at_handoff =>
    refine ⟨?_, ?_, ?_, ?_, ?_⟩
    all_goals rcases Proc.invoker other with rfl | rfl
    all_goals grind -ring -linarith [Function.update_apply, Pc.fresh, Pc.early, Pc.late]
  | execve other at_execve =>
    refine ⟨?_, ?_, ?_, ?_, ?_⟩
    all_goals rcases Proc.invoker other with rfl | rfl
    all_goals grind -ring -linarith [Function.update_apply, Pc.fresh, Pc.early, Pc.late]
  | die alive ends signals cold =>
    refine ⟨?_, ?_, ?_, ?_, ?_⟩
    all_goals grind -ring -linarith [Function.update_apply, Pc.fresh, Pc.early, Pc.late]
  | sdPam alive next own signals writers =>
    refine ⟨?_, ?_, ?_, ?_, ?_⟩
    all_goals grind -ring -linarith [Function.update_apply]

theorem Machine.turn (machine : Machine cfg v) (turn : Turn cfg v w) : Machine cfg w := by
  refine ⟨machine.phases_turn turn, machine.writers_turn turn, ?_, ?_, ?_, ?_⟩
  all_goals obtain ⟨⟨plain, nested⟩, ⟨_, _, closes, _, forks⟩, runs, execd, unreaped, pdeath⟩ := machine
  · cases turn with
    | execve other at_execve => exact fun _ _ _ => rfl
    | advance | pam | nsFork | hot | handoff | die | sdPam =>
      grind -ring -linarith [Function.update_apply, Pc.early]
  · cases turn with
    | execve other at_execve =>
      rcases Proc.invoker other with rfl | rfl
      all_goals grind -ring -linarith [Config.payload, Function.update_apply, Pc.early]
    | advance other | pam other | hot other | handoff other =>
      rcases Proc.invoker other with rfl | rfl
      all_goals grind -ring -linarith [Config.payload, Function.update_apply, Pc.early]
    | nsFork | die | sdPam => grind -ring -linarith [Config.payload, Function.update_apply, Pc.early]
  · cases turn with
    | advance other | pam other | hot other | handoff other | execve other =>
      rcases Proc.invoker other with rfl | rfl
      all_goals grind -ring -linarith [Function.update_apply, Pc.fresh, Pc.early]
    | nsFork | die | sdPam => grind -ring -linarith [Function.update_apply, Pc.early]
  · cases turn with
    | advance | pam | nsFork | hot | handoff | execve | die => exact pdeath
    | sdPam _ _ own => exact fun q other => (own q other).trans (pdeath q other)

end LinuxTla.Executor
