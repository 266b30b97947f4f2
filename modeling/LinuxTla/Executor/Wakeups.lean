import LinuxTla.Executor.Books

/-! What keeps the manager going: a zombie of its own leaves a SIGCHLD pending, a cgroup that
empties while a stop waits for it is heard of, and everybody that is alive then has been
told to go. -/

namespace LinuxTla.Executor

open Lib

variable {cfg : Config} {s t : State} {r q : Mgr} {f : Result} {st : ServiceState} {p z : Proc}

/-- A stop is under way. -/
def ServiceState.Halting (st : ServiceState) : Prop := st.Waits ∨ st = .finalSigterm ∨ st = .finalSigkill

instance (st : ServiceState) : Decidable st.Halting := inferInstanceAs (Decidable (_ ∨ _))

/-! ### What a stop leaves -/

/-- A stop that starts on `r` has somebody to wait for and told everybody, or ends the job. -/
structure Halts (s : State) (r q : Mgr) : Prop where
  finished : q.state.Inactive → q.job ≠ .running
  halting : q.state.Halting → q.main = none → (∃ p, s.Alive p) ∧ ∀ p, s.Alive p → p ∈ q.term ∨ p ∈ q.kill
  source : q.execFd = true → r.execFd = true

theorem setState_finished (inactive : st.Inactive) : (setState r st).job ≠ .running := by
  obtain rfl | rfl := inactive
  all_goals
    change (if r.job ≠ .running then r.job else _) ≠ .running
    split
    next other => exact other
    next => decide

theorem setState_source (source : (setState r st).execFd = true) : r.execFd = true := by
  change (if st = .start then r.execFd else false) = true at source
  split at source
  next => exact source
  next => cases source

theorem enterDead_halts : Halts s r (enterDead r f) := by
  rw [enterDead]
  dsimp only
  have inactive (good : Prop) [Decidable good] :
      (if good then ServiceState.dead else .failed).Inactive ∧ ¬ (if good then ServiceState.dead else .failed).Halting := by
    split
    next => decide
    next => decide
  exact ⟨fun _ => setState_finished (inactive _).1, fun halting => ((inactive _).2 halting).elim, setState_source⟩

/-- Without a main process a stage signals everybody in the cgroup. -/
theorem mem_killTargets_of_some {op : Signal} (main : r.main = none) (targets : (killTargets cfg s r op).Nonempty) :
    (∃ p, s.Alive p) ∧ ∀ p, s.Alive p → p ∈ killTargets cfg s r op := by
  obtain ⟨p, member⟩ := targets
  have everybody : cfg.killMode = .controlGroup ∨ op = .kill := by
    by_contra neither
    rw [killTargets, main, if_neg neither, Finset.union_empty] at member
    exact Finset.notMem_empty p member
  refine ⟨⟨p, ?_⟩, fun q alive => mem_killTargets_of_alive alive (or_assoc.mp (.inl everybody))⟩
  refine (mem_killTargets member).resolve_left fun known => ?_
  cases main.symm.trans known

theorem enterStage_halts {op : Signal} {next : Mgr → Mgr} (stage : st.Stage)
    (rest : ∀ r' : Mgr, r'.execFd = r.execFd → Halts s r' (next r')) : Halts s r (enterStage cfg s st op next r f) := by
  rw [enterStage]
  dsimp only
  split
  next targets =>
    refine ⟨fun inactive => (stage.stopping.2 inactive).elim, fun _ bare => ?_, setState_source⟩
    have main : r.main = none := (if_pos stage.1).symm.trans bare
    obtain ⟨somebody, everybody⟩ := mem_killTargets_of_some main targets
    refine ⟨somebody, fun p alive => ?_⟩
    cases op with
    | term => exact .inl (everybody p alive)
    | kill => exact .inr (everybody p alive)
  next =>
    obtain ⟨finished, halting, source⟩ := rest { r with result := sticky r f } rfl
    exact ⟨finished, halting, source⟩

theorem Halts.of_source {r' : Mgr} (halts : Halts s r' q) (source : r'.execFd = r.execFd) : Halts s r q :=
  ⟨halts.finished, halts.halting, fun reads => source ▸ halts.source reads⟩

theorem enterFinalSigterm_halts (cfg : Config) (s : State) (r : Mgr) (f : Result) : Halts s r (enterFinalSigterm cfg s r f) :=
  enterStage_halts (by decide) fun _ _ => enterStage_halts (by decide) fun _ _ => enterDead_halts

theorem enterStopPost_halts (cfg : Config) (s : State) (r : Mgr) (f : Result) : Halts s r (enterStopPost cfg s r f) :=
  (enterFinalSigterm_halts cfg s { r with result := sticky r f } .success).of_source rfl

theorem enterStopSigterm_halts (cfg : Config) (s : State) (r : Mgr) (f : Result) : Halts s r (enterStopSigterm cfg s r f) :=
  enterStage_halts (by decide) fun _ _ => enterStage_halts (by decide) fun r' _ => enterStopPost_halts cfg s r' .success

theorem setState_active_halts (active : st.Active) : Halts s r (setState r st) := by
  refine ⟨fun inactive => ((active_apart active).1 inactive).elim, fun halting => ?_, setState_source⟩
  have state : st.Halting := halting
  obtain rfl | rfl := active
  · exact absurd state (by decide)
  · exact absurd state (by decide)

theorem enterStop_halts (cfg : Config) (s : State) (r : Mgr) (f : Result) : Halts s r (enterStop cfg s r f) :=
  (enterStopSigterm_halts cfg s { r with result := sticky r f } .success).of_source rfl

theorem enterRunning_halts (cfg : Config) (s : State) (r : Mgr) (f : Result) : Halts s r (enterRunning cfg s r f) := by
  rw [enterRunning]
  dsimp only
  split
  next => exact (enterStopSigterm_halts cfg s { r with result := sticky r f } f).of_source rfl
  next =>
    split
    next =>
      have halts := setState_active_halts (s := s) (r := { r with result := sticky r f }) (.inl (rfl : ServiceState.running = .running))
      exact halts.of_source rfl
    next =>
      split
      next =>
        have halts := setState_active_halts (s := s) (r := { r with result := sticky r f }) (.inr (rfl : ServiceState.exited = .exited))
        exact halts.of_source rfl
      next => exact (enterStop_halts cfg s { r with result := sticky r f } .success).of_source rfl

theorem mainExit_halts (cfg : Config) (s : State) (r : Mgr) (status : Status)
    (states : r.state = .start ∨ r.state = .running ∨ r.state.Waits) : Halts s r (mainExit cfg s r status) := by
  have quiet {q' r' : Mgr} (halts : Halts s r' q') (silent : r'.execFd = false) : Halts s r q' :=
    ⟨halts.finished, halts.halting, fun source => absurd (silent.symm.trans (halts.source source)) (by decide)⟩
  rw [mainExit]
  obtain start | running | stop | kill := states
  · rw [start]
    dsimp only
    split
    next =>
      split
      next => exact quiet (enterRunning_halts ..) rfl
      next => exact quiet (enterStopSigterm_halts ..) rfl
    next => exact quiet (enterRunning_halts ..) rfl
  · rw [running]
    exact quiet (enterRunning_halts ..) rfl
  · rw [stop]
    exact quiet (enterStopPost_halts ..) rfl
  · rw [kill]
    exact quiet (enterStopPost_halts ..) rfl

/-- An empty cgroup moves every stop on that waits for nobody in particular. -/
theorem cgEmpty_halts (cfg : Config) (s : State) (r : Mgr) :
    Halts s r (cgEmpty cfg s r) ∨ cgEmpty cfg s r = r ∧ (r.state.Halting → r.main ≠ none) := by
  rw [cgEmpty]
  cases r.state with
  | running => exact .inl (enterRunning_halts ..)
  | stopSigterm | stopSigkill =>
    dsimp only
    split
    next => exact .inl (enterStopPost_halts ..)
    next other => exact .inr ⟨rfl, fun _ => other⟩
  | finalSigterm | finalSigkill =>
    dsimp only
    split
    next => exact .inl enterDead_halts
    next other => exact .inr ⟨rfl, fun _ => other⟩
  | start | exited | dead | failed => exact .inr ⟨rfl, fun halting => absurd halting (by decide)⟩

/-! ### What a step of a process costs -/

/-- How many phases are left. -/
def Pc.rank : Pc → ℕ
  | .dead => 0
  | .exit | .payload | .nsexit => 1
  | .close | .execve => 2
  | .wait | .handoff => 3
  | .check | .hot => 4
  | .place | .sandbox => 5
  | .prctl | .ns => 6
  | .drop | .pamsync => 7
  | .closefd | .pam => 8
  | .setup => 9
  | .creds => 10
  | .init => 11
  | .none => 12

def Pc.ofPam : Pc → Bool
  | .none | .closefd | .drop | .prctl | .place | .check | .wait | .close | .exit | .dead => true
  | .init | .creds | .setup | .pam | .pamsync | .ns | .nsexit | .sandbox | .hot | .handoff | .execve | .payload => false

def Pc.Follows (n pc : Pc) : Prop := n.rank < pc.rank ∧ n ≠ .dead ∧ (pc.ofPam = true → n.ofPam = true)

instance (n pc : Pc) : Decidable (n.Follows pc) := inferInstanceAs (Decidable (_ ∧ _))

/-- What is sent and not read. -/
def State.post (s : State) : ℕ := s.ulQ.length + s.hoQ.length + s.prQ.length + s.pipeB.length

/-- A fatal signal is on its way, or (sd-pam) took one. -/
def State.Told (s : State) (p : Proc) : Prop :=
  s.sigterm p = true ∨ s.sigkill p = true ∨ p = .sdPam ∧ (s.pc p).rank ≤ Pc.close.rank

/-- The manager is left alone, but for what a death raises. -/
structure Still (s t : State) : Prop where
  mgr : t.mgr = s.mgr
  sigchldDefer : t.sigchldDefer = s.sigchldDefer
  cgEmptyQ : t.cgEmptyQ = s.cgEmptyQ
  timerFired : t.timerFired = s.timerFired
  stops : t.stops = s.stops
  timeouts : t.timeouts = s.timeouts
  sigkill : t.sigkill = s.sigkill
  execd : s.execd = true → t.execd = true
  post : t.post ≤ s.post + 1

structure Unharmed (s t : State) : Prop extends Still s t where
  unreaped : t.unreaped = s.unreaped
  sigPending : t.sigPending = s.sigPending
  cgInotify : t.cgInotify = s.cgInotify

inductive Stir (s t : State) : Prop
  | onward {p : Proc} {n : Pc} (unharmed : Unharmed s t) (alive : s.Alive p) (follows : n.Follows (s.pc p)) (pc : t.pc = Function.update s.pc p n) (parent : t.parent = s.parent)
      (told : ∀ q, s.sigterm q = true → t.sigterm q = true ∨ q = .sdPam ∧ p = .sdPam ∧ n = .close)
  | pam {p : Proc} (unharmed : Unharmed s t) (free : s.NoFatal p) (other : p ≠ .sdPam) (here : s.pc p = .pam)
      (pc : t.pc = Function.update (Function.update s.pc p .pamsync) .sdPam .closefd)
      (parent : t.parent = Function.update s.parent .sdPam (some p)) (sigterm : t.sigterm = s.sigterm)
  | nsFork (unharmed : Unharmed s t) (free : s.NoFatal .executor) (here : s.pc .executor = .ns)
      (pc : t.pc = Function.update (Function.update s.pc .executor .nsexit) .child .sandbox)
      (parent : t.parent = Function.update s.parent .child none) (sigterm : t.sigterm = s.sigterm)
  | die {p : Proc} (still : Still s t) (alive : s.Alive p) (pc : t.pc = Function.update s.pc p .dead)
      (unreaped : t.unreaped = insert p s.unreaped) (parent : ∀ q, t.parent q = if s.parent q = some p then none else s.parent q)
      (sigterm : ∀ q, s.sigterm q = true → t.sigterm q = true)
      (sigPending : t.sigPending = (s.sigPending || decide (s.parent p = none ∨ ∃ q ∈ s.unreaped, s.parent q = some p)))
      (cgInotify : t.cgInotify = (s.cgInotify || decide (s.aliveSet \ {p} = ∅)))

theorem die_stir {status : Status} {bytes : List Bool} (alive : s.Alive p) (more : bytes.length ≤ s.pipeB.length + 1) :
    Stir s { die s p status with pipeB := bytes } := by
  refine .die ⟨rfl, rfl, rfl, rfl, rfl, rfl, rfl, id, ?_⟩ alive rfl rfl (fun _ => rfl) ?_ rfl rfl
  · change s.ulQ.length + s.hoQ.length + s.prQ.length + bytes.length ≤ s.ulQ.length + s.hoQ.length + s.prQ.length + s.pipeB.length + 1
    omega
  · intro q pending
    change (s.sigterm q || _) = true
    rw [pending]
    rfl

theorem execFail_stir {code : ℕ} (alive : s.Alive p) : Stir s (execFail s p code) := die_stir alive (Nat.le_succ _)

/-- A step on to the next phase, with at most one message. -/
theorem onward_stir {at_pc n : Pc} (unharmed : Unharmed s t) (here : s.pc p = at_pc) (started : at_pc ≠ .none ∧ at_pc ≠ .dead)
    (follows : n.Follows at_pc) (pc : t.pc = Function.update s.pc p n) (parent : t.parent = s.parent)
    (sigterm : t.sigterm = s.sigterm) : Stir s t :=
  .onward unharmed (alive_of_pc here started) (here ▸ follows) pc parent fun q pending =>
    .inl ((congrFun sigterm q).trans pending)

theorem advance_stir {at_pc n : Pc} (here : s.pc p = at_pc) (started : at_pc ≠ .none ∧ at_pc ≠ .dead)
    (follows : n.Follows at_pc) : Stir s (advance s p n) :=
  onward_stir ⟨⟨rfl, rfl, rfl, rfl, rfl, rfl, rfl, id, Nat.le_succ _⟩, rfl, rfl, rfl⟩ here started follows rfl rfl rfl

/-- A step that changes nothing but what the process keeps for itself. -/
theorem moved_stir {at_pc n : Pc} {pipeW : Finset Proc} {uid : Proc → Uid} {dropFailed placed execd : Bool} {pdeath : Proc → Bool}
    {session : Session} (here : s.pc p = at_pc) (started : at_pc ≠ .none ∧ at_pc ≠ .dead) (follows : n.Follows at_pc)
    (kept : s.execd = true → execd = true) :
    Stir s { advance s p n with
      pipeW := pipeW, uid := uid, dropFailed := dropFailed, placed := placed, execd := execd, pdeath := pdeath, session := session } :=
  onward_stir ⟨⟨rfl, rfl, rfl, rfl, rfl, rfl, rfl, kept, Nat.le_succ _⟩, rfl, rfl, rfl⟩ here started follows rfl rfl rfl

section Moves

variable {fails : Bool}

theorem initPhase_stir (done : initPhase s p fails = some t) : Stir s t := by
  obtain ⟨step, rfl⟩ := step_eq done
  cases fails with
  | true => exact execFail_stir (alive_of_pc step.2 (by decide))
  | false => exact advance_stir step.2 (by decide) (by decide)

theorem creds_stir (done : creds cfg s p fails = some t) : Stir s t := by
  obtain ⟨step, rfl⟩ := step_eq done
  cases fails with
  | true => exact execFail_stir (alive_of_pc step.2 (by decide))
  | false =>
    refine onward_stir (n := .setup) ⟨⟨rfl, rfl, rfl, rfl, rfl, rfl, rfl, id, ?_⟩, rfl, rfl, rfl⟩ step.2 (by decide) (by decide) rfl rfl rfl
    change (if cfg.user = true then s.ulQ ++ [p] else s.ulQ).length + s.hoQ.length + s.prQ.length + s.pipeB.length ≤ s.post + 1
    rw [State.post]
    split
    next =>
      rw [List.length_append, List.length_singleton]
      omega
    next => omega

theorem setup_stir (done : setup s p fails = some t) : Stir s t := by
  obtain ⟨step, rfl⟩ := step_eq done
  cases fails with
  | true => exact execFail_stir (alive_of_pc step.2 (by decide))
  | false => exact advance_stir step.2 (by decide) (by decide)

theorem pam_stir (other : p ≠ .sdPam) (done : pam cfg s p fails = some t) : Stir s t := by
  obtain ⟨step, rfl⟩ := step_eq done
  split
  next => exact advance_stir step.2 (by decide) (by decide)
  next =>
    cases fails with
    | true => exact execFail_stir (alive_of_pc step.2 (by decide))
    | false =>
      exact .pam ⟨⟨rfl, rfl, rfl, rfl, rfl, rfl, rfl, id, Nat.le_succ _⟩, rfl, rfl, rfl⟩ step.1 other step.2 rfl rfl rfl

theorem pamSync_stir (done : pamSync cfg s p = some t) : Stir s t := by
  rw [pamSync] at done
  split at done
  next =>
    obtain ⟨step, rfl⟩ := step_eq done
    exact advance_stir step.2 (by decide) (by decide)
  next => cases done

theorem ns_stir (done : ns cfg s p fails = some t) : Stir s t := by
  rw [ns] at done
  split at done
  next =>
    obtain ⟨step, rfl⟩ := step_eq done
    exact advance_stir step.2 (by decide) (by decide)
  next =>
    split at done
    next =>
      obtain ⟨step, rfl⟩ := step_eq done
      exact execFail_stir (alive_of_pc step.2 (by decide))
    next =>
      split at done
      next executor =>
        obtain ⟨step, rfl⟩ := step_eq done
        rw [executor] at step
        refine .nsFork ⟨⟨rfl, rfl, rfl, rfl, rfl, rfl, rfl, id, ?_⟩, rfl, rfl, rfl⟩ step.1 step.2 rfl rfl rfl
        change s.ulQ.length + s.hoQ.length + (s.prQ ++ [Proc.executor]).length + s.pipeB.length ≤ s.post + 1
        rw [State.post, List.length_append, List.length_singleton]
        omega
      next => cases done

theorem nsExit_stir (done : nsExit s p = some t) : Stir s t := by
  obtain ⟨step, rfl⟩ := step_eq done
  exact execFail_stir (alive_of_pc step.2 (by decide))

theorem sandbox_stir (done : sandbox cfg s p fails = some t) : Stir s t := by
  obtain ⟨step, rfl⟩ := step_eq done
  cases fails with
  | true => exact execFail_stir (alive_of_pc step.2 (by decide))
  | false =>
    exact moved_stir (n := .hot) step.2 (by decide) (by decide) id

theorem hot_stir (done : hot cfg s p = some t) : Stir s t := by
  obtain ⟨step, rfl⟩ := step_eq done
  refine onward_stir (n := .handoff) ⟨⟨rfl, rfl, rfl, rfl, rfl, rfl, rfl, id, ?_⟩, rfl, rfl, rfl⟩ step.2 (by decide) (by decide) rfl rfl rfl
  change s.ulQ.length + s.hoQ.length + s.prQ.length + (if cfg.type = .exec then s.pipeB ++ [true] else s.pipeB).length ≤ s.post + 1
  rw [State.post]
  split
  next =>
    rw [List.length_append, List.length_singleton]
    omega
  next => omega

theorem handoff_stir (done : handoff s p = some t) : Stir s t := by
  obtain ⟨step, rfl⟩ := step_eq done
  refine onward_stir (n := .execve) ⟨⟨rfl, rfl, rfl, rfl, rfl, rfl, rfl, id, ?_⟩, rfl, rfl, rfl⟩ step.2 (by decide) (by decide) rfl rfl rfl
  change s.ulQ.length + (s.hoQ ++ [p]).length + s.prQ.length + s.pipeB.length ≤ s.post + 1
  rw [State.post, List.length_append, List.length_singleton]
  omega

theorem execve_stir (done : execve cfg s p fails = some t) : Stir s t := by
  obtain ⟨step, rfl⟩ := step_eq done
  cases fails with
  | true =>
    refine die_stir (alive_of_pc step.2 (by decide)) ?_
    split
    next => rw [List.length_append, List.length_singleton]
    next => exact Nat.le_succ _
  | false =>
    exact moved_stir (n := .payload) step.2 (by decide) (by decide) fun _ => rfl

theorem payloadExit_stir {st : ℕ} (done : payloadExit cfg s p st = some t) : Stir s t := by
  rw [payloadExit] at done
  split at done
  next step =>
    obtain rfl := Option.some.inj done
    exact execFail_stir (alive_of_pc step.1 (by decide))
  next => cases done

theorem killed_stir (done : killed s p = some t) : Stir s t := by
  rw [killed] at done
  split at done
  next step =>
    obtain rfl := Option.some.inj done
    exact die_stir step.1 (Nat.le_succ _)
  next => cases done

theorem pCloseFd_stir (done : pCloseFd cfg s = some t) : Stir s t := by
  obtain ⟨step, rfl⟩ := step_eq done
  exact moved_stir (n := .drop) step.2 (by decide) (by decide) id

theorem pDrop_stir (done : pDrop cfg s fails = some t) : Stir s t := by
  rw [pDrop] at done
  split at done
  next =>
    split at done
    next =>
      obtain ⟨step, rfl⟩ := step_eq done
      exact moved_stir (n := .prctl) step.2 (by decide) (by decide) id
    next => cases done
  next =>
    obtain ⟨step, rfl⟩ := step_eq done
    exact moved_stir (n := .prctl) step.2 (by decide) (by decide) id

theorem pPrctl_stir (done : pPrctl s = some t) : Stir s t := by
  obtain ⟨step, rfl⟩ := step_eq done
  exact moved_stir (n := .place) step.2 (by decide) (by decide) id

theorem pPlace_stir (done : pPlace s = some t) : Stir s t := by
  obtain ⟨step, rfl⟩ := step_eq done
  exact moved_stir (n := .check) step.2 (by decide) (by decide) id

theorem pCheck_stir (done : pCheck cfg s = some t) : Stir s t := by
  obtain ⟨step, rfl⟩ := step_eq done
  split
  next => exact advance_stir step.2 (by decide) (by decide)
  next => exact advance_stir step.2 (by decide) (by decide)

theorem pWait_stir (waits : cfg.pamWaitsForParent = false) (done : pWait cfg s = some t) : Stir s t := by
  rw [pWait, if_neg (fun second : _ ∧ _ => Bool.noConfusion (waits.symm.trans second.1))] at done
  split at done
  next =>
    obtain ⟨step, rfl⟩ := step_eq done
    refine .onward (p := .sdPam) (n := .close) ⟨⟨rfl, rfl, rfl, rfl, rfl, rfl, rfl, id, Nat.le_succ _⟩, rfl, rfl, rfl⟩
      (alive_of_pc step.2 (by decide)) (step.2 ▸ by decide) rfl rfl fun q pending => ?_
    by_cases own : q = .sdPam
    · exact .inr ⟨own, rfl, rfl⟩
    · exact .inl ((Function.update_of_ne own _ _).trans pending)
  next => cases done

theorem pClose_stir (done : pClose s = some t) : Stir s t := by
  obtain ⟨step, rfl⟩ := step_eq done
  exact moved_stir (n := .exit) step.2 (by decide) (by decide) id

theorem pExit_stir (done : pExit s = some t) : Stir s t := by
  obtain ⟨step, rfl⟩ := step_eq done
  exact execFail_stir (alive_of_pc step.2 (by decide))

end Moves

/-! ### The manager is woken -/

structure Alert (s : State) : Prop where
  sdPam : (s.pc .sdPam).ofPam = true
  natives : ∀ p, p ≠ .sdPam → s.parent p = none
  apart : ∀ p, s.parent p ≠ some p
  pending : ∀ z ∈ s.unreaped, s.parent z = none → s.sigPending = true ∨ s.sigchldDefer = true
  emptied : s.state.Halting → s.mainPid = none → (∃ p, s.Alive p) ∨ s.cgInotify = true ∨ s.cgEmptyQ = true
  told : s.state.Halting → s.mainPid = none → ∀ p, s.Alive p → s.Told p
  finished : s.state.Inactive → s.job ≠ .running

/-- Who was told to go takes no further step of its own. -/
theorem told_fatal (told : s.Told p) (other : p ≠ .sdPam) : ¬ s.NoFatal p := by
  rintro ⟨kill, term⟩
  obtain pending | pending | ⟨rfl, _⟩ := told
  · cases pending.symm.trans (term.resolve_left other)
  · cases pending.symm.trans kill
  · exact other rfl

theorem Alert.stir (alert : Alert s) (stir : Stir s t) : Alert t := by
  have still : Still s t := by
    cases stir with
    | onward unharmed | pam unharmed | nsFork unharmed => exact unharmed.toStill
    | die still => exact still
  have state : t.state = s.state := congrArg Mgr.state still.mgr
  have main : t.mainPid = s.mainPid := congrArg Mgr.main still.mgr
  have job : t.job = s.job := congrArg Mgr.job still.mgr
  have told := alert.told
  have pending := alert.pending
  rw [← state, ← main] at told
  have finished : t.state.Inactive → t.job ≠ .running := by
    rw [state, job]
    exact alert.finished
  cases stir with
  | @onward p n unharmed alive follows pc parent term =>
    obtain ⟨lower, ends, stays⟩ := follows
    have starts : n ≠ .none := by
      rintro rfl
      exact absurd lower (Nat.not_lt_of_le (by cases s.pc p <;> decide))
    have living (q : Proc) (alive' : t.Alive q) : s.Alive q := by
      rw [State.Alive, pc, Function.update_apply] at alive'
      split at alive'
      next same => exact same ▸ alive
      next => exact alive'
    have here : t.Alive p := by
      rw [State.Alive, pc, Function.update_self]
      exact ⟨starts, ends⟩
    have sdPam : (t.pc .sdPam).ofPam = true := by
      rw [pc, Function.update_apply]
      split
      next same => exact stays (same ▸ alert.sdPam)
      next => exact alert.sdPam
    rw [← parent, ← unharmed.unreaped, ← unharmed.sigPending, ← unharmed.sigchldDefer] at pending
    refine ⟨sdPam, parent ▸ alert.natives, parent ▸ alert.apart, pending, fun _ _ => .inl ⟨p, here⟩, fun halting bare q alive' => ?_, finished⟩
    obtain pending | pending | ⟨rfl, few⟩ := told halting bare q (living q alive')
    · refine (term q pending).imp id fun own => .inr ⟨own.1, ?_⟩
      rw [own.1, pc, ← own.2.1, Function.update_self, own.2.2]
    · exact .inr (.inl ((congrFun unharmed.sigkill q).trans pending))
    · refine .inr (.inr ⟨rfl, ?_⟩)
      rw [pc, Function.update_apply]
      split
      next same => exact (same ▸ lower).le.trans few
      next => exact few
  | @pam p unharmed free other here pc parent sigterm =>
    have alive : s.Alive p := alive_of_pc here (by decide)
    have lives : t.Alive p := by
      rw [State.Alive, pc, Function.update_of_ne other, Function.update_self]
      decide
    refine ⟨by rw [pc, Function.update_self]; rfl, fun q own => ?_, fun q => ?_, fun z zombie orphan => ?_, fun _ _ => .inl ⟨p, lives⟩,
      fun halting bare => absurd free (told_fatal (told halting bare p alive) other), finished⟩
    · rw [parent, Function.update_of_ne own]
      exact alert.natives q own
    · rw [parent, Function.update_apply]
      split
      next same => exact fun own => other ((Option.some.inj own).trans same)
      next => exact alert.apart q
    · rw [unharmed.sigPending, unharmed.sigchldDefer]
      rw [unharmed.unreaped] at zombie
      rw [parent, Function.update_apply] at orphan
      split at orphan
      next => cases orphan
      next => exact pending z zombie orphan
  | nsFork unharmed free here pc parent sigterm =>
    have alive : s.Alive .executor := alive_of_pc here (by decide)
    have lives : t.Alive .executor := by
      rw [State.Alive, pc, Function.update_of_ne (by decide), Function.update_self]
      decide
    refine ⟨?_, fun q own => ?_, fun q => ?_, fun z zombie orphan => ?_, fun _ _ => .inl ⟨.executor, lives⟩,
      fun halting bare => absurd free (told_fatal (told halting bare .executor alive) (by decide)), finished⟩
    · rw [pc, Function.update_of_ne (by decide), Function.update_of_ne (by decide)]
      exact alert.sdPam
    · rw [parent, Function.update_apply]
      split
      next => rfl
      next => exact alert.natives q own
    · rw [parent, Function.update_apply]
      split
      next => exact Option.some_ne_none q ∘ Eq.symm
      next => exact alert.apart q
    · rw [unharmed.sigPending, unharmed.sigchldDefer]
      rw [unharmed.unreaped] at zombie
      rw [parent, Function.update_apply] at orphan
      split at orphan
      next child => exact pending z zombie (child ▸ alert.natives .child (by decide))
      next => exact pending z zombie orphan
  | @die p still alive pc unreaped parent sigterm sigPending cgInotify =>
    have living (q : Proc) (alive' : t.Alive q) : s.Alive q := by
      rw [State.Alive, pc, Function.update_apply] at alive'
      split at alive'
      next => exact absurd rfl alive'.2
      next => exact alive'
    refine ⟨?_, fun q own => ?_, fun q => ?_, fun z zombie orphan => ?_, fun _ _ => ?_, fun halting bare q alive' => ?_, finished⟩
    · rw [pc, Function.update_apply]
      split
      next => rfl
      next => exact alert.sdPam
    · rw [parent, alert.natives q own]
      rfl
    · rw [parent]
      split
      next => exact Option.some_ne_none q ∘ Eq.symm
      next => exact alert.apart q
    · rw [sigPending, still.sigchldDefer, Bool.or_eq_true, decide_eq_true_eq]
      rw [parent] at orphan
      obtain rfl | zombie := Finset.mem_insert.mp (unreaped ▸ zombie)
      · rw [if_neg (alert.apart z)] at orphan
        exact .inl (.inr (.inl orphan))
      · split at orphan
        next child => exact .inl (.inr (.inr ⟨z, zombie, child⟩))
        next => exact (pending z zombie orphan).imp .inl id
    · by_cases rest : s.aliveSet \ {p} = ∅
      · rw [cgInotify, decide_eq_true rest, Bool.or_true]
        exact .inr (.inl rfl)
      · obtain ⟨q, member⟩ := Finset.nonempty_iff_ne_empty.mpr rest
        obtain ⟨before, other⟩ := Finset.mem_sdiff.mp member
        refine .inl ⟨q, ?_⟩
        rw [State.Alive, pc, Function.update_of_ne (fun same => other (Finset.mem_singleton.mpr same))]
        exact (Finset.mem_filter.mp before).2
    · obtain pending | pending | ⟨rfl, few⟩ := told halting bare q (living q alive')
      · exact .inl (sigterm q pending)
      · exact .inr (.inl ((congrFun still.sigkill q).trans pending))
      · refine .inr (.inr ⟨rfl, ?_⟩)
        rw [pc, Function.update_apply]
        split
        next => exact Nat.zero_le _
        next => exact few

/-! ### The sources of the loop -/

/-- The processes are as before. -/
theorem Alert.over (alert : Alert s) (pc : t.pc = s.pc) (parent : t.parent = s.parent)
    (pending : ∀ z ∈ t.unreaped, s.parent z = none → t.sigPending = true ∨ t.sigchldDefer = true)
    (stops : t.state.Halting → t.mainPid = none →
      ((∃ p, s.Alive p) ∨ t.cgInotify = true ∨ t.cgEmptyQ = true) ∧ ∀ p, s.Alive p → t.Told p)
    (finished : t.state.Inactive → t.job ≠ .running) : Alert t := by
  have alive (p : Proc) : t.Alive p ↔ s.Alive p := by rw [State.Alive, State.Alive, pc]
  refine ⟨pc ▸ alert.sdPam, parent ▸ alert.natives, parent ▸ alert.apart, parent ▸ pending, fun halting bare => ?_, fun halting bare p living => ?_, finished⟩
  · obtain ⟨p, living⟩ | news := (stops halting bare).1
    · exact .inl ⟨p, (alive p).mpr living⟩
    · exact .inr news
  · exact (stops halting bare).2 p ((alive p).mp living)

/-- A source that leaves the record alone. -/
theorem Alert.idle (alert : Alert s) (mgr : t.mgr = s.mgr) (pc : t.pc = s.pc) (parent : t.parent = s.parent)
    (sigterm : t.sigterm = s.sigterm) (sigkill : t.sigkill = s.sigkill)
    (pending : ∀ z ∈ t.unreaped, s.parent z = none → t.sigPending = true ∨ t.sigchldDefer = true)
    (noted : s.cgInotify = true ∨ s.cgEmptyQ = true → (∃ p, s.Alive p) ∨ t.cgInotify = true ∨ t.cgEmptyQ = true) : Alert t := by
  have state : t.state = s.state := congrArg Mgr.state mgr
  have main : t.mainPid = s.mainPid := congrArg Mgr.main mgr
  have job : t.job = s.job := congrArg Mgr.job mgr
  refine alert.over pc parent pending ?_ ?_
  · rw [state, main]
    refine fun halting bare => ⟨(alert.emptied halting bare).elim .inl noted, fun p living => ?_⟩
    have told := alert.told halting bare p living
    rw [State.Told, ← sigterm, ← sigkill, ← pc] at told
    exact told
  · rw [state, job]
    exact alert.finished

/-- A record that may be written back while the cgroup has `queued` news. -/
structure Settles (s : State) (q : Mgr) (queued : Bool) : Prop where
  finished : q.state.Inactive → q.job ≠ .running
  halting : q.state.Halting → q.main = none → ((∃ p, s.Alive p) ∨ s.cgInotify = true ∨ queued = true) ∧
    ∀ p, s.Alive p → s.Told p ∨ p ∈ q.term ∨ p ∈ q.kill

theorem Halts.settles {queued : Bool} (halts : Halts s r q) : Settles s q queued :=
  ⟨halts.finished, fun halting bare => ⟨.inl (halts.halting halting bare).1, fun p living => .inr ((halts.halting halting bare).2 p living)⟩⟩

theorem Alert.settles (alert : Alert s) (state : q.state = s.state) (main : q.main = none → s.mainPid = none) (job : q.job = s.job) :
    Settles s q s.cgEmptyQ := by
  refine ⟨?_, fun halting bare => ⟨alert.emptied (state ▸ halting) (main bare), fun p living => ?_⟩⟩
  · rw [state, job]
    exact alert.finished
  · exact .inl (alert.told (state ▸ halting) (main bare) p living)

theorem told_apply (told : s.Told p ∨ p ∈ q.term ∨ p ∈ q.kill) : (apply s q).Told p := by
  obtain (term | kill | late) | term | kill := told
  · exact .inl (by simp [apply, term])
  · exact .inr (.inl (by simp [apply, kill]))
  · exact .inr (.inr late)
  · exact .inl (by simp [apply, term])
  · exact .inr (.inl (by simp [apply, kill]))

theorem Alert.applied {queued lost : Bool} (alert : Alert s) (settles : Settles s q queued) {job : Job} {bytes : List Bool} {stops : ℕ}
    {unreaped : Finset Proc} {status : Status} (ends : q.job ≠ .running → job ≠ .running)
    (pending : ∀ z ∈ unreaped, s.parent z = none → s.sigPending = true ∨ s.sigchldDefer = true) :
    Alert { apply s q with
      job := job, pipeB := bytes, cgEmptyQ := queued, stops := stops, unreaped := unreaped, mainStatus := status, lost := lost } := by
  refine alert.over rfl rfl pending (fun halting bare => ⟨(settles.halting halting bare).1, fun p living => ?_⟩) ?_
  · exact told_apply ((settles.halting halting bare).2 p living)
  · exact fun inactive => ends (settles.finished inactive)

theorem Alert.dispatch_execFd (alert : Alert s) : Alert (dispatchExecFd cfg s) := by
  refine alert.applied ?_ id alert.pending
  split
  next =>
    split
    next => exact (enterRunning_halts ..).settles
    next => exact alert.settles rfl id rfl
  next => exact alert.settles rfl id rfl

theorem Alert.dispatch_pidref (alert : Alert s) : Alert (dispatchPidref s) := by
  rw [dispatchPidref]
  split
  next => exact alert
  next par rest _ =>
    split
    next found =>
      refine alert.over rfl rfl alert.pending (fun _ bare => ?_) alert.finished
      cases bare
    next => exact alert.idle rfl rfl rfl rfl rfl alert.pending .inr

theorem Alert.dispatch_handoff (alert : Alert s) : Alert (dispatchHandoff s) := by
  rw [dispatchHandoff]
  split
  next => exact alert
  next =>
    split
    next => exact alert.idle rfl rfl rfl rfl rfl alert.pending .inr
    next => exact alert.idle rfl rfl rfl rfl rfl alert.pending .inr

theorem Alert.dispatch_reap (alert : Alert s) (books : Books cfg s) (top : s.Top cfg .sigchld) : Alert (reap cfg s z) := by
  have deferred : s.sigchldDefer = true := top.1
  rw [reap]
  dsimp only
  split
  next main =>
    have states := books.ended (by rw [main]; exact Option.some_ne_none z)
    exact alert.applied (mainExit_halts cfg s _ _ states).settles id fun _ _ _ => .inr deferred
  next => exact alert.applied (alert.settles rfl id rfl) id fun _ _ _ => .inr deferred

theorem Alert.dispatch_cgEmpty (alert : Alert s) : Alert (dispatchCgEmpty cfg s) := by
  refine alert.applied ?_ id alert.pending
  split
  next inactive =>
    refine ⟨alert.finished, fun halting => absurd inactive ?_⟩
    have state : s.state.Halting := halting
    revert state
    cases s.state <;> decide
  next =>
    obtain halts | ⟨same, known⟩ := cgEmpty_halts cfg s s.mgr
    · exact halts.settles
    · rw [same]
      exact ⟨alert.finished, fun halting bare => absurd bare (known halting)⟩

theorem Alert.dispatch_event (alert : Alert s) (books : Books cfg s) {ev : Event} (done : dispatch cfg s ev z = some t) :
    Alert t := by
  unfold dispatch at done
  split at done
  next top =>
    cases ev with
    | userLookup =>
      obtain rfl := Option.some.inj done
      exact alert.idle rfl rfl rfl rfl rfl alert.pending .inr
    | pidref =>
      obtain rfl := Option.some.inj done
      exact alert.dispatch_pidref
    | handoff =>
      obtain rfl := Option.some.inj done
      exact alert.dispatch_handoff
    | execFd =>
      obtain rfl := Option.some.inj done
      exact alert.dispatch_execFd
    | signals =>
      obtain rfl := Option.some.inj done
      exact alert.idle rfl rfl rfl rfl rfl (fun _ _ _ => .inr rfl) .inr
    | sigchld =>
      dsimp only at done
      split at done
      next nobody =>
        obtain rfl := Option.some.inj done
        refine alert.idle rfl rfl rfl rfl rfl (fun z zombie orphan => ?_) .inr
        exact absurd (nobody ▸ Finset.mem_filter.mpr ⟨zombie, orphan⟩) (Finset.notMem_empty z)
      next =>
        split at done
        next =>
          obtain rfl := Option.some.inj done
          exact alert.dispatch_reap books top
        next => cases done
    | cgInotify =>
      obtain rfl := Option.some.inj done
      refine alert.idle rfl rfl rfl rfl rfl alert.pending fun _ => ?_
      by_cases nobody : s.aliveSet = ∅
      · exact .inr (.inr (decide_eq_true nobody))
      · obtain ⟨p, member⟩ := Finset.nonempty_iff_ne_empty.mpr nobody
        exact .inl ⟨p, (Finset.mem_filter.mp member).2⟩
    | cgEmpty =>
      obtain rfl := Option.some.inj done
      exact alert.dispatch_cgEmpty
    | timer =>
      obtain rfl := Option.some.inj done
      exact alert.applied (enterStopSigterm_halts ..).settles id alert.pending
  next => cases done

theorem Alert.stop_request (alert : Alert s) (done : stopRequest cfg s = some t) : Alert t := by
  rw [stopRequest] at done
  split at done
  next =>
    obtain rfl := Option.some.inj done
    have halts := enterStopSigterm_halts cfg s s.mgr .success
    refine alert.applied (q := { enterStopSigterm cfg s s.mgr .success with
      job := if s.job = .running then .canceled else (enterStopSigterm cfg s s.mgr .success).job }) ⟨fun inactive => ?_, halts.settles.halting⟩ id alert.pending
    dsimp only
    split
    next => decide
    next => exact halts.finished inactive
  next => cases done

/-! ### Every step -/

/-- A process steps, the manager dispatches a source, or the environment acts. -/
theorem performed_cases (waits : cfg.pamWaitsForParent = false) {move : Move} (done : perform cfg s move = some t) :
    Stir s t ∨ (∃ ev z, dispatch cfg s ev z = some t) ∨ stopRequest cfg s = some t ∨ timeoutFire s = some t := by
  cases move with
  | initPhase p fails => exact .inl (initPhase_stir (invoke_eq done).2)
  | creds p fails => exact .inl (creds_stir (invoke_eq done).2)
  | setup p fails => exact .inl (setup_stir (invoke_eq done).2)
  | pam p fails => exact .inl (pam_stir (invoke_eq done).1 (invoke_eq done).2)
  | pamSync p => exact .inl (pamSync_stir (invoke_eq done).2)
  | ns p fails => exact .inl (ns_stir (invoke_eq done).2)
  | nsExit p => exact .inl (nsExit_stir (invoke_eq done).2)
  | sandbox p fails => exact .inl (sandbox_stir (invoke_eq done).2)
  | hot p => exact .inl (hot_stir (invoke_eq done).2)
  | handoff p => exact .inl (handoff_stir (invoke_eq done).2)
  | execve p fails => exact .inl (execve_stir (invoke_eq done).2)
  | payloadExit p st => exact .inl (payloadExit_stir (invoke_eq done).2)
  | killed p => exact .inl (killed_stir done)
  | pCloseFd => exact .inl (pCloseFd_stir done)
  | pDrop fails => exact .inl (pDrop_stir done)
  | pPrctl => exact .inl (pPrctl_stir done)
  | pPlace => exact .inl (pPlace_stir done)
  | pCheck => exact .inl (pCheck_stir done)
  | pWait => exact .inl (pWait_stir waits done)
  | pClose => exact .inl (pClose_stir done)
  | pExit => exact .inl (pExit_stir done)
  | dispatch ev z => exact .inr (.inl ⟨ev, z, done⟩)
  | stopRequest => exact .inr (.inr (.inl done))
  | timeoutFire => exact .inr (.inr (.inr done))

theorem Alert.performed (waits : cfg.pamWaitsForParent = false) (alert : Alert s) (books : Books cfg s) {move : Move}
    (done : perform cfg s move = some t) : Alert t := by
  obtain stir | ⟨ev, z, done⟩ | done | done := performed_cases waits done
  · exact alert.stir stir
  · exact alert.dispatch_event books done
  · exact alert.stop_request done
  · rw [timeoutFire] at done
    split at done
    next =>
      obtain rfl := Option.some.inj done
      exact alert.idle rfl rfl rfl rfl rfl alert.pending .inr
    next => cases done

theorem init_alert : Alert (init cfg) := by
  have state : (init cfg).state = .start ∨ (init cfg).state = .running := by
    change (if cfg.type = .simple then ServiceState.running else .start) = .start ∨ _ = ServiceState.running
    split
    next => exact .inr (if_pos ‹_›)
    next => exact .inl rfl
  have idle : ¬ (init cfg).state.Halting ∧ ¬ (init cfg).state.Inactive := by
    obtain start | running := state
    · rw [start]
      decide
    · rw [running]
      decide
  exact ⟨rfl, fun _ _ => rfl, fun p known => Option.some_ne_none p known.symm, fun z zombie => (Finset.notMem_empty z zombie).elim,
    fun halting => (idle.1 halting).elim, fun halting => (idle.1 halting).elim, fun inactive => (idle.2 inactive).elim⟩

theorem alert_invariant (waits : cfg.pamWaitsForParent = false) (ordered : cfg.Ordered) : (spec cfg).Invariant Alert := by
  refine (books_invariant ordered).relative ?_ ?_
  · rintro s rfl
    exact init_alert
  · rintro s t books _ alert ⟨move, done⟩
    exact alert.performed waits books done

end LinuxTla.Executor
