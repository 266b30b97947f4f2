import LinuxTla.Executor.Model

/-! What the transitions of the service can do: one description for all the ways to stop,
and the outcomes of service_enter_running(). -/

namespace LinuxTla.Executor

variable {cfg : Config} {s : State} {r q : Mgr} {f : Result} {st : ServiceState}

theorem sticky_success (r : Mgr) : sticky r .success = r.result := by
  rw [sticky]
  split
  next fine => exact fine.symm
  next => rfl

theorem sticky_of_ne (bad : r.result ≠ .success) : sticky r f = r.result := if_neg bad

theorem sticky_ne (bad : f ≠ .success) : sticky r f ≠ .success := by
  rw [sticky]
  split
  next => exact bad
  next other => exact other

theorem sticky_keeps (bad : r.result ≠ .success) : sticky r f ≠ .success := by
  rw [sticky_of_ne bad]
  exact bad

theorem with_sticky_success (r : Mgr) : { r with result := sticky r .success } = r := by rw [sticky_success]

def ServiceState.Stopping (st : ServiceState) : Prop := st ≠ .start ∧ ¬ st.Active

/-- No main process is known that is still there. -/
def Absent (s : State) (r : Mgr) : Prop := ∀ p, r.main = some p → ¬ s.There p

/-- The service stops: its start job ends with the result, and the signals go to the main
process and to what is alive. -/
structure Stops (s : State) (r q : Mgr) : Prop where
  state : q.state.Stopping
  result : q.result = r.result
  main : q.main = r.main ∨ q.main = none ∧ Absent s r
  job : q.job = r.job ∨ r.job = .running ∧ (q.job = .done ∧ r.result = .success ∨ q.job = .failed ∧ r.result ≠ .success)
  signalled : ∀ p, p ∈ q.term ∨ p ∈ q.kill → r.main = some p ∨ s.Alive p

/-! ### The ways to stop -/

theorem setState_job_active (active : st.Active) : (setState r st).job = if r.job = .running then .done else r.job := by
  change (if _ then _ else _) = _
  by_cases running : r.job = .running
  · rw [if_neg (not_not.mpr running), if_pos (.inl active), if_pos running]
  · rw [if_pos running, if_neg running]

def ServiceState.Stage (st : ServiceState) : Prop := st.WithMain ∧ st ≠ .start ∧ st ≠ .running

instance (st : ServiceState) : Decidable st.Stage := inferInstanceAs (Decidable (_ ∧ _))

theorem ServiceState.Stage.stopping (stage : st.Stage) : st.Stopping ∧ ¬ st.Inactive := by
  cases st with
  | start => exact absurd rfl stage.2.1
  | running => exact absurd rfl stage.2.2
  | exited | dead | failed => exact absurd stage.1 (by decide)
  | stopSigterm | stopSigkill | finalSigterm | finalSigkill => exact ⟨⟨by decide, by decide⟩, by decide⟩

theorem setState_job_stopping (stopping : st.Stopping) (alive : ¬ st.Inactive) : (setState r st).job = r.job := by
  change (if _ then _ else _) = _
  split
  next => rfl
  next running =>
    have dead : st ≠ .dead := fun same => alive (.inl same)
    have failed : st ≠ .failed := fun same => alive (.inr same)
    rw [if_neg fun or => or.elim stopping.2 dead, if_neg failed]
    exact (not_not.mp running).symm

theorem enterDead_stops (absent : Absent s r) (noTerm : r.term = ∅) (noKill : r.kill = ∅) :
    Stops s { r with result := sticky r f } (enterDead r f) := by
  have silent (p : Proc) (st : ServiceState) (r' : Mgr) (term : r'.term = ∅) (kill : r'.kill = ∅)
      (sent : p ∈ (setState r' st).term ∨ p ∈ (setState r' st).kill) : False := by
    change p ∈ r'.term ∨ p ∈ r'.kill at sent
    rw [term, kill] at sent
    exact sent.elim (Finset.notMem_empty p) (Finset.notMem_empty p)
  rw [enterDead]
  dsimp only
  split
  next fine =>
    refine ⟨⟨nofun, nofun⟩, rfl, .inr ⟨rfl, absent⟩, ?_, fun p sent => (silent p _ { r with result := sticky r f } noTerm noKill sent).elim⟩
    by_cases running : r.job = .running
    · exact .inr ⟨running, .inl ⟨by simp [setState, running], fine⟩⟩
    · exact .inl (by simp [setState, running])
  next bad =>
    refine ⟨⟨nofun, nofun⟩, rfl, .inr ⟨rfl, absent⟩, ?_, fun p sent => (silent p _ { r with result := sticky r f } noTerm noKill sent).elim⟩
    by_cases running : r.job = .running
    · exact .inr ⟨running, .inr ⟨by simp [setState, running, ServiceState.Active], bad⟩⟩
    · exact .inl (by simp [setState, running])

theorem mem_killTargets {op : Signal} {p : Proc} (target : p ∈ killTargets cfg s r op) : r.main = some p ∨ s.Alive p := by
  rcases Finset.mem_union.mp target with main | other
  · left
    cases known : r.main with
    | none =>
      rw [known] at main
      exact (Finset.notMem_empty p main).elim
    | some m =>
      rw [known] at main
      change p ∈ (if s.There m then {m} else ∅) at main
      split at main
      next => rw [Finset.mem_singleton.mp main]
      next => exact (Finset.notMem_empty p main).elim
  · right
    split at other
    next => exact (Finset.mem_filter.mp (Finset.mem_sdiff.mp other).1).2
    next => exact (Finset.notMem_empty p other).elim

theorem absent_of_no_target {op : Signal} (none : ¬ (killTargets cfg s r op).Nonempty) : Absent s r := by
  intro p main there
  apply none
  refine ⟨p, Finset.mem_union_left _ ?_⟩
  rw [main]
  change p ∈ (if s.There p then {p} else ∅)
  rw [if_pos there]
  exact Finset.mem_singleton_self p

/-- The record on which a stop starts carries no signals. -/
def Mgr.Silent (r : Mgr) : Prop := r.term = ∅ ∧ r.kill = ∅

theorem enterStage_stops {op : Signal} {next : Mgr → Mgr} (stage : st.Stage) (silent : r.Silent)
    (rest : ∀ r', Absent s r' → r'.Silent → Stops s r' (next r')) :
    Stops s { r with result := sticky r f } (enterStage cfg s st op next r f) := by
  rw [enterStage]
  dsimp only
  split
  next =>
    refine ⟨stage.stopping.1, rfl, .inl (if_pos stage.1), .inl (setState_job_stopping stage.stopping.1 stage.stopping.2), fun p sent => ?_⟩
    rcases sent with sent | sent
    · change p ∈ (if _ then _ else _) at sent
      split at sent
      next => exact mem_killTargets sent
      next => exact (Finset.notMem_empty p sent).elim
    · change p ∈ (if _ then _ else _) at sent
      split at sent
      next => exact mem_killTargets sent
      next => exact (Finset.notMem_empty p sent).elim
  next nobody => exact rest _ (absent_of_no_target nobody) silent

theorem enterFinalSigkill_stops (cfg : Config) (s : State) (f : Result) (silent : r.Silent) : Stops s { r with result := sticky r f } (enterFinalSigkill cfg s r f) := by
  refine enterStage_stops (by decide) silent fun r' absent quiet => ?_
  have dead := enterDead_stops (f := .success) absent quiet.1 quiet.2
  rwa [with_sticky_success] at dead

theorem enterFinalSigterm_stops (cfg : Config) (s : State) (f : Result) (silent : r.Silent) : Stops s { r with result := sticky r f } (enterFinalSigterm cfg s r f) := by
  refine enterStage_stops (by decide) silent fun r' _ quiet => ?_
  have killed := enterFinalSigkill_stops cfg s .success quiet
  rwa [with_sticky_success] at killed

theorem enterStopPost_stops (cfg : Config) (s : State) (f : Result) (silent : r.Silent) : Stops s { r with result := sticky r f } (enterStopPost cfg s r f) := by
  have post := enterFinalSigterm_stops cfg s .success (r := { r with result := sticky r f }) silent
  rwa [with_sticky_success] at post

theorem enterStopSigkill_stops (cfg : Config) (s : State) (f : Result) (silent : r.Silent) : Stops s { r with result := sticky r f } (enterStopSigkill cfg s r f) := by
  refine enterStage_stops (by decide) silent fun r' _ quiet => ?_
  have post := enterStopPost_stops cfg s .success quiet
  rwa [with_sticky_success] at post

theorem enterStopSigterm_stops (cfg : Config) (s : State) (f : Result) (silent : r.Silent) : Stops s { r with result := sticky r f } (enterStopSigterm cfg s r f) := by
  refine enterStage_stops (by decide) silent fun r' _ quiet => ?_
  have killed := enterStopSigkill_stops cfg s .success quiet
  rwa [with_sticky_success] at killed

theorem enterStop_stops (cfg : Config) (s : State) (f : Result) (silent : r.Silent) : Stops s { r with result := sticky r f } (enterStop cfg s r f) := by
  have stop := enterStopSigterm_stops cfg s .success (r := { r with result := sticky r f }) silent
  rwa [with_sticky_success] at stop

/-! ### service_enter_running() -/

/-- It stops on a failure, is active with a main process, and otherwise exited or stops. -/
theorem enterRunning_cases (cfg : Config) (s : State) (f : Result) (silent : r.Silent) :
    Stops s { r with result := sticky r f } (enterRunning cfg s r f) ∨
      sticky r f = .success ∧
        (r.main ≠ none ∧ enterRunning cfg s r f = setState { r with result := sticky r f } .running ∨
          r.main = none ∧ enterRunning cfg s r f = setState { r with result := sticky r f } .exited) := by
  rw [enterRunning]
  dsimp only
  split
  next bad =>
    left
    have stops := enterStopSigterm_stops cfg s f (r := { r with result := sticky r f }) silent
    have kept : sticky { r with result := sticky r f } f = sticky r f := sticky_of_ne bad
    rwa [kept] at stops
  next fine =>
    have success : sticky r f = .success := not_not.mp fine
    split
    next main => exact .inr ⟨success, .inl ⟨main, rfl⟩⟩
    next main =>
      split
      next => exact .inr ⟨success, .inr ⟨not_not.mp main, rfl⟩⟩
      next =>
        left
        have stops := enterStop_stops cfg s .success (r := { r with result := sticky r f }) silent
        rwa [with_sticky_success] at stops

theorem enterRunning_main (fine : sticky r f = .success) (main : r.main ≠ none) :
    enterRunning cfg s r f = setState { r with result := sticky r f } .running := by
  rw [enterRunning]
  dsimp only
  rw [if_neg (not_not.mpr fine), if_pos main]

theorem enterRunning_failed (silent : r.Silent) (bad : f ≠ .success) :
    Stops s { r with result := sticky r f } (enterRunning cfg s r f) := by
  rcases enterRunning_cases cfg s f silent with stops | ⟨fine, _⟩
  · exact stops
  · exact (sticky_ne bad fine).elim

/-! ### service_sigchld_event() -/

/-- The record once the main process is reaped. -/
def Mgr.reaped (cfg : Config) (r : Mgr) (st : Status) : Mgr :=
  { r with execFd := false, main := none, result := sticky r (cfg.failure st) }

theorem mainExit_running {status : Status} (exec : cfg.type = .exec) (state : r.state = .start ∨ r.state = .running) :
    mainExit cfg s r status = enterRunning cfg s (r.reaped cfg status) (cfg.failure status) := by
  have other : cfg.type ≠ .oneshot := by
    rw [exec]
    exact nofun
  rw [mainExit]
  rcases state with start | running
  · rw [start, if_neg other]
    rfl
  · rw [running]
    rfl

/-- Any other unit goes on to stop, or has stopped. -/
theorem mainExit_other (cfg : Config) (s : State) (status : Status) (silent : r.Silent) (start : r.state ≠ .start) (running : r.state ≠ .running) :
    Stops s { r.reaped cfg status with result := sticky (r.reaped cfg status) (cfg.failure status) } (mainExit cfg s r status) ∨
      mainExit cfg s r status = r.reaped cfg status := by
  have absent : Absent s (r.reaped cfg status) := nofun
  obtain ⟨state, result, main, job, timer, execFd, hot, watched, term, kill⟩ := r
  cases state with
  | start => exact (start rfl).elim
  | running => exact (running rfl).elim
  | stopSigterm | stopSigkill => exact .inl (enterStopPost_stops _ _ _ silent)
  | finalSigterm | finalSigkill => exact .inl (enterDead_stops absent silent.1 silent.2)
  | exited | dead | failed => exact .inr rfl

end LinuxTla.Executor
