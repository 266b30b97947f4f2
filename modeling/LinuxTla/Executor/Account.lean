import LinuxTla.Executor.Machine

/-! What the manager has made of the processes: the bytes of exec_fd while the unit starts,
the main process and its queues, and the verdict on the start job. -/

namespace LinuxTla.Executor

variable {cfg : Config} {v w : View} {p : Proc}

def View.There (v : View) (p : Proc) : Prop := v.pc p ≠ .none ∧ v.pc p ≠ .dead ∨ p ∈ v.unreaped

/-- The process that was to execve() has died, or nobody is left to create it. -/
def View.Gone (cfg : Config) (v : View) : Prop :=
  v.pc cfg.payload = .dead ∨ v.pc cfg.payload = .none ∧ v.pc .executor = .dead

/-- No fatal signal is pending for a process that runs exec_invoke(). -/
def View.Calm (v : View) : Prop := ∀ p, p ≠ .sdPam → v.sigterm p = false ∧ v.sigkill p = false

/-- A stop was requested or the start timed out. -/
def View.Spent (cfg : Config) (v : View) : Prop := v.stops < cfg.stopBudget ∨ v.timeouts < cfg.timeoutBudget

/-! ### While the unit starts -/

/-- The last byte says whether the payload was executed or is about to be, and a process
that ended without it has failed. -/
structure Starting (cfg : Config) (v : View) : Prop where
  bytes : v.state = .start → v.execFd = true →
    (v.pipeB.getLastD v.hot = true ↔ v.pc cfg.payload = .handoff ∨ v.pc cfg.payload = .execve ∨ v.execd = true)
  closed : v.state = .start → v.execFd = false → v.execd = false ∧ v.Gone cfg
  fresh : v.state = .start → v.result = .success ∧ v.job = .running
  calm : v.state = .start → v.Calm
  exits : v.state = .start → ∀ p, p ≠ .sdPam → v.pc p = .dead →
    (∃ code, v.exitst p = .exited code ∧ code ≠ 0) ∨ p = cfg.payload ∧ v.execd = true ∨
      p = .executor ∧ v.pc .child ≠ .none

theorem View.Gone.turn (gone : v.Gone cfg) (machine : Machine cfg v) (turn : Turn cfg v w) :
    w.Gone cfg ∧ w.execd = v.execd := by
  have plain := machine.plain
  have nested := machine.nested
  cases turn with
  | advance other within fresh sync =>
    rcases Proc.invoker other with rfl | rfl
    all_goals grind -ring -linarith [View.Gone, Config.payload, Function.update_apply, Pc.early]
  | pam other pam at_pam =>
    rcases Proc.invoker other with rfl | rfl
    all_goals grind -ring -linarith [View.Gone, Config.payload, Function.update_apply, Pc.early]
  | nsFork pidns at_ns => grind -ring -linarith [View.Gone, Config.payload, Function.update_apply, Pc.early]
  | hot other at_hot =>
    rcases Proc.invoker other with rfl | rfl
    all_goals grind -ring -linarith [View.Gone, Config.payload, Function.update_apply, Pc.early]
  | handoff other at_handoff =>
    rcases Proc.invoker other with rfl | rfl
    all_goals grind -ring -linarith [View.Gone, Config.payload, Function.update_apply, Pc.early]
  | execve other at_execve =>
    rcases Proc.invoker other with rfl | rfl
    all_goals grind -ring -linarith [View.Gone, Config.payload, Function.update_apply, Pc.early]
  | die alive ends signals cold => grind -ring -linarith [View.Gone, Config.payload, Function.update_apply]
  | sdPam alive next own signals writers => grind -ring -linarith [View.Gone, Config.payload, Function.update_apply]

theorem View.Calm.turn (calm : v.Calm) (turn : Turn cfg v w) : w.Calm := by
  cases turn with
  | advance | pam | nsFork | hot | handoff | execve => exact calm
  | die _ _ signals _ => exact fun q other => ⟨(signals q other).trans (calm q other).1, (calm q other).2⟩
  | sdPam _ _ _ signals _ => exact fun q other => ⟨(signals q other).trans (calm q other).1, (calm q other).2⟩

theorem Machine.execve_payload (machine : Machine cfg v) (other : p ≠ .sdPam)
    (late : v.pc p = .handoff ∨ v.pc p = .execve ∨ v.pc p = .payload) : p = cfg.payload := by
  have plain := machine.plain
  have nested := machine.nested
  rcases Proc.invoker other with rfl | rfl
  all_goals grind -ring -linarith [Config.payload, Pc.early]

/-- At the end of the pipe everybody who could still execve() is gone. -/
theorem Machine.eof (machine : Machine cfg v) (pipe : v.pipeW = ∅) :
    v.pc cfg.payload ≠ .handoff ∧ v.pc cfg.payload ≠ .execve ∧ (v.execd = false → v.Gone cfg) := by
  have closed (p : Proc) (other : p ≠ .sdPam) : (v.pc p).early = false ∧ (v.pc p).late = false := by
    have writes := machine.writes p other
    rw [pipe] at writes
    grind -ring -linarith
  have executor := closed .executor nofun
  have child := closed .child nofun
  have plain := machine.plain
  have nested := machine.nested
  have payload := machine.runs .executor nofun
  have payload' := machine.runs .child nofun
  by_cases pidns : cfg.pidns = true
  · have child : cfg.payload = .child := if_pos pidns
    rw [View.Gone, child]
    grind -ring -linarith [Pc.late]
  · have same : cfg.payload = .executor := if_neg pidns
    rw [View.Gone, same]
    grind -ring -linarith [Pc.late]

/-- Once the payload was executed and is gone, nobody holds the pipe. -/
theorem Machine.gone_silent (machine : Machine cfg v) (gone : v.Gone cfg) (execd : v.execd = true) (p : Proc) :
    p ∉ v.pipeW := by
  have plain := machine.plain
  have nested := machine.nested
  have writes := machine.writes p
  have ran := machine.execd execd
  by_cases sdPam : p = .sdPam
  · subst sdPam
    exact fun inherited => absurd ((machine.closes (machine.inherits inherited)).2.2.symm.trans execd) nofun
  · rcases Proc.invoker sdPam with rfl | rfl
    all_goals grind -ring -linarith [View.Gone, Config.payload, Pc.early, Pc.late]

theorem Machine.nsexit_child (machine : Machine cfg v) (other : p ≠ .sdPam) (leaves : v.pc p = .nsexit) :
    p = .executor ∧ v.pc .child ≠ .none := by
  have plain := machine.plain
  have nested := machine.nested
  rcases Proc.invoker other with rfl | rfl
  all_goals grind -ring -linarith [Pc.early, Pc.late]

theorem payload_ne (cfg : Config) : cfg.payload ≠ .sdPam := by
  rw [Config.payload]
  split
  next => decide
  next => decide

/-- The death of a process that no signal killed leaves the last byte right. -/
theorem Starting.bytes_die (machine : Machine cfg v) (calm : v.Calm) {st : Status} {bytes : List Bool}
    (old : v.pipeB.getLastD v.hot = true ↔ v.pc cfg.payload = .handoff ∨ v.pc cfg.payload = .execve ∨ v.execd = true)
    (ends : v.Ends p st)
    (cold : bytes = (if p ≠ .sdPam ∧ v.pc p = .execve ∧ st = .exited exitExec then v.pipeB ++ [false] else v.pipeB)) :
    bytes.getLastD v.hot = true ↔ Function.update v.pc p .dead cfg.payload = .handoff ∨
      Function.update v.pc p .dead cfg.payload = .execve ∨ v.execd = true := by
  by_cases payload : p = cfg.payload
  · subst payload
    have unsignalled := calm cfg.payload (payload_ne cfg)
    have execd := machine.execd
    rw [Function.update_self]
    by_cases failed : v.pc cfg.payload = .execve
    · have code : st = .exited exitExec := by grind -ring -linarith [View.Ends, payload_ne]
      rw [if_pos ⟨payload_ne cfg, failed, code⟩] at cold
      rw [cold, List.getLastD_concat]
      grind -ring -linarith
    · rw [if_neg fun all => failed all.2.1] at cold
      rw [cold, old]
      grind -ring -linarith [View.Ends, payload_ne]
  · rw [if_neg fun all => payload (machine.execve_payload all.1 (.inr (.inl all.2.1)))] at cold
    rw [cold, Function.update_of_ne (Ne.symm payload)]
    exact old

/-- A process that no signal killed and that was not replaced left an exit code. -/
theorem Starting.exits_die (machine : Machine cfg v) (calm : v.Calm) {st : Status} (ends : v.Ends p st)
    (exits : ∀ q, q ≠ .sdPam → v.pc q = .dead →
      (∃ code, v.exitst q = .exited code ∧ code ≠ 0) ∨ q = cfg.payload ∧ v.execd = true ∨
        q = .executor ∧ v.pc .child ≠ .none) (q : Proc) (other : q ≠ .sdPam) (dead : Function.update v.pc p .dead q = .dead) :
    (∃ code, Function.update v.exitst p st q = .exited code ∧ code ≠ 0) ∨ q = cfg.payload ∧ v.execd = true ∨
      q = .executor ∧ Function.update v.pc p .dead .child ≠ .none := by
  have child (known : v.pc .child ≠ .none) : Function.update v.pc p .dead .child ≠ .none := by
    rw [Function.update_apply]
    split
    next => exact nofun
    next => exact known
  by_cases same : q = p
  · subst same
    rw [Function.update_self]
    rcases ends with ⟨code, exited, bad, _⟩ | program | leaves | sdPam | term | kill
    · exact .inl ⟨code, exited, bad⟩
    · exact .inr (.inl ⟨machine.execve_payload other (.inr (.inr program)), machine.runs q other program⟩)
    · obtain ⟨executor, known⟩ := machine.nsexit_child other leaves
      exact .inr (.inr ⟨executor, child known⟩)
    · exact (other sdPam).elim
    · exact absurd (term.symm.trans (calm q other).1) nofun
    · exact absurd (kill.symm.trans (calm q other).2) nofun
  · rw [Function.update_of_ne same] at dead
    rw [Function.update_of_ne same]
    rcases exits q other dead with exited | executed | left
    · exact .inl exited
    · exact .inr (.inl executed)
    · exact .inr (.inr ⟨left.1, child left.2⟩)

theorem Starting.turn (starting : Starting cfg v) (machine : Machine cfg v) (turn : Turn cfg v w) : Starting cfg w := by
  have after := machine.turn turn
  have plain := machine.plain
  have nested := machine.nested
  have runs := machine.runs
  have execd := machine.execd
  have plain' := after.plain
  have gone : v.Gone cfg → w.Gone cfg ∧ w.execd = v.execd := fun gone => gone.turn machine turn
  have quiet : v.Calm → w.Calm := fun calm => calm.turn turn
  obtain ⟨bytes, closed, fresh, calm, exits⟩ := starting
  cases turn with
  | advance other within fresh sync =>
    refine ⟨?_, ?_, ?_, ?_, ?_⟩
    all_goals rcases Proc.invoker other with rfl | rfl
    all_goals grind -ring -linarith [Config.payload, Function.update_apply, Pc.early, Pc.late]
  | pam other pam at_pam =>
    refine ⟨?_, ?_, ?_, ?_, ?_⟩
    all_goals rcases Proc.invoker other with rfl | rfl
    all_goals grind -ring -linarith [Config.payload, Function.update_apply, Pc.early, Pc.late]
  | nsFork pidns at_ns =>
    refine ⟨?_, ?_, ?_, ?_, ?_⟩
    all_goals grind -ring -linarith [Config.payload, Function.update_apply, Pc.early, Pc.late]
  | hot other at_hot =>
    refine ⟨?_, ?_, ?_, ?_, ?_⟩
    all_goals rcases Proc.invoker other with rfl | rfl
    all_goals grind -ring -linarith [Config.payload, Function.update_apply, Pc.early, Pc.late]
  | handoff other at_handoff =>
    refine ⟨?_, ?_, ?_, ?_, ?_⟩
    all_goals rcases Proc.invoker other with rfl | rfl
    all_goals grind -ring -linarith [Config.payload, Function.update_apply, Pc.early, Pc.late]
  | execve other at_execve =>
    refine ⟨?_, ?_, ?_, ?_, ?_⟩
    all_goals rcases Proc.invoker other with rfl | rfl
    all_goals grind -ring -linarith [Config.payload, Function.update_apply, Pc.early, Pc.late]
  | die alive ends signals cold =>
    refine ⟨fun start source => bytes_die machine (calm start) (bytes start source) ends cold, ?_, ?_, ?_,
      fun start => exits_die machine (calm start) ends (exits start)⟩
    all_goals grind -ring -linarith [Config.payload, Function.update_apply, Pc.early, Pc.late, View.Ends, View.Calm]
  | sdPam alive next own signals writers =>
    refine ⟨?_, ?_, ?_, ?_, ?_⟩
    all_goals grind -ring -linarith [Config.payload, Function.update_apply, Pc.early, Pc.late]

/-! ### The main process and the queues -/

/-- The main process is there, its successor is announced while it is not known yet, and
handoffs come from the payload. -/
structure Tracking (cfg : Config) (v : View) : Prop where
  there : ∀ p, v.main = some p → v.There p ∧ p ≠ .sdPam ∧ (p = .child → cfg.pidns = true)
  attributed : v.main = some .executor → cfg.pidns = true → v.pc .child ≠ .none → v.prQ = [.executor]
  received : v.main = some .child → v.prQ = []
  announced : v.prQ ≠ [] → v.prQ = [.executor] ∧ v.main = some .executor ∧ v.There .child
  ended : v.main = none → v.Gone cfg ∧ v.hoQ = [] ∧ v.prQ = [] ∧ v.state ≠ .start ∧ v.state ≠ .running
  senders : ∀ p ∈ v.hoQ, p = cfg.payload
  sent : v.hoQ ≠ [] → v.pc cfg.payload ≠ .none
  handoff : v.handoffLost = false

theorem View.There.turn (there : v.There p) (turn : Turn cfg v w) : w.There p := by
  cases turn with
  | advance other within fresh sync => grind -ring -linarith [View.There, Function.update_apply, Pc.early]
  | pam other pam at_pam => grind -ring -linarith [View.There, Function.update_apply]
  | nsFork pidns at_ns => grind -ring -linarith [View.There, Function.update_apply]
  | hot other at_hot => grind -ring -linarith [View.There, Function.update_apply]
  | handoff other at_handoff => grind -ring -linarith [View.There, Function.update_apply]
  | execve other at_execve => grind -ring -linarith [View.There, Function.update_apply]
  | die alive ends signals cold => grind -ring -linarith [View.There, Function.update_apply]
  | sdPam alive next own signals writers => grind -ring -linarith [View.There, Function.update_apply]

theorem View.There.started (there : v.There p) (machine : Machine cfg v) : v.pc p ≠ .none := by
  rcases there with alive | zombie
  · exact alive.1
  · rw [machine.unreaped p zombie]
    exact nofun

theorem Tracking.turn (tracking : Tracking cfg v) (machine : Machine cfg v) (turn : Turn cfg v w) : Tracking cfg w := by
  have plain := machine.plain
  have nested := machine.nested
  have there (p : Proc) (known : v.There p) : w.There p := known.turn turn
  have started (p : Proc) (known : v.There p) : v.pc p ≠ .none := known.started machine
  have gone (ended : v.Gone cfg) : w.Gone cfg := (ended.turn machine turn).1
  have late := fun p other => machine.execve_payload (p := p) other
  obtain ⟨known, attributed, received, announced, ended, senders, sent, handoff⟩ := tracking
  cases turn with
  | advance other within fresh sync =>
    refine ⟨?_, ?_, ?_, ?_, ?_, senders, ?_, handoff⟩
    all_goals rcases Proc.invoker other with rfl | rfl
    all_goals grind -ring -linarith [Config.payload, Function.update_apply, Pc.early, Pc.late]
  | pam other pam at_pam =>
    refine ⟨?_, ?_, ?_, ?_, ?_, senders, ?_, handoff⟩
    all_goals rcases Proc.invoker other with rfl | rfl
    all_goals grind -ring -linarith [Config.payload, Function.update_apply, Pc.early, Pc.late]
  | nsFork pidns at_ns =>
    have bare : v.pc .child = .none := by grind -ring -linarith [Pc.early]
    have payload : cfg.payload = .child := if_pos pidns
    have empty : v.prQ = [] := by
      by_contra full
      exact started .child (announced full).2.2 bare
    have alive : ¬ v.Gone cfg := by grind -ring -linarith [View.Gone]
    have main : v.main = some .executor := by
      cases m : v.main with
      | none => exact (alive (ended m).1).elim
      | some p =>
        cases p with
        | executor => rfl
        | child => exact (started .child (known .child m).1 bare).elim
        | sdPam => exact ((known .sdPam m).2.1 rfl).elim
    refine ⟨fun p same => ⟨there p (known p same).1, (known p same).2⟩, ?_, ?_, fun _ => ⟨?_, main, ?_⟩, ?_, senders, ?_, handoff⟩
    · exact fun _ _ _ => by rw [empty]; rfl
    · intro child
      cases main.symm.trans child
    · change v.prQ ++ [.executor] = _
      rw [empty]
      rfl
    · exact .inl ⟨by simp, by simp⟩
    · intro none
      cases main.symm.trans none
    · rw [payload]
      simp
  | hot other at_hot =>
    refine ⟨?_, ?_, ?_, ?_, ?_, senders, ?_, handoff⟩
    all_goals rcases Proc.invoker other with rfl | rfl
    all_goals grind -ring -linarith [Config.payload, Function.update_apply, Pc.early, Pc.late]
  | handoff other at_handoff =>
    refine ⟨?_, ?_, ?_, ?_, ?_, ?_, ?_, handoff⟩
    all_goals rcases Proc.invoker other with rfl | rfl
    all_goals grind -ring -linarith [Config.payload, Function.update_apply, Pc.early, Pc.late, View.Gone]
  | execve other at_execve =>
    refine ⟨?_, ?_, ?_, ?_, ?_, senders, ?_, handoff⟩
    all_goals rcases Proc.invoker other with rfl | rfl
    all_goals grind -ring -linarith [Config.payload, Function.update_apply, Pc.early, Pc.late]
  | die alive ends signals cold =>
    refine ⟨?_, ?_, ?_, ?_, ?_, senders, ?_, handoff⟩
    all_goals grind -ring -linarith [Config.payload, Function.update_apply, Pc.early, Pc.late]
  | sdPam alive next own signals writers =>
    refine ⟨?_, ?_, ?_, ?_, ?_, senders, ?_, handoff⟩
    all_goals grind -ring -linarith [Config.payload, Function.update_apply, Pc.early, Pc.late]

/-! ### The verdict -/

/-- The job ends as the payload did, and nobody is signalled before a stop or a timeout. -/
structure Verdict (cfg : Config) (v : View) : Prop where
  budget : v.stops ≤ cfg.stopBudget ∧ v.timeouts ≤ cfg.timeoutBudget
  fired : v.timerFired = true → v.timeouts < cfg.timeoutBudget
  quiet : ¬ v.Spent cfg → ∀ p, p ≠ .sdPam → v.pc p ≠ .dead → v.pc p ≠ .nsexit → v.sigterm p = false ∧ v.sigkill p = false
  failed : ¬ v.Spent cfg → v.state ≠ .start → v.job = .running ∨ v.job = .failed → v.execd = false ∧ v.Gone cfg
  active : v.state.Active → v.execd = true ∧ v.job ≠ .running
  done : v.job = .done → v.execd = true
  unfinished : v.job = .running → v.state ≠ .start → v.result ≠ .success
  running : v.state = .running → v.result = .success

theorem Turn.execd (turn : Turn cfg v w) (before : v.execd = true) : w.execd = true := by
  cases turn with
  | execve => rfl
  | advance | pam | nsFork | hot | handoff | die | sdPam => exact before

/-- Nobody comes back from its end. -/
theorem Turn.unended (turn : Turn cfg v w) (machine : Machine cfg v) (other : p ≠ .sdPam) (dead : w.pc p ≠ .dead)
    (leaves : w.pc p ≠ .nsexit) : v.pc p ≠ .dead ∧ v.pc p ≠ .nsexit := by
  have plain := machine.plain
  have nested := machine.nested
  cases turn with
  | advance other within fresh sync => grind -ring -linarith [Function.update_apply, Pc.early]
  | pam other pam at_pam => grind -ring -linarith [Function.update_apply]
  | nsFork pidns at_ns => grind -ring -linarith [Function.update_apply, Pc.early]
  | hot other at_hot => grind -ring -linarith [Function.update_apply]
  | handoff other at_handoff => grind -ring -linarith [Function.update_apply]
  | execve other at_execve => grind -ring -linarith [Function.update_apply]
  | die alive ends signals cold => grind -ring -linarith [Function.update_apply]
  | sdPam alive next own signals writers => grind -ring -linarith [Function.update_apply]

theorem Turn.service (turn : Turn cfg v w) :
    w.state = v.state ∧ w.result = v.result ∧ w.job = v.job ∧ w.timerFired = v.timerFired ∧ w.stops = v.stops ∧
      w.timeouts = v.timeouts := by
  cases turn with
  | advance | pam | nsFork | hot | handoff | execve | die | sdPam => exact ⟨rfl, rfl, rfl, rfl, rfl, rfl⟩

theorem Turn.signals (turn : Turn cfg v w) (other : p ≠ .sdPam) : w.sigterm p = v.sigterm p ∧ w.sigkill p = v.sigkill p := by
  cases turn with
  | advance | pam | nsFork | hot | handoff | execve => exact ⟨rfl, rfl⟩
  | die _ _ signals _ => exact ⟨signals p other, rfl⟩
  | sdPam _ _ _ signals _ => exact ⟨signals p other, rfl⟩

theorem Verdict.turn (verdict : Verdict cfg v) (machine : Machine cfg v) (turn : Turn cfg v w) : Verdict cfg w := by
  obtain ⟨state, result, job, timerFired, stops, timeouts⟩ := turn.service
  have spent : w.Spent cfg ↔ v.Spent cfg := by rw [View.Spent, View.Spent, stops, timeouts]
  refine ⟨?_, ?_, ?_, ?_, ?_, ?_, ?_, ?_⟩
  · rw [stops, timeouts]
    exact verdict.budget
  · rw [timerFired, timeouts]
    exact verdict.fired
  · intro unspent p other dead leaves
    obtain ⟨before, stays⟩ := turn.unended machine other dead leaves
    obtain ⟨term, kill⟩ := turn.signals other
    rw [term, kill]
    exact verdict.quiet (mt spent.mpr unspent) p other before stays
  · rw [state, job]
    intro unspent later ended
    obtain ⟨bare, gone⟩ := verdict.failed (mt spent.mpr unspent) later ended
    obtain ⟨gone', same⟩ := gone.turn machine turn
    exact ⟨same.trans bare, gone'⟩
  · rw [state, job]
    exact fun active => ⟨turn.execd (verdict.active active).1, (verdict.active active).2⟩
  · rw [job]
    exact fun done => turn.execd (verdict.done done)
  · rw [job, state, result]
    exact verdict.unfinished
  · rw [state, result]
    exact verdict.running

end LinuxTla.Executor
