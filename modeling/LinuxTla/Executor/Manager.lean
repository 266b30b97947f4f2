import LinuxTla.Executor.Account
import LinuxTla.Executor.Service

/-! What the manager does with a source of its loop keeps the account: it acts on a death
only after it read what the process had sent. -/

namespace LinuxTla.Executor

variable {cfg : Config} {s t : State} {v w : View} {r q : Mgr} {p : Proc}

structure Inv (cfg : Config) (v : View) : Prop where
  machine : Machine cfg v
  starting : Starting cfg v
  tracking : Tracking cfg v
  verdict : Verdict cfg v

structure Beside (v w : View) : Prop where
  pc : w.pc = v.pc
  exitst : w.exitst = v.exitst
  unreaped : w.unreaped ⊆ v.unreaped
  pdeath : w.pdeath = v.pdeath
  pipeW : w.pipeW = v.pipeW
  placed : w.placed = v.placed
  execd : w.execd = v.execd

/-- The manager writes the record back; the job is left open. -/
structure Writes (v : View) (q : Mgr) (w : View) : Prop extends Beside v w where
  state : w.state = q.state
  result : w.result = q.result
  main : w.main = q.main
  fired : w.timerFired = true → v.timerFired = true
  hoQ : w.hoQ = v.hoQ
  prQ : w.prQ = v.prQ
  lost : w.handoffLost = v.handoffLost
  term : ∀ p, w.sigterm p = true → v.sigterm p = true ∨ p ∈ q.term
  kill : ∀ p, w.sigkill p = true → v.sigkill p = true ∨ p ∈ q.kill
  stops : w.stops ≤ v.stops
  timeouts : w.timeouts = v.timeouts

theorem Machine.beside (machine : Machine cfg v) (beside : Beside v w) : Machine cfg w := by
  obtain ⟨⟨plain, nested⟩, ⟨writes, inherits, closes, placed, forks⟩, runs, execd, unreaped, pdeath⟩ := machine
  obtain ⟨pcs, _, zombies, deaths, pipe, places, execs⟩ := beside
  refine ⟨⟨?_, ?_⟩, ⟨?_, ?_, ?_, ?_, ?_⟩, ?_, ?_, ?_, ?_⟩
  all_goals simp only [pcs, deaths, pipe, places, execs]
  all_goals first | assumption | exact fun p zombie => unreaped p (zombies zombie)

theorem Beside.gone (beside : Beside v w) (gone : v.Gone cfg) : w.Gone cfg := by
  rw [View.Gone, beside.pc]
  exact gone

/-- Once the payload is gone, nobody else runs exec_invoke(). -/
theorem Machine.gone_over (machine : Machine cfg v) (gone : v.Gone cfg) (other : p ≠ .sdPam) :
    v.pc p = .none ∨ v.pc p = .dead ∨ v.pc p = .nsexit := by
  have plain := machine.plain
  have nested := machine.nested
  rcases Proc.invoker other with rfl | rfl
  all_goals grind -ring -linarith [View.Gone, Config.payload]

theorem Starting.past (later : w.state ≠ .start) : Starting cfg w :=
  ⟨fun start => (later start).elim, fun start => (later start).elim, fun start => (later start).elim,
    fun start => (later start).elim, fun start => (later start).elim⟩

/-! ### A stop -/

/-- Why the service may stop: somebody asked for it, or the payload is gone and was not
executed if the unit still starts. -/
def Cause (cfg : Config) (s : State) (r : Mgr) (w : View) : Prop :=
  w.Spent cfg ∨ r.main = none ∧ s.view.Gone cfg ∧ (s.state = .start → s.execd = false)

theorem Verdict.stopped (verdict : Verdict cfg s.view) (machine : Machine cfg s.view) (writes : Writes s.view q w)
    (stops : Stops s r q) (cause : Cause cfg s r w)
    (job : w.job = s.job ∨ w.job = .canceled ∨ s.job = .running ∧ w.job = .failed)
    (result : w.job = .running → r.result ≠ .success) : Verdict cfg w := by
  have stopping : w.state.Stopping := writes.state ▸ stops.state
  have spent (before : s.view.Spent cfg) : w.Spent cfg := by
    rcases before with fewer | fewer
    · exact .inl (writes.stops.trans_lt fewer)
    · exact .inr (writes.timeouts ▸ fewer)
  refine ⟨⟨writes.stops.trans verdict.budget.1, writes.timeouts ▸ verdict.budget.2⟩, ?_, ?_, ?_, ?_, ?_, ?_, ?_⟩
  · intro fired
    rw [writes.timeouts]
    exact verdict.fired (writes.fired fired)
  · intro unspent p other dead leaves
    rw [writes.pc] at dead leaves
    obtain ⟨main, gone, _⟩ := cause.resolve_left unspent
    have bare : s.pc p = .none := (machine.gone_over gone other).resolve_right (not_or.mpr ⟨dead, leaves⟩)
    have quiet := verdict.quiet (mt spent unspent) p other dead leaves
    have spared : ¬ (p ∈ q.term ∨ p ∈ q.kill) := by
      intro sent
      rcases stops.signalled p sent with known | alive
      · exact absurd (main.symm.trans known) nofun
      · exact alive.1 bare
    constructor
    · apply Bool.eq_false_of_not_eq_true
      intro term
      rcases writes.term p term with old | sent
      · exact absurd (old.symm.trans quiet.1) nofun
      · exact spared (.inl sent)
    · apply Bool.eq_false_of_not_eq_true
      intro kill
      rcases writes.kill p kill with old | sent
      · exact absurd (old.symm.trans quiet.2) nofun
      · exact spared (.inr sent)
  · intro unspent _ ended
    obtain ⟨_, gone, unexecuted⟩ := cause.resolve_left unspent
    have before : s.job = .running ∨ s.job = .failed := by
      rcases job with same | canceled | ⟨running, _⟩
      · rwa [same] at ended
      · rw [canceled] at ended
        exact absurd ended (by decide)
      · exact .inl running
    refine ⟨writes.execd.trans ?_, writes.gone gone⟩
    by_cases start : s.state = .start
    · exact unexecuted start
    · exact (verdict.failed (mt spent unspent) start before).1
  · exact fun active => (stopping.2 active).elim
  · intro done
    rw [writes.execd]
    rcases job with same | canceled | ⟨_, failed⟩
    · exact verdict.done (same.symm.trans done)
    · exact absurd (canceled.symm.trans done) nofun
    · exact absurd (failed.symm.trans done) nofun
  · intro running _
    rw [writes.result, stops.result]
    exact result running
  · exact fun running => (stopping.2 (.inl running)).elim

/-! ### The main process -/

theorem Tracking.kept (tracking : Tracking cfg v) (beside : Beside v w) (main : w.main = v.main)
    (zombies : ∀ p, v.main = some p ∨ v.prQ ≠ [] → p ∈ v.unreaped → p ∈ w.unreaped) (hoQ : w.hoQ = v.hoQ)
    (prQ : w.prQ = v.prQ) (lost : w.handoffLost = v.handoffLost)
    (state : w.main = none → w.state ≠ .start ∧ w.state ≠ .running) : Tracking cfg w := by
  obtain ⟨known, attributed, received, announced, ended, senders, sent, handoff⟩ := tracking
  have there {p : Proc} (needed : v.main = some p ∨ v.prQ ≠ []) (before : v.There p) : w.There p := by
    rw [View.There, beside.pc]
    exact before.imp_right (zombies p needed)
  refine ⟨?_, ?_, ?_, ?_, ?_, ?_, ?_, ?_⟩
  · rw [main]
    exact fun p same => ⟨there (.inl same) (known p same).1, (known p same).2⟩
  · rw [main, beside.pc, prQ]
    exact attributed
  · rw [main, prQ]
    exact received
  · rw [main, prQ]
    exact fun full => ⟨(announced full).1, (announced full).2.1, there (.inr full) (announced full).2.2⟩
  · intro none
    obtain ⟨gone, hoQ', prQ', _⟩ := ended (main.symm.trans none)
    exact ⟨beside.gone gone, hoQ.trans hoQ', prQ.trans prQ', state none⟩
  · rw [hoQ]
    exact senders
  · rw [hoQ, beside.pc]
    exact sent
  · exact lost.trans handoff

theorem Tracking.orphaned (tracking : Tracking cfg v) (beside : Beside v w) (main : w.main = none) (gone : v.Gone cfg)
    (hoQ : w.hoQ = []) (prQ : w.prQ = []) (lost : w.handoffLost = v.handoffLost)
    (state : w.state ≠ .start ∧ w.state ≠ .running) : Tracking cfg w := by
  refine ⟨?_, ?_, ?_, ?_, ?_, ?_, ?_, lost.trans tracking.handoff⟩
  · exact fun p same => absurd (main.symm.trans same) nofun
  · exact fun same => absurd (main.symm.trans same) nofun
  · exact fun _ => prQ
  · exact fun full => (full prQ).elim
  · exact fun _ => ⟨beside.gone gone, hoQ, prQ, state⟩
  · rw [hoQ]
    exact nofun
  · exact fun full => (full hoQ).elim

/-- The service stops on a record whose main process is the current one, or was just reaped. -/
theorem Inv.stopped (inv : Inv cfg s.view) (writes : Writes s.view q w) (stops : Stops s r q) (cause : Cause cfg s r w)
    (job : w.job = s.job ∨ w.job = .canceled ∨ s.job = .running ∧ w.job = .failed)
    (result : w.job = .running → r.result ≠ .success)
    (main : r.main = s.mainPid ∧ w.unreaped = s.unreaped ∨ r.main = none ∧ s.view.Gone cfg ∧ s.hoQ = [] ∧ s.prQ = []) :
    Inv cfg w := by
  have stopping : w.state.Stopping := writes.state ▸ stops.state
  have calm : w.state ≠ .start ∧ w.state ≠ .running := ⟨stopping.1, fun running => stopping.2 (.inl running)⟩
  refine ⟨inv.machine.beside writes.toBeside, .past stopping.1, ?_,
    inv.verdict.stopped inv.machine writes stops cause job result⟩
  rcases main with ⟨same, zombies⟩ | ⟨reaped, gone, hoQ, prQ⟩
  · have known : q.main = s.mainPid := by
      rcases stops.main with kept | ⟨none, absent⟩
      · exact kept.trans same
      · cases m : s.mainPid with
        | none => exact none
        | some p => exact (absent p (same.trans m) (inv.tracking.there p m).1).elim
    exact inv.tracking.kept writes.toBeside (writes.main.trans known) (fun p _ zombie => zombies ▸ zombie) writes.hoQ
      writes.prQ writes.lost fun _ => calm
  · have none : q.main = none := stops.main.elim (fun kept => kept.trans reaped) And.left
    exact inv.tracking.orphaned writes.toBeside (writes.main.trans none) gone (writes.hoQ.trans hoQ)
      (writes.prQ.trans prQ) writes.lost calm

theorem Stops.job_failed (stops : Stops s r q) (same : r.job = s.job) (bad : r.job = .running → r.result ≠ .success) :
    (q.job = s.job ∨ q.job = .canceled ∨ s.job = .running ∧ q.job = .failed) ∧ (q.job = .running → r.result ≠ .success) := by
  rcases stops.job with kept | ⟨running, done | failed⟩
  · exact ⟨.inl (kept.trans same), fun running => bad (kept.symm.trans running)⟩
  · exact (bad running done.2).elim
  · exact ⟨.inr (.inr ⟨same.symm.trans running, failed.1⟩), fun _ => failed.2⟩

/-! ### The service stays as it is, or becomes active -/

/-- Nothing changes for the start job. -/
structure Same (v w : View) : Prop extends Beside v w where
  state : w.state = v.state
  result : w.result = v.result ∨ w.result ≠ .success ∧ v.state ≠ .start ∧ v.state ≠ .running
  job : w.job = v.job
  fired : w.timerFired = true → v.timerFired = true
  term : ∀ p, w.sigterm p = true → v.sigterm p = true
  kill : ∀ p, w.sigkill p = true → v.sigkill p = true
  stops : w.stops = v.stops
  timeouts : w.timeouts = v.timeouts

theorem Same.unsignalled (same : Same v w) (quiet : v.sigterm p = false ∧ v.sigkill p = false) :
    w.sigterm p = false ∧ w.sigkill p = false := by
  constructor
  · apply Bool.eq_false_of_not_eq_true
    exact fun term => absurd ((same.term p term).symm.trans quiet.1) nofun
  · apply Bool.eq_false_of_not_eq_true
    exact fun kill => absurd ((same.kill p kill).symm.trans quiet.2) nofun

theorem Starting.same (starting : Starting cfg v) (same : Same v w) (execFd : v.state = .start → w.execFd = v.execFd)
    (last : v.state = .start → w.pipeB.getLastD w.hot = v.pipeB.getLastD v.hot) : Starting cfg w := by
  obtain ⟨bytes, closed, fresh, calm, exits⟩ := starting
  refine ⟨?_, ?_, ?_, ?_, ?_⟩
  · intro start source
    rw [same.state] at start
    rw [last start, same.pc, same.execd]
    exact bytes start ((execFd start).symm.trans source)
  · intro start source
    rw [same.state] at start
    obtain ⟨bare, gone⟩ := closed start ((execFd start).symm.trans source)
    exact ⟨same.execd.trans bare, same.gone gone⟩
  · intro start
    rw [same.state] at start
    refine ⟨?_, same.job.trans (fresh start).2⟩
    rcases same.result with kept | ⟨_, later, _⟩
    · exact kept.trans (fresh start).1
    · exact (later start).elim
  · intro start p other
    rw [same.state] at start
    exact same.unsignalled (calm start p other)
  · rw [same.state, same.pc, same.exitst, same.execd]
    exact exits

theorem Verdict.same (verdict : Verdict cfg v) (same : Same v w) : Verdict cfg w := by
  have spent : w.Spent cfg ↔ v.Spent cfg := by rw [View.Spent, View.Spent, same.stops, same.timeouts]
  refine ⟨?_, ?_, ?_, ?_, ?_, ?_, ?_, ?_⟩
  · rw [same.stops, same.timeouts]
    exact verdict.budget
  · rw [same.timeouts]
    exact fun fired => verdict.fired (same.fired fired)
  · intro unspent p other
    rw [same.pc]
    exact fun dead leaves => same.unsignalled (verdict.quiet (mt spent.mpr unspent) p other dead leaves)
  · rw [same.state, same.job, same.execd]
    intro unspent later ended
    obtain ⟨bare, gone⟩ := verdict.failed (mt spent.mpr unspent) later ended
    exact ⟨bare, same.gone gone⟩
  · rw [same.state, same.job, same.execd]
    exact verdict.active
  · rw [same.job, same.execd]
    exact verdict.done
  · rw [same.job, same.state]
    intro running later
    rcases same.result with kept | ⟨bad, _⟩
    · rw [kept]
      exact verdict.unfinished running later
    · exact bad
  · rw [same.state]
    intro running
    rcases same.result with kept | ⟨_, _, other⟩
    · exact kept.trans (verdict.running running)
    · exact (other running).elim

/-- The unit is active: its start job is done, if it was still running. -/
theorem Verdict.activated (verdict : Verdict cfg v) (starting : Starting cfg v) (beside : Beside v w)
    (executed : v.execd = true) (result : w.result = .success)
    (job : w.job = if v.job = .running then .done else v.job) (fired : w.timerFired = true → v.timerFired = true)
    (term : ∀ p, w.sigterm p = true → v.sigterm p = true) (kill : ∀ p, w.sigkill p = true → v.sigkill p = true)
    (stops : w.stops = v.stops) (timeouts : w.timeouts = v.timeouts) : Verdict cfg w := by
  have spent : w.Spent cfg ↔ v.Spent cfg := by rw [View.Spent, View.Spent, stops, timeouts]
  have settled : w.job ≠ .running := by
    rw [job]
    split
    next => decide
    next other => exact other
  refine ⟨?_, ?_, ?_, ?_, ?_, ?_, ?_, ?_⟩
  · rw [stops, timeouts]
    exact verdict.budget
  · rw [timeouts]
    exact fun on => verdict.fired (fired on)
  · intro unspent p other dead leaves
    rw [beside.pc] at dead leaves
    have quiet := verdict.quiet (mt spent.mpr unspent) p other dead leaves
    refine ⟨Bool.eq_false_of_not_eq_true fun on => ?_, Bool.eq_false_of_not_eq_true fun on => ?_⟩
    · cases (term p on).symm.trans quiet.1
    · cases (kill p on).symm.trans quiet.2
  · intro unspent _ ended
    have failed : v.job = .failed := by
      rcases ended with running | failed
      · exact (settled running).elim
      · rw [job] at failed
        split at failed
        next => cases failed
        next => exact failed
    have later : v.state ≠ .start := by
      intro start
      cases failed.symm.trans (starting.fresh start).2
    cases executed.symm.trans (verdict.failed (mt spent.mpr unspent) later (.inr failed)).1
  · exact fun _ => ⟨beside.execd.trans executed, settled⟩
  · exact fun _ => beside.execd.trans executed
  · exact fun running => (settled running).elim
  · exact fun _ => result

end LinuxTla.Executor
