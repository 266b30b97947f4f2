import LinuxTla.Executor.Beats
import LinuxTla.Executor.Safety

/-! The books of the manager, for every kind of unit: nothing a process sent is lost when it
is reaped, the main process is one of the unit's, a stop reaches it, and an inactive unit
has no process left. -/

namespace LinuxTla.Executor

open Lib

variable {cfg : Config} {s t : State} {r q : Mgr} {f : Result} {st : ServiceState} {p z : Proc}

/-! ### Where a stop ends up -/

def ServiceState.Waits (st : ServiceState) : Prop := st = .stopSigterm ∨ st = .stopSigkill

instance (st : ServiceState) : Decidable st.Waits := inferInstanceAs (Decidable (_ ∨ _))

/-- An active service is neither inactive nor in a stop. -/
theorem active_apart (active : st.Active) : ¬ st.Inactive ∧ ¬ st.Waits := by
  obtain rfl | rfl := active
  · decide
  · decide

theorem inactive_stopping (inactive : st.Inactive) : st.Stopping := by
  obtain rfl | rfl := inactive
  · exact ⟨by decide, by decide⟩
  · exact ⟨by decide, by decide⟩

/-- SIGTERM reaches every executor and payload that is alive. -/
def Reaches (cfg : Config) (s : State) (r : Mgr) : Prop :=
  cfg.killMode = .controlGroup ∨ ∀ p, p ≠ .sdPam → s.Alive p → r.main = some p

/-- What a stop that starts on `r` makes of it. -/
structure Leaves (cfg : Config) (s : State) (r q : Mgr) : Prop where
  main : q.main = r.main ∨ q.main = none ∧ Absent s r
  watched : ∀ p ∈ r.watched, q.main = some p → p ∈ q.watched
  timer : q.timer = false
  stopping : q.state.Stopping
  waits : q.state.Waits ∨ Absent s r
  dead : q.state.Inactive → ∀ p, ¬ s.Alive p
  reach : Reaches cfg s r → q.state.Waits → ∀ p, p ≠ .sdPam → s.Alive p → p ∈ q.term ∨ p ∈ q.kill

theorem Leaves.of_result {result : Result} (leaves : Leaves cfg s { r with result := result } q) : Leaves cfg s r q := by
  obtain ⟨main, watched, timer, stopping, waits, dead, reach⟩ := leaves
  exact ⟨main, watched, timer, stopping, waits, dead, reach⟩

theorem mem_killTargets_of_alive {op : Signal} (alive : s.Alive p)
    (covers : cfg.killMode = .controlGroup ∨ op = .kill ∨ r.main = some p) : p ∈ killTargets cfg s r op := by
  by_cases main : r.main = some p
  · apply Finset.mem_union_left
    rw [main]
    change p ∈ (if s.There p then {p} else ∅)
    rw [if_pos (.inl alive)]
    exact Finset.mem_singleton_self p
  · apply Finset.mem_union_right
    rw [if_pos (or_assoc.mpr covers |>.resolve_right main)]
    refine Finset.mem_sdiff.mpr ⟨Finset.mem_filter.mpr ⟨Finset.mem_univ p, alive⟩, ?_⟩
    cases known : r.main with
    | none => exact Finset.notMem_empty p
    | some m =>
      intro same
      rw [known, Finset.mem_singleton.mp same] at main
      exact main rfl

theorem enterDead_leaves (absent : Absent s r) (nobody : ∀ p, ¬ s.Alive p) : Leaves cfg s r (enterDead r f) := by
  have fields : (enterDead r f).main = none ∧ (enterDead r f).timer = false ∧ (enterDead r f).state.Inactive := by
    rw [enterDead]
    dsimp only
    split
    next => exact ⟨rfl, rfl, .inl rfl⟩
    next => exact ⟨rfl, rfl, .inr rfl⟩
  refine ⟨.inr ⟨fields.1, absent⟩, ?_, fields.2.1, inactive_stopping fields.2.2, .inr absent, fun _ => nobody,
    fun _ _ p _ alive => (nobody p alive).elim⟩
  intro p _ main
  cases fields.1.symm.trans main

theorem enterStage_leaves {op : Signal} {next : Mgr → Mgr} (stage : st.Stage) (entry : st.Waits ∨ Absent s r)
    (rest : ∀ r' : Mgr, r'.main = r.main → r'.watched = r.watched → ¬ (killTargets cfg s r op).Nonempty → Leaves cfg s r' (next r')) :
    Leaves cfg s r (enterStage cfg s st op next r f) := by
  rw [enterStage]
  dsimp only
  split
  next =>
    refine ⟨.inl (if_pos stage.1), ?_, if_neg stage.2.1, stage.stopping.1, entry, fun inactive => (stage.stopping.2 inactive).elim, ?_⟩
    · intro p member _
      change p ∈ (if _ then _ else if _ then _ else _)
      rw [if_neg stage.stopping.2, if_pos stage.1]
      exact member
    · intro reaches _ p other alive
      have target : p ∈ killTargets cfg s r op := by
        apply mem_killTargets_of_alive alive
        exact reaches.imp_right fun main => .inr (main p other alive)
      cases op with
      | term => exact .inl target
      | kill => exact .inr target
  next nobody => exact (rest { r with result := sticky r f } rfl rfl nobody).of_result

theorem nobody_alive (nobody : ¬ (killTargets cfg s r .kill).Nonempty) (p : Proc) : ¬ s.Alive p :=
  fun alive => nobody ⟨p, mem_killTargets_of_alive alive (.inr (.inl rfl))⟩

theorem Absent.of_main {r' : Mgr} (absent : Absent s r) (same : r'.main = r.main) : Absent s r' :=
  fun p main => absent p (same.symm.trans main)

theorem killTargets_main {r' : Mgr} {op : Signal} (same : r'.main = r.main) : killTargets cfg s r' op = killTargets cfg s r op := by
  rw [killTargets, killTargets, same]

theorem enterFinalSigkill_leaves (absent : Absent s r) : Leaves cfg s r (enterFinalSigkill cfg s r f) :=
  enterStage_leaves (by decide) (.inr absent) fun _ main _ nobody => enterDead_leaves (absent.of_main main) (nobody_alive nobody)

theorem enterFinalSigterm_leaves (absent : Absent s r) : Leaves cfg s r (enterFinalSigterm cfg s r f) :=
  enterStage_leaves (by decide) (.inr absent) fun _ main _ _ => enterFinalSigkill_leaves (absent.of_main main)

theorem enterStopPost_leaves (absent : Absent s r) : Leaves cfg s r (enterStopPost cfg s r f) := by
  have leaves : Leaves cfg s { r with result := sticky r f } (enterFinalSigterm cfg s { r with result := sticky r f } .success) :=
    enterFinalSigterm_leaves absent
  exact leaves.of_result

theorem enterStopSigkill_leaves : Leaves cfg s r (enterStopSigkill cfg s r f) :=
  enterStage_leaves (by decide) (.inl (.inr rfl)) fun _ main _ nobody =>
    enterStopPost_leaves ((absent_of_no_target nobody).of_main main)

theorem enterStopSigterm_leaves (cfg : Config) (s : State) (r : Mgr) (f : Result) : Leaves cfg s r (enterStopSigterm cfg s r f) :=
  enterStage_leaves (by decide) (.inl (.inl rfl)) fun _ _ _ _ => enterStopSigkill_leaves

theorem enterStop_leaves (cfg : Config) (s : State) (r : Mgr) (f : Result) : Leaves cfg s r (enterStop cfg s r f) :=
  (enterStopSigterm_leaves cfg s { r with result := sticky r f } .success).of_result

/-- It stops, or is active with the main process it has. -/
theorem enterRunning_leaves (cfg : Config) (s : State) (r : Mgr) (f : Result) :
    Leaves cfg s r (enterRunning cfg s r f) ∨
      (∃ r', enterRunning cfg s r f = setState r' .running ∧ r'.main = r.main ∧ r'.watched = r.watched) ∨
      r.main = none ∧ ∃ r', enterRunning cfg s r f = setState r' .exited := by
  rw [enterRunning]
  dsimp only
  split
  next => exact .inl (enterStopSigterm_leaves cfg s { r with result := sticky r f } f).of_result
  next =>
    split
    next => exact .inr (.inl ⟨_, rfl, rfl, rfl⟩)
    next none =>
      split
      next => exact .inr (.inr ⟨not_not.mp none, _, rfl⟩)
      next => exact .inl (enterStop_leaves cfg s { r with result := sticky r f } .success).of_result

/-! ### The books -/

/-- What is written to exec_fd, the sockets and the pidref transport is read before a death
is, and the user lookup before the pidref. -/
structure Config.Ordered (cfg : Config) : Prop where
  userLookup : cfg.prio .userLookup < cfg.prio .sigchld
  pidref : cfg.prio .pidref < cfg.prio .sigchld
  handoff : cfg.prio .handoff < cfg.prio .sigchld
  execFd : cfg.prio .execFd < cfg.prio .sigchld
  looked : cfg.prio .userLookup < cfg.prio .pidref

/-- The executor has left the rest to its child, or is dead. -/
def Left (s : State) : Prop := s.pc .executor = .nsexit ∨ s.pc .executor = .dead

/-- SIGTERM can reach the main process of every unit of this kind. -/
def Config.Reaching (cfg : Config) : Prop := cfg.killMode = .controlGroup ∨ cfg.pidns = false

structure Books (cfg : Config) (s : State) : Prop where
  family : Family cfg s
  tracked : ∀ p, s.mainPid = some p → p ∈ s.watched ∧ s.There p ∧ p ≠ .sdPam
  timer : s.timerArmed = true → s.state = .start
  emptied : s.cgEmptyQ = true → ∀ p, ¬ s.Alive p
  inactive : s.state.Inactive → ∀ p, ¬ s.Alive p
  ended : s.mainPid ≠ none → s.state = .start ∨ s.state = .running ∨ s.state.Waits
  main : Left s ∨ s.mainPid = some .executor
  lookup : s.ulQ ≠ [] → s.mainPid = some .executor
  reach : cfg.Reaching → s.state.Waits → ∀ p, p ≠ .sdPam → s.Alive p → s.sigterm p = true ∨ s.sigkill p = true
  lost : s.lost = false
  uidLate : s.uidLate = false

theorem Books.beat (books : Books cfg s) (beat : Beat cfg s t) : Books cfg t := by
  have kept := beat.kept
  have state : t.state = s.state := congrArg Mgr.state kept.mgr
  have main : t.mainPid = s.mainPid := congrArg Mgr.main kept.mgr
  have watched : t.watched = s.watched := congrArg Mgr.watched kept.mgr
  have timer : t.timerArmed = s.timerArmed := congrArg Mgr.timer kept.mgr
  obtain ⟨somebody, alive⟩ := beat.alive
  refine ⟨books.family.beat beat, ?_, ?_, ?_, ?_, ?_, ?_, ?_, ?_, kept.lost.trans books.lost, kept.uidLate.trans books.uidLate⟩
  · rw [main, watched]
    exact fun p known => ⟨(books.tracked p known).1, beat.there (books.tracked p known).2.1, (books.tracked p known).2.2⟩
  · rw [timer, state]
    exact books.timer
  · rw [kept.cgEmptyQ]
    exact fun queued => (books.emptied queued somebody alive).elim
  · rw [state]
    exact fun inactive => (books.inactive inactive somebody alive).elim
  · rw [main, state]
    exact books.ended
  · rw [main]
    exact books.main.imp_left (beat.left books.family)
  · rw [main]
    intro sent
    obtain queued | creds := beat.lookup books.family sent
    · exact books.lookup queued
    · refine books.main.resolve_left fun left => ?_
      rw [Left, creds] at left
      exact absurd left (by decide)
  · rw [state]
    intro reaching waits p other living
    have pending : s.sigterm p = true ∨ s.sigkill p = true := by
      obtain before | ⟨forker, free⟩ := beat.born other living
      · exact books.reach reaching waits p other before
      · -- Who has a signal pending does not fork.
        obtain term | kill := books.reach reaching waits .executor (by decide) forker
        · cases term.symm.trans (free.2.resolve_left (by decide))
        · cases kill.symm.trans free.1
    exact pending.imp (kept.sigterm p other) fun kill => (congrFun kept.sigkill p).trans kill

/-- The record may be written back. -/
structure Enters (cfg : Config) (s : State) (q : Mgr) : Prop where
  main : q.main = s.mainPid ∨ Left s ∧ s.ulQ = [] ∧ (q.main = none ∨ q.main = some .child ∧ s.There .child)
  watched : ∀ p, q.main = some p → p ∈ q.watched
  timer : q.timer = true → q.state = .start
  dead : q.state.Inactive → ∀ p, ¬ s.Alive p
  ended : q.main ≠ none → q.state = .start ∨ q.state = .running ∨ q.state.Waits
  reach : cfg.Reaching → q.state.Waits → ∀ p, p ≠ .sdPam → s.Alive p →
    (s.sigterm p = true ∨ p ∈ q.term) ∨ s.sigkill p = true ∨ p ∈ q.kill

/-- What else a dispatch does: it reads a source, and may reap a zombie that is not the main
process of the record. -/
structure Reads (s : State) (q : Mgr) (t : State) : Prop where
  state : t.state = q.state
  main : t.mainPid = q.main
  watched : t.watched = q.watched
  timer : t.timerArmed = q.timer
  pc : t.pc = s.pc
  parent : t.parent = s.parent
  session : t.session = s.session
  unreaped : t.unreaped ⊆ s.unreaped
  zombies : ∀ p, q.main = some p ∨ t.prQ ≠ [] → p ∈ s.unreaped → p ∈ t.unreaped
  ulQ : t.ulQ ≠ [] → s.ulQ ≠ []
  prQ : t.prQ ≠ [] → s.prQ ≠ []
  emptied : t.cgEmptyQ = true → ∀ p, ¬ s.Alive p
  term : ∀ p, s.sigterm p = true ∨ p ∈ q.term → t.sigterm p = true
  kill : ∀ p, s.sigkill p = true ∨ p ∈ q.kill → t.sigkill p = true
  lost : t.lost = false
  uidLate : t.uidLate = false

theorem Books.written (books : Books cfg s) (enters : Enters cfg s q) (reads : Reads s q t) : Books cfg t := by
  have alive (p : Proc) : t.Alive p ↔ s.Alive p := by rw [State.Alive, State.Alive, reads.pc]
  have there (p : Proc) (needed : q.main = some p ∨ t.prQ ≠ []) (before : s.There p) : t.There p :=
    before.imp (alive p).mpr (reads.zombies p needed)
  have left : Left t ↔ Left s := by rw [Left, Left, reads.pc]
  obtain ⟨unreaped, started, child, sdPam, single, forks, plain, announced, pamless, orphan, closed⟩ := books.family
  have family : Family cfg t := by
    refine ⟨?_, ?_, ?_, ?_, ?_, ?_, ?_, fun full => there .child (.inr full) (announced (reads.prQ full)), ?_, ?_, ?_⟩
    · rw [reads.pc]
      exact fun p zombie => unreaped p (reads.unreaped zombie)
    all_goals simp only [reads.pc, reads.session, reads.parent]
    all_goals assumption
  refine ⟨family, ?_, ?_, ?_, ?_, ?_, ?_, ?_, ?_, reads.lost, reads.uidLate⟩
  · rw [reads.main, reads.watched]
    intro p known
    have before : s.There p ∧ p ≠ .sdPam := by
      obtain same | ⟨_, _, none | ⟨main, alive⟩⟩ := enters.main
      · exact (books.tracked p (same.symm.trans known)).2
      · cases none.symm.trans known
      · obtain rfl : Proc.child = p := Option.some.inj (main.symm.trans known)
        exact ⟨alive, by decide⟩
    exact ⟨enters.watched p known, there p (.inl known) before.1, before.2⟩
  · rw [reads.timer, reads.state]
    exact enters.timer
  · exact fun queued p living => reads.emptied queued p ((alive p).mp living)
  · rw [reads.state]
    exact fun inactive p living => enters.dead inactive p ((alive p).mp living)
  · rw [reads.main, reads.state]
    exact enters.ended
  · rw [left, reads.main]
    obtain same | ⟨left, _⟩ := enters.main
    · rw [same]
      exact books.main
    · exact .inl left
  · rw [reads.main]
    intro queued
    obtain same | ⟨_, nothing, _⟩ := enters.main
    · rw [same]
      exact books.lookup (reads.ulQ queued)
    · exact absurd nothing (reads.ulQ queued)
  · rw [reads.state]
    intro reaching waits p other living
    obtain term | kill := enters.reach reaching waits p other ((alive p).mp living)
    · exact .inl (reads.term p term)
    · exact .inr (reads.kill p kill)

/-! ### Records that may be written back -/

/-- The service stays in the state it is in. -/
theorem Books.enters_same (books : Books cfg s) (main : q.main = s.mainPid) (state : q.state = s.state)
    (watched : ∀ p, s.mainPid = some p → p ∈ q.watched) (timer : q.timer = s.timerArmed) : Enters cfg s q := by
  refine ⟨.inl main, ?_, ?_, ?_, ?_, ?_⟩
  · rw [main]
    exact watched
  · rw [timer, state]
    exact books.timer
  · rw [state]
    exact books.inactive
  · rw [main, state]
    exact books.ended
  · rw [state]
    exact fun reaching waits p other alive => (books.reach reaching waits p other alive).imp .inl .inl

/-- The main process the record starts from: the current one, or none once that is reaped. -/
def Begins (s : State) (r : Mgr) : Prop :=
  r.main = s.mainPid ∧ (∀ p ∈ s.mainPid, p ∈ r.watched) ∨ r.main = none ∧ Left s ∧ s.ulQ = []

theorem Begins.main (begins : Begins s r) (same : q.main = r.main) :
    q.main = s.mainPid ∨ Left s ∧ s.ulQ = [] ∧ (q.main = none ∨ q.main = some .child ∧ s.There .child) := by
  obtain ⟨main, _⟩ | ⟨none, left, read⟩ := begins
  · exact .inl (same.trans main)
  · exact .inr ⟨left, read, .inl (same.trans none)⟩

theorem Begins.watched (begins : Begins s r) (known : r.main = some p) : p ∈ r.watched := by
  obtain ⟨main, watched⟩ | ⟨none, _⟩ := begins
  · exact watched p (main.symm.trans known)
  · cases none.symm.trans known

/-- A record on which the main process is absent has none. -/
theorem Books.absent (books : Books cfg s) (begins : Begins s r) (absent : Absent s r) : r.main = none := by
  obtain ⟨main, _⟩ | ⟨none, _⟩ := begins
  · cases known : r.main with
    | none => rfl
    | some p => exact (absent p known (books.tracked p (main.symm.trans known)).2.1).elim
  · exact none

theorem Books.reaches (books : Books cfg s) (begins : Begins s r) (reaching : cfg.Reaching) : Reaches cfg s r := by
  refine reaching.imp_right fun plain p other alive => ?_
  obtain ⟨child, stays⟩ := books.family.plain plain
  obtain rfl : p = .executor := by
    refine (Proc.invoker other).resolve_right ?_
    rintro rfl
    exact alive.1 child
  have left : ¬ Left s := not_or.mpr ⟨stays, alive.2⟩
  obtain ⟨main, _⟩ | ⟨_, gone, _⟩ := begins
  · exact main.trans (books.main.resolve_left left)
  · exact (left gone).elim

theorem Books.enters_leaves (books : Books cfg s) (begins : Begins s r) (leaves : Leaves cfg s r q) : Enters cfg s q := by
  have same : q.main = r.main := by
    obtain same | ⟨none, absent⟩ := leaves.main
    · exact same
    · exact none.trans (books.absent begins absent).symm
  refine ⟨begins.main same, ?_, ?_, leaves.dead, ?_, ?_⟩
  · exact fun p known => leaves.watched p (begins.watched (same.symm.trans known)) known
  · rw [leaves.timer]
    exact Bool.noConfusion
  · intro known
    obtain waits | absent := leaves.waits
    · exact .inr (.inr waits)
    · exact absurd (same.trans (books.absent begins absent)) known
  · intro reaching waits p other alive
    exact (leaves.reach (books.reaches begins reaching) waits p other alive).imp .inr .inr

theorem Leaves.main_none (leaves : Leaves cfg s r q) (bare : r.main = none) : q.main = none :=
  leaves.main.elim (fun same => same.trans bare) And.left

theorem enterRunning_none (bare : r.main = none) : (enterRunning cfg s r f).main = none := by
  obtain leaves | ⟨r', running, main, _⟩ | ⟨_, r', exited⟩ := enterRunning_leaves cfg s r f
  · exact leaves.main_none bare
  · rw [running]
    exact main.trans bare
  · rw [exited]
    rfl

theorem Books.enters_running (books : Books cfg s) (begins : Begins s r) (f : Result) :
    Enters cfg s (enterRunning cfg s r f) := by
  obtain leaves | ⟨r', running, main, watched⟩ | ⟨none, r', exited⟩ := enterRunning_leaves cfg s r f
  · exact books.enters_leaves begins leaves
  · rw [running]
    refine ⟨begins.main main, ?_, Bool.noConfusion, fun inactive => ((active_apart (.inl rfl)).1 inactive).elim,
      fun _ => .inr (.inl rfl), fun _ waits => ((active_apart (.inl rfl)).2 waits).elim⟩
    intro p known
    change p ∈ r'.watched
    rw [watched]
    exact begins.watched (main.symm.trans known)
  · rw [exited]
    exact ⟨begins.main none.symm, fun p known => (by cases known), Bool.noConfusion,
      fun inactive => ((active_apart (.inr rfl)).1 inactive).elim, fun known => (known rfl).elim, fun _ waits => ((active_apart (.inr rfl)).2 waits).elim⟩

theorem begins_mgr (books : Books cfg s) : Begins s s.mgr := .inl ⟨rfl, fun p known => (books.tracked p known).1⟩

/-- The record of a reaped main process. -/
theorem Books.enters_exit (books : Books cfg s) (ordered : cfg.Ordered) (top : s.Top cfg .sigchld) (zombie : z ∈ s.unreaped)
    (main : s.mainPid = some z) (st : Status) :
    Enters cfg s (mainExit cfg s { s.mgr with watched := s.watched.erase z } st) ∧
      (mainExit cfg s { s.mgr with watched := s.watched.erase z } st).main = none := by
  have read : s.ulQ = [] := not_not.mp (top_before top ordered.userLookup)
  have dead := books.family.unreaped z zombie
  have left : Left s := by
    obtain rfl | rfl := Proc.invoker (books.tracked z main).2.2
    · exact .inr dead
    · exact books.family.single (by rw [dead]; decide)
  have running (r : Mgr) (f : Result) (bare : r.main = none) :
      Enters cfg s (enterRunning cfg s r f) ∧ (enterRunning cfg s r f).main = none :=
    ⟨books.enters_running (.inr ⟨bare, left, read⟩) f, enterRunning_none bare⟩
  have stops {r q : Mgr} (bare : r.main = none) (leaves : Leaves cfg s r q) : Enters cfg s q ∧ q.main = none :=
    ⟨books.enters_leaves (.inr ⟨bare, left, read⟩) leaves, leaves.main_none bare⟩
  have absent (r : Mgr) (bare : r.main = none) : Absent s r := fun p known => (by cases bare.symm.trans known)
  have states := books.ended (by rw [main]; exact Option.some_ne_none z)
  rw [mainExit]
  dsimp only [State.mgr]
  obtain start | active | stop | kill := states
  · rw [start]
    dsimp only
    split
    next =>
      split
      next => exact running _ _ rfl
      next => exact stops rfl (enterStopSigterm_leaves ..)
    next => exact running _ _ rfl
  · rw [active]
    exact running _ _ rfl
  · rw [stop]
    exact stops rfl (enterStopPost_leaves (absent _ rfl))
  · rw [kill]
    exact stops rfl (enterStopPost_leaves (absent _ rfl))

theorem Books.enters_cgEmpty (books : Books cfg s) (nobody : ∀ p, ¬ s.Alive p) :
    Enters cfg s (if s.state.Inactive then s.mgr else cgEmpty cfg s s.mgr) := by
  have unchanged : Enters cfg s s.mgr := books.enters_same rfl rfl (fun p known => (books.tracked p known).1) rfl
  have absent (none : s.mgr.main = none) : Absent s s.mgr := fun p known => (by cases none.symm.trans known)
  split
  next => exact unchanged
  next =>
    rw [cgEmpty, show s.mgr.state = s.state from rfl]
    cases s.state with
    | running => exact books.enters_running (begins_mgr books) _
    | stopSigterm | stopSigkill =>
      dsimp only
      split
      next none => exact books.enters_leaves (begins_mgr books) (enterStopPost_leaves (absent none))
      next => exact unchanged
    | finalSigterm | finalSigkill =>
      dsimp only
      split
      next none => exact books.enters_leaves (begins_mgr books) (enterDead_leaves (absent none) nobody)
      next => exact unchanged
    | start | exited | dead | failed => exact unchanged

/-! ### The sources of the loop -/

/-- A source that leaves the record alone. -/
theorem Books.idle (books : Books cfg s) (mgr : t.mgr = s.mgr) (pc : t.pc = s.pc) (parent : t.parent = s.parent)
    (session : t.session = s.session) (unreaped : t.unreaped = s.unreaped) (ulQ : t.ulQ ≠ [] → s.ulQ ≠ [])
    (prQ : t.prQ = s.prQ) (emptied : t.cgEmptyQ = true → ∀ p, ¬ s.Alive p) (sigterm : t.sigterm = s.sigterm)
    (sigkill : t.sigkill = s.sigkill) (lost : t.lost = s.lost) (uidLate : t.uidLate = false) : Books cfg t := by
  refine books.written (books.enters_same (q := s.mgr) rfl rfl (fun p known => (books.tracked p known).1) rfl) ?_
  refine ⟨congrArg Mgr.state mgr, congrArg Mgr.main mgr, congrArg Mgr.watched mgr, congrArg Mgr.timer mgr, pc, parent, session,
    unreaped.subset, fun p _ zombie => unreaped ▸ zombie, ulQ, fun full => prQ ▸ full, emptied, ?_, ?_, lost.trans books.lost, uidLate⟩
  · rw [sigterm]
    exact fun p pending => pending.resolve_right (Finset.notMem_empty p)
  · rw [sigkill]
    exact fun p pending => pending.resolve_right (Finset.notMem_empty p)

/-- A record is written back, and nothing else that the books are about. -/
theorem Books.applied (books : Books cfg s) (enters : Enters cfg s q) (job : Job) (bytes : List Bool) (queued : Bool) (stops : ℕ)
    (emptied : queued = true → ∀ p, ¬ s.Alive p) :
    Books cfg { apply s q with job := job, pipeB := bytes, cgEmptyQ := queued, stops := stops } := by
  refine books.written enters ⟨rfl, rfl, rfl, rfl, rfl, rfl, rfl, subset_rfl, fun _ _ => id, id, id, emptied, ?_, ?_, books.lost,
    books.uidLate⟩
  · exact fun p pending => by simpa [apply] using pending
  · exact fun p pending => by simpa [apply] using pending

theorem Books.dispatch_userLookup (books : Books cfg s) (top : s.Top cfg .userLookup) : Books cfg (dispatchUserLookup s) := by
  have main := books.lookup top.1
  have late : ¬ s.state.Inactive := by
    obtain start | running | waits := books.ended (by rw [main]; exact Option.some_ne_none _)
    · rw [start]
      decide
    · rw [running]
      decide
    · obtain term | kill := waits
      · rw [term]
        decide
      · rw [kill]
        decide
  refine books.idle rfl rfl rfl rfl rfl (fun _ => top.1) rfl books.emptied rfl rfl rfl ?_
  change (s.uidLate || decide s.state.Inactive) = false
  rw [books.uidLate, decide_eq_false late]
  rfl

theorem Books.dispatch_pidref (books : Books cfg s) (ordered : cfg.Ordered) (top : s.Top cfg .pidref) :
    Books cfg (dispatchPidref s) := by
  have read : s.ulQ = [] := not_not.mp (top_before top ordered.looked)
  have there := books.family.announced top.1
  have left : Left s := by
    apply books.family.single
    obtain alive | zombie := there
    · exact alive.1
    · rw [books.family.unreaped _ zombie]
      decide
  have term (p : Proc) (pending : s.sigterm p = true ∨ p ∈ (∅ : Finset Proc)) := pending.resolve_right (Finset.notMem_empty p)
  have kill (p : Proc) (pending : s.sigkill p = true ∨ p ∈ (∅ : Finset Proc)) := pending.resolve_right (Finset.notMem_empty p)
  have tracked (p : Proc) (known : s.mainPid = some p) := (books.tracked p known).1
  rw [dispatchPidref]
  split
  next => exact books
  next par rest _ =>
    split
    next found =>
      let q : Mgr := { s.mgr with main := some .child, watched := insert .child (s.watched.erase par) }
      have enters : Enters cfg s q := by
        refine ⟨.inr ⟨left, read, .inr ⟨rfl, there⟩⟩, ?_, books.timer, books.inactive, ?_, ?_⟩
        · intro p known
          obtain rfl : Proc.child = p := Option.some.inj known
          exact Finset.mem_insert_self ..
        · exact fun _ => books.ended (by rw [found.2]; exact Option.some_ne_none _)
        · exact fun reaching waits p other alive => (books.reach reaching waits p other alive).imp .inl .inl
      exact books.written enters ⟨rfl, rfl, rfl, rfl, rfl, rfl, rfl, subset_rfl, fun _ _ => id, id, fun _ => top.1, books.emptied,
        term, kill, books.lost, books.uidLate⟩
    next =>
      exact books.written (books.enters_same (q := s.mgr) rfl rfl tracked rfl) ⟨rfl, rfl, rfl, rfl, rfl, rfl, rfl, subset_rfl,
        fun _ _ => id, id, fun _ => top.1, books.emptied, term, kill, books.lost, books.uidLate⟩

theorem Books.dispatch_handoff (books : Books cfg s) : Books cfg (dispatchHandoff s) := by
  rw [dispatchHandoff]
  split
  next => exact books
  next =>
    split
    next => exact books.idle rfl rfl rfl rfl rfl id rfl books.emptied rfl rfl rfl books.uidLate
    next => exact books.idle rfl rfl rfl rfl rfl id rfl books.emptied rfl rfl rfl books.uidLate

theorem Books.dispatch_execFd (books : Books cfg s) : Books cfg (dispatchExecFd cfg s) := by
  have tracked (p : Proc) (known : s.mainPid = some p) := (books.tracked p known).1
  rw [dispatchExecFd]
  refine books.applied ?_ _ [] s.cgEmptyQ s.stops books.emptied
  split
  next =>
    split
    next => exact books.enters_running (.inl ⟨rfl, tracked⟩) _
    next => exact books.enters_same rfl rfl tracked rfl
  next => exact books.enters_same rfl rfl tracked rfl

theorem Books.dispatch_reap (books : Books cfg s) (ordered : cfg.Ordered) (top : s.Top cfg .sigchld) (zombie : z ∈ s.unreaped) :
    Books cfg (reap cfg s z) := by
  have looked : s.ulQ = [] := not_not.mp (top_before top ordered.userLookup)
  have announced : s.prQ = [] := not_not.mp (top_before top ordered.pidref)
  have handed : s.hoQ = [] := not_not.mp (top_before top ordered.handoff)
  have heard : ¬ s.Ready .execFd := top_before top ordered.execFd
  have lost : (s.lost || decide (z ∈ s.ulQ ∨ z ∈ s.hoQ ∨ z ∈ s.prQ ∨ s.mainPid = some z ∧ s.Ready .execFd)) = false := by
    rw [books.lost, looked, announced, handed, Bool.false_or, decide_eq_false]
    simp [heard]
  have reads (r : Mgr) (status : Status) (other : r.main ≠ some z) :
      Reads s r { apply s r with
        mainStatus := status
        unreaped := s.unreaped.erase z
        lost := s.lost || decide (z ∈ s.ulQ ∨ z ∈ s.hoQ ∨ z ∈ s.prQ ∨ s.mainPid = some z ∧ s.Ready .execFd) } := by
    refine ⟨rfl, rfl, rfl, rfl, rfl, rfl, rfl, Finset.erase_subset .., ?_, id, id, books.emptied, ?_, ?_, lost, books.uidLate⟩
    · intro p needed member
      refine Finset.mem_erase.mpr ⟨?_, member⟩
      rintro rfl
      exact needed.elim other fun full => full announced
    · exact fun p pending => by simpa [apply] using pending
    · exact fun p pending => by simpa [apply] using pending
  rw [reap]
  split
  next main =>
    obtain ⟨enters, none⟩ := books.enters_exit ordered top zombie main (s.exitst z)
    exact books.written enters (reads _ (s.exitst z) (by rw [none]; exact (Option.some_ne_none z).symm))
  next other =>
    refine books.written (books.enters_same rfl rfl (fun p known => ?_) rfl) (reads _ s.mainStatus other)
    refine Finset.mem_erase.mpr ⟨?_, (books.tracked p known).1⟩
    rintro rfl
    exact other known

theorem Books.dispatch_event (books : Books cfg s) (ordered : cfg.Ordered) {ev : Event} (done : dispatch cfg s ev z = some t) :
    Books cfg t := by
  unfold dispatch at done
  split at done
  next top =>
    cases ev with
    | userLookup =>
      obtain rfl := Option.some.inj done
      exact books.dispatch_userLookup top
    | pidref =>
      obtain rfl := Option.some.inj done
      exact books.dispatch_pidref ordered top
    | handoff =>
      obtain rfl := Option.some.inj done
      exact books.dispatch_handoff
    | execFd =>
      obtain rfl := Option.some.inj done
      exact books.dispatch_execFd
    | signals =>
      obtain rfl := Option.some.inj done
      exact books.idle rfl rfl rfl rfl rfl id rfl books.emptied rfl rfl rfl books.uidLate
    | sigchld =>
      dsimp only at done
      split at done
      next =>
        obtain rfl := Option.some.inj done
        exact books.idle rfl rfl rfl rfl rfl id rfl books.emptied rfl rfl rfl books.uidLate
      next =>
        split at done
        next zombie =>
          obtain rfl := Option.some.inj done
          exact books.dispatch_reap ordered top (Finset.mem_filter.mp zombie).1
        next => cases done
    | cgInotify =>
      obtain rfl := Option.some.inj done
      refine books.idle rfl rfl rfl rfl rfl id rfl (fun empty p alive => ?_) rfl rfl rfl books.uidLate
      have nobody : s.aliveSet = ∅ := of_decide_eq_true empty
      exact Finset.notMem_empty p (nobody ▸ Finset.mem_filter.mpr ⟨Finset.mem_univ p, alive⟩)
    | cgEmpty =>
      obtain rfl := Option.some.inj done
      exact books.applied (books.enters_cgEmpty (books.emptied top.1)) _ s.pipeB false s.stops Bool.noConfusion
    | timer =>
      obtain rfl := Option.some.inj done
      exact books.applied (books.enters_leaves (begins_mgr books) (enterStopSigterm_leaves ..)) _ s.pipeB s.cgEmptyQ s.stops
        books.emptied
  next => cases done

theorem Books.performed (books : Books cfg s) (ordered : cfg.Ordered) {move : Move} (done : perform cfg s move = some t) :
    Books cfg t := by
  cases move with
  | initPhase p fails => exact books.beat (initPhase_beat (invoke_eq done).2)
  | creds p fails => exact books.beat (creds_beat (invoke_eq done).1 (invoke_eq done).2)
  | setup p fails => exact books.beat (setup_beat (invoke_eq done).2)
  | pam p fails => exact books.beat (pam_beat (invoke_eq done).1 (invoke_eq done).2)
  | pamSync p => exact books.beat (pamSync_beat (invoke_eq done).2)
  | ns p fails => exact books.beat (ns_beat (invoke_eq done).2)
  | nsExit p => exact books.beat (nsExit_beat (invoke_eq done).2)
  | sandbox p fails => exact books.beat (sandbox_beat (invoke_eq done).2)
  | hot p => exact books.beat (hot_beat (invoke_eq done).2)
  | handoff p => exact books.beat (handoff_beat (invoke_eq done).2)
  | execve p fails => exact books.beat (execve_beat (invoke_eq done).2)
  | payloadExit p st => exact books.beat (payloadExit_beat (invoke_eq done).2)
  | killed p => exact books.beat (killed_beat done)
  | pCloseFd => exact books.beat (pCloseFd_beat done)
  | pDrop fails => exact books.beat (pDrop_beat done)
  | pPrctl => exact books.beat (pPrctl_beat done)
  | pPlace => exact books.beat (pPlace_beat done)
  | pCheck => exact books.beat (pCheck_beat done)
  | pWait => exact books.beat (pWait_beat done)
  | pClose => exact books.beat (pClose_beat done)
  | pExit => exact books.beat (pExit_beat done)
  | dispatch ev z => exact books.dispatch_event ordered done
  | stopRequest =>
    change stopRequest cfg s = some t at done
    rw [stopRequest] at done
    split at done
    next =>
      obtain rfl := Option.some.inj done
      let q := enterStopSigterm cfg s s.mgr .success
      let job := if s.job = .running then .canceled else q.job
      exact books.applied (books.enters_leaves (q := q) (begins_mgr books) (enterStopSigterm_leaves ..)) job s.pipeB s.cgEmptyQ
        (s.stops - 1) books.emptied
    next => cases done
  | timeoutFire =>
    change timeoutFire s = some t at done
    rw [timeoutFire] at done
    split at done
    next =>
      obtain rfl := Option.some.inj done
      exact books.idle rfl rfl rfl rfl rfl id rfl books.emptied rfl rfl rfl books.uidLate
    next => cases done

theorem init_family : Family cfg (init cfg) := by
  have child : (init cfg).pc .child = .none := rfl
  have sdPam : (init cfg).pc .sdPam = .none := rfl
  refine ⟨fun p zombie => absurd zombie (Finset.notMem_empty p), ?_, ?_, ?_, fun forked => (forked child).elim,
    fun forked => (forked sdPam).elim, fun _ => ⟨child, ?_⟩, fun sent => (sent rfl).elim, fun _ => ⟨sdPam, rfl⟩,
    fun forked => (forked sdPam).elim, Session.noConfusion⟩
  · exact Pc.noConfusion
  · rw [child]
    decide
  · rw [sdPam]
    decide
  · exact Pc.noConfusion

theorem init_books : Books cfg (init cfg) := by
  have state : (init cfg).state = .start ∨ (init cfg).state = .running := by
    by_cases simple : cfg.type = .simple
    · exact .inr (if_pos simple)
    · exact .inl (if_neg simple)
  refine ⟨init_family, ?_, ?_, Bool.noConfusion, ?_, fun _ => state.imp_right .inl, .inr rfl, fun sent => (sent rfl).elim, ?_, rfl, rfl⟩
  · intro p known
    obtain rfl : Proc.executor = p := Option.some.inj known
    exact ⟨Finset.mem_singleton_self _, .inl ⟨Pc.noConfusion, Pc.noConfusion⟩, by decide⟩
  · intro armed
    exact if_neg (of_decide_eq_true armed)
  · intro inactive
    obtain start | running := state
    · rw [start] at inactive
      exact absurd inactive (by decide)
    · rw [running] at inactive
      exact absurd inactive (by decide)
  · intro _ waits
    obtain start | running := state
    · rw [start] at waits
      exact absurd waits (by decide)
    · rw [running] at waits
      exact absurd waits (by decide)

theorem books_invariant (ordered : cfg.Ordered) : (spec cfg).Invariant (Books cfg) := by
  apply System.Invariant.of_step
  · rintro s rfl
    exact init_books
  · rintro s t books ⟨move, done⟩
    exact books.performed ordered done

/-! ### What is checked -/

section Properties

variable (s : State)

/-- What a process sent is read before the process is reaped. -/
def NoLostMessage : Prop := s.lost = false

/-- The user lookup never arrives at an inactive unit. -/
def NoLateUserLookup : Prop := s.uidLate = false

def MainPidIsTracked : Prop := ∀ p, s.mainPid = some p → p ∈ s.watched

def InactiveImpliesNoProcess : Prop := s.state.Inactive → s.aliveSet = ∅

/-- In a stop state the main process has been sent a signal. -/
def StopReachesMain : Prop :=
  s.state = .stopSigterm ∨ s.state = .stopSigkill →
    ∀ p, s.mainPid = some p → s.Alive p → s.sigterm p = true ∨ s.sigkill p = true

/-- The PAM session is closed only after the process that runs the payload is gone. -/
def SessionNotClosedWhilePayloadAlive : Prop := s.session = .closed → ∀ p, p ≠ .sdPam → ¬ s.Alive p

end Properties

/-- The books are right whatever the unit is and whatever dies, is stopped or times out. -/
theorem books_kept (ordered : cfg.Ordered) :
    (spec cfg).Invariant fun s =>
      NoLostMessage s ∧ NoLateUserLookup s ∧ MainPidIsTracked s ∧ InactiveImpliesNoProcess s ∧
        (cfg.killMode = .controlGroup ∨ cfg.pidns = false → StopReachesMain s) ∧
        (cfg.pam = false ∨ cfg.pidns = false → SessionNotClosedWhilePayloadAlive s) := by
  refine (books_invariant ordered).mono fun s books => ⟨books.lost, books.uidLate, fun p known => (books.tracked p known).1, ?_, ?_, ?_⟩
  · exact fun inactive => Finset.filter_eq_empty_iff.mpr fun p _ => books.inactive inactive p
  · exact fun reaching waits p known alive => books.reach reaching waits p (books.tracked p known).2.2 alive
  · intro single closed p other alive
    have dead := books.family.closed closed
    have plain : cfg.pidns = false := by
      refine single.resolve_left fun off => ?_
      cases closed.symm.trans (books.family.pamless off).2
    obtain rfl | rfl := Proc.invoker other
    · exact alive.2 dead
    · exact alive.1 (books.family.plain plain).1

theorem execPam_ordered : execPam.Ordered where
  userLookup := by decide
  pidref := by decide
  handoff := by decide
  execFd := by decide
  looked := by decide

theorem execPam_books : ∃ s, s.state = .running ∧ NoLostMessage s ∧ NoLateUserLookup s ∧ MainPidIsTracked s ∧
    InactiveImpliesNoProcess s ∧ (execPam.killMode = .controlGroup ∨ execPam.pidns = false → StopReachesMain s) ∧
      (execPam.pam = false ∨ execPam.pidns = false → SessionNotClosedWhilePayloadAlive s) := by
  obtain ⟨s, reached, state⟩ := execPam_started
  exact ⟨s, state, books_kept execPam_ordered s reached⟩

end LinuxTla.Executor
