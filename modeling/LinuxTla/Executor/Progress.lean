import LinuxTla.Executor.Wakeups
import LinuxTla.Lib.Fairness

/-! Type=exec comes to an end of its start: every step uses something up, and where nobody
can step any more the start job has left its queue once the payload was executed. -/

namespace LinuxTla.Executor

open Lib System

variable {cfg : Config} {s t : State} {q : Mgr} {p z : Proc}

/-! ### Every step uses something up -/

/-- How many phases the three processes have left. -/
def phases (pc : Proc → Pc) : ℕ := (pc .executor).rank + (pc .child).rank + (pc .sdPam).rank

theorem phases_update (pc : Proc → Pc) (p : Proc) (n : Pc) : phases (Function.update pc p n) + (pc p).rank = phases pc + n.rank := by
  cases p
  all_goals
    simp only [phases, Function.update_apply, reduceCtorEq, if_true, if_false]
    omega

/-- A phase pays for the message, the zombie and the two events it may leave. -/
def State.work (s : State) : ℕ :=
  8 * phases s.pc + s.post + s.unreaped.card + 2 * s.sigPending.toNat + s.sigchldDefer.toNat + 2 * s.cgInotify.toNat +
    s.cgEmptyQ.toNat + s.execFdSrc.toNat + s.timerFired.toNat + s.stops + 2 * s.timeouts

theorem Still.work (still : Still s t) (unreaped : t.unreaped.card ≤ s.unreaped.card + 1)
    (fewer : phases t.pc < phases s.pc) : t.work < s.work := by
  have source : t.execFdSrc = s.execFdSrc := congrArg Mgr.execFd still.mgr
  have post := still.post
  have signalled := Bool.toNat_le t.sigPending
  have noted := Bool.toNat_le t.cgInotify
  simp only [State.work, source, still.sigchldDefer, still.cgEmptyQ, still.timerFired, still.stops, still.timeouts]
  omega

theorem Stir.lowers (stir : Stir s t) (family : Family cfg s) : t.work < s.work := by
  cases stir with
  | @onward p n unharmed alive follows pc =>
    refine unharmed.work (unharmed.unreaped ▸ Nat.le_succ _) ?_
    have moved := phases_update s.pc p n
    have lower := follows.1
    rw [← pc] at moved
    omega
  | @pam p unharmed free other here pc =>
    refine unharmed.work (unharmed.unreaped ▸ Nat.le_succ _) ?_
    obtain rfl : p = .executor := by
      refine (Proc.invoker other).resolve_right ?_
      rintro rfl
      cases (here ▸ family.child.1 : Pc.pam.early = false)
    have unborn : s.pc .sdPam = .none := by
      by_contra born
      cases (here ▸ family.forks born : Pc.pam.fresh = false)
    have forked := phases_update (Function.update s.pc .executor .pamsync) .sdPam .closefd
    have moved := phases_update s.pc .executor .pamsync
    rw [← pc, Function.update_of_ne (by decide), unborn] at forked
    rw [here] at moved
    simp only [Pc.rank] at forked moved
    omega
  | nsFork unharmed free here pc =>
    refine unharmed.work (unharmed.unreaped ▸ Nat.le_succ _) ?_
    have unborn : s.pc .child = .none := by
      by_contra born
      obtain leaves | dead := family.single born
      · cases here.symm.trans leaves
      · cases here.symm.trans dead
    have forked := phases_update (Function.update s.pc .executor .nsexit) .child .sandbox
    have moved := phases_update s.pc .executor .nsexit
    rw [← pc, Function.update_of_ne (by decide), unborn] at forked
    rw [here] at moved
    simp only [Pc.rank] at forked moved
    omega
  | @die p still alive pc unreaped =>
    refine still.work (unreaped ▸ Finset.card_insert_le p s.unreaped) ?_
    have moved := phases_update s.pc p .dead
    have left : 0 < (s.pc p).rank := by
      refine Nat.pos_of_ne_zero fun zero => alive.2 ?_
      revert zero
      cases s.pc p <;> decide
    rw [← pc, show Pc.dead.rank = 0 from rfl] at moved
    omega

/-- What is written back asks for no event that was not there. -/
theorem apply_fired (s : State) (q : Mgr) : (apply s q).timerFired.toNat ≤ s.timerFired.toNat := by
  change (if q.timer = true then s.timerFired else false).toNat ≤ _
  split
  next => exact le_rfl
  next => exact Nat.zero_le _

theorem source_le {before after : Bool} (source : after = true → before = true) : after.toNat ≤ before.toNat := by
  cases known : after with
  | false => exact Nat.zero_le _
  | true => rw [source known]

/-- A record is written back, and a source of the loop pays for it. -/
theorem applied_lowers (q : Mgr) (bytes : List Bool) (unreaped : Finset Proc) (queued : Bool) (stops : ℕ)
    (less : bytes.length + unreaped.card + queued.toNat + q.execFd.toNat + stops <
      s.pipeB.length + s.unreaped.card + s.cgEmptyQ.toNat + s.execFdSrc.toNat + s.stops)
    {job : Job} {status : Status} {lost : Bool} :
    ({ apply s q with
      job := job, pipeB := bytes, cgEmptyQ := queued, stops := stops, unreaped := unreaped, mainStatus := status, lost := lost } : State).work < s.work := by
  have fired := apply_fired s q
  change 8 * phases s.pc + (s.ulQ.length + s.hoQ.length + s.prQ.length + bytes.length) + unreaped.card + 2 * s.sigPending.toNat +
    s.sigchldDefer.toNat + 2 * s.cgInotify.toNat + queued.toNat + q.execFd.toNat + (apply s q).timerFired.toNat + stops +
      2 * s.timeouts < s.work
  simp only [State.work, State.post]
  omega

theorem execFd_lowers (ready : s.Ready .execFd) : (dispatchExecFd cfg s).work < s.work := by
  obtain ⟨source, news⟩ := ready
  refine applied_lowers _ [] s.unreaped s.cgEmptyQ s.stops ?_
  rw [source]
  by_cases closed : s.pipeW = ∅
  · rw [if_pos closed]
    generalize known : (if s.lastHot = true ∧ cfg.type = .exec ∧ s.state = .start then
      enterStartPost cfg s { s.mgr with execFd := false, hot := false } else { s.mgr with execFd := false, hot := false } : Mgr) = q
    have silent : q.execFd = false := by
      rw [← known]
      split
      next => exact Bool.eq_false_of_not_eq_true fun reads => Bool.noConfusion ((enterRunning_halts ..).source reads)
      next => rfl
    rw [silent]
    simp only [List.length_nil, Bool.toNat_false, Bool.toNat_true]
    omega
  · rw [if_neg closed]
    have bytes := List.length_pos_iff.mpr (news.resolve_right closed)
    have same : s.mgr.execFd.toNat = 1 := congrArg Bool.toNat source
    simp only [List.length_nil, Bool.toNat_true, same]
    omega

theorem reap_lowers (books : Books cfg s) (zombie : z ∈ s.unreaped) : (reap cfg s z).work < s.work := by
  have fewer := Finset.card_erase_lt_of_mem zombie
  have same : s.mgr.execFd = s.execFdSrc := rfl
  rw [reap]
  dsimp only
  split
  next main =>
    have states := books.ended (by rw [main]; exact Option.some_ne_none z)
    have source : (mainExit cfg s { s.mgr with watched := s.watched.erase z } (s.exitst z)).execFd.toNat ≤ s.execFdSrc.toNat :=
      source_le (mainExit_halts cfg s _ _ states).source
    dsimp only at source
    refine applied_lowers _ s.pipeB (s.unreaped.erase z) s.cgEmptyQ s.stops ?_
    omega
  next =>
    refine applied_lowers _ s.pipeB (s.unreaped.erase z) s.cgEmptyQ s.stops ?_
    rw [same]
    omega

theorem cgEmpty_lowers (queued : s.cgEmptyQ = true) : (dispatchCgEmpty cfg s).work < s.work := by
  have source : (if s.state.Inactive then s.mgr else cgEmpty cfg s s.mgr).execFd.toNat ≤ s.execFdSrc.toNat := by
    apply source_le
    split
    next => exact id
    next =>
      obtain halts | ⟨same, _⟩ := cgEmpty_halts cfg s s.mgr
      · exact halts.source
      · rw [same]
        exact id
  refine applied_lowers _ s.pipeB s.unreaped false s.stops ?_
  rw [queued]
  simp only [Bool.toNat_false, Bool.toNat_true]
  omega

theorem timer_lowers (fired : s.timerFired = true) : (dispatchTimer cfg s).work < s.work := by
  have source : (enterStopSigterm cfg s s.mgr .timeout).execFd.toNat ≤ s.execFdSrc.toNat :=
    source_le (enterStopSigterm_halts cfg s s.mgr .timeout).source
  have unarmed : (dispatchTimer cfg s).timerFired = false :=
    if_neg ((enterStopSigterm_leaves cfg s s.mgr .timeout).timer ▸ Bool.noConfusion)
  change 8 * phases s.pc + s.post + s.unreaped.card + 2 * s.sigPending.toNat + s.sigchldDefer.toNat + 2 * s.cgInotify.toNat +
    s.cgEmptyQ.toNat + (enterStopSigterm cfg s s.mgr .timeout).execFd.toNat + (dispatchTimer cfg s).timerFired.toNat + s.stops +
      2 * s.timeouts < s.work
  rw [unarmed]
  simp only [State.work, fired, Bool.toNat_false, Bool.toNat_true]
  omega

theorem dispatch_lowers (books : Books cfg s) {ev : Event} (done : dispatch cfg s ev z = some t) : t.work < s.work := by
  unfold dispatch at done
  split at done
  next top =>
    have ready := top.1
    cases ev with
    | userLookup =>
      obtain rfl := Option.some.inj done
      have read := List.length_pos_iff.mpr ready
      simp only [State.work, State.post, dispatchUserLookup, List.length_tail]
      omega
    | pidref =>
      obtain rfl := Option.some.inj done
      cases queue : s.prQ with
      | nil => exact (ready queue).elim
      | cons par rest =>
        simp only [dispatchPidref, queue]
        split
        next =>
          simp only [State.work, State.post, queue, List.length_cons]
          omega
        next =>
          simp only [State.work, State.post, queue, List.length_cons]
          omega
    | handoff =>
      obtain rfl := Option.some.inj done
      cases queue : s.hoQ with
      | nil => exact (ready queue).elim
      | cons sender rest =>
        simp only [dispatchHandoff, queue]
        split
        next =>
          simp only [State.work, State.post, queue, List.length_cons]
          omega
        next =>
          simp only [State.work, State.post, queue, List.length_cons]
          omega
    | execFd =>
      obtain rfl := Option.some.inj done
      exact execFd_lowers ready
    | signals =>
      obtain rfl := Option.some.inj done
      have pending : s.sigPending = true := ready
      have deferred := Bool.toNat_le s.sigchldDefer
      simp only [State.work, State.post, dispatchSignals, pending, Bool.toNat_true, Bool.toNat_false]
      omega
    | sigchld =>
      have deferred : s.sigchldDefer = true := ready
      dsimp only at done
      split at done
      next =>
        obtain rfl := Option.some.inj done
        simp only [State.work, State.post, deferred, Bool.toNat_true, Bool.toNat_false]
        omega
      next =>
        split at done
        next zombie =>
          obtain rfl := Option.some.inj done
          exact reap_lowers books (Finset.mem_filter.mp zombie).1
        next => cases done
    | cgInotify =>
      obtain rfl := Option.some.inj done
      have noted : s.cgInotify = true := ready
      have empty := Bool.toNat_le (decide (s.aliveSet = ∅))
      simp only [State.work, State.post, dispatchCgInotify, noted, Bool.toNat_true, Bool.toNat_false]
      omega
    | cgEmpty =>
      obtain rfl := Option.some.inj done
      exact cgEmpty_lowers ready
    | timer =>
      obtain rfl := Option.some.inj done
      exact timer_lowers ready.1
  next => cases done

theorem stop_lowers (done : stopRequest cfg s = some t) : t.work < s.work := by
  rw [stopRequest] at done
  split at done
  next enabled =>
    obtain rfl := Option.some.inj done
    have budget := enabled.1
    have source : (enterStopSigterm cfg s s.mgr .success).execFd.toNat ≤ s.execFdSrc.toNat :=
      source_le (enterStopSigterm_halts cfg s s.mgr .success).source
    let q : Mgr := { enterStopSigterm cfg s s.mgr .success with
      job := if s.job = .running then .canceled else (enterStopSigterm cfg s s.mgr .success).job }
    refine applied_lowers q s.pipeB s.unreaped s.cgEmptyQ (s.stops - 1) ?_
    change s.pipeB.length + s.unreaped.card + s.cgEmptyQ.toNat + (enterStopSigterm cfg s s.mgr .success).execFd.toNat + (s.stops - 1) < _
    omega
  next => cases done

theorem performed_lowers (waits : cfg.pamWaitsForParent = false) (books : Books cfg s) {move : Move}
    (done : perform cfg s move = some t) : t.work < s.work := by
  obtain stir | ⟨ev, z, done⟩ | done | done := performed_cases waits done
  · exact stir.lowers books.family
  · exact dispatch_lowers books done
  · exact stop_lowers done
  · rw [timeoutFire] at done
    split at done
    next enabled =>
      obtain rfl := Option.some.inj done
      have budget := enabled.1
      simp only [State.work, State.post, enabled.2.2, Bool.toNat_true, Bool.toNat_false]
      omega
    next => cases done

theorem dispatch_execd {ev : Event} (done : dispatch cfg s ev z = some t) : t.execd = s.execd := by
  unfold dispatch at done
  split at done
  next =>
    cases ev with
    | pidref =>
      obtain rfl := Option.some.inj done
      rw [dispatchPidref]
      split
      next => rfl
      next =>
        split
        next => rfl
        next => rfl
    | handoff =>
      obtain rfl := Option.some.inj done
      rw [dispatchHandoff]
      split
      next => rfl
      next =>
        split
        next => rfl
        next => rfl
    | sigchld =>
      dsimp only at done
      split at done
      next =>
        obtain rfl := Option.some.inj done
        rfl
      next =>
        split at done
        next =>
          obtain rfl := Option.some.inj done
          rw [reap]
          dsimp only
          split
          next => rfl
          next => rfl
        next => cases done
    | userLookup | execFd | signals | cgInotify | cgEmpty | timer =>
      obtain rfl := Option.some.inj done
      rfl
  next => cases done

theorem performed_execd (waits : cfg.pamWaitsForParent = false) {move : Move} (done : perform cfg s move = some t)
    (execd : s.execd = true) : t.execd = true := by
  obtain stir | ⟨ev, z, done⟩ | done | done := performed_cases waits done
  · cases stir with
    | onward unharmed | pam unharmed | nsFork unharmed => exact unharmed.execd execd
    | die still => exact still.execd execd
  · exact (dispatch_execd done).trans execd
  · rw [stopRequest] at done
    split at done
    next =>
      obtain rfl := Option.some.inj done
      exact execd
    next => cases done
  · rw [timeoutFire] at done
    split at done
    next =>
      obtain rfl := Option.some.inj done
      exact execd
    next => cases done

/-! ### Fairness -/

section Actions

variable (cfg) (s t : State)

def ManagerStep : Prop := ∃ ev z, perform cfg s (.dispatch ev z) = some t

def execMoves (p : Proc) (fails : Bool) : List Move :=
  [.initPhase p fails, .creds p fails, .setup p fails, .pam p fails, .pamSync p, .ns p fails, .nsExit p, .sandbox p fails, .hot p,
    .handoff p, .execve p fails]

def ExecStep (p : Proc) : Prop := ∃ fails, ∃ move ∈ execMoves p fails, perform cfg s move = some t

def pamMoves (fails : Bool) : List Move := [.pCloseFd, .pDrop fails, .pPrctl, .pPlace, .pCheck, .pWait, .pClose, .pExit]

def PamProc : Prop := ∃ fails, ∃ move ∈ pamMoves fails, perform cfg s move = some t

def Killed (p : Proc) : Prop := perform cfg s (.killed p) = some t

end Actions

/-- Every step a process or the manager takes on its own is fair; whether a phase fails, a
payload exits, a stop or a timeout happens is left to the environment. -/
structure Fair (cfg : Config) (states : ℕ → State) : Prop where
  manager : WeaklyFair (ManagerStep cfg) states
  exec : ∀ p, p ≠ .sdPam → WeaklyFair (fun s t => ExecStep cfg s t p) states
  pamProc : WeaklyFair (PamProc cfg) states
  killed : ∀ p, WeaklyFair (fun s t => Killed cfg s t p) states

/-! ### Where nobody can step any more -/

structure Resting (cfg : Config) (s : State) : Prop where
  manager : ¬ ∃ t, ManagerStep cfg s t
  exec : ∀ p, p ≠ .sdPam → ¬ ∃ t, ExecStep cfg s t p
  pamProc : ¬ ∃ t, PamProc cfg s t
  killed : ∀ p, ¬ ∃ t, Killed cfg s t p

theorem Resting.unready (resting : Resting cfg s) (ev : Event) : ¬ s.Ready ev := by
  intro ready
  obtain ⟨top, member, least⟩ := Finset.exists_min_image (Finset.univ.filter s.Ready) cfg.prio
    ⟨ev, Finset.mem_filter.mpr ⟨Finset.mem_univ ev, ready⟩⟩
  have first : s.Top cfg top :=
    ⟨(Finset.mem_filter.mp member).2, fun e other => least e (Finset.mem_filter.mpr ⟨Finset.mem_univ e, other⟩)⟩
  apply resting.manager
  have dispatched : ∃ z t, dispatch cfg s top z = some t := by
    cases top with
    | sigchld =>
      by_cases nobody : s.zombies = ∅
      · exact ⟨.executor, _, (if_pos first).trans (if_pos nobody)⟩
      · obtain ⟨z, zombie⟩ := Finset.nonempty_iff_ne_empty.mpr nobody
        exact ⟨z, _, (if_pos first).trans ((if_neg nobody).trans (if_pos zombie))⟩
    | userLookup | pidref | handoff | execFd | signals | cgInotify | cgEmpty | timer => exact ⟨.executor, _, if_pos first⟩
  obtain ⟨z, t, done⟩ := dispatched
  exact ⟨t, top, z, done⟩

theorem Resting.reaped (resting : Resting cfg s) (alert : Alert s) (zombie : z ∈ s.unreaped) : s.parent z ≠ none := by
  intro orphan
  obtain signalled | deferred := alert.pending z zombie orphan
  · exact resting.unready .signals signalled
  · exact resting.unready .sigchld deferred

theorem Resting.quiet (resting : Resting cfg s) (alive : s.Alive p) : s.sigkill p = false ∧ (p ≠ .sdPam → s.sigterm p = false) := by
  have free : ¬ (s.sigkill p = true ∨ s.sigterm p = true ∧ p ≠ .sdPam) := fun fatal =>
    resting.killed p ⟨_, if_pos ⟨alive, fatal⟩⟩
  refine ⟨Bool.eq_false_of_not_eq_true fun kill => free (.inl kill), fun other => Bool.eq_false_of_not_eq_true fun term => free (.inr ⟨term, other⟩)⟩

theorem Resting.sdPam (resting : Resting cfg s) (alert : Alert s) (alive : s.Alive .sdPam) :
    s.pc .sdPam = .wait ∧ s.sigterm .sdPam = false := by
  have free : s.NoFatal .sdPam := ⟨(resting.quiet alive).1, .inl rfl⟩
  have phase := alert.sdPam
  have stuck (move : Move) (own : move ∈ pamMoves false) (t : State) : perform cfg s move ≠ some t := fun done =>
    resting.pamProc ⟨t, false, move, own, done⟩
  have enabled {pc : Pc} (here : s.pc .sdPam = pc) (t : State) : s.step .sdPam pc t = some t := if_pos ⟨free, here⟩
  cases here : s.pc .sdPam with
  | none => exact absurd here alive.1
  | dead => exact absurd here alive.2
  | closefd => exact absurd (enabled here _) (stuck .pCloseFd (by simp [pamMoves]) _)
  | drop => exact absurd (enabled here _) (stuck (.pDrop false) (by simp [pamMoves]) _)
  | prctl => exact absurd (enabled here _) (stuck .pPrctl (by simp [pamMoves]) _)
  | place => exact absurd (enabled here _) (stuck .pPlace (by simp [pamMoves]) _)
  | check => exact absurd (enabled here _) (stuck .pCheck (by simp [pamMoves]) _)
  | wait =>
    refine ⟨rfl, Bool.eq_false_of_not_eq_true fun term => ?_⟩
    exact absurd ((if_pos term).trans (enabled here _)) (stuck .pWait (by simp [pamMoves]) _)
  | close => exact absurd (enabled here _) (stuck .pClose (by simp [pamMoves]) _)
  | exit => exact absurd (enabled here _) (stuck .pExit (by simp [pamMoves]) _)
  | init | creds | setup | pam | pamsync | ns | nsexit | sandbox | hot | handoff | execve | payload =>
    rw [here] at phase
    cases phase

theorem Resting.gone (resting : Resting cfg s) (alert : Alert s) (told : s.Told p) : ¬ s.Alive p := by
  intro alive
  obtain ⟨kill, term⟩ := resting.quiet alive
  by_cases own : p = .sdPam
  · subst own
    obtain ⟨here, unheard⟩ := resting.sdPam alert alive
    obtain pending | pending | ⟨_, late⟩ := told
    · cases pending.symm.trans unheard
    · cases pending.symm.trans kill
    · rw [here] at late
      exact absurd late (by decide)
  · exact told_fatal told own ⟨kill, .inr (term own)⟩

theorem Resting.payload (resting : Resting cfg s) (machine : Machine cfg s.view) (execd : s.execd = true) (other : p ≠ .sdPam)
    (alive : s.Alive p) : s.pc p = .payload := by
  have ran : s.pc cfg.payload = .payload ∨ s.pc cfg.payload = .dead := machine.execd execd
  have leaves : s.pc p ≠ .nsexit := by
    intro here
    have free : s.NoFatal p := ⟨(resting.quiet alive).1, .inr ((resting.quiet alive).2 other)⟩
    have exits : nsExit s p = some (die s p (.exited 0)) := if_pos ⟨free, here⟩
    exact resting.exec p other ⟨_, false, .nsExit p, by simp [execMoves], (if_neg other).trans exits⟩
  have plain : cfg.pidns = false → s.pc .child = .none := fun off => (machine.plain off).1
  have nested : cfg.pidns = true → s.pc .child ≠ .none → s.pc .executor = .nsexit ∨ s.pc .executor = .dead := fun on born =>
    ((machine.nested on).2.resolve_left fun unborn => born unborn.1).2
  rw [Config.payload] at ran
  split at ran
  next on =>
    obtain rfl | rfl := Proc.invoker other
    · have born : s.pc .child ≠ .none := by
        obtain here | here := ran
        all_goals
          rw [here]
          decide
      exact absurd (nested on born) (not_or.mpr ⟨leaves, alive.2⟩)
    · exact ran.resolve_right alive.2
  next off =>
    obtain rfl | rfl := Proc.invoker other
    · exact ran.resolve_right alive.2
    · exact absurd (plain (Bool.eq_false_of_not_eq_true off)) alive.1

theorem Resting.pipe (resting : Resting cfg s) (machine : Machine cfg s.view) (alert : Alert s) (execd : s.execd = true) : s.pipeW = ∅ := by
  refine Finset.eq_empty_of_forall_notMem fun p writes => ?_
  by_cases own : p = .sdPam
  · subst own
    have here : s.pc .sdPam = .closefd := machine.inherits writes
    have waits := (resting.sdPam alert (alive_of_pc here (by decide))).1
    cases here.symm.trans waits
  · have early : (s.pc p).early = true ∨ (s.pc p).late = true := (machine.writes p own).mp writes
    have alive : s.Alive p := by
      obtain early | late := early
      · exact ⟨(Pc.early_apart early).2.1, (Pc.early_apart early).2.2.2.2⟩
      · exact ⟨(Pc.late_apart late).2.1, (Pc.late_apart late).2.2.2.2⟩
    rw [resting.payload machine execd own alive] at early
    exact early.elim Bool.noConfusion Bool.noConfusion

theorem Resting.stopped (resting : Resting cfg s) (alert : Alert s) (books : Books cfg s) (reaching : cfg.Reaching) : ¬ s.state.Halting := by
  intro halting
  cases known : s.mainPid with
  | none =>
    obtain ⟨p, alive⟩ | noted | queued := alert.emptied halting known
    · exact resting.gone alert (alert.told halting known p alive) alive
    · exact resting.unready .cgInotify noted
    · exact resting.unready .cgEmpty queued
  | some p =>
    obtain ⟨_, there, other⟩ := books.tracked p known
    have waits : s.state.Waits := by
      refine halting.resolve_right fun final => ?_
      have states := books.ended (by rw [known]; exact Option.some_ne_none p)
      obtain last | last := final
      · rw [last] at states
        exact absurd states (by decide)
      · rw [last] at states
        exact absurd states (by decide)
    obtain alive | zombie := there
    · refine resting.gone alert ?_ alive
      exact (books.reach reaching waits p other alive).imp_right .inl
    · exact resting.reaped alert zombie (alert.natives p other)

/-- Where nobody can step any more the start job is over once the payload was executed. -/
theorem Resting.completed (resting : Resting cfg s) (inv : Inv cfg s.view) (alert : Alert s) (books : Books cfg s)
    (reaching : cfg.Reaching) (execd : s.execd = true) : s.job ≠ .running := by
  intro waiting
  have pipe := resting.pipe inv.machine alert execd
  have started : s.state ≠ .start := by
    intro start
    have source : s.execFdSrc = true := by
      by_contra closed
      have unexecuted : s.execd = false := (inv.starting.closed start (Bool.eq_false_of_not_eq_true closed)).1
      cases unexecuted.symm.trans execd
    exact resting.unready .execFd ⟨source, .inr pipe⟩
  have stopped := resting.stopped alert books reaching
  have active : ¬ s.state.Active := fun active => (inv.verdict.active active).2 waiting
  have inactive : ¬ s.state.Inactive := fun inactive => alert.finished inactive waiting
  revert started stopped active inactive
  cases s.state <;> decide

/-- Type=exec: once execve() succeeded, the start job completes, whatever dies, is stopped or
times out. -/
theorem job_completes (sound : cfg.Sound) (ordered : cfg.Ordered) (reaching : cfg.Reaching) {states : ℕ → State}
    (behaviour : (spec cfg).Behaviour states) (fair : Fair cfg states) (n : ℕ) (execd : (states n).execd = true) :
    ∃ m, n ≤ m ∧ (states m).job ≠ .running := by
  have lowers (s t : State) (reached : (spec cfg).Reachable s) (step : (spec cfg).next s t) : t.work < s.work :=
    step.elim fun _ done => performed_lowers sound.waits (books_invariant ordered s reached) done
  obtain ⟨r, rests, idles⟩ := behaviour.idles State.work lowers
  have resting : Resting cfg (states r) := by
    refine ⟨idles _ fair.manager fun t step => ?_, fun p other => idles _ (fair.exec p other) fun t step => ?_,
      idles _ fair.pamProc fun t step => ?_, fun p => idles _ (fair.killed p) fun t done => ⟨_, done⟩⟩
    · obtain ⟨_, _, done⟩ := step
      exact ⟨_, done⟩
    · obtain ⟨_, _, _, done⟩ := step
      exact ⟨_, done⟩
    · obtain ⟨_, _, _, done⟩ := step
      exact ⟨_, done⟩
  have keeps (s t : State) (held : s.execd = true) (step : (spec cfg).next s t) : t.execd = true :=
    step.elim fun _ done => performed_execd sound.waits done held
  have later : (states (max n r)).execd = true := behaviour.stays keeps (Nat.le_max_left n r) execd
  refine ⟨max n r, Nat.le_max_left n r, ?_⟩
  rw [rests _ (Nat.le_max_right n r)] at later ⊢
  exact resting.completed (inv_invariant sound _ (behaviour.reachable r)) (alert_invariant sound.waits ordered _ (behaviour.reachable r))
    (books_invariant ordered _ (behaviour.reachable r)) reaching later

section Small

/-- No process and no source of the loop can go on. -/
def Stuck (cfg : Config) (s : State) : Prop :=
  (∀ ev z, (perform cfg s (.dispatch ev z)).isNone) ∧ (∀ p fails, ∀ move ∈ execMoves p fails, (perform cfg s move).isNone) ∧
    (∀ fails, ∀ move ∈ pamMoves fails, (perform cfg s move).isNone) ∧ ∀ p, (perform cfg s (.killed p)).isNone

instance : Decidable (Stuck cfg s) := inferInstanceAs (Decidable (_ ∧ _))

theorem execPam_stuck : ∃ s, (spec execPam).Reachable s ∧ s.execd = true ∧ s.job = .done ∧ Stuck execPam s := by
  have ran : (runs execPam (init execPam) (started ++ [.pCheck])).map (fun s => decide (s.execd = true ∧ s.job = .done ∧ Stuck execPam s)) =
      some true := by decide +kernel
  obtain ⟨s, done, facts⟩ := Option.map_eq_some_iff.mp ran
  obtain ⟨execd, job, stuck⟩ := of_decide_eq_true facts
  exact ⟨s, runs_reachable (.init rfl) done, execd, job, stuck⟩

/-- The payload runs on, (sd-pam) waits, and the start job is done. -/
theorem execPam_completes : ∃ s, s.execd = true ∧ Stuck execPam s ∧ s.job ≠ .running := by
  obtain ⟨s, reached, execd, _, stuck⟩ := execPam_stuck
  obtain ⟨length, states, run, rfl⟩ := reached.run
  have idle {move : Move} {t : State} (done : perform execPam (states length) move = some t)
      (quiet : (perform execPam (states length) move).isNone) : False := by
    rw [done] at quiet
    cases quiet
  have fair : Fair execPam (halted length states) := by
    refine ⟨fair_halted ?_, fun p _ => fair_halted ?_, fair_halted ?_, fun p => fair_halted ?_⟩
    · rintro ⟨t, ev, z, done⟩
      exact idle done (stuck.1 ev z)
    · rintro ⟨t, fails, move, own, done⟩
      exact idle done (stuck.2.1 p fails move own)
    · rintro ⟨t, fails, move, own, done⟩
      exact idle done (stuck.2.2.1 fails move own)
    · rintro ⟨t, done⟩
      exact idle done (stuck.2.2.2 p)
  have last : halted length states length = states length := congrArg states (Nat.min_self length)
  obtain ⟨m, later, completed⟩ :=
    job_completes execPam_sound execPam_ordered (.inl rfl) run.behaviour fair length (last ▸ execd)
  have same : halted length states m = states length := congrArg states (Nat.min_eq_right later)
  exact ⟨_, execd, stuck, same ▸ completed⟩

end Small

end LinuxTla.Executor
