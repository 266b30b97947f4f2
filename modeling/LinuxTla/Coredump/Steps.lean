import LinuxTla.Coredump.Signals

/-! The dumper, do_exit(), the io-wq side and execve() keep the invariant. -/

namespace LinuxTla.Coredump

open Lib

variable {T : Type} [DecidableEq T] [Fintype T] {cfg : Config T} {s s' : State T}

/-! ### The dumper -/

theorem Inv.dumper (inv : Inv cfg s) {t : T} (dumps : (s.thread t).pc.dumping = true) :
    s.dumper = some t ∧ dumperPc s = (s.thread t).pc := by
  have dumper : s.dumper = some t := (inv.threads t).dumping dumps
  refine ⟨dumper, ?_⟩
  unfold dumperPc
  rw [dumper]
  rfl

theorem Inv.dumperGoes (inv : Inv cfg s) {t : T} {next : PC} (dumps : (s.thread t).pc.dumping = true)
    (here : ThreadInv cfg s'.view t { s.thread t with pc := next }) (moves : (s.thread t).pc.Moves next)
    (others : ∀ u, u ≠ t → ThreadInv cfg s'.view u (s.thread u))
    (thread : s'.thread = (s.set t { s.thread t with pc := next }).thread) (group : s'.group = s.group)
    (dumper : s'.dumper = s.dumper) (counted : s'.counted = s.counted)
    (remaining : s'.core.active = true → s'.core = s.core) (active : s'.core.active = next.attached)
    (all : ∀ u ∈ s.counted, (s.thread u).decremented = true) : Inv cfg s' := by
  have self : s'.thread t = { s.thread t with pc := next } := by
    rw [thread]
    exact State.set_self ..
  have other (u : T) (different : u ≠ t) : s'.thread u = s.thread u := by
    rw [thread]
    exact State.set_other _ _ different
  have decremented (u : T) : (s'.thread u).decremented = (s.thread u).decremented := by
    obtain rfl | different := eq_or_ne u t
    · rw [self]
    · rw [other u different]
  have pc : dumperPc s' = next := by
    unfold dumperPc
    rw [dumper, (inv.dumper dumps).1]
    change (s'.thread t).pc = next
    rw [self]
  refine inv.of_moves (fun u => ?_) (fun u => ?_) dumper counted (fun exit => group ▸ exit) (by rw [group])
    ⟨?_, ?_, ?_⟩
  · obtain rfl | different := eq_or_ne u t
    · rw [self]
      exact here
    · rw [other u different]
      exact others u different
  · obtain rfl | different := eq_or_ne u t
    · rw [self]
      exact moves
    · rw [other u different]
      exact PC.Moves.refl _
  · intro stays
    have same := remaining stays
    have left : (s'.counted.filter fun u => (s'.thread u).decremented = false) =
        s.counted.filter fun u => (s.thread u).decremented = false := by
      rw [counted]
      refine Finset.filter_congr fun u _ => ?_
      rw [decremented]
    rw [left, same]
    exact inv.remaining (same ▸ stays)
  · intro _ u member
    rw [decremented]
    exact all u (counted ▸ member)
  · rw [pc, active]

/-- At a remainder of zero every counted thread has been through. -/
theorem Inv.all_through (inv : Inv cfg s) (active : s.core.active = true) (zero : s.core.remaining = 0) :
    ∀ u ∈ s.counted, (s.thread u).decremented = true := by
  intro u member
  have none := inv.remaining active
  rw [zero] at none
  have empty := Finset.card_eq_zero.1 (Int.ofNat_eq_zero.1 none.symm)
  by_contra left
  exact Finset.filter_eq_empty_iff.1 empty member (Bool.eq_false_iff.2 left)

theorem Inv.dumpWaitDone (inv : Inv cfg s) {t : T} (step : DumpWaitDone s t s') : Inv cfg s' := by
  obtain ⟨here, zero, rfl⟩ := step
  have dumps : (s.thread t).pc.dumping = true := by rw [here]; rfl
  have active : s.core.active = true := inv.active.2 (by rw [(inv.dumper dumps).2, here]; rfl)
  have moves : (s.thread t).pc.Moves .dumpWrite := by
    rw [here]
    exact ⟨rfl, rfl, rfl, nofun⟩
  have held := inv.threads t
  have user := user_of_dumping held.suits dumps
  refine inv.dumperGoes dumps ?_ moves (fun u _ => inv.threads u) rfl rfl rfl rfl (fun _ => rfl) active
    (inv.all_through active zero)
  refine held.glide moves.before moves.past ?_ nofun ?_ nofun ?_ (fun _ => dumps) nofun
  · rw [user]
    rfl
  · rw [here]
    exact nofun
  · rw [here]
    exact ⟨nofun, nofun⟩

theorem Inv.dumpFinish (inv : Inv cfg s) {t : T} (step : DumpFinish cfg s t s') : Inv cfg s' := by
  obtain ⟨here, rfl⟩ := step
  have dumps : (s.thread t).pc.dumping = true := by rw [here]; rfl
  obtain ⟨dumper, pc⟩ := inv.dumper dumps
  have moves : (s.thread t).pc.Moves .dumpRelease := by
    rw [here]
    exact ⟨rfl, rfl, rfl, nofun⟩
  have held := inv.threads t
  have user := user_of_dumping held.suits dumps
  refine inv.dumperGoes dumps ?_ moves (fun u _ => (inv.threads u).detach) rfl rfl rfl rfl nofun rfl ?_
  · refine (held.glide moves.before moves.past ?_ nofun ?_ nofun ?_ (fun _ => dumps) nofun).detach
    · rw [user]
      rfl
    · rw [here]
      exact nofun
    · rw [here]
      exact ⟨nofun, nofun⟩
  · refine inv.rendezvous ⟨by rw [dumper]; exact nofun, ?_⟩
    rw [pc, here]
    exact nofun

theorem Inv.dumpChunk (inv : Inv cfg s) {t : T} (step : DumpChunk cfg s t s') : Inv cfg s' := by
  obtain ⟨here, result⟩ := step
  have finish := inv.goto t .dumpFinish here rfl
  split at result
  · subst result
    exact finish.frame ..
  · obtain ⟨-, rfl⟩ | ⟨-, rfl⟩ | ⟨-, rfl⟩ := result
    · exact finish.frame ..
    · exact inv.frame ..
    · exact finish.frame ..

theorem Inv.releaseClear (inv : Inv cfg s) {t u : T} (step : ReleaseClear s t u s') : Inv cfg s' := by
  obtain ⟨-, -, -, rfl⟩ := step
  exact inv.stay u ..

theorem Inv.releaseWake (inv : Inv cfg s) {t u : T} (step : ReleaseWake s t u s') : Inv cfg s' := by
  obtain ⟨-, -, -, rfl⟩ := step
  exact inv.frame ..

/-- do_group_exit() from a label that has only the exit ahead. -/
theorem Inv.leaveGroup (inv : Inv cfg s) {t : T} {here : PC} (at_here : (s.thread t).pc = here)
    (passes : here.passes .exitSync = true) : Inv cfg (Coredump.doGroupExit s t) := by
  have moved := (inv.goto t .exitSync at_here passes).doGroupExit (t := t) (by rw [State.set_self])
  have same := doGroupExit_goto s t (s.thread t) .exitSync
  rw [State.set_thread] at same
  rw [← same]
  exact moved

theorem Inv.releaseDone (inv : Inv cfg s) {t : T} (step : ReleaseDone cfg s t s') : Inv cfg s' := by
  obtain ⟨here, -, result⟩ := step
  have user := user_of_dumping (inv.threads t).suits (by rw [here]; rfl)
  rw [user, if_neg (by decide)] at result
  subst result
  have unlocked : Inv cfg { s with rcuReader := false } := inv.frame ..
  exact unlocked.leaveGroup here rfl

/-! ### do_exit() -/

theorem Inv.exitSyscall (inv : Inv cfg s) {t : T} (step : ExitSyscall cfg s t s') : Inv cfg s' := by
  obtain ⟨-, user, rfl⟩ := step
  exact inv.goto t .exitSync user.1 rfl

theorem Inv.exitGroupSyscall (inv : Inv cfg s) {t : T} (step : ExitGroupSyscall cfg s t s') : Inv cfg s' := by
  obtain ⟨-, user, rfl⟩ := step
  exact inv.leaveGroup user.1 rfl

omit [Fintype T] in
/-- What coredump_task_exit() does, with and without core_state. -/
theorem SyncGroupExit.cases {t : T} (step : SyncGroupExit s t s') :
    (s.thread t).pc = .exitSync ∧ ∃ next done core',
      s' = { s.set t { s.thread t with
          flags := insert .postcoredump (s.thread t).flags, decremented := done, pc := next } with
        group := { s.group with
          quick := s.group.quick - 1, exit := s.group.exit || decide (s.group.quick - 1 = 0) }
        core := core' } ∧
      (next = .parked ∨ next = .exitCancel) ∧ core'.active = s.core.active ∧
      (s.core.active = true → done = true ∧ core'.remaining = s.core.remaining - 1) ∧
      (s.core.active = false → done = (s.thread t).decremented ∧ core' = s.core) ∧
      s.core.tasks ⊆ core'.tasks ∧ (next = .parked → s.core.active = true ∧ t ∈ core'.tasks) := by
  obtain ⟨here, result⟩ := step
  refine ⟨here, ?_⟩
  split at result
  next active =>
    have busy : s.core.active ≠ false := by rw [active]; exact nofun
    split at result
    · exact ⟨.parked, true, _, result, .inl rfl, rfl, fun _ => ⟨rfl, rfl⟩, fun idle => absurd idle busy,
        Finset.subset_insert .., fun _ => ⟨active, Finset.mem_insert_self ..⟩⟩
    · exact ⟨.exitCancel, true, _, result, .inr rfl, rfl, fun _ => ⟨rfl, rfl⟩, fun idle => absurd idle busy,
        Finset.Subset.refl _, nofun⟩
  next idle =>
    exact ⟨.exitCancel, _, s.core, result, .inr rfl, rfl, fun active => absurd active idle, fun _ => ⟨rfl, rfl⟩,
      Finset.Subset.refl _, nofun⟩

/-- Whether a thread at coredump_task_exit() is counted. -/
theorem Inv.counted_iff (inv : Inv cfg s) {t : T} (here : (s.thread t).pc = .exitSync) :
    t ∈ s.counted ↔ s.core.active = true := by
  have held := inv.threads t
  have before : (s.thread t).pc.before = true := by rw [here]; rfl
  constructor
  · -- A counted thread that has not been through keeps the dumper waiting.
    intro member
    have some : s.dumper ≠ none := by
      intro none
      have nobody := inv.started none
      rw [nobody] at member
      exact absurd member (Finset.notMem_empty t)
    by_contra idle
    have done := inv.rendezvous ⟨some, fun waits => idle (inv.active.2 (by rw [waits]; rfl))⟩ t member
    have past := (held.decremented.1 done).2
    rw [here] at past
    exact nomatch past
  · intro active
    obtain dumper | member := held.reach active before
    · have attached := inv.active.1 active
      have own : dumperPc s = (s.thread t).pc := by
        unfold dumperPc
        change s.dumper = some t at dumper
        rw [dumper]
        rfl
      rw [own, here] at attached
      exact nomatch attached
    · exact member

theorem quickThreads_leave {t : T} (before : (s.thread t).pc.before = true)
    (left : (s'.thread t).pc.before = false) (others : ∀ u, u ≠ t → (s'.thread u).pc = (s.thread u).pc) :
    quickThreads s = quickThreads s' + 1 := by
  have apart : (Finset.univ.filter fun u => (s'.thread u).pc.before = true) =
      (Finset.univ.filter fun u => (s.thread u).pc.before = true).erase t := by
    ext u
    simp only [Finset.mem_filter, Finset.mem_univ, true_and, Finset.mem_erase]
    obtain rfl | different := eq_or_ne u t
    · simp [left]
    · rw [others u different]
      exact (and_iff_right different).symm
  unfold quickThreads
  rw [apart, Finset.card_erase_of_mem (Finset.mem_filter.2 ⟨Finset.mem_univ t, before⟩)]
  have : 0 < (Finset.univ.filter fun u => (s.thread u).pc.before = true).card :=
    Finset.card_pos.2 ⟨t, Finset.mem_filter.2 ⟨Finset.mem_univ t, before⟩⟩
  omega

omit [Fintype T] in
theorem outstanding_leave {t : T} (member : t ∈ s.counted) (undone : (s.thread t).decremented = false)
    (done : (s'.thread t).decremented = true) (counted : s'.counted = s.counted)
    (others : ∀ u, u ≠ t → (s'.thread u).decremented = (s.thread u).decremented) :
    (s.counted.filter fun u => (s.thread u).decremented = false).card =
      (s'.counted.filter fun u => (s'.thread u).decremented = false).card + 1 := by
  have inside : t ∈ s.counted.filter fun u => (s.thread u).decremented = false :=
    Finset.mem_filter.2 ⟨member, undone⟩
  have apart : (s'.counted.filter fun u => (s'.thread u).decremented = false) =
      (s.counted.filter fun u => (s.thread u).decremented = false).erase t := by
    ext u
    rw [counted]
    simp only [Finset.mem_filter, Finset.mem_erase]
    obtain rfl | different := eq_or_ne u t
    · simp [done]
    · rw [others u different]
      exact (and_iff_right different).symm
  rw [apart, Finset.card_erase_of_mem inside]
  have := Finset.card_pos.2 ⟨t, inside⟩
  omega

theorem Inv.syncGroupExit (inv : Inv cfg s) {t : T} (step : SyncGroupExit s t s') : Inv cfg s' := by
  obtain ⟨here, next, done, core', result, passed, active, counts, idle, -, -⟩ := step.cases
  have held := inv.threads t
  have undone : (s.thread t).decremented = false := by
    refine Bool.eq_false_iff.2 fun done => ?_
    have past := (held.decremented.1 done).2
    rw [here] at past
    exact nomatch past
  have self : s'.thread t = { s.thread t with
      flags := insert .postcoredump (s.thread t).flags, decremented := done, pc := next } := by
    rw [result]
    exact State.set_self ..
  have other (u : T) (different : u ≠ t) : s'.thread u = s.thread u := by
    rw [result]
    exact State.set_other _ _ different
  have view : s'.view = { s.view with
      exit := s.group.exit || decide (s.group.quick - 1 = 0) } := by
    rw [result]
    unfold State.view
    simp only [active]
    rfl
  have counted : s'.counted = s.counted := congrArg View.counted view
  have dumper : s'.dumper = s.dumper := congrArg View.dumper view
  have before : (s.thread t).pc.before = true := by rw [here]; rfl
  have left : (s'.thread t).pc.before = false := by
    rw [self]
    obtain rfl | rfl := passed <;> rfl
  have leave := quickThreads_leave before left fun u different => by rw [other u different]
  have counts' : done = true ↔ t ∈ s.counted := by
    rw [inv.counted_iff here]
    refine ⟨fun done' => ?_, fun busy => (counts busy).1⟩
    by_contra quiet
    rw [(idle (Bool.eq_false_iff.2 quiet)).1] at done'
    exact Bool.false_ne_true (undone.symm.trans done')
  have live (u : T) : (s'.thread u).pc.live = (s.thread u).pc.live := by
    obtain rfl | different := eq_or_ne u t
    · rw [self, here]
      obtain rfl | rfl := passed <;> rfl
    · rw [other u different]
  have group : s'.group = { s.group with
      quick := s.group.quick - 1, exit := s.group.exit || decide (s.group.quick - 1 = 0) } := by
    rw [result]
  have core : s'.core = core' := by rw [result]
  refine ⟨fun u => ?_, ?_, ?_, ?_, ?_, ?_, ?_, ?_, ?_⟩
  · rw [view]
    obtain rfl | different := eq_or_ne u t
    · rw [self]
      exact held.sync here passed counts' _
    · rw [other u different]
      refine (inv.threads u).exits _ (fun dies => ?_) fun dies => ?_
      · change s.group.exit = true at dies
        rw [dies, Bool.true_or]
      · -- The last to pass leaves nobody behind that could be caught.
        obtain dies | last := Bool.or_eq_true_iff.1 dies
        · exact .inl dies
        · refine .inr (Bool.eq_false_iff.2 fun before' => ?_)
          have none := of_decide_eq_true last
          rw [inv.quick, leave] at none
          have empty : quickThreads s' = 0 := by omega
          have inside : u ∈ Finset.univ.filter fun u => (s'.thread u).pc.before = true := by
            refine Finset.mem_filter.2 ⟨Finset.mem_univ u, ?_⟩
            rw [other u different]
            exact before'
          rw [Finset.card_eq_zero.1 empty] at inside
          exact absurd inside (Finset.notMem_empty u)
  · rw [group]
    have := inv.quick
    simp only
    omega
  · intro busy
    rw [core] at busy ⊢
    rw [active] at busy
    have outstanding := outstanding_leave ((inv.counted_iff here).2 busy) undone
      (by rw [self]; exact (counts busy).1) counted fun u different => by rw [other u different]
    have known := inv.remaining busy
    rw [(counts busy).2, known, outstanding]
    omega
  · rintro ⟨some, past⟩ u member
    rw [dumper] at some
    rw [counted] at member
    obtain rfl | different := eq_or_ne u t
    · rw [self]
      exact counts'.2 member
    · rw [other u different]
      refine inv.rendezvous ⟨some, fun waits => past ?_⟩ u member
      unfold dumperPc at waits ⊢
      rw [dumper]
      cases found : s.dumper with
      | none => exact absurd found some
      | some d =>
        rw [found] at waits
        change (s.thread d).pc = .dumpWait at waits
        change (s'.thread d).pc = .dumpWait
        have apart : d ≠ t := by
          rintro rfl
          rw [here] at waits
          exact nomatch waits
        rw [other d apart]
        exact waits
  · have attached : (dumperPc s').attached = (dumperPc s).attached := by
      unfold dumperPc
      rw [dumper]
      cases s.dumper with
      | none => rfl
      | some d =>
        change (s'.thread d).pc.attached = (s.thread d).pc.attached
        obtain rfl | apart := eq_or_ne d t
        · rw [self, here]
          obtain rfl | rfl := passed <;> rfl
        · rw [other d apart]
    rw [core, active, attached]
    exact inv.active
  · rw [dumper, counted]
    exact inv.started
  · rw [dumper, group]
    intro some
    have dies := inv.dies some
    simp only
    rw [dies, Bool.true_or]
  · intro e
    rw [group, live cfg.leader]
    intro executing leader
    simp only
    rw [inv.notifyCount e executing leader]
    unfold siblings
    refine congrArg _ (congrArg Finset.card (Finset.filter_congr fun u _ => ?_))
    rw [live]
  · intro e posts u different
    rw [live]
    have apart : e ≠ t := by
      rintro rfl
      rw [self] at posts
      obtain rfl | rfl := passed <;> cases posts
    rw [other e apart] at posts
    exact inv.alone e posts u different

theorem Inv.unpark (inv : Inv cfg s) {t : T} (step : Unpark s t s') : Inv cfg s' := by
  obtain ⟨here, -, rfl⟩ := step
  exact inv.goto t _ here rfl

theorem Inv.exitCancel (inv : Inv cfg s) {t : T} (step : ExitCancel cfg s t s') : Inv cfg s' := by
  obtain ⟨here, result⟩ := step
  split at result
  · subst result
    exact inv.pass t .exitCancelTw here rfl ..
  · subst result
    exact inv.goto t _ here rfl

theorem Inv.cancelWait (inv : Inv cfg s) {t : T} {here next : PC} (step : CancelWait s t here next s')
    (passes : here.passes next = true) : Inv cfg s' := by
  obtain ⟨at_here, rfl⟩ := step
  exact inv.pass t next at_here passes ..

theorem Inv.waitDone (inv : Inv cfg s) {t : T} {here next : PC} (step : WaitDone cfg s t here next s')
    (passes : here.passes next = true) : Inv cfg s' := by
  obtain ⟨at_here, -, rfl⟩ := step
  exact inv.goto t next at_here passes

theorem ExitSignals.cases {t : T} (step : ExitSignals cfg s t s') :
    (s.thread t).pc = .exitSignals ∧ ∃ s₁,
      (s₁ = s ∨ ∃ u, u ≠ t ∧ s₁ = s.set u { s.thread u with sigpending := true }) ∧
        s' = s₁.set t { s₁.thread t with flags := insert .exiting (s.thread t).flags, pc := .exitNotify } := by
  obtain ⟨here, s₁, retarget, result⟩ := step
  refine ⟨here, s₁, ?_, result⟩
  split at retarget
  · exact .inl retarget
  next busy =>
    have others : (s.thread t).sigpending = true ∧ ¬ GroupEmpty s t := by
      simp only [not_or, Bool.not_eq_false] at busy
      exact ⟨busy.2.2, busy.1⟩
    have chosen : Retarget cfg s t (signals \ (s.thread t).blocked) s₁ := by
      unfold Retarget
      rw [if_pos others]
      exact retarget
    exact chosen.cases

theorem Inv.exitSignals (inv : Inv cfg s) {t : T} (step : ExitSignals cfg s t s') : Inv cfg s' := by
  obtain ⟨here, s₁, woken, rfl⟩ := step.cases
  have known : Inv cfg s₁ ∧ s₁.thread t = s.thread t := by
    obtain rfl | ⟨u, different, rfl⟩ := woken
    · exact ⟨inv, rfl⟩
    · exact ⟨inv.wake u, State.set_other _ _ different.symm⟩
  rw [← known.2] at here ⊢
  refine known.1.set t ((known.1.threads t).exitSignals here) ?_ rfl
  rw [here]
  exact ⟨⟨rfl, rfl, rfl, nofun⟩, rfl, nofun⟩

theorem Inv.freed (inv : Inv cfg s) {t : T} (step : Freed s t s') : Inv cfg s' := by
  obtain ⟨-, -, -, -, rfl⟩ := step
  exact inv.stay t ..

/-! ### Workers -/

theorem Inv.workerSeesExit (inv : Inv cfg s) {t : T} (step : WorkerSeesExit cfg s t s') : Inv cfg s' := by
  obtain ⟨ioWq, here, -, rfl⟩ := step
  refine inv.set t ((inv.threads t).seesExit here ioWq) ?_ rfl
  rw [here]
  exact ⟨⟨rfl, rfl, rfl, nofun⟩, rfl, nofun⟩

theorem Inv.notified (inv : Inv cfg s) (o : T) (twq : Finset (Work T)) :
    Inv cfg (notified s o { s.thread o with twq := twq }) := by
  have told := inv.stay o true (s.thread o).released (s.thread o).freed (s.thread o).wqexit
    (s.thread o).refput twq (s.thread o).owner
  exact told.frame ..

theorem Inv.workerQueuesCreate (inv : Inv cfg s) {t : T} (step : WorkerQueuesCreate cfg s t s') :
    Inv cfg s' := by
  obtain ⟨-, -, o, -, -, -, rfl⟩ := step
  exact inv.notified o _

theorem Inv.workerExit (inv : Inv cfg s) {t : T} (step : WorkerExit s t s') : Inv cfg s' := by
  obtain ⟨here, rfl⟩ := step
  have pass {known : State T} (inv : Inv cfg known) (here : (known.thread t).pc = .wqExit) :
      Inv cfg (known.set t { known.thread t with refput := true, pc := .exitSync }) :=
    inv.pass t .exitSync here rfl ..
  cases (s.thread t).owner with
  | none => exact pass inv here
  | some o =>
    have cancelled : Inv cfg (s.set o { s.thread o with twq := (s.thread o).twq.erase (.worker t) }) :=
      inv.stay o ..
    refine pass cancelled ?_
    rw [Option.elim_some]
    obtain rfl | different := eq_or_ne t o
    · rw [State.set_self]
      exact here
    · rw [State.set_other _ _ different]
      exact here

theorem Inv.sqCancel (inv : Inv cfg s) {t : T} (step : SqCancel s t s') : Inv cfg s' := by
  obtain ⟨here, rfl⟩ := step
  exact inv.pass t .sqCancelTw here rfl ..

theorem Inv.retryFires (inv : Inv cfg s) {t : T} (step : RetryFires s t s') : Inv cfg s' := by
  obtain ⟨-, result⟩ := step
  split at result
  · subst result
    exact inv.stay t ..
  · subst result
    exact inv.notified t _

end LinuxTla.Coredump
