import LinuxTla.Coredump.Invariant

/-! The signal code keeps the invariant: generation, get_signal() and the start of
a dump or a group exit, the masks and the freezers. -/

namespace LinuxTla.Coredump

open Lib

variable {T : Type} [DecidableEq T] [Fintype T] {cfg : Config T} {s s' : State T}

/-- A move that asks nothing new of the thread, whatever happens on its io-wq
side. -/
theorem Inv.pass (inv : Inv cfg s) (t : T) {here : PC} (next : PC) (at_here : (s.thread t).pc = here)
    (passes : here.passes next = true) (notify released freed wqexit refput : Bool)
    (twq : Finset (Work T)) (owner : Option T) :
    Inv cfg (s.set t { s.thread t with pc := next, notify, released, freed, wqexit, refput, twq, owner }) := by
  refine inv.set t (((inv.threads t).goto next at_here passes).wq notify released freed wqexit refput twq owner) ?_ rfl
  rw [at_here]
  exact (PC.Passes.of passes).glides

theorem Inv.goto (inv : Inv cfg s) (t : T) {here : PC} (next : PC) (at_here : (s.thread t).pc = here)
    (passes : here.passes next = true) : Inv cfg (s.set t { s.thread t with pc := next }) :=
  inv.pass t next at_here passes _ _ _ _ _ _ _

/-- The thread stays where it is; only its io-wq side changes. -/
theorem Inv.stay (inv : Inv cfg s) (t : T) (notify released freed wqexit refput : Bool)
    (twq : Finset (Work T)) (owner : Option T) :
    Inv cfg (s.set t { s.thread t with notify, released, freed, wqexit, refput, twq, owner }) :=
  inv.set t ((inv.threads t).wq notify released freed wqexit refput twq owner) (PC.Glides.refl _) rfl

theorem Inv.wake (inv : Inv cfg s) (t : T) :
    Inv cfg (s.set t { s.thread t with sigpending := true }) :=
  inv.set t (inv.threads t).wake (PC.Glides.refl _) rfl

/-! ### Everybody is told to die -/

/-- The group dies, and every thread that still has get_signal() ahead is woken
for SIGKILL. -/
theorem Inv.massacre (inv : Inv cfg s)
    (threads : ∀ u, ∃ pend woken, s'.thread u = { s.thread u with pending := pend, sigpending := woken } ∧
      ((s.thread u).pc.catchable = true → woken = true ∧ Sig.kill ∈ pend))
    (group : s'.group = { s.group with exit := true }) (dumper : s'.dumper = s.dumper)
    (counted : s'.counted = s.counted) (core : s'.core = s.core) : Inv cfg s' := by
  have view : s'.view = { s.view with exit := true } := by
    unfold State.view
    rw [group, dumper, counted, core]
  refine inv.of_threads (fun u => ?_) (fun u => ?_) (fun u => ?_) dumper counted core (fun _ => by rw [group])
    (by rw [group])
  · obtain ⟨pend, woken, thread, caught⟩ := threads u
    have held := inv.threads u
    rw [thread, view]
    exact { held with
      doomed := fun _ catchable => caught catchable
      clean := fun _ _ => .inl rfl }
  · obtain ⟨pend, woken, thread, -⟩ := threads u
    rw [thread]
    exact PC.Glides.refl _
  · obtain ⟨pend, woken, thread, -⟩ := threads u
    rw [thread]

omit [Fintype T] [DecidableEq T] in
theorem zap_cases (s : State T) (chosen : T → Prop) [DecidablePred chosen] (u : T) :
    ∃ pend woken, (s.zap chosen).thread u = { s.thread u with pending := pend, sigpending := woken } ∧
      (chosen u → woken = true ∧ Sig.kill ∈ pend) := by
  unfold State.zap
  obtain picked | left := Decidable.em (chosen u)
  · exact ⟨_, _, if_pos picked, fun _ => ⟨rfl, Finset.mem_insert_self ..⟩⟩
  · exact ⟨_, _, if_neg left, fun picked => absurd picked left⟩

/-! ### Signal generation -/

theorem Inv.completeSignal (inv : Inv cfg s) (t : T) {sig : Sig} {pend : Finset Sig}
    (queued : pend = (s.thread t).pending ∨ pend = insert sig (s.thread t).pending) :
    Inv cfg (completeSignal (s.set t { s.thread t with pending := pend }) t sig) := by
  unfold Coredump.completeSignal
  rw [State.set_self]
  split
  next dies =>
    refine inv.massacre (fun u => ?_) rfl rfl rfl rfl
    obtain ⟨pend', woken, thread, caught⟩ := zap_cases (s.set t { s.thread t with pending := pend })
      (fun u => ((s.set t { s.thread t with pending := pend }).thread u).pc.live = true) u
    obtain rfl | different := eq_or_ne u t
    · rw [State.set_self] at thread caught
      exact ⟨pend', woken, thread, fun catchable => caught (live_of_before (before_of_catchable catchable))⟩
    · rw [State.set_other _ _ different] at thread caught
      exact ⟨pend', woken, thread, fun catchable => caught (live_of_before (before_of_catchable catchable))⟩
  next lives =>
    have held := inv.threads t
    rw [State.set_set]
    refine inv.set t ?_ (PC.Glides.refl _) rfl
    have harmless : sig ≠ .kill := by
      rintro rfl
      exact lives ⟨.inl rfl, held.mask.2⟩
    obtain rfl | rfl := queued
    · exact held.wake
    · exact (held.queue fun kill => absurd kill harmless).wake

theorem Inv.sendGroup (inv : Inv cfg s) {sig : Sig} (step : SendGroup s sig s') : Inv cfg s' := by
  obtain ⟨-, -, sent⟩ := step
  split at sent
  · subst sent
    exact inv.frame ..
  have queued : Inv cfg { spend s sig with shared := insert sig s.shared } := inv.frame ..
  split at sent
  · obtain ⟨t, -, rfl⟩ := sent
    generalize ({ spend s sig with shared := insert sig s.shared } : State T) = known at queued
    have complete : Inv cfg (Coredump.completeSignal (known.set t (known.thread t)) t sig) :=
      queued.completeSignal t (.inl rfl)
    rw [State.set_thread] at complete
    exact complete
  · subst sent
    exact queued

theorem Inv.sendThread (inv : Inv cfg s) {t : T} {sig : Sig} (step : SendThread s t sig s') : Inv cfg s' := by
  obtain ⟨-, alive, sent⟩ := step
  have spent : Inv cfg (spend s sig) := inv.frame ..
  split at sent
  · subst sent
    exact spent
  simp only at sent
  split at sent
  · subst sent
    exact spent.completeSignal t (.inr rfl)
  next refuses =>
    subst sent
    refine spent.set t ((spent.threads t).queue ?_) (PC.Glides.refl _) rfl
    rintro rfl
    -- SIGKILL is never blocked, so only a thread past exit_signals() does not want it.
    have exiting : Flag.exiting ∈ (s.thread t).flags := by
      by_contra stays
      exact refuses ⟨alive, (inv.threads t).mask.1, stays⟩
    have gone := (inv.threads t).exiting exiting
    change (s.thread t).pc.before = false
    cases pc : (s.thread t).pc <;> rw [pc] at gone <;> first | rfl | cases gone

/-! ### A thread that is told to die -/

theorem Inv.doGroupExit (inv : Inv cfg s) {t : T} (here : (s.thread t).pc = .exitSync) :
    Inv cfg (doGroupExit s t) := by
  have back : { s.thread t with pc := .exitSync } = s.thread t := by rw [← here]
  unfold Coredump.doGroupExit
  split
  · rw [back, State.set_thread]
    exact inv
  · refine inv.massacre (fun u => ?_) rfl rfl rfl rfl
    obtain rfl | different := eq_or_ne u t
    · refine ⟨_, _, (State.set_self ..).trans back, ?_⟩
      rw [here]
      exact nofun
    · obtain ⟨pend, woken, thread, caught⟩ := zap_cases s
        (fun u => u ≠ t ∧ (s.thread u).pc.alive = true) u
      refine ⟨pend, woken, (State.set_other _ _ different).trans thread, fun catchable => caught ⟨different, ?_⟩⟩
      exact alive_of_before (before_of_catchable catchable)

theorem Inv.dumper_none (inv : Inv cfg s) (alive : s.group.exit = false) : s.dumper = none := by
  by_contra some
  exact Bool.false_ne_true (alive.symm.trans (inv.dies some))

/-- While the group lives there is no core_state. -/
theorem Inv.idle (inv : Inv cfg s) (alive : s.group.exit = false) : s.core.active = false := by
  refine Bool.eq_false_iff.2 fun active => ?_
  have attached := inv.active.1 active
  unfold dumperPc at attached
  rw [inv.dumper_none alive] at attached
  exact nomatch attached

/-- zap_process() counts a thread exactly when it has not passed
coredump_task_exit(). -/
theorem mem_zapped (inv : Inv cfg s) (t u : T) :
    u ∈ zapped s t ↔ u ≠ t ∧ (s.thread u).pc.before = true := by
  unfold zapped PC.before
  rw [Finset.mem_filter, (inv.threads u).post]
  simp

theorem Inv.startDump (inv : Inv cfg s) {t : T} (here : (s.thread t).pc = .exitSync)
    (user : cfg.role t = .user) (lives : s.group.exit = false) (single : s.group.exec = none) :
    Inv cfg (startDump s t) := by
  have fresh := inv.dumper_none lives
  have nobody := inv.started fresh
  have counts := mem_zapped inv t
  have own := inv.threads t
  have dumps : ((Coredump.startDump s t).thread t).pc =
      if 0 < (zapped s t).card then .dumpWait else .dumpWrite := by
    unfold Coredump.startDump
    simp only [State.set_self]
  have others (u : T) (different : u ≠ t) :
      ∃ pend woken, (Coredump.startDump s t).thread u = { s.thread u with pending := pend, sigpending := woken } ∧
        (u ∈ zapped s t → woken = true ∧ Sig.kill ∈ pend) := by
    obtain ⟨pend, woken, thread, caught⟩ := zap_cases s (fun u => u ∈ zapped s t) u
    exact ⟨pend, woken, (State.set_other _ _ different).trans thread, caught⟩
  have undone (u : T) : ((Coredump.startDump s t).thread u).decremented = false := by
    have before : (s.thread u).decremented = false := by
      refine Bool.eq_false_iff.2 fun done => ?_
      have member := ((inv.threads u).decremented.1 done).1
      change u ∈ s.counted at member
      rw [nobody] at member
      exact absurd member (Finset.notMem_empty u)
    obtain rfl | different := eq_or_ne u t
    · exact (congrArg Thread.decremented (State.set_self ..)).trans before
    · obtain ⟨pend, woken, thread, -⟩ := others u different
      rw [thread]
      exact before
  have before (u : T) : ((Coredump.startDump s t).thread u).pc.before = (s.thread u).pc.before := by
    obtain rfl | different := eq_or_ne u t
    · rw [dumps, here]
      split <;> rfl
    · obtain ⟨pend, woken, thread, -⟩ := others u different
      rw [thread]
  have pc : dumperPc (Coredump.startDump s t) = if 0 < (zapped s t).card then .dumpWait else .dumpWrite := dumps
  have absent : t ∉ zapped s t := fun member => ((counts t).1 member).1 rfl
  refine ⟨fun u => ?_, ?_, ?_, ?_, ?_, nofun, fun _ => rfl, ?_, ?_⟩
  · obtain rfl | different := eq_or_ne u t
    · have thread := State.set_self (s.zap fun w => w ∈ zapped s u) u
        { s.thread u with
          sigpending := false
          flags := (s.thread u).flags ∪ {.signaled, .dumpcore}
          pc := if 0 < (zapped s u).card then .dumpWait else .dumpWrite }
      change (Coredump.startDump s u).thread u = _ at thread
      rw [thread]
      have own := undone u
      rw [thread] at own
      refine (inv.threads u).dumps here user single absent own ?_
      split
      · exact .inl rfl
      · exact .inr rfl
    · obtain ⟨pend, woken, thread, caught⟩ := others u different
      have own := undone u
      rw [thread] at own ⊢
      exact (inv.threads u).zapped fresh different ((counts u).trans (and_iff_right different)) own caught
  · change s.group.quick = _
    rw [inv.quick]
    unfold quickThreads
    refine congrArg _ (congrArg Finset.card (Finset.filter_congr fun u _ => ?_))
    rw [before]
  · intro _
    change ((zapped s t).card : ℤ) = ((zapped s t).filter fun u =>
      ((Coredump.startDump s t).thread u).decremented = false).card
    rw [Finset.filter_true_of_mem fun u _ => undone u]
  · rintro ⟨-, past⟩ u member
    change u ∈ zapped s t at member
    rw [pc, if_pos (Finset.card_pos.2 ⟨u, member⟩)] at past
    exact absurd rfl past
  · rw [pc]
    refine ⟨fun _ => ?_, fun _ => rfl⟩
    split <;> rfl
  · intro e executing
    exact absurd (single.symm.trans executing) nofun
  · intro e posts
    have different : e ≠ t := by
      rintro rfl
      rw [dumps] at posts
      split at posts <;> cases posts
    obtain ⟨pend, woken, thread, -⟩ := others e different
    rw [thread] at posts
    have gone := inv.alone e posts t different.symm
    rw [here] at gone
    exact nomatch gone

/-! The label a thread has when it is told to die does not matter: all that follows
sets it. So the proofs take `exitSync`, which asks nothing of the thread. -/

omit [Fintype T] in
theorem zap_set_set (s : State T) {t : T} (a b : Thread T) (chosen chosen' : T → Prop)
    [DecidablePred chosen] [DecidablePred chosen'] (same : ∀ u, u ≠ t → (chosen u ↔ chosen' u)) :
    ((s.set t a).zap chosen).set t b = (s.zap chosen').set t b := by
  unfold State.zap State.set
  congr 1
  funext u
  obtain rfl | different := eq_or_ne u t
  · rw [Function.update_self, Function.update_self]
  · rw [Function.update_of_ne different, Function.update_of_ne different]
    simp only [Function.update_of_ne different]
    exact if_congr (same u different) rfl rfl

omit [Fintype T] in
theorem workerLeave_goto (cfg : Config T) (s : State T) (t : T) (th : Thread T) (pc : PC) :
    workerLeave cfg (s.set t { th with pc := pc }) t = workerLeave cfg (s.set t th) t := by
  unfold workerLeave
  simp only [State.set_set, State.set_self]

omit [Fintype T] in
theorem doGroupExit_goto (s : State T) (t : T) (th : Thread T) (pc : PC) :
    doGroupExit (s.set t { th with pc := pc }) t = doGroupExit (s.set t th) t := by
  have alive (x : Thread T) (u : T) (different : u ≠ t) :
      (u ≠ t ∧ ((s.set t x).thread u).pc.alive = true) ↔ (u ≠ t ∧ (s.thread u).pc.alive = true) := by
    rw [State.set_other _ _ different]
  unfold Coredump.doGroupExit
  simp only [State.set_set, State.set_self]
  rw [zap_set_set s _ _ _ _ (alive _), zap_set_set s _ _ _ _ (alive _)]
  rfl

theorem zapped_set (s : State T) (t : T) (th : Thread T) : zapped (s.set t th) t = zapped s t := by
  unfold zapped
  refine Finset.filter_congr fun u _ => and_congr_right fun different => ?_
  rw [State.set_other _ _ different]

theorem startDump_goto (s : State T) (t : T) (th : Thread T) (pc : PC) :
    startDump (s.set t { th with pc := pc }) t = startDump (s.set t th) t := by
  unfold Coredump.startDump
  simp only [State.set_self, zapped_set]
  rw [zap_set_set s _ _ _ _ fun _ _ => Iff.rfl, zap_set_set s _ _ _ _ fun _ _ => Iff.rfl]
  rfl

theorem fatal_goto (cfg : Config T) (s : State T) (t : T) (th : Thread T) (pc : PC) (sig : Sig) :
    fatal cfg (s.set t { th with pc := pc }) t sig = fatal cfg (s.set t th) t sig := by
  have leave := workerLeave_goto cfg s t { th with flags := insert .signaled th.flags } pc
  have exit := doGroupExit_goto s t { th with flags := insert .signaled th.flags } pc
  have dump := startDump_goto s t th pc
  unfold fatal vfsCoredump
  simp only [State.set_set, State.set_self]
  simp only [leave, exit, dump]
  rfl

theorem Inv.signal (inv : Inv cfg s) (t : T) :
    Inv cfg (s.set t { s.thread t with flags := insert .signaled (s.thread t).flags }) :=
  inv.set t (inv.threads t).signal (PC.Glides.refl _) rfl

theorem Inv.workerLeave (inv : Inv cfg s) {t : T} (here : (s.thread t).pc = .exitSync)
    (worker : (cfg.role t).worker = true) (signaled : Flag.signaled ∈ (s.thread t).flags) :
    Inv cfg (Coredump.workerLeave cfg s t) := by
  refine inv.set t ((inv.threads t).leave here worker signaled) ?_ rfl
  rw [here]
  simp only
  split <;> exact ⟨⟨rfl, rfl, rfl, nofun⟩, rfl, nofun⟩

theorem Inv.fatal (fixed : cfg.Fixed) (inv : Inv cfg s) {t : T} (here : (s.thread t).pc = .exitSync)
    (sig : Sig) : Inv cfg (Coredump.fatal cfg s t sig) := by
  have signaled := inv.signal t
  have still : ((s.set t { s.thread t with flags := insert .signaled (s.thread t).flags }).thread t).pc =
      .exitSync := by
    rw [State.set_self]
    exact here
  unfold Coredump.fatal
  simp only
  split
  next worker =>
    refine signaled.workerLeave still worker.1 ?_
    rw [State.set_self]
    exact Finset.mem_insert_self ..
  next notWorker =>
    have plain : ¬ (cfg.role t).worker = true := fun worker => notWorker ⟨worker, fixed.workerNodump⟩
    have user : cfg.role t = .user := by
      cases role : cfg.role t with
      | user => rfl
      | sqpoll | iowq | slot => exact absurd (by rw [role]; rfl) plain
    rw [if_neg plain]
    have leaves := signaled.doGroupExit still
    split
    · unfold vfsCoredump
      split
      next quiet => exact inv.startDump here user quiet.1 quiet.2
      next =>
        simp only
        exact leaves
    · exact leaves

/-! ### get_signal() -/

theorem Inv.dequeueFatal (fixed : cfg.Fixed) (inv : Inv cfg s) {t : T} (here : (s.thread t).pc = .run)
    {pend : Finset Sig} (fewer : pend ⊆ (s.thread t).pending) (woken : Bool) (sig : Sig) :
    Inv cfg (Coredump.fatal cfg (s.set t { s.thread t with pending := pend, sigpending := woken }) t sig) := by
  have moved := inv.set t ((inv.threads t).lastDequeue here fewer woken)
    (by rw [here]; exact ⟨⟨rfl, rfl, rfl, nofun⟩, rfl, nofun⟩) rfl
  have same := fatal_goto cfg s t { s.thread t with pending := pend, sigpending := woken } .exitSync sig
  rw [← same]
  refine moved.fatal fixed ?_ sig
  rw [State.set_self]

/-- In get_signal() of a running thread, being marked is a group exit or an
exec. -/
theorem marked_iff (inv : Inv cfg s) {t : T} (here : (s.thread t).pc = .run) :
    Marked s.view t ↔ s.group.exit = true ∨ s.group.exec ≠ none := by
  refine or_congr_right ⟨fun other => ?_, fun some => ?_⟩
  · obtain ⟨e, executing, -⟩ := other
    exact fun none => nomatch executing.symm.trans none
  · obtain ⟨e, executing⟩ := Option.ne_none_iff_exists'.1 some
    refine ⟨e, executing, ?_⟩
    rintro rfl
    have waits := (inv.threads e).exec.2 executing
    rw [here] at waits
    exact nomatch waits

theorem Inv.getSignal (fixed : cfg.Fixed) (inv : Inv cfg s) {t : T} (step : GetSignal cfg s t s') :
    Inv cfg s' := by
  obtain ⟨here, -, -, -, result⟩ := step
  have shared (sh : Finset Sig) : Inv cfg { s with shared := sh } := inv.frame ..
  split at result
  · subst result
    exact inv.dequeueFatal fixed here (Finset.erase_subset ..) _ _
  next quiet =>
    have unmarked : ¬ Marked s.view t := fun marked => quiet ((marked_iff inv here).1 marked)
    have stays {known : State T} (inv : Inv cfg known) (view : known.view = s.view)
        {pend : Finset Sig} (fewer : pend ⊆ (known.thread t).pending) (woken : Bool) :
        Inv cfg (known.set t { known.thread t with pending := pend, sigpending := woken }) :=
      inv.set t ((inv.threads t).dequeue (view ▸ unmarked) fewer woken) (PC.Glides.refl _) rfl
    split at result
    · obtain ⟨sig, -, rfl⟩ := result
      unfold deliver
      split
      · exact stays inv rfl (Finset.erase_subset ..) _
      · exact inv.dequeueFatal fixed here (Finset.erase_subset ..) _ _
    split at result
    · obtain ⟨sig, -, rfl⟩ := result
      unfold deliver
      split
      · exact stays (shared (s.shared.erase sig)) rfl (Finset.Subset.refl _) _
      · exact (shared (s.shared.erase sig)).dequeueFatal fixed here (Finset.Subset.refl _) _ _
    · subst result
      exact stays inv rfl (Finset.Subset.refl _) _

theorem Inv.handleNotify (inv : Inv cfg s) {t : T} (step : HandleNotify s t s') : Inv cfg s' := by
  obtain ⟨-, -, rfl⟩ := step
  exact inv.stay t ..

/-! ### Masks and freezers -/

theorem Retarget.cases {t : T} {which : Finset Sig} (step : Retarget cfg s t which s') :
    s' = s ∨ ∃ u, u ≠ t ∧ s' = s.set u { s.thread u with sigpending := true } := by
  unfold Retarget RetargetWake at step
  split at step
  · simp only at step
    split at step
    · exact .inl step
    · obtain ⟨u, candidate, rfl⟩ := step
      exact .inr ⟨u, (Finset.mem_filter.1 candidate).2.1, rfl⟩
  · exact .inl step

theorem Inv.retarget (inv : Inv cfg s) {t : T} {which : Finset Sig} (step : Retarget cfg s t which s') :
    Inv cfg s' ∧ s'.thread t = s.thread t ∧ s'.view = s.view := by
  obtain rfl | ⟨u, different, rfl⟩ := step.cases
  · exact ⟨inv, rfl, rfl⟩
  · exact ⟨inv.wake u, State.set_other _ _ different.symm, rfl⟩

/-- A thread in user mode has nothing pending, so nobody has marked it. -/
theorem Inv.unmarked (inv : Inv cfg s) {t : T} (user : InUserMode s t) : ¬ Marked s.view t := by
  intro marked
  have woken := ((inv.threads t).doomed marked (by rw [user.1]; rfl)).1
  exact Bool.false_ne_true (user.2.1.symm.trans woken)

theorem Inv.blockUsr (inv : Inv cfg s) {t : T} (step : BlockUsr cfg s t s') : Inv cfg s' := by
  obtain ⟨-, user, -, s₁, retarget, rfl⟩ := step
  obtain ⟨known, thread, view⟩ := inv.retarget retarget
  have held := known.threads t
  rw [← thread]
  refine known.set t (held.remask ?_ ⟨?_, held.mask.2⟩ _) (PC.Glides.refl _) rfl
  · rw [view]
    exact inv.unmarked user
  · rw [Finset.mem_insert, not_or]
    exact ⟨nofun, held.mask.1⟩

theorem Inv.unblockUsr (inv : Inv cfg s) {t : T} (step : UnblockUsr cfg s t s') : Inv cfg s' := by
  obtain ⟨-, user, -, rfl⟩ := step
  have held := inv.threads t
  refine inv.set t (held.remask (inv.unmarked user) ⟨?_, held.mask.2⟩ _) (PC.Glides.refl _) rfl
  exact fun kill => held.mask.1 (Finset.mem_of_mem_erase kill)

theorem Inv.sigWaitEnter (inv : Inv cfg s) {t : T} (step : SigWaitEnter cfg s t s') : Inv cfg s' := by
  obtain ⟨user, mode, -, -, -, rfl⟩ := step
  have held := inv.threads t
  have mask : Sig.kill ∉ (s.thread t).blocked.erase .usr :=
    fun kill => held.mask.1 (Finset.mem_of_mem_erase kill)
  have masked := held.remask (inv.unmarked mode) ⟨mask, held.mask.1⟩
    (recalc s (s.thread t).pending s.shared ((s.thread t).blocked.erase .usr))
  have glides : (s.thread t).pc.Glides .sigwait := by
    rw [mode.1]
    exact ⟨⟨rfl, rfl, rfl, nofun⟩, rfl, nofun⟩
  refine inv.set t (masked.glide glides.before glides.past (by rw [user]; rfl) nofun ?_ ?_ ?_ nofun nofun) glides rfl
  · simp only [mode.1]
    exact nofun
  · simp only [mode.1]
    exact fun _ => rfl
  · simp only [mode.1]
    exact ⟨nofun, nofun⟩

theorem Inv.sigWaitWake (inv : Inv cfg s) {t : T} (step : SigWaitWake cfg s t s') : Inv cfg s' := by
  obtain ⟨here, s₁, retarget, rfl⟩ := step
  obtain ⟨known, thread, view⟩ := inv.retarget retarget
  have held := known.threads t
  rw [← thread] at here ⊢
  have awake : ThreadInv cfg s₁.view t { s₁.thread t with
      blocked := (s₁.thread t).realblocked
      realblocked := ∅
      pending := (s₁.thread t).pending.erase .usr
      pc := .run } :=
    { held.goto .run here rfl with
      mask := ⟨held.mask.2, Finset.notMem_empty _⟩
      doomed := fun marked _ => by
        obtain ⟨woken, kill⟩ := held.doomed marked (by rw [here]; rfl)
        exact ⟨woken, Finset.mem_erase.2 ⟨nofun, kill⟩⟩
      clean := fun _ kill => held.clean (by rw [here]; rfl) (Finset.mem_of_mem_erase kill) }
  have moved := known.set t awake (by rw [here]; exact ⟨⟨rfl, rfl, rfl, nofun⟩, rfl, nofun⟩) rfl
  exact moved.frame ..

omit [Fintype T] in
theorem not_tracerClearMask (fixed : cfg.Fixed) {t : T} (step : TracerClearMask cfg s t s') : False := by
  obtain ⟨-, -, unfixed, -⟩ := step
  exact absurd (fixed.ptraceMask.symm.trans unfixed) nofun

theorem Inv.freeze (inv : Inv cfg s) {kind : Freezer} (step : Freeze s kind s') : Inv cfg s' := by
  obtain ⟨-, -, -, rfl⟩ := step
  have woken (u : T) :
      (if (s.thread u).pc.alive = true then { s.thread u with sigpending := true } else s.thread u) = s.thread u ∨
        (if (s.thread u).pc.alive = true then { s.thread u with sigpending := true } else s.thread u) =
          { s.thread u with sigpending := true } := by
    split
    · exact .inr rfl
    · exact .inl rfl
  refine inv.of_threads (fun u => ?_) (fun u => ?_) (fun u => ?_) rfl rfl rfl id rfl
  · simp only
    obtain same | same := woken u
    · rw [same]
      exact inv.threads u
    · rw [same]
      exact (inv.threads u).wake
  · simp only
    split <;> exact PC.Glides.refl _
  · simp only
    split <;> rfl

end LinuxTla.Coredump
