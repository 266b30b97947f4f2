import LinuxTla.MntPut.Doom

/-! From the last put to the free: `MNT_DOOMED`, cleanup_mnt() and the grace
period of the free; and what a successful synchronous umount leaves behind. -/

namespace LinuxTla.MntPut

variable {T : Type} {cfg : Config T} {s after : State T} {t u : T}

/-- The labels at which a walker is inside its RCU read section. -/
def Label.reading : Label → Bool
  | .wLookup | .wL1 | .wL2 | .wMb | .wL4 | .wLock | .wFlags | .wUse => true
  | _ => false

structure Ending (cfg : Config T) (s : State T) : Prop where
  doomed : s.vis.m.doomed = true → s.nsref = false ∧ Cut cfg s fun _ => True
  reading : ∀ t ∈ cfg.walkers, (s.pc t).reading = true → s.rcu t = true
  cleaning : ∀ t ∈ cfg.taskList, s.pc t = .pCleanup →
    s.vis.m.doomed = true ∧ s.cleaner = none ∧ ∀ u ∈ cfg.taskList, s.pc u = .pCleanup → u = t
  cleaned : s.cleaner ≠ none → s.vis.m.doomed = true ∧ ∀ t ∈ cfg.taskList, s.pc t ≠ .pCleanup
  waiting : s.gpfree.on = true → s.cleaner ≠ none ∧ ∀ t ∈ cfg.taskList, (s.pc t).touching = true → t ∈ s.gpfree.wait
  freed : s.vis.m.freed = true → s.cleaner ≠ none ∧ ∀ t ∈ cfg.taskList, (s.pc t).touching = false

theorem Control.past_unlock (control : Control cfg s) (gone : s.nsref = false) :
    s.pc cfg.umounter ≠ .uUnlock ∧ s.uresult = .ok := by
  have own := control.umounter
  cases pc : s.pc cfg.umounter <;> simp_all [UmounterAt] <;> tauto

/-- Once nobody can get a reference, only the task that cleans up and walkers in
their read section still touch the mount. -/
theorem Cut.touching (cut : Cut cfg s fun _ => True) (wf : cfg.WellFormed) (control : Control cfg s)
    (member : t ∈ cfg.taskList) (touch : (s.pc t).touching = true) (notCleanup : s.pc t ≠ .pCleanup) :
    t ∈ cfg.walkers ∧ (s.pc t).reading = true := by
  have held := cut.held t member trivial
  have idle := cut.idle t member trivial
  have noPut : (s.pc t).preDrop = false := by
    by_contra put
    exact held (control.settled_of_preDrop wf member (by simpa using put))
  rcases (wf.tasks t).mp member with rfl | walker | holder
  · have own := control.umounter
    have notW := wf.umounter_walker
    cases pc : s.pc cfg.umounter <;> simp_all [UmounterAt, Label.preDrop, Label.touching, Settled]
  · have own := control.walker t walker
    cases pc : s.pc t <;> simp_all [WalkerAt, Label.preDrop, Label.touching, Label.reading]
  · have own := control.holder t holder
    cases pc : s.pc t <;> simp_all [HolderAt, Label.preDrop, Label.touching]

variable [DecidableEq T]

theorem Cut.touching_step (cut : Cut cfg s fun _ => True) (wf : cfg.WellFormed) (fixed : cfg.Fixed)
    (control : Control cfg s) (member : t ∈ cfg.taskList) (doomed : s.vis.m.doomed = true) (gone : s.nsref = false)
    (step : Step cfg s t after) (notCleanup : s.pc t ≠ .pCleanup) (touch : (after.pc u).touching = true) :
    (s.pc u).touching = true ∧ (u ∈ s.gpfree.wait → u ∈ after.gpfree.wait) := by
  by_cases same : u = t
  · subst same
    have free : ∀ h ∈ cfg.taskList, ¬ Settled cfg s h := fun h listed => cut.held h listed trivial
    have back : (s.pc u).preDrop = true ∨ (s.pc u).postDrop = true → (s.ret u).touching = false := by
      intro putting
      have := control.ret_cases wf member putting
      simp only [List.mem_cons, List.not_mem_nil, or_false] at this
      rcases this with back | back | back | back <;> simp [back, Label.touching]
    have unhashed : s.vis.m.hashed = false := cut.unhashed.resolve_right (control.past_unlock gone).1
    cases step
    case putFast label _ | putFastWaited label _ | putCheckOther label _ =>
      simp [back (by simp [label, Label.preDrop, Label.postDrop])] at touch
    case putCleanup label => exact absurd label notCleanup
    case putCheckLast alive => simp [doomed] at alive
    case wLookup found =>
      rcases found with hashed | ⟨h, holder, held, idle⟩
      · simp [unhashed] at hashed
      · exact absurd ⟨held, fun transient => wf.disjoint h transient.1 holder⟩
          (free h ((wf.tasks h).mpr (.inr (.inr holder))))
    case wFlagsPut staying => exact absurd (.inr ⟨fixed.doomedFlag, doomed⟩) staying
    case wUse walker label _ | wUseWaited walker label _ =>
      have own := control.walker u walker
      rw [label] at own
      exact absurd ⟨own.1.ge, by simp [label]⟩ (free u member)
    case uNsUnlockNow delay => simp [fixed.rcuDelay] at delay
    case hPut holder label held => exact absurd ⟨held, by simp [label]⟩ (free u member)
    case uGpWait umounter label _ =>
      subst umounter
      have own := control.umounter
      rw [label] at own
      exact absurd ⟨own.1.ge, by simp [label]⟩ (free _ member)
    case uRet umounter label =>
      subst umounter
      have own := control.umounter
      rw [label] at own
      exact absurd ⟨own.1.ge, by simp [label]⟩ (free _ member)
    all_goals first
      | (simp [Label.touching] at touch; done)
      | (simp [‹s.pc u = _›, Label.touching] at touch; done)
      | exact ⟨by simp [‹s.pc u = _›, Label.touching], id⟩
  · rw [step.pc_other same] at touch
    refine ⟨touch, fun waits => ?_⟩
    cases step
    case putCleanup label => exact absurd label notCleanup
    all_goals first
      | exact waits
      | exact Finset.mem_erase.mpr ⟨same, waits⟩

/-- The sum came out as zero under the lock: nobody holds a settled reference and,
once the lock is released, every sample is stale. -/
theorem cut_of_last (wf : cfg.WellFormed) (fixed : cfg.Fixed) (member : t ∈ cfg.taskList) (control : Control cfg s)
    (buffer : Buffers cfg s) (lock : Locking cfg s) (sum : Summing cfg s) (unhash : Unhashed cfg s)
    (label : s.pc t = .pCheck) (last : s.acc t = 0) (step : Step cfg s t after) (past : after.pc t ≠ .pSum ∧ after.pc t ≠ .pCheck) :
    s.nsref = false ∧ Cut cfg after fun _ => True := by
  have own := sum.sums t member
  have odd := own.odd lock member (by simp [label, Label.summing]) (by simp [label])
  rw [SumOk, label] at own
  have nonneg : ∀ u ∈ cfg.tasks, 0 ≤ if Settled cfg s u then (1 : ℤ) else 0 := fun u _ => by split <;> simp
  have total : settledRefs cfg s ≤ 0 := last ▸ own
  have gone : s.nsref = false := by
    by_contra kept
    have := Finset.sum_nonneg nonneg
    simp only [settledRefs, Bool.not_eq_false] at total kept
    rw [if_pos kept] at total
    omega
  have none : ∀ u ∈ cfg.taskList, ¬ Settled cfg s u := by
    intro u listed held
    simp only [settledRefs, gone, Bool.false_eq_true, if_false, zero_add] at total
    have := Lib.eq_zero_of_sum_le nonneg total u (by simpa [Config.tasks] using listed)
    simp [held] at this
  have grow := step.seqv_le wf fixed member control buffer lock
  obtain ⟨notUnlocking, result⟩ := control.past_unlock gone
  refine ⟨gone, ?_, ?_, ?_, .inl ?_⟩
  · intro u listed _ settled
    by_cases same : u = t
    · subst same
      exact none u listed (step.settled_mono fixed wf control (by simp [label]) (by simp [label]) settled)
    · exact none u listed ((step.settled_other same).mp settled)
  · intro u listed _
    by_cases same : u = t
    · subst same; exact past
    · rw [step.pc_other same]
      constructor <;> intro inside
      · exact same (Option.some.inj (((lock.owner u listed).mp (by simp [inside, Label.inLock])).symm.trans odd.2))
      · exact same (Option.some.inj (((lock.owner u listed).mp (by simp [inside, Label.inLock])).symm.trans odd.2))
  · intro u walker validating
    by_cases same : u = t
    · subst same
      have own := control.walker u walker
      cases step <;> simp_all [WalkerAt]
      all_goals rcases own with ⟨_, back | back⟩ <;> simp [back, Label.validating] at validating
    · rw [step.pc_other same] at validating
      rw [step.sq_other same]
      have := sum.sampled u walker (by cases pc : s.pc u <;> simp_all [Label.validating, Label.sampled])
      omega
  · exact step.hashed_mono member buffer ((unhash result).resolve_right fun unlocking => notUnlocking unlocking.1)

theorem Step.reading (wf : cfg.WellFormed) (member : t ∈ cfg.taskList) (step : Step cfg s t after)
    (control : Control cfg s) (walker : t ∈ cfg.walkers) (old : (s.pc t).reading = true → s.rcu t = true)
    (label : (after.pc t).reading = true) : after.rcu t = true := by
  have notU : t ≠ cfg.umounter := fun same => wf.umounter_walker (same ▸ walker)
  have back : (s.pc t).preDrop = true ∨ (s.pc t).postDrop = true → (s.ret t).reading = false := by
    intro putting
    have := control.ret_cases wf member putting
    simp only [List.mem_cons, List.not_mem_nil, or_false] at this
    rcases this with back | back | back | back <;> simp [back, Label.reading]
  cases step
  case putFast here _ | putFastWaited here _ | putCheckOther here _ | putCleanup here =>
    simp [back (by simp [here, Label.preDrop, Label.postDrop])] at label
  all_goals first
    | exact absurd ‹t = cfg.umounter› notU
    | (simp [Label.reading] at label; done)
    | (simp [‹s.pc t = _›, Label.reading] at label; done)
    | exact old (by simp [‹s.pc t = _›, Label.reading])
    | simp

theorem Step.rcu_other (step : Step cfg s t after) (other : u ≠ t) : after.rcu u = s.rcu u := by
  cases step <;> simp [other]

/-- Only cleanup_mnt() starts the grace period of the free. -/
theorem Step.cleanup_eq (step : Step cfg s t after) (other : s.pc t ≠ .pCleanup) :
    after.cleaner = s.cleaner ∧ after.gpfree.on = s.gpfree.on := by
  cases step
  case putCleanup label => exact absurd label other
  all_goals exact ⟨rfl, rfl⟩

theorem Step.to_cleanup (wf : cfg.WellFormed) (member : t ∈ cfg.taskList) (control : Control cfg s)
    (step : Step cfg s t after) (label : after.pc t = .pCleanup) :
    s.pc t = .pCheck ∧ s.acc t = 0 ∧ s.vis.m.doomed = false := by
  have back : (s.pc t).preDrop = true ∨ (s.pc t).postDrop = true → s.ret t ≠ .pCleanup := by
    intro putting
    have := control.ret_cases wf member putting
    simp only [List.mem_cons, List.not_mem_nil, or_false] at this
    rcases this with back | back | back | back <;> simp [back]
  cases step
  case putCheckLast here last alive => exact ⟨here, last, alive⟩
  case putFast here _ | putFastWaited here _ | putCheckOther here _ | putCleanup here =>
    exact absurd (by simpa using label) (back (by simp [here, Label.preDrop, Label.postDrop]))
  all_goals simp_all

theorem Ending.step (ok : Ending cfg s) (wf : cfg.WellFormed) (fixed : cfg.Fixed) (member : t ∈ cfg.taskList)
    (step : Step cfg s t after) (control : Control cfg s) (controlAfter : Control cfg after) (buffer : Buffers cfg s)
    (lock : Locking cfg s) (sum : Summing cfg s) (unhash : Unhashed cfg s) : Ending cfg after := by
  have reading : ∀ u ∈ cfg.walkers, (after.pc u).reading = true → after.rcu u = true := by
    intro u walker label
    by_cases same : u = t
    · subst same; exact step.reading wf member control walker (ok.reading u walker) label
    · rw [step.rcu_other same]; exact ok.reading u walker (step.pc_other same ▸ label)
  have cut : s.vis.m.doomed = true → after.nsref = false ∧ Cut cfg after fun _ => True := by
    intro doomed
    obtain ⟨gone, cut⟩ := ok.doomed doomed
    refine ⟨?_, cut.step wf fixed member step control buffer lock sum.sampled unhash (fun _ _ => trivial) (.inr doomed)
      fun unlocking => absurd unlocking (control.past_unlock gone).1⟩
    cases ref : after.nsref
    · rfl
    · simp [step.nsref_mono ref] at gone
  by_cases last : s.pc t = .pCheck ∧ s.acc t = 0 ∧ s.vis.m.doomed = false
  · -- the put that sets MNT_DOOMED
    obtain ⟨label, zero, alive⟩ := last
    have fresh : s.cleaner = none := by
      by_contra done
      simp [(ok.cleaned done).1] at alive
    have alone : ∀ u ∈ cfg.taskList, s.pc u ≠ .pCleanup := fun u listed here => by
      simp [(ok.cleaning u listed here).1] at alive
    have notOn : s.gpfree.on ≠ true := fun on => (ok.waiting on).1 fresh
    have notFreed : s.vis.m.freed ≠ true := fun freed => (ok.freed freed).1 fresh
    have cleanup := step.cleanup_eq (by simp [label])
    have freed := step.freed_eq
    have becomes : after.pc t = .pCleanup ∧ after.vis.m.doomed = true := by cases step <;> simp_all
    obtain ⟨gone, cut'⟩ := cut_of_last wf fixed member control buffer lock sum unhash label zero step (by simp [becomes.1])
    refine ⟨fun _ => ⟨?_, cut'⟩, reading, fun u listed here => ⟨becomes.2, cleanup.1.trans fresh, fun v listed' here' => ?_⟩,
      fun done => absurd (cleanup.1.trans fresh) done, fun on => absurd (cleanup.2 ▸ on) notOn,
      fun gone => absurd (freed ▸ gone) notFreed⟩
    · cases ref : after.nsref
      · rfl
      · simp [step.nsref_mono ref] at gone
    · have only : ∀ w ∈ cfg.taskList, after.pc w = .pCleanup → w = t := fun w listed here => by
        by_contra other
        exact alone w listed (step.pc_other other ▸ here)
      exact (only v listed' here').trans (only u listed here).symm
  · have freed := step.freed_eq
    have doomed : after.vis.m.doomed = s.vis.m.doomed := by
      by_cases check : s.pc t = .pCheck ∧ s.acc t = 0
      · have doomed : s.vis.m.doomed = true := by simpa [check] using last
        rw [doomed, step.doomed_mono doomed]
      · exact step.doomed_eq check
    have stay : ∀ u ∈ cfg.taskList, after.pc u = .pCleanup → s.pc u = .pCleanup := by
      intro u listed here
      by_cases same : u = t
      · subst same; exact absurd (step.to_cleanup wf member control here) last
      · exact step.pc_other same ▸ here
    by_cases cleaning : s.pc t = .pCleanup
    · -- cleanup_mnt()
      obtain ⟨isDoomed, fresh, alone⟩ := ok.cleaning t member cleaning
      have notFreed : s.vis.m.freed ≠ true := fun freed => (ok.freed freed).1 fresh
      have none : ∀ u ∈ cfg.taskList, after.pc u ≠ .pCleanup := fun u listed here => by
        have same := alone u listed (stay u listed here)
        subst same
        have := (step.to_cleanup wf member control here).1
        simp [cleaning] at this
      have effect : after.cleaner = some t ∧ after.gpfree.wait = s.readers cfg ∧ after.rcu = s.rcu := by
        cases step
        case putCleanup => exact ⟨rfl, rfl, rfl⟩
        all_goals simp_all
      refine ⟨fun _ => cut isDoomed, reading, fun u listed here => absurd here (none u listed),
        fun _ => ⟨doomed.trans isDoomed, none⟩, fun _ => ⟨by simp [effect.1], fun u listed touch => ?_⟩,
        fun gone => absurd (freed ▸ gone) notFreed⟩
      obtain ⟨walker, inside⟩ := (cut isDoomed).2.touching wf controlAfter listed touch (none u listed)
      rw [effect.2.1]
      simp [State.readers, listed, ← effect.2.2, reading u walker inside]
    · obtain ⟨cleaner, on⟩ := step.cleanup_eq cleaning
      rw [← doomed] at cut
      have touching : s.cleaner ≠ none → ∀ u, (after.pc u).touching = true →
          (s.pc u).touching = true ∧ (u ∈ s.gpfree.wait → u ∈ after.gpfree.wait) := by
        intro done u touch
        have isDoomed := (ok.cleaned done).1
        obtain ⟨gone, cut⟩ := ok.doomed isDoomed
        exact cut.touching_step wf fixed control member isDoomed gone step cleaning touch
      refine ⟨cut, reading, fun u listed here => ?_, fun done => ?_, fun isOn => ?_, fun isFreed => ?_⟩
      · obtain ⟨isDoomed, fresh, alone⟩ := ok.cleaning u listed (stay u listed here)
        exact ⟨doomed.trans isDoomed, cleaner.trans fresh, fun v listed' here' => alone v listed' (stay v listed' here')⟩
      · obtain ⟨isDoomed, none⟩ := ok.cleaned (cleaner ▸ done)
        exact ⟨doomed.trans isDoomed, fun u listed here => none u listed (stay u listed here)⟩
      · obtain ⟨done, waits⟩ := ok.waiting (on ▸ isOn)
        refine ⟨cleaner ▸ done, fun u listed touch => ?_⟩
        obtain ⟨before, kept⟩ := touching done u touch
        exact kept (waits u listed before)
      · obtain ⟨done, none⟩ := ok.freed (freed ▸ isFreed)
        refine ⟨cleaner ▸ done, fun u listed => ?_⟩
        by_contra touch
        have := (touching done u (by simpa using touch)).1
        simp [none u listed] at this

theorem ending_init (wf : cfg.WellFormed) : Ending cfg (init cfg) where
  doomed := by simp [init]
  reading t walker := by
    have notU : t ≠ cfg.umounter := fun same => wf.umounter_walker (same ▸ walker)
    simp [init, walker, notU, Label.reading]
  cleaning t _ := by
    simp only [init]
    split
    · simp
    · split <;> simp
  cleaned := by simp [init]
  waiting := by simp [init]
  freed := by simp [init]

/-- What the invariants below build on. -/
structure Base (cfg : Config T) (s : State T) : Prop where
  control : Control cfg s
  buffer : Buffers cfg s
  balance : Balanced cfg s
  lock : Locking cfg s
  sum : Summing cfg s
  unhash : Unhashed cfg s

theorem base (wf : cfg.WellFormed) (fixed : cfg.Fixed) : (spec cfg).Invariant (Base cfg) :=
  fun s reached => ⟨control wf s reached, buffers wf fixed s reached, balanced wf fixed s reached,
    locking wf fixed s reached, summing wf fixed s reached, unhashed wf fixed s reached⟩

theorem ending (wf : cfg.WellFormed) (fixed : cfg.Fixed) : (spec cfg).Invariant (Ending cfg) := by
  refine Lib.System.Invariant.relative (base wf fixed) ?_ ?_
  · rintro _ rfl
    exact ending_init wf
  · intro s after known knownAfter ok next
    cases next with
    | task member step =>
      exact ok.step wf fixed member step known.control knownAfter.control known.buffer known.lock known.sum known.unhash
    | @flush t i e member entry allowed =>
      have flags : (apply s.vis e).m.doomed = s.vis.m.doomed ∧ (apply s.vis e).m.freed = s.vis.m.freed := by
        cases e <;> exact ⟨rfl, rfl⟩
      refine ⟨fun doomed => ?_, ok.reading, ?_, ?_, ok.waiting, ?_⟩
      · obtain ⟨gone, cut⟩ := ok.doomed (flags.1 ▸ doomed)
        exact ⟨gone, cut.flush member known.buffer known.lock entry⟩
      · simpa [flags.1] using ok.cleaning
      · simpa [flags.1] using ok.cleaned
      · simpa [flags.2] using ok.freed
    | rcuFree on ended =>
      obtain ⟨done, waits⟩ := ok.waiting on
      refine ⟨fun doomed => ?_, ok.reading, ok.cleaning, ok.cleaned, by simp, fun _ => ⟨done, fun u listed => ?_⟩⟩
      · obtain ⟨gone, cut⟩ := ok.doomed doomed
        exact ⟨gone, cut.held, cut.idle, cut.stale, cut.unhashed⟩
      by_contra touch
      have := waits u listed (by simpa using touch)
      simp [ended] at this

omit [DecidableEq T] in
theorem Ending.noUAF (ok : Ending cfg s) : NoUAF cfg s := fun freed => (ok.freed freed).2

theorem Ending.doomedIsLast (ok : Ending cfg s) (wf : cfg.WellFormed) (control : Control cfg s) : DoomedIsLast cfg s := by
  intro doomed
  obtain ⟨gone, cut⟩ := ok.doomed doomed
  refine ⟨gone, ?_⟩
  unfold realRefs
  rw [sum_tasks wf]
  refine Finset.sum_eq_zero fun t listed => ?_
  have member : t ∈ cfg.taskList := by simpa [Config.tasks] using listed
  have nonneg := control.refs_nonneg wf member
  split
  · rfl
  · rename_i real
    by_contra held
    exact cut.held t member trivial ⟨by omega, fun transient => real ⟨transient.1, .inl transient.2⟩⟩

/-! ### A synchronous umount -/

structure Synced (cfg : Config T) (s : State T) : Prop where
  sync : s.vis.m.sync = true
  cut : Cut cfg s (· ≠ cfg.umounter)
  cleaning : ∀ t ∈ cfg.taskList, t ≠ cfg.umounter → s.pc t ≠ .pCleanup
  cleaner : s.cleaner ≠ none → s.cleaner = some cfg.umounter

theorem Synced.step (ok : Synced cfg s) (wf : cfg.WellFormed) (fixed : cfg.Fixed) (member : t ∈ cfg.taskList)
    (step : Step cfg s t after) (known : Base cfg s) (result : s.uresult = .ok) (eager : cfg.lazy = false) :
    Synced cfg after where
  sync := by
    refine (step.sync_eq fun label => ?_).trans ok.sync
    have treeing : t = cfg.umounter := by cases step <;> simp_all
    subst treeing
    have own := known.control.umounter
    simp [label, UmounterAt, result] at own
  cut := by
    refine ok.cut.step wf fixed member step known.control known.buffer known.lock known.sum.sampled known.unhash
      (fun _ other => other) (.inl ok.sync) fun unlocking => ?_
    have listed : cfg.umounter ∈ cfg.taskList := (wf.tasks _).mpr (.inl rfl)
    exact ((known.sum.sums _ listed).odd known.lock listed (by simp [unlocking, Label.summing]) fun _ => eager).1
  cleaning u listed other here := by
    by_cases same : u = t
    · subst same
      exact (ok.cut.idle u listed other).2 (step.to_cleanup wf member known.control here).1
    · exact ok.cleaning u listed other (step.pc_other same ▸ here)
  cleaner done := by
    by_cases cleaning : s.pc t = .pCleanup
    · have same : t = cfg.umounter := by
        by_contra other
        exact ok.cleaning t member other cleaning
      subst same
      cases step <;> simp_all
    · rw [(step.cleanup_eq cleaning).1] at done ⊢
      exact ok.cleaner done

/-- do_umount() gets past its busy check: the two references it allows for are the
namespace's and its own. -/
theorem synced_of_tree (wf : cfg.WellFormed) (known : Base cfg s) (ending : Ending cfg s)
    (label : s.pc cfg.umounter = .uTree) (eager : cfg.lazy = false) (step : Step cfg s cfg.umounter after) :
    Synced cfg after := by
  have listed : cfg.umounter ∈ cfg.taskList := (wf.tasks _).mpr (.inl rfl)
  have inside : cfg.umounter ∈ cfg.tasks := by simpa [Config.tasks] using listed
  have own := known.sum.sums _ listed
  have odd := own.odd known.lock listed (by simp [label, Label.summing]) fun _ => eager
  rw [SumOk, label] at own
  have control := known.control.umounter
  simp only [label, UmounterAt] at control
  have settled : Settled cfg s cfg.umounter := ⟨control.1.ge, by simp [label]⟩
  have total := (own eager).2
  have alive : s.vis.m.doomed ≠ true := fun doomed => by
    have := (ending.doomed doomed).1
    simp [control.2.1] at this
  have effect : after.vis.m.sync = true ∧ after.pc cfg.umounter = .uUnlock ∧ after.cleaner = s.cleaner ∧
      after.vis.seqv = s.vis.seqv := by
    cases step <;> simp_all
  have none : ∀ u ∈ cfg.taskList, u ≠ cfg.umounter → ¬ Settled cfg s u := by
    intro u listed other held
    simp only [settledRefs, control.2.1, if_true] at total
    rw [← Finset.add_sum_erase cfg.tasks _ inside, if_pos settled] at total
    have nonneg : ∀ u ∈ cfg.tasks.erase cfg.umounter, 0 ≤ if Settled cfg s u then (1 : ℤ) else 0 := fun u _ => by
      split <;> simp
    have := Lib.eq_zero_of_sum_le nonneg (by omega) u (by simpa [other, Config.tasks] using listed)
    simp [held] at this
  refine ⟨effect.1, ⟨?_, ?_, ?_, .inr effect.2.1⟩, ?_, ?_⟩
  · intro u listed other held
    exact none u listed other ((step.settled_other other).mp held)
  · intro u listed other
    rw [step.pc_other other]
    constructor <;> intro inside
    · exact other (Option.some.inj (((known.lock.owner u listed).mp (by simp [inside, Label.inLock])).symm.trans odd.2))
    · exact other (Option.some.inj (((known.lock.owner u listed).mp (by simp [inside, Label.inLock])).symm.trans odd.2))
  · intro u walker validating
    have other : u ≠ cfg.umounter := fun same => wf.umounter_walker (same ▸ walker)
    rw [step.pc_other other] at validating
    rw [step.sq_other other, effect.2.2.2]
    have := known.sum.sampled u walker (by cases pc : s.pc u <;> simp_all [Label.validating, Label.sampled])
    have := odd.1
    omega
  · intro u listed other here
    exact alive (ending.cleaning u listed (step.pc_other other ▸ here)).1
  · intro done
    exact absurd (ending.cleaned (effect.2.2.1 ▸ done)).1 alive

theorem synced (wf : cfg.WellFormed) (fixed : cfg.Fixed) (eager : cfg.lazy = false) :
    (spec cfg).Invariant fun s => s.uresult = .ok → Synced cfg s := by
  refine Lib.System.Invariant.relative ((base wf fixed).and (ending wf fixed)) ?_ ?_
  · rintro _ rfl
    simp [init]
  · intro s after before _ ok next
    obtain ⟨known, ending⟩ := before
    cases next with
    | @task t after member step =>
      intro result
      by_cases before : s.uresult = .ok
      · exact (ok before).step wf fixed member step known before eager
      · have label : t = cfg.umounter ∧ s.pc t = .uTree := by cases step <;> simp_all
        obtain ⟨rfl, label⟩ := label
        exact synced_of_tree wf known ending label eager step
    | @flush t i e member entry allowed =>
      intro result
      have old := ok result
      have sync : (apply s.vis e).m.sync = s.vis.m.sync := by cases e <;> rfl
      exact ⟨sync.trans old.sync, old.cut.flush member known.buffer known.lock entry, old.cleaning, old.cleaner⟩
    | rcuFree on ended =>
      intro result
      have old := ok result
      exact ⟨old.sync, ⟨old.cut.held, old.cut.idle, old.cut.stale, old.cut.unhashed⟩, old.cleaning, old.cleaner⟩

omit [DecidableEq T] in
theorem Synced.clean (ok : Synced cfg s) (wf : cfg.WellFormed) (control : Control cfg s) :
    (∀ t ∈ cfg.taskList, t ≠ cfg.umounter → ¬ Transient cfg s t → s.refs t = 0) ∧
      (s.cleaner ≠ none → s.cleaner = some cfg.umounter) := by
  refine ⟨fun t member other real => ?_, ok.cleaner⟩
  have nonneg := control.refs_nonneg wf member
  by_contra held
  exact ok.cut.held t member other ⟨by omega, fun transient => real ⟨transient.1, .inl transient.2⟩⟩

end LinuxTla.MntPut
