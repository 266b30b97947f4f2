import LinuxTla.MntPut.Free

/-! Somebody is the last one. Once the grace period of the umount is over every
put checks for zero under mount_lock, and the one whose decrement took the
references to zero counts exactly that. -/

namespace LinuxTla.MntPut

open Lib Lib.Fences

variable {T : Type} {cfg : Config T} {s after : State T} {t u : T}

/-! ### The slow path -/

/-- The umount has unlocked and started its grace period. -/
structure Closed (cfg : Config T) (s : State T) : Prop where
  result : s.uresult = .ok
  unlocked : s.pc cfg.umounter ≠ .uUnlock
  drained : s.pc cfg.umounter ≠ .uNsUnlock

def Label.legitimizing : Label → Bool
  | .wL1 | .wL2 | .wMb | .wL4 | .wLock | .wFlags => true
  | _ => false

/-- The tasks that found the mount before it was gone are readers the grace period
waits for, and whoever publishes a put does it under mount_lock. -/
structure Shut (cfg : Config T) (s : State T) : Prop where
  fast : ∀ t ∈ cfg.taskList, s.pc t = .pFast → s.pc cfg.umounter = .uGpWait ∧ t ∈ s.gp.wait
  puts : ∀ t ∈ cfg.taskList, s.pc t ≠ .pSum → s.pc t ≠ .pCheck → ∀ e ∈ s.buf t, 0 ≤ e.d
  legit : cfg.lazy = false → ∀ t ∈ cfg.walkers, (s.pc t).legitimizing = true →
    s.pc cfg.umounter = .uGpWait ∧ t ∈ s.gp.wait

/-- mntput() holds the RCU read lock between its check of `mnt_ns` and its
decrement. -/
def FastReading (cfg : Config T) (s : State T) : Prop := ∀ t ∈ cfg.taskList, s.pc t = .pFast → s.rcu t = true

variable [DecidableEq T]

theorem Step.fastReading (wf : cfg.WellFormed) (fixed : cfg.Fixed) (member : t ∈ cfg.taskList)
    (step : Step cfg s t after) (control : Control cfg s) (ok : FastReading cfg s) : FastReading cfg after := by
  intro u listed label
  by_cases same : u = t
  · subst same
    have old := ok u listed
    have back := control.ret_cases wf listed
    cases step
    case putEnterFast => simp [fixed.putRcu]
    case putFast here _ | putFastWaited here _ | putCheckOther here _ | putCleanup here =>
      simp only [State.setPc_pc, Function.update_self] at label
      simp [label] at back
      simp [here, Label.preDrop, Label.postDrop] at back
    all_goals simp_all
  · rw [step.rcu_other same]
    exact ok u listed (step.pc_other same ▸ label)

theorem fastReading (wf : cfg.WellFormed) (fixed : cfg.Fixed) : (spec cfg).Invariant (FastReading cfg) := by
  refine Lib.System.Invariant.relative (control wf) ?_ ?_
  · rintro _ rfl t _
    simp only [init]
    split
    · simp
    · split <;> simp
  · intro s after known _ ok next
    cases next with
    | task member step => exact step.fastReading wf fixed member known ok
    | flush member entry allowed => exact ok
    | rcuFree on ended => exact ok

/-- The first step past the unlock is the start of the grace period. -/
theorem Step.closed (step : Step cfg s t after) (closed : Closed cfg after) :
    Closed cfg s ∨ t = cfg.umounter ∧ s.pc t = .uNsUnlock := by
  obtain ⟨result, unlocked, drained⟩ := closed
  by_cases same : t = cfg.umounter
  · by_cases single : s.pc t = .uNsUnlock
    · exact .inr ⟨same, single⟩
    · subst same
      refine .inl ⟨?_, ?_, single⟩
      · cases step <;> simp_all
      · cases step <;> simp_all
  · rw [(step.umounter_other same).2.2] at result
    rw [step.pc_other (Ne.symm same)] at unlocked drained
    exact .inl ⟨result, unlocked, drained⟩

theorem Step.gp_wait (step : Step cfg s t after) (other : u ≠ t)
    (waits : s.pc cfg.umounter = .uGpWait ∧ u ∈ s.gp.wait) :
    after.pc cfg.umounter = .uGpWait ∧ u ∈ after.gp.wait := by
  obtain ⟨label, inside⟩ := waits
  by_cases same : t = cfg.umounter
  · subst same
    cases step
    case uGpWait ended => simp [ended] at inside
    all_goals exact absurd (label.symm.trans ‹s.pc _ = _›) (by decide)
  · refine ⟨(step.pc_other (Ne.symm same)).trans label, ?_⟩
    cases step
    case uNsUnlock umounter _ _ _ | uGpWait umounter _ _ => exact absurd umounter same
    all_goals first
      | exact inside
      | exact Finset.mem_erase.mpr ⟨other, inside⟩

/-- What the slow path builds on. -/
structure Known (cfg : Config T) (s : State T) : Prop extends Base cfg s where
  ending : Ending cfg s
  ns : Cleared .ns cfg s
  reading : FastReading cfg s
  synced : cfg.lazy = false → s.uresult = .ok → Synced cfg s

theorem known (wf : cfg.WellFormed) (fixed : cfg.Fixed) : (spec cfg).Invariant (Known cfg) :=
  fun s reached => ⟨base wf fixed s reached, ending wf fixed s reached, cleared .ns wf fixed s reached,
    fastReading wf fixed s reached, fun eager => synced wf fixed eager s reached⟩

/-- Neither the hash nor a shared pwd leads to the mount any more. -/
theorem Closed.not_found (closed : Closed cfg s) (wf : cfg.WellFormed) (known : Known cfg s) (eager : cfg.lazy = false) :
    ¬ (s.vis.m.hashed = true ∨ ViaPwd cfg s) := by
  rintro (hashed | ⟨h, holder, held, idle⟩)
  · rcases known.unhash closed.result with gone | ⟨unlocking, _⟩
    · simp [gone] at hashed
    · exact closed.unlocked unlocking
  · have other : h ≠ cfg.umounter := fun same => wf.umounter_holder (same ▸ holder)
    have listed : h ∈ cfg.taskList := (wf.tasks h).mpr (.inr (.inr holder))
    exact (known.synced eager closed.result).cut.held h listed other
      ⟨held, fun transient => wf.disjoint h transient.1 holder⟩

theorem Shut.step (ok : Shut cfg s) (wf : cfg.WellFormed) (member : t ∈ cfg.taskList)
    (step : Step cfg s t after) (known : Known cfg s) (closed : Closed cfg s) : Shut cfg after where
  fast u listed label := by
    by_cases same : u = t
    · subst same
      have gone : s.vis.m.ns = false := (known.ns closed.result).resolve_right fun unlocking => closed.unlocked unlocking.1
      have back := known.control.ret_cases wf listed
      cases step
      case putEnterFast _ ns => simp [gone] at ns
      case putFast here _ | putFastWaited here _ | putCheckOther here _ | putCleanup here =>
        simp only [State.setPc_pc, Function.update_self] at label
        simp [label] at back
        simp [here, Label.preDrop, Label.postDrop] at back
      all_goals simp_all
    · exact step.gp_wait same (ok.fast u listed (step.pc_other same ▸ label))
  puts u listed sum check := by
    by_cases same : u = t
    · subst same
      have old := ok.puts u listed
      cases step
      case putFast label waited => exact absurd (.inl (ok.fast u listed label).2) waited
      case putDec => simp at sum
      case putSum label _ => exact absurd label sum
      case putSumEnd => simp at check
      case putLock label lock | wLock _ label lock | uLock _ label lock _ | uLockLazy _ label lock _ =>
        simp [lock.2, Store.d]
      case wL2 label | hGet label _ _ | uTree label =>
        rw [label] at old
        simpa [Store.d, or_imp, forall_and] using old (by decide) (by decide)
      all_goals first
        | exact old (by simp [‹s.pc u = _›]) (by simp [‹s.pc u = _›])
        | simp
    · rw [step.pc_other same] at sum check
      rcases step.buf_other same with kept | empty
      · rw [kept]; exact ok.puts u listed sum check
      · simp [empty]
  legit eager u walker label := by
    by_cases same : u = t
    · subst same
      have notU : cfg.umounter ≠ u := fun same => wf.umounter_walker (same ▸ walker)
      have old := ok.legit eager u walker
      have back := known.control.ret_cases wf member
      cases step
      case wLookup _ _ found => exact absurd found (closed.not_found wf known eager)
      case putFast here _ | putFastWaited here _ | putCheckOther here _ | putCleanup here =>
        simp only [State.setPc_pc, Function.update_self] at label
        have := back (by simp [here, Label.preDrop, Label.postDrop])
        simp only [List.mem_cons, List.not_mem_nil, or_false] at this
        rcases this with back | back | back | back <;> simp [back, Label.legitimizing] at label
      all_goals first
        | (simp [Label.legitimizing] at label; done)
        | (simp [‹s.pc u = _›, Label.legitimizing] at label; done)
        | (simpa [notU] using old (by simp [‹s.pc u = _›, Label.legitimizing]))
    · exact step.gp_wait same (ok.legit eager u walker (step.pc_other same ▸ label))

/-- The grace period drains every buffer and waits for every reader. -/
theorem shut_of_gp (wf : cfg.WellFormed) (fixed : cfg.Fixed) (step : Step cfg s cfg.umounter after) (known : Known cfg s)
    (label : s.pc cfg.umounter = .uNsUnlock) : Shut cfg after := by
  cases step
  case uNsUnlock =>
    refine ⟨fun t listed fast => ?_, by simp, fun _ t walker legit => ?_⟩
    all_goals have other : t ≠ cfg.umounter := by rintro rfl; simp [Label.legitimizing] at *
    · have reading := known.reading t listed (by simpa [other] using fast)
      simp [State.readers, listed, reading]
    · have listed : t ∈ cfg.taskList := (wf.tasks t).mpr (.inr (.inl walker))
      have reading := known.ending.reading t walker (by
        simp only [State.setPc_pc, Function.update_of_ne other] at legit
        cases pc : s.pc t <;> simp_all [Label.legitimizing, Label.reading])
      simp [State.readers, listed, reading]
  case uNsUnlockNow delay => simp [fixed.rcuDelay] at delay
  all_goals exact absurd (label.symm.trans ‹s.pc _ = _›) (by decide)

theorem shut (wf : cfg.WellFormed) (fixed : cfg.Fixed) : (spec cfg).Invariant fun s => Closed cfg s → Shut cfg s := by
  refine Lib.System.Invariant.relative (known wf fixed) ?_ ?_
  · rintro _ rfl ⟨result, -, -⟩
    simp [init] at result
  · intro s after known _ ok next closed
    cases next with
    | task member step =>
      rcases step.closed closed with before | ⟨rfl, label⟩
      · exact (ok before).step wf member step known before
      · exact shut_of_gp wf fixed step known label
    | @flush t i e member entry allowed =>
      have old := ok ⟨closed.result, closed.unlocked, closed.drained⟩
      refine ⟨old.fast, fun u listed sum check e' inside => ?_, old.legit⟩
      refine old.puts u listed sum check e' ?_
      by_cases same : u = t
      · subst same
        exact List.mem_of_mem_eraseIdx (by simpa using inside)
      · simpa [same] using inside
    | rcuFree on ended =>
      have old := ok ⟨closed.result, closed.unlocked, closed.drained⟩
      exact ⟨old.fast, old.puts, old.legit⟩

/-! ### The last decrement -/

/-- The sum of `t` will come out as zero. -/
def Counting (cfg : Config T) (s : State T) (t : T) : Prop :=
  SplitCount.Zero cfg.ncpu (s.seenPuts t) (s.seenGets t) (s.acc t) (s.ci t)

def Exact (cfg : Config T) (s : State T) (t : T) : Prop :=
  match s.pc t with
  | .pSum => Counting cfg s t
  | .pCheck => s.acc t = 0
  | _ => False

/-- A put that dropped the last reference is counting. -/
def Watched (cfg : Config T) (s : State T) : Prop :=
  s.vis.m.doomed = true ∨ 0 < owned cfg s ∨ ∃ t ∈ cfg.taskList, Exact cfg s t

omit [DecidableEq T] in
theorem Exact.inLock (exact : Exact cfg s t) : (s.pc t).inLock = true := by
  unfold Exact at exact
  cases label : s.pc t <;> simp_all [Label.inLock]

omit [DecidableEq T] in
theorem Exact.congr (ok : Exact cfg s t) (pc : after.pc t = s.pc t) (acc : after.acc t = s.acc t)
    (ci : after.ci t = s.ci t) (puts : ∀ c, after.seenPuts t c = s.seenPuts t c)
    (gets : ∀ c, after.seenGets t c = s.seenGets t c) : Exact cfg after t := by
  unfold Exact at ok ⊢
  rw [pc, acc]
  cases label : s.pc t <;> rw [label] at ok
  case pSum =>
    rwa [Counting, acc, ci, funext puts, funext gets]
  case pCheck => exact ok
  all_goals exact ok

theorem Control.owned_le (control : Control cfg s) (wf : cfg.WellFormed) (none : owned cfg s ≤ 0) :
    s.nsref = false ∧ ∀ t ∈ cfg.taskList, s.refs t = 0 := by
  have nonneg : ∀ t ∈ cfg.tasks, 0 ≤ s.refs t := fun t listed =>
    control.refs_nonneg wf (by simpa [Config.tasks] using listed)
  have gone : s.nsref = false := by
    by_contra kept
    have := Finset.sum_nonneg nonneg
    simp only [owned, Bool.not_eq_false] at none kept
    rw [if_pos kept] at none
    omega
  simp only [owned, gone, Bool.false_eq_true, if_false, zero_add] at none
  exact ⟨gone, fun t member => Lib.eq_zero_of_sum_le nonneg none t (by simpa [Config.tasks] using member)⟩

omit [DecidableEq T] in
/-- With the namespace's reference gone the grace period is over. -/
theorem Control.closed (control : Control cfg s) (gone : s.nsref = false) :
    Closed cfg s ∧ s.pc cfg.umounter ≠ .uGpWait := by
  obtain ⟨unlocked, result⟩ := control.past_unlock gone
  have own := control.umounter
  refine ⟨⟨result, unlocked, fun label => ?_⟩, fun label => ?_⟩ <;> simp [label, UmounterAt, gone] at own

/-- Once the references are gone only the task under mount_lock has counts left to
publish. -/
theorem Shut.no_counts (ok : Shut cfg s) (wf : cfg.WellFormed) (known : Known cfg s) (member : t ∈ cfg.taskList)
    (none : s.refs t = 0) (outside : (s.pc t).inLock = false) :
    ∀ e ∈ s.buf t, ∀ c, e.puts c = 0 ∧ e.gets c = 0 := by
  have nonneg : ∀ e ∈ s.buf t, 0 ≤ e.d := ok.puts t member
    (by rintro label; simp [label, Label.inLock] at outside) (by rintro label; simp [label, Label.inLock] at outside)
  have settled : ¬ Settled cfg s t := fun held => by have := held.1; omega
  have total : net Store.d (s.buf t) ≤ 0 := by
    have := (known.buffer t member).net_le wf known.control member
    simpa [settled, none] using this
  intro e inside c
  have zero : e.d = 0 := eq_zero_of_net nonneg total e inside
  have unit := ((known.buffer t member).entries e inside).unit
  cases e <;> simp_all [Store.d, Store.Unit, Store.puts, Store.gets]

theorem sum_seen_zero (wf : cfg.WellFormed) (known : Known cfg s) (shut : Shut cfg s) (member : t ∈ cfg.taskList)
    (inside : (s.pc t).inLock = true) (none : owned cfg s = 0) :
    ∑ c ∈ cfg.cpus, s.seenGets t c = ∑ c ∈ cfg.cpus, s.seenPuts t c := by
  have listed : t ∈ cfg.tasks := by simpa [Config.tasks] using member
  have refs := (known.control.owned_le wf none.le).2
  have others : ∀ u ∈ cfg.tasks.erase t, net Store.d (s.buf u) = 0 := by
    intro u apart
    have other := Finset.ne_of_mem_erase apart
    have listed : u ∈ cfg.taskList := by simpa [Config.tasks] using Finset.mem_of_mem_erase apart
    have outside : (s.pc u).inLock = false := by
      by_contra held
      have mine := (known.lock.owner t member).mp inside
      have theirs := (known.lock.owner u listed).mp (by simpa using held)
      exact other (Option.some.inj (theirs.symm.trans mine))
    have counts := shut.no_counts wf known listed (refs u listed) outside
    refine net_eq_zero fun e inside => ?_
    have unit := ((known.buffer u listed).entries e inside).unit
    cases e with
    | cnt c d =>
      have := counts _ inside c
      rcases unit with rfl | rfl <;> simp [Store.puts, Store.gets] at this
    | _ => rfl
  have balance := known.balance
  unfold Balanced at balance
  rw [none, ← Finset.add_sum_erase cfg.tasks _ listed, Finset.sum_eq_zero others] at balance
  have := sum_seen (known.buffer t member)
  omega

theorem Counting.read (ok : Counting cfg s t) (fixed : cfg.Fixed) (more : s.ci t ≤ reads cfg)
    (seen : ∑ c ∈ cfg.cpus, s.seenGets t c = ∑ c ∈ cfg.cpus, s.seenPuts t c) : Counting cfg (sumRead cfg s t) t := by
  rw [reads, fixed.splitCount, if_pos rfl] at more
  rw [Counting, sumRead_acc, sumRead_ci, Function.update_self, Function.update_self, readCnt_fixed fixed]
  exact SplitCount.Zero.load ok more seen

omit [DecidableEq T] in
theorem counters_applyAll {v : Vis T} {b : List (Store T)} (unit : ∀ e ∈ b, e.Unit)
    (none : ∀ e ∈ b, ∀ c, e.puts c = 0 ∧ e.gets c = 0) (c : ℕ) :
    (applyAll v b).putv c = v.putv c ∧ (applyAll v b).cntv c = v.cntv c := by
  have puts : (b.map (Store.puts c)).sum = 0 := List.sum_eq_zero (by simpa using fun e inside => (none e inside c).1)
  have gets : (b.map (Store.gets c)).sum = 0 := List.sum_eq_zero (by simpa using fun e inside => (none e inside c).2)
  have putv := putv_applyAll c v b
  have getv := getv_applyAll c v unit
  omega

/-- A task without a reference changes no counter another task sees. -/
theorem Step.seen_eq (step : Step cfg s t after) (wf : cfg.WellFormed) (known : Known cfg s) (member : t ∈ cfg.taskList)
    (single : s.pc t ≠ .uNsUnlock) (bare : s.refs t = 0) (none : ∀ e ∈ s.buf t, ∀ c, e.puts c = 0 ∧ e.gets c = 0)
    (other : u ≠ t) (c : ℕ) : after.seenPuts u c = s.seenPuts u c ∧ after.seenGets u c = s.seenGets u c := by
  have buf := step.buf_eq other single
  have held : (s.pc t).preDrop = false := by
    by_contra put
    have := (known.control.settled_of_preDrop wf member (by simpa using put)).1
    omega
  have drain : ∀ es : List (Store T), (∀ e ∈ es, e.Unit ∧ ∀ c, e.puts c = 0 ∧ e.gets c = 0) →
      (applyAll s.vis (s.buf t ++ es)).putv c = s.vis.putv c ∧ (applyAll s.vis (s.buf t ++ es)).cntv c = s.vis.cntv c := by
    intro es quiet
    refine counters_applyAll (List.forall_mem_append.mpr ⟨fun e inside => ?_, fun e inside => (quiet e inside).1⟩)
      (List.forall_mem_append.mpr ⟨none, fun e inside => (quiet e inside).2⟩) c
    exact ((known.buffer t member).entries e inside).unit
  have unlock := drain (s.unlockStores t) (by simp [State.unlockStores, Store.Unit, Store.puts, Store.gets])
  have only := drain [] (by simp)
  have counters : after.vis.putv c = s.vis.putv c ∧ after.vis.cntv c = s.vis.cntv c := by
    cases step
    case putFast label _ | putFastWaited label _ | putDec label => simp [label, Label.preDrop] at held
    case wFlagsDrop walker label _ =>
      have own := known.control.walker t walker
      simp [label, WalkerAt, bare] at own
    case putCheckOther | putCheckLast | wFlagsPut | uBusy | uUnlock => exact unlock
    case wUseWaited | hMigrate => exact only
    case uNsUnlock label _ _ => exact absurd label single
    all_goals exact ⟨rfl, rfl⟩
  simp only [State.seenPuts, State.seenGets, State.bufferedPuts, State.bufferedGets, buf, counters, and_self]

/-- A put that has come to zero goes on counting it. -/
theorem Exact.step (ok : Exact cfg s u) (wf : cfg.WellFormed) (fixed : cfg.Fixed) (member : t ∈ cfg.taskList)
    (listed : u ∈ cfg.taskList) (step : Step cfg s t after) (known : Known cfg s) (shut : Shut cfg s)
    (none : owned cfg s = 0) : after.vis.m.doomed = true ∨ Exact cfg after u := by
  have inside := ok.inLock
  have bare := (known.control.owned_le wf none.le).2
  by_cases same : u = t
  · subst same
    have seen := sum_seen_zero wf known shut listed inside none
    unfold Exact at ok ⊢
    cases step
    case putSum label more =>
      simp only [label, sumRead_pc] at ok ⊢
      exact .inr (ok.read fixed more seen)
    case putSumEnd label ended =>
      simp only [label, State.setPc_pc, Function.update_self] at ok ⊢
      simp only [reads, fixed.splitCount, if_true] at ended
      exact .inr (SplitCount.Zero.finish ok ended)
    case putCheckOther label waited =>
      simp only [label] at ok
      exact .inl (by simpa using waited.resolve_left (not_not_intro ok))
    case putCheckLast => exact .inl (by simp)
    all_goals simp [‹s.pc u = _›] at ok
  · have outside : (s.pc t).inLock = false := by
      by_contra held
      have mine := (known.lock.owner u listed).mp inside
      have theirs := (known.lock.owner t member).mp (by simpa using held)
      exact same (Option.some.inj (mine.symm.trans theirs))
    have single : s.pc t ≠ .uNsUnlock := by
      intro label
      have isU : t = cfg.umounter := by cases step <;> simp_all
      have own := bare t member
      have control := known.control.umounter
      subst isU
      simp [label, UmounterAt, own] at control
    have counts := shut.no_counts wf known member (bare t member) outside
    obtain ⟨acc, ci⟩ := step.acc_other same
    have seen := step.seen_eq wf known member single (bare t member) counts same
    exact .inr (ok.congr (step.pc_other same) acc ci (fun c => (seen c).1) fun c => (seen c).2)

theorem sync_eager : (spec cfg).Invariant fun s => s.vis.m.sync = true → cfg.lazy = false := by
  apply Lib.System.Invariant.of_step
  · rintro _ rfl
    simp [init]
  · intro s after ok next
    cases next with
    | @task t after member step =>
      intro sync
      by_cases label : s.pc t = .uTree
      · cases step
        case uTree => simpa using sync
        all_goals exact absurd (label.symm.trans ‹s.pc t = _›) (by decide)
      · exact ok (step.sync_eq label ▸ sync)
    | @flush t i e member entry allowed =>
      have same : (apply s.vis e).m.sync = s.vis.m.sync := by cases e <;> rfl
      exact fun sync => ok (same ▸ sync)
    | rcuFree on ended => exact ok

/-- The references only go down by a put or by a walker that gives its count back. -/
theorem Step.owned_le (step : Step cfg s t after) (member : t ∈ cfg.taskList)
    (other : s.pc t ∉ [Label.pFast, .pDec, .wFlags]) : owned cfg s ≤ owned cfg after := by
  have listed : t ∈ cfg.tasks := by simpa [Config.tasks] using member
  have own : (if s.nsref then 1 else 0) + s.refs t ≤ (if after.nsref then 1 else 0) + after.refs t := by
    cases step <;> simp_all
  unfold owned
  rw [Lib.sum_change (f := after.refs) (g := s.refs) listed fun u _ other => step.refs_other other]
  omega

/-- The last reference goes under mount_lock, with a count to follow. -/
theorem exact_of_last (wf : cfg.WellFormed) (member : t ∈ cfg.taskList) (step : Step cfg s t after) (known : Known cfg s)
    (control : Control cfg after) (shut : Closed cfg s → Shut cfg s) (sync : s.vis.m.sync = true → cfg.lazy = false)
    (alive : after.vis.m.doomed ≠ true) (held : 0 < owned cfg s) (none : owned cfg after ≤ 0) : Exact cfg after t := by
  obtain ⟨gone, bare⟩ := control.owned_le wf none
  have drop : s.pc t ∈ [Label.pFast, .pDec, .wFlags] := by
    by_contra other
    have := step.owned_le member other
    omega
  -- the namespace's reference is gone, or it is the one that goes
  have closed : Closed cfg s ∧ s.pc cfg.umounter ≠ .uGpWait := by
    cases ref : s.nsref
    · exact known.control.closed ref
    · have isU : t = cfg.umounter := by
        by_contra other
        simp [(step.umounter_other other).1, ref] at gone
      subst isU
      have own := known.control.umounter
      have notW := wf.umounter_walker
      have before : (s.pc cfg.umounter).preDrop = true := by
        cases step <;> simp_all [Label.preDrop]
      have result : s.uresult = .ok := by
        have put : s.nsput = true := by cases step <;> simp_all
        cases pc : s.pc cfg.umounter <;> simp_all [UmounterAt, Label.preDrop]
      refine ⟨⟨result, ?_, ?_⟩, ?_⟩ <;> rintro label <;> simp [label, Label.preDrop] at before
  have shut := shut closed.1
  cases step
  case putDec label =>
    simp only [Exact, State.setPc_pc, Function.update_self]
    have two := wf.ncpu
    simpa [Counting] using SplitCount.Zero.start (by omega)
  case putFast label _ | putFastWaited label _ => exact absurd (shut.fast t member label).1 closed.2
  case wFlagsDrop walker label going =>
    rcases going with ⟨-, set⟩ | ⟨-, doomed⟩
    · exact absurd (shut.legit (sync set) t walker (by simp [label, Label.legitimizing])).1 closed.2
    · simp [doomed] at alive
  case wFlagsPut walker label _ =>
    have := bare t member
    have own := known.control.walker t walker
    simp only [label, WalkerAt] at own
    simp [own] at this
  all_goals simp [‹s.pc t = _›] at drop

theorem Watched.step (ok : Watched cfg s) (wf : cfg.WellFormed) (fixed : cfg.Fixed) (member : t ∈ cfg.taskList)
    (step : Step cfg s t after) (known : Known cfg s) (control : Control cfg after) (shut : Closed cfg s → Shut cfg s)
    (sync : s.vis.m.sync = true → cfg.lazy = false) : Watched cfg after := by
  by_cases alive : after.vis.m.doomed = true
  · exact .inl alive
  by_cases left : 0 < owned cfg after
  · exact .inr (.inl left)
  have ended : owned cfg after ≤ 0 := by omega
  rcases ok with doomed | held | ⟨u, listed, exact⟩
  · exact absurd (step.doomed_mono doomed) alive
  · exact .inr (.inr ⟨t, member, exact_of_last wf member step known control shut sync alive held ended⟩)
  · by_cases held : 0 < owned cfg s
    · exact .inr (.inr ⟨t, member, exact_of_last wf member step known control shut sync alive held ended⟩)
    · have nonneg : 0 ≤ owned cfg s := by
        unfold owned
        have : 0 ≤ ∑ t ∈ cfg.tasks, s.refs t := Finset.sum_nonneg fun t listed =>
          known.control.refs_nonneg wf (by simpa [Config.tasks] using listed)
        split <;> omega
      have none : owned cfg s = 0 := by omega
      have closed := (known.control.closed (known.control.owned_le wf none.le).1).1
      rcases exact.step wf fixed member listed step known (shut closed) none with doomed | exact
      · exact .inl doomed
      · exact .inr (.inr ⟨u, listed, exact⟩)

theorem watched (wf : cfg.WellFormed) (fixed : cfg.Fixed) : (spec cfg).Invariant (Watched cfg) := by
  refine Lib.System.Invariant.relative (((known wf fixed).and (shut wf fixed)).and sync_eager) ?_ ?_
  · rintro _ rfl
    refine .inr (.inl ?_)
    have : 0 ≤ ∑ t ∈ cfg.tasks, (init cfg).refs t := Finset.sum_nonneg fun t _ => by
      simp only [init]
      split <;> simp
    simp only [owned, init, if_true] at this ⊢
    omega
  · intro s after before later ok next
    obtain ⟨⟨known, shut⟩, sync⟩ := before
    obtain ⟨⟨knownAfter, _⟩, _⟩ := later
    cases next with
    | task member step => exact ok.step wf fixed member step known knownAfter.control shut sync
    | @flush t i e member entry allowed =>
      have doomed : (apply s.vis e).m.doomed = s.vis.m.doomed := by cases e <;> rfl
      by_cases held : 0 < owned cfg s
      · exact .inr (.inl held)
      rcases ok with gone | left | ⟨u, listed, exact⟩
      · exact .inl (doomed.trans gone)
      · exact absurd left held
      · obtain ⟨gone, bare⟩ := known.control.owned_le wf (by omega)
        have seen := flush_seen_eq (known.buffer t member) entry u
        have quiet : ∀ c, (if u = t then 0 else e.puts c) = 0 ∧ (if u = t then 0 else e.gets c) = 0 := by
          intro c
          by_cases same : u = t
          · simp [same]
          · have outside : (s.pc t).inLock = false := by
              by_contra inside
              have mine := (known.lock.owner u listed).mp exact.inLock
              have theirs := (known.lock.owner t member).mp (by simpa using inside)
              exact same (Option.some.inj (mine.symm.trans theirs))
            simpa [same] using (shut (known.control.closed gone).1).no_counts wf known member (bare t member) outside e
              (List.mem_of_getElem? entry) c
        refine .inr (.inr ⟨u, listed, exact.congr rfl rfl rfl (fun c => ?_) fun c => ?_⟩)
        · rw [(seen c).1, (quiet c).1, add_zero]
        · rw [(seen c).2, (quiet c).2, add_zero]
    | rcuFree on ended =>
      rcases ok with doomed | held | ⟨u, listed, exact⟩
      · exact .inl doomed
      · exact .inr (.inl held)
      · exact .inr (.inr ⟨u, listed, exact.congr rfl rfl rfl (fun _ => rfl) fun _ => rfl⟩)

/-! ### The free -/

/-- What MNT_DOOMED leads to. -/
structure Dying (cfg : Config T) (s : State T) : Prop where
  doomed : s.vis.m.doomed = true → s.cleaner ≠ none ∨ ∃ t ∈ cfg.taskList, s.pc t = .pCleanup
  cleaned : s.cleaner ≠ none → s.gpfree.on = true ∨ s.vis.m.freed = true

theorem Dying.step (ok : Dying cfg s) (member : t ∈ cfg.taskList) (step : Step cfg s t after) : Dying cfg after := by
  by_cases cleaning : s.pc t = .pCleanup
  · cases step
    case putCleanup => exact ⟨fun _ => .inl (by simp), fun _ => .inl rfl⟩
    all_goals exact absurd (cleaning.symm.trans ‹s.pc t = _›) (by decide)
  · obtain ⟨cleaner, on⟩ := step.cleanup_eq cleaning
    refine ⟨fun doomed => ?_, fun done => ?_⟩
    · rw [cleaner]
      by_cases last : s.pc t = .pCheck ∧ s.acc t = 0
      · cases step
        case putCheckLast => exact .inr ⟨t, member, by simp⟩
        case putCheckOther waited =>
          have before : s.vis.m.doomed = true := by simpa using doomed
          rcases ok.doomed before with done | ⟨u, listed, label⟩
          · exact .inl done
          · have other : u ≠ t := fun same => cleaning (same ▸ label)
            exact .inr ⟨u, listed, by simpa [other] using label⟩
        all_goals exact absurd (last.1.symm.trans ‹s.pc t = _›) (by decide)
      · rcases ok.doomed (step.doomed_eq last ▸ doomed) with done | ⟨u, listed, label⟩
        · exact .inl done
        · have other : u ≠ t := fun same => cleaning (same ▸ label)
          exact .inr ⟨u, listed, (step.pc_other other).trans label⟩
    · rw [on, step.freed_eq]
      exact ok.cleaned (cleaner ▸ done)

theorem dying : (spec cfg).Invariant (Dying cfg) := by
  apply Lib.System.Invariant.of_step
  · rintro _ rfl
    exact ⟨by simp [init], by simp [init]⟩
  · intro s after ok next
    cases next with
    | task member step => exact ok.step member step
    | @flush t i e member entry allowed =>
      have flags : (apply s.vis e).m.doomed = s.vis.m.doomed ∧ (apply s.vis e).m.freed = s.vis.m.freed := by
        cases e <;> exact ⟨rfl, rfl⟩
      exact ⟨by simpa [flags.1] using ok.doomed, by simpa [flags.2] using ok.cleaned⟩
    | rcuFree on ended => exact ⟨ok.doomed, fun _ => .inr rfl⟩

/-- Everybody is done and nothing is pending. -/
structure Quiet (cfg : Config T) (s : State T) : Prop where
  done : ∀ t ∈ cfg.taskList, (s.pc t).isDone = true
  drained : ∀ t ∈ cfg.taskList, s.buf t = []
  settled : s.gpfree.on = false

/-- The references of a task that is done are gone, the namespace's with them unless
the umount was refused. -/
theorem Quiet.owned (quiet : Quiet cfg s) (wf : cfg.WellFormed) (control : Control cfg s) (umounted : s.uresult ≠ .busy) :
    owned cfg s = 0 := by
  have own := control.umounter
  have finished := quiet.done _ ((wf.tasks _).mpr (.inl rfl))
  have gone : s.nsref = false := by
    cases pc : s.pc cfg.umounter <;> simp_all [UmounterAt, Label.isDone]
  have bare : ∀ t ∈ cfg.tasks, s.refs t = 0 := by
    intro t listed
    have member : t ∈ cfg.taskList := by simpa [Config.tasks] using listed
    have finished := quiet.done t member
    rcases (wf.tasks t).mp member with rfl | walker | holder
    · cases pc : s.pc cfg.umounter <;> simp_all [UmounterAt, Label.isDone]
    · have own := control.walker t walker
      cases pc : s.pc t <;> simp_all [WalkerAt, Label.isDone]
    · have own := control.holder t holder
      cases pc : s.pc t <;> simp_all [HolderAt, Label.isDone]
  simp [MntPut.owned, gone, Finset.sum_eq_zero bare]

theorem Quiet.freed (quiet : Quiet cfg s) (wf : cfg.WellFormed) (control : Control cfg s) (watched : Watched cfg s)
    (dying : Dying cfg s) (umounted : s.uresult ≠ .busy) : s.vis.m.freed = true := by
  have none := quiet.owned wf control umounted
  have finished : ∀ {t l}, t ∈ cfg.taskList → s.pc t = l → l.isDone = true := fun member label =>
    label ▸ quiet.done _ member
  have doomed : s.vis.m.doomed = true := by
    rcases watched with doomed | held | ⟨t, member, exact⟩
    · exact doomed
    · omega
    · have := finished member rfl
      unfold Exact at exact
      cases label : s.pc t <;> simp_all [Label.isDone]
  have cleaned := (dying.doomed doomed).resolve_right fun ⟨t, member, label⟩ => by
    simpa [Label.isDone] using finished member label
  exact (dying.cleaned cleaned).resolve_left (by simp [quiet.settled])

def Cleans (cfg : Config T) (s after : State T) : Prop :=
  ∃ t ∈ cfg.taskList, s.pc t = .pCleanup ∧ after = (cleanup cfg s t).setPc t (s.ret t)

theorem cleans_once (wf : cfg.WellFormed) (fixed : cfg.Fixed) {length : ℕ} {states : ℕ → State T}
    (run : (spec cfg).Run length states) {i j : ℕ} (first : i < length) (second : j < length)
    (once : Cleans cfg (states i) (states (i + 1))) (again : Cleans cfg (states j) (states (j + 1))) : i = j := by
  refine run.once (fun s => s.cleaner ≠ none) ?_ ?_ ?_ first second once again
  · rintro s after reached ⟨t, member, label, -⟩
    exact not_not_intro ((ending wf fixed s reached).cleaning t member label).2.1
  · rintro s after ⟨t, -, -, rfl⟩
    simp
  · intro s after done next
    cases next with
    | @task t after member step =>
      by_cases cleaning : s.pc t = .pCleanup
      · cases step
        case putCleanup => simp
        all_goals exact absurd (cleaning.symm.trans ‹s.pc t = _›) (by decide)
      · rwa [(step.cleanup_eq cleaning).1]
    | flush member entry allowed => exact done
    | rcuFree on ended => exact done

end LinuxTla.MntPut
