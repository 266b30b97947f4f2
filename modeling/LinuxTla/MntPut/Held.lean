import LinuxTla.MntPut.Sum
import LinuxTla.Lib.SplitCount
import Mathlib.Algebra.Order.BigOperators.Group.LocallyFinite

/-! The references that are not in a transient window, and how a sum under
mount_lock bounds them from above. -/

namespace LinuxTla.MntPut

open Lib Lib.Fences

variable {T : Type} {cfg : Config T} {s after : State T} {t u : T}

/-! ### The seqcount only grows -/

theorem LockEffect.seqv_le (effect : LockEffect s after t) (member : t ∈ cfg.taskList) (lock : Locking cfg s) :
    s.vis.seqv ≤ after.vis.seqv := by
  cases effect with
  | none _ _ _ seqv _ => omega
  | drain _ before _ seqv _ =>
    have notHeld : s.vis.lockv ≠ some t := fun holds => by simp [(lock.owner t member).mpr holds] at before
    rw [seqv, lock.others t member notHeld]
    rfl
  | take _ _ _ _ seqv _ => omega
  | release before _ _ seqv _ =>
    rw [seqv, seenSeq_eq]
    rcases lock.held t member ((lock.owner t member).mp before) with ⟨_, none⟩ | ⟨_, one⟩
    · simp [none]
    · simp only [one, List.foldl_cons, List.foldl_nil]; omega

theorem Locking.seqs_le (lock : Locking cfg s) (member : t ∈ cfg.taskList) : ∀ v ∈ seqs (s.buf t), v = s.vis.seqv + 1 := by
  intro v inside
  by_cases holds : s.vis.lockv = some t
  · rcases lock.held t member holds with ⟨_, none⟩ | ⟨_, one⟩
    · simp [none] at inside
    · simpa [one] using inside
  · simp [lock.others t member holds] at inside

variable [DecidableEq T]

theorem Step.seqv_le (wf : cfg.WellFormed) (fixed : cfg.Fixed) (member : t ∈ cfg.taskList) (step : Step cfg s t after)
    (control : Control cfg s) (buffer : Buffers cfg s) (lock : Locking cfg s) : s.vis.seqv ≤ after.vis.seqv := by
  by_cases single : s.pc t = .uNsUnlock
  · cases step
    case uNsUnlock =>
      have grow : ∀ (ts : List T) (v : Vis T), (∀ t ∈ ts, t ∈ cfg.taskList) → s.vis.seqv ≤ v.seqv →
          s.vis.seqv ≤ (s.applyTasks v ts).seqv := by
        intro ts
        induction ts with
        | nil => exact fun v _ le => le
        | cons t ts ih =>
          intro v listed le
          refine ih _ (fun t' inside => listed t' (by simp [inside])) ?_
          rw [seqv_applyAll]
          have all := lock.seqs_le (listed t (by simp))
          rcases seqs (s.buf t) |>.eq_nil_or_concat with none | ⟨rest, last, shape⟩
          · simpa [none] using le
          · rw [shape] at all ⊢
            have := all last (by simp)
            simp only [List.concat_eq_append, List.foldl_append, List.foldl_cons, List.foldl_nil]
            omega
      exact grow cfg.taskList s.vis (fun _ inside => inside) le_rfl
    case uNsUnlockNow _ _ _ delay => simp [fixed.rcuDelay] at delay
    all_goals exact absurd (single.symm.trans ‹s.pc t = _›) (by decide)
  · exact (step.lockEffect wf fixed member control (buffer t member) single).seqv_le member lock

theorem Locking.seqv_le_flush {i : ℕ} {e : Store T} (lock : Locking cfg s) (member : t ∈ cfg.taskList)
    (entry : (s.buf t)[i]? = some e) : s.vis.seqv ≤ (MntPut.flush s t i e).vis.seqv := by
  cases e with
  | seq v =>
    have := lock.seqs_le member v (List.mem_filterMap.mpr ⟨.seq v, List.mem_of_getElem? entry, rfl⟩)
    simp only [flush_vis, apply]
    omega
  | _ => exact le_rfl

def Label.sampled : Label → Bool
  | .wLookup | .wL1 | .wL2 | .wMb | .wL4 => true
  | _ => false

/-- read_seqbegin() took an even count that was current. -/
def Sampled (cfg : Config T) (s : State T) : Prop :=
  ∀ t ∈ cfg.walkers, (s.pc t).sampled = true → s.sq t % 2 = 0 ∧ s.sq t ≤ s.vis.seqv

theorem Step.sq_other (step : Step cfg s t after) (other : u ≠ t) : after.sq u = s.sq u := by
  cases step <;> simp [other]

theorem Step.sampled (wf : cfg.WellFormed) (fixed : cfg.Fixed) (member : t ∈ cfg.taskList) (step : Step cfg s t after)
    (control : Control cfg s) (buffer : Buffers cfg s) (lock : Locking cfg s) (ok : Sampled cfg s) :
    Sampled cfg after := by
  have grow := step.seqv_le wf fixed member control buffer lock
  intro u walker label
  by_cases same : u = t
  · subst same
    have old := ok u walker
    have notU : u ≠ cfg.umounter := fun same => wf.umounter_walker (same ▸ walker)
    have back := control.ret_cases wf member
    cases step
    case wStart _ _ even => simpa using even
    case putFast label' _ | putFastWaited label' _ | putCheckOther label' _ | putCleanup label' =>
      simp only [State.setPc_pc, Function.update_self] at label
      have := back (by simp [label', Label.preDrop, Label.postDrop])
      simp only [List.mem_cons, List.not_mem_nil, or_false] at this
      rcases this with back | back | back | back <;> simp [back, Label.sampled] at label
    all_goals first
      | exact absurd ‹u = cfg.umounter› notU
      | (simp [‹s.pc u = _›, Label.sampled] at label; done)
      | (have before := old (by simp [‹s.pc u = _›, Label.sampled])
         exact ⟨before.1, before.2.trans grow⟩)
  · rw [step.pc_other same] at label
    rw [step.sq_other same]
    exact ⟨(ok u walker label).1, (ok u walker label).2.trans grow⟩

/-! ### References outside the transient windows -/

/-- `t` holds a reference that it is not about to give back on its own. -/
def Settled (cfg : Config T) (s : State T) (t : T) : Prop :=
  1 ≤ s.refs t ∧ ¬ (t ∈ cfg.walkers ∧ s.pc t ∈ [Label.wMb, .wL4, .wLock, .wFlags])

instance (t : T) : Decidable (Settled cfg s t) := inferInstanceAs (Decidable (_ ∧ _))

/-- The namespace's reference and one for each task with settled ones. -/
def settledRefs (cfg : Config T) (s : State T) : ℤ :=
  (if s.nsref then 1 else 0) + ∑ t ∈ cfg.tasks, if Settled cfg s t then 1 else 0

theorem settledRefs_nonneg : 0 ≤ settledRefs cfg s := by
  unfold settledRefs
  have : 0 ≤ ∑ t ∈ cfg.tasks, if Settled cfg s t then (1 : ℤ) else 0 :=
    Finset.sum_nonneg fun t _ => by split <;> simp
  split <;> omega

theorem settledRefs_mono (ref : after.nsref = true → s.nsref = true)
    (held : ∀ t ∈ cfg.taskList, Settled cfg after t → Settled cfg s t) : settledRefs cfg after ≤ settledRefs cfg s := by
  have sums : (∑ t ∈ cfg.tasks, if Settled cfg after t then (1 : ℤ) else 0) ≤
      ∑ t ∈ cfg.tasks, if Settled cfg s t then (1 : ℤ) else 0 := by
    refine Finset.sum_le_sum fun t listed => ?_
    have := held t (by simpa [Config.tasks] using listed)
    split <;> split <;> simp_all
  unfold settledRefs
  split <;> split <;> simp_all
  omega

theorem Step.settled_other (step : Step cfg s t after) (other : u ≠ t) : Settled cfg after u ↔ Settled cfg s u := by
  simp only [Settled, step.pc_other other, step.refs_other other]

theorem Step.nsref_mono (step : Step cfg s t after) : after.nsref = true → s.nsref = true := by
  cases step <;> simp

/-- A walker that fails the second comparison and finds a flag gives its count
back; no other step makes a reference out of nothing. -/
theorem Step.settled_mono (fixed : cfg.Fixed) (wf : cfg.WellFormed) (step : Step cfg s t after) (control : Control cfg s)
    (retry : t ∈ cfg.walkers → s.pc t = .wL4 → s.vis.seqv ≠ s.sq t)
    (flag : t ∈ cfg.walkers → s.pc t = .wFlags → s.vis.m.sync = true ∨ s.vis.m.doomed = true) :
    Settled cfg after t → Settled cfg s t := by
  have syncFlag := fixed.syncFlag
  have doomedFlag := fixed.doomedFlag
  have own := control.walker t
  have back := control.ret_cases wf (t := t)
  cases step
  case wL4 walker label same => exact absurd same (retry walker label)
  case wFlagsPut walker label staying =>
    have := flag walker label
    simp_all
  case putFast label _ | putFastWaited label _ | putDec label =>
    rintro ⟨held, notTransient⟩
    refine ⟨?_, by simp [label]⟩
    simp only [State.setPc_refs, State.startSum_refs, State.rcuOut_refs, dropRef_refs, State.pushAll_refs, State.drained_refs] at held
    split at held
    · exact held
    · simp at held; omega
  case wFlagsDrop walker label going =>
    have := own walker
    simp_all [Settled, WalkerAt]
  case wL2 walker label => simp [Settled, walker]
  case wMb walker label _ | wL4Retry walker label _ | wLock walker label _ => simp [Settled, walker]
  case hGet holder label held _ =>
    rintro -
    exact ⟨held, by simp [label]⟩
  all_goals
    rintro ⟨held, _⟩
    exact ⟨by simpa using held, by simp [‹s.pc t = _›]⟩

/-! ### The sum -/

omit [DecidableEq T] in
theorem Control.refs_nonneg (control : Control cfg s) (wf : cfg.WellFormed) (member : t ∈ cfg.taskList) : 0 ≤ s.refs t := by
  rcases (wf.tasks t).mp member with rfl | walker | holder
  · have := control.umounter
    cases label : s.pc cfg.umounter <;> simp_all [UmounterAt]
    all_goals rcases this with ⟨_, held, _⟩ | ⟨_, held, _⟩ <;> omega
  · have := control.walker t walker
    cases label : s.pc t <;> simp_all [WalkerAt]
  · have := control.holder t holder
    cases label : s.pc t <;> simp_all [HolderAt] <;> omega

/-- What a task still has to publish never takes its share of the count below
its settled references. -/
theorem BufferOk.net_le (ok : BufferOk cfg s t) (wf : cfg.WellFormed) (control : Control cfg s)
    (member : t ∈ cfg.taskList) : net Store.d (s.buf t) + (if Settled cfg s t then 1 else 0) ≤ s.refs t := by
  have nonneg := control.refs_nonneg wf member
  have puts : t ∉ cfg.holders → (t ∈ cfg.walkers → s.pc t ≠ .wMb) → net Store.d (s.buf t) ≤ 0 := by
    intro notH notMb
    refine net_nonpos fun e inside => ?_
    have := ok.entries e inside
    cases e with
    | cnt c d =>
      rcases this.2 with rfl | ⟨rfl, holder | ⟨walker, label⟩⟩
      · simp [Store.d]
      · exact absurd holder notH
      · exact absurd label (notMb walker)
    | _ => exact le_rfl
  by_cases holder : t ∈ cfg.holders
  · have floor := ok.floor holder (s.buf t) (List.suffix_refl _)
    have notW : t ∉ cfg.walkers := fun walker => wf.disjoint t walker holder
    simpa [Settled, notW] using floor
  · by_cases early : t ∈ cfg.walkers ∧ s.pc t = .wMb
    · have held := control.walker t early.1
      simp only [early.2, WalkerAt] at held
      have transient : ¬ Settled cfg s t := by simp [Settled, early]
      rcases ok.single early.1 early.2 with none | one
      · simp [none, transient, held]
      · simp [one, transient, held, Store.d]
    · have := puts holder fun walker label => early ⟨walker, label⟩
      split
      · have := (‹Settled cfg s t›).1; omega
      · omega

omit [DecidableEq T] in
theorem bufferedGets_sub_puts {b : List (Store T)} (unit : ∀ e ∈ b, e.Unit) (c : ℕ) :
    (b.map (Store.gets c)).sum - (b.map (Store.puts c)).sum = (b.map (Store.delta c)).sum := by
  induction b with
  | nil => simp
  | cons e b ih =>
    have rest := ih fun e' member => unit e' (by simp [member])
    have first : e.gets c - e.puts c = e.delta c := by
      cases e with
      | cnt c' d =>
        rcases unit (.cnt c' d) (by simp) with rfl | rfl <;> by_cases same : c' = c <;>
          simp [Store.gets, Store.puts, Store.delta, same]
      | _ => rfl
    simp only [List.map_cons, List.sum_cons]
    omega

omit [DecidableEq T] in
/-- A task that read all counters at once would see what is visible and what it
has buffered itself. -/
theorem sum_seen (buffer : BufferOk cfg s t) :
    ∑ c ∈ cfg.cpus, s.seenGets t c - ∑ c ∈ cfg.cpus, s.seenPuts t c = s.vis.count cfg + net Store.d (s.buf t) := by
  rw [← sum_delta buffer.inRange, Vis.count, ← Finset.sum_sub_distrib, ← Finset.sum_add_distrib]
  refine Finset.sum_congr rfl fun c _ => ?_
  have := bufferedGets_sub_puts (fun e inside => (buffer.entries e inside).unit) c
  simp only [State.seenGets, State.seenPuts, State.bufferedGets, State.bufferedPuts]
  omega

/-- At any moment a task that read all counters at once would see at least the
settled references. -/
theorem settledRefs_le_seen (wf : cfg.WellFormed) (control : Control cfg s) (buffer : Buffers cfg s)
    (balance : Balanced cfg s) (member : t ∈ cfg.taskList) :
    settledRefs cfg s ≤ ∑ c ∈ cfg.cpus, s.seenGets t c - ∑ c ∈ cfg.cpus, s.seenPuts t c := by
  have listed : t ∈ cfg.tasks := by simpa [Config.tasks] using member
  have others : ∑ u ∈ cfg.tasks.erase t, net Store.d (s.buf u) + ∑ u ∈ cfg.tasks.erase t, (if Settled cfg s u then (1 : ℤ) else 0) ≤
      ∑ u ∈ cfg.tasks.erase t, s.refs u := by
    rw [← Finset.sum_add_distrib]
    refine Finset.sum_le_sum fun u inside => ?_
    have listed : u ∈ cfg.taskList := by simpa [Config.tasks] using Finset.mem_of_mem_erase inside
    exact (buffer u listed).net_le wf control listed
  have own : (if Settled cfg s t then (1 : ℤ) else 0) ≤ s.refs t := by
    have := control.refs_nonneg wf member
    split
    · exact (‹Settled cfg s t›).1
    · exact this
  have nets := Finset.add_sum_erase cfg.tasks (fun u => net Store.d (s.buf u)) listed
  have refs := Finset.add_sum_erase cfg.tasks s.refs listed
  have settled := Finset.add_sum_erase cfg.tasks (fun u => if Settled cfg s u then (1 : ℤ) else 0) listed
  rw [sum_seen (buffer t member)]
  unfold settledRefs
  unfold Balanced owned at balance
  omega

/-- The sum of `t` will come out at `bound` or above. -/
def Covers (cfg : Config T) (s : State T) (t : T) (bound : ℤ) : Prop :=
  SplitCount.AtLeast cfg.ncpu (s.seenPuts t) (s.seenGets t) bound (s.acc t) (s.ci t)

def SumOk (cfg : Config T) (s : State T) (t : T) : Prop :=
  match s.pc t with
  | .pSum | .uSum => Covers cfg s t (settledRefs cfg s)
  | .pCheck | .uBusy => settledRefs cfg s ≤ s.acc t
  | .uTree | .uUnlock => cfg.lazy = false → seqs (s.buf t) = [] ∧ settledRefs cfg s ≤ 2
  | _ => True

/-- The labels at which `SumOk` says something. -/
def Label.summing : Label → Bool
  | .pSum | .pCheck | .uSum | .uBusy | .uTree | .uUnlock => true
  | _ => false

theorem SumOk.of_label (label : (s.pc t).summing = false) : SumOk cfg s t := by
  unfold SumOk
  cases pc : s.pc t <;> simp_all [Label.summing]

omit [DecidableEq T] in
theorem Covers.mono {bound bound' : ℤ} (ok : Covers cfg s t bound) (acc : after.acc t = s.acc t) (ci : after.ci t = s.ci t)
    (fewer : bound' ≤ bound) (grow : ∀ c, s.seenPuts t c ≤ after.seenPuts t c ∧ s.seenGets t c ≤ after.seenGets t c) :
    Covers cfg after t bound' := by
  rw [Covers, acc, ci]
  exact SplitCount.AtLeast.mono ok fewer grow

theorem SumOk.mono (ok : SumOk cfg s t) (pc : after.pc t = s.pc t) (acc : after.acc t = s.acc t) (ci : after.ci t = s.ci t)
    (fewer : settledRefs cfg after ≤ settledRefs cfg s) (empty : seqs (s.buf t) = [] → seqs (after.buf t) = [])
    (grow : ∀ c, s.seenPuts t c ≤ after.seenPuts t c ∧ s.seenGets t c ≤ after.seenGets t c) : SumOk cfg after t := by
  unfold SumOk at ok ⊢
  rw [pc, acc]
  cases label : s.pc t <;> rw [label] at ok
  case pSum | uSum => exact Covers.mono ok acc ci fewer grow
  case pCheck | uBusy => exact fewer.trans ok
  case uTree | uUnlock => exact fun sync => ⟨empty (ok sync).1, fewer.trans (ok sync).2⟩
  all_goals trivial

omit [DecidableEq T] in
/-- The puts of every CPU first, then the gets. -/
theorem readCnt_fixed (fixed : cfg.Fixed) {i : ℕ} :
    readCnt cfg s t i = SplitCount.load cfg.ncpu (s.seenPuts t) (s.seenGets t) i := by
  unfold readCnt SplitCount.load
  by_cases pass : i ≤ cfg.ncpu <;> simp [fixed.splitCount, fixed.getsFirst, pass]

theorem Covers.read {bound : ℤ} (ok : Covers cfg s t bound) (fixed : cfg.Fixed) (more : s.ci t ≤ reads cfg)
    (seen : bound ≤ ∑ c ∈ cfg.cpus, s.seenGets t c - ∑ c ∈ cfg.cpus, s.seenPuts t c) :
    Covers cfg (sumRead cfg s t) t bound := by
  rw [reads, fixed.splitCount, if_pos rfl] at more
  rw [Covers, sumRead_acc, sumRead_ci, Function.update_self, Function.update_self, readCnt_fixed fixed]
  exact SplitCount.AtLeast.load ok more seen

theorem settledRefs_eq (ref : after.nsref = s.nsref) (held : ∀ u, Settled cfg after u ↔ Settled cfg s u) :
    settledRefs cfg after = settledRefs cfg s := by
  simp only [settledRefs, ref, held]

theorem Step.sumOk_own (wf : cfg.WellFormed) (fixed : cfg.Fixed) (member : t ∈ cfg.taskList) (step : Step cfg s t after)
    (control : Control cfg s) (buffer : Buffers cfg s) (balance : Balanced cfg s) (lock : Locking cfg s)
    (ok : SumOk cfg s t) : SumOk cfg after t := by
  have seen := settledRefs_le_seen wf control buffer balance member
  have back : (s.pc t).preDrop = true ∨ (s.pc t).postDrop = true → (s.ret t).summing = false := by
    intro putting
    have := control.ret_cases wf member putting
    simp only [List.mem_cons, List.not_mem_nil, or_false] at this
    rcases this with back | back | back | back <;> simp [back, Label.summing]
  have notWalker : t = cfg.umounter → t ∉ cfg.walkers := fun same walker => wf.umounter_walker (same ▸ walker)
  cases step
  case putDec label =>
    simp only [SumOk, State.setPc_pc, Function.update_self]
    have two := wf.ncpu
    simpa [Covers] using SplitCount.AtLeast.start (by omega)
  case uMb umounter label drained =>
    simp only [SumOk, State.setPc_pc, Function.update_self]
    have two := wf.ncpu
    simpa [Covers] using SplitCount.AtLeast.start (by omega)
  case putSum label more =>
    rw [SumOk, label] at ok
    simp only [SumOk, sumRead_pc, label]
    exact Covers.read ok fixed more seen
  case uSum umounter label more =>
    rw [SumOk, label] at ok
    simp only [SumOk, sumRead_pc, label]
    exact Covers.read ok fixed more seen
  case putSumEnd label ended =>
    rw [SumOk, label] at ok
    simp only [reads, fixed.splitCount, if_true] at ended
    have same : settledRefs cfg (s.setPc t .pCheck) = settledRefs cfg s := by
      refine settledRefs_eq rfl fun u => ?_
      by_cases mine : u = t
      · subst mine; simp [Settled, label]
      · simp [Settled, mine]
    have whole := SplitCount.AtLeast.finish ok ended
    simpa [SumOk, same] using whole
  case uSumEnd umounter label ended =>
    rw [SumOk, label] at ok
    simp only [reads, fixed.splitCount, if_true] at ended
    have same : settledRefs cfg (s.setPc t .uBusy) = settledRefs cfg s := by
      refine settledRefs_eq rfl fun u => ?_
      by_cases mine : u = t
      · subst mine; simp [Settled, label]
      · simp [Settled, mine]
    have whole := SplitCount.AtLeast.finish ok ended
    simpa [SumOk, same] using whole
  case uBusyNot umounter label idle =>
    rw [SumOk, label] at ok
    have same : settledRefs cfg (s.setPc t .uTree) = settledRefs cfg s := by
      refine settledRefs_eq rfl fun u => ?_
      by_cases mine : u = t
      · subst mine; simp [Settled, label]
      · simp [Settled, mine]
    simp only [SumOk, State.setPc_pc, Function.update_self, same]
    exact fun _ => ⟨lock.fenced t member (by simp [label, Label.fenced]), ok.trans idle⟩
  case uLockLazy umounter label _ lazy => simp [SumOk, lazy]
  case uTree umounter label =>
    rw [SumOk, label] at ok
    simp only [SumOk, State.setPc_pc, Function.update_self]
    intro sync
    refine ⟨by simp [(ok sync).1], ?_⟩
    refine (settledRefs_mono (by simp) fun u _ held => ?_).trans (ok sync).2
    refine ⟨held.1, fun transient => held.2 ⟨transient.1, ?_⟩⟩
    have other : u ≠ t := fun same => notWalker umounter (same ▸ transient.1)
    simpa [other] using transient.2
  case putFast label _ | putFastWaited label _ | putCleanup label | putCheckOther label _ =>
    exact .of_label (by simpa using back (by simp [label, Label.preDrop, Label.postDrop]))
  case hGet | hMigrate => exact .of_label (by simp [‹s.pc t = _›, Label.summing])
  all_goals exact .of_label (by simp [Label.summing])

theorem Step.acc_other (step : Step cfg s t after) (other : u ≠ t) : after.acc u = s.acc u ∧ after.ci u = s.ci u := by
  cases step <;> simp [other]

/-- While `u` sums or has just checked the sum it holds the lock, and everybody
sees its odd seqcount. -/
theorem SumOk.odd (ok : SumOk cfg s u) (lock : Locking cfg s) (listed : u ∈ cfg.taskList)
    (label : (s.pc u).summing = true) (sync : s.pc u = .uTree ∨ s.pc u = .uUnlock → cfg.lazy = false) :
    s.vis.seqv % 2 = 1 ∧ s.vis.lockv = some u := by
  have holds : s.vis.lockv = some u :=
    (lock.owner u listed).mp (by cases pc : s.pc u <;> simp_all [Label.summing, Label.inLock])
  have empty : seqs (s.buf u) = [] := by
    cases pc : s.pc u <;> simp only [pc, Label.summing, Bool.false_eq_true] at label
    case uTree | uUnlock =>
      rw [SumOk, pc] at ok
      exact (ok (sync (by simp [pc]))).1
    all_goals exact lock.fenced u listed (by simp [pc, Label.fenced])
  rcases lock.held u listed holds with ⟨odd, _⟩ | ⟨_, one⟩
  · exact ⟨odd, holds⟩
  · simp [empty] at one

/-- The settled references do not grow while somebody else sums. -/
theorem Step.settledRefs_le (wf : cfg.WellFormed) (fixed : cfg.Fixed) (member : t ∈ cfg.taskList) (step : Step cfg s t after)
    (control : Control cfg s) (lock : Locking cfg s) (sample : Sampled cfg s) (odd : s.vis.seqv % 2 = 1)
    (outside : s.vis.lockv ≠ some t) : settledRefs cfg after ≤ settledRefs cfg s := by
  refine settledRefs_mono step.nsref_mono fun u _ => ?_
  by_cases same : u = t
  · subst same
    refine step.settled_mono fixed wf control (fun walker label same => ?_) (fun _ label => ?_)
    · have := (sample u walker (by simp [label, Label.sampled])).1
      omega
    · exact absurd ((lock.owner u member).mp (by simp [label, Label.inLock])) outside
  · exact (step.settled_other same).mp

structure Summing (cfg : Config T) (s : State T) : Prop where
  sampled : Sampled cfg s
  sums : ∀ t ∈ cfg.taskList, SumOk cfg s t

theorem summing_init (wf : cfg.WellFormed) : Summing cfg (init cfg) where
  sampled t walker := by
    have notU : t ≠ cfg.umounter := fun same => wf.umounter_walker (same ▸ walker)
    simp [init, notU, walker, Label.sampled]
  sums t _ := .of_label (by
    simp only [init]
    split
    · rfl
    · split <;> rfl)

theorem Step.summing (wf : cfg.WellFormed) (fixed : cfg.Fixed) (member : t ∈ cfg.taskList) (step : Step cfg s t after)
    (control : Control cfg s) (buffer : Buffers cfg s) (balance : Balanced cfg s) (lock : Locking cfg s)
    (ok : Summing cfg s) : Summing cfg after where
  sampled := step.sampled wf fixed member control buffer lock ok.sampled
  sums u listed := by
    by_cases same : u = t
    · subst same
      exact step.sumOk_own wf fixed member control buffer balance lock (ok.sums u listed)
    · have old := ok.sums u listed
      have pc := step.pc_other same
      by_cases summing : (s.pc u).summing = true ∧ (s.pc u = .uTree ∨ s.pc u = .uUnlock → cfg.lazy = false)
      · obtain ⟨odd, holds⟩ := old.odd lock listed summing.1 summing.2
        have outside : s.vis.lockv ≠ some t := by simp [holds, same]
        obtain ⟨acc, ci⟩ := step.acc_other same
        refine old.mono pc acc ci (step.settledRefs_le wf fixed member control lock ok.sampled odd outside) ?_
          fun c => step.seen_le fixed member buffer listed c
        intro empty
        rcases step.buf_other same with kept | gone
        · rw [kept]; exact empty
        · simp [gone]
      · cases label : s.pc u <;> simp_all [SumOk, Label.summing]

theorem summing (wf : cfg.WellFormed) (fixed : cfg.Fixed) : (spec cfg).Invariant (Summing cfg) := by
  refine Lib.System.Invariant.relative
    (((control wf).and (buffers wf fixed)).and ((balanced wf fixed).and (locking wf fixed))) ?_ ?_
  · rintro _ rfl
    exact summing_init wf
  · intro s after known _ ok next
    obtain ⟨⟨control, buffer⟩, balance, lock⟩ := known
    cases next with
    | task member step => exact step.summing wf fixed member control buffer balance lock ok
    | @flush t i e member entry allowed =>
      refine ⟨fun u walker label => ?_, fun u listed => ?_⟩
      · have old := ok.sampled u walker label
        exact ⟨old.1, old.2.trans (lock.seqv_le_flush member entry)⟩
      · refine (ok.sums u listed).mono rfl rfl rfl le_rfl (fun empty => ?_)
          fun c => flush_seen (buffer t member) entry u c
        by_cases same : u = t
        · subst same; simpa using seqs_eraseIdx empty
        · simpa [same] using empty
    | rcuFree on ended =>
      exact ⟨ok.sampled, fun u listed => (ok.sums u listed).mono rfl rfl rfl le_rfl id fun _ => ⟨le_rfl, le_rfl⟩⟩

theorem Summing.noNegative (ok : Summing cfg s) : NoNegative cfg s := by
  intro t member label
  have sum := ok.sums t member
  rw [SumOk, label] at sum
  exact settledRefs_nonneg.trans sum

end LinuxTla.MntPut
