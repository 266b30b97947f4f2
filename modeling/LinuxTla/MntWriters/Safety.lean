import LinuxTla.MntWriters.Model
import Mathlib.Tactic.Common
import Mathlib.Algebra.BigOperators.Option
import Mathlib.Algebra.BigOperators.Ring.Finset
import Mathlib.Logic.Relation

/-! Nobody writes on a mount that was made read-only. The holder's sum comes out as
zero only if no writer is past the spin on `WRITE_HOLD`, and every writer that
gets past it later finds the read-only marker. -/

namespace LinuxTla.MntWriters

variable {W : Type} {cfg : Config W} {s after : State W} {w u : W} {t : Task W}

/-! ### Frames -/

structure WriteFrame (s after : State W) (w : W) : Prop where
  vis : after.mem.vis = s.mem.vis
  pc : ∀ t, t ≠ writer w → after.pc t = s.pc t
  buf : ∀ t, t ≠ writer w → after.mem.buf t = s.mem.buf t
  acc : after.acc = s.acc
  ci : after.ci = s.ci
  result : after.result = s.result

variable [DecidableEq W]

theorem Write.frame (step : Write cfg s w after) : WriteFrame s after w := by
  cases step <;> constructor <;> intros <;> simp_all

theorem Hold.writers (step : Hold cfg s after) (w : W) :
    after.pc (writer w) = s.pc (writer w) ∧ after.mem.buf (writer w) = s.mem.buf (writer w) := by
  cases step <;> simp

/-! ### What the tasks have buffered -/

/-- A writer's increment is visible before it looks at `WRITE_HOLD`. -/
def WriterAt (l : Label) (c : ℕ) (b : List (Store W)) : Prop :=
  match l with
  | .wInc | .wSpin | .wCheck | .wActive => b = []
  | .wMb => b = [] ∨ b = [.cnt c 1]
  | .done => b = [] ∨ b = [.cnt c (-1)]
  | _ => False

/-- No read-only marker is visible. -/
def Vis.Writable (v : Vis W) : Prop := v.rov = false ∧ v.sbrov = false ∧ v.sbrdv = false

/-- A remount hands the marker from one flag to the other. -/
def Marked (v : Vis W) (b : List (Store W)) : Prop :=
  b = [.sbrd true, .sbro false] ∧ v.sbrov = true ∨ b = [.sbro false] ∧ v.sbrdv = true ∨
    b = [] ∧ (v.rov = true ∨ v.sbrdv = true)

def HolderAt (l : Label) (v : Vis W) (b : List (Store W)) (result : Result) : Prop :=
  match l with
  | .hLock => b = [] ∧ v.holdv = false ∧ v.Writable ∧ result = .none
  | .hHold => b = [] ∧ v.holdv = false ∧ v.lockv = some holder ∧ v.Writable ∧ result = .none
  | .hMb =>
    (b = [.hold true] ∧ v.holdv = false ∨ b = [] ∧ v.holdv = true) ∧ v.lockv = some holder ∧ v.Writable ∧ result = .none
  | .hSum | .hDecide => b = [] ∧ v.holdv = true ∧ v.lockv = some holder ∧ v.Writable ∧ result = .none
  | .hRemount => b = [] ∧ v.holdv = false ∧ v.sbrov = true ∧ result = .ok
  | .done => v.holdv = false ∧ (result = .busy ∧ b = [] ∧ v.Writable ∨ result = .ok ∧ Marked v b)
  | _ => False

structure Control (cfg : Config W) (s : State W) : Prop where
  writes : ∀ w ∈ cfg.writers, WriterAt (s.pc (writer w)) (cfg.wcpu w) (s.mem.buf (writer w))
  holds : HolderAt (s.pc holder) s.mem.vis (s.mem.buf holder) s.result

omit [DecidableEq W] in
theorem control_init : Control cfg init where
  writes _ _ := rfl
  holds := ⟨rfl, rfl, ⟨rfl, rfl, rfl⟩, rfl⟩

theorem Write.writerAt (fixed : cfg.Fixed) (step : Write cfg s w after)
    (ok : WriterAt (s.pc (writer w)) (cfg.wcpu w) (s.mem.buf (writer w))) :
    WriterAt (after.pc (writer w)) (cfg.wcpu w) (after.mem.buf (writer w)) := by
  have mb := fixed.mbGet
  cases step <;> simp_all [WriterAt]

theorem Hold.holderAt (fixed : cfg.Fixed) (step : Hold cfg s after)
    (ok : HolderAt (s.pc holder) s.mem.vis (s.mem.buf holder) s.result) :
    HolderAt (after.pc holder) after.mem.vis (after.mem.buf holder) after.result := by
  have mb := fixed.mbHold
  cases step <;> simp_all [HolderAt, Marked, Vis.Writable, apply]

omit [DecidableEq W] in
theorem WriterAt.pending {l : Label} {c : ℕ} {b : List (Store W)} (ok : WriterAt l c b) (pending : b ≠ []) :
    ∃ d, b = [.cnt c d] := by
  cases l <;> simp_all [WriterAt]

omit [DecidableEq W] in
theorem HolderAt.flush {l : Label} {v : Vis W} {e : Store W} {b : List (Store W)} {result : Result}
    (ok : HolderAt l v (e :: b) result) : HolderAt l (apply v e) b result := by
  cases l <;> simp only [HolderAt, Marked, reduceCtorEq, false_and, and_false, or_false, false_or, List.cons.injEq] at ok ⊢
  case hMb =>
    obtain ⟨⟨⟨rfl, rfl⟩, _⟩, lock, writable, pending⟩ := ok
    exact ⟨.inr ⟨rfl, rfl⟩, lock, writable, pending⟩
  case done =>
    obtain ⟨clear, done, (⟨⟨rfl, rfl⟩, _⟩ | ⟨⟨rfl, rfl⟩, marked⟩)⟩ := ok
    · exact ⟨clear, .inr ⟨done, .inr (.inl ⟨rfl, rfl⟩)⟩⟩
    · exact ⟨clear, .inr ⟨done, .inr (.inr ⟨rfl, .inr marked⟩)⟩⟩

omit [DecidableEq W] in
theorem HolderAt.setCnt {l : Label} {v : Vis W} {b : List (Store W)} {result : Result} (ok : HolderAt l v b result)
    (cntv : ℕ → ℤ) : HolderAt l { v with cntv := cntv } b result := by
  cases l <;> exact ok

theorem Control.flush (ok : Control cfg s) (member : t ∈ Finset.insertNone cfg.writers) (pending : s.mem.buf t ≠ []) :
    Control cfg { s with mem := s.mem.flush apply t } := by
  obtain ⟨e, rest, entry⟩ := List.exists_cons_of_ne_nil pending
  cases t with
  | none =>
    refine ⟨fun w listed => by simpa using ok.writes w listed, ?_⟩
    have own := ok.holds
    rw [entry] at own
    simpa [Lib.Memory.flush_vis entry, entry] using own.flush
  | some u =>
    have listed : u ∈ cfg.writers := Finset.some_mem_insertNone.mp member
    obtain ⟨d, alone⟩ := (ok.writes u listed).pending pending
    refine ⟨fun w listed => ?_, ?_⟩
    · by_cases same : w = u
      · subst same
        have own := ok.writes w listed
        cases label : s.pc (writer w) <;> simp_all [WriterAt]
      · simpa [same] using ok.writes w listed
    · simpa [Lib.Memory.flush_vis alone, apply] using ok.holds.setCnt _

theorem control (fixed : cfg.Fixed) : (spec cfg).Invariant (Control cfg) := by
  apply Lib.System.Invariant.of_step
  · rintro _ rfl
    exact control_init
  · intro s after ok next
    cases next with
    | @write w after member step =>
      have frame := step.frame
      refine ⟨fun u listed => ?_, ?_⟩
      · by_cases same : u = w
        · subst same; exact step.writerAt fixed (ok.writes u listed)
        · rw [frame.pc _ (by simpa using same), frame.buf _ (by simpa using same)]; exact ok.writes u listed
      · rw [frame.pc _ (by simp), frame.buf _ (by simp), frame.vis, frame.result]; exact ok.holds
    | hold step =>
      refine ⟨fun u listed => ?_, step.holderAt fixed ok.holds⟩
      rw [(step.writers u).1, (step.writers u).2]; exact ok.writes u listed
    | flush member pending => exact ok.flush member pending
    | settled all => exact ok

/-! ### The counts -/

abbrev Config.tasks (cfg : Config W) : Finset (Task W) := Finset.insertNone cfg.writers

/-- The count of CPU `c`, visible and buffered. -/
def countOf (cfg : Config W) (s : State W) (c : ℕ) : ℤ :=
  s.mem.total (fun v => v.cntv c) (Store.delta c) cfg.tasks

/-- A writer of CPU `c` between its increment and its decrement. -/
def Counts (cfg : Config W) (s : State W) (c : ℕ) (w : W) : Prop :=
  cfg.wcpu w = c ∧ (s.pc (writer w)).counted = true

instance (c : ℕ) (w : W) : Decidable (Counts cfg s c w) := inferInstanceAs (Decidable (_ ∧ _))

def Counted (cfg : Config W) (s : State W) : Prop :=
  ∀ c, countOf cfg s c = ∑ w ∈ cfg.writers, if Counts cfg s c w then 1 else 0

omit [DecidableEq W] in
theorem delta_additive (c : ℕ) (v : Vis W) (e : Store W) : (apply v e).cntv c = v.cntv c + e.delta c := by
  cases e with
  | cnt c' d =>
    by_cases same : c = c'
    · simp [apply, Store.delta, same]
    · simp [apply, Store.delta, same, Ne.symm same]
  | _ => simp [apply, Store.delta]

/-- A writer's step changes its CPU's count as it changes what the writer counts for. -/
theorem Write.counted (step : Write cfg s w after) (member : w ∈ cfg.writers) (c : ℕ) :
    countOf cfg after c - (if Counts cfg after c w then 1 else 0) =
      countOf cfg s c - if Counts cfg s c w then 1 else 0 := by
  have listed : writer w ∈ cfg.tasks := Finset.some_mem_insertNone.mpr member
  have push : ∀ es : List (Store W), (s.mem.push (writer w) es).total (fun v => v.cntv c) (Store.delta c) cfg.tasks =
      countOf cfg s c + (es.map (Store.delta c)).sum := fun es => Lib.Memory.total_push listed
  have inc := push [.cnt (cfg.wcpu w) 1]
  have dec := push [.cnt (cfg.wcpu w) (-1)]
  by_cases cpu : cfg.wcpu w = c
  all_goals
    cases step <;> simp_all [countOf, Counts, Store.delta, Label.counted, sub_eq_add_neg]

theorem Hold.counted (step : Hold cfg s after) (c : ℕ) : countOf cfg after c = countOf cfg s c := by
  have listed : holder ∈ cfg.tasks := Finset.none_mem_insertNone
  have push : ∀ es : List (Store W), (s.mem.push holder es).total (fun v => v.cntv c) (Store.delta c) cfg.tasks =
      countOf cfg s c + (es.map (Store.delta c)).sum := fun es => Lib.Memory.total_push listed
  have drain : ∀ es : List (Store W), (s.mem.drained apply holder es).total (fun v => v.cntv c) (Store.delta c) cfg.tasks =
      countOf cfg s c + (es.map (Store.delta c)).sum := fun es => Lib.Memory.total_drained (delta_additive c) listed
  cases step
  case hold => exact (push [.hold true]).trans (by simp [Store.delta])
  case remount => exact (push [.sbrd true, .sbro false]).trans (by simp [Store.delta])
  case decideBusy => exact (drain [.hold false, .lock none]).trans (by simp [Store.delta])
  case decideMnt => exact (drain [.ro true, .hold false, .lock none]).trans (by simp [Store.delta])
  case decideSb => exact (drain [.sbro true, .hold false, .lock none]).trans (by simp [Store.delta])
  all_goals rfl

theorem counted : (spec cfg).Invariant (Counted cfg) := by
  apply Lib.System.Invariant.of_step
  · rintro _ rfl c
    simp [countOf, Lib.Memory.total, init, Counts, Label.counted]
  · intro s after ok next c
    cases next with
    | @write w after member step =>
      have own := step.counted member c
      have others := Lib.sum_change (f := fun u => if Counts cfg after c u then (1 : ℤ) else 0)
        (g := fun u => if Counts cfg s c u then 1 else 0) member fun u _ other => by
          have pc := step.frame.pc (writer u) (by simpa using other)
          exact if_congr (by rw [Counts, Counts, pc]) rfl rfl
      have := ok c
      omega
    | @hold after step =>
      have same : ∀ w, Counts cfg after c w ↔ Counts cfg s c w := fun w => by simp only [Counts, (step.writers w).1]
      rw [step.counted c, ok c]
      simp only [same]
    | flush member pending => exact (Lib.Memory.total_flush (delta_additive c) member).trans (ok c)
    | settled all => exact ok c

omit [DecidableEq W] in
theorem counts_iff {c : ℕ} {l : Label} (label : s.pc (writer w) = l) :
    Counts cfg s c w ↔ cfg.wcpu w = c ∧ l.counted = true := by
  rw [Counts, label]

/-- What a writer has published of its count. -/
def shown (cfg : Config W) (s : State W) (c : ℕ) (w : W) : ℤ :=
  (if Counts cfg s c w then 1 else 0) - s.buffered (writer w) c

omit [DecidableEq W] in
theorem Control.holder_silent (control : Control cfg s) (c : ℕ) : s.buffered holder c = 0 := by
  have own := control.holds
  unfold State.buffered
  cases label : s.pc holder <;> simp only [label, HolderAt, Marked] at own
  case hMb => obtain ⟨⟨empty, _⟩ | ⟨empty, _⟩, _⟩ := own <;> simp [empty, Store.delta]
  case done =>
    obtain ⟨_, ⟨_, empty, _⟩ | ⟨_, ⟨empty, _⟩ | ⟨empty, _⟩ | ⟨empty, _⟩⟩⟩ := own <;> simp [empty, Store.delta]
  all_goals simp [own]

omit [DecidableEq W] in
theorem Counted.cntv_eq (ok : Counted cfg s) (control : Control cfg s) (c : ℕ) :
    s.mem.vis.cntv c = ∑ w ∈ cfg.writers, shown cfg s c w := by
  have total := ok c
  have silent := control.holder_silent c
  unfold State.buffered at silent
  simp only [countOf, Lib.Memory.total, Finset.sum_insertNone, silent] at total
  simp only [shown, State.buffered, Finset.sum_sub_distrib, writer]
  omega

omit [DecidableEq W] in
theorem Control.shown_nonneg (control : Control cfg s) (member : w ∈ cfg.writers) (c : ℕ) : 0 ≤ shown cfg s c w := by
  have own := control.writes w member
  unfold shown State.buffered
  cases label : s.pc (writer w) <;> simp only [label, WriterAt] at own <;> simp only [counts_iff label, Label.counted]
  case wMb => by_cases cpu : cfg.wcpu w = c <;> rcases own with empty | one <;> simp_all [Store.delta]
  case done => by_cases cpu : cfg.wcpu w = c <;> rcases own with empty | one <;> simp_all [Store.delta]
  all_goals
    rw [own]
    split <;> simp

/-! ### The handshake -/

/-- The labels between the spin and the decrement. -/
def Label.past : Label → Bool
  | .wCheck | .wActive => true
  | _ => false

omit [DecidableEq W] in
/-- A writer past the spin is seen by who reads its CPU's count. -/
theorem Control.shown_past (control : Control cfg s) (member : w ∈ cfg.writers) (past : (s.pc (writer w)).past = true) :
    shown cfg s (cfg.wcpu w) w = 1 := by
  have own := control.writes w member
  unfold shown State.buffered
  cases label : s.pc (writer w) <;> simp only [counts_iff label] <;> simp_all [WriterAt, Label.past, Label.counted]

/-- A sum of zero so far: no writer of the CPUs read is past the spin. -/
def SumOk (cfg : Config W) (s : State W) : Prop :=
  match s.pc holder with
  | .hSum => 0 ≤ s.acc ∧ (s.acc = 0 → ∀ w ∈ cfg.writers, (s.pc (writer w)).past = true → s.ci ≤ cfg.wcpu w)
  | .hDecide => 0 ≤ s.acc ∧ (s.acc = 0 → ∀ w ∈ cfg.writers, (s.pc (writer w)).past = false)
  | _ => True

structure Handshake (cfg : Config W) (s : State W) : Prop where
  sum : SumOk cfg s
  decided : s.result = .ok → ∀ w ∈ cfg.writers, s.pc (writer w) ≠ .wActive

theorem Write.past (step : Write cfg s w after) (hold : s.mem.vis.holdv = true)
    (past : (after.pc (writer u)).past = true) : (s.pc (writer u)).past = true := by
  by_cases same : u = w
  · subst same
    cases step <;> simp_all [Label.past]
  · rwa [step.frame.pc _ (by simpa using same)] at past

theorem Write.sumOk (step : Write cfg s w after) (control : Control cfg s) (ok : SumOk cfg s) : SumOk cfg after := by
  have frame := step.frame
  have own := control.holds
  unfold SumOk at ok ⊢
  rw [frame.pc holder (by simp), frame.acc, frame.ci]
  cases label : s.pc holder <;> simp only [label, HolderAt] at ok own ⊢
  case hSum => exact ⟨ok.1, fun zero u member past => ok.2 zero u member (step.past own.2.1 past)⟩
  case hDecide =>
    refine ⟨ok.1, fun zero u member => ?_⟩
    by_contra past
    have := step.past own.2.1 (by simpa using past)
    simp [ok.2 zero u member] at this

theorem Hold.sumOk (wf : cfg.WellFormed) (step : Hold cfg s after) (control : Control cfg s) (counted : Counted cfg s)
    (ok : SumOk cfg s) : SumOk cfg after := by
  have same := fun w => (step.writers w).1
  unfold SumOk at ok ⊢
  simp only [same]
  cases step
  case mb => simpa using fun w member _ => (wf.cpus w member).1
  case sum label more =>
    simp only [label] at ok ⊢
    have seen : s.seenCnt holder s.ci = ∑ w ∈ cfg.writers, shown cfg s s.ci w := by
      rw [State.seenCnt, control.holder_silent, add_zero, counted.cntv_eq control]
    have nonneg : ∀ w ∈ cfg.writers, 0 ≤ shown cfg s s.ci w := fun w member => control.shown_nonneg member _
    have := Finset.sum_nonneg nonneg
    refine ⟨by omega, fun zero w member past => ?_⟩
    have before := ok.2 (by omega) w member past
    by_contra later
    have here : cfg.wcpu w = s.ci := by omega
    have one := Finset.single_le_sum nonneg member
    rw [← here, control.shown_past member past, here] at one
    omega
  case sumEnd label ended =>
    simp only [label, State.setPc_pc, Function.update_self] at ok ⊢
    refine ⟨ok.1, fun zero w member => ?_⟩
    by_contra past
    have later := ok.2 zero w member (by simpa using past)
    have := (wf.cpus w member).2
    omega
  all_goals simp

omit [DecidableEq W] in
theorem Control.marked (control : Control cfg s) (fixed : cfg.Fixed) (ok : s.result = .ok) : s.Readonly cfg := by
  have own := control.holds
  unfold State.Readonly
  cases label : s.pc holder <;> simp only [label, HolderAt, Marked] at own <;> simp_all [fixed.sbro]
  tauto

theorem Write.decided (fixed : cfg.Fixed) (step : Write cfg s w after) (control : Control cfg s)
    (ok : s.result = .ok → ∀ u ∈ cfg.writers, s.pc (writer u) ≠ .wActive) (done : after.result = .ok) :
    ∀ u ∈ cfg.writers, after.pc (writer u) ≠ .wActive := by
  have frame := step.frame
  rw [frame.result] at done
  intro u member
  by_cases same : u = w
  · subst same
    have marked := control.marked fixed done
    have old := ok done u member
    cases step
    case check writable => exact absurd marked writable
    all_goals simp
  · rw [frame.pc _ (by simpa using same)]
    exact ok done u member

theorem Hold.decided (step : Hold cfg s after) (sum : SumOk cfg s)
    (ok : s.result = .ok → ∀ u ∈ cfg.writers, s.pc (writer u) ≠ .wActive) (done : after.result = .ok) :
    ∀ u ∈ cfg.writers, after.pc (writer u) ≠ .wActive := by
  intro u member
  rw [(step.writers u).1]
  by_cases decided : s.result = .ok
  · exact ok decided u member
  · cases step
    case decideMnt label idle _ | decideSb label idle _ =>
      simp only [SumOk, label] at sum
      have := sum.2 (by omega) u member
      rintro active
      simp [active, Label.past] at this
    all_goals simp_all

theorem handshake (wf : cfg.WellFormed) (fixed : cfg.Fixed) : (spec cfg).Invariant (Handshake cfg) := by
  refine Lib.System.Invariant.relative ((control fixed).and counted) ?_ ?_
  · rintro _ rfl
    exact ⟨trivial, by simp [init]⟩
  · intro s after ⟨control, counted⟩ _ ok next
    cases next with
    | write member step => exact ⟨step.sumOk control ok.sum, step.decided fixed control ok.decided⟩
    | hold step => exact ⟨step.sumOk wf control counted ok.sum, step.decided ok.sum ok.decided⟩
    | flush member pending => exact ⟨ok.sum, ok.decided⟩
    | settled all => exact ok

/-! ### What is checked -/

omit [DecidableEq W] in
theorem Handshake.active (ok : Handshake cfg s) (done : s.result = .ok) : Active cfg s = ∅ :=
  Finset.filter_eq_empty_iff.mpr fun w member => ok.decided done w member

omit [DecidableEq W] in
theorem Control.result_of_marked (control : Control cfg s)
    (marked : s.mem.vis.rov = true ∨ s.mem.vis.sbrov = true ∨ s.mem.vis.sbrdv = true) : s.result = .ok := by
  have own := control.holds
  cases label : s.pc holder <;> simp only [label, HolderAt, Vis.Writable] at own
  case done =>
    obtain ⟨_, ⟨_, _, writable⟩ | ⟨done, _⟩⟩ := own
    · simp [writable] at marked
    · exact done
  all_goals simp_all

omit [DecidableEq W] in
theorem Control.holdUnderLock (control : Control cfg s) : HoldUnderLock s := by
  intro hold
  have own := control.holds
  cases label : s.pc holder <;> simp only [label, HolderAt] at own <;> simp_all

omit [DecidableEq W] in
/-- Summed over the CPUs, each writer counts once. -/
theorem Counted.ledger (ok : Counted cfg s) (wf : cfg.WellFormed) (control : Control cfg s) : Ledger cfg s := by
  have cntv : ∑ c ∈ Finset.Icc 1 cfg.ncpu, s.mem.vis.cntv c =
      ∑ w ∈ cfg.writers, ∑ c ∈ Finset.Icc 1 cfg.ncpu, shown cfg s c w := by
    rw [Finset.sum_comm]
    exact Finset.sum_congr rfl fun c _ => ok.cntv_eq control c
  have once : ∀ w ∈ cfg.writers, ∑ c ∈ Finset.Icc 1 cfg.ncpu, (if Counts cfg s c w then (1 : ℤ) else 0) =
      if (s.pc (writer w)).counted then 1 else 0 := by
    intro w member
    by_cases counts : (s.pc (writer w)).counted = true
    · simpa [Counts, counts] using wf.cpus w member
    · simp [Counts, counts]
  simp only [shown, Finset.sum_sub_distrib] at cntv
  rw [Ledger, cntv, Finset.sum_congr rfl once, Finset.sum_boole]
  omega

theorem result_stays (step : Next cfg s after) (done : s.result = .ok) (control : Control cfg s) : after.result = .ok := by
  cases step with
  | write member step => exact step.frame.result.trans done
  | hold step =>
    have own := control.holds
    cases step <;> simp_all [HolderAt]
  | flush member pending => exact done
  | settled all => exact done

/-- Nobody writes on a mount that was made read-only. -/
theorem readonly_safe (wf : cfg.WellFormed) (fixed : cfg.Fixed) : (spec cfg).Invariant fun s =>
    ReadOnlyOK cfg s ∧
      (s.result = .ok → ∀ after, Relation.ReflTransGen (Next cfg) s after → Active cfg after = ∅) ∧
      HoldUnderLock s ∧ Ledger cfg s := by
  intro s reached
  have known := control fixed s reached
  refine ⟨fun marked => (handshake wf fixed s reached).active (known.result_of_marked marked), fun done after run => ?_,
    known.holdUnderLock, (counted s reached).ledger wf known⟩
  have later : (spec cfg).Reachable after ∧ after.result = .ok := by
    induction run with
    | refl => exact ⟨reached, done⟩
    | tail _ step ih => exact ⟨ih.1.next step, result_stays step ih.2 (control fixed _ ih.1)⟩
  exact (handshake wf fixed after later.1).active later.2

section Small

/-- Two writers share a CPU. -/
def small : Config (Fin 2) where
  writers := {0, 1}
  wcpu _ := 1
  ncpu := 1
  hmode := .sb
  fixMbGet := true
  fixMbHold := true
  fixSbro := true

/-- The holder decides before a writer has started. -/
theorem small_remounting : ∃ s, (spec small).Reachable s ∧ s.result = .ok := by
  have start : (spec small).Reachable init := .init rfl
  have run := start.next (.hold (.lock rfl rfl rfl))
  have run := run.next (.hold (.hold rfl))
  have run := run.next (.flush (t := holder) (by decide) (List.cons_ne_nil _ _))
  have run := run.next (.hold (.mb rfl fun _ => rfl))
  have run := run.next (.hold (.sum rfl (by decide)))
  have run := run.next (.hold (.sumEnd rfl (by decide)))
  have run := run.next (.hold (.decideSb rfl (by decide) (by decide)))
  exact ⟨_, run, rfl⟩

theorem small_readonly : ∃ s, s.result = .ok ∧ ReadOnlyOK small s ∧
    (s.result = .ok → ∀ after, Relation.ReflTransGen (Next small) s after → Active small after = ∅) ∧
      HoldUnderLock s ∧ Ledger small s := by
  obtain ⟨s, reached, done⟩ := small_remounting
  exact ⟨s, done, readonly_safe ⟨by decide⟩ ⟨rfl, rfl, rfl⟩ s reached⟩

end Small

end LinuxTla.MntWriters
