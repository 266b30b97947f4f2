import LinuxTla.MntPut.Buffer
import LinuxTla.Lib.Sums
import Mathlib.Order.Interval.Finset.Nat
import Mathlib.Algebra.BigOperators.Ring.Finset

/-! The ledger: what the counters show and what is still buffered add up to the
references. -/

namespace LinuxTla.MntPut

open Lib Lib.Fences

variable {T : Type} [DecidableEq T] {cfg : Config T} {s after : State T} {t u : T}

def Config.tasks (cfg : Config T) : Finset T := cfg.taskList.toFinset

def Config.cpus (cfg : Config T) : Finset ℕ := Finset.Icc 1 cfg.ncpu

/-- The sum of the counters as the other CPUs see them. -/
def Vis.count (cfg : Config T) (v : Vis T) : ℤ := ∑ c ∈ cfg.cpus, v.cntv c

/-- The store is to the counter of an existing CPU, if it is to a counter. -/
def Store.InRange (cfg : Config T) : Store T → Prop
  | .cnt c _ => c ∈ cfg.cpus
  | _ => True

omit [DecidableEq T] in
theorem BufferOk.inRange (ok : BufferOk cfg s t) : ∀ e ∈ s.buf t, e.InRange cfg := by
  intro e member
  have entry := ok.entries e member
  have cpu := ok.cpu
  cases e <;> simp_all [Store.InRange, EntryOk, Config.cpus]

omit [DecidableEq T] in
theorem BufferOk.inRange_putStores (ok : BufferOk cfg s t) : ∀ e ∈ putStores cfg s t, e.InRange cfg := by
  intro e member
  have cpu := ok.cpu
  simp only [putStores, List.mem_append, List.mem_singleton] at member
  rcases member with fence | rfl
  · cases on : cfg.fixPutWmb <;> simp_all [wmb, Store.InRange]
  · simpa [Store.InRange, Config.cpus] using cpu

omit [DecidableEq T] in
@[simp] theorem count_setM (v : Vis T) (m : Mount) : Vis.count cfg { v with m := m } = v.count cfg := rfl

omit [DecidableEq T] in
@[simp] theorem count_setLock (v : Vis T) (l : Option T) : Vis.count cfg { v with lockv := l } = v.count cfg := rfl

omit [DecidableEq T] in
theorem inRange_unlockStores : ∀ e ∈ s.unlockStores t, e.InRange cfg := by
  simp [State.unlockStores, Store.InRange]

omit [DecidableEq T] in
theorem count_apply {v : Vis T} {e : Store T} (range : e.InRange cfg) :
    (apply v e).count cfg = v.count cfg + e.d := by
  cases e with
  | cnt c d =>
    have change := Lib.sum_change (f := (apply v (.cnt c d)).cntv) (g := v.cntv) range
      fun j _ other => by simp [apply, other]
    have here : (apply v (.cnt c d)).cntv c = v.cntv c + d := by simp [apply]
    rw [here] at change
    unfold Vis.count
    rw [change]
    simp only [Store.d]
    omega
  | _ => simp [apply, Vis.count, Store.d]

omit [DecidableEq T] in
theorem count_applyAll {es : List (Store T)} {v : Vis T} (range : ∀ e ∈ es, e.InRange cfg) :
    (applyAll v es).count cfg = v.count cfg + net Store.d es := by
  induction es generalizing v with
  | nil => simp [applyAll]
  | cons e es ih =>
    rw [applyAll, ih fun e' member => range e' (by simp [member]), count_apply (range e (by simp)), net_cons]
    omega

omit [DecidableEq T] in
theorem count_applyTasks {ts : List T} {v : Vis T} (range : ∀ t ∈ ts, ∀ e ∈ s.buf t, e.InRange cfg) :
    (s.applyTasks v ts).count cfg = v.count cfg + (ts.map fun t => net Store.d (s.buf t)).sum := by
  induction ts generalizing v with
  | nil => simp [State.applyTasks]
  | cons t ts ih =>
    rw [State.applyTasks, ih fun t' member => range t' (by simp [member]), count_applyAll (range t (by simp)),
      List.map_cons, List.sum_cons]
    omega

theorem sum_tasks (wf : cfg.WellFormed) (f : T → ℤ) : (cfg.taskList.map f).sum = ∑ t ∈ cfg.tasks, f t :=
  (List.sum_toFinset f wf.nodup).symm

/-- The references on the books. -/
def owned (cfg : Config T) (s : State T) : ℤ := (if s.nsref then 1 else 0) + ∑ t ∈ cfg.tasks, s.refs t

/-- Visible counts, buffered counts and references. -/
def Balanced (cfg : Config T) (s : State T) : Prop :=
  s.vis.count cfg + ∑ t ∈ cfg.tasks, net Store.d (s.buf t) = owned cfg s

/-- A step that drains no other task's buffer moves what it changes between the
counters, its buffer and the references. -/
theorem Step.delta (step : Step cfg s t after) (control : Control cfg s) (ok : BufferOk cfg s t)
    (single : s.pc t ≠ .uNsUnlock) :
    after.vis.count cfg + net Store.d (after.buf t) - ((if after.nsref then 1 else 0) + after.refs t) =
      s.vis.count cfg + net Store.d (s.buf t) - ((if s.nsref then 1 else 0) + s.refs t) := by
  have drain : ∀ extra : List (Store T), (∀ e ∈ extra, e.InRange cfg) →
      ∑ c ∈ cfg.cpus, (applyAll s.vis (s.buf t ++ extra)).cntv c =
        ∑ c ∈ cfg.cpus, s.vis.cntv c + net Store.d (s.buf t) + net Store.d extra := by
    intro extra range
    have := count_applyAll (v := s.vis) (List.forall_mem_append.mpr ⟨ok.inRange, range⟩)
    simpa [Vis.count, add_assoc] using this
  have drainPut := drain _ ok.inRange_putStores
  have drainUnlock := drain _ (inRange_unlockStores (s := s) (t := t))
  have drainBoth := drain _ (List.forall_mem_append.mpr
    ⟨ok.inRange_putStores, inRange_unlockStores (s := s) (t := t)⟩)
  have drainOnly := drain [] (by simp)
  simp only [List.append_nil, net_nil, add_zero, net_append, net_putStores, net_unlockStores] at drainPut drainUnlock drainBoth drainOnly
  have held : (s.pc t).preDrop = true → t = cfg.umounter → s.nsput = true → s.nsref = true := by
    rintro before rfl put
    have own := control.umounter
    cases label : s.pc cfg.umounter <;> simp_all [UmounterAt, Label.preDrop]
  cases step
  case putFast label _ =>
    have := held (by simp [label, Label.preDrop])
    by_cases ns : t = cfg.umounter ∧ s.nsput = true <;> simp [ns, Vis.count, this] <;> omega
  case putFastWaited label _ =>
    have := held (by simp [label, Label.preDrop])
    by_cases ns : t = cfg.umounter ∧ s.nsput = true
    · obtain ⟨rfl, put⟩ := ns
      simp [put, Vis.count, this, drainPut]
      omega
    · simp [ns, Vis.count, drainPut]
      omega
  case putDec label =>
    have := held (by simp [label, Label.preDrop])
    by_cases ns : t = cfg.umounter ∧ s.nsput = true <;> simp [ns, Vis.count, this] <;> omega
  case uNsUnlock label _ _ => exact absurd label single
  all_goals simp [Vis.count, Store.d, drainUnlock, drainBoth, drainOnly]
  all_goals omega

theorem Step.balanced (wf : cfg.WellFormed) (member : t ∈ cfg.taskList) (step : Step cfg s t after)
    (control : Control cfg s) (buffer : Buffers cfg s) (ok : Balanced cfg s) : Balanced cfg after := by
  have listed : t ∈ cfg.tasks := by simpa [Config.tasks] using member
  unfold Balanced owned at ok ⊢
  by_cases single : s.pc t = .uNsUnlock
  · cases step
    case uNsUnlock umounter label drained delay =>
      have all := count_applyTasks (v := s.vis) fun u listed => (buffer u listed).inRange
      rw [sum_tasks wf] at all
      simp only [State.setPc_vis, State.drainedAll_vis, State.setPc_buf, State.drainedAll_buf, net_nil,
        Finset.sum_const_zero, State.setPc_nsref, State.drainedAll_nsref, State.setPc_refs, State.drainedAll_refs]
      omega
    case uNsUnlockNow => exact ok
    all_goals exact absurd (single.symm.trans ‹s.pc t = _›) (by decide)
  · have delta := step.delta control (buffer t member) single
    rw [Lib.sum_change (f := after.refs) (g := s.refs) listed fun u _ other => step.refs_other other,
      Lib.sum_change (f := fun u => net Store.d (after.buf u)) (g := fun u => net Store.d (s.buf u)) listed
        fun u _ other => by rw [step.buf_eq other single]]
    omega

theorem balanced_init (wf : cfg.WellFormed) : Balanced cfg (init cfg) := by
  have two := wf.ncpu
  have listed : cfg.umounter ∈ cfg.tasks := by simp [Config.tasks, wf.tasks]
  have count : (init cfg).vis.count cfg = 2 + cfg.holders.card := by
    have split : cfg.cpus = {1, 2} ∪ Finset.Icc 3 cfg.ncpu := by
      ext c; simp only [Config.cpus, Finset.mem_Icc, Finset.mem_union, Finset.mem_insert, Finset.mem_singleton]; omega
    have apart : Disjoint ({1, 2} : Finset ℕ) (Finset.Icc 3 cfg.ncpu) := by
      rw [Finset.disjoint_left]; intro c; simp only [Finset.mem_insert, Finset.mem_singleton, Finset.mem_Icc]; omega
    rw [Vis.count, split, Finset.sum_union apart, Finset.sum_pair (by decide)]
    have rest : ∑ c ∈ Finset.Icc 3 cfg.ncpu, (init cfg).vis.cntv c = 0 := by
      apply Finset.sum_eq_zero
      intro c inside
      have := (Finset.mem_Icc.mp inside).1
      have first : c ≠ 1 := by omega
      have second : c ≠ 2 := by omega
      simp [init, first, second]
    rw [rest]
    simp [init]
  have refs : ∑ t ∈ cfg.tasks, (init cfg).refs t = 1 + cfg.holders.card := by
    have holders : cfg.tasks.filter (fun t => t = cfg.umounter ∨ t ∈ cfg.holders) = insert cfg.umounter cfg.holders := by
      ext t
      simp only [Config.tasks, Finset.mem_filter, List.mem_toFinset, wf.tasks, Finset.mem_insert]
      tauto
    simp only [init]
    rw [Finset.sum_boole, holders, Finset.card_insert_of_notMem wf.umounter_holder]
    push_cast
    omega
  simp only [Balanced, owned, count, refs]
  simp [init]
  omega

theorem balanced (wf : cfg.WellFormed) (fixed : cfg.Fixed) : (spec cfg).Invariant (Balanced cfg) := by
  refine Lib.System.Invariant.relative ((control wf).and (buffers wf fixed)) ?_ ?_
  · rintro _ rfl
    exact balanced_init wf
  · intro s after known _ ok next
    cases next with
    | task member step => exact step.balanced wf member known.1 known.2 ok
    | @flush t i e member entry allowed =>
      obtain ⟨inside, same⟩ := List.getElem?_eq_some_iff.mp entry
      have listed : t ∈ cfg.tasks := by simpa [Config.tasks] using member
      have parts : s.buf t = (s.buf t).take i ++ e :: (s.buf t).drop (i + 1) := by
        rw [← same, List.cons_getElem_drop_succ, List.take_append_drop]
      have erased : net Store.d ((s.buf t).eraseIdx i) + e.d = net Store.d (s.buf t) := by
        rw [List.eraseIdx_eq_take_drop_succ]
        conv_rhs => rw [parts]
        simp only [net_append, net_cons]
        omega
      have range : e.InRange cfg := (known.2 t member).inRange e (List.mem_of_getElem? entry)
      unfold Balanced owned at ok ⊢
      rw [Lib.sum_change (f := fun u => net Store.d ((flush s t i e).buf u)) (g := fun u => net Store.d (s.buf u)) listed
        fun u _ other => by simp [other]]
      simp only [flush_vis, flush_buf, Function.update_self, flush_nsref, flush_refs, count_apply range]
      omega
    | rcuFree on ended => exact ok

omit [DecidableEq T] in
theorem sum_cpus (f : ℕ → ℤ) : ((List.range' 1 cfg.ncpu).map f).sum = ∑ c ∈ cfg.cpus, f c := by
  have same : cfg.cpus = (List.range' 1 cfg.ncpu).toFinset := by
    ext c; simp only [Config.cpus, Finset.mem_Icc, List.mem_toFinset, List.mem_range'_1]; omega
  rw [same, List.sum_toFinset f List.nodup_range']

omit [DecidableEq T] in
theorem sum_delta {b : List (Store T)} (range : ∀ e ∈ b, e.InRange cfg) :
    ∑ c ∈ cfg.cpus, (b.map (Store.delta c)).sum = net Store.d b := by
  induction b with
  | nil => simp
  | cons e b ih =>
    simp only [List.map_cons, List.sum_cons, Finset.sum_add_distrib, net_cons,
      ih fun e' member => range e' (by simp [member])]
    congr 1
    cases e with
    | cnt c d =>
      have here : c ∈ cfg.cpus := range (.cnt c d) (by simp)
      simp [Store.delta, Store.d, here]
    | _ => simp [Store.delta, Store.d]

theorem ledger_of_balanced (wf : cfg.WellFormed) (buffer : Buffers cfg s) (ok : Balanced cfg s) : Ledger cfg s := by
  unfold Ledger total
  simp only [sum_tasks wf, sum_cpus]
  have buffered : ∑ t ∈ cfg.tasks, ∑ c ∈ cfg.cpus, s.buffered t c = ∑ t ∈ cfg.tasks, net Store.d (s.buf t) :=
    Finset.sum_congr rfl fun t listed => sum_delta (buffer t (by simpa [Config.tasks] using listed)).inRange
  rw [buffered]
  exact ok

end LinuxTla.MntPut
