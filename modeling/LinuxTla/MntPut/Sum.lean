import LinuxTla.MntPut.Count
import LinuxTla.MntPut.Lock

/-! The split sum never comes out below the references held. Every put the first
pass counts has its get visible by the end of that pass, and under mount_lock no
task can start to hold one while the second pass runs. -/

namespace LinuxTla.MntPut

variable {T : Type} {cfg : Config T} {s after : State T} {t u : T}

/-! ### Loads only grow -/

/-- A store to a counter is one get or one put. -/
def Store.Unit : Store T → Prop
  | .cnt _ d => d = 1 ∨ d = -1
  | _ => True

theorem EntryOk.unit {e : Store T} (ok : EntryOk cfg s t e) : e.Unit := by
  cases e <;> simp_all [EntryOk, Store.Unit]
  tauto

theorem unit_putStores : ∀ e ∈ putStores cfg s t, e.Unit := by
  cases on : cfg.fixPutWmb <;> simp [putStores, wmb, on, Store.Unit]

theorem unit_unlockStores : ∀ e ∈ s.unlockStores t, e.Unit := by
  simp [State.unlockStores, Store.Unit]

theorem Store.puts_nonneg (c : ℕ) (e : Store T) : 0 ≤ e.puts c := by
  cases e <;> simp [Store.puts]
  split <;> simp

theorem Store.gets_nonneg (c : ℕ) (e : Store T) : 0 ≤ e.gets c := by
  cases e <;> simp [Store.gets]
  split <;> simp

theorem sum_puts_nonneg (c : ℕ) (b : List (Store T)) : 0 ≤ (b.map (Store.puts c)).sum :=
  List.sum_nonneg fun x member => by
    obtain ⟨e, _, rfl⟩ := List.mem_map.mp member
    exact e.puts_nonneg c

theorem sum_gets_nonneg (c : ℕ) (b : List (Store T)) : 0 ≤ (b.map (Store.gets c)).sum :=
  List.sum_nonneg fun x member => by
    obtain ⟨e, _, rfl⟩ := List.mem_map.mp member
    exact e.gets_nonneg c

theorem putv_apply (c : ℕ) (v : Vis T) (e : Store T) : (apply v e).putv c = v.putv c + e.puts c := by
  cases e <;> simp [apply, Store.puts]
  rename_i c' d
  by_cases same : c = c'
  · subst same; simp
  · simp [same, Ne.symm same]

theorem getv_apply (c : ℕ) (v : Vis T) {e : Store T} (unit : e.Unit) :
    (apply v e).cntv c + (apply v e).putv c = v.cntv c + v.putv c + e.gets c := by
  cases e <;> simp [apply, Store.gets]
  rename_i c' d
  by_cases same : c = c'
  · subst same
    rcases unit with rfl | rfl <;> simp <;> omega
  · simp [same, Ne.symm same]

theorem putv_applyAll (c : ℕ) (v : Vis T) (b : List (Store T)) :
    (applyAll v b).putv c = v.putv c + (b.map (Store.puts c)).sum := by
  induction b generalizing v with
  | nil => simp [applyAll]
  | cons e b ih => rw [applyAll, ih, putv_apply, List.map_cons, List.sum_cons]; omega

theorem getv_applyAll (c : ℕ) (v : Vis T) {b : List (Store T)} (unit : ∀ e ∈ b, e.Unit) :
    (applyAll v b).cntv c + (applyAll v b).putv c = v.cntv c + v.putv c + (b.map (Store.gets c)).sum := by
  induction b generalizing v with
  | nil => simp [applyAll]
  | cons e b ih =>
    rw [applyAll, ih _ fun e' member => unit e' (by simp [member]), getv_apply c v (unit e (by simp)), List.map_cons,
      List.sum_cons]
    omega

variable [DecidableEq T]

/-- What a step of `t` does to the counters and the buffers. -/
inductive Memory (s after : State T) (t : T) : Prop
  | push (es : List (Store T)) (cntv : after.vis.cntv = s.vis.cntv) (putv : after.vis.putv = s.vis.putv)
      (buf : after.buf = Function.update s.buf t (s.buf t ++ es))
  | drain (es : List (Store T)) (unit : ∀ e ∈ es, e.Unit)
      (cntv : after.vis.cntv = (applyAll s.vis (s.buf t ++ es)).cntv)
      (putv : after.vis.putv = (applyAll s.vis (s.buf t ++ es)).putv)
      (buf : after.buf = Function.update s.buf t [])

theorem Step.memory (step : Step cfg s t after) (single : s.pc t ≠ .uNsUnlock) : Memory s after t := by
  have both : ∀ e ∈ putStores cfg s t ++ s.unlockStores t, e.Unit :=
    List.forall_mem_append.mpr ⟨unit_putStores, unit_unlockStores⟩
  cases step
  case putFast | putDec => exact .push (putStores cfg s t) rfl rfl rfl
  case putFastWaited => exact .drain _ unit_putStores rfl rfl rfl
  case putLock | wLock | uLock | uLockLazy => exact .push [.seq (s.vis.seqv + 1), .wmb] rfl rfl rfl
  case putCheckOther | putCheckLast | wFlagsPut | uBusy | uUnlock => exact .drain _ unit_unlockStores rfl rfl rfl
  case wFlagsDrop => exact .drain _ both rfl rfl rfl
  case wUseWaited | hMigrate => exact .drain [] (by simp) rfl rfl rfl
  case wL2 | hGet => exact .push [.cnt (s.cpu t) 1] rfl rfl rfl
  case uTree => exact .push [.hashed false, .ns false] rfl rfl rfl
  case uNsUnlock label _ _ => exact absurd label single
  all_goals exact .push [] rfl rfl (by rw [List.append_nil, Function.update_eq_self]; rfl)

theorem Memory.seenPuts_le (memory : Memory s after t) (u : T) (c : ℕ) : s.seenPuts u c ≤ after.seenPuts u c := by
  unfold State.seenPuts State.bufferedPuts
  cases memory with
  | push es cntv putv buf =>
    rw [putv, buf]
    by_cases same : u = t
    · subst same
      have := sum_puts_nonneg c es
      simp only [Function.update_self, List.map_append, List.sum_append]
      omega
    · simp [same]
  | drain es unit cntv putv buf =>
    have own := sum_puts_nonneg c (s.buf t)
    have extra := sum_puts_nonneg c es
    rw [putv, buf, putv_applyAll, List.map_append, List.sum_append]
    by_cases same : u = t
    · subst same; simp; omega
    · simp [same]; omega

theorem Memory.seenGets_le (memory : Memory s after t) (buffer : BufferOk cfg s t) (u : T) (c : ℕ) :
    s.seenGets u c ≤ after.seenGets u c := by
  unfold State.seenGets State.bufferedGets
  cases memory with
  | push es cntv putv buf =>
    rw [putv, cntv, buf]
    by_cases same : u = t
    · subst same
      have := sum_gets_nonneg c es
      simp only [Function.update_self, List.map_append, List.sum_append]
      omega
    · simp [same]
  | drain es unit cntv putv buf =>
    have own := sum_gets_nonneg c (s.buf t)
    have extra := sum_gets_nonneg c es
    have units : ∀ e ∈ s.buf t ++ es, e.Unit :=
      List.forall_mem_append.mpr ⟨fun e member => (buffer.entries e member).unit, unit⟩
    rw [putv, cntv, buf, getv_applyAll c s.vis units, List.map_append, List.sum_append]
    by_cases same : u = t
    · subst same; simp; omega
    · simp [same]; omega

omit [DecidableEq T] in
theorem seen_applyTasks {ts : List T} {v : Vis T} (buffer : ∀ t ∈ ts, BufferOk cfg s t) (c : ℕ) :
    (s.applyTasks v ts).putv c = v.putv c + (ts.map fun t => s.bufferedPuts t c).sum ∧
      (s.applyTasks v ts).cntv c + (s.applyTasks v ts).putv c =
        v.cntv c + v.putv c + (ts.map fun t => s.bufferedGets t c).sum := by
  induction ts generalizing v with
  | nil => simp [State.applyTasks]
  | cons t ts ih =>
    obtain ⟨puts, gets⟩ := ih (v := applyAll v (s.buf t)) fun t' member => buffer t' (by simp [member])
    have units : ∀ e ∈ s.buf t, e.Unit := fun e member => ((buffer t (by simp)).entries e member).unit
    have putv := putv_applyAll c v (s.buf t)
    have getv := getv_applyAll c v units
    rw [State.applyTasks, gets, puts]
    simp only [State.bufferedPuts, State.bufferedGets, List.map_cons, List.sum_cons]
    omega

omit [DecidableEq T] in
theorem le_sum_tasks {f : T → ℤ} {ts : List T} (nonneg : ∀ t, 0 ≤ f t) (member : t ∈ ts) : f t ≤ (ts.map f).sum :=
  List.single_le_sum (by simpa using fun t _ => nonneg t) _ (List.mem_map_of_mem member)

theorem Step.seen_le (fixed : cfg.Fixed) (step : Step cfg s t after) (member : t ∈ cfg.taskList) (buffer : Buffers cfg s)
    (listed : u ∈ cfg.taskList) (c : ℕ) : s.seenPuts u c ≤ after.seenPuts u c ∧ s.seenGets u c ≤ after.seenGets u c := by
  by_cases single : s.pc t = .uNsUnlock
  · cases step
    case uNsUnlock =>
      obtain ⟨puts, gets⟩ := seen_applyTasks (v := s.vis) buffer c
      have ownPuts := le_sum_tasks (f := fun t => s.bufferedPuts t c) (fun t => sum_puts_nonneg c (s.buf t)) listed
      have ownGets := le_sum_tasks (f := fun t => s.bufferedGets t c) (fun t => sum_gets_nonneg c (s.buf t)) listed
      simp only [State.bufferedPuts, State.bufferedGets] at puts gets ownPuts ownGets
      simp only [State.seenPuts, State.seenGets, State.setPc_vis, State.drainedAll_vis, State.bufferedPuts,
        State.bufferedGets, State.setPc_buf, State.drainedAll_buf, List.map_nil, List.sum_nil, add_zero]
      constructor <;> omega
    case uNsUnlockNow _ _ _ delay => simp [fixed.rcuDelay] at delay
    all_goals exact absurd (single.symm.trans ‹s.pc t = _›) (by decide)
  · have memory := step.memory single
    exact ⟨memory.seenPuts_le u c, memory.seenGets_le (buffer t member) u c⟩

/-- A store that leaves a buffer was seen by its owner already. -/
theorem flush_seen_eq {i : ℕ} {e : Store T} (buffer : BufferOk cfg s t) (entry : (s.buf t)[i]? = some e) (u : T) (c : ℕ) :
    (flush s t i e).seenPuts u c = s.seenPuts u c + (if u = t then 0 else e.puts c) ∧
      (flush s t i e).seenGets u c = s.seenGets u c + (if u = t then 0 else e.gets c) := by
  have unit : e.Unit := (buffer.entries e (List.mem_of_getElem? entry)).unit
  obtain ⟨inside, same⟩ := List.getElem?_eq_some_iff.mp entry
  have parts : s.buf t = (s.buf t).take i ++ e :: (s.buf t).drop (i + 1) := by
    rw [← same, List.cons_getElem_drop_succ, List.take_append_drop]
  have split : ∀ f : Store T → ℤ, ((s.buf t).map f).sum = (((s.buf t).eraseIdx i).map f).sum + f e := by
    intro f
    rw [List.eraseIdx_eq_take_drop_succ]
    conv_lhs => rw [parts]
    simp only [List.map_append, List.map_cons, List.sum_append, List.sum_cons]
    omega
  have putv := putv_apply c s.vis e
  have getv := getv_apply c s.vis unit
  simp only [State.seenPuts, State.seenGets, State.bufferedPuts, State.bufferedGets, flush_vis, flush_buf]
  by_cases here : u = t
  · subst here
    simp only [Function.update_self, split (Store.puts c), split (Store.gets c), if_true]
    constructor <;> omega
  · simp only [Function.update_of_ne here, if_neg here]
    constructor <;> omega

theorem flush_seen {i : ℕ} {e : Store T} (buffer : BufferOk cfg s t) (entry : (s.buf t)[i]? = some e) (u : T) (c : ℕ) :
    s.seenPuts u c ≤ (flush s t i e).seenPuts u c ∧ s.seenGets u c ≤ (flush s t i e).seenGets u c := by
  obtain ⟨puts, gets⟩ := flush_seen_eq buffer entry u c
  have := e.puts_nonneg c
  have := e.gets_nonneg c
  rw [puts, gets]
  split <;> constructor <;> omega

end LinuxTla.MntPut
