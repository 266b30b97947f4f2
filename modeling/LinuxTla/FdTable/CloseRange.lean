import LinuxTla.FdTable.DupFd

/-! sys_close_range() meets what its flags mean, with the series and before it. -/

namespace LinuxTla.FdTable

open Lib

/-! ### The walk from one descriptor to the next -/

/-- What the walk stops at, wherever the range begins and ends without
CLOSE_RANGE_EXCEPT. -/
def Wanted (t : Table) (r : FdRange) (f : Flags) (d : ℕ) : Prop :=
  (t.slot d).opened = true ∧ (f.cloexecOnly = true → (t.slot d).cloexec = true) ∧
    (f.except = true → ¬ InRange r d)

instance (t : Table) (r : FdRange) (f : Flags) (d : ℕ) : Decidable (Wanted t r f d) :=
  inferInstanceAs (Decidable (_ ∧ (_ → _) ∧ (_ → _)))

theorem wanted_congr {s t : Table} {r : FdRange} {f : Flags} {d : ℕ} (same : s.slot d = t.slot d) :
    Wanted s r f d ↔ Wanted t r f d := by
  unfold Wanted
  rw [same]

theorem nextOpenFd_spec (t : Table) (fd maxFd : ℕ) (f : Flags) :
    (nextOpenFd t fd maxFd f = maxFd + 1 ∧ ∀ d, fd ≤ d → d ≤ maxFd →
      ¬((t.slot d).opened = true ∧ (f.cloexecOnly = true → (t.slot d).cloexec = true))) ∨
    ((fd ≤ nextOpenFd t fd maxFd f ∧ nextOpenFd t fd maxFd f ≤ maxFd ∧
      (t.slot (nextOpenFd t fd maxFd f)).opened = true ∧
      (f.cloexecOnly = true → (t.slot (nextOpenFd t fd maxFd f)).cloexec = true)) ∧
      ∀ d, fd ≤ d → d < nextOpenFd t fd maxFd f →
        ¬((t.slot d).opened = true ∧ (f.cloexecOnly = true → (t.slot d).cloexec = true))) := by
  have found := least_spec ((Finset.Icc fd maxFd).filter fun d =>
    (t.slot d).opened = true ∧ (f.cloexecOnly = true → (t.slot d).cloexec = true)) (maxFd + 1)
  change _ ∧ nextOpenFd t fd maxFd f = _ ∨ nextOpenFd t fd maxFd f ∈ _ ∧ ∀ x ∈ _, nextOpenFd t fd maxFd f ≤ x
    at found
  obtain ⟨nothing, result⟩ | ⟨hit, first⟩ := found
  · refine .inl ⟨result, fun d from' upto open' => ?_⟩
    have : d ∈ (∅ : Finset ℕ) := by
      rw [← nothing, Finset.mem_filter, Finset.mem_Icc]
      exact ⟨⟨from', upto⟩, open'⟩
    exact absurd this (Finset.notMem_empty d)
  · obtain ⟨bounds, opened, cloexec⟩ := Finset.mem_filter.1 hit
    obtain ⟨from', upto⟩ := Finset.mem_Icc.1 bounds
    refine .inr ⟨⟨from', upto, opened, cloexec⟩, fun d after before open' => ?_⟩
    have := first d (Finset.mem_filter.2 ⟨Finset.mem_Icc.2 ⟨after, by omega⟩, open'⟩)
    omega

/-- Either the walk is over and nothing wanted was left, or it stops at the next
wanted descriptor. The hop misses nothing: what lies between is in the window. -/
theorem nextFdToClose_spec (t : Table) (fd0 maxFd : ℕ) (r : FdRange) (f : Flags) :
    (nextFdToClose t fd0 maxFd r f = maxFd + 1 ∧ ∀ d, fd0 ≤ d → d ≤ maxFd → ¬ Wanted t r f d) ∨
    ((fd0 ≤ nextFdToClose t fd0 maxFd r f ∧ nextFdToClose t fd0 maxFd r f ≤ maxFd ∧
      Wanted t r f (nextFdToClose t fd0 maxFd r f)) ∧
      ∀ d, fd0 ≤ d → d < nextFdToClose t fd0 maxFd r f → ¬ Wanted t r f d) := by
  have first := nextOpenFd_spec t fd0 maxFd f
  have drop {d : ℕ} (wanted : Wanted t r f d) :
      (t.slot d).opened = true ∧ (f.cloexecOnly = true → (t.slot d).cloexec = true) :=
    ⟨wanted.1, wanted.2.1⟩
  unfold nextFdToClose
  simp only
  split
  next hop =>
    obtain ⟨except, inside⟩ := hop
    have window (d : ℕ) (low : nextOpenFd t fd0 maxFd f ≤ d) (high : d ≤ r.toFd) : ¬ Wanted t r f d :=
      fun wanted => wanted.2.2 except ⟨inside.1.trans low, high⟩
    have before (d : ℕ) (low : fd0 ≤ d) (high : d < nextOpenFd t fd0 maxFd f) (upto : d ≤ maxFd) :
        ¬ Wanted t r f d := by
      obtain ⟨-, none⟩ | ⟨-, none⟩ := first
      · exact fun wanted => none d low upto (drop wanted)
      · exact fun wanted => none d low high (drop wanted)
    split
    next covered =>
      refine .inl ⟨rfl, fun d low high => ?_⟩
      obtain earlier | later := Nat.lt_or_ge d (nextOpenFd t fd0 maxFd f)
      · exact before d low earlier high
      · exact window d later (high.trans covered)
    next ends =>
      have rest (d : ℕ) (low : fd0 ≤ d) (high : d < r.toFd + 1) (upto : d ≤ maxFd) : ¬ Wanted t r f d := by
        obtain earlier | later := Nat.lt_or_ge d (nextOpenFd t fd0 maxFd f)
        · exact before d low earlier upto
        · exact window d later (by omega)
      obtain ⟨result, none⟩ | ⟨⟨low, high, hit⟩, none⟩ := nextOpenFd_spec t (r.toFd + 1) maxFd f
      · refine .inl ⟨result, fun d from' upto => ?_⟩
        obtain earlier | later := Nat.lt_or_ge d (r.toFd + 1)
        · exact rest d from' earlier upto
        · exact fun wanted => none d later upto (drop wanted)
      · have start : fd0 ≤ nextOpenFd t fd0 maxFd f := by
          obtain ⟨result, -⟩ | ⟨⟨start, -⟩, -⟩ := first
          · have := inside.2
            omega
          · exact start
        refine .inr ⟨⟨?_, high, hit.1, hit.2, fun _ window => ?_⟩, fun d from' upto => ?_⟩
        · have := inside.2
          omega
        · have := window.2
          omega
        · obtain earlier | later := Nat.lt_or_ge d (r.toFd + 1)
          · exact rest d from' earlier (by omega)
          · exact fun wanted => none d later upto (drop wanted)
  next stay =>
    obtain ⟨result, none⟩ | ⟨⟨low, high, hit⟩, none⟩ := first
    · exact .inl ⟨result, fun d from' upto wanted => none d from' upto (drop wanted)⟩
    · exact .inr ⟨⟨low, high, hit.1, hit.2, fun except inside => stay ⟨except, inside⟩⟩,
        fun d from' upto wanted => none d from' upto (drop wanted)⟩

theorem le_nextFdToClose {t : Table} {fd0 maxFd : ℕ} {r : FdRange} {f : Flags}
    (more : nextFdToClose t fd0 maxFd r f ≤ maxFd) : fd0 ≤ nextFdToClose t fd0 maxFd r f := by
  obtain ⟨ended, -⟩ | ⟨⟨low, -⟩, -⟩ := nextFdToClose_spec t fd0 maxFd r f
  · omega
  · exact low

def rangeCloseLoop (t : Table) (fd0 maxFd : ℕ) (r : FdRange) (f : Flags) : Table :=
  if more : nextFdToClose t fd0 maxFd r f > maxFd then t
  else rangeCloseLoop (closeInstalled t (nextFdToClose t fd0 maxFd r f))
    (nextFdToClose t fd0 maxFd r f + 1) maxFd r f
termination_by maxFd + 1 - fd0
decreasing_by
  have := le_nextFdToClose (Nat.le_of_not_gt more)
  omega

def rangeClose (t : Table) (r : FdRange) (f : Flags) : Table :=
  if f.except = true then rangeCloseLoop t 0 (lastFd t) r f
  else rangeCloseLoop t r.fromFd (min r.toFd (lastFd t)) r f

/-! ### sys_close_range() and what it means -/

section Call

variable (W : ℕ) (dropInDupFd : Bool)

/-- The table the caller ends up with and, when it was unshared, what dup_fd()
was told to drop and the clone it made. -/
structure CloseResult where
  cur : Table
  unshared : Bool
  drop : Option FdRange
  clone : Option Clone

/-- sys_close_range() on table `t`; `shared` says whether files->count > 1. -/
def closeRange (t : Table) (r : FdRange) (f : Flags) (shared : Bool) : CloseResult :=
  if f.unshare = true ∧ shared = true then
    let drop := if f.cloexec = true then none else some r
    let clone := dupFd W dropInDupFd t drop f
    let cur :=
      if f.cloexec = true then rangeCloexec clone.table r f
      else if dropInDupFd = true then clone.table
      else rangeClose clone.table r f
    { cur := cur, unshared := true, drop := drop, clone := some clone }
  else
    { cur := if f.cloexec = true then rangeCloexec t r f else rangeClose t r f
      unshared := false, drop := none, clone := none }

end Call

/-- The descriptors the call acts on. -/
def Selected (t : Table) (r : FdRange) (f : Flags) (d : ℕ) : Prop :=
  (t.slot d).opened = true ∧ (if f.except = true then ¬ InRange r d else InRange r d) ∧
    (f.cloexecOnly = true → (t.slot d).cloexec = true)

instance (t : Table) (r : FdRange) (f : Flags) (d : ℕ) : Decidable (Selected t r f d) :=
  inferInstanceAs (Decidable (_ ∧ _ ∧ (_ → _)))

def privateCopy (t : Table) : Table :=
  { t with slot := fun d => if (t.slot d).file = true then t.slot d else Closed (t.slot d) }

/-- The table the caller ends up with. -/
def meaning (t : Table) (r : FdRange) (f : Flags) (shared : Bool) : Table :=
  let base := if f.unshare = true ∧ shared = true then privateCopy t else t
  if f.cloexec = true then
    { base with slot := fun d => if Selected base r f d then (base.slot d).mark else base.slot d }
  else
    { base with slot := fun d =>
        if Selected base r f d ∧ (base.slot d).file = true then Closed (base.slot d) else base.slot d }

/-- The close_on_exec bit of a closed slot is not observable, a slot beyond a
table is free. -/
def obs (t : Table) (d : ℕ) : Slot :=
  if d < t.maxFds ∧ (t.slot d).opened = true then t.slot d else Free

def SameTable (a b : Table) : Prop := ∀ d, d < a.maxFds ∨ d < b.maxFds → obs a d = obs b d

/-! ### What each path leaves in a slot -/

theorem rangeCloseLoop_maxFds (t : Table) (fd0 maxFd : ℕ) (r : FdRange) (f : Flags) :
    (rangeCloseLoop t fd0 maxFd r f).maxFds = t.maxFds := by
  fun_induction rangeCloseLoop t fd0 maxFd r f with
  | case1 => rfl
  | case2 t fd0 more ih => rw [ih, closeInstalled_maxFds]

theorem rangeCloseLoop_slot (t : Table) (fd0 maxFd : ℕ) (r : FdRange) (f : Flags) (d : ℕ) :
    (rangeCloseLoop t fd0 maxFd r f).slot d =
      if (fd0 ≤ d ∧ d ≤ maxFd) ∧ Wanted t r f d ∧ (t.slot d).file = true then Closed (t.slot d)
      else t.slot d := by
  fun_induction rangeCloseLoop t fd0 maxFd r f with
  | case1 t fd0 ended =>
    obtain ⟨-, none⟩ | ⟨⟨-, more, -⟩, -⟩ := nextFdToClose_spec t fd0 maxFd r f
    · rw [if_neg fun hit => none d hit.1.1 hit.1.2 hit.2.1]
    · omega
  | case2 t fd0 more ih =>
    obtain ⟨ended, -⟩ | ⟨⟨low, high, wanted⟩, skipped⟩ := nextFdToClose_spec t fd0 maxFd r f
    · omega
    generalize nextFdToClose t fd0 maxFd r f = fd at *
    obtain rfl | different := eq_or_ne d fd
    · rw [ih, if_neg (by omega), closeInstalled_self]
      exact if_congr (by tauto) rfl rfl
    · have same := closeInstalled_other t different
      rw [ih, same]
      refine if_congr ?_ rfl rfl
      rw [wanted_congr same]
      refine and_congr_left fun hit => ?_
      have : fd0 ≤ d → ¬ d < fd := fun start before => skipped d start before hit.1
      omega

theorem rangeClose_maxFds (t : Table) (r : FdRange) (f : Flags) :
    (rangeClose t r f).maxFds = t.maxFds := by
  unfold rangeClose
  split <;> exact rangeCloseLoop_maxFds ..

theorem selected_iff_wanted {t : Table} {r : FdRange} {f : Flags} {d : ℕ} :
    Selected t r f d ↔ Wanted t r f d ∧ (f.except = false → InRange r d) := by
  unfold Selected Wanted
  cases f.except <;> simp <;> tauto

theorem rangeClose_slot {t : Table} {d : ℕ} (inside : d < t.maxFds) (r : FdRange) (f : Flags) :
    (rangeClose t r f).slot d =
      if Selected t r f d ∧ (t.slot d).file = true then Closed (t.slot d) else t.slot d := by
  have bound : d ≤ lastFd t := by
    unfold lastFd
    omega
  have selected := @selected_iff_wanted t r f d
  unfold rangeClose
  split
  next except =>
    rw [rangeCloseLoop_slot]
    refine if_congr ?_ rfl rfl
    rw [selected, except]
    simp [bound]
  next only =>
    rw [rangeCloseLoop_slot]
    refine if_congr ?_ rfl rfl
    have plain : f.except = false := Bool.eq_false_iff.2 only
    rw [selected, plain]
    unfold InRange
    have : (r.fromFd ≤ d ∧ d ≤ min r.toFd (lastFd t)) ↔ (r.fromFd ≤ d ∧ d ≤ r.toFd) := by omega
    rw [this]
    tauto

/-- `__range_cloexec()` marks its two pieces, which are the range or what lies
outside it. -/
theorem rangeCloexec_slot {t : Table} {d : ℕ} (inside : d < t.maxFds) (r : FdRange) (f : Flags) :
    (rangeCloexec t r f).slot d =
      if (if f.except = true then ¬ InRange r d else InRange r d) then (t.slot d).mark
      else t.slot d := by
  have bound : d ≤ lastFd t := by
    unfold lastFd
    omega
  have ordered := r.ordered
  unfold rangeCloexec
  refine if_congr ?_ rfl rfl
  unfold InRange
  cases f.except with
  | false =>
    rw [if_pos rfl, if_neg Bool.false_ne_true]
    split
    · rw [Finset.mem_Icc]
      omega
    · constructor
      · exact fun none => absurd none (Finset.notMem_empty d)
      · omega
  | true =>
    rw [if_neg (by decide), if_pos rfl, Finset.mem_union]
    have low : (d ∈ if r.fromFd > 0 then Finset.Icc 0 (min (r.fromFd - 1) (lastFd t)) else ∅) ↔ d < r.fromFd := by
      split
      · rw [Finset.mem_Icc]
        omega
      · constructor
        · exact fun none => absurd none (Finset.notMem_empty d)
        · omega
    have high : (d ∈ if r.toFd < lastFd t then Finset.Icc (r.toFd + 1) (lastFd t) else ∅) ↔ r.toFd < d := by
      split
      · rw [Finset.mem_Icc]
        omega
      · constructor
        · exact fun none => absurd none (Finset.notMem_empty d)
        · omega
    rw [low, high]
    omega

/-! ### Observation -/

section Observe

variable {a b c t : Table} {d : ℕ}

theorem obs_eq_free (closed : d < t.maxFds → (t.slot d).opened = false) : obs t d = Free := by
  refine if_neg fun held => ?_
  exact Bool.false_ne_true ((closed held.1).symm.trans held.2)

theorem obs_congr (domain : d < a.maxFds ↔ d < b.maxFds)
    (opened : d < a.maxFds → (a.slot d).opened = (b.slot d).opened)
    (same : d < a.maxFds → (a.slot d).opened = true → a.slot d = b.slot d) : obs a d = obs b d := by
  obtain inside | beyond := Decidable.em (d < a.maxFds)
  · have opened := opened inside
    unfold obs
    split
    next held => rw [same inside held.2, if_pos ⟨domain.1 inside, opened ▸ held.2⟩]
    next closed => rw [if_neg fun held => closed ⟨inside, opened ▸ held.2⟩]
  · rw [obs_eq_free fun inside => absurd inside beyond,
      obs_eq_free fun inside => absurd (domain.2 inside) beyond]

theorem sameTable_iff : SameTable a b ↔ ∀ d, obs a d = obs b d := by
  refine ⟨fun same d => ?_, fun same d _ => same d⟩
  obtain inside | beyond := Decidable.em (d < a.maxFds ∨ d < b.maxFds)
  · exact same d inside
  · rw [obs_eq_free fun inside => absurd (.inl inside) beyond,
      obs_eq_free fun inside => absurd (.inr inside) beyond]

theorem SameTable.symm (same : SameTable a b) : SameTable b a :=
  sameTable_iff.2 fun d => (sameTable_iff.1 same d).symm

theorem SameTable.trans (first : SameTable a b) (second : SameTable b c) : SameTable a c :=
  sameTable_iff.2 fun d => (sameTable_iff.1 first d).trans (sameTable_iff.1 second d)

end Observe

/-! ### The paths meet the meaning -/

section Refines

variable {W : ℕ} {dropInDupFd : Bool} {t : Table} {r : FdRange} {f : Flags} {shared : Bool}

theorem selected_mark (valid : f.Valid) (cloexec : f.cloexec = true) (t : Table) (d : ℕ) :
    Selected t r f d ↔
      (t.slot d).opened = true ∧ (if f.except = true then ¬ InRange r d else InRange r d) := by
  have only : f.cloexecOnly ≠ true := fun only => valid ⟨cloexec, only⟩
  unfold Selected
  tauto

/-- In place, with the table not shared or no wish to unshare it. -/
theorem inPlace_refines (valid : f.Valid) (here : ¬(f.unshare = true ∧ shared = true)) :
    SameTable (closeRange W dropInDupFd t r f shared).cur (meaning t r f shared) := by
  unfold closeRange meaning
  simp only [if_neg here]
  refine sameTable_iff.2 fun d => ?_
  split
  next cloexec =>
    refine obs_congr Iff.rfl (fun inside => ?_) fun inside opened => ?_
    · simp only
      rw [rangeCloexec_slot (t := t) inside, Slot.marked_opened, Slot.marked_opened]
    · rw [rangeCloexec_slot (t := t) inside] at opened ⊢
      rw [Slot.marked_opened] at opened
      refine if_congr ?_ rfl rfl
      rw [selected_mark valid cloexec]
      exact (and_iff_right opened).symm
  next =>
    have domain := rangeClose_maxFds t r f
    refine obs_congr (by rw [domain]) (fun inside => ?_) fun inside _ => ?_
    · rw [domain] at inside
      rw [rangeClose_slot inside]
    · rw [domain] at inside
      rw [rangeClose_slot inside]

/-- What is seen at `d` after an unsharing call: installed descriptors that are
acted on are marked or gone, the others are as they were. -/
def outcome (t : Table) (r : FdRange) (f : Flags) (d : ℕ) : Slot :=
  if d < t.maxFds ∧ (t.slot d).file = true then
    if Selected t r f d then if f.cloexec = true then (t.slot d).mark else Free
    else t.slot d
  else Free

theorem selected_congr {a b : Table} {d : ℕ} (same : a.slot d = b.slot d) :
    Selected a r f d ↔ Selected b r f d := by
  unfold Selected
  rw [same]

theorem obs_open {d : ℕ} (inside : d < t.maxFds) (opened : (t.slot d).opened = true) :
    obs t d = t.slot d :=
  if_pos ⟨inside, opened⟩

theorem obs_meaning (away : f.unshare = true ∧ shared = true) (d : ℕ) :
    obs (meaning t r f shared) d = outcome t r f d := by
  unfold meaning outcome
  simp only [if_pos away]
  obtain ⟨inside, file⟩ | absent := Decidable.em (d < t.maxFds ∧ (t.slot d).file = true)
  · have opened := (t.slot d).installed file
    have same : (privateCopy t).slot d = t.slot d := if_pos file
    have selected := selected_congr (r := r) (f := f) same
    have held : d < t.maxFds ∧ (t.slot d).file = true := ⟨inside, file⟩
    rw [if_pos held]
    obtain cloexec | close := Decidable.em (f.cloexec = true)
    · rw [if_pos cloexec, if_pos cloexec, obs_open]
      · simp only [same, selected]
      · exact inside
      · simp only [same, Slot.marked_opened]
        exact opened
    · rw [if_neg close, if_neg close]
      obtain acted | left := Decidable.em (Selected t r f d)
      · rw [if_pos acted]
        refine obs_eq_free fun _ => ?_
        simp only [same, selected, acted, file, and_self, if_true, Closed_opened]
      · rw [if_neg left, obs_open]
        · simp only [same, selected, left, false_and, if_false]
        · exact inside
        · simp only [same, selected, left, false_and, if_false, opened]
  · have closed (inside : d < t.maxFds) : ((privateCopy t).slot d).opened = false := by
      unfold privateCopy
      simp only
      rw [if_neg fun file => absent ⟨inside, file⟩]
      rfl
    rw [if_neg absent]
    obtain cloexec | close := Decidable.em (f.cloexec = true)
    · rw [if_pos cloexec]
      refine obs_eq_free fun inside => ?_
      simp only [Slot.marked_opened]
      exact closed inside
    · rw [if_neg close]
      refine obs_eq_free fun inside => ?_
      simp only
      split
      · rfl
      · exact closed inside

/-! A clone shows what it keeps; the size reaches all of it. -/

theorem obs_clone (dropInDupFd : Bool) (drop : Option FdRange) (f : Flags) (d : ℕ) (whole : W ∣ t.maxFds) (room : 0 < t.maxFds)
    (before : dropInDupFd = false → ∀ range, drop = some range → ¬ InRange range d) :
    obs (dupFd W dropInDupFd t drop f).table d =
      if d < t.maxFds ∧ Keeps W dropInDupFd t d drop f then t.slot d else Free := by
  have positive : 0 < W := Nat.pos_of_dvd_of_pos whole room
  obtain ⟨k, size⟩ := whole
  have size : t.maxFds = k * W := by rw [size, Nat.mul_comm]
  have pieces : 0 < k := by
    rw [size] at room
    exact Nat.pos_of_mul_pos_right room
  have upto := dupFd_max_le dropInDupFd positive size pieces drop f
  split
  next held =>
    obtain ⟨inside, kept⟩ := held
    have slot : (dupFd W dropInDupFd t drop f).table.slot d = t.slot d := by
      rw [dupFd_slot, decide_eq_true kept]
      exact copySlot_installed kept.1
    have opened := (t.slot d).installed kept.1
    have reached := lt_dupFd_max positive size inside opened kept.2 before
    rw [obs_open reached (slot ▸ opened), slot]
  next absent =>
    refine obs_eq_free fun inside => ?_
    rw [dupFd_slot, copySlot_opened]
    exact decide_eq_false fun kept => absent ⟨Nat.lt_of_lt_of_le inside upto, kept⟩
theorem keeps_none {d : ℕ} : Keeps W dropInDupFd t d none f ↔ (t.slot d).file = true :=
  ⟨And.left, fun file => ⟨file, fun _ => not_dupFdDrops_none⟩⟩

theorem obs_rangeCloexec (t : Table) (r : FdRange) (f : Flags) (d : ℕ) :
    obs (rangeCloexec t r f) d =
      if (obs t d).opened = true ∧ (if f.except = true then ¬ InRange r d else InRange r d) then
        (obs t d).mark
      else obs t d := by
  obtain ⟨inside, opened⟩ | closed := Decidable.em (d < t.maxFds ∧ (t.slot d).opened = true)
  · have slot := rangeCloexec_slot inside r f
    rw [obs_open inside opened, obs_open (t := rangeCloexec t r f) inside, slot]
    · exact if_congr (and_iff_right opened).symm rfl rfl
    · rw [slot, Slot.marked_opened]
      exact opened
  · have free : obs t d = Free := if_neg closed
    rw [free, if_neg fun marked => Bool.false_ne_true marked.1]
    refine obs_eq_free fun inside => ?_
    rw [rangeCloexec_slot (t := t) inside, Slot.marked_opened]
    exact Bool.eq_false_iff.2 fun opened => closed ⟨inside, opened⟩

theorem obs_rangeClose (t : Table) (r : FdRange) (f : Flags) (d : ℕ) :
    obs (rangeClose t r f) d =
      if Selected t r f d ∧ (t.slot d).file = true then Free else obs t d := by
  have domain := rangeClose_maxFds t r f
  obtain inside | beyond := Nat.lt_or_ge d t.maxFds
  · have slot := rangeClose_slot inside r f
    split
    next hit =>
      refine obs_eq_free fun _ => ?_
      rw [slot, if_pos hit, Closed_opened]
    next left =>
      rw [if_neg left] at slot
      unfold obs
      rw [slot, domain]
  · have free : obs t d = Free := obs_eq_free fun inside => absurd inside (Nat.not_lt.2 beyond)
    rw [free, ite_self]
    refine obs_eq_free fun inside => ?_
    rw [domain] at inside
    exact absurd inside (Nat.not_lt.2 beyond)

theorem obs_marked (valid : f.Valid) (cloexec : f.cloexec = true) (whole : W ∣ t.maxFds)
    (room : 0 < t.maxFds) (d : ℕ) :
    obs (rangeCloexec (dupFd W dropInDupFd t none f).table r f) d = outcome t r f d := by
  have copy := obs_clone dropInDupFd none f d whole room fun _ _ same => nomatch same
  simp only [keeps_none] at copy
  rw [obs_rangeCloexec, copy]
  unfold outcome
  rw [if_pos cloexec]
  obtain held | absent := Decidable.em (d < t.maxFds ∧ (t.slot d).file = true)
  · rw [if_pos held, if_pos held]
    exact if_congr (selected_mark valid cloexec t d).symm rfl rfl
  · rw [if_neg absent, if_neg absent]
    exact if_neg fun marked => Bool.false_ne_true marked.1

/-- The series leaves behind what the call would close. -/
theorem obs_dropped (close : f.cloexec ≠ true) (whole : W ∣ t.maxFds) (room : 0 < t.maxFds) (d : ℕ) :
    obs (dupFd W true t (some r) f).table d = outcome t r f d := by
  have positive : 0 < W := Nat.pos_of_dvd_of_pos whole room
  rw [obs_clone true (some r) f d whole room nofun]
  unfold outcome
  rw [if_neg close]
  obtain held | absent := Decidable.em (d < t.maxFds ∧ (t.slot d).file = true)
  · rw [if_pos held]
    have opened := (t.slot d).installed held.2
    have drops : DupFdDrops W t d (some r) f ↔ Selected t r f d := by
      rw [dupFdDrops_some positive]
      exact (and_iff_right opened).symm
    obtain acted | left := Decidable.em (Selected t r f d)
    · rw [if_pos acted]
      exact if_neg fun kept => kept.2.2 rfl (drops.2 acted)
    · rw [if_neg left]
      exact if_pos ⟨held.1, held.2, fun _ dropped => left (drops.1 dropped)⟩
  · rw [if_neg absent]
    exact if_neg fun kept => absent ⟨kept.1, kept.2.1⟩

/-- Before the series everything the size covers is copied and the range closed
from the clone. -/
theorem obs_closed (old : f.Old) (close : f.cloexec ≠ true) (whole : W ∣ t.maxFds)
    (room : 0 < t.maxFds) (d : ℕ) :
    obs (rangeClose (dupFd W false t (some r) f).table r f) d = outcome t r f d := by
  obtain ⟨plain, every⟩ := old
  have select (s : Table) : Selected s r f d ↔ (s.slot d).opened = true ∧ InRange r d := by
    unfold Selected
    rw [plain, every]
    simp
  have keeps : Keeps W false t d (some r) f ↔ (t.slot d).file = true := ⟨And.left, fun file => ⟨file, nofun⟩⟩
  rw [obs_rangeClose]
  unfold outcome
  rw [if_neg close]
  obtain within | outside := Decidable.em (InRange r d)
  · have left : (if d < t.maxFds ∧ (t.slot d).file = true then if Selected t r f d then Free else t.slot d else Free) =
        Free := by
      split
      next held => exact if_pos ((select t).2 ⟨(t.slot d).installed held.2, within⟩)
      next => rfl
    rw [left]
    split
    next => rfl
    next kept =>
      refine obs_eq_free fun _ => ?_
      rw [dupFd_slot] at kept ⊢
      refine Bool.eq_false_iff.2 fun opened => kept ⟨(select _).2 ⟨?_, within⟩, opened⟩
      rw [dupFd_slot]
      exact opened
  · rw [if_neg fun hit => outside ((select _).1 hit.1).2,
      obs_clone false (some r) f d whole room fun _ _ same => Option.some.inj same ▸ outside]
    refine if_congr (and_congr_right fun _ => keeps) ?_ rfl
    exact (if_neg fun hit => outside ((select t).1 hit).2).symm

theorem unshared_refines (away : f.unshare = true ∧ shared = true) (valid : f.Valid)
    (old : dropInDupFd = false → f.Old) (whole : W ∣ t.maxFds) (room : 0 < t.maxFds) :
    SameTable (closeRange W dropInDupFd t r f shared).cur (meaning t r f shared) := by
  refine sameTable_iff.2 fun d => ?_
  rw [obs_meaning away]
  unfold closeRange
  simp only [if_pos away]
  obtain cloexec | close := Decidable.em (f.cloexec = true)
  · rw [if_pos cloexec, if_pos cloexec]
    exact obs_marked valid cloexec whole room d
  · rw [if_neg close, if_neg close]
    cases dropInDupFd with
    | true => exact obs_dropped close whole room d
    | false => exact obs_closed (old rfl) close whole room d

/-- Unshared or in place, close_range() ends with the table its flags mean. -/
theorem closeRange_meaning (dropInDupFd : Bool) (r : FdRange) (shared : Bool) (valid : f.Valid) (old : dropInDupFd = false → f.Old)
    (whole : W ∣ t.maxFds) (room : 0 < t.maxFds) :
    SameTable (closeRange W dropInDupFd t r f shared).cur (meaning t r f shared) := by
  obtain away | here := Decidable.em (f.unshare = true ∧ shared = true)
  · exact unshared_refines away valid old whole room
  · exact inPlace_refines valid here

theorem Flags.Old.valid (old : f.Old) : f.Valid :=
  fun both => Bool.false_ne_true (old.2.symm.trans both.2)

/-- `Refines` of `CloseRange.tla` for every table and range: the series for every
valid combination of flags, the code before it for the old ones, on which the two
agree. -/
theorem closeRange_refines (W : ℕ) (t : Table) (whole : W ∣ t.maxFds) (room : 0 < t.maxFds)
    (r : FdRange) (f : Flags) (shared : Bool) :
    (f.Valid → SameTable (closeRange W true t r f shared).cur (meaning t r f shared)) ∧
      (f.Old → SameTable (closeRange W false t r f shared).cur (meaning t r f shared)) ∧
      (f.Old → SameTable (closeRange W true t r f shared).cur (closeRange W false t r f shared).cur) := by
  have series (valid : f.Valid) := closeRange_meaning true r shared valid nofun whole room
  have before (old : f.Old) := closeRange_meaning false r shared old.valid (fun _ => old) whole
    room
  exact ⟨series, before, fun old => (series old.valid).trans (before old).symm⟩

/-- Two words of two: an installed, a claimed and a close-on-exec descriptor. -/
def smallTable : Table where
  maxFds := 4
  slot d :=
    if d = 0 then ⟨true, true, false, Slot.filed⟩
    else if d = 1 then ⟨true, false, false, Slot.bare⟩
    else if d = 3 then ⟨true, true, true, Slot.filed⟩
    else Free

def smallRange : FdRange := ⟨1, 5, by decide⟩

def smallFlags : Flags := ⟨true, false, false, false⟩

theorem small_refines :
    (2 ∣ smallTable.maxFds ∧ 0 < smallTable.maxFds) ∧ smallFlags.Valid ∧ smallFlags.Old ∧
      SameTable (closeRange 2 true smallTable smallRange smallFlags true).cur
        (closeRange 2 false smallTable smallRange smallFlags true).cur :=
  ⟨⟨by decide, by decide⟩, Flags.Old.valid ⟨rfl, rfl⟩, ⟨rfl, rfl⟩,
    (closeRange_refines 2 smallTable (by decide) (by decide) smallRange smallFlags true).2.2 ⟨rfl, rfl⟩⟩

end Refines

end LinuxTla.FdTable
