import LinuxTla.FdTable.Basic

/-! What dup_fd() leaves behind, bit by bit, and how far its copy reaches. -/

namespace LinuxTla.FdTable

open Lib

section Words

variable {W : ℕ} {t : Table} {d : ℕ} {f : Flags}

theorem mem_fdRangeWord {b : ℕ} (bit : b < W) (r : FdRange) (i : ℕ) :
    b ∈ fdRangeWord W r i ↔ InRange r (i * W + b) := by
  unfold fdRangeWord InRange
  simp only
  split
  · constructor
    · exact fun none => absurd none (Finset.notMem_empty b)
    · omega
  · rw [Finset.mem_Icc]
    have := r.ordered
    omega

theorem dupFdDrops_some (positive : 0 < W) {r : FdRange} :
    DupFdDrops W t d (some r) f ↔
      (if f.except = true then ¬ InRange r d else InRange r d) ∧
        (f.cloexecOnly = true → (t.slot d).cloexec = true) := by
  have bit : d % W < W := Nat.mod_lt d positive
  have back : d / W * W + d % W = d := Nat.div_add_mod' d W
  have base := mem_fdRangeWord bit r (d / W)
  rw [back] at base
  unfold DupFdDrops dupFdDroppedWord wordBits
  cases f.except <;> cases f.cloexecOnly <;> simp [base, bit, back]

theorem not_dupFdDrops_none : ¬ DupFdDrops W t d none f :=
  Finset.notMem_empty _

theorem mem_openBits (positive : 0 < W) (opened : (t.slot d).opened = true) :
    d % W ∈ openBits W t (d / W) := by
  refine Finset.mem_filter.2 ⟨Finset.mem_range.2 (Nat.mod_lt d positive), ?_⟩
  rw [Nat.div_add_mod' d W]
  exact opened

/-- A multiple of the word size lies beyond `d` when it reaches past `d`'s word. -/
theorem lt_of_div_le {k : ℕ} (positive : 0 < W) (word : d / W ≤ k) : d < (k + 1) * W :=
  (Nat.div_lt_iff_lt_mul positive).1 (Nat.lt_succ_of_le word)

theorem le_align (positive : 0 < W) (x : ℕ) : x ≤ align W x := by
  have := Nat.div_add_mod' (x + W - 1) W
  have := Nat.mod_lt (x + W - 1) positive
  unfold align
  omega

theorem align_le (positive : 0 < W) {x k : ℕ} (bound : x ≤ k * W) : align W x ≤ k * W := by
  refine Nat.mul_le_mul_right W (Nat.lt_succ_iff.1 ((Nat.div_lt_iff_lt_mul positive).2 ?_))
  rw [Nat.succ_mul]
  omega

/-! ### The size of the series -/

theorem saneFdtableSizeNew_le {k : ℕ} (positive : 0 < W) (whole : t.maxFds = k * W) (room : 0 < k)
    (r : Option FdRange) (f : Flags) : saneFdtableSizeNew W t r f ≤ t.maxFds := by
  have word : W ≤ k * W := Nat.le_mul_of_pos_left W room
  unfold saneFdtableSizeNew
  simp only
  split
  next => omega
  next some =>
    obtain ⟨nothing, -⟩ | ⟨inside, -⟩ := greatest_spec
      ((words W t).filter fun i => openBits W t i \ dupFdDroppedWord W t i r f ≠ ∅) 0
    · exact absurd nothing some
    · have last := Finset.mem_range.1 (Finset.mem_filter.1 inside).1
      rw [whole, Nat.mul_div_cancel k positive] at last
      rw [whole]
      exact Nat.mul_le_mul_right W last

/-- An open descriptor that is carried over lies within the copy. -/
theorem lt_saneFdtableSizeNew {k : ℕ} {r : Option FdRange} (positive : 0 < W)
    (whole : t.maxFds = k * W) (inside : d < t.maxFds) (opened : (t.slot d).opened = true)
    (carried : ¬ DupFdDrops W t d r f) : d < saneFdtableSizeNew W t r f := by
  have kept : d / W ∈ (words W t).filter fun i => openBits W t i \ dupFdDroppedWord W t i r f ≠ ∅ := by
    refine Finset.mem_filter.2 ⟨Finset.mem_range.2 ?_, Finset.ne_empty_of_mem (a := d % W) ?_⟩
    · rw [whole, Nat.mul_div_cancel k positive]
      exact (Nat.div_lt_iff_lt_mul positive).2 (whole ▸ inside)
    · exact Finset.mem_sdiff.2 ⟨mem_openBits positive opened, carried⟩
  unfold saneFdtableSizeNew
  simp only
  rw [if_neg (Finset.ne_empty_of_mem kept)]
  obtain ⟨nothing, -⟩ | ⟨-, above⟩ := greatest_spec
    ((words W t).filter fun i => openBits W t i \ dupFdDroppedWord W t i r f ≠ ∅) 0
  · exact absurd nothing (Finset.ne_empty_of_mem kept)
  · exact lt_of_div_le positive (above _ kept)

/-! ### The size before the series -/

theorem findLastBit_spec (t : Table) (size : ℕ) :
    (findLastBit t size = size ∧ ∀ d < size, (t.slot d).opened = false) ∨
      findLastBit t size < size ∧ ∀ d < size, (t.slot d).opened = true → d ≤ findLastBit t size := by
  have mem {d : ℕ} : d ∈ (Finset.range size).filter (fun d => (t.slot d).opened = true) ↔
      d < size ∧ (t.slot d).opened = true := by
    rw [Finset.mem_filter, Finset.mem_range]
  obtain ⟨nothing, result⟩ | ⟨hit, last⟩ := greatest_spec
    ((Finset.range size).filter fun d => (t.slot d).opened = true) size
  · refine .inl ⟨result, fun d inside => Bool.eq_false_iff.2 fun opened => ?_⟩
    exact Finset.ne_empty_of_mem (mem.2 ⟨inside, opened⟩) nothing
  · exact .inr ⟨(mem.1 hit).1, fun d inside opened => last d (mem.2 ⟨inside, opened⟩)⟩

theorem saneFdtableSizeOld_le {k : ℕ} (positive : 0 < W) (whole : t.maxFds = k * W) (room : 0 < k)
    (r : Option FdRange) : saneFdtableSizeOld W t r ≤ t.maxFds := by
  have word : W ≤ k * W := Nat.le_mul_of_pos_left W room
  have fits {x : ℕ} (bound : x < t.maxFds) : align W (x + 1) ≤ t.maxFds := by
    rw [whole] at bound ⊢
    exact align_le positive bound
  unfold saneFdtableSizeOld
  simp only
  split
  next => omega
  next some =>
    obtain ⟨none, -⟩ | ⟨last, -⟩ := findLastBit_spec t t.maxFds
    · exact absurd none some
    cases r with
    | none => exact fits last
    | some r =>
      simp only
      split
      next punch =>
        split
        next => omega
        next below =>
          obtain ⟨none, -⟩ | ⟨last', -⟩ := findLastBit_spec t r.fromFd
          · exact absurd none below
          · exact fits (by omega)
      next => exact fits last

/-- An open descriptor outside the range to be closed lies within the copy: the
punch_hole case stops at the last one below the range only when nothing open is
above it. -/
theorem lt_saneFdtableSizeOld {r : Option FdRange} (positive : 0 < W) (inside : d < t.maxFds)
    (opened : (t.slot d).opened = true) (outside : ∀ range, r = some range → ¬ InRange range d) :
    d < saneFdtableSizeOld W t r := by
  have reaches {x : ℕ} (bound : d ≤ x) : d < align W (x + 1) :=
    Nat.lt_of_lt_of_le (Nat.lt_succ_of_le bound) (le_align positive (x + 1))
  unfold saneFdtableSizeOld
  simp only
  obtain ⟨-, closed⟩ | ⟨some, last⟩ := findLastBit_spec t t.maxFds
  · exact absurd opened (Bool.eq_false_iff.1 (closed d inside))
  rw [if_neg some.ne]
  have upto := last d inside opened
  cases r with
  | none => exact reaches upto
  | some r =>
    simp only
    split
    next punch =>
      have below : d < r.fromFd := by
        have := outside r rfl
        unfold InRange at this
        omega
      obtain ⟨-, closed⟩ | ⟨some', last'⟩ := findLastBit_spec t r.fromFd
      · exact absurd opened (Bool.eq_false_iff.1 (closed d below))
      · rw [if_neg some'.ne]
        exact reaches (last' d below opened)
    next => exact reaches upto

/-! ### The clone -/

variable {dropInDupFd : Bool}

theorem dupFd_max_le (dropInDupFd : Bool) {k : ℕ} (positive : 0 < W) (whole : t.maxFds = k * W) (room : 0 < k)
    (r : Option FdRange) (f : Flags) : (dupFd W dropInDupFd t r f).max ≤ t.maxFds := by
  change saneFdtableSize W dropInDupFd t r f ≤ t.maxFds
  unfold saneFdtableSize
  split
  · exact saneFdtableSizeNew_le positive whole room r f
  · exact saneFdtableSizeOld_le positive whole room r

/-- What is open and neither dropped nor to be closed is within the copy. -/
theorem lt_dupFd_max {k : ℕ} {r : Option FdRange} (positive : 0 < W) (whole : t.maxFds = k * W)
    (inside : d < t.maxFds) (opened : (t.slot d).opened = true)
    (series : dropInDupFd = true → ¬ DupFdDrops W t d r f)
    (before : dropInDupFd = false → ∀ range, r = some range → ¬ InRange range d) :
    d < (dupFd W dropInDupFd t r f).max := by
  change d < saneFdtableSize W dropInDupFd t r f
  unfold saneFdtableSize
  split
  next new => exact lt_saneFdtableSizeNew positive whole inside opened (series new)
  next old => exact lt_saneFdtableSizeOld positive inside opened (before (Bool.eq_false_iff.2 old))

theorem dupFd_slot (r : Option FdRange) :
    (dupFd W dropInDupFd t r f).table.slot d =
      copySlot (t.slot d) (decide (Keeps W dropInDupFd t d r f)) := rfl

end Words

end LinuxTla.FdTable
