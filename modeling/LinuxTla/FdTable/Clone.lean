import LinuxTla.FdTable.CloseRange

/-! The clone dup_fd() of the series makes is exact: in its size, its bitmaps and the
references it takes. -/

namespace LinuxTla.FdTable

open Lib

section Checked

variable (W : ℕ)

/-- What sane_fdtable_size() has to reach: open and not dropped. -/
def Carried (t : Table) (d : ℕ) (r : Option FdRange) (f : Flags) : Prop :=
  (t.slot d).opened = true ∧ ¬ DupFdDrops W t d r f

instance (t : Table) (d : ℕ) (r : Option FdRange) (f : Flags) : Decidable (Carried W t d r f) :=
  inferInstanceAs (Decidable (_ ∧ _))

def SlotsOK (c : Clone) : Prop := ∀ d < c.max, (c.slots d).file = true → (c.slots d).opened = true

def FullBitsOK (c : Clone) : Prop :=
  ∀ i < c.max / W, c.full i = true ↔ ∀ b ∈ wordBits W, (c.slots (i * W + b)).opened = true

def SizedExactly (t : Table) (r : Option FdRange) (f : Flags) (c : Clone) : Prop :=
  let carried := (Finset.range t.maxFds).filter fun d => Carried W t d r f
  c.max = if carried = ∅ then W else align W (greatest carried 0 + 1)

/-- get_file() is never called on a descriptor the call acts on. -/
def NoRefOnDropped (t : Table) (r : Option FdRange) (f : Flags) (c : Clone) : Prop :=
  ∀ range, r = some range → ∀ d ∈ c.refs, ¬ Selected t range f d

end Checked

variable {W : ℕ} {t : Table} {d : ℕ} {r : Option FdRange} {f : Flags}

theorem mem_kept_words {k i : ℕ} (positive : 0 < W) (whole : t.maxFds = k * W) :
    (i ∈ (words W t).filter fun i => openBits W t i \ dupFdDroppedWord W t i r f ≠ ∅) ↔
      ∃ d, d < t.maxFds ∧ Carried W t d r f ∧ d / W = i := by
  have inside (d : ℕ) : d < t.maxFds ↔ d / W ∈ words W t := by
    rw [words, Finset.mem_range, whole, Nat.mul_div_cancel k positive, Nat.div_lt_iff_lt_mul positive]
  constructor
  · intro kept
    obtain ⟨word, some⟩ := Finset.mem_filter.mp kept
    obtain ⟨b, bit⟩ := Finset.nonempty_iff_ne_empty.mpr some
    obtain ⟨opened, carried⟩ := Finset.mem_sdiff.mp bit
    obtain ⟨small, opened⟩ := Finset.mem_filter.mp opened
    have small : b < W := Finset.mem_range.mp small
    have div : (i * W + b) / W = i := by
      rw [Nat.add_comm, Nat.add_mul_div_right b i positive, Nat.div_eq_of_lt small, Nat.zero_add]
    have mod : (i * W + b) % W = b := by rw [Nat.mul_add_mod_self_right, Nat.mod_eq_of_lt small]
    refine ⟨i * W + b, (inside _).mpr (div.symm ▸ word), ⟨opened, ?_⟩, div⟩
    rw [DupFdDrops, div, mod]
    exact carried
  · rintro ⟨d, below, ⟨opened, carried⟩, rfl⟩
    refine Finset.mem_filter.mpr ⟨(inside d).mp below, Finset.ne_empty_of_mem (a := d % W) ?_⟩
    exact Finset.mem_sdiff.mpr ⟨mem_openBits positive opened, carried⟩

/-- The size reaches the last descriptor that is carried over and nothing more. -/
theorem sizedExactly {k : ℕ} (positive : 0 < W) (whole : t.maxFds = k * W) (r : Option FdRange) (f : Flags) :
    SizedExactly W t r f (dupFd W true t r f) := by
  have kept {i : ℕ} := mem_kept_words (t := t) (r := r) (f := f) (i := i) positive whole
  have carried {d : ℕ} : d ∈ (Finset.range t.maxFds).filter (fun d => Carried W t d r f) ↔
      d < t.maxFds ∧ Carried W t d r f := by
    rw [Finset.mem_filter, Finset.mem_range]
  change saneFdtableSizeNew W t r f = _
  unfold saneFdtableSizeNew
  generalize (words W t).filter (fun i => openBits W t i \ dupFdDroppedWord W t i r f ≠ ∅) = words at kept ⊢
  generalize (Finset.range t.maxFds).filter (fun d => Carried W t d r f) = fds at carried ⊢
  obtain ⟨none, _⟩ | ⟨last, above⟩ := greatest_spec fds 0
  · have bare : words = ∅ := by
      apply Finset.eq_empty_of_forall_notMem
      intro i word
      obtain ⟨d, below, keeps, _⟩ := kept.mp word
      have member : d ∈ fds := carried.mpr ⟨below, keeps⟩
      rw [none] at member
      exact Finset.notMem_empty d member
    rw [if_pos bare, if_pos none]
  · have word : greatest fds 0 / W ∈ words := kept.mpr ⟨_, (carried.mp last).1, (carried.mp last).2, rfl⟩
    rw [if_neg (Finset.ne_empty_of_mem word), if_neg (Finset.ne_empty_of_mem last)]
    obtain ⟨none, _⟩ | ⟨top, reaches⟩ := greatest_spec words 0
    · exact absurd none (Finset.ne_empty_of_mem word)
    · obtain ⟨d, below, keeps, div⟩ := kept.mp top
      have low : greatest words 0 ≤ greatest fds 0 / W := by
        rw [← div]
        exact Nat.div_le_div_right (above d (carried.mpr ⟨below, keeps⟩))
      have same : greatest words 0 = greatest fds 0 / W := Nat.le_antisymm low (reaches _ word)
      have next : greatest fds 0 + 1 + W - 1 = greatest fds 0 + W := by omega
      rw [same, align, next, Nat.add_div_right _ positive]

/-- The full_fds_bits are exact: a word of the clone is full when all of it was carried over. -/
theorem fullBitsOK (t : Table) (r : Option FdRange) (f : Flags) : FullBitsOK W (dupFd W true t r f) := by
  intro i _
  change decide _ = true ↔ ∀ b ∈ wordBits W, decide (Keeps W true t (i * W + b) r f) = true
  rw [decide_eq_true_iff]
  constructor
  · exact fun full b bit => decide_eq_true (full.2 b bit)
  · intro kept
    refine ⟨Finset.filter_true_of_mem fun b bit => ?_, fun b bit => of_decide_eq_true (kept b bit)⟩
    exact (t.slot _).installed (of_decide_eq_true (kept b bit)).1

/-- A reference is taken on what is installed and not dropped: the size covers all of it. -/
theorem mem_refs {k : ℕ} (positive : 0 < W) (whole : t.maxFds = k * W) (room : 0 < k) :
    d ∈ (dupFd W true t r f).refs ↔ d < t.maxFds ∧ (t.slot d).file = true ∧ ¬ DupFdDrops W t d r f := by
  change d ∈ (Finset.range _).filter _ ↔ _
  rw [Finset.mem_filter, Finset.mem_range]
  constructor
  · rintro ⟨copied, file, carried⟩
    exact ⟨copied.trans_le (dupFd_max_le true positive whole room r f), file, carried rfl⟩
  · rintro ⟨inside, file, carried⟩
    refine ⟨?_, file, fun _ => carried⟩
    change d < (dupFd W true t r f).max
    exact lt_dupFd_max positive whole inside ((t.slot d).installed file) (fun _ => carried) fun old => absurd old nofun

theorem noRefOnDropped {k : ℕ} (positive : 0 < W) (whole : t.maxFds = k * W) (room : 0 < k) (r : Option FdRange)
    (f : Flags) : NoRefOnDropped t r f (dupFd W true t r f) := by
  rintro range rfl d referenced ⟨_, chosen⟩
  exact ((mem_refs positive whole room).mp referenced).2.2 ((dupFdDrops_some positive).mpr chosen)

/-- The clone of a shared table: sized to the last descriptor it carries over, with exact
bitmaps, and with references on what is carried over and nothing else. -/
theorem clone_exact {k : ℕ} (positive : 0 < W) (whole : t.maxFds = k * W) (room : 0 < k) (range : FdRange)
    (unshare : f.unshare = true) :
    let result := closeRange W true t range f true
    ∃ clone, result.clone = some clone ∧ SizedExactly W t result.drop f clone ∧ SlotsOK clone ∧ FullBitsOK W clone ∧
      (∀ d, d ∈ clone.refs ↔ d < t.maxFds ∧ (t.slot d).file = true ∧ ¬ DupFdDrops W t d result.drop f) ∧
      NoRefOnDropped t result.drop f clone := by
  intro result
  have clone : result.clone = some (dupFd W true t result.drop f) := by
    change (closeRange W true t range f true).clone = some (dupFd W true t (closeRange W true t range f true).drop f)
    rw [closeRange, if_pos ⟨unshare, rfl⟩]
  exact ⟨_, clone, sizedExactly positive whole result.drop f, fun d _ => (Slot.installed _), fullBitsOK t result.drop f,
    fun d => mem_refs positive whole room, noRefOnDropped positive whole room result.drop f⟩

section Small

/-- Descriptors 0 and 3 are open in a table of two words of two bits. -/
def small : Table where
  maxFds := 4
  slot d := if d = 0 ∨ d = 3 then ⟨true, true, false, fun _ => rfl⟩ else Free

/-- Closing from descriptor 2 on leaves one word to be copied. -/
theorem small_clone : ∃ clone, (closeRange 2 true small ⟨2, 3, by decide⟩ ⟨true, false, false, false⟩ true).clone = some clone ∧
    clone.max = 2 ∧ ∀ d, d ∈ clone.refs ↔ d = 0 := by
  obtain ⟨clone, made, sized, _, _, refs, _⟩ := clone_exact (W := 2) (t := small) (f := ⟨true, false, false, false⟩)
    (k := 2) (by decide) rfl (by decide) ⟨2, 3, by decide⟩ rfl
  refine ⟨clone, made, sized.trans (by decide), fun d => (refs d).trans ?_⟩
  constructor
  · rintro ⟨inside, file, kept⟩
    have : d = 0 ∨ d = 1 ∨ d = 2 ∨ d = 3 := by
      change d < 4 at inside
      omega
    rcases this with rfl | rfl | rfl | rfl
    · rfl
    · exact absurd file (by decide)
    · exact absurd file (by decide)
    · exact absurd (by decide) kept
  · rintro rfl
    exact ⟨by decide, by decide, by decide⟩

end Small

end LinuxTla.FdTable
