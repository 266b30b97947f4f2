import Mathlib.Algebra.BigOperators.Group.List.Basic
import Mathlib.Algebra.Order.BigOperators.Group.List
import Mathlib.Algebra.Order.Group.Int
import Mathlib.Algebra.Ring.Int.Defs
import Mathlib.Data.List.Chain
import Mathlib.Tactic.Common

/-! A buffer of stores that add to a counter and may leave it out of order, where a
store that takes off sits behind a fence. Whatever part of the buffer is published
first, the rest never holds more than its suffixes do. -/

namespace LinuxTla.Lib.Fences

variable {E : Type*} (d : E → ℤ) (fence : E → Prop)

/-- What the buffer still adds to the counter. -/
def net (b : List E) : ℤ := (b.map d).sum

/-- A store that takes off is the first entry or follows a fence. -/
def Fenced (b : List E) : Prop := b.IsChain fun e e' => d e' < 0 → fence e

variable {d fence} {e : E} {b pre post : List E}

@[simp] theorem net_nil : net d ([] : List E) = 0 := rfl

@[simp] theorem net_cons : net d (e :: b) = d e + net d b := by simp [net]

@[simp] theorem net_append : net d (pre ++ post) = net d pre + net d post := by simp [net]

theorem net_nonpos (all : ∀ e ∈ b, d e ≤ 0) : net d b ≤ 0 := by
  induction b with
  | nil => simp
  | cons e b ih =>
    have first := all e (by simp)
    have rest := ih fun e' member => all e' (by simp [member])
    simp only [net_cons]
    omega

theorem net_eq_zero (none : ∀ e ∈ b, d e = 0) : net d b = 0 :=
  List.sum_eq_zero fun x member => by
    obtain ⟨e, inside, rfl⟩ := List.mem_map.mp member
    exact none e inside

/-- A buffer without stores that take off adds up to nothing only if it has none
that add either. -/
theorem eq_zero_of_net (nonneg : ∀ e ∈ b, 0 ≤ d e) (total : net d b ≤ 0) : ∀ e ∈ b, d e = 0 := by
  intro e inside
  have part := List.single_le_sum (by simpa using nonneg) (d e) (List.mem_map_of_mem inside)
  have := nonneg e inside
  unfold net at total
  omega

/-- An entry that no fence precedes, and no entry at all if it is one itself,
leaves a fenced buffer. -/
theorem Fenced.remove (ok : Fenced d fence (pre ++ e :: post)) (before : ∀ e' ∈ pre, ¬ fence e')
    (first : fence e → pre = []) : Fenced d fence (pre ++ post) ∧ (d e < 0 → pre = []) := by
  have chain := List.isChain_append.mp ok
  have tail := List.isChain_cons.mp chain.2.1
  have noFence : d e < 0 → pre = [] := by
    intro put
    by_contra nonempty
    obtain ⟨rest, last, rfl⟩ := List.eq_nil_or_concat pre |>.resolve_left nonempty
    exact before last (by simp) (chain.2.2 last (by simp) e (by simp) put)
  refine ⟨List.isChain_append.mpr ⟨chain.1, tail.2, ?_⟩, noFence⟩
  intro x xLast y yFirst put
  have empty := first (tail.1 y yFirst put)
  simp [empty] at xLast

/-- Taking an entry out in that order lowers no suffix below what a suffix of the
whole buffer allows. -/
theorem net_suffix_of_remove {bound : ℤ} (put : d e < 0 → pre = []) (suffix : b <:+ pre ++ post)
    (all : ∀ b, b <:+ pre ++ e :: post → net d b ≤ bound) : net d b ≤ bound := by
  obtain ⟨p, eq⟩ := suffix
  rcases List.append_eq_append_iff.mp eq with ⟨mid, rfl, rfl⟩ | ⟨mid, rfl, rfl⟩
  · rcases lt_or_ge (d e) 0 with negative | nonneg
    · have empty := put negative
      simp only [List.append_eq_nil_iff] at empty
      obtain ⟨rfl, rfl⟩ := empty
      exact all post (by simp)
    · have := all (mid ++ e :: post) ⟨p, by simp⟩
      simp only [net_append, net_cons] at this ⊢
      omega
  · exact all b ⟨pre ++ e :: mid, by simp⟩

theorem Fenced.append (ok : Fenced d fence pre) (harmless : ∀ e ∈ post, 0 ≤ d e) : Fenced d fence (pre ++ post) := by
  have tail : Fenced d fence post := by
    apply List.Pairwise.isChain
    apply List.pairwise_of_forall_mem_list
    intro x _ y member put
    exact absurd (harmless y member) (by omega)
  refine List.isChain_append.mpr ⟨ok, tail, ?_⟩
  intro x _ y first put
  exact absurd (harmless y (List.mem_of_mem_head? first)) (by omega)

theorem Fenced.append_fence {f : E} (ok : Fenced d fence pre) (isFence : fence f) (quiet : 0 ≤ d f) :
    Fenced d fence (pre ++ [f, e]) := by
  refine List.isChain_append.mpr ⟨ok, ?_, ?_⟩
  · simp [isFence]
  · intro x _ y first put
    simp only [List.head?_cons, Option.mem_def, Option.some.injEq] at first
    subst first
    omega

/-! ### The floor

A task with references is never seen with fewer of them than one, in whatever order
the rest of its buffer is published. -/

/-- No suffix of the buffer takes the references of its task below that. -/
def Floor (d : E → ℤ) (refs : ℤ) (b : List E) : Prop :=
  ∀ b', b' <:+ b → net d b' + (if 1 ≤ refs then 1 else 0) ≤ refs

theorem suffix_append_iff {α : Type*} {b front back : List α} :
    b <:+ front ++ back ↔ (∃ mid, mid <:+ front ∧ b = mid ++ back) ∨ b <:+ back := by
  constructor
  · rintro ⟨p, eq⟩
    rcases List.append_eq_append_iff.mp eq with ⟨mid, rfl, rfl⟩ | ⟨mid, rfl, rfl⟩
    · exact .inl ⟨mid, List.suffix_append .., rfl⟩
    · exact .inr (List.suffix_append ..)
  · rintro (⟨mid, ⟨p, rfl⟩, rfl⟩ | ⟨p, rfl⟩)
    · exact ⟨p, by simp⟩
    · exact ⟨front ++ p, by simp⟩

variable {refs : ℤ}

theorem Floor.of_nonpos (nonneg : 0 ≤ refs) (all : ∀ e ∈ b, d e ≤ 0) : Floor d refs b := by
  intro b' suffix
  have : net d b' ≤ 0 := net_nonpos fun e member => all e (suffix.subset member)
  split <;> omega

theorem Floor.get (floor : Floor d refs b) (held : 0 < refs) (one : d e = 1) : Floor d (refs + 1) (b ++ [e]) := by
  intro b' suffix
  have more : 1 ≤ refs + 1 := by omega
  simp only [more, if_true]
  rcases suffix_append_iff.mp suffix with ⟨mid, inside, rfl⟩ | inside
  · have := floor mid inside
    have held' : 1 ≤ refs := held
    simp only [held', if_true] at this
    simp only [net_append, net_cons, net_nil, one]
    omega
  · rcases List.suffix_cons_iff.mp inside with rfl | inside
    · simp only [net_cons, net_nil, one]
      omega
    · simp only [List.suffix_nil] at inside
      subst inside
      simp only [net_nil]
      omega

theorem Floor.put {es : List E} (floor : Floor d refs b) (held : 1 ≤ refs) (all : ∀ e ∈ es, d e ≤ 0)
    (one : net d es = -1) : Floor d (refs - 1) (b ++ es) := by
  intro b' suffix
  rcases suffix_append_iff.mp suffix with ⟨mid, inside, rfl⟩ | inside
  · have := floor mid inside
    simp only [held, if_true] at this
    simp only [net_append, one]
    split <;> omega
  · have : net d b' ≤ 0 := net_nonpos fun e member => all e (inside.subset member)
    split <;> omega

theorem Floor.remove (floor : Floor d refs (pre ++ e :: post)) (put : d e < 0 → pre = []) :
    Floor d refs (pre ++ post) := by
  intro b suffix
  have bound : ∀ b, b <:+ pre ++ e :: post → net d b ≤ refs - if 1 ≤ refs then 1 else 0 := by
    intro b suffix
    have := floor b suffix
    omega
  have := net_suffix_of_remove put suffix bound
  omega

end LinuxTla.Lib.Fences
