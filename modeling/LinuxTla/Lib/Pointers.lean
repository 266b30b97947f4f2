import Mathlib.Data.Finset.Card
import Mathlib.Dynamics.PeriodicPts.Lemmas
import Mathlib.Logic.Relation

/-! Pointer structures: a field that may point to another node. Acyclic pointers
have a rank that falls along them; when all nodes are listed the rank can be kept
below their number, which bounds every walk. -/

namespace LinuxTla.Lib

variable {α : Type u}

/-- Following the pointers from `x` gets to `y`. -/
def Climbs (f : α → Option α) : α → α → Prop := Relation.ReflTransGen fun x y => f x = some y

/-- Following the pointers from `x` gets to `y` in at least one step. -/
def ClimbsUp (f : α → Option α) : α → α → Prop := Relation.TransGen fun x y => f x = some y

/-- `rank` falls along every pointer. -/
def Falls (f : α → Option α) (rank : α → ℕ) : Prop := ∀ x y, f x = some y → rank y < rank x

def Acyclic (f : α → Option α) : Prop := ∃ rank, Falls f rank

variable {f g : α → Option α}

theorem Falls.climbsUp {rank : α → ℕ} (falls : Falls f rank) {x y : α} (up : ClimbsUp f x y) : rank y < rank x := by
  induction up with
  | single step => exact falls _ _ step
  | tail _ step ih => exact (falls _ _ step).trans ih

theorem Falls.climbs {rank : α → ℕ} (falls : Falls f rank) {x y : α} (up : Climbs f x y) : rank y ≤ rank x := by
  induction up with
  | refl => exact le_rfl
  | tail _ step ih => exact (falls _ _ step).le.trans ih

theorem Acyclic.irrefl (acyclic : Acyclic f) {x : α} : ¬ ClimbsUp f x x := by
  obtain ⟨rank, falls⟩ := acyclic
  exact fun up => lt_irrefl _ (falls.climbsUp up)

/-- In a finite set whose members are all pointed at from inside, every member is on a cycle. -/
theorem climbsUp_self [Finite α] {inside : α → Prop}
    (back : ∀ x, inside x → ∃ y, inside y ∧ f y = some x) {x : α} (member : inside x) : ClimbsUp f x x := by
  choose pred kept points using back
  let step : {x // inside x} → {x // inside x} := fun x => ⟨pred x.1 x.2, kept x.1 x.2⟩
  have injective : Function.Injective step := fun a b same => Subtype.ext (by
    have same : pred a.1 a.2 = pred b.1 b.2 := congrArg Subtype.val same
    have first := points a.1 a.2
    rw [same, points b.1 b.2] at first
    exact (Option.some.inj first).symm)
  have climbs : ∀ n x, ClimbsUp f (step^[n + 1] x).1 x.1 := fun n => by
    induction n with
    | zero => exact fun x => .single (points x.1 x.2)
    | succ n ih =>
      intro x
      rw [Function.iterate_succ_apply']
      exact .head (points _ _) (ih x)
  obtain ⟨n, positive, periodic⟩ := injective.mem_periodicPts ⟨x, member⟩
  obtain ⟨k, rfl⟩ : ∃ k, n = k + 1 := ⟨n - 1, by omega⟩
  have up := climbs k ⟨x, member⟩
  rwa [periodic.eq] at up

/-- A step first, then the rest of the way. -/
theorem climbs_iff {x z : α} : Climbs f x z ↔ x = z ∨ ∃ y, f x = some y ∧ Climbs f y z := by
  constructor
  · intro up
    rcases Relation.ReflTransGen.cases_head up with same | ⟨y, step, rest⟩
    · exact .inl same
    · exact .inr ⟨y, step, rest⟩
  · rintro (rfl | ⟨y, step, rest⟩)
    · exact .refl
    · exact .head step rest

/-- Two nodes above the same node: one is above the other. -/
theorem Climbs.total {x y z : α} (first : Climbs f x y) (second : Climbs f x z) : Climbs f y z ∨ Climbs f z y := by
  induction first using Relation.ReflTransGen.head_induction_on with
  | refl => exact .inl second
  | head step rest ih =>
    rcases climbs_iff.mp second with rfl | ⟨w, step', rest'⟩
    · exact .inr (.head step rest)
    · rw [step] at step'
      cases step'
      exact ih rest'

/-- Fewer pointers, or pointers that take a longer way up. -/
theorem Acyclic.of_climbsUp (acyclic : Acyclic f) (shorter : ∀ x y, g x = some y → ClimbsUp f x y) : Acyclic g := by
  obtain ⟨rank, falls⟩ := acyclic
  exact ⟨rank, fun x y step => falls.climbsUp (shorter x y step)⟩

theorem Acyclic.mono (acyclic : Acyclic f) (fewer : ∀ x y, g x = some y → f x = some y) : Acyclic g :=
  acyclic.of_climbsUp fun x y step => .single (fewer x y step)

theorem Acyclic.none : Acyclic fun _ : α => Option.none := ⟨fun _ => 0, nofun⟩

section Update

variable [DecidableEq α]

/-- Pointing a node at one that is not below it makes no cycle. -/
theorem Acyclic.link (acyclic : Acyclic f) {s p : α} (apart : ¬ Climbs f p s) :
    Acyclic (Function.update f s (some p)) := by
  classical
  obtain ⟨rank, falls⟩ := acyclic
  refine ⟨fun x => rank x + if Climbs f x s then rank p + 1 else 0, fun x y step => ?_⟩
  by_cases here : x = s
  · subst here
    rw [Function.update_self] at step
    cases step
    have : Climbs f x x := .refl
    simp only [if_pos this, if_neg apart]
    omega
  · rw [Function.update_of_ne here] at step
    have below : Climbs f x s ↔ Climbs f y s := by
      rw [climbs_iff]
      constructor
      · rintro (same | ⟨z, step', rest⟩)
        · exact absurd same here
        · rw [step] at step'
          cases step'
          exact rest
      · exact fun rest => .inr ⟨y, step, rest⟩
    simp only [below]
    have := falls x y step
    omega

end Update

/-! ### Bounded ranks -/

/-- Counting the ranks below gives a rank in the same order that stays below the number of nodes. -/
theorem rank_bounded (nodes : List α) (complete : ∀ x, x ∈ nodes) (rank : α → ℕ) :
    ∃ low : α → ℕ, (∀ x y, rank x < rank y → low x < low y) ∧ (∀ x y, rank x = rank y → low x = low y) ∧
      ∀ x, low x < nodes.length := by
  classical
  let ranks := (nodes.map rank).toFinset
  have known : ∀ x, rank x ∈ ranks := fun x => List.mem_toFinset.mpr (List.mem_map_of_mem (complete x))
  refine ⟨fun x => (ranks.filter (· < rank x)).card, fun x y less => ?_, fun x y same => by simp only [same], fun x => ?_⟩
  · have sub : ranks.filter (· < rank x) ⊆ ranks.filter (· < rank y) := fun r mem =>
      Finset.mem_filter.mpr ⟨(Finset.mem_filter.mp mem).1, (Finset.mem_filter.mp mem).2.trans less⟩
    refine Finset.card_lt_card (Finset.ssubset_iff_of_subset sub |>.mpr
      ⟨rank x, Finset.mem_filter.mpr ⟨known x, less⟩, fun bad => ?_⟩)
    exact lt_irrefl _ (Finset.mem_filter.mp bad).2
  · calc (ranks.filter (· < rank x)).card
        < ranks.card := Finset.card_lt_card (Finset.filter_ssubset.mpr ⟨rank x, known x, lt_irrefl _⟩)
      _ ≤ (nodes.map rank).length := List.toFinset_card_le _
      _ = nodes.length := List.length_map ..

theorem Acyclic.bounded (acyclic : Acyclic f) (nodes : List α) (complete : ∀ x, x ∈ nodes) :
    ∃ rank, Falls f rank ∧ ∀ x, rank x < nodes.length := by
  obtain ⟨rank, falls⟩ := acyclic
  obtain ⟨low, order, -, bound⟩ := rank_bounded nodes complete rank
  exact ⟨low, fun x y step => order y x (falls x y step), bound⟩

end LinuxTla.Lib
