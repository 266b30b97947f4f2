import Mathlib.Data.List.Basic
import Mathlib.Logic.Relation
import Mathlib.Order.Basic

/-! Peer groups in a hierarchy: the nodes of a group form a ring, a node may have a
master, and every node lists its slaves. A well-formed graph keeps the members of a
group together, in ring order, on the list of their one master. -/

namespace LinuxTla.Lib

/-- Following `next` from `a` gets to `b`. -/
def Around (next : α → α) : α → α → Prop := Relation.ReflTransGen fun x y => next x = y

@[ext] structure PeerGraph (α : Type u) where
  /-- 0 for a node without peers. -/
  gid : α → ℕ
  next : α → α
  master : α → Option α
  slaves : α → List α

theorem Around.self {next : α → α} {a b : α} (round : Around next a b) (stuck : next a = a) : b = a := by
  induction round with
  | refl => rfl
  | tail _ step ih => rw [← step, ih, stuck]

structure Rings (next : α → α) (gid : α → ℕ) : Prop where
  inj : Function.Injective next
  gid_next : ∀ a, gid (next a) = gid a
  alone : ∀ a, gid a = 0 → next a = a
  around : ∀ a b, gid a ≠ 0 → gid a = gid b → Around next a b

namespace PeerGraph

/-- A level for every node: masters are above, peers beside. -/
structure Levels (g : PeerGraph α) (level : α → ℕ) : Prop where
  above : ∀ x y, g.master x = some y → level y < level x
  beside : ∀ a b, g.gid a ≠ 0 → g.gid a = g.gid b → level a = level b

/-- Rings and lists belong together, in whatever order the rings are. -/
structure Sound (g : PeerGraph α) : Prop where
  rings : Rings g.next g.gid
  mem_slaves : ∀ x y, x ∈ g.slaves y ↔ g.master x = some y
  nodup : ∀ y, (g.slaves y).Nodup
  owner : ∀ x y, g.master x = some y → g.gid y ≠ 0
  one_master : ∀ a b, g.gid a ≠ 0 → g.gid a = g.gid b → g.master a = g.master b
  segment : ∀ y a b c, [a, b, c].Sublist (g.slaves y) → g.gid a ≠ 0 → g.gid a = g.gid c → g.gid b = g.gid a
  levels : ∃ level, g.Levels level

structure WF (g : PeerGraph α) : Prop extends g.Sound where
  aligned : ∀ y a b, [a, b] <:+: g.slaves y → g.gid a ≠ 0 → g.gid a = g.gid b → g.next a = b

/-- A private node that is nobody's master. -/
structure Isolated (g : PeerGraph α) (x : α) : Prop where
  gid : g.gid x = 0
  master : g.master x = none
  slaves : g.slaves x = []

/-- The group id `k` is 0 or nobody's. -/
def Unused (g : PeerGraph α) (k : ℕ) : Prop := k ≠ 0 → ∀ x, g.gid x ≠ k

variable {g : PeerGraph α} {x y : α}

theorem Sound.not_slave (wf : g.Sound) (isolated : g.Isolated x) : x ∉ g.slaves y := fun mem => by
  have := (wf.mem_slaves x y).mp mem
  rw [isolated.master] at this
  cases this

theorem Sound.not_master (wf : g.Sound) (isolated : g.Isolated x) : g.master y ≠ some x := fun same =>
  wf.owner y x same isolated.gid

theorem Sound.next_isolated (wf : g.Sound) (isolated : g.Isolated x) : g.next x = x := wf.rings.alone x isolated.gid

theorem Sound.not_self_master (wf : g.Sound) : g.master x ≠ some x := fun same => by
  obtain ⟨level, levels⟩ := wf.levels
  exact Nat.lt_irrefl _ (levels.above x x same)

theorem Unused.other {k : ℕ} (unused : g.Unused k) (nonzero : k ≠ 0) (same : k = g.gid x) : False :=
  unused nonzero x same.symm

end PeerGraph

/-! ### Rings -/

section Rings

variable {next : α → α} {gid : α → ℕ}

theorem Rings.same_gid (rings : Rings next gid) {a b : α} (round : Around next a b) : gid b = gid a := by
  induction round with
  | refl => rfl
  | tail _ step ih => rw [← step, rings.gid_next, ih]

variable [DecidableEq α]

/-- A lone node goes in right after `old`. -/
theorem Rings.insert (rings : Rings next gid) {old new : α} (apart : old ≠ new) (lone : gid new = 0)
    (shared : gid old ≠ 0) :
    Rings (Function.update (Function.update next new (next old)) old new) (Function.update gid new (gid old)) := by
  have self : next new = new := rings.alone new lone
  have only : ∀ x, x ≠ new → next x ≠ new := fun x other same => other (rings.inj (same.trans self.symm))
  have at_old : Function.update (Function.update next new (next old)) old new old = new := Function.update_self ..
  have at_new : Function.update (Function.update next new (next old)) old new new = next old := by
    rw [Function.update_of_ne apart.symm, Function.update_self]
  have at_rest : ∀ x, x ≠ old → x ≠ new →
      Function.update (Function.update next new (next old)) old new x = next x := fun x h1 h2 => by
    rw [Function.update_of_ne h1, Function.update_of_ne h2]
  have gid_new : Function.update gid new (gid old) new = gid old := Function.update_self ..
  have gid_rest : ∀ x, x ≠ new → Function.update gid new (gid old) x = gid x := fun x h => Function.update_of_ne h ..
  generalize Function.update (Function.update next new (next old)) old new = next' at *
  generalize Function.update gid new (gid old) = gid' at *
  have walk : ∀ a b, a ≠ new → Around next a b → Around next' a b := by
    intro a b far round
    induction round using Relation.ReflTransGen.head_induction_on with
    | refl => exact .refl
    | head step rest ih =>
      rename_i x y
      subst step
      have on := ih (only x far)
      by_cases here : x = old
      · subst here
        exact .head at_old (.head at_new on)
      · exact .head (at_rest x here far) on
  have past : Around next' old new := .single at_old
  have back : Around next' new old := .head at_new (walk _ _ (only old apart)
    (rings.around _ _ (by rwa [rings.gid_next]) (rings.gid_next old)))
  constructor
  · intro a b same
    by_cases a_old : a = old <;> by_cases b_old : b = old <;> by_cases a_new : a = new <;> by_cases b_new : b = new <;>
      grind [Function.Injective, rings.inj]
  · intro a
    by_cases a_old : a = old
    · rw [a_old, at_old, gid_new, gid_rest old apart]
    · by_cases a_new : a = new
      · rw [a_new, at_new, gid_new, gid_rest _ (only old apart), rings.gid_next]
      · rw [at_rest a a_old a_new, gid_rest a a_new, gid_rest _ (only a a_new), rings.gid_next]
  · intro a zero
    have a_new : a ≠ new := fun same => shared (by rw [← gid_new, ← same, zero])
    rw [gid_rest a a_new] at zero
    rw [at_rest a (fun same => shared (same ▸ zero)) a_new, rings.alone a zero]
  · intro a b nonzero same
    by_cases a_new : a = new
    · subst a_new
      by_cases b_new : b = a
      · exact b_new ▸ .refl
      · rw [gid_new, gid_rest b b_new] at same
        exact back.trans (walk _ _ apart (rings.around _ _ shared same))
    · rw [gid_rest a a_new] at nonzero same
      by_cases b_new : b = new
      · subst b_new
        rw [gid_new] at same
        exact (walk _ _ a_new (rings.around _ _ nonzero same)).trans past
      · rw [gid_rest b b_new] at same
        exact walk _ _ a_new (rings.around _ _ nonzero same)

theorem Rings.remove (rings : Rings next gid) {prev out : α} (before : next prev = out) :
    Rings (Function.update (Function.update next prev (next out)) out out) (Function.update gid out 0) := by
  have at_out : Function.update (Function.update next prev (next out)) out out out = out := Function.update_self ..
  have at_prev : prev ≠ out → Function.update (Function.update next prev (next out)) out out prev = next out := fun h => by
    rw [Function.update_of_ne h, Function.update_self]
  have at_rest : ∀ x, x ≠ prev → x ≠ out →
      Function.update (Function.update next prev (next out)) out out x = next x := fun x h1 h2 => by
    rw [Function.update_of_ne h2, Function.update_of_ne h1]
  have gid_out : Function.update gid out 0 out = 0 := Function.update_self ..
  have gid_rest : ∀ x, x ≠ out → Function.update gid out 0 x = gid x := fun x h => Function.update_of_ne h ..
  generalize Function.update (Function.update next prev (next out)) out out = next' at *
  generalize Function.update gid out 0 = gid' at *
  have only : ∀ x, next x = out → x = prev := fun x same => rings.inj (same.trans before.symm)
  have far : prev ≠ out → next out ≠ out := fun apart same => apart (only out same).symm
  have walk : ∀ a b, b ≠ out → Around next a b → Around next' (if a = out then next out else a) b := by
    intro a b far round
    induction round using Relation.ReflTransGen.head_induction_on with
    | refl => rw [if_neg far]; exact .refl
    | head step rest ih =>
      rename_i x y
      subst step
      by_cases here : x = out
      · subst here
        rw [if_pos rfl]
        by_cases still : next x = x
        · rwa [if_pos still] at ih
        · rwa [if_neg still] at ih
      · rw [if_neg here]
        by_cases there : next x = out
        · rw [if_pos there] at ih
          exact .head (by rw [only x there, at_prev (only x there ▸ here)]) ih
        · rw [if_neg there] at ih
          exact .head (at_rest x (fun same => there (same ▸ before)) here) ih
  constructor
  · intro a b same
    by_cases a_prev : a = prev <;> by_cases b_prev : b = prev <;> by_cases a_out : a = out <;> by_cases b_out : b = out <;>
      grind [Function.Injective, rings.inj]
  · intro a
    by_cases a_out : a = out
    · rw [a_out, at_out]
    · by_cases a_prev : a = prev
      · subst a_prev
        rw [at_prev a_out, gid_rest a a_out, gid_rest _ (far a_out), rings.gid_next, ← before, rings.gid_next]
      · rw [at_rest a a_prev a_out, gid_rest a a_out, gid_rest _ (fun same => a_prev (only a same)), rings.gid_next]
  · intro a zero
    by_cases a_out : a = out
    · rw [a_out, at_out]
    · rw [gid_rest a a_out] at zero
      have stays := rings.alone a zero
      rw [at_rest a (fun same => a_out (by rw [← stays, same, before])) a_out, stays]
  · intro a b nonzero same
    have a_out : a ≠ out := fun h => nonzero (h ▸ gid_out)
    have b_out : b ≠ out := fun h => nonzero (same.trans (h ▸ gid_out))
    rw [gid_rest a a_out] at nonzero same
    rw [gid_rest b b_out] at same
    have round := walk a b b_out (rings.around a b nonzero same)
    rwa [if_neg a_out] at round

/-- A lone node with a group of its own. -/
theorem Rings.assign (rings : Rings next gid) {x : α} {k : ℕ} (lone : next x = x)
    (only : ∀ y, y ≠ x → gid y ≠ 0 → gid y ≠ k) : Rings next (Function.update gid x k) := by
  have around : ∀ a, next a ≠ a → a ≠ x := fun a moves here => moves (here ▸ lone)
  constructor
  · exact rings.inj
  · intro a
    by_cases here : a = x
    · rw [here, lone]
    · rw [Function.update_of_ne here, Function.update_of_ne fun same => here (rings.inj (same.trans lone.symm)), rings.gid_next]
  · intro a zero
    by_cases here : a = x
    · rw [here, lone]
    · exact rings.alone a (by rwa [Function.update_of_ne here] at zero)
  · intro a b nonzero same
    by_cases a_x : a = x <;> by_cases b_x : b = x
    · rw [a_x, b_x]
      exact .refl
    · rw [a_x, Function.update_self] at nonzero same
      rw [Function.update_of_ne b_x] at same
      exact absurd same.symm (only b b_x (same ▸ nonzero))
    · rw [Function.update_of_ne a_x] at nonzero same
      rw [b_x, Function.update_self] at same
      exact absurd same (only a a_x nonzero)
    · rw [Function.update_of_ne a_x] at nonzero same
      rw [Function.update_of_ne b_x] at same
      exact rings.around a b nonzero same

end Rings

end LinuxTla.Lib
