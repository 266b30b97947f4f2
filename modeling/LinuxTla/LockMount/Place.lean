import LinuxTla.LockMount.Put
import Mathlib.Algebra.BigOperators.Group.Finset.Basic
import Mathlib.Data.Fintype.Sum
import Mathlib.Tactic.DeriveFintype

/-! Who holds namespace_sem and what every task knows at its label. Only the holder changes
the tree, so what the others know does not go stale. -/

namespace LinuxTla.LockMount

open Lib

deriving instance Fintype for Task

variable {M E N T : Type}
  {cfg : Config M E N T} {st after : Tables M E N T} {own : M → ℕ} {x y p q : M} {d e : E}
  {t : Task T} {k : T}

/-! ### where_to_mount() -/

def Vacant (st : Tables M E N T) (p : M) (d : E) : Prop :=
  ∀ y, (st.mnt y).alive = true → st.HasParent y → (st.mnt y).parent = p → (st.mnt y).mp ≠ d

variable [Fintype M] [LinearOrder M] [DecidableEq E]

theorem mem_mountsAt (ok : Forest cfg own st) :
    q ∈ st.mountsAt p d ↔ (st.mnt q).alive = true ∧ st.HasParent q ∧ (st.mnt q).parent = p ∧ (st.mnt q).mp = d := by
  rw [Tables.mountsAt, Finset.mem_filter, ok.hashed]
  refine ⟨fun inside => ⟨inside.2.1, inside.2.2.1.2, inside.2.2.2.1, inside.2.2.2.2.1⟩, fun inside => ?_⟩
  obtain ⟨on, linked, parent, mp⟩ := inside
  refine ⟨Finset.mem_univ q, on, ⟨on, linked⟩, parent, mp, fun same => linked ?_⟩
  rw [parent, same]

theorem lookupMnt_none (ok : Forest cfg own st) : st.lookupMnt p d = none ↔ Vacant st p d := by
  rw [Tables.lookupMnt]
  split_ifs with some'
  · refine ⟨fun none => (by cases none), fun vacant => ?_⟩
    obtain ⟨y, inside⟩ := some'
    obtain ⟨on, linked, parent, mp⟩ := (mem_mountsAt ok).mp inside
    exact absurd mp (vacant y on linked parent)
  · refine ⟨fun _ y on linked parent mp => some' ⟨y, ?_⟩, fun _ => rfl⟩
    exact (mem_mountsAt ok).mpr ⟨on, linked, parent, mp⟩

theorem lookupMnt_some (ok : Forest cfg own st) (found : st.lookupMnt p d = some q) :
    (st.mnt q).alive = true ∧ st.HasParent q ∧ (st.mnt q).parent = p ∧ (st.mnt q).mp = d := by
  rw [Tables.lookupMnt] at found
  split_ifs at found with some'
  rw [← Option.some.inj found]
  exact (mem_mountsAt ok).mp (Finset.min'_mem _ some')

structure Mounted (st : Tables M E N T) (x : M) : Prop where
  alive : (st.mnt x).alive = true
  linked : st.HasParent x
  ns : (st.mnt x).ns ≠ none

theorem topmostTo_mounted (ok : Forest cfg own st) {rank : M → ℕ} (falls : Falls st.above rank)
    (bound : ∀ x, rank x < Fintype.card M) (n : ℕ) (q : M) (mounted : Mounted st q) (enough : Fintype.card M ≤ n + rank q) :
    Mounted st (st.topmostTo n q) ∧ st.lookupMnt (st.topmostTo n q) (st.mnt (st.topmostTo n q)).root = none := by
  induction n generalizing q with
  | zero =>
    have := bound q
    omega
  | succ n ih =>
    rw [Tables.topmostTo]
    cases found : st.lookupMnt q (st.mnt q).root with
    | none => exact ⟨mounted, found⟩
    | some o =>
      obtain ⟨alive, linked, parent, _⟩ := lookupMnt_some ok found
      have higher : rank q < rank o := by
        refine falls o q ?_
        rw [Tables.above, if_pos ⟨alive, linked⟩, parent]
      refine ih o ⟨alive, linked, ok.inherit o alive linked ?_⟩ (by omega)
      rw [parent]
      exact mounted.ns

/-- What do_lock_mount() has made sure of. -/
structure Place (cfg : Config M E N T) (st : Tables M E N T) (k : T) (p : M) (d : E) : Prop where
  alive : (st.mnt p).alive = true
  joined : p = (cfg.info k).pm ∨ st.HasParent p
  ns : (st.mnt p).ns ≠ none
  vacant : Vacant st p d

/-- Every mounter starts on the root mount of a namespace. -/
structure Config.WellFormed (cfg : Config M E N T) : Prop where
  path : ∀ k, IsRoot cfg (cfg.info k).pm

theorem place_place (ok : Forest cfg own st) (formed : cfg.WellFormed) (k : T) :
    Place cfg st k (place cfg st k).1 (place cfg st k).2 := by
  obtain ⟨alive, _, ns⟩ := ok.root _ (formed.path k)
  rw [place, Tables.whereToMount]
  cases found : st.lookupMnt (cfg.info k).pm (cfg.info k).pd with
  | none => exact ⟨alive, .inl rfl, ns, (lookupMnt_none ok).mp found⟩
  | some q =>
    obtain ⟨rank, falls, bound⟩ := ok.acyclic.bounded Finset.univ.toList fun x => Finset.mem_toList.mpr (Finset.mem_univ x)
    rw [Finset.length_toList, Finset.card_univ] at bound
    obtain ⟨on, linked, parent, _⟩ := lookupMnt_some ok found
    have inside : (st.mnt q).ns ≠ none := by
      refine ok.inherit q on linked ?_
      rw [parent]
      exact ns
    obtain ⟨mounted, none⟩ := topmostTo_mounted ok falls bound (Fintype.card M) q ⟨on, linked, inside⟩ (by omega)
    exact ⟨mounted.alive, .inr mounted.linked, mounted.ns, (lookupMnt_none ok).mp none⟩

end LinuxTla.LockMount
