import LinuxTla.Lib.Counts
import LinuxTla.MntOwn.Model
import Mathlib.Tactic.Common
import Mathlib.Algebra.Order.Group.Int
import Mathlib.Algebra.Group.Pi.Basic

/-! The books of `MntOwn.tla`: every reference counted on a mount and every active
count of a superblock has somebody it belongs to, also half way through an
operation that holds references in its hands. -/

namespace LinuxTla.MntOwn

open Lib

variable {M S : Type} {cfg : Config M S}
  {st after : Tables M S} {ext hand : M → ℕ} {owe : S → ℕ} {busy : Option M} {due : Finset M} {m x p : M} {s b : S}

/-! ### Who holds what -/

/-- The file of `s` is on the books: `s` is active, or it has no mount whose cleanup
would ever take it down. -/
def Holds (cfg : Config M S) (st : Tables M S) (s : S) : Prop := 0 < st.active s ∨ ∀ m, cfg.sb m ≠ s

variable [Fintype M] [DecidableEq S]

instance (st : Tables M S) (s : S) : Decidable (Holds cfg st s) := inferInstanceAs (Decidable (_ ∨ _))

variable [LinearOrder M] [Fintype S]

/-- The files on `m`. -/
def pinsOn (cfg : Config M S) (st : Tables M S) (m : M) : ℕ :=
  if cfg.fixInternalClone then 0 else (Finset.univ.filter fun s => st.pin s = some m ∧ Holds cfg st s).card

/-- The files that live on `s` through an internal clone. -/
def clonesOf (cfg : Config M S) (st : Tables M S) (s : S) : ℕ :=
  if cfg.fixInternalClone then
    (Finset.univ.filter fun t => (st.pin t).map cfg.sb = some s ∧ Holds cfg st t).card
  else 0

/-- The parent holds the reference of an attached unmounted child, with `fixDisown`
of a tombstone only. -/
def Owned (cfg : Config M S) (st : Tables M S) (m : M) : Prop :=
  st.attached m = true ∧ st.ns m = false ∧ (cfg.fixDisown = true → st.tomb m = true)

instance (st : Tables M S) (m : M) : Decidable (Owned cfg st m) := inferInstanceAs (Decidable (_ ∧ _))

/-- The mounts that wait for their cleanup to put `m`. -/
def stuckIn (st : Tables M S) (m : M) : ℕ := (Finset.univ.filter fun p => m ∈ st.stuck p).card

def refs (cfg : Config M S) (ext hand : M → ℕ) (st : Tables M S) (m : M) : ℕ :=
  ext m + hand m + pinsOn cfg st m + (st.ns m).toNat + st.unm.count m + (st.release m).toNat +
    (if Owned cfg st m then 1 else 0) + stuckIn st m

/-- `m` keeps the superblock active, unless the operation is just freeing it. -/
def Uses (st : Tables M S) (busy : Option M) (s : S) (m : M) : Prop :=
  st.freed m = false ∧ busy ≠ some m ∧ (st.sb m = s ∨ st.release m = true ∧ st.oldsb m = s)

instance (st : Tables M S) (busy : Option M) (s : S) (m : M) : Decidable (Uses st busy s m) :=
  inferInstanceAs (Decidable (_ ∧ _))

def users (st : Tables M S) (busy : Option M) (s : S) : ℕ := (Finset.univ.filter fun m => Uses st busy s m).card

/-- The operation in progress has the references `hand` and the active counts `owe`
still to drop, is freeing `busy` and has the victims `due` still to unmount. -/
structure Sound (cfg : Config M S) (ext hand : M → ℕ) (owe : S → ℕ) (busy : Option M) (due : Finset M)
    (st : Tables M S) : Prop where
  count : ∀ m, st.count m = refs cfg ext hand st m
  active : ∀ s, s ≠ cfg.nullSb → st.active s = users st busy s + clonesOf cfg st s + owe s
  null_active : st.active cfg.nullSb = 0
  null_pin : st.pin cfg.nullSb = none
  doomed : ∀ m, st.doomed m = true ↔ st.count m = 0
  freed : ∀ m, st.freed m = true → st.doomed m = true
  freeing : ∀ m, busy = some m → st.doomed m = true ∧ st.freed m = false
  queued : ∀ m, m ∈ st.cleanq ↔ st.freed m = false ∧ busy ≠ some m ∧ (st.doomed m = true ∨ st.release m = true)
  stuck : ∀ m, st.stuck m ≠ ∅ → m ∈ st.cleanq
  parent : ∀ m p, st.parent m = some p → cfg.parent m = some p ∧ st.attached m = true ∧ st.doomed m = false
  below : ∀ m p, st.parent m = some p →
    st.doomed p = false ∧ st.tomb p = false ∧ (m ∉ due → st.umount m = st.umount p)
  attached : ∀ m, st.ns m = false → st.attached m = true → st.parent m ≠ none
  mounted : ∀ m, st.umount m = false → st.attached m = true ∧ st.parent m = cfg.parent m
  ns : ∀ m, st.ns m = true ↔ st.umount m = false ∨ m ∈ due
  tomb : ∀ m, st.tomb m = true ↔ st.sb m = cfg.nullSb
  sb : ∀ m, st.tomb m = false → st.sb m = cfg.sb m
  released : ∀ m, st.release m = true → st.tomb m = true ∧ st.oldsb m = cfg.sb m
  disowned : ∀ m, st.tomb m = true → cfg.fixDisown = true ∧ st.ns m = false

/-! ### What the books look at -/

omit [Fintype M] [DecidableEq S] [LinearOrder M] [Fintype S] in
theorem holds_congr (active : after.active = st.active) (s : S) : Holds cfg after s ↔ Holds cfg st s := by
  unfold Holds
  rw [active]

theorem pinsOn_congr (pin : after.pin = st.pin) (holds : ∀ s, Holds cfg after s ↔ Holds cfg st s) :
    pinsOn cfg after m = pinsOn cfg st m := by
  unfold pinsOn
  simp only [pin, holds]

omit [LinearOrder M] in
theorem clonesOf_congr (pin : after.pin = st.pin) (holds : ∀ s, Holds cfg after s ↔ Holds cfg st s) :
    clonesOf cfg after s = clonesOf cfg st s := by
  unfold clonesOf
  simp only [pin, holds]

omit [Fintype S] in
theorem users_congr (uses : ∀ x, Uses after busy s x ↔ Uses st busy s x) : users after busy s = users st busy s := by
  unfold users
  simp only [uses]

/-! ### mntput() -/

structure Last (cfg : Config M S) (ext hand : M → ℕ) (st : Tables M S) (m : M) : Prop where
  ext : ext m = 0
  hand : hand m = 0
  pins : pinsOn cfg st m = 0
  ns : st.ns m = false
  unm : st.unm.count m = 0
  release : st.release m = false
  owned : ¬ Owned cfg st m
  stuck : stuckIn st m = 0

/-- What has no reference but the ones in hand. -/
theorem Last.of_refs (none : refs cfg ext hand st m = 0) : Last cfg ext hand st m := by
  unfold refs at none
  have ns : (st.ns m).toNat = 0 := by omega
  have release : (st.release m).toNat = 0 := by omega
  refine ⟨by omega, by omega, by omega, by simpa using ns, by omega, by simpa using release, fun owned => ?_, by omega⟩
  rw [if_pos owned] at none
  omega

theorem Last.refs (last : Last cfg ext hand st m) : refs cfg ext hand st m = 0 := by
  simp [MntOwn.refs, last.ext, last.hand, last.pins, last.ns, last.unm, last.release, last.owned, last.stuck]

theorem refs_hand (extra : M → ℕ) : refs cfg ext (hand + extra) st m = refs cfg ext hand st m + extra m := by
  unfold refs
  simp only [Pi.add_apply]
  omega

theorem Sound.last (ok : Sound cfg ext (hand + one m) owe busy due st) (last : st.count m ≤ 1) :
    Last cfg ext hand st m := by
  have count := ok.count m
  rw [refs_hand, one_self] at count
  exact .of_refs (by omega)

theorem Sound.held (ok : Sound cfg ext (hand + one m) owe busy due st) : 1 ≤ st.count m := by
  have count := ok.count m
  rw [refs_hand, one_self] at count
  omega

/-- A doomed mount has no reference left. -/
theorem Sound.gone (ok : Sound cfg ext hand owe busy due st) (doomed : st.doomed m = true) : Last cfg ext hand st m := by
  have count := ok.count m
  rw [(ok.doomed m).mp doomed] at count
  exact .of_refs (by omega)

/-- A reference that is not the last one goes. -/
theorem Sound.setCount (ok : Sound cfg ext (hand + one m) owe busy due st) (more : 1 < st.count m) :
    Sound cfg ext hand owe busy due (st.setCount m (st.count m - 1)) :=
  { ok with
    count := fun x => by
      have count := ok.count x
      rw [refs_hand] at count
      change Function.update st.count m (st.count m - 1) x = refs cfg ext hand st x
      by_cases here : x = m
      · subst here
        rw [one_self] at count
        rw [Function.update_self]
        omega
      · rw [one_other here] at count
        rw [Function.update_of_ne here, count, add_zero]
    doomed := fun x => by
      change st.doomed x = true ↔ Function.update st.count m (st.count m - 1) x = 0
      rw [ok.doomed]
      by_cases here : x = m
      · subst here
        rw [Function.update_self]
        omega
      · rw [Function.update_of_ne here] }

theorem Sound.mem_children (ok : Sound cfg ext hand owe busy due st) : x ∈ st.children m ↔ st.parent x = some m := by
  simp only [Tables.children, Finset.mem_filter, Finset.mem_univ, true_and]
  refine ⟨fun child => child.2.1, fun child => ?_⟩
  obtain ⟨-, attached, alive⟩ := ok.parent x m child
  refine ⟨?_, child, attached⟩
  by_contra freed
  have := ok.freed x (by simpa using freed)
  simp [alive] at this

omit [Fintype M] [DecidableEq S] [LinearOrder M] [Fintype S] in
theorem Config.WellFormed.parent_ne (wf : cfg.WellFormed) (parent : cfg.parent m = some p) : m ≠ p := by
  obtain ⟨rank, falls⟩ := wf.tree
  rintro rfl
  exact lt_irrefl _ (falls m m parent)

end LinuxTla.MntOwn
