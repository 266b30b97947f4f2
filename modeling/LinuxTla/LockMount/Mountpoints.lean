import LinuxTla.LockMount.Tree

/-! The struct mountpoint of a dentry exists exactly while its `m_list` holds a mount
or a pin; a mutator can only free it, and its flag goes with it. -/

namespace LinuxTla.LockMount

variable {M E N T : Type} [Fintype M] [LinearOrder M] [DecidableEq E] {cfg : Config M E N T}
  {st after last : Tables M E N T} {x y : M} {d e : E} {t : Task T}

theorem mem_mlist : x ∈ st.mlist d ↔ (st.mnt x).alive = true ∧ st.HasParent x ∧ (st.mnt x).mp = d := by
  simp [Tables.mlist]

theorem mlist_congr (mnt : after.mnt = st.mnt) : after.mlist d = st.mlist d := by
  ext x
  rw [mem_mlist, mem_mlist, Tables.HasParent, Tables.HasParent, mnt]

def Listed (st : Tables M E N T) (d : E) : Prop := st.mlist d ≠ ∅ ∨ (st.den d).pins ≠ ∅

theorem listed_congr (mnt : after.mnt = st.mnt) (pins : (after.den d).pins = (st.den d).pins) :
    Listed after d ↔ Listed st d := by rw [Listed, Listed, mlist_congr mnt, pins]

def Used (st : Tables M E N T) : Prop := ∀ d, (st.den d).mp = true ↔ Listed st d

/-- Mountpoints may have been freed, nothing else happened to the dentries. -/
structure Freeing (st after : Tables M E N T) : Prop where
  unhashed : ∀ d, (after.den d).unhashed = (st.den d).unhashed
  cant : ∀ d, (after.den d).cant = (st.den d).cant
  pins : ∀ d, (after.den d).pins = (st.den d).pins
  mp : ∀ d, (after.den d).mp = (st.den d).mp ∧ (after.den d).mounted = (st.den d).mounted ∨
    (st.den d).mp = true ∧ (after.den d).mp = false ∧ (after.den d).mounted = false

omit [Fintype M] [LinearOrder M] [DecidableEq E] in
theorem Freeing.of_den (same : after.den = st.den) : Freeing st after := by
  constructor <;> simp [same]

omit [Fintype M] [LinearOrder M] [DecidableEq E] in
theorem Freeing.trans (first : Freeing st after) (second : Freeing after last) : Freeing st last where
  unhashed d := (second.unhashed d).trans (first.unhashed d)
  cant d := (second.cant d).trans (first.cant d)
  pins d := (second.pins d).trans (first.pins d)
  mp d := by
    have := first.mp d
    have := second.mp d
    grind

variable [DecidableEq T]

theorem freeing_maybeFree (st : Tables M E N T) (d : E) : Freeing st (st.maybeFree d) := by
  unfold Tables.maybeFree
  split
  · case isTrue free =>
    constructor <;> intro e
    · by_cases here : e = d <;> simp_all
    · by_cases here : e = d <;> simp_all
    · by_cases here : e = d <;> simp_all
    · by_cases here : e = d <;> simp_all
  · exact .of_den rfl

/-- Only the dentry that lost something has to be looked at. -/
theorem used_maybeFree (others : ∀ e, e ≠ d → ((st.den e).mp = true ↔ Listed st e))
    (there : Listed st d → (st.den d).mp = true) : Used (st.maybeFree d) := by
  intro e
  have listed : Listed (st.maybeFree d) e ↔ Listed st e :=
    listed_congr Tables.maybeFree_mnt ((freeing_maybeFree st d).pins e)
  rw [listed]
  unfold Tables.maybeFree
  by_cases here : e = d
  · subst here
    by_cases free : st.mlist e = ∅ ∧ (st.den e).pins = ∅ ∧ (st.den e).mp = true
    · rw [if_pos free]
      simp [Listed, free]
    · rw [if_neg free]
      refine ⟨fun mp => ?_, there⟩
      by_contra none
      unfold Listed at none
      push Not at none
      exact free ⟨none.1, none.2, mp⟩
  · split
    · rw [Tables.setDen_den, Function.update_of_ne here]
      exact others e here
    · exact others e here

theorem Used.umountMnt (used : Used st) (alive : (st.mnt x).alive = true) (linked : st.HasParent x) :
    Used (st.umountMnt x) ∧ Freeing st (st.umountMnt x) := by
  have moved : Freeing st (st.setMnt x ((st.mnt x).disconnect x)) := .of_den rfl
  refine ⟨?_, moved.trans (freeing_maybeFree _ _)⟩
  have shorter : ∀ e y, y ∈ (st.setMnt x ((st.mnt x).disconnect x)).mlist e ↔ y ∈ st.mlist e ∧ y ≠ x := by
    intro e y
    rw [mem_mlist, mem_mlist, Tables.HasParent, Tables.HasParent, Tables.setMnt_mnt]
    by_cases here : y = x
    · subst here
      simp [Mount.disconnect]
    · simp [here]
  change Used ((st.setMnt x ((st.mnt x).disconnect x)).maybeFree _)
  apply used_maybeFree
  · intro e other
    have same : (st.setMnt x ((st.mnt x).disconnect x)).mlist e = st.mlist e := by
      ext y
      rw [shorter]
      refine ⟨And.left, fun inside => ⟨inside, ?_⟩⟩
      rintro rfl
      exact other (mem_mlist.mp inside).2.2.symm
    rw [Listed, same]
    exact used e
  · intro _
    exact (used _).mpr (.inl (Finset.ne_empty_of_mem (mem_mlist.mpr ⟨alive, linked, rfl⟩)))

theorem Used.umountAll (used : Used st) {xs : List M} (distinct : xs.Nodup)
    (listed : ∀ x ∈ xs, (st.mnt x).alive = true ∧ st.HasParent x) :
    Used (st.umountAll xs) ∧ Freeing st (st.umountAll xs) := by
  induction xs generalizing st with
  | nil => exact ⟨used, .of_den rfl⟩
  | cons x xs ih =>
    obtain ⟨fresh, distinct⟩ := List.nodup_cons.mp distinct
    obtain ⟨alive, linked⟩ := listed x List.mem_cons_self
    obtain ⟨first, freed⟩ := used.umountMnt alive linked
    obtain ⟨rest, freed'⟩ := ih first distinct fun y inside => by
      have other : y ≠ x := fun same => fresh (same ▸ inside)
      rw [Tables.HasParent, Tables.umountMnt_mnt, if_neg other]
      exact listed y (List.mem_cons_of_mem x inside)
    exact ⟨rest, freed.trans freed'⟩

theorem Used.pin (used : Used st) (there : (st.den d).mp = true) : Used (st.pin t d) := by
  intro e
  by_cases here : e = d
  · subst here
    simp [Listed, there]
  · have same : Listed (st.pin t d) e ↔ Listed st e := listed_congr rfl (by simp [here])
    rw [same, Tables.pin_den, Function.update_of_ne here]
    exact used e

theorem Used.unpin (used : Used st) : Used (st.unpin t d) := by
  unfold Tables.unpin
  apply used_maybeFree
  · intro e other
    have same : Listed (st.setDen d { st.den d with pins := (st.den d).pins.erase t }) e ↔ Listed st e :=
      listed_congr rfl (by simp [other])
    rw [same, Tables.setDen_den, Function.update_of_ne other]
    exact used e
  · intro listed
    have there : Listed st d := by
      rcases listed with mounts | pins
      · exact .inl mounts
      · refine .inr fun empty => pins ?_
        simp [empty]
    simpa using (used d).mpr there

end LinuxTla.LockMount
