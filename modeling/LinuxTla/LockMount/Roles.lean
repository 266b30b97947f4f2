import LinuxTla.LockMount.Place

/-! What every task knows at its label. Only the holder of namespace_sem changes the tree,
so what the others know does not go stale. -/

namespace LinuxTla.LockMount

open Lib

/-- The task holds namespace_sem. -/
def Label.Holds (l : Label) : Prop :=
  l ∈ [Label.lmW2, .gmStart, .gmLookup, .gmSet, .gmCreate, .lmFail, .lmOk, .amCheck, .amAttach, .umUnlock, .dmBody, .dmUnlock,
    .uTree, .uUnlock]

/-- A mounter may have its temporary reference. -/
def Label.Carries (l : Label) : Prop :=
  l ∈ [Label.lmIlock, .lmNsem, .lmW2, .gmStart, .gmLookup, .gmSet, .gmCreate, .lmFail, .lmOk]

/-- A mounter has looked the place up under the locks. -/
def Label.Placed (l : Label) : Prop := l ∈ [Label.gmStart, .gmLookup, .gmSet, .gmCreate, .lmOk, .amCheck, .amAttach]

def Label.Pinned (l : Label) : Prop := l ∈ [Label.lmOk, .amCheck, .amAttach, .umUnlock]

/-- Mounts wait for namespace_unlock(). -/
def Label.Unlocks (l : Label) : Prop := l ∈ [Label.dmUnlock, .uUnlock]

instance (l : Label) : Decidable l.Holds := inferInstanceAs (Decidable (_ ∈ _))
instance (l : Label) : Decidable l.Carries := inferInstanceAs (Decidable (_ ∈ _))
instance (l : Label) : Decidable l.Placed := inferInstanceAs (Decidable (_ ∈ _))
instance (l : Label) : Decidable l.Pinned := inferInstanceAs (Decidable (_ ∈ _))
instance (l : Label) : Decidable l.Unlocks := inferInstanceAs (Decidable (_ ∈ _))

theorem Label.Placed.holds {l : Label} (placed : l.Placed) : l.Holds := by
  revert placed
  cases l <;> decide

theorem Label.Pinned.holds {l : Label} (pinned : l.Pinned) : l.Holds := by
  revert pinned
  cases l <;> decide

theorem Label.Unlocks.alone {l : Label} (unlocks : l.Unlocks) : ¬ l.Carries ∧ ¬ l.Pinned := by
  revert unlocks
  cases l <;> decide

theorem Label.Unlocks.holds {l : Label} (unlocks : l.Unlocks) : l.Holds := by
  revert unlocks
  cases l <;> decide

variable {M E N T : Type}
  {cfg : Config M E N T} {st after : Tables M E N T} {own : M → ℕ} {x y p : M} {d e : E}
  {t u : Task T} {k : T} {l m : Local M E}

/-- What the task knows, at its label and with its variables. -/
structure Role (cfg : Config M E N T) (st : Tables M E N T) (t : Task T) (l : Local M E) : Prop where
  tmp : ∀ x, l.tmp = some x → l.pc.Carries ∧ ∃ k d, t = .mounter k ∧ x ≠ (cfg.info k).pm ∧ l.wm = some (x, d)
  todo : l.todo = ∅ ∨ l.pc.Unlocks
  loose : ∀ y ∈ l.todo, ¬ st.HasParent y
  ret : l.ret = .done ∨ l.ret = .rUnlock ∨ l.ret = .dFind
  pins : ∀ d, t ∈ (st.den d).pins ↔ l.pc.Pinned ∧ ∃ p, l.wm = some (p, d)
  place : l.pc.Placed → ∀ k p d, t = .mounter k → l.wm = some (p, d) → Place cfg st k p d ∧ (st.den d).cant = false
  creating : l.pc = .gmCreate → ∀ p d, l.wm = some (p, d) → (st.den d).mounted = true
  target : l.pc = .uTree → ∀ x, cfg.umountTarget = some x → (st.mnt x).alive = true ∧ st.HasParent x

variable [LinearOrder M]

def Local.refs (l : Local M E) : M → ℕ := l.tmp.elim 0 one + members l.todo

theorem Local.refs_congr (tmp : l.tmp = m.tmp) (todo : l.todo = m.todo) : l.refs = m.refs := by
  rw [Local.refs, Local.refs, tmp, todo]

omit [LinearOrder M] in
/-- Without namespace_sem a task knows nothing that could go stale. -/
theorem Role.away (role : Role cfg st u l) (idle : ¬ l.pc.Holds)
    (pins : ∀ d, u ∈ (after.den d).pins ↔ u ∈ (st.den d).pins) : Role cfg after u l where
  tmp := role.tmp
  todo := role.todo
  loose y inside := by
    obtain empty | unlocks := role.todo
    · rw [empty] at inside
      exact absurd inside (Finset.notMem_empty y)
    · exact absurd unlocks.holds idle
  ret := role.ret
  pins d := (pins d).trans (role.pins d)
  place placed := absurd placed.holds idle
  creating here := by
    rw [here] at idle
    exact absurd (by decide) idle
  target here := by
    rw [here] at idle
    exact absurd (by decide) idle

/-- Only counts and the names of dentries differ. -/
structure Same (st after : Tables M E N T) : Prop where
  mnt : ∀ x, ∃ c, after.mnt x = { st.mnt x with count := c }
  pins : ∀ d, (after.den d).pins = (st.den d).pins
  mp : ∀ d, (after.den d).mp = (st.den d).mp
  mounted : ∀ d, (after.den d).mounted = (st.den d).mounted
  cant : ∀ d, (after.den d).cant = (st.den d).cant

omit [LinearOrder M] in
theorem Same.refl (st : Tables M E N T) : Same st st :=
  ⟨fun x => ⟨(st.mnt x).count, rfl⟩, fun _ => rfl, fun _ => rfl, fun _ => rfl, fun _ => rfl⟩

omit [LinearOrder M] in
theorem Same.linked (same : Same st after) : after.HasParent x ↔ st.HasParent x := by
  obtain ⟨_, mnt⟩ := same.mnt x
  rw [Tables.HasParent, Tables.HasParent, mnt]

omit [LinearOrder M] in
theorem Same.alive (same : Same st after) : (after.mnt x).alive = (st.mnt x).alive := by
  obtain ⟨_, mnt⟩ := same.mnt x
  rw [mnt]

variable [Fintype M] [DecidableEq E]

theorem Same.mlist (same : Same st after) (d : E) : after.mlist d = st.mlist d := by
  ext y
  obtain ⟨_, mnt⟩ := same.mnt y
  rw [mem_mlist, mem_mlist, same.linked, mnt]

theorem Same.used (same : Same st after) (used : Used st) : Used after := by
  intro d
  rw [Listed, same.mlist, same.pins, same.mp]
  exact used d

omit [Fintype M] [DecidableEq E] [LinearOrder M] in
theorem Same.place (same : Same st after) (place : Place cfg st k p d) : Place cfg after k p d := by
  obtain ⟨alive, joined, ns, vacant⟩ := place
  refine ⟨same.alive.trans alive, joined.imp_right same.linked.mpr, ?_, fun y on linked parent => ?_⟩
  · obtain ⟨_, mnt⟩ := same.mnt p
    rw [mnt]
    exact ns
  · obtain ⟨_, mnt⟩ := same.mnt y
    rw [mnt] at on parent ⊢
    exact vacant y on (same.linked.mp linked) parent

omit [Fintype M] [DecidableEq E] [LinearOrder M] in
theorem Same.role (same : Same st after) (role : Role cfg st t l) : Role cfg after t l where
  tmp := role.tmp
  todo := role.todo
  loose y inside linked := role.loose y inside (same.linked.mp linked)
  ret := role.ret
  pins d := by
    rw [same.pins]
    exact role.pins d
  place placed k p d task answer := by
    obtain ⟨place, cant⟩ := role.place placed k p d task answer
    exact ⟨same.place place, (same.cant d).trans cant⟩
  creating here p d answer := (same.mounted d).trans (role.creating here p d answer)
  target here x target := by
    obtain ⟨alive, linked⟩ := role.target here x target
    exact ⟨same.alive.trans alive, same.linked.mpr linked⟩

end LinuxTla.LockMount
