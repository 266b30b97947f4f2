import LinuxTla.LockMount.Forest

/-! The last mntput() of a mount and detach_mounts(): who dies is not connected any more,
and a dentry that is no mountpoint loses its flag. -/

namespace LinuxTla.LockMount

open Lib

variable {M E N T : Type}
  {cfg : Config M E N T} {st after : Tables M E N T} {own : M → ℕ} {s : Finset M} {x y p : M} {d e : E}
  {t : Task T}

/-! ### mntput() -/

/-- The references to put are on mounts that are not connected, or there is only one. -/
def Loose (st : Tables M E N T) (s : Finset M) : Prop := ∀ y ∈ s, ¬ st.HasParent y ∨ s = {y}

variable [LinearOrder M]

/-- A mount that dies is not connected, and nobody else refers to it. -/
theorem Forest.last (ok : Forest cfg (own + members s) st) (inside : x ∈ s) (last : ¬ 0 < (st.mnt x).count - 1) :
    (st.mnt x).alive = true ∧ ¬ st.HasParent x ∧ own x = 0 := by
  have alive : (st.mnt x).alive = true := by
    by_contra dead
    have none := ok.dead x (by simpa using dead)
    rw [Pi.add_apply, members_mem inside] at none
    omega
  have count := ok.count x alive
  rw [Pi.add_apply, members_mem inside] at count
  refine ⟨alive, fun linked => ?_, ?_⟩
  · rw [if_pos linked] at count
    omega
  · split_ifs at count <;> omega

variable [Fintype M] [DecidableEq E] [DecidableEq T]

theorem die_alive (st : Tables M E N T) (x y : M) : ((st.die x).mnt y).alive = true ↔ (st.mnt y).alive = true ∧ y ≠ x := by
  rw [Tables.die_mnt]
  by_cases child : y ∈ st.children x
  · rw [if_pos child]
    have inside := Tables.mem_children.mp child
    exact ⟨fun _ => ⟨inside.1, inside.2.1⟩, fun _ => inside.1⟩
  · rw [if_neg child]
    by_cases here : y = x
    · rw [if_pos here]
      exact ⟨fun on => (Bool.false_ne_true on).elim, fun other => absurd here other.2⟩
    · rw [if_neg here]
      exact ⟨fun on => ⟨on, here⟩, And.left⟩

theorem die_linked (st : Tables M E N T) (x y : M) : (st.die x).HasParent y ↔ st.HasParent y ∧ y ∉ st.children x := by
  rw [Tables.HasParent, Tables.die_mnt, Tables.HasParent]
  by_cases child : y ∈ st.children x
  · rw [if_pos child]
    exact ⟨fun linked => absurd rfl linked, fun other => absurd child other.2⟩
  · rw [if_neg child]
    split_ifs <;> exact ⟨fun linked => ⟨linked, child⟩, And.left⟩

/-- cleanup_mnt() takes over the references of the stuck children. -/
theorem Forest.die (ok : Forest cfg (own + members s) st) (kept : ∀ y, IsRoot cfg y → own y ≠ 0) (inside : x ∈ s)
    (last : ¬ 0 < (st.mnt x).count - 1) :
    Cut st (st.die x) ∧ Forest cfg (own + members (s.erase x) + members (st.children x)) (st.die x) := by
  obtain ⟨alive, bare, spent⟩ := ok.last inside last
  have other (y : M) (child : y ∉ st.children x) (apart : y ≠ x) : (st.die x).mnt y = st.mnt y := by
    rw [Tables.die_mnt, if_neg child, if_neg apart]
  have cut : Cut st (st.die x) := {
    alive := fun y on => ((die_alive st x y).mp on).1
    freed := fun y on => by
      obtain ⟨_, apart⟩ := (die_alive st x y).mp on
      rw [Tables.die_mnt, if_neg apart]
      split_ifs <;> rfl
    hashed := fun y => by
      rw [die_alive, die_linked, Tables.die_mnt]
      have hashed := ok.hashed y
      by_cases child : y ∈ st.children x
      · rw [if_pos child]
        exact ⟨fun on => (Bool.false_ne_true on).elim, fun both => absurd child both.2.2⟩
      · rw [if_neg child]
        by_cases here : y = x
        · rw [if_pos here]
          exact ⟨fun on => (Bool.false_ne_true on).elim, fun both => absurd here both.1.2⟩
        · rw [if_neg here, hashed]
          exact ⟨fun both => ⟨⟨both.1, here⟩, both.2, child⟩, fun both => ⟨both.1.1, both.2.1⟩⟩
    linked := fun y linked => by
      obtain ⟨before, child⟩ := (die_linked st x y).mp linked
      refine ⟨before, ?_⟩
      rw [Tables.die_mnt, if_neg child]
      split_ifs <;> exact ⟨rfl, rfl⟩
    parent := fun y on linked => by
      obtain ⟨before, apart⟩ := (die_alive st x y).mp on
      obtain ⟨_, child⟩ := (die_linked st x y).mp linked
      refine (die_alive st x _).mpr ⟨ok.parent y before, fun same => child ?_⟩
      exact Tables.mem_children.mpr ⟨before, apart, same⟩ }
  refine ⟨cut, ok.cut cut ?_ ?_ ?_ ?_ ?_⟩
  · intro y on
    obtain ⟨before, apart⟩ := (die_alive st x y).mp on
    have count := ok.count y before
    rw [Pi.add_apply, members_erase inside, Pi.add_apply, one_other apart] at count
    rw [Pi.add_apply, Pi.add_apply, if_congr (die_linked st x y) rfl rfl]
    by_cases child : y ∈ st.children x
    · have linked : st.HasParent y := by
        obtain ⟨_, other, parent⟩ := Tables.mem_children.mp child
        rw [Tables.HasParent, parent]
        exact other.symm
      rw [if_pos linked] at count
      rw [if_neg fun both => both.2 child, members_mem child, Tables.die_mnt, if_pos child]
      change (st.mnt y).count = _
      omega
    · rw [members_notMem child, other y child apart]
      simp only [child, not_false_eq_true, and_true]
      omega
  · intro y off
    rw [Pi.add_apply, Pi.add_apply]
    by_cases here : y = x
    · subst here
      rw [spent, members_notMem (Finset.notMem_erase y s), members_notMem fun child => (Tables.mem_children.mp child).2.1 rfl]
    · have before : (st.mnt y).alive = false := by
        by_contra on
        exact absurd ((die_alive st x y).mpr ⟨by simpa using on, here⟩) (by rw [off]; decide)
      have none := ok.dead y before
      rw [Pi.add_apply, members_erase inside, Pi.add_apply, one_other here] at none
      have outside : y ∉ st.children x := fun child => by
        have on := (Tables.mem_children.mp child).1
        rw [before] at on
        cases on
      rw [members_notMem outside]
      omega
  · intro y on linked above
    obtain ⟨before, _⟩ := (die_alive st x y).mp on
    obtain ⟨joined, child⟩ := (die_linked st x y).mp linked
    have ns (z : M) : ((st.die x).mnt z).ns = (st.mnt z).ns := by
      rw [Tables.die_mnt]
      split_ifs <;> rfl
    rw [ns] at above ⊢
    exact ok.inherit y before joined above
  · intro y on
    obtain ⟨before, _⟩ := (die_alive st x y).mp on
    have same : ((st.die x).mnt y).umount = (st.mnt y).umount ∧ ((st.die x).mnt y).ns = (st.mnt y).ns := by
      rw [Tables.die_mnt]
      split_ifs <;> exact ⟨rfl, rfl⟩
    rw [same.1, same.2]
    exact ok.umount y before
  · intro y root
    obtain ⟨on, _, ns⟩ := ok.root y root
    have apart : y ≠ x := by
      rintro rfl
      exact kept y root spent
    refine ⟨(die_alive st x y).mpr ⟨on, apart⟩, ?_⟩
    have same : ((st.die x).mnt y).ns = (st.mnt y).ns := by
      rw [Tables.die_mnt]
      split_ifs <;> rfl
    rw [same]
    exact ns

theorem Used.die (used : Used st) (bare : ¬ st.HasParent x) : Used (st.die x) ∧ Freeing st (st.die x) := by
  have gone (d : E) : (st.kill x).mlist d = st.mlist d := by
    ext y
    rw [mem_mlist, mem_mlist, Tables.HasParent, Tables.HasParent, Tables.kill_mnt]
    by_cases here : y = x
    · subst here
      rw [Function.update_self]
      exact ⟨fun inside => absurd inside.2.1 bare, fun inside => absurd inside.2.1 bare⟩
    · rw [Function.update_of_ne here]
  have killed : Used (st.kill x) := fun d => by
    rw [Listed, gone]
    exact used d
  have moved : Freeing st (st.kill x) := .of_den rfl
  obtain ⟨all, freed⟩ := killed.umountAll (Finset.sort_nodup (st.children x) (· ≤ ·)) fun y inside => by
    obtain ⟨on, other, parent⟩ := Tables.mem_children.mp (Tables.mem_ordered.mp inside)
    rw [Tables.HasParent, Tables.kill_mnt, Function.update_of_ne other, parent]
    exact ⟨on, other.symm⟩
  exact ⟨all, moved.trans freed⟩

omit [LinearOrder M] [Fintype M] [DecidableEq E] [DecidableEq T] in
theorem Cut.trans {last : Tables M E N T} (first : Cut st after) (second : Cut after last) : Cut st last where
  alive x on := first.alive x (second.alive x on)
  freed x on := (second.freed x on).trans (first.freed x (second.alive x on))
  hashed := second.hashed
  linked x linked := by
    obtain ⟨before, parent, mp⟩ := second.linked x linked
    obtain ⟨start, parent', mp'⟩ := first.linked x before
    exact ⟨start, parent.trans parent', mp.trans mp'⟩
  parent x on linked := by
    obtain ⟨before, parent, _⟩ := second.linked x linked
    have above := second.parent x on linked
    rw [(first.linked x before).2.1] at above
    exact above

omit [Fintype M] [DecidableEq E] [DecidableEq T] in
theorem Cut.refl (ok : Forest cfg own st) : Cut st st :=
  ⟨fun _ => id, fun _ _ => rfl, ok.hashed, fun _ linked => ⟨linked, rfl, rfl⟩, fun x on _ => ok.parent x on⟩

omit [Fintype M] [DecidableEq E] [DecidableEq T] in
theorem Cut.recount (ok : Forest cfg own st) (x : M) (c : ℤ) : Cut st (st.setCount x c) := by
  have same := setCount_same st x c
  have alive (y : M) : ((st.setCount x c).mnt y).alive = (st.mnt y).alive := by
    obtain ⟨_, same⟩ := same y
    rw [same]
  have linked (y : M) : (st.setCount x c).HasParent y ↔ st.HasParent y := by
    obtain ⟨_, same⟩ := same y
    rw [Tables.HasParent, Tables.HasParent, same]
  refine ⟨fun y on => alive y ▸ on, fun y _ => ?_, fun y => ?_, fun y joined => ⟨(linked y).mp joined, ?_⟩, fun y on _ => ?_⟩
  · obtain ⟨_, same⟩ := same y
    rw [same]
  · rw [alive, linked, ← ok.hashed]
    obtain ⟨_, same⟩ := same y
    rw [same]
  · obtain ⟨_, same⟩ := same y
    rw [same]
    exact ⟨rfl, rfl⟩
  · rw [alive] at on ⊢
    exact ok.parent y on

omit [DecidableEq T] in
theorem used_setCount (used : Used st) (x : M) (c : ℤ) : Used (st.setCount x c) := by
  intro d
  have same : (st.setCount x c).mlist d = st.mlist d := by
    ext y
    obtain ⟨_, same⟩ := setCount_same st x c y
    rw [mem_mlist, mem_mlist, Tables.HasParent, Tables.HasParent, same]
  rw [Listed, same]
  exact used d

/-- What is left after references were put. -/
structure Puts (cfg : Config M E N T) (own : M → ℕ) (st after : Tables M E N T) : Prop where
  forest : Forest cfg own after
  used : Used after
  cut : Cut st after
  freeing : Freeing st after

/-- mntput() of a set gives every reference back, and frees what nobody refers to. -/
theorem puts_put (st : Tables M E N T) (s : Finset M) (ok : Forest cfg (own + members s) st) (used : Used st)
    (loose : Loose st s) (kept : ∀ y, IsRoot cfg y → own y ≠ 0) : Puts cfg own st (st.put s) := by
  induction st, s using Tables.put.induct with
  | case1 st s some' x more ih =>
    have inside : x ∈ s := s.min'_mem some'
    have count : own + members s = own + members (s.erase x) + one x := by
      rw [add_assoc, ← members_erase inside]
    have dropped := (count ▸ ok).drop
    rw [Tables.put, dif_pos some']
    dsimp only
    rw [if_pos more]
    obtain ⟨forest, used, cut, freeing⟩ := ih dropped (used_setCount used x _) fun y other => by
      obtain ⟨apart, within⟩ := Finset.mem_erase.mp other
      obtain ⟨_, same⟩ := setCount_same st x ((st.mnt x).count - 1) y
      rw [Tables.HasParent, same]
      refine .inl ((loose y within).resolve_right fun single => apart ?_)
      rw [single] at inside
      exact (Finset.mem_singleton.mp inside).symm
    have same : Freeing st (st.setCount x ((st.mnt x).count - 1)) := .of_den rfl
    exact ⟨forest, used, (Cut.recount ok x _).trans cut, same.trans freeing⟩
  | case2 st s some' x last ih =>
    have inside : x ∈ s := s.min'_mem some'
    obtain ⟨dying, forest⟩ := ok.die kept inside last
    have bare := (ok.last inside last).2.1
    obtain ⟨gone, freed⟩ := used.die bare
    have apart : Disjoint (s.erase x) (st.children x) := by
      rw [Finset.disjoint_left]
      intro y other child
      obtain ⟨differs, within⟩ := Finset.mem_erase.mp other
      obtain ⟨_, _, parent⟩ := Tables.mem_children.mp child
      obtain unlinked | single := loose y within
      · rw [Tables.HasParent, parent] at unlinked
        exact unlinked differs.symm
      · rw [single] at inside
        exact differs (Finset.mem_singleton.mp inside).symm
    rw [Tables.put, dif_pos some']
    dsimp only
    rw [if_neg last]
    rw [add_assoc, ← members_union apart] at forest
    obtain ⟨forest, used, cut, freeing⟩ := ih forest gone fun y other => by
      rw [die_linked]
      refine .inl fun linked => ?_
      obtain other | child := Finset.mem_union.mp other
      · obtain ⟨differs, within⟩ := Finset.mem_erase.mp other
        obtain unlinked | single := loose y within
        · exact unlinked linked.1
        · rw [single] at inside
          exact differs (Finset.mem_singleton.mp inside).symm
      · exact linked.2 child
    exact ⟨forest, used, dying.trans cut, freed.trans freeing⟩
  | case3 st s none =>
    obtain rfl := Finset.not_nonempty_iff_eq_empty.mp none
    rw [Tables.put, dif_neg none]
    rw [members_empty, add_zero] at ok
    exact ⟨ok, used, .refl ok, .of_den rfl⟩

/-- mntput() of a connected mount is not its last. -/
theorem put_linked (ok : Forest cfg (own + one x) st) (linked : st.HasParent x) :
    st.put {x} = st.setCount x ((st.mnt x).count - 1) := by
  have count := ok.count x ok.held
  rw [if_pos linked, Pi.add_apply, one_self] at count
  have least : ({x} : Finset M).min' (Finset.singleton_nonempty x) = x := Finset.min'_singleton x
  rw [Tables.put, dif_pos (Finset.singleton_nonempty x)]
  dsimp only
  rw [least, if_pos (by omega), Finset.erase_singleton, Tables.put, dif_neg Finset.not_nonempty_empty]

/-! ### detach_mounts() -/

theorem umountMnt_loose (st : Tables M E N T) (x : M) : ¬ (st.umountMnt x).HasParent x := by
  rw [Tables.HasParent, Tables.umountMnt_mnt, if_pos rfl]
  exact not_not_intro rfl

/-- The mounts `put` were disconnected on the way from `st` to `after`. -/
structure Detached (cfg : Config M E N T) (own : M → ℕ) (st after : Tables M E N T) (put : Finset M) : Prop where
  puts : Puts cfg (own + members put) st after
  loose : ∀ y ∈ put, ¬ after.HasParent y

theorem detachAll_detached (xs : List M) (put : Finset M) (ok : Forest cfg (own + members put) st) (used : Used st)
    (loose : ∀ y ∈ put, ¬ st.HasParent y) (distinct : xs.Nodup) (linked : ∀ y ∈ xs, (st.mnt y).alive = true ∧ st.HasParent y) :
    Detached cfg own st (st.detachAll put xs).1 (st.detachAll put xs).2 ∧ ∀ y ∈ xs, ¬ (st.detachAll put xs).1.HasParent y := by
  induction xs generalizing st put with
  | nil =>
    rw [Tables.detachAll]
    exact ⟨⟨⟨ok, used, .refl ok, .of_den rfl⟩, loose⟩, fun y none => absurd none List.not_mem_nil⟩
  | cons x xs ih =>
    obtain ⟨fresh, distinct⟩ := List.nodup_cons.mp distinct
    obtain ⟨alive, joined⟩ := linked x List.mem_cons_self
    have other {y : M} (inside : y ∈ xs) : y ≠ x := fun same => fresh (same ▸ inside)
    have go {u : Tables M E N T} {more : Finset M} (cut : Cut st u) (forest : Forest cfg (own + members put + members more) u)
        (gone : Used u) (freed : Freeing st u) (new : ∀ y ∈ more, st.HasParent y ∧ ¬ u.HasParent y) (self : x ∈ more)
        (rest : ∀ y ∈ xs, (u.mnt y).alive = true ∧ u.HasParent y) :
        Detached cfg own st (u.detachAll (put ∪ more) xs).1 (u.detachAll (put ∪ more) xs).2 ∧
          ∀ y ∈ x :: xs, ¬ (u.detachAll (put ∪ more) xs).1.HasParent y := by
      have apart : Disjoint put more := Finset.disjoint_left.mpr fun y inside within => loose y inside (new y within).1
      rw [add_assoc, ← members_union apart] at forest
      obtain ⟨⟨⟨forest, all, later, freed'⟩, bare⟩, done⟩ := ih (put ∪ more) forest gone (fun y inside => by
        obtain inside | inside := Finset.mem_union.mp inside
        · exact fun linked => loose y inside (cut.linked y linked).1
        · exact (new y inside).2) distinct rest
      refine ⟨⟨⟨forest, all, cut.trans later, freed.trans freed'⟩, bare⟩, fun y inside => ?_⟩
      obtain rfl | inside := List.mem_cons.mp inside
      · exact fun linked => (new y self).2 (later.linked y linked).1
      · exact done y inside
    rw [Tables.detachAll]
    split_ifs with unmounted
    · obtain ⟨cut, forest⟩ := ok.umountMnt alive joined
      obtain ⟨gone, freed⟩ := used.umountMnt alive joined
      rw [← members_singleton] at forest
      refine go cut forest gone freed (fun y inside => ?_) (Finset.mem_singleton_self x) fun y inside => ?_
      · obtain rfl := Finset.mem_singleton.mp inside
        exact ⟨joined, umountMnt_loose st y⟩
      · rw [Tables.HasParent, Tables.umountMnt_mnt, if_neg (other inside)]
        exact linked y (List.mem_cons_of_mem x inside)
    · obtain ⟨cut, forest, bare⟩ : Cut st (st.umountTree x true).1 ∧ _ := ok.umountTree alive joined
      obtain ⟨gone, freed⟩ : Used (st.umountTree x true).1 ∧ _ := used.umountTree alive joined
      refine go cut forest gone freed (fun y inside => ⟨?_, bare y inside⟩) mem_disconnected_self fun y inside => ?_
      · have within : y ∈ st.disconnected x true := inside
        exact (disconnected_linked alive joined within).2
      · have kept : y ∉ st.disconnected x true := fun within =>
          other inside (Finset.mem_singleton.mp within)
        obtain ⟨on, before⟩ := linked y (List.mem_cons_of_mem x inside)
        by_cases below : y ∈ st.tree x
        · rw [Tables.HasParent, umountTree_left below kept]
          exact ⟨on, before⟩
        · rw [Tables.HasParent, umountTree_out below kept]
          exact ⟨on, before⟩

omit [Fintype M] [DecidableEq E] [DecidableEq T] in
theorem Forest.of_mnt (ok : Forest cfg own st) (same : after.mnt = st.mnt) : Forest cfg own after := by
  refine ok.recount (fun x => ⟨(st.mnt x).count, ?_⟩) (fun x on => ?_) ok.dead
  · rw [same]
  · rw [same]
    exact ok.count x on

omit [LinearOrder M] [Fintype M] [DecidableEq E] [DecidableEq T] in
theorem Cut.of_mnt {last : Tables M E N T} (cut : Cut st after) (same : last.mnt = after.mnt) : Cut st last := by
  have linked (x : M) : last.HasParent x ↔ after.HasParent x := by rw [Tables.HasParent, Tables.HasParent, same]
  refine ⟨?_, ?_, fun x => ?_, fun x joined => ?_, fun x on joined => ?_⟩
  · rw [same]
    exact cut.alive
  · rw [same]
    exact cut.freed
  · rw [linked, same]
    exact cut.hashed x
  · rw [same]
    exact cut.linked x ((linked x).mp joined)
  · rw [same] at on ⊢
    exact cut.parent x on ((linked x).mp joined)

/-- Afterwards nothing is left on the dentry. -/
theorem detachBody_detached (ok : Forest cfg own st) (used : Used st) (all : cfg.fixLookupUnlinked = true)
    (out : t ∉ (st.den d).pins) : Detached cfg own st (st.detachBody cfg t d).1 (st.detachBody cfg t d).2 ∧
      (st.detachBody cfg t d).1.mlist d = ∅ := by
  unfold Tables.detachBody
  split_ifs with there
  · have pinned : Forest cfg (own + members ∅) (st.pin t d) := by
      rw [members_empty, add_zero]
      exact ok.of_mnt rfl
    have listed : ∀ y ∈ Tables.ordered (st.mlist d), ((st.pin t d).mnt y).alive = true ∧ (st.pin t d).HasParent y := by
      intro y inside
      obtain ⟨on, linked, _⟩ := mem_mlist.mp (Tables.mem_ordered.mp inside)
      exact ⟨on, linked⟩
    obtain ⟨⟨⟨forest, gone, cut, freed⟩, loose⟩, done⟩ := detachAll_detached (Tables.ordered (st.mlist d)) ∅ pinned
      (used.pin there.1) (fun y none => absurd none (Finset.notMem_empty y)) (Finset.sort_nodup _ _) listed
    generalize (st.pin t d).detachAll ∅ (Tables.ordered (st.mlist d)) = r at forest gone cut freed loose done
    have mnt : (r.1.unpin t d).mnt = r.1.mnt := by
      rw [Tables.unpin, Tables.maybeFree_mnt]
      rfl
    have erased : Freeing (r.1.setDen d { r.1.den d with pins := (r.1.den d).pins.erase t }) (r.1.unpin t d) :=
      freeing_maybeFree _ d
    have pins := freed.pins d
    rw [Tables.pin_den, Function.update_self] at pins
    have freeing : Freeing st (r.1.unpin t d) := by
      constructor
      · intro e
        rw [erased.unhashed e, Tables.setDen_den]
        by_cases here : e = d
        · subst here
          rw [Function.update_self]
          have same := freed.unhashed e
          rw [Tables.pin_den, Function.update_self] at same
          exact same
        · rw [Function.update_of_ne here, freed.unhashed e, Tables.pin_den, Function.update_of_ne here]
      · intro e
        rw [erased.cant e, Tables.setDen_den]
        by_cases here : e = d
        · subst here
          rw [Function.update_self]
          have same := freed.cant e
          rw [Tables.pin_den, Function.update_self] at same
          exact same
        · rw [Function.update_of_ne here, freed.cant e, Tables.pin_den, Function.update_of_ne here]
      · intro e
        rw [erased.pins e, Tables.setDen_den]
        by_cases here : e = d
        · subst here
          rw [Function.update_self]
          change (r.1.den e).pins.erase t = _
          rw [pins]
          exact Finset.erase_insert out
        · rw [Function.update_of_ne here, freed.pins e, Tables.pin_den, Function.update_of_ne here]
      · intro e
        have first := freed.mp e
        have second := erased.mp e
        rw [Tables.setDen_den] at second
        rw [Tables.pin_den] at first
        by_cases here : e = d
        · subst here
          rw [Function.update_self] at first second
          obtain ⟨mp, mounted⟩ | ⟨mp, off, clear⟩ := second
          · rw [mp, mounted]
            exact first
          · obtain ⟨mp', mounted'⟩ | ⟨mp', off', _⟩ := first
            · exact .inr ⟨there.1, off, clear⟩
            · exact .inr ⟨mp', off, clear⟩
        · rw [Function.update_of_ne here] at first second
          obtain ⟨mp, mounted⟩ | ⟨mp, off, clear⟩ := second
          · rw [mp, mounted]
            exact first
          · obtain ⟨mp', _⟩ | ⟨mp', off', _⟩ := first
            · exact .inr ⟨mp' ▸ mp, off, clear⟩
            · exact .inr ⟨mp', off, clear⟩
    have linked (y : M) : (r.1.unpin t d).HasParent y ↔ r.1.HasParent y := by
      rw [Tables.HasParent, Tables.HasParent, mnt]
    have before : Cut st r.1 := ⟨cut.alive, cut.freed, cut.hashed, cut.linked, cut.parent⟩
    refine ⟨⟨⟨forest.of_mnt mnt, gone.unpin, before.of_mnt mnt, freeing⟩, fun y inside => ?_⟩, ?_⟩
    · rw [linked]
      exact loose y inside
    · rw [Finset.eq_empty_iff_forall_notMem]
      intro y inside
      obtain ⟨on, joined, place⟩ := mem_mlist.mp inside
      rw [mnt] at on place
      have joined := (linked y).mp joined
      obtain ⟨start, _, same⟩ := before.linked y joined
      refine done y (Tables.mem_ordered.mpr (mem_mlist.mpr ⟨before.alive y on, start, ?_⟩)) joined
      rw [← same]
      exact place
  · have empty : Forest cfg (own + members ∅) st := by
      rw [members_empty, add_zero]
      exact ok
    refine ⟨⟨⟨empty, used, .refl ok, .of_den rfl⟩, fun y none => absurd none (Finset.notMem_empty y)⟩, ?_⟩
    by_contra listed
    exact there ⟨(used d).mpr (.inl listed), .inl all⟩

/-! ### The new mount -/

omit [Fintype M] [DecidableEq E] [DecidableEq T] in
theorem Forest.attach {n : N} (ok : Forest cfg own st) (free : (st.mnt x).alive = false) (alive : (st.mnt p).alive = true)
    (vacant : ∀ y, (st.mnt y).alive = true → st.HasParent y → (st.mnt y).parent = p → (st.mnt y).mp ≠ d) :
    Forest cfg own (st.attach cfg x p d n) := by
  have apart : p ≠ x := by
    rintro rfl
    rw [alive] at free
    cases free
  have other (y : M) (differs : y ≠ x) : (st.attach cfg x p d n).mnt y = st.mnt y := by
    rw [Tables.attach_mnt, Function.update_of_ne differs]
  have self : (st.attach cfg x p d n).mnt x = { fresh cfg x with
      alive := true, parent := p, mp := d, root := cfg.newRoot, hashed := true, ns := some n, count := 1 } := by
    rw [Tables.attach_mnt, Function.update_self]
  have joined : (st.attach cfg x p d n).HasParent x := by
    rw [Tables.HasParent, self]
    exact apart
  have linked (y : M) (differs : y ≠ x) : (st.attach cfg x p d n).HasParent y ↔ st.HasParent y := by
    rw [Tables.HasParent, Tables.HasParent, other y differs]
  have differs {y : M} (on : (st.mnt y).alive = true) : y ≠ x := by
    rintro rfl
    rw [on] at free
    cases free
  have above : (st.attach cfg x p d n).above = Function.update st.above x (some p) := by
    funext y
    by_cases here : y = x
    · subst here
      rw [Function.update_self, Tables.above, if_pos ⟨by rw [self], joined⟩, self]
    · rw [Function.update_of_ne here, Tables.above, Tables.above, other y here]
      simp only [linked y here]
  constructor
  case count =>
    intro y on
    by_cases here : y = x
    · subst here
      rw [if_pos joined, self, ok.dead y free]
      rfl
    · rw [other y here] at on ⊢
      rw [ok.count y on, if_congr (linked y here) rfl rfl]
  case dead =>
    intro y off
    by_cases here : y = x
    · subst here
      exact ok.dead y free
    · rw [other y here] at off
      exact ok.dead y off
  case freed =>
    intro y on
    by_cases here : y = x
    · subst here
      rw [self]
      rfl
    · rw [other y here] at on ⊢
      exact ok.freed y on
  case hashed =>
    intro y
    by_cases here : y = x
    · subst here
      rw [self]
      exact ⟨fun _ => ⟨rfl, joined⟩, fun _ => rfl⟩
    · rw [other y here, linked y here]
      exact ok.hashed y
  case parent =>
    intro y on
    by_cases here : y = x
    · subst here
      rw [self]
      change ((st.attach cfg y p d n).mnt p).alive = true
      rw [other p apart]
      exact alive
    · rw [other y here] at on ⊢
      have up := ok.parent y on
      rw [other _ (differs up)]
      exact up
  case acyclic =>
    rw [above]
    refine ok.acyclic.link fun climbs => ?_
    obtain same | ⟨y, _, step⟩ := Relation.ReflTransGen.cases_tail climbs
    · exact apart same.symm
    · unfold Tables.above at step
      split_ifs at step with here
      have up := ok.parent y here.1
      rw [Option.some.inj step, free] at up
      cases up
  case unique =>
    intro y z on on' joins joins' parent mp
    by_cases here : y = x
    · by_cases there : z = x
      · exact here.trans there.symm
      · subst here
        rw [other z there] at on' parent mp
        rw [self] at parent mp
        exact absurd mp.symm (vacant z on' ((linked z there).mp joins') parent.symm)
    · by_cases there : z = x
      · subst there
        rw [other y here] at on parent mp
        rw [self] at parent mp
        exact absurd mp (vacant y on ((linked y here).mp joins) parent)
      · rw [other y here] at on parent mp
        rw [other z there] at on' parent mp
        exact ok.unique y z on on' ((linked y here).mp joins) ((linked z there).mp joins') parent mp
  case inherit =>
    intro y on joins above
    by_cases here : y = x
    · subst here
      rw [self]
      exact Option.some_ne_none n
    · rw [other y here] at on above ⊢
      rw [other _ (differs (ok.parent y on))] at above
      exact ok.inherit y on ((linked y here).mp joins) above
  case umount =>
    intro y on
    by_cases here : y = x
    · subst here
      rw [self]
      exact ⟨fun marked => (Bool.false_ne_true marked).elim, fun none => absurd none (Option.some_ne_none n)⟩
    · rw [other y here] at on ⊢
      exact ok.umount y on
  case root =>
    intro y root
    obtain ⟨on, bare, ns⟩ := ok.root y root
    rw [other y (differs on), linked y (differs on)]
    exact ⟨on, bare, ns⟩

omit [DecidableEq T] in
theorem Used.attach {n : N} (used : Used st) (free : (st.mnt x).alive = false) (apart : p ≠ x) (there : (st.den d).mp = true) :
    Used (st.attach cfg x p d n) := by
  intro e
  change (st.den e).mp = true ↔ _
  by_cases here : e = d
  · subst here
    refine ⟨fun _ => .inl ?_, fun _ => there⟩
    refine Finset.ne_empty_of_mem (a := x) (mem_mlist.mpr ?_)
    rw [Tables.HasParent, Tables.attach_mnt, Function.update_self]
    exact ⟨rfl, apart, rfl⟩
  · have same : (st.attach cfg x p d n).mlist e = st.mlist e := by
      ext y
      rw [mem_mlist, mem_mlist, Tables.HasParent, Tables.HasParent, Tables.attach_mnt]
      by_cases new : y = x
      · subst new
        rw [Function.update_self]
        refine ⟨fun inside => absurd inside.2.2.symm here, fun inside => ?_⟩
        rw [free] at inside
        cases inside.1
      · rw [Function.update_of_ne new]
    rw [Listed, same]
    exact used e

end LinuxTla.LockMount
