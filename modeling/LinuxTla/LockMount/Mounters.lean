import LinuxTla.LockMount.Invariant

/-! do_lock_mount(), get_mountpoint() and unlock_mount() keep the tree. -/

namespace LinuxTla.LockMount

open Lib

variable {M E N T : Type} [Fintype M] [LinearOrder M] [DecidableEq E] [Fintype T] [DecidableEq T]
  {cfg : Config M E N T} {s after : State M E N T} {st : Tables M E N T} {x y p : M} {d e : E}
  {t u : Task T} {k : T} {l m : Local M E} {a : Label}

/-- The temporary reference of a mounter that gives up is put. -/
theorem Inv.puts_away (inv : Inv cfg s) (here : (s.task t).pc = .lmFail) :
    Puts cfg (rest cfg s t) s.tables (s.putTmp t) := by
  have todo := (inv.roles t).no_todo here (by decide)
  have forest := inv.forest_rest t
  rw [State.putTmp]
  cases carried : (s.task t).tmp with
  | none =>
    rw [Local.refs_empty carried todo, add_zero] at forest
    exact ⟨forest, inv.used, .refl forest, .of_den rfl⟩
  | some x =>
    have refs : (s.task t).refs = members {x} := by
      rw [Local.refs, carried, todo, members_empty, add_zero, members_singleton]
      rfl
    rw [refs] at forest
    exact puts_put s.tables {x} forest inv.used (fun y inside => .inr (Finset.mem_singleton.mp inside ▸ rfl))
      fun y root => rest_root root

theorem Inv.gives_up (inv : Inv cfg s) (here : (s.task t).pc = .lmFail) {ilock : E → Option (Task T)} {b : ℕ}
    (lands : m.pc = .lmW1 ∨ m.pc = .mStart)
    (next : m = { s.task t with pc := m.pc, tmp := none, budget := b }) :
    Inv cfg { s with tables := s.putTmp t, ilock := ilock, nsem := none, task := Function.update s.task t m } := by
  have role := inv.roles t
  have held := (inv.holder t).mp (by rw [here]; decide)
  have todo := role.no_todo here (by decide)
  have out := role.unpinned here (by decide)
  have quiet : ¬ m.pc.Holds := by
    obtain pc | pc := lands <;> rw [pc] <;> decide
  have tmp : m.tmp = none := congrArg Local.tmp next
  have empty : m.todo = ∅ := (congrArg Local.todo next).trans todo
  obtain ⟨forest, used, _, freeing⟩ := inv.puts_away here
  refine inv.cuts (t := t) (l := m) ?_ held rfl ?_ used freeing.marks (fun u d _ => ?_) (.inr ⟨quiet, rfl⟩) rfl ?_
  · rw [here]
    decide
  · rw [Local.refs_empty tmp empty, add_zero]
    exact forest
  · exact iff_of_eq (congrArg (u ∈ ·) (freeing.pins d))
  · refine .idle (fun x some' => ?_) empty ?_ (fun d pinned => out d ((freeing.pins d) ▸ pinned)) quiet
    · cases tmp.symm.trans some'
    · rw [congrArg Local.ret next]
      exact role.ret

omit [Fintype M] [LinearOrder M] [Fintype T] in
theorem Role.pin (role : Role cfg s.tables (.mounter k) (s.task (.mounter k))) (here : (s.task (.mounter k)).pc = a)
    (placed : a.Placed) (bare : ¬ a.Pinned) (quiet : ¬ a.Unlocks) (answer : (s.task (.mounter k)).wm = some (p, d))
    (mnt : st.mnt = s.tables.mnt) (cant : ∀ e, (st.den e).cant = (s.tables.den e).cant)
    (pins : ∀ e, (st.den e).pins = if e = d then insert (.mounter k) (s.tables.den d).pins else (s.tables.den e).pins) :
    Role cfg st (.mounter k) { s.task (.mounter k) with pc := .lmOk } := by
  have out := role.unpinned here bare
  have todo := role.no_todo here quiet
  refine ⟨fun x some' => ?_, .inl todo, fun y inside => ?_, role.ret, fun e => ?_, fun _ k' p' d' same known => ?_,
    (by intro creates; cases creates), (by intro tree; cases tree)⟩
  · obtain ⟨_, known⟩ := role.tmp x some'
    exact ⟨by dsimp only; decide, known⟩
  · rw [todo] at inside
    exact absurd inside (Finset.notMem_empty y)
  · rw [pins]
    by_cases same : e = d
    · rw [if_pos same, same]
      exact ⟨fun _ => ⟨by dsimp only; decide, p, answer⟩, fun _ => Finset.mem_insert_self ..⟩
    · rw [if_neg same]
      refine ⟨fun pinned => absurd pinned (out e), fun known => ?_⟩
      obtain ⟨_, p', other⟩ := known
      cases answer.symm.trans other
      exact absurd rfl same
  · obtain ⟨place, alive⟩ := role.place (here ▸ placed) k' p' d' same known
    refine ⟨?_, (cant d').trans alive⟩
    obtain ⟨on, joined, ns, vacant⟩ := place
    refine ⟨?_, ?_, ?_, fun y => ?_⟩
    · rw [mnt]
      exact on
    · rw [Tables.HasParent, mnt]
      exact joined
    · rw [mnt]
      exact ns
    · rw [Tables.HasParent, mnt]
      exact vacant y

omit [DecidableEq T] in
theorem Window.holder (window : Window s d) (inv : Inv cfg s) (held : s.nsem = some t) :
    ∃ k p, t = .mounter k ∧ (s.task t).pc = .gmCreate ∧ (s.task t).wm = some (p, d) := by
  obtain ⟨k, p, creates, answer⟩ := window
  have holds := (inv.holder (.mounter k)).mp (by rw [creates]; decide)
  have same : t = .mounter k := Option.some.inj (held.symm.trans holds)
  rw [same]
  exact ⟨k, p, rfl, creates, answer⟩

omit [Fintype M] [DecidableEq E] [Fintype T] [DecidableEq T] in
theorem Same.setCount (st : Tables M E N T) (x : M) (c : ℤ) : Same st (st.setCount x c) :=
  ⟨setCount_same st x c, fun _ => rfl, fun _ => rfl, fun _ => rfl, fun _ => rfl⟩

/-- The temporary reference is never the last one of the mount found under the locks. -/
theorem Inv.puts_tmp (inv : Inv cfg s) (here : (s.task (.mounter k)).pc = .lmOk) :
    Same s.tables (s.putTmp (.mounter k)) ∧ (s.putTmp (.mounter k)).den = s.tables.den ∧
      Forest cfg (rest cfg s (.mounter k)) (s.putTmp (.mounter k)) := by
  have role := inv.roles (.mounter k)
  have todo := role.no_todo here (by decide)
  have forest := inv.forest_rest (.mounter k)
  rw [State.putTmp]
  cases carried : (s.task (.mounter k)).tmp with
  | none =>
    rw [Local.refs_empty carried todo, add_zero] at forest
    exact ⟨.refl _, rfl, forest⟩
  | some x =>
    have refs : (s.task (.mounter k)).refs = one x := by
      rw [Local.refs, carried, todo, members_empty, add_zero]
      rfl
    rw [refs] at forest
    obtain ⟨_, k', d, same, other, answer⟩ := role.tmp x carried
    cases same
    have placed := role.place (by rw [here]; decide) k x d rfl answer
    have linked := placed.1.joined.resolve_left other
    change Same s.tables (s.tables.put {x}) ∧ (s.tables.put {x}).den = s.tables.den ∧
      Forest cfg (rest cfg s (.mounter k)) (s.tables.put {x})
    rw [put_linked forest linked]
    exact ⟨.setCount .., rfl, forest.drop⟩

omit [DecidableEq E] [Fintype T] [DecidableEq T] in
theorem freeId_dead (free : st.freeId = some x) : (st.mnt x).alive = false := by
  rw [Tables.freeId] at free
  split_ifs at free with some'
  rw [← Option.some.inj free]
  exact (Finset.mem_filter.mp (Finset.min'_mem _ some')).2

omit [Fintype T] in
/-- unpin_mountpoint() takes the pin, and maybe the mountpoint. -/
theorem unpin_den (st : Tables M E N T) (t : Task T) (d e : E) :
    ((st.unpin t d).den e).pins = (if e = d then (st.den d).pins.erase t else (st.den e).pins) ∧
      (((st.unpin t d).den e).mp = (st.den e).mp ∧ ((st.unpin t d).den e).mounted = (st.den e).mounted ∨
        ((st.unpin t d).den e).mp = false ∧ ((st.unpin t d).den e).mounted = false) := by
  have freeing := freeing_maybeFree (st.setDen d { st.den d with pins := (st.den d).pins.erase t }) d
  rw [Tables.unpin, freeing.pins, Tables.setDen_den, Function.update_apply]
  refine ⟨by split_ifs <;> rfl, ?_⟩
  obtain ⟨mp, mounted⟩ | ⟨_, off, clear⟩ := freeing.mp e
  · rw [mp, mounted, Tables.setDen_den, Function.update_apply]
    split_ifs with same
    · rw [same]
      exact .inl ⟨rfl, rfl⟩
    · exact .inl ⟨rfl, rfl⟩
  · exact .inr ⟨off, clear⟩

/-- The mountpoint is in the mounter's own mount: no reference is taken. -/
theorem Inv.w1Own (inv : Inv cfg s) (here : (s.task (.mounter k)).pc = .lmW1) :
    Inv cfg (s.set (.mounter k) { s.task (.mounter k) with pc := .lmIlock, wm := some (place cfg s.tables k), tmp := none }) := by
  have role := inv.roles (.mounter k)
  have todo := role.no_todo here (by decide)
  have refs := Local.refs_empty (role.no_tmp here (by decide)) todo
  refine inv.local_step ?_ rfl rfl rfl rfl ?_ ?_ (.idle (fun x some' => ?_) todo role.ret (role.unpinned here (by decide)) ?_)
  · rw [here]
    decide
  · rw [refs]
    exact Local.refs_empty rfl todo
  · rw [here]
    dsimp only
    decide
  · cases some'
  · dsimp only
    decide

theorem Inv.w1Top (inv : Inv cfg s) (formed : cfg.WellFormed) (here : (s.task (.mounter k)).pc = .lmW1)
    (top : (place cfg s.tables k).1 = x) (other : x ≠ (cfg.info k).pm) :
    Inv cfg ((s.setTables (s.tables.setCount x ((s.tables.mnt x).count + 1))).set (.mounter k)
      { s.task (.mounter k) with pc := .lmIlock, wm := some (place cfg s.tables k), tmp := some x }) := by
  have role := inv.roles (.mounter k)
  have placed := place_place inv.forest formed k
  have todo := role.no_todo here (by decide)
  have refs := Local.refs_empty (role.no_tmp here (by decide)) todo
  have forest := inv.forest_rest (.mounter k)
  rw [refs, add_zero] at forest
  have taken : ({ s.task (.mounter k) with pc := .lmIlock, wm := some (place cfg s.tables k), tmp := some x } : Local M E).refs =
      one x := by
    rw [Local.refs, todo, members_empty, add_zero]
    rfl
  refine inv.steps ?_ rfl (.setCount s.tables x _) ?_ rfl rfl ?_ (.idle (fun y some' => ?_) todo role.ret (role.unpinned here (by decide)) ?_)
  · rw [here]
    decide
  · rw [taken]
    exact forest.get (top ▸ placed.alive)
  · rw [here]
    dsimp only
    decide
  · obtain rfl := Option.some.inj some'
    exact ⟨by dsimp only; decide, k, (place cfg s.tables k).2, rfl, other, by dsimp only; rw [← top]⟩
  · dsimp only
    decide

/-- Under namespace_sem the place is the one the mounter went for, and the dentry lives. -/
theorem Inv.w2 (inv : Inv cfg s) (formed : cfg.WellFormed) (recheck : cfg.fixRecheck = true) (dont : cfg.fixDontMount = true)
    (here : (s.task (.mounter k)).pc = .lmW2) (answer : (s.task (.mounter k)).wm = some (p, d))
    (stays : ¬ (cfg.fixRecheck = true ∧ place cfg s.tables k ≠ (p, d))) (lives : ¬ Dead cfg s.tables k d) :
    Inv cfg (s.goto (.mounter k) .gmStart) := by
  have role := inv.roles (.mounter k)
  have placed := place_place inv.forest formed k
  have there : place cfg s.tables k = (p, d) := by
    by_contra moved
    exact stays ⟨recheck, moved⟩
  rw [there] at placed
  refine inv.local_step ?_ rfl rfl rfl rfl rfl ?_ ?_
  · rw [here]
    decide
  · rw [here]
    dsimp only
    decide
  · refine ⟨fun x some' => ⟨by dsimp only; decide, (role.tmp x some').2⟩, .inl (role.no_todo here (by decide)), role.loose,
      role.ret, fun e => ?_, fun _ k' p' d' same known => ?_, (by intro creates; cases creates), (by intro tree; cases tree)⟩
    · refine ⟨fun pinned => absurd pinned (role.unpinned here (by decide) e), fun pinned => ?_⟩
      exact absurd pinned.1 (by dsimp only; decide)
    · cases same
      cases answer.symm.trans known
      refine ⟨placed, ?_⟩
      by_contra gone
      exact lives (.inl ⟨dont, by simpa using gone⟩)

/-- lookup_mountpoint() finds one: a pin more. -/
theorem Inv.gmFound (inv : Inv cfg s) (here : (s.task (.mounter k)).pc = .gmLookup) (answer : (s.task (.mounter k)).wm = some (p, d))
    (found : (s.tables.den d).mp = true ∧ (cfg.fixLookupUnlinked = true ∨ (s.tables.den d).unhashed = false)) :
    Inv cfg ((s.setTables (s.tables.pin (.mounter k) d)).goto (.mounter k) .lmOk) := by
  have role := inv.roles (.mounter k)
  have held := (inv.holder (.mounter k)).mp (by rw [here]; decide)
  have forest := inv.forest_rest (.mounter k)
  refine inv.cuts ?_ held rfl (forest.of_mnt rfl) (inv.used.pin found.1) (fun e => .inl ?_) (fun u e other => ?_)
    (.inl ⟨?_, held⟩) rfl (role.pin here (by decide) (by decide) (by decide) answer rfl (fun e => ?_) fun e => ?_)
  · rw [here]
    decide
  · change ((s.tables.pin (.mounter k) d).den e).mp = _ ∧ ((s.tables.pin (.mounter k) d).den e).mounted = _
    rw [Tables.pin_den, Function.update_apply]
    split_ifs with same
    · rw [same]
      exact ⟨rfl, rfl⟩
    · exact ⟨rfl, rfl⟩
  · change u ∈ ((s.tables.pin (.mounter k) d).den e).pins ↔ _
    rw [Tables.pin_den, Function.update_apply]
    split_ifs with same
    · rw [same]
      exact ⟨fun inside => (Finset.mem_insert.mp inside).resolve_left other, Finset.mem_insert_of_mem⟩
    · exact .rfl
  · dsimp only
    decide
  · change ((s.tables.pin (.mounter k) d).den e).cant = _
    rw [Tables.pin_den, Function.update_apply]
    split_ifs with same
    · rw [same]
    · rfl
  · change ((s.tables.pin (.mounter k) d).den e).pins = _
    rw [Tables.pin_den, Function.update_apply]
    split_ifs <;> rfl

/-- d_set_mounted() comes before the mountpoint: the window. -/
theorem Inv.gmSet (inv : Inv cfg s) (here : (s.task (.mounter k)).pc = .gmSet) (answer : (s.task (.mounter k)).wm = some (p, d)) :
    Inv cfg ((s.setTables (s.tables.setMounted d)).goto (.mounter k) .gmCreate) := by
  have role := inv.roles (.mounter k)
  have held := (inv.holder (.mounter k)).mp (by rw [here]; decide)
  have den (e : E) : ((s.tables.setMounted d).den e).mp = (s.tables.den e).mp ∧
      ((s.tables.setMounted d).den e).pins = (s.tables.den e).pins ∧
      ((s.tables.setMounted d).den e).cant = (s.tables.den e).cant ∧
      ((s.tables.setMounted d).den e).mounted = if e = d then true else (s.tables.den e).mounted := by
    rw [Tables.setMounted_den, Function.update_apply]
    split_ifs with same
    · rw [same]
      exact ⟨rfl, rfl, rfl, rfl⟩
    · exact ⟨rfl, rfl, rfl, rfl⟩
  have task : (((s.setTables (s.tables.setMounted d)).goto (.mounter k) .gmCreate)).task =
      Function.update s.task (.mounter k) { s.task (.mounter k) with pc := .gmCreate } := rfl
  refine Goes.inv (t := .mounter k) ⟨task, (inv.forest_rest (.mounter k)).of_mnt rfl, fun e => ?_, fun e => ?_,
    .inl ⟨?_, held, .inr held⟩, ?_, inv.others held fun u e _ => ?_, rfl⟩ inv
  · change ((s.tables.setMounted d).den e).mp = true ↔ Listed (s.tables.setMounted d) e
    have listed : Listed (s.tables.setMounted d) e ↔ Listed s.tables e := listed_congr rfl (den e).2.1
    rw [(den e).1, listed]
    exact inv.used e
  · change (((s.tables.setMounted d).den e).mp = true → ((s.tables.setMounted d).den e).mounted = true) ∧
      (((s.tables.setMounted d).den e).mounted = true → ((s.tables.setMounted d).den e).mp = true ∨ _)
    rw [(den e).1, (den e).2.2.2]
    by_cases same : e = d
    · rw [if_pos same]
      refine ⟨fun _ => rfl, fun _ => .inr ⟨k, p, ?_⟩⟩
      rw [task, Function.update_self, same]
      exact ⟨rfl, answer⟩
    · rw [if_neg same]
      exact (inv.flagged e).imp_right fun back on => (back on).imp_right fun window =>
        window.keeps (by rw [here]; decide) task
  · dsimp only
    decide
  · refine ⟨fun x some' => ⟨by dsimp only; decide, (role.tmp x some').2⟩, .inl (role.no_todo here (by decide)), role.loose,
      role.ret, fun e => ?_, fun _ k' p' d' same known => ?_, fun _ p' d' known => ?_, (by intro tree; cases tree)⟩
    · change _ ∈ ((s.tables.setMounted d).den e).pins ↔ _
      rw [(den e).2.1]
      refine ⟨fun pinned => absurd pinned (role.unpinned here (by decide) e), fun pinned => ?_⟩
      exact absurd pinned.1 (by dsimp only; decide)
    · obtain ⟨place, cant⟩ := role.place (by rw [here]; decide) k' p' d' same known
      exact ⟨⟨place.alive, place.joined, place.ns, place.vacant⟩, (den d').2.2.1.trans cant⟩
    · cases answer.symm.trans known
      exact (den d).2.2.2.trans (if_pos rfl)
  · exact iff_of_eq (congrArg (u ∈ ·) (den e).2.1)

/-- The mountpoint is made, and the window closes. -/
theorem Inv.gmCreate (inv : Inv cfg s) (here : (s.task (.mounter k)).pc = .gmCreate) (answer : (s.task (.mounter k)).wm = some (p, d)) :
    Inv cfg ((s.setTables (s.tables.create (.mounter k) d)).goto (.mounter k) .lmOk) := by
  have role := inv.roles (.mounter k)
  have held := (inv.holder (.mounter k)).mp (by rw [here]; decide)
  have mounted := role.creating here p d answer
  have den (e : E) : ((s.tables.create (.mounter k) d).den e).mounted = (s.tables.den e).mounted ∧
      ((s.tables.create (.mounter k) d).den e).cant = (s.tables.den e).cant ∧
      ((s.tables.create (.mounter k) d).den e).mp = (if e = d then true else (s.tables.den e).mp) ∧
      ((s.tables.create (.mounter k) d).den e).pins =
        if e = d then insert (.mounter k) (s.tables.den d).pins else (s.tables.den e).pins := by
    rw [Tables.create_den, Function.update_apply]
    split_ifs with same
    · rw [same]
      exact ⟨rfl, rfl, rfl, rfl⟩
    · exact ⟨rfl, rfl, rfl, rfl⟩
  refine Goes.inv (s := s) (t := .mounter k) ⟨rfl, (inv.forest_rest (.mounter k)).of_mnt rfl, fun e => ?_, fun e => ?_,
    .inl ⟨?_, held, .inr held⟩,
    role.pin here (by decide) (by decide) (by decide) answer rfl (fun e => (den e).2.1) (fun e => (den e).2.2.2),
    inv.others held fun u e other => ?_, rfl⟩ inv
  · change ((s.tables.create (.mounter k) d).den e).mp = true ↔ Listed (s.tables.create (.mounter k) d) e
    by_cases same : e = d
    · rw [(den e).2.2.1, if_pos same]
      refine ⟨fun _ => .inr ?_, fun _ => rfl⟩
      rw [(den e).2.2.2, if_pos same]
      exact Finset.insert_ne_empty _ _
    · have listed : Listed (s.tables.create (.mounter k) d) e ↔ Listed s.tables e :=
        listed_congr rfl ((den e).2.2.2.trans (if_neg same))
      rw [(den e).2.2.1, if_neg same, listed]
      exact inv.used e
  · change (((s.tables.create (.mounter k) d).den e).mp = true → ((s.tables.create (.mounter k) d).den e).mounted = true) ∧
      (((s.tables.create (.mounter k) d).den e).mounted = true → ((s.tables.create (.mounter k) d).den e).mp = true ∨ _)
    rw [(den e).1, (den e).2.2.1]
    by_cases same : e = d
    · rw [if_pos same, same]
      exact ⟨fun _ => mounted, fun _ => .inl rfl⟩
    · rw [if_neg same]
      refine ⟨(inv.flagged e).1, fun on => .inl (((inv.flagged e).2 on).resolve_right fun window => same ?_)⟩
      obtain ⟨_, _, _, _, other⟩ := window.holder inv held
      cases answer.symm.trans other
      rfl
  · dsimp only
    decide
  · change u ∈ ((s.tables.create (.mounter k) d).den e).pins ↔ _
    rw [(den e).2.2.2]
    split_ifs with same
    · rw [same]
      exact ⟨fun inside => (Finset.mem_insert.mp inside).resolve_left other, Finset.mem_insert_of_mem⟩
    · exact .rfl

theorem Inv.lmOk (inv : Inv cfg s) (here : (s.task (.mounter k)).pc = .lmOk) :
    Inv cfg ((s.setTables (s.putTmp (.mounter k))).set (.mounter k) { s.task (.mounter k) with pc := .amCheck, tmp := none }) := by
  have role := inv.roles (.mounter k)
  have todo := role.no_todo here (by decide)
  obtain ⟨same, _, forest⟩ := inv.puts_tmp here
  have spent : ({ s.task (.mounter k) with pc := .amCheck, tmp := none } : Local M E).refs = 0 := Local.refs_empty rfl todo
  refine inv.steps ?_ rfl same ?_ rfl rfl ?_ ?_
  · rw [here]
    decide
  · rw [spent, add_zero]
    exact forest
  · rw [here]
    dsimp only
    decide
  · have role := same.role role
    refine ⟨fun x some' => (by cases some'), .inl todo, role.loose, role.ret, fun e => ?_,
      fun _ => role.place (by rw [here]; decide), (by intro creates; cases creates), (by intro tree; cases tree)⟩
    have pins := role.pins e
    rw [here] at pins
    exact pins.trans (and_congr_left' (by dsimp only; decide))

theorem Inv.amAttach (inv : Inv cfg s) (here : (s.task (.mounter k)).pc = .amAttach) (answer : (s.task (.mounter k)).wm = some (p, d))
    (free : s.tables.freeId = some x) :
    Inv cfg { (s.setTables (s.tables.attach cfg x p d (cfg.info k).ns)).set (.mounter k)
        { s.task (.mounter k) with pc := .umUnlock, err := .none, budget := (s.task (.mounter k)).budget - 1 } with
      bad := s.bad || !decide (s.tables.Checks (.mounter k) p d) } := by
  have role := inv.roles (.mounter k)
  have held := (inv.holder (.mounter k)).mp (by rw [here]; decide)
  have todo := role.no_todo here (by decide)
  have tmp := role.no_tmp here (by decide)
  obtain ⟨⟨alive, joined, ns, vacant⟩, cant⟩ := role.place (by rw [here]; decide) k p d rfl answer
  have unused := freeId_dead free
  have apart : p ≠ x := by
    rintro rfl
    rw [alive] at unused
    cases unused
  have pinned : Task.mounter k ∈ (s.tables.den d).pins := (role.pins d).mpr ⟨by rw [here]; decide, p, answer⟩
  have there : (s.tables.den d).mp = true := (inv.used d).mpr (.inr (Finset.ne_empty_of_mem pinned))
  have stays : (s.tables.mnt p).umount = false := by
    by_contra leaves
    exact ns ((inv.forest.umount p alive).mp (by simpa using leaves))
  have checks : s.tables.Checks (.mounter k) p d :=
    ⟨(lookupMnt_none inv.forest).mpr vacant, ns, stays, (inv.flagged d).1 there, there, pinned, cant⟩
  have forest := inv.forest_rest (.mounter k)
  refine inv.cuts (t := .mounter k) ?_ held rfl (forest.attach unused alive vacant) (inv.used.attach unused apart there)
    (fun e => .inl ⟨rfl, rfl⟩) (fun _ _ _ => .rfl) (.inl ⟨?_, held⟩) ?_ ?_
  · rw [here]
    decide
  · dsimp only
    decide
  · change (s.bad || !decide (s.tables.Checks (.mounter k) p d)) = s.bad
    rw [decide_eq_true checks]
    exact Bool.or_false _
  · refine ⟨fun y some' => ?_, .inl todo, fun y inside => ?_, role.ret, fun e => ?_, fun placed => ?_,
      (by intro creates; cases creates), (by intro tree; cases tree)⟩
    · cases tmp.symm.trans some'
    · rw [todo] at inside
      exact absurd inside (Finset.notMem_empty y)
    · have pins := role.pins e
      rw [here] at pins
      exact pins.trans (and_congr_left' (by dsimp only; decide))
    · exact absurd placed (by dsimp only; decide)

theorem Inv.umUnlock (inv : Inv cfg s) (here : (s.task (.mounter k)).pc = .umUnlock) (answer : (s.task (.mounter k)).wm = some (p, d)) :
    Inv cfg ((((s.setNsem none).lock d none).setTables (s.tables.unpin (.mounter k) d)).goto (.mounter k) .mStart) := by
  have role := inv.roles (.mounter k)
  have held := (inv.holder (.mounter k)).mp (by rw [here]; decide)
  have todo := role.no_todo here (by decide)
  have tmp := role.no_tmp here (by decide)
  have forest := inv.forest_rest (.mounter k)
  have den := unpin_den s.tables (.mounter k) d
  refine inv.cuts (t := .mounter k) ?_ held rfl (forest.of_mnt Tables.maybeFree_mnt) inv.used.unpin (fun e => (den e).2)
    (fun u e other => ?_) (.inr ⟨?_, rfl⟩) rfl (.idle (fun x some' => ?_) todo role.ret (fun e pinned => ?_) ?_)
  · rw [here]
    decide
  · change u ∈ ((s.tables.unpin (.mounter k) d).den e).pins ↔ _
    rw [(den e).1]
    split_ifs with same
    · rw [same]
      exact ⟨Finset.mem_of_mem_erase, fun inside => Finset.mem_erase.mpr ⟨other, inside⟩⟩
    · exact .rfl
  · dsimp only
    decide
  · cases tmp.symm.trans some'
  · change Task.mounter k ∈ ((s.tables.unpin (.mounter k) d).den e).pins at pinned
    rw [(den e).1] at pinned
    split_ifs at pinned with same
    · exact absurd rfl (Finset.ne_of_mem_erase pinned)
    · obtain ⟨_, p', known⟩ := (role.pins e).mp pinned
      cases answer.symm.trans known
      exact same rfl
  · dsimp only
    decide

theorem Inv.mount [Fintype E] (inv : Inv cfg s) (formed : cfg.WellFormed) (recheck : cfg.fixRecheck = true) (dont : cfg.fixDontMount = true)
    (step : Mounting cfg s k after) : Inv cfg after := by
  cases step with
  | start here =>
    refine inv.goes_on here rfl rfl rfl rfl (by decide) ?_ ?_ rfl rfl rfl rfl
    all_goals
      dsimp only
      split_ifs <;> decide
  | w1Own here => exact inv.w1Own here
  | w1Top here top other => exact inv.w1Top formed here top other
  | ilock here => exact inv.goes_on here rfl rfl rfl rfl (by decide) (by dsimp only; decide) (by dsimp only; decide) rfl rfl rfl rfl
  | nsem here free =>
    have role := inv.roles (.mounter k)
    refine inv.acquires (t := .mounter k) ?_ rfl rfl free.1 rfl rfl rfl ?_ (role.move here ?_ rfl rfl rfl rfl)
    · rw [here]
      decide
    · dsimp only
      decide
    · dsimp only
      decide
  | moved here | dead here | gmUnlinked here | gmGone here | gmLookup here | gmBusy here | amInval here | amCheck here => exact inv.goes_on here rfl rfl rfl rfl (by decide) (by dsimp only; decide) (by dsimp only; decide) rfl rfl rfl rfl
  | gmStart here =>
    refine inv.goes_on here rfl rfl rfl rfl (by decide) ?_ ?_ rfl rfl rfl rfl
    all_goals
      dsimp only
      split_ifs <;> decide
  | w2 here answer stays lives => exact inv.w2 formed recheck dont here answer stays lives
  | gmFound here answer found => exact inv.gmFound here answer found
  | gmSet here answer => exact inv.gmSet here answer
  | gmCreate here answer => exact inv.gmCreate here answer
  | again here => exact inv.gives_up (m := { s.task (.mounter k) with pc := .lmW1, tmp := none }) here (.inl rfl) rfl
  | lmFail here => exact inv.gives_up here (.inr rfl) rfl
  | lmOk here => exact inv.lmOk here
  | amAttach here answer free => exact inv.amAttach here answer free
  | umUnlock here answer => exact inv.umUnlock here answer

end LinuxTla.LockMount
