import LinuxTla.LockMount.Invariant

/-! detach_mounts(), vfs_rmdir(), d_invalidate() and umount2() keep the tree. -/

namespace LinuxTla.LockMount

open Lib

variable {M E N T : Type} [Fintype M] [LinearOrder M] [DecidableEq E] [Fintype T]
  {cfg : Config M E N T} {s after : State M E N T} {st : Tables M E N T} {x y p : M} {d e : E}
  {t u : Task T} {k : T} {l m : Local M E} {a : Label}

theorem Inv.no_tmp (inv : Inv cfg s) (here : (s.task t).pc.Unlocks) : (s.task t).tmp = none := by
  cases tmp : (s.task t).tmp with
  | none => rfl
  | some x => exact absurd ((inv.roles t).tmp x tmp).1 here.alone.1

variable [Fintype E] [DecidableEq N] [DecidableEq T]

omit [Fintype E] [DecidableEq N] in
/-- The mounts that wait for namespace_unlock() are put. -/
theorem Inv.puts_todo (inv : Inv cfg s) (here : (s.task t).pc.Unlocks) :
    Puts cfg (rest cfg s t) s.tables (s.tables.put (s.task t).todo) := by
  have refs : (s.task t).refs = members (s.task t).todo := by
    rw [Local.refs, inv.no_tmp here]
    exact zero_add _
  have forest := inv.forest_rest t
  rw [refs] at forest
  exact puts_put s.tables (s.task t).todo forest inv.used (fun y inside => .inl ((inv.roles t).loose y inside))
    fun y root => rest_root root

omit [Fintype E] [DecidableEq N] in
theorem Inv.unlocks (inv : Inv cfg s) (here : (s.task t).pc.Unlocks) {b : Label} (idle : ¬ b.Holds) :
    Inv cfg (s.nsUnlock t b) := by
  have role := inv.roles t
  have held := (inv.holder t).mp here.holds
  have calm : (s.task t).pc ≠ .gmCreate := by
    intro creates
    rw [creates] at here
    exact absurd here (by decide)
  have tmp := inv.no_tmp here
  have gone : ({ s.task t with pc := b, todo := ∅ } : Local M E).refs = 0 := Local.refs_empty tmp rfl
  obtain ⟨forest, used, _, freeing⟩ := inv.puts_todo here
  refine inv.cuts calm held rfl ?_ used freeing.marks (fun u d _ => ?_) (.inr ⟨idle, rfl⟩) rfl ?_
  · rw [gone, add_zero]
    exact forest
  · exact iff_of_eq (congrArg (u ∈ ·) (freeing.pins d))
  · refine .idle (fun x some' => ?_) rfl role.ret (fun d pinned => ?_) idle
    · cases tmp.symm.trans some'
    · have before : t ∈ (s.tables.den d).pins := (freeing.pins d) ▸ pinned
      exact here.alone.2 ((role.pins d).mp before).1

omit [Fintype E] [DecidableEq N] in
theorem Inv.detaches (inv : Inv cfg s) (all : cfg.fixLookupUnlinked = true) (here : (s.task t).pc = .dmBody) (d : E) :
    Detached cfg (rest cfg s t) s.tables (s.tables.detachBody cfg t d).1 (s.tables.detachBody cfg t d).2 ∧
      (s.tables.detachBody cfg t d).1.mlist d = ∅ := by
  have role := inv.roles t
  have todo := role.no_todo here (by decide)
  have tmp := role.no_tmp here (by decide)
  have forest := inv.forest_rest t
  rw [Local.refs_empty tmp todo, add_zero] at forest
  exact detachBody_detached forest inv.used all (role.unpinned here (by decide) d)

omit [Fintype E] [DecidableEq N] in
theorem Inv.detach (inv : Inv cfg s) (all : cfg.fixLookupUnlinked = true) (step : Detach cfg s t after) : Inv cfg after := by
  have role := inv.roles t
  cases step with
  | @start d here =>
    refine inv.goes_on here rfl rfl rfl rfl (by decide) ?_ ?_ rfl rfl rfl rfl
    all_goals
      dsimp only
      split_ifs
      · decide
      · obtain ret | ret | ret := role.ret <;> rw [ret] <;> decide
  | nsem here free =>
    refine inv.acquires (t := t) ?_ rfl rfl free.1 rfl rfl rfl ?_ (role.move here ?_ rfl rfl rfl rfl)
    · rw [here]
      decide
    · dsimp only
      decide
    · dsimp only
      decide
  | @body d here =>
    have held := (inv.holder t).mp (by rw [here]; decide)
    have todo := role.no_todo here (by decide)
    have tmp := role.no_tmp here (by decide)
    obtain ⟨⟨⟨forest, used, _, freeing⟩, loose⟩, _⟩ := inv.detaches all here d
    have refs : ({ s.task t with pc := .dmUnlock, todo := (s.task t).todo ∪ (s.tables.detachBody cfg t d).2 } : Local M E).refs =
        members (s.tables.detachBody cfg t d).2 := by
      rw [Local.refs, tmp, todo, Finset.empty_union]
      exact zero_add _
    refine inv.cuts ?_ held rfl ?_ used freeing.marks (fun u d _ => ?_) (.inl ⟨?_, held⟩) rfl ?_
    · rw [here]
      decide
    · rw [refs]
      exact forest
    · exact iff_of_eq (congrArg (u ∈ ·) (freeing.pins d))
    · dsimp only
      decide
    · refine ⟨fun x some' => ?_, .inr ?_, fun y inside => ?_, role.ret, fun e => ?_, fun placed => ?_, fun creates => ?_,
        fun tree => ?_⟩
      · cases tmp.symm.trans some'
      · dsimp only
        decide
      · dsimp only at inside
        rw [todo, Finset.empty_union] at inside
        exact loose y inside
      · refine ⟨fun pinned => ?_, fun pinned => absurd pinned.1 (by dsimp only; decide)⟩
        exact absurd ((freeing.pins e) ▸ pinned) (role.unpinned here (by decide) e)
      · exact absurd placed (by dsimp only; decide)
      · cases creates
      · cases tree
  | unlock here =>
    refine inv.unlocks ?_ ?_
    · rw [here]
      decide
    · obtain ret | ret | ret := role.ret <;> rw [ret] <;> decide

omit [Fintype E] [DecidableEq N] in
/-- A dentry is dropped, and its task goes on. -/
theorem Inv.unhashes (inv : Inv cfg s) (here : (s.task t).pc = a) {b : Label}
    (task : after.task = Function.update s.task t { s.task t with pc := b })
    (tables : after.tables = s.tables.setDen d { s.tables.den d with unhashed := true }) (nsem : after.nsem = s.nsem)
    (bad : after.bad = s.bad) (calm : a ≠ .gmCreate) (moves : a.Moves b) (holds : b.Holds ↔ a.Holds) : Inv cfg after := by
  have same : Same s.tables after.tables := by
    rw [tables]
    have den (e : E) : ∃ b, (s.tables.setDen d { s.tables.den d with unhashed := true }).den e =
        { s.tables.den e with unhashed := b } := by
      rw [Tables.setDen_den, Function.update_apply]
      split_ifs with here
      · exact ⟨true, by rw [here]⟩
      · exact ⟨(s.tables.den e).unhashed, rfl⟩
    refine ⟨fun x => ⟨(s.tables.mnt x).count, rfl⟩, fun e => ?_, fun e => ?_, fun e => ?_, fun e => ?_⟩ <;>
      · obtain ⟨_, den⟩ := den e
        rw [den]
  refine inv.steps ?_ task same ?_ nsem bad ?_ ((same.role (inv.roles t)).move here moves rfl rfl rfl rfl)
  · rw [here]
    exact calm
  · refine (inv.forest_rest t).of_mnt ?_
    rw [tables]
    rfl
  · rw [here]
    exact holds

omit [Fintype E] [DecidableEq N] in
theorem Inv.rmdir (inv : Inv cfg s) (step : Rmdir cfg s d after) : Inv cfg after := by
  have role := inv.roles .rmdir
  cases step with
  | ilock here | busy here | unlock here =>
    exact inv.goes_on here rfl rfl rfl rfl (by decide) (by dsimp only; decide) (by dsimp only; decide) rfl rfl rfl rfl
  | dontMount here free idle =>
    have todo := role.no_todo here (by decide)
    have tmp := role.no_tmp here (by decide)
    have den (e : E) : ((s.tables.setDen d { s.tables.den d with cant := true }).den e).mp = (s.tables.den e).mp ∧
        ((s.tables.setDen d { s.tables.den d with cant := true }).den e).mounted = (s.tables.den e).mounted ∧
        ((s.tables.setDen d { s.tables.den d with cant := true }).den e).pins = (s.tables.den e).pins := by
      rw [Tables.setDen_den, Function.update_apply]
      split_ifs with same
      · rw [same]
        exact ⟨rfl, rfl, rfl⟩
      · exact ⟨rfl, rfl, rfl⟩
    have loose (u : Task T) : ¬ (s.task u).pc.Holds := fun holds => by
      cases free.symm.trans ((inv.holder u).mp holds)
    refine Goes.inv (s := s) (t := .rmdir) ⟨rfl, (inv.forest_rest .rmdir).of_mnt rfl, fun e => ?_,
      inv.flagged_of (t := .rmdir) ?_ rfl fun e => .inl ⟨(den e).1, (den e).2.1⟩, .inr (.inl ⟨?_, ?_, rfl⟩),
      .idle (fun x some' => ?_) todo (.inr (.inl rfl)) (fun e pinned => ?_) ?_,
      fun u _ role => role.away (loose u) fun e => iff_of_eq (congrArg (u ∈ ·) (den e).2.2), rfl⟩ inv
    · have listed : Listed (s.tables.setDen d { s.tables.den d with cant := true }) e ↔ Listed s.tables e :=
        listed_congr rfl (den e).2.2
      exact (iff_of_eq (congrArg (· = true) (den e).1)).trans ((inv.used e).trans listed.symm)
    · rw [here]
      decide
    · dsimp only
      decide
    · rw [free]
      exact Option.some_ne_none _ ∘ Eq.symm
    · cases tmp.symm.trans some'
    · exact role.unpinned here (by decide) e ((den e).2.2 ▸ pinned)
    · dsimp only
      decide
  | delete here => exact inv.unhashes here rfl rfl rfl rfl (by decide) (by decide) (by decide)

omit [DecidableEq N] in
theorem Inv.inval (inv : Inv cfg s) (step : Inval cfg s d after) : Inv cfg after := by
  have role := inv.roles .inval
  cases step with
  | gone here | none here =>
    exact inv.goes_on here rfl rfl rfl rfl (by decide) (by dsimp only; decide) (by dsimp only; decide) rfl rfl rfl rfl
  | drop here => exact inv.unhashes here rfl rfl rfl rfl (by decide) (by decide) (by decide)
  | found here =>
    have todo := role.no_todo here (by decide)
    have tmp := role.no_tmp here (by decide)
    refine inv.local_step (t := .inval) ?_ rfl rfl rfl rfl (Local.refs_congr rfl rfl) ?_
      (.idle (fun x some' => ?_) todo (.inr (.inr rfl)) (role.unpinned here (by decide)) ?_)
    · rw [here]
      decide
    · rw [here]
      dsimp only
      decide
    · cases tmp.symm.trans some'
    · dsimp only
      decide

omit [Fintype E] [DecidableEq N] in
theorem Inv.umount (inv : Inv cfg s) (target : cfg.umountTarget = some x) (step : Umount s x after) : Inv cfg after := by
  have role := inv.roles .umount
  cases step with
  | nsem here there free =>
    have todo := role.no_todo here (by decide)
    have tmp := role.no_tmp here (by decide)
    refine inv.acquires (t := .umount) ?_ rfl rfl free.1 rfl rfl rfl ?_ ⟨fun y some' => ?_, .inl todo, role.loose, role.ret,
      fun e => ⟨fun pinned => ?_, fun pinned => ?_⟩, fun placed => ?_, (by intro creates; cases creates),
      fun _ y known => ?_⟩
    · rw [here]
      decide
    · dsimp only
      decide
    · cases tmp.symm.trans some'
    · exact absurd pinned (role.unpinned here (by decide) e)
    · exact absurd pinned.1 (by dsimp only; decide)
    · exact absurd placed (by dsimp only; decide)
    · cases target.symm.trans known
      exact (inv.forest.hashed x).mp there.2.1
  | never here =>
    exact inv.goes_on here rfl rfl rfl rfl (by decide) (by dsimp only; decide) (by dsimp only; decide) rfl rfl rfl rfl
  | tree here =>
    have held := (inv.holder .umount).mp (by rw [here]; decide)
    have todo := role.no_todo here (by decide)
    have tmp := role.no_tmp here (by decide)
    obtain ⟨alive, linked⟩ := role.target here x target
    have forest := inv.forest_rest .umount
    rw [Local.refs_empty tmp todo, add_zero] at forest
    obtain ⟨_, forest, loose⟩ : Cut s.tables (s.tables.umountTree x false).1 ∧ _ := forest.umountTree alive linked
    obtain ⟨used, freeing⟩ : Used (s.tables.umountTree x false).1 ∧ _ := inv.used.umountTree alive linked
    have refs : ({ s.task .umount with pc := .uUnlock, todo := (s.tables.umountTree x false).2 } : Local M E).refs =
        members (s.tables.umountTree x false).2 := by
      rw [Local.refs, tmp]
      exact zero_add _
    refine inv.cuts (t := .umount) ?_ held rfl ?_ used freeing.marks (fun u d _ => ?_) (.inl ⟨?_, held⟩) rfl
      ⟨fun y some' => ?_, .inr ?_, loose, role.ret, fun e => ⟨fun pinned => ?_, fun pinned => ?_⟩, fun placed => ?_,
        (by intro creates; cases creates), (by intro tree; cases tree)⟩
    · rw [here]
      decide
    · rw [refs]
      exact forest
    · exact iff_of_eq (congrArg (u ∈ ·) (freeing.pins d))
    · dsimp only
      decide
    · cases tmp.symm.trans some'
    · dsimp only
      decide
    · exact absurd ((freeing.pins e) ▸ pinned) (role.unpinned here (by decide) e)
    · exact absurd pinned.1 (by dsimp only; decide)
    · exact absurd placed (by dsimp only; decide)
  | unlock here =>
    refine inv.unlocks ?_ ?_
    · rw [here]
      decide
    · decide

end LinuxTla.LockMount
