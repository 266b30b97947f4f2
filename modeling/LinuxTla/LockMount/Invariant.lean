import LinuxTla.LockMount.Roles

/-! The mounts, the mountpoints and the tasks go together, and what a step has to show for it. -/

namespace LinuxTla.LockMount

open Lib

variable {M E N T : Type} [LinearOrder M] [Fintype T]
  {cfg : Config M E N T} {s after : State M E N T} {st : Tables M E N T} {x y p : M} {d e : E}
  {t u : Task T} {k : T} {l m : Local M E} {a : Label}

/-! ### The references of all tasks -/

open Classical in
/-- The references of the namespaces and of the paths of the mounters. -/
noncomputable def base (cfg : Config M E N T) (x : M) : ℕ :=
  if IsRoot cfg x then 1 + (Finset.univ.filter fun t => (cfg.info t).pm = x).card else 0

variable [DecidableEq T]

noncomputable def rest (cfg : Config M E N T) (s : State M E N T) (t : Task T) : M → ℕ :=
  base cfg + ∑ u ∈ Finset.univ.erase t, (s.task u).refs

noncomputable def refs (cfg : Config M E N T) (s : State M E N T) : M → ℕ := base cfg + ∑ u, (s.task u).refs

theorem refs_eq (s : State M E N T) (t : Task T) : refs cfg s = rest cfg s t + (s.task t).refs := by
  rw [refs, rest, add_assoc, Finset.sum_erase_add _ _ (Finset.mem_univ t)]

theorem refs_update (task : after.task = Function.update s.task t l) : refs cfg after = rest cfg s t + l.refs := by
  have others : ∑ u ∈ Finset.univ.erase t, (after.task u).refs = ∑ u ∈ Finset.univ.erase t, (s.task u).refs := by
    refine Finset.sum_congr rfl fun u other => ?_
    rw [task, Function.update_of_ne (Finset.ne_of_mem_erase other)]
  rw [refs_eq after t, rest, others, task, Function.update_self, rest]

theorem rest_root (root : IsRoot cfg x) : rest cfg s t x ≠ 0 := by
  rw [rest, Pi.add_apply, base, if_pos root]
  omega

/-- A mounter is about to insert the mountpoint whose flag it has set. -/
def Window (s : State M E N T) (d : E) : Prop :=
  ∃ k p, (s.task (.mounter k)).pc = .gmCreate ∧ (s.task (.mounter k)).wm = some (p, d)

/-- The flag of a dentry and its struct mountpoint. -/
def Flagged (s : State M E N T) (st : Tables M E N T) : Prop :=
  ∀ d, ((st.den d).mp = true → (st.den d).mounted = true) ∧ ((st.den d).mounted = true → (st.den d).mp = true ∨ Window s d)

variable [Fintype M] [DecidableEq E]

/-- The mounts, the mountpoints and the tasks go together. -/
structure Inv (cfg : Config M E N T) (s : State M E N T) : Prop where
  forest : Forest cfg (refs cfg s) s.tables
  used : Used s.tables
  flagged : Flagged s s.tables
  holder : ∀ t, (s.task t).pc.Holds ↔ s.nsem = some t
  roles : ∀ t, Role cfg s.tables t (s.task t)
  bad : s.bad = false

theorem Inv.forest_rest (inv : Inv cfg s) (t : Task T) : Forest cfg (rest cfg s t + (s.task t).refs) s.tables :=
  refs_eq s t ▸ inv.forest

structure Goes (cfg : Config M E N T) (s : State M E N T) (t : Task T) (l : Local M E) (after : State M E N T) : Prop where
  task : after.task = Function.update s.task t l
  forest : Forest cfg (rest cfg s t + l.refs) after.tables
  used : Used after.tables
  flagged : Flagged after after.tables
  holder : l.pc.Holds ∧ after.nsem = some t ∧ (s.nsem = none ∨ s.nsem = some t) ∨
    ¬ l.pc.Holds ∧ s.nsem ≠ some t ∧ after.nsem = s.nsem ∨ ¬ l.pc.Holds ∧ s.nsem = some t ∧ after.nsem = none
  role : Role cfg after.tables t l
  others : ∀ u, u ≠ t → Role cfg s.tables u (s.task u) → Role cfg after.tables u (s.task u)
  bad : after.bad = s.bad

theorem Goes.inv (goes : Goes cfg s t l after) (inv : Inv cfg s) : Inv cfg after where
  forest := by
    rw [refs_update goes.task]
    exact goes.forest
  used := goes.used
  flagged := goes.flagged
  holder u := by
    rw [goes.task]
    by_cases here : u = t
    · subst here
      rw [Function.update_self]
      obtain ⟨holds, self, _⟩ | ⟨idle, other, same⟩ | ⟨idle, _, none⟩ := goes.holder
      · exact ⟨fun _ => self, fun _ => holds⟩
      · rw [same]
        exact ⟨fun holds => absurd holds idle, fun held => absurd held other⟩
      · rw [none]
        exact ⟨fun holds => absurd holds idle, fun held => by cases held⟩
    · rw [Function.update_of_ne here, inv.holder u]
      obtain ⟨_, self, free | own⟩ | ⟨_, _, same⟩ | ⟨_, own, none⟩ := goes.holder
      · rw [self, free]
        exact ⟨fun held => (by cases held), fun held => absurd (Option.some.inj held).symm here⟩
      · rw [self, own]
      · rw [same]
      · rw [own, none]
        exact ⟨fun held => absurd (Option.some.inj held).symm here, fun held => by cases held⟩
  roles u := by
    rw [goes.task]
    by_cases here : u = t
    · subst here
      rw [Function.update_self]
      exact goes.role
    · rw [Function.update_of_ne here]
      exact goes.others u here (inv.roles u)
  bad := goes.bad.trans inv.bad

omit [DecidableEq T] in
/-- Whoever does not hold namespace_sem while `t` does knows nothing that may change. -/
theorem Inv.others (inv : Inv cfg s) (held : s.nsem = some t)
    (pins : ∀ u d, u ≠ t → (u ∈ (st.den d).pins ↔ u ∈ (s.tables.den d).pins)) (u : Task T) (other : u ≠ t)
    (role : Role cfg s.tables u (s.task u)) : Role cfg st u (s.task u) := by
  refine role.away (fun holds => other ?_) fun d => pins u d other
  exact Option.some.inj (((inv.holder u).mp holds).symm.trans held)

omit [Fintype T] [LinearOrder M] [Fintype M] [DecidableEq E] in
/-- Nobody else can be about to insert a mountpoint. -/
theorem Window.keeps (window : Window s d) (here : (s.task t).pc ≠ .gmCreate) (task : after.task = Function.update s.task t l) :
    Window after d := by
  obtain ⟨k, p, creates, answer⟩ := window
  have other : Task.mounter k ≠ t := by
    rintro rfl
    exact here creates
  refine ⟨k, p, ?_⟩
  rw [task, Function.update_of_ne other]
  exact ⟨creates, answer⟩

theorem Inv.flagged_of (inv : Inv cfg s) (here : (s.task t).pc ≠ .gmCreate) (task : after.task = Function.update s.task t l)
    (marks : ∀ d, (st.den d).mp = (s.tables.den d).mp ∧ (st.den d).mounted = (s.tables.den d).mounted ∨
      (st.den d).mp = false ∧ (st.den d).mounted = false) : Flagged after st := by
  intro d
  obtain ⟨forth, back⟩ := inv.flagged d
  obtain ⟨mp, mounted⟩ | ⟨off, clear⟩ := marks d
  · rw [mp, mounted]
    exact ⟨forth, fun on => (back on).imp_right fun window => window.keeps here task⟩
  · rw [off, clear]
    exact ⟨fun on => (Bool.false_ne_true on).elim, fun on => (Bool.false_ne_true on).elim⟩

omit [Fintype T] [LinearOrder M] [DecidableEq T] [Fintype M] [DecidableEq E] in
theorem Freeing.marks (freeing : Freeing s.tables st) (d : E) :
    (st.den d).mp = (s.tables.den d).mp ∧ (st.den d).mounted = (s.tables.den d).mounted ∨
      (st.den d).mp = false ∧ (st.den d).mounted = false :=
  (freeing.mp d).imp_right And.right

/-! ### The kinds of steps -/

/-- A step that touches neither the tree nor namespace_sem. -/
theorem Inv.steps (inv : Inv cfg s) (here : (s.task t).pc ≠ .gmCreate) (task : after.task = Function.update s.task t l)
    (same : Same s.tables after.tables) (forest : Forest cfg (rest cfg s t + l.refs) after.tables)
    (nsem : after.nsem = s.nsem) (bad : after.bad = s.bad)
    (holds : l.pc.Holds ↔ (s.task t).pc.Holds) (role : Role cfg after.tables t l) : Inv cfg after := by
  refine Goes.inv (t := t) (l := l) ⟨task, forest, same.used inv.used, ?_, ?_, role, fun u _ role => same.role role, bad⟩ inv
  · exact inv.flagged_of here task fun d => .inl ⟨same.mp d, same.mounted d⟩
  · rw [nsem, holds, inv.holder t]
    by_cases held : s.nsem = some t
    · exact .inl ⟨held, held, .inr held⟩
    · exact .inr (.inl ⟨held, held, rfl⟩)

/-- A step that changes the variables of its task alone. -/
theorem Inv.local_step (inv : Inv cfg s) (here : (s.task t).pc ≠ .gmCreate) (task : after.task = Function.update s.task t l)
    (tables : after.tables = s.tables) (nsem : after.nsem = s.nsem) (bad : after.bad = s.bad)
    (refs : l.refs = (s.task t).refs) (holds : l.pc.Holds ↔ (s.task t).pc.Holds) (role : Role cfg s.tables t l) :
    Inv cfg after := by
  refine inv.steps here task ?_ ?_ nsem bad holds ?_
  · rw [tables]
    exact .refl _
  · rw [tables, refs]
    exact inv.forest_rest t
  · rw [tables]
    exact role

theorem Inv.acquires (inv : Inv cfg s) (here : (s.task t).pc ≠ .gmCreate) (task : after.task = Function.update s.task t l)
    (tables : after.tables = s.tables) (free : s.nsem = none) (nsem : after.nsem = some t) (bad : after.bad = s.bad)
    (refs : l.refs = (s.task t).refs) (holds : l.pc.Holds) (role : Role cfg s.tables t l) : Inv cfg after := by
  refine Goes.inv (t := t) (l := l) ⟨task, ?_, ?_, ?_, .inl ⟨holds, nsem, .inl free⟩, ?_, fun u _ role => ?_, bad⟩ inv
  · rw [tables, refs]
    exact inv.forest_rest t
  · rw [tables]
    exact inv.used
  · rw [tables]
    exact inv.flagged_of here task fun d => .inl ⟨rfl, rfl⟩
  · rw [tables]
    exact role
  · rw [tables]
    exact role

/-- The holder of namespace_sem takes mounts away, and keeps it or drops it. -/
theorem Inv.cuts (inv : Inv cfg s) (here : (s.task t).pc ≠ .gmCreate) (held : s.nsem = some t)
    (task : after.task = Function.update s.task t l) (forest : Forest cfg (rest cfg s t + l.refs) after.tables)
    (used : Used after.tables)
    (marks : ∀ d, (after.tables.den d).mp = (s.tables.den d).mp ∧ (after.tables.den d).mounted = (s.tables.den d).mounted ∨
      (after.tables.den d).mp = false ∧ (after.tables.den d).mounted = false)
    (pins : ∀ u d, u ≠ t → (u ∈ (after.tables.den d).pins ↔ u ∈ (s.tables.den d).pins))
    (nsem : l.pc.Holds ∧ after.nsem = some t ∨ ¬ l.pc.Holds ∧ after.nsem = none) (bad : after.bad = s.bad)
    (role : Role cfg after.tables t l) : Inv cfg after := by
  refine Goes.inv (t := t) (l := l) ⟨task, forest, used, inv.flagged_of here task marks, ?_, role, inv.others held pins, bad⟩ inv
  exact nsem.imp (fun keeps => ⟨keeps.1, keeps.2, .inr held⟩) fun drops => .inr ⟨drops.1, held, drops.2⟩

/-! ### What a task knows when it goes on -/

/-- The task knows at `b` what it knew at `a`. -/
def Label.Moves (a b : Label) : Prop :=
  (a.Carries → b.Carries) ∧ (a.Unlocks → b.Unlocks) ∧ (a.Pinned ↔ b.Pinned) ∧ (b.Placed → a.Placed) ∧ b ≠ .gmCreate ∧ b ≠ .uTree

instance (a b : Label) : Decidable (a.Moves b) := by unfold Label.Moves; infer_instance

omit [Fintype T] [LinearOrder M] [DecidableEq T] [Fintype M] [DecidableEq E] in
theorem Role.move (role : Role cfg st t l) (here : l.pc = a) (moves : a.Moves m.pc) (tmp : m.tmp = l.tmp)
    (todo : m.todo = l.todo) (ret : m.ret = l.ret) (wm : m.wm = l.wm) : Role cfg st t m := by
  obtain ⟨carries, unlocks, pinned, placed, create, tree⟩ := here ▸ moves
  refine ⟨fun x some' => ?_, ?_, ?_, ?_, fun d => ?_, fun inside => ?_, fun creates => absurd creates create, fun here =>
    absurd here tree⟩
  · obtain ⟨before, known⟩ := role.tmp x (tmp ▸ some')
    rw [wm]
    exact ⟨carries before, known⟩
  · rw [todo]
    exact role.todo.imp_right unlocks
  · rw [todo]
    exact role.loose
  · rw [ret]
    exact role.ret
  · rw [role.pins d, pinned, wm]
  · rw [wm]
    exact role.place (placed inside)

omit [Fintype T] [LinearOrder M] [DecidableEq T] [Fintype M] [DecidableEq E] in
theorem Role.idle (tmp : ∀ x, m.tmp = some x → m.pc.Carries ∧ ∃ k d, t = .mounter k ∧ x ≠ (cfg.info k).pm ∧ m.wm = some (x, d))
    (todo : m.todo = ∅) (ret : m.ret = .done ∨ m.ret = .rUnlock ∨ m.ret = .dFind) (pins : ∀ d, t ∉ (st.den d).pins)
    (idle : ¬ m.pc.Holds) : Role cfg st t m where
  tmp := tmp
  todo := .inl todo
  loose y inside := by
    rw [todo] at inside
    exact absurd inside (Finset.notMem_empty y)
  ret := ret
  pins d := ⟨fun pinned => absurd pinned (pins d), fun pinned => absurd pinned.1.holds idle⟩
  place placed := absurd placed.holds idle
  creating here := by
    rw [here] at idle
    exact absurd (by decide) idle
  target here := by
    rw [here] at idle
    exact absurd (by decide) idle

omit [Fintype T] [LinearOrder M] [DecidableEq T] [Fintype M] [DecidableEq E] in
theorem Role.unpinned (role : Role cfg st t l) (here : l.pc = a) (other : ¬ a.Pinned) (d : E) : t ∉ (st.den d).pins :=
  fun pinned => other (here ▸ ((role.pins d).mp pinned).1)

omit [Fintype T] [LinearOrder M] [DecidableEq T] [Fintype M] [DecidableEq E] in
theorem Role.no_todo (role : Role cfg st t l) (here : l.pc = a) (other : ¬ a.Unlocks) : l.todo = ∅ :=
  role.todo.resolve_right fun unlocks => other (here ▸ unlocks)

omit [Fintype T] [LinearOrder M] [DecidableEq T] [Fintype M] [DecidableEq E] in
theorem Role.no_tmp (role : Role cfg st t l) (here : l.pc = a) (other : ¬ a.Carries) : l.tmp = none := by
  cases tmp : l.tmp with
  | none => rfl
  | some x => exact absurd (here ▸ (role.tmp x tmp).1) other

omit [Fintype M] [DecidableEq E] in
theorem Local.refs_empty (tmp : l.tmp = none) (todo : l.todo = ∅) : l.refs = 0 := by
  rw [Local.refs, tmp, todo, members_empty]
  rfl

theorem Inv.goes_on (inv : Inv cfg s) (here : (s.task t).pc = a) (task : after.task = Function.update s.task t m)
    (tables : after.tables = s.tables) (nsem : after.nsem = s.nsem) (bad : after.bad = s.bad) (calm : a ≠ .gmCreate)
    (moves : a.Moves m.pc) (holds : m.pc.Holds ↔ a.Holds) (tmp : m.tmp = (s.task t).tmp) (todo : m.todo = (s.task t).todo)
    (ret : m.ret = (s.task t).ret) (wm : m.wm = (s.task t).wm) : Inv cfg after := by
  refine inv.local_step ?_ task tables nsem bad (Local.refs_congr tmp todo) ?_ ((inv.roles t).move here moves tmp todo ret wm)
  · rw [here]
    exact calm
  · rw [here]
    exact holds

end LinuxTla.LockMount
