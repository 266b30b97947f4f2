import LinuxTla.LockMount.Safety

/-! No mount is left behind on a directory that was removed or dropped. -/

namespace LinuxTla.LockMount

open Lib

variable {M E N T : Type} [Fintype M] [LinearOrder M] [DecidableEq E]
  {cfg : Config M E N T} {s after : State M E N T} {st next : Tables M E N T} {x y p : M} {d e : E}
  {t u : Task T} {k : T} {l m : Local M E} {a : Label}

/-! ### What happens to a directory that goes away -/

/-- Nothing is mounted on a dead dentry, and an unhashed one does not become a mountpoint. -/
structure Shrinks (cfg : Config M E N T) (st next : Tables M E N T) : Prop where
  mlist : ∀ d, (st.den d).cant = true → next.mlist d ⊆ st.mlist d
  mounted : ∀ d, (st.den d).unhashed = true → cfg.dparent d ≠ d → (st.den d).mounted = false → (next.den d).mounted = false
  cant : ∀ d, (next.den d).cant = (st.den d).cant
  unhashed : ∀ d, (next.den d).unhashed = (st.den d).unhashed

theorem Shrinks.refl (st : Tables M E N T) : Shrinks cfg st st :=
  ⟨fun _ _ => Finset.Subset.refl _, fun _ _ _ => id, fun _ => rfl, fun _ => rfl⟩

theorem Cut.mlist (cut : Cut st next) (d : E) : next.mlist d ⊆ st.mlist d := by
  intro x inside
  obtain ⟨on, linked, mp⟩ := mem_mlist.mp inside
  obtain ⟨before, _, same⟩ := cut.linked x linked
  exact mem_mlist.mpr ⟨cut.alive x on, before, same.symm.trans mp⟩

omit [Fintype M] [LinearOrder M] [DecidableEq E] in
theorem Freeing.clears (freeing : Freeing st next) (clear : (st.den d).mounted = false) : (next.den d).mounted = false := by
  obtain ⟨_, same⟩ | ⟨_, _, off⟩ := freeing.mp d
  · exact same.trans clear
  · exact off

theorem Shrinks.of_cut (cut : Cut st next) (freeing : Freeing st next) : Shrinks cfg st next :=
  ⟨fun d _ => cut.mlist d, fun _ _ _ => freeing.clears, freeing.cant, freeing.unhashed⟩

/-- The mounts stay where they are. -/
theorem Shrinks.of_marks (mnt : next.mnt = st.mnt)
    (mounted : ∀ d, (st.den d).unhashed = true → cfg.dparent d ≠ d → (st.den d).mounted = false → (next.den d).mounted = false)
    (cant : ∀ d, (next.den d).cant = (st.den d).cant) (unhashed : ∀ d, (next.den d).unhashed = (st.den d).unhashed) :
    Shrinks cfg st next :=
  ⟨fun _ _ => (mlist_congr mnt).le, mounted, cant, unhashed⟩

variable [DecidableEq T]

omit [DecidableEq T] in
theorem Shrinks.of_same (same : Same st next) (den : next.den = st.den) : Shrinks cfg st next := by
  refine ⟨fun d _ => (same.mlist d).le, fun d _ _ clear => ?_, fun d => ?_, fun d => ?_⟩
  · rw [den]
    exact clear
  · rw [den]
  · rw [den]

omit [DecidableEq T] in
theorem Shrinks.setDen {f : Dentry T} (cant : f.cant = (st.den d).cant) (unhashed : f.unhashed = (st.den d).unhashed)
    (mounted : (st.den d).unhashed = true → cfg.dparent d ≠ d → (st.den d).mounted = false → f.mounted = false) :
    Shrinks cfg st (st.setDen d f) := by
  refine .of_marks rfl (fun e => ?_) (fun e => ?_) fun e => ?_
  all_goals
    by_cases here : e = d
    · rw [here, Tables.setDen_den, Function.update_self]
      assumption
    · simp [here]

omit [DecidableEq T] in
theorem Shrinks.trans {last : Tables M E N T} (first : Shrinks cfg st next) (second : Shrinks cfg next last) :
    Shrinks cfg st last where
  mlist d dead := (second.mlist d ((first.cant d).trans dead)).trans (first.mlist d dead)
  mounted d gone below clear :=
    second.mounted d ((first.unhashed d).trans gone) below (first.mounted d gone below clear)
  cant d := (second.cant d).trans (first.cant d)
  unhashed d := (second.unhashed d).trans (first.unhashed d)

theorem shrinks_unpin (st : Tables M E N T) (t : Task T) (d : E) : Shrinks cfg st (st.unpin t d) := by
  have unlisted : Shrinks cfg st (st.setDen d { st.den d with pins := (st.den d).pins.erase t }) :=
    .setDen rfl rfl fun _ _ => id
  have freeing := freeing_maybeFree (st.setDen d { st.den d with pins := (st.den d).pins.erase t }) d
  exact unlisted.trans (.of_marks Tables.maybeFree_mnt (fun _ _ _ => freeing.clears) freeing.cant freeing.unhashed)

omit [DecidableEq T] in
/-- A new mount does not sit on a dead dentry. -/
theorem shrinks_attach {n : N} (alive : (st.den d).cant = false) :
    Shrinks cfg st (st.attach cfg x p d n) := by
  refine ⟨fun e dead y inside => ?_, fun _ _ _ => id, fun _ => rfl, fun _ => rfl⟩
  rw [mem_mlist, Tables.HasParent, Tables.attach_mnt] at inside
  by_cases here : y = x
  · rw [here, Function.update_self] at inside
    obtain ⟨_, _, rfl⟩ := inside
    cases dead.symm.trans alive
  · rw [Function.update_of_ne here] at inside
    exact mem_mlist.mpr inside

/-! ### vfs_rmdir() and d_invalidate() -/

/-- `R` has killed the dentry and has not detached its mounts yet. -/
def Label.Waits (l : Label) : Prop := l ∈ [Label.dmStart, .dmNsem, .dmBody]

def Label.Detaches (l : Label) : Prop := l ∈ [Label.dmStart, .dmNsem, .dmBody, .dmUnlock]

instance (l : Label) : Decidable l.Waits := inferInstanceAs (Decidable (_ ∈ _))
instance (l : Label) : Decidable l.Detaches := inferInstanceAs (Decidable (_ ∈ _))

/-- What `R` leaves on the directories it kills. -/
structure Removing (cfg : Config M E N T) (st : Tables M E N T) (l : Local M E) : Prop where
  cant : ∀ d, (st.den d).cant = true → cfg.rmdirTarget = some d ∧ (l.pc.Waits ∨ st.mlist d = ∅)
  detaching : l.pc.Detaches → l.ret = .rUnlock ∧ l.dt = cfg.rmdirTarget
  removing : l.pc.Detaches ∨ l.pc = .rUnlock ∨ l.pc = .rDelete → ∀ d, cfg.rmdirTarget = some d → (st.den d).cant = true

structure Dropping (cfg : Config M E N T) (st : Tables M E N T) (l : Local M E) : Prop where
  hunting : l.pc.Detaches → l.ret = .dFind
  unhashed : ∀ d, (st.den d).unhashed = true → (st.den d).cant = true ∨
    cfg.invalTarget = some d ∧ (l.pc = .dFind ∨ l.pc.Detaches ∨ (st.den d).mounted = false)

/-- The directories that were removed or dropped. -/
structure Cleared (cfg : Config M E N T) (s : State M E N T) : Prop where
  removing : Removing cfg s.tables (s.task .rmdir)
  dropping : Dropping cfg s.tables (s.task .inval)

omit [DecidableEq T] in
theorem Removing.shrinks (removing : Removing cfg st l) (shrinks : Shrinks cfg st next) : Removing cfg next l where
  cant d dead := by
    rw [shrinks.cant] at dead
    obtain ⟨target, waits | empty⟩ := removing.cant d dead
    · exact ⟨target, .inl waits⟩
    · exact ⟨target, .inr (Finset.subset_empty.mp (empty ▸ shrinks.mlist d dead))⟩
  detaching := removing.detaching
  removing here d target := (shrinks.cant d).trans (removing.removing here d target)

omit [DecidableEq T] in
theorem Dropping.shrinks (dropping : Dropping cfg st l) (below : ∀ d, cfg.invalTarget = some d → cfg.dparent d ≠ d)
    (shrinks : Shrinks cfg st next) : Dropping cfg next l where
  hunting := dropping.hunting
  unhashed d gone := by
    rw [shrinks.unhashed] at gone
    rw [shrinks.cant]
    refine (dropping.unhashed d gone).imp_right fun dropped => ⟨dropped.1, dropped.2.imp_right fun hunts =>
      hunts.imp_right fun clear => shrinks.mounted d gone (below d dropped.1) clear⟩

omit [DecidableEq T] in
/-- The task goes on detaching, or has nothing left to detach. -/
theorem Removing.move (removing : Removing cfg st l) (ret : m.ret = l.ret) (dt : m.dt = l.dt)
    (waits : l.pc.Waits → m.pc.Waits ∨ ∀ d, cfg.rmdirTarget = some d → st.mlist d = ∅)
    (detaches : m.pc.Detaches → l.pc.Detaches)
    (removes : m.pc = .rUnlock ∨ m.pc = .rDelete → l.pc.Detaches ∨ l.pc = .rUnlock ∨ l.pc = .rDelete) :
    Removing cfg st m where
  cant d dead := by
    obtain ⟨target, here | empty⟩ := removing.cant d dead
    · exact ⟨target, (waits here).imp_right fun all => all d target⟩
    · exact ⟨target, .inr empty⟩
  detaching here := by
    rw [ret, dt]
    exact removing.detaching (detaches here)
  removing here := removing.removing (here.elim (fun here => .inl (detaches here)) removes)

omit [Fintype M] [LinearOrder M] [DecidableEq E] [DecidableEq T] in
theorem Dropping.move (dropping : Dropping cfg st l) (ret : m.ret = l.ret) (detaches : m.pc.Detaches → l.pc.Detaches)
    (hunts : l.pc = .dFind ∨ l.pc.Detaches → m.pc = .dFind ∨ m.pc.Detaches) : Dropping cfg st m where
  hunting here := ret.trans (dropping.hunting (detaches here))
  unhashed d gone := (dropping.unhashed d gone).imp_right fun dropped => ⟨dropped.1, by
    obtain here | here | clear := dropped.2
    · exact (hunts (.inl here)).imp_right .inl
    · exact (hunts (.inr here)).imp_right .inl
    · exact .inr (.inr clear)⟩

omit [Fintype M] [LinearOrder M] [DecidableEq T] in
theorem unhash_den (st : Tables M E N T) (d e : E) :
    ∃ b, (st.setDen d { st.den d with unhashed := true }).den e = { st.den e with unhashed := b } ∧ (b = true → e ≠ d →
      (st.den e).unhashed = true) := by
  by_cases same : e = d
  · exact ⟨true, by simp [same], fun _ other => absurd same other⟩
  · exact ⟨(st.den e).unhashed, by simp [same], fun gone _ => gone⟩

omit [DecidableEq T] in
theorem Removing.unhash (removing : Removing cfg st l) :
    Removing cfg (st.setDen d { st.den d with unhashed := true }) l where
  cant e dead := by
    obtain ⟨_, den, _⟩ := unhash_den st d e
    rw [den] at dead
    exact removing.cant e dead
  detaching := removing.detaching
  removing here e target := by
    obtain ⟨_, den, _⟩ := unhash_den st d e
    rw [den]
    exact removing.removing here e target

omit [Fintype M] [LinearOrder M] [DecidableEq T] in
/-- The dentry goes, dead or hunted for. -/
theorem Dropping.unhash (dropping : Dropping cfg st l)
    (hunted : (st.den d).cant = true ∨ cfg.invalTarget = some d ∧ (l.pc = .dFind ∨ l.pc.Detaches ∨ (st.den d).mounted = false)) :
    Dropping cfg (st.setDen d { st.den d with unhashed := true }) l where
  hunting := dropping.hunting
  unhashed e gone := by
    obtain ⟨_, den, before⟩ := unhash_den st d e
    rw [den] at gone ⊢
    by_cases same : e = d
    · rw [same]
      exact hunted
    · exact dropping.unhashed e (before gone same)

/-! ### The steps -/

theorem Cleared.others (cleared : Cleared cfg s) (below : ∀ d, cfg.invalTarget = some d → cfg.dparent d ≠ d)
    (shrinks : Shrinks cfg s.tables after.tables) (task : after.task = Function.update s.task t l) (other : Task.rmdir ≠ t)
    (other' : Task.inval ≠ t) : Cleared cfg after where
  removing := by
    rw [task, Function.update_of_ne other]
    exact cleared.removing.shrinks shrinks
  dropping := by
    rw [task, Function.update_of_ne other']
    exact cleared.dropping.shrinks below shrinks

theorem Cleared.of_rmdir (task : after.task = Function.update s.task .rmdir l) (removing : Removing cfg after.tables l)
    (dropping : Dropping cfg after.tables (s.task .inval)) : Cleared cfg after where
  removing := by
    rw [task, Function.update_self]
    exact removing
  dropping := by
    have other : Task.inval ≠ (Task.rmdir : Task T) := by simp
    rw [task, Function.update_of_ne other]
    exact dropping

theorem Cleared.of_inval (task : after.task = Function.update s.task .inval l)
    (removing : Removing cfg after.tables (s.task .rmdir)) (dropping : Dropping cfg after.tables l) : Cleared cfg after where
  removing := by
    have other : Task.rmdir ≠ (Task.inval : Task T) := by simp
    rw [task, Function.update_of_ne other]
    exact removing
  dropping := by
    rw [task, Function.update_self]
    exact dropping

theorem Cleared.rmdir_acts (cleared : Cleared cfg s) (below : ∀ d, cfg.invalTarget = some d → cfg.dparent d ≠ d)
    (shrinks : Shrinks cfg s.tables after.tables) (task : after.task = Function.update s.task .rmdir l)
    (removing : Removing cfg after.tables (s.task .rmdir) → Removing cfg after.tables l) : Cleared cfg after :=
  .of_rmdir task (removing (cleared.removing.shrinks shrinks)) (cleared.dropping.shrinks below shrinks)

theorem Cleared.inval_acts (cleared : Cleared cfg s) (below : ∀ d, cfg.invalTarget = some d → cfg.dparent d ≠ d)
    (shrinks : Shrinks cfg s.tables after.tables) (task : after.task = Function.update s.task .inval l)
    (dropping : Dropping cfg after.tables (s.task .inval) → Dropping cfg after.tables l) : Cleared cfg after :=
  .of_inval task (cleared.removing.shrinks shrinks) (dropping (cleared.dropping.shrinks below shrinks))

variable [Fintype T]

omit [DecidableEq T] in
/-- No mount is on a dentry without its flag. -/
theorem Inv.bare (inv : Inv cfg s) (clear : (s.tables.den d).mounted = false) : s.tables.mlist d = ∅ := by
  by_contra mounts
  have there := (inv.used d).mpr (.inl mounts)
  cases clear.symm.trans ((inv.flagged d).1 there)

variable [Fintype E] [DecidableEq N]

omit [DecidableEq N] in
theorem Cleared.mount (cleared : Cleared cfg s) (inv : Inv cfg s) (below : ∀ d, cfg.invalTarget = some d → cfg.dparent d ≠ d)
    (step : Mounting cfg s k after) : Cleared cfg after := by
  have role := inv.roles (.mounter k)
  suffices shrinks : Shrinks cfg s.tables after.tables by
    cases step <;> exact cleared.others below shrinks rfl (by simp) (by simp)
  cases step with
  | start | w1Own | ilock | nsem | moved | dead | w2 | gmUnlinked | gmStart | gmLookup | gmGone | gmBusy | amInval | amCheck =>
    exact .refl _
  | w1Top => exact .of_same (.setCount ..) rfl
  | gmFound => exact .setDen rfl rfl fun _ _ => id
  | gmSet here answer linked clear =>
    exact .setDen rfl rfl fun gone below => absurd (.inr ⟨gone, below⟩) linked
  | gmCreate => exact .setDen rfl rfl fun _ _ => id
  | again here | lmFail here =>
    have puts := inv.puts_away here
    exact .of_cut puts.cut puts.freeing
  | lmOk here =>
    obtain ⟨same, den, _⟩ := inv.puts_tmp here
    exact .of_same same den
  | @amAttach p d x here answer =>
    exact shrinks_attach (role.place (by rw [here]; decide) k p d rfl answer).2
  | umUnlock => exact shrinks_unpin ..

omit [Fintype E] [DecidableEq N] in
theorem Cleared.detach (cleared : Cleared cfg s) (inv : Inv cfg s) (below : ∀ d, cfg.invalTarget = some d → cfg.dparent d ≠ d)
    (all : cfg.fixLookupUnlinked = true) (step : Detach cfg s t after) : Cleared cfg after := by
  have shrinks : Shrinks cfg s.tables after.tables := by
    cases step with
    | start | nsem => exact .refl _
    | @body d here =>
      obtain ⟨⟨⟨_, _, cut, freeing⟩, _⟩, _⟩ := inv.detaches all here d
      exact .of_cut cut freeing
    | unlock here =>
      have puts := inv.puts_todo (t := t) (by rw [here]; decide)
      exact .of_cut puts.cut puts.freeing
  cases t with
  | mounter k => cases step <;> exact cleared.others below shrinks rfl (by simp) (by simp)
  | umount => cases step <;> exact cleared.others below shrinks rfl (by simp) (by simp)
  | rmdir =>
    cases step with
    | @start d here target =>
      refine cleared.rmdir_acts below shrinks rfl fun removing => ?_
      obtain ⟨ret, known⟩ := removing.detaching (by rw [here]; decide)
      rw [ret]
      by_cases mounted : (s.tables.den d).mounted = true
      · rw [if_pos mounted]
        exact removing.move rfl rfl (fun _ => .inl (by dsimp only; decide)) (fun _ => by rw [here]; decide)
          (fun _ => .inl (by rw [here]; decide))
      · rw [if_neg mounted]
        refine removing.move rfl rfl (fun _ => .inr fun e same => ?_) (fun on => absurd on (by dsimp only; decide))
          (fun _ => .inl (by rw [here]; decide))
        cases (target.symm.trans known).trans same
        exact inv.bare (by simpa using mounted)
    | nsem here =>
      refine cleared.rmdir_acts below shrinks rfl fun removing => removing.move rfl rfl (fun _ => .inl ?_) (fun _ => ?_)
        fun _ => .inl ?_
      · dsimp only
        decide
      · rw [here]
        decide
      · rw [here]
        decide
    | @body d here target =>
      refine cleared.rmdir_acts below shrinks rfl fun removing => removing.move rfl rfl (fun _ => .inr fun e same => ?_)
        (fun _ => ?_) fun _ => .inl ?_
      · obtain ⟨_, known⟩ := removing.detaching (by rw [here]; decide)
        cases (target.symm.trans known).trans same
        exact (inv.detaches all here d).2
      · rw [here]
        decide
      · rw [here]
        decide
    | unlock here =>
      refine cleared.rmdir_acts below shrinks rfl fun removing => ?_
      obtain ⟨ret, _⟩ := removing.detaching (by rw [here]; decide)
      refine removing.move rfl rfl (fun waits => ?_) (fun _ => ?_) fun _ => .inl ?_
      · rw [here] at waits
        exact absurd waits (by decide)
      · rw [here]
        decide
      · rw [here]
        decide
  | inval =>
    have hunting := cleared.dropping.hunting
    cases step with
    | @start d here =>
      refine cleared.inval_acts below shrinks rfl fun dropping => dropping.move rfl (fun _ => ?_) fun _ => ?_
      · rw [here]
        decide
      · rw [hunting (by rw [here]; decide)]
        dsimp only
        split_ifs <;> decide
    | nsem here =>
      refine cleared.inval_acts below shrinks rfl fun dropping => dropping.move rfl (fun _ => ?_) fun _ => ?_
      · rw [here]
        decide
      · dsimp only
        decide
    | body here =>
      refine cleared.inval_acts below shrinks rfl fun dropping => dropping.move rfl (fun _ => ?_) fun _ => ?_
      · rw [here]
        decide
      · dsimp only
        decide
    | unlock here =>
      refine cleared.inval_acts below shrinks rfl fun dropping => dropping.move rfl (fun _ => ?_) fun _ => .inl ?_
      · rw [here]
        decide
      · exact hunting (by rw [here]; decide)

omit [Fintype T] [Fintype E] [DecidableEq N] in
/-- vfs_rmdir() kills the dentry before it detaches, and unhashes it afterwards. -/
theorem Cleared.rmdir (cleared : Cleared cfg s) (below : ∀ d, cfg.invalTarget = some d → cfg.dparent d ≠ d)
    (target : cfg.rmdirTarget = some d) (step : Rmdir cfg s d after) : Cleared cfg after := by
  obtain ⟨removing, dropping⟩ := cleared
  cases step with
  | ilock here | busy here | unlock here =>
    refine Cleared.rmdir_acts ⟨removing, dropping⟩ below (.refl _) rfl fun removing =>
      removing.move rfl rfl (fun waits => ?_) (fun on => absurd on (by dsimp only; decide)) fun on => ?_
    · rw [here] at waits
      exact absurd waits (by decide)
    · rw [here]
      revert on
      dsimp only
      decide
  | dontMount here free idle =>
    have den (e : E) : ((s.tables.setDen d { s.tables.den d with cant := true }).den e).mounted = (s.tables.den e).mounted ∧
        ((s.tables.setDen d { s.tables.den d with cant := true }).den e).unhashed = (s.tables.den e).unhashed ∧
        (((s.tables.setDen d { s.tables.den d with cant := true }).den e).cant = true ↔
          e = d ∨ (s.tables.den e).cant = true) := by
      by_cases same : e = d
      · simp [same]
      · simp [same]
    have killed (e : E) (dead : ((s.tables.setDen d { s.tables.den d with cant := true }).den e).cant = true) :
        cfg.rmdirTarget = some e := by
      obtain rfl | dead := (den e).2.2.mp dead
      · exact target
      · exact (removing.cant e dead).1
    refine .of_rmdir (s := s) rfl ?_ ?_
    · refine ⟨fun e dead => ⟨killed e dead, .inl ?_⟩, fun _ => ⟨rfl, target.symm⟩, fun _ e same => ?_⟩
      · dsimp only
        decide
      · cases target.symm.trans same
        exact (den d).2.2.mpr (.inl rfl)
    · change Dropping cfg (s.tables.setDen d { s.tables.den d with cant := true }) (s.task .inval)
      refine ⟨dropping.hunting, fun e gone => ?_⟩
      rw [(den e).2.1] at gone
      rw [(den e).1, (den e).2.2]
      exact (dropping.unhashed e gone).imp_left .inr
  | delete here =>
    have dead := removing.removing (.inr (.inr here)) d target
    have removing : Removing cfg s.tables { s.task .rmdir with pc := .done } :=
      removing.move rfl rfl (fun waits => absurd waits (by rw [here]; decide)) (fun on => absurd on (by dsimp only; decide))
        fun on => absurd on (by dsimp only; decide)
    exact .of_rmdir (s := s) rfl removing.unhash (dropping.unhash (.inl dead))

omit [Fintype T] [DecidableEq N] in
/-- d_invalidate() drops the dentry before it hunts for mountpoints, and ends when it finds none. -/
theorem Cleared.inval (cleared : Cleared cfg s) (below : ∀ d, cfg.invalTarget = some d → cfg.dparent d ≠ d)
    (target : cfg.invalTarget = some d) (step : Inval cfg s d after) : Cleared cfg after := by
  obtain ⟨removing, dropping⟩ := cleared
  cases step with
  | gone here =>
    refine Cleared.inval_acts ⟨removing, dropping⟩ below (.refl _) rfl fun dropping =>
      dropping.move rfl (fun on => absurd on (by dsimp only; decide)) fun on => absurd on ?_
    rw [here]
    decide
  | drop here =>
    have dropping : Dropping cfg s.tables { s.task .inval with pc := .dFind } :=
      dropping.move rfl (fun on => absurd on (by dsimp only; decide)) fun _ => .inl rfl
    exact .of_inval (s := s) rfl removing.unhash (dropping.unhash (.inr ⟨target, .inl rfl⟩))
  | none here none =>
    refine Cleared.inval_acts ⟨removing, dropping⟩ below (.refl _) rfl fun dropping =>
      ⟨fun on => absurd on (by dsimp only; decide), fun e gone => ?_⟩
    refine (dropping.unhashed e gone).imp_right fun dropped => ⟨dropped.1, .inr (.inr ?_)⟩
    cases target.symm.trans dropped.1
    exact none d (Finset.mem_filter.mpr ⟨Finset.mem_univ d, .inl rfl⟩)
  | found here =>
    refine Cleared.inval_acts ⟨removing, dropping⟩ below (.refl _) rfl fun dropping => ⟨fun _ => rfl, fun e gone => ?_⟩
    refine (dropping.unhashed e gone).imp_right fun dropped => ⟨dropped.1, .inr ?_⟩
    obtain _ | _ | clear := dropped.2
    · exact .inl (by dsimp only; decide)
    · exact .inl (by dsimp only; decide)
    · exact .inr clear

omit [Fintype E] [DecidableEq N] in
theorem Cleared.umount (cleared : Cleared cfg s) (inv : Inv cfg s)
    (below : ∀ d, cfg.invalTarget = some d → cfg.dparent d ≠ d) (target : cfg.umountTarget = some x)
    (step : Umount s x after) : Cleared cfg after := by
  suffices shrinks : Shrinks cfg s.tables after.tables by
    cases step <;> exact cleared.others below shrinks rfl (by simp) (by simp)
  cases step with
  | nsem | never => exact .refl _
  | tree here =>
    obtain ⟨alive, linked⟩ := (inv.roles .umount).target here x target
    obtain ⟨cut, _⟩ : Cut s.tables (s.tables.umountTree x false).1 ∧ _ := inv.forest.umountTree alive linked
    obtain ⟨_, freeing⟩ : Used (s.tables.umountTree x false).1 ∧ _ := inv.used.umountTree alive linked
    exact .of_cut cut freeing
  | unlock here =>
    have puts := inv.puts_todo (t := .umount) (by rw [here]; decide)
    exact .of_cut puts.cut puts.freeing

/-! ### Every reachable state -/

omit [DecidableEq T] [Fintype E] [DecidableEq N] in
theorem Init.cleared (start : Init cfg s) : Cleared cfg s where
  removing := by
    refine ⟨fun d dead => ?_, fun on => absurd on ?_, fun on => absurd on ?_⟩
    · rw [start.den d] at dead
      cases dead
    · rw [start.task]
      change ¬ Label.rIlock.Detaches
      decide
    · rw [start.task]
      change ¬ (Label.rIlock.Detaches ∨ Label.rIlock = .rUnlock ∨ Label.rIlock = .rDelete)
      decide
  dropping := by
    refine ⟨fun on => absurd on ?_, fun d gone => ?_⟩
    · rw [start.task]
      change ¬ Label.dDrop.Detaches
      decide
    · rw [start.den d] at gone
      cases gone

omit [DecidableEq N] in
theorem cleared (formed : cfg.WellFormed) (fixed : cfg.Fixed) (below : ∀ d, cfg.invalTarget = some d → cfg.dparent d ≠ d) :
    (spec cfg).Invariant (Cleared cfg) := by
  refine (invariant formed fixed).relative (fun s start => Init.cleared start) fun s after inv _ cleared step => ?_
  cases step with
  | detach step => exact cleared.detach inv below fixed.lookupUnlinked step
  | mount step => exact cleared.mount inv below step
  | rmdir target step => exact cleared.rmdir below target step
  | inval target step => exact cleared.inval below target step
  | umount target step => exact cleared.umount inv below target step
  | settled _ => exact cleared

omit [Fintype E] [DecidableEq N] [DecidableEq T] in
theorem Cleared.noOrphans (cleared : Cleared cfg s) (inv : Inv cfg s) : NoOrphans cfg s := by
  intro settled x on hashed _
  have linked := ((inv.forest.hashed x).mp hashed).2
  have inside : x ∈ s.tables.mlist (s.tables.mnt x).mp := mem_mlist.mpr ⟨on, linked, rfl⟩
  have alive : (s.tables.den (s.tables.mnt x).mp).cant = false := by
    by_contra dead
    obtain ⟨target, waits | empty⟩ := cleared.removing.cant _ (by simpa using dead)
    · have done : (s.task .rmdir).pc = .done := settled .rmdir (by rw [Running, target]; exact Option.some_ne_none _)
      rw [done] at waits
      exact absurd waits (by decide)
    · exact absurd (empty ▸ inside) (Finset.notMem_empty x)
  refine ⟨?_, alive⟩
  by_contra gone
  obtain dead | ⟨target, busy⟩ := cleared.dropping.unhashed _ (by simpa using gone)
  · cases alive.symm.trans dead
  · have done : (s.task .inval).pc = .done := settled .inval (by rw [Running, target]; exact Option.some_ne_none _)
    rw [done] at busy
    have clear := (busy.resolve_left (by decide)).resolve_left (by decide)
    exact absurd (inv.bare clear ▸ inside) (Finset.notMem_empty x)

omit [DecidableEq N] in
/-- After everything settled no mount is left on a directory that was removed or dropped. -/
theorem no_orphans (formed : cfg.WellFormed) (fixed : cfg.Fixed)
    (below : ∀ d, cfg.invalTarget = some d → cfg.dparent d ≠ d) : (spec cfg).Invariant (NoOrphans cfg) :=
  fun s reached => (cleared formed fixed below s reached).noOrphans (invariant formed fixed s reached)

/-- Two mounters on two directories, of which one is dropped and the other to be removed. -/
def spread : Config (Fin 3) (Fin 4) Unit Bool where
  dparent d := if d = 2 then 2 else 0
  newRoot := 2
  rootDentry := 0
  roots _ := some 0
  rootNs _ := ()
  info t := { ns := (), pm := 0, pd := if t then 1 else 3, budget := 1 }
  rmdirTarget := some 3
  invalTarget := some 1
  umountTarget := some 2
  localNs := ()
  fixRecheck := true
  fixUnlinked := true
  fixDontMount := true
  fixLookupUnlinked := true

def spreadStart : State (Fin 3) (Fin 4) Unit Bool where
  tables :=
    { mnt := fun x => if x = 0 then { fresh spread x with alive := true, ns := some (), count := 3 } else fresh spread x
      den := fun _ => { unhashed := false, mounted := false, cant := false, mp := false, pins := ∅ } }
  ilock _ := none
  nsem := none
  nsreaders := ∅
  task := initLocal spread
  bad := false

theorem spreadStart_init : Init spread spreadStart where
  root x root := by
    obtain ⟨_, same⟩ := root
    obtain rfl : 0 = x := Option.some.inj same
    rfl
  other x other := if_neg fun same => other ⟨(), congrArg some same.symm⟩
  den _ := rfl
  ilock _ := rfl
  nsem := rfl
  nsreaders := rfl
  task := rfl
  bad := rfl

/-- One mounter finds its directory dropped; the mount of the other keeps rmdir away. -/
theorem spread_settled : ∃ s, (spec spread).Reachable s ∧ s.Settled spread ∧ (s.tables.mnt 1).alive = true ∧
    (s.tables.mnt 1).hashed = true ∧ (s.tables.mnt 1).ns = some () ∧ (s.tables.mnt 1).mp = 3 ∧
    (s.tables.den 1).unhashed = true := by
  have step {s s' : State (Fin 3) (Fin 4) Unit Bool} (t : Bool) (reached : (spec spread).Reachable s)
      (step : Mounting spread s t s') : (spec spread).Reachable s' := reached.next (.mount step)
  have run := step true (.init spreadStart_init) (.start rfl)
  have run := step true run (.w1Own rfl (by decide))
  have run := step true run (.ilock rfl rfl rfl)
  have run := run.next (.inval rfl (.drop rfl rfl))
  have run := step false run (.start rfl)
  have run := step false run (.w1Own rfl (by decide))
  have run := step true run (.nsem rfl ⟨rfl, rfl⟩)
  have run := step true run (.w2 rfl rfl (by decide) (by unfold Dead; decide))
  have run := step true run (.gmStart rfl rfl (by decide))
  have run := step true run (.gmGone rfl rfl (by decide))
  have run := step true run (.lmFail rfl rfl (by decide))
  have run := step true run (.start rfl)
  have run := run.next (.inval rfl (.none rfl (by decide)))
  have run := step false run (.ilock rfl rfl rfl)
  have run := step false run (.nsem rfl ⟨rfl, rfl⟩)
  have run := step false run (.w2 rfl rfl (by decide) (by unfold Dead; decide))
  have run := step false run (.gmStart rfl rfl (by decide))
  have run := step false run (.gmSet rfl rfl (by decide) rfl)
  have run := step false run (.gmCreate rfl rfl)
  have run := step false run (.lmOk rfl)
  have run := step false run (.amCheck rfl rfl (by decide))
  have run := step false run (.amAttach (x := 1) rfl rfl (by decide))
  have run := step false run (.umUnlock rfl rfl)
  have run := step false run (.start rfl)
  have run := run.next (.rmdir rfl (.ilock rfl rfl))
  have run := run.next (.rmdir rfl (.busy rfl rfl ⟨by decide, 1, by decide⟩))
  have run := run.next (.umount rfl (.never rfl (by unfold Tables.Umountable; decide) (by decide)))
  refine ⟨_, run, fun t _ => ?_, by decide, by decide, by decide, by decide, by decide⟩
  cases t with
  | mounter t => cases t <;> rfl
  | rmdir | inval | umount => rfl

theorem spread_no_orphans : ∃ s : State (Fin 3) (Fin 4) Unit Bool, s.Settled spread ∧ (s.tables.mnt 1).hashed = true ∧ (s.tables.mnt 1).mp = 3 ∧
    (s.tables.den 3).unhashed = false ∧ (s.tables.den 3).cant = false := by
  obtain ⟨s, reached, settled, alive, hashed, inside, place, -⟩ := spread_settled
  have below : ∀ d, spread.invalTarget = some d → spread.dparent d ≠ d := fun d target => by
    cases target
    decide
  have clean := no_orphans ⟨fun _ => ⟨(), rfl⟩⟩ ⟨rfl, rfl, rfl, rfl⟩ below s reached settled 1 alive hashed
    (by rw [inside]; exact Option.some_ne_none ())
  rw [place] at clean
  exact ⟨s, settled, hashed, place, clean⟩

end LinuxTla.LockMount
