import LinuxTla.LockMount.Mounters
import LinuxTla.LockMount.Removers

/-! No interleaving of the mounters with rmdir, d_invalidate() and umount attaches a mount
where it may not be, loses a mountpoint or leaves one behind. -/

namespace LinuxTla.LockMount

open Lib

variable {M E N T : Type} [LinearOrder M] [Fintype T]
  {cfg : Config M E N T} {s after : State M E N T} {st : Tables M E N T} {x y p : M} {d e : E}
  {t u : Task T} {k : T} {l m : Local M E} {a : Label}

theorem Init.root_of_alive (start : Init cfg s) (on : (s.tables.mnt x).alive = true) : IsRoot cfg x := by
  by_contra other
  rw [start.other x other] at on
  cases on

theorem Init.bare (start : Init cfg s) (x : M) : ¬ s.tables.HasParent x := by
  rw [Tables.HasParent, not_not]
  by_cases root : IsRoot cfg x
  · rw [start.root x root]
    rfl
  · rw [start.other x root]
    rfl

theorem Init.refs_eq (start : Init cfg s) : refs cfg s = base cfg := by
  have spent (t : Task T) : (s.task t).refs = 0 := by
    rw [start.task]
    exact Local.refs_empty rfl rfl
  rw [refs, Finset.sum_eq_zero fun t _ => spent t, add_zero]

theorem Init.forest (start : Init cfg s) : Forest cfg (base cfg) s.tables where
  count x on := by
    have root := start.root_of_alive on
    rw [if_neg (start.bare x), start.root x root, base, if_pos root]
    simp [initCount]
  dead x off := by
    have other : ¬ IsRoot cfg x := fun root => by
      rw [start.root x root] at off
      cases off
    rw [base, if_neg other]
  freed x on := by
    rw [start.root x (start.root_of_alive on)]
    rfl
  hashed x := by
    refine ⟨fun hashed => ?_, fun inside => absurd inside.2 (start.bare x)⟩
    by_cases root : IsRoot cfg x
    · rw [start.root x root] at hashed
      cases hashed
    · rw [start.other x root] at hashed
      cases hashed
  parent x on := by
    rw [not_not.mp (start.bare x)]
    exact on
  acyclic := ⟨fun _ => 0, fun x y above => by
    rw [Tables.above, if_neg fun inside => start.bare x inside.2] at above
    cases above⟩
  unique x y _ _ linked := absurd linked (start.bare x)
  inherit x _ linked := absurd linked (start.bare x)
  umount x on := by
    rw [start.root x (start.root_of_alive on)]
    exact ⟨fun off => (by cases off), fun none => (by cases none)⟩
  root x root := by
    refine ⟨?_, start.bare x, ?_⟩
    · rw [start.root x root]
    · rw [start.root x root]
      exact Option.some_ne_none _

omit [Fintype T] in
theorem start_idle (t : Task T) : ¬ (start t).Holds := by
  cases t <;> rw [start] <;> decide

variable [Fintype M] [DecidableEq E]

theorem Init.inv (start : Init cfg s) : Inv cfg s where
  forest := by
    rw [start.refs_eq]
    exact start.forest
  used d := by
    have empty : s.tables.mlist d = ∅ := Finset.eq_empty_of_forall_notMem fun x inside =>
      start.bare x (mem_mlist.mp inside).2.1
    rw [Listed, empty, start.den d]
    exact ⟨fun off => (by cases off), fun listed => absurd rfl (listed.elim (absurd rfl) id)⟩
  flagged d := by
    rw [start.den d]
    exact ⟨fun off => (by cases off), fun off => (by cases off)⟩
  holder t := by
    rw [start.task, start.nsem]
    exact ⟨fun holds => absurd holds (start_idle t), fun none => (by cases none)⟩
  roles t := by
    have out (d : E) : t ∉ (s.tables.den d).pins := by
      rw [start.den d]
      exact Finset.notMem_empty t
    rw [start.task]
    exact .idle (fun x some' => (by cases some')) rfl (.inl rfl) out (start_idle t)
  bad := start.bad

structure Config.Fixed (cfg : Config M E N T) : Prop where
  recheck : cfg.fixRecheck = true
  unlinked : cfg.fixUnlinked = true
  dontMount : cfg.fixDontMount = true
  lookupUnlinked : cfg.fixLookupUnlinked = true

variable [Fintype E] [DecidableEq N] [DecidableEq T]

omit [DecidableEq N] in
theorem invariant (formed : cfg.WellFormed) (fixed : cfg.Fixed) : (spec cfg).Invariant (Inv cfg) := by
  refine .of_step (fun s start => Init.inv start) fun s after inv step => ?_
  cases step with
  | detach step => exact inv.detach fixed.lookupUnlinked step
  | mount step => exact inv.mount formed fixed.recheck fixed.dontMount step
  | rmdir _ step => exact inv.rmdir step
  | inval _ step => exact inv.inval step
  | umount target step => exact inv.umount target step
  | settled _ => exact inv

omit [Fintype E] [DecidableEq N] [DecidableEq T] in
theorem Inv.hashUnique (inv : Inv cfg s) : HashUnique s := by
  intro x y on on' hashed hashed' other
  rw [← not_and_or]
  rintro ⟨parent, mp⟩
  exact other (inv.forest.unique x y on on' ((inv.forest.hashed x).mp hashed).2 ((inv.forest.hashed y).mp hashed').2 parent mp)

omit [Fintype E] [DecidableEq N] in
theorem Inv.noUAF (inv : Inv cfg s) : NoUAF s where
  tmp t x some' := by
    have held : 0 < refs cfg s x := by
      have own : 0 < (s.task t).refs x := by
        rw [Local.refs, some', Pi.add_apply]
        exact Nat.add_pos_left (by rw [Option.elim_some, one_self]; exact Nat.one_pos) _
      rw [refs_eq s t, Pi.add_apply]
      exact Nat.add_pos_right _ own
    refine inv.forest.freed x ?_
    by_contra dead
    rw [inv.forest.dead x (by simpa using dead)] at held
    exact lt_irrefl 0 held
  answer t p d here answer := by
    have placed : (s.task (.mounter t)).pc.Placed := by
      revert here
      cases (s.task (.mounter t)).pc <;> decide
    exact inv.forest.freed p ((inv.roles _).place placed t p d rfl answer).1.alive
  parent x on _ := inv.forest.freed _ (inv.forest.parent x on)

omit [Fintype E] [DecidableEq N] [DecidableEq T] in
theorem Inv.mountpointOK (inv : Inv cfg s) : MountpointOK s where
  mounted d := (inv.flagged d).1
  window d := (inv.flagged d).2
  used d := (inv.used d).mp
  there d := (inv.used d).mpr

omit [Fintype E] [DecidableEq N] [DecidableEq T] in
theorem Inv.pinsUnderNsem (inv : Inv cfg s) : PinsUnderNsem s := fun d t pinned =>
  (inv.holder t).mp (((inv.roles t).pins d).mp pinned).1.holds

omit [DecidableEq N] in
/-- A mount is only ever attached where it may be. -/
theorem attaches_where_it_may (formed : cfg.WellFormed) (fixed : cfg.Fixed) :
    (spec cfg).Invariant fun s => AttachOK s ∧ HashUnique s ∧ NoUAF s :=
  (invariant formed fixed).mono fun _ inv => ⟨inv.bad, inv.hashUnique, inv.noUAF⟩

/-- Two mounters stack mounts on a directory that is removed, dropped and umounted. -/
def crowded : Config (Fin 3) (Fin 3) Unit Bool where
  dparent d := if d = 1 then 0 else d
  newRoot := 2
  rootDentry := 0
  roots _ := some 0
  rootNs _ := ()
  info _ := { ns := (), pm := 0, pd := 1, budget := 1 }
  rmdirTarget := some 1
  invalTarget := some 1
  umountTarget := some 1
  localNs := ()
  fixRecheck := true
  fixUnlinked := true
  fixDontMount := true
  fixLookupUnlinked := true

def crowdedStart : State (Fin 3) (Fin 3) Unit Bool where
  tables :=
    { mnt := fun x => if x = 0 then { fresh crowded x with alive := true, ns := some (), count := 3 } else fresh crowded x
      den := fun _ => { unhashed := false, mounted := false, cant := false, mp := false, pins := ∅ } }
  ilock _ := none
  nsem := none
  nsreaders := ∅
  task := initLocal crowded
  bad := false

theorem crowdedStart_init : Init crowded crowdedStart where
  root x root := by
    obtain ⟨_, same⟩ := root
    obtain rfl : 0 = x := Option.some.inj same
    rfl
  other x other := if_neg fun same => other ⟨(), congrArg some same.symm⟩
  den _ := rfl
  ilock _ := rfl
  nsem := rfl
  nsreaders := rfl
  task := rfl
  bad := rfl

/-- The first mount is on the directory, and the second mounter is about to mount on its root, which
it holds. -/
theorem crowded_attached : ∃ s, (spec crowded).Reachable s ∧ (s.tables.mnt 1).hashed = true ∧
    (s.task (.mounter false)).pc = .lmOk ∧ (s.task (.mounter false)).wm = some (1, 2) ∧
    (s.task (.mounter false)).tmp = some 1 ∧ (s.tables.den 1).mp = true ∧ (s.tables.den 2).pins = {.mounter false} := by
  have step {s s' : State (Fin 3) (Fin 3) Unit Bool} (t : Bool) (reached : (spec crowded).Reachable s)
      (step : Mounting crowded s t s') : (spec crowded).Reachable s' := reached.next (.mount step)
  have run := step true (.init crowdedStart_init) (.start rfl)
  have run := step true run (.w1Own rfl (by decide))
  have run := step true run (.ilock rfl rfl rfl)
  have run := step true run (.nsem rfl ⟨rfl, rfl⟩)
  have run := step true run (.w2 rfl rfl (by decide) (by unfold Dead; decide))
  have run := step true run (.gmStart rfl rfl (by decide))
  have run := step true run (.gmSet rfl rfl (by decide) rfl)
  have run := step true run (.gmCreate rfl rfl)
  have run := step true run (.lmOk rfl)
  have run := step true run (.amCheck rfl rfl rfl)
  have run := step true run (.amAttach (x := 1) rfl rfl (by decide))
  have run := step true run (.umUnlock rfl rfl)
  have run := step false run (.start rfl)
  have run := step false run (.w1Top (x := 1) rfl (by decide) (by decide))
  have run := step false run (.ilock (p := 1) (d := 2) rfl (by decide) rfl)
  have run := step false run (.nsem rfl ⟨rfl, rfl⟩)
  have run := step false run (.w2 (p := 1) (d := 2) rfl (by decide) (by decide) (by unfold Dead; decide))
  have run := step false run (.gmStart (p := 1) (d := 2) rfl (by decide) (by decide))
  have run := step false run (.gmSet (p := 1) (d := 2) rfl (by decide) (by decide) (by decide))
  have run := step false run (.gmCreate (p := 1) (d := 2) rfl (by decide))
  exact ⟨_, run, by decide, by decide, by decide, by decide, by decide, by decide⟩

theorem crowded_formed : crowded.WellFormed := ⟨fun _ => ⟨(), rfl⟩⟩

theorem crowded_fixed : crowded.Fixed := ⟨rfl, rfl, rfl, rfl⟩

theorem crowded_attaches : ∃ s : State (Fin 3) (Fin 3) Unit Bool, (s.tables.mnt 1).hashed = true ∧
    (s.task (.mounter false)).tmp = some 1 ∧ AttachOK s ∧ HashUnique s ∧ NoUAF s := by
  obtain ⟨s, reached, hashed, -, -, tmp, -⟩ := crowded_attached
  exact ⟨s, hashed, tmp, attaches_where_it_may crowded_formed crowded_fixed s reached⟩

omit [DecidableEq N] in
/-- Mountpoint bookkeeping is exact. -/
theorem mountpoints_exact (formed : cfg.WellFormed) (fixed : cfg.Fixed) :
    (spec cfg).Invariant fun s => MountpointOK s ∧ PinsUnderNsem s ∧ ∀ d t, s.nsem ≠ some t → t ∉ (s.tables.den d).pins :=
  (invariant formed fixed).mono fun _ inv =>
    ⟨inv.mountpointOK, inv.pinsUnderNsem, fun d t left pinned => left (inv.pinsUnderNsem d t pinned)⟩

theorem crowded_mountpoints : ∃ s : State (Fin 3) (Fin 3) Unit Bool, (s.tables.den 1).mp = true ∧
    (s.tables.den 2).pins = {.mounter false} ∧ MountpointOK s ∧ PinsUnderNsem s ∧ ∀ d t, s.nsem ≠ some t → t ∉ (s.tables.den d).pins := by
  obtain ⟨s, reached, -, -, -, -, mp, pins⟩ := crowded_attached
  exact ⟨s, mp, pins, mountpoints_exact crowded_formed crowded_fixed s reached⟩

end LinuxTla.LockMount
