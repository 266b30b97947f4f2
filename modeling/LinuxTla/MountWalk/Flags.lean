import LinuxTla.MountWalk.Sequential

/-! The flags, the sections and the pointers the mounter and the changer keep. -/

namespace LinuxTla.MountWalk

variable {M E K S W : Type}
  {cfg : Config M E K S W} {s after : State M E K W} {mt : Tree M E} {x y : M} {d : E} {w : W}

/-- Walks start on the root mount, and the filesystems are trees of the forest. -/
structure Config.WellFormed (cfg : Config M E K S W) : Prop where
  rooted : ∀ w, (cfg.root w).mnt = cfg.rootMnt
  forest : ∀ sb, cfg.dparent (cfg.sbRoot sb) = cfg.sbRoot sb

/-- A dentry somebody may mount on: one that is there, or the root of what is mounted. -/
def Solid (cfg : Config M E K S W) (d : E) : Prop := (∃ sb, d = cfg.sbRoot sb) ∨ cfg.negative d = false

variable [Fintype E] [LinearOrder E] [DecidableEq K]

theorem Solid.child {n : K} {c : E} (solid : Solid cfg c) (formed : cfg.WellFormed) (found : child cfg d n = some c) :
    cfg.negative c = false := by
  obtain ⟨sb, root⟩ | there := solid
  · obtain ⟨parent, other⟩ := child_some found
    have self := formed.forest sb
    rw [← root, parent] at self
    exact absurd self.symm other
  · exact there

/-- In its mount_lock section. -/
def MLabel.Inside (l : MLabel) : Prop := l ∈ [MLabel.mAttach, .mUnlock]

def CLabel.Inside (l : CLabel) : Prop := l ∈ [CLabel.cUnhash, .cMvUnhash, .cMvSet, .cMvHash, .cUnlock]

def CLabel.Targets (l : CLabel) : Prop := l ∈ [CLabel.cLock, .cMvUnhash, .cMvSet]

/-- The namespace's references are to be put, or were. -/
def CLabel.Owes (l : CLabel) : Prop := l ∈ [CLabel.cUnlock, .cGp, .cPut, .done]

instance (l : MLabel) : Decidable l.Inside := inferInstanceAs (Decidable (_ ∈ _))
instance (l : CLabel) : Decidable l.Inside := inferInstanceAs (Decidable (_ ∈ _))
instance (l : CLabel) : Decidable l.Targets := inferInstanceAs (Decidable (_ ∈ _))
instance (l : CLabel) : Decidable l.Owes := inferInstanceAs (Decidable (_ ∈ _))

/-- A dentry flagged as a mountpoint. -/
def Flag (cfg : Config M E K S W) (mounted : E → Bool) (d : E) : Prop := mounted d = true ∧ Solid cfg d

/-- Every mount sits on a flagged dentry. -/
def Flags (cfg : Config M E K S W) (mt : Tree M E) (mounted : E → Bool) : Prop :=
  ∀ x, (mt x).alive = true → (mt x).hashed = true → Tree.HasParent mt x → Flag cfg mounted (mt x).mp

structure Shared (cfg : Config M E K S W) (s : State M E K W) : Prop where
  sections : s.Writing ↔ s.mpc.Inside ∨ s.cpc.Inside
  alone : ¬ (s.mpc.Inside ∧ s.cpc.Inside)
  flags : Flags cfg s.mnt s.mounted
  roots : ∀ x, (s.mnt x).alive = true → Solid cfg (s.mnt x).root
  tgt : s.mpc = .mLock ∨ s.mpc = .mAttach → ∀ p d, s.tgt = some ⟨p, d⟩ → Flag cfg s.mounted d
  ctgt : s.cpc.Targets → ∀ p d, s.ctgt = some ⟨p, d⟩ → p ≠ cfg.victim ∧ Flag cfg s.mounted d
  fresh : s.cpc = .cPick → s.ctgt = none
  moved : s.cpc = .cMvHash → Flag cfg s.mounted (s.mnt cfg.victim).mp
  todo : ∀ y ∈ s.todo, (s.mnt y).alive = true ∧ (s.mnt y).hashed = false ∧ y ≠ cfg.rootMnt
  owes : s.todo = ∅ ∨ s.cpc.Owes
  victim : s.cpc ≠ .cPick → s.cpc ≠ .done → cfg.victim ≠ cfg.rootMnt
  ground : Grounded s.mnt cfg.rootMnt
  root : (s.mnt cfg.rootMnt).alive = true

variable [Fintype M] [LinearOrder M]

omit [Fintype E] [DecidableEq K] in
theorem Cross.solid {pos next : Pos M E} (roots : ∀ x, (mt x).alive = true → Solid cfg (mt x).root)
    (cross : Cross mt pos next) (start : Solid cfg pos.d) : Solid cfg next.d := by
  induction cross with
  | here => exact start
  | across found _ ih => exact ih (roots _ (lookupMnt_some found).1)

omit [Fintype E] [DecidableEq K] [Fintype M] [LinearOrder M] in
theorem flag_setMounted {mounted : E → Bool} {e : E} (flag : Flag cfg mounted d) : Flag cfg (setMounted mounted e) d := by
  refine ⟨?_, flag.2⟩
  rw [setMounted, Function.update_apply]
  split_ifs
  · rfl
  · exact flag.1

omit [Fintype E] [DecidableEq K] [Fintype M] [LinearOrder M] in
theorem flag_target {mounted : E → Bool} (there : Solid cfg d) : Flag cfg (setMounted mounted d) d :=
  ⟨Function.update_self .., there⟩

omit [Fintype E] [DecidableEq K] in
theorem flag_clear (flag : Flag cfg s.mounted d) (kept : ¬ Unmounted s mt d) : Flag cfg (clear s mt) d := by
  refine ⟨?_, flag.2⟩
  rw [clear, flag.1, decide_eq_false kept]
  rfl

/-- Counts alone differ. -/
def Recount (mt mt' : Tree M E) : Prop := ∀ x, ∃ c, mt' x = { mt x with count := c }

omit [Fintype E] in
theorem Recount.sameTree {mt' : Tree M E} (recount : Recount mt mt') : SameTree mt mt' := by
  refine .of_hashed (fun x => ?_) (fun x => ?_) (fun x => ?_) fun x => ?_
  all_goals
    obtain ⟨_, same⟩ := recount x
    rw [same]

omit [Fintype E] [LinearOrder E] [Fintype M] [LinearOrder M] in
theorem Recount.refl (mt : Tree M E) : Recount mt mt := fun x => ⟨(mt x).count, rfl⟩

omit [Fintype E] [LinearOrder E] [Fintype M] [LinearOrder M] in
theorem Recount.trans {mt' last : Tree M E} (first : Recount mt mt') (second : Recount mt' last) : Recount mt last := by
  intro x
  obtain ⟨_, same⟩ := first x
  obtain ⟨c, same'⟩ := second x
  exact ⟨c, by rw [same', same]⟩

omit [Fintype E] [LinearOrder E] [DecidableEq K] [Fintype M] in
theorem recount_addCount (s : State M E K W) (x : M) (n : ℤ) : Recount s.mnt (s.addCount x n).mnt := by
  intro y
  rw [State.addCount_mnt, Function.update_apply]
  split_ifs with here
  · rw [here]
    exact ⟨_, rfl⟩
  · exact ⟨_, rfl⟩

structure Walks (s after : State M E K W) : Prop where
  mnt : Recount s.mnt after.mnt
  mounted : after.mounted = s.mounted
  seqv : after.seqv = s.seqv
  mpc : after.mpc = s.mpc
  tgt : after.tgt = s.tgt
  cpc : after.cpc = s.cpc
  ctgt : after.ctgt = s.ctgt
  todo : after.todo = s.todo

omit [DecidableEq K] [Fintype E] in
theorem Walks.shared (walks : Walks s after) (shared : Shared cfg s) : Shared cfg after := by
  have alive (x : M) : (after.mnt x).alive = (s.mnt x).alive := by
    obtain ⟨_, same⟩ := walks.mnt x
    rw [same]
  have hashed (x : M) : (after.mnt x).hashed = (s.mnt x).hashed := by
    obtain ⟨_, same⟩ := walks.mnt x
    rw [same]
  have tree := walks.mnt.sameTree
  constructor
  case sections =>
    rw [State.Writing, walks.seqv, walks.mpc, walks.cpc]
    exact shared.sections
  case alone =>
    rw [walks.mpc, walks.cpc]
    exact shared.alone
  case flags =>
    intro x on on' linked
    rw [alive] at on
    rw [hashed] at on'
    rw [tree.mp, walks.mounted]
    exact shared.flags x on on' (tree.linked.mp linked)
  case roots =>
    intro x on
    rw [alive] at on
    rw [tree.root]
    exact shared.roots x on
  case tgt =>
    rw [walks.mpc, walks.tgt, walks.mounted]
    exact shared.tgt
  case ctgt =>
    rw [walks.cpc, walks.ctgt, walks.mounted]
    exact shared.ctgt
  case fresh =>
    rw [walks.cpc, walks.ctgt]
    exact shared.fresh
  case moved =>
    rw [walks.cpc, walks.mounted, tree.mp]
    exact shared.moved
  case todo =>
    rw [walks.todo]
    intro y inside
    rw [alive, hashed]
    exact shared.todo y inside
  case owes =>
    rw [walks.todo, walks.cpc]
    exact shared.owes
  case victim =>
    rw [walks.cpc]
    exact shared.victim
  case ground => exact ⟨(hashed _).trans shared.ground.unhashed, fun linked => shared.ground.loose (tree.linked.mp linked)⟩
  case root => exact (alive _).trans shared.root

end LinuxTla.MountWalk
