import LinuxTla.MountVacate.Inside

/-! What the sections of the mounter and the changer keep. The tree only grows, and the one
field that changes is the root of the mount that is vacated. -/

namespace LinuxTla.MountVacate

open MountWalk (MLabel Mount Pos Result Tree Walker Cross SameTree Flag Flags Walks flag_setMounted flag_target freeId_dead)

variable {M E K S W : Type} {cfg : Config M E K S W} {s after : State M E K S W} {mt : Tree M E} {x : M} {d : E} {w : W}
  {t : MountWalk.State M E K W}

/-- In its mount_lock section. -/
def CLabel.Inside (l : CLabel) : Prop := l ∈ [CLabel.cVacSb, .cVacRoot, .cVacRoot1, .cVacSb2, .cUnlock]

instance (l : CLabel) : Decidable l.Inside := inferInstanceAs (Decidable (_ ∈ _))

/-- One section at a time, and the count is odd in it. -/
structure Locked (s : State M E K S W) : Prop where
  sections : s.Writing ↔ s.mpc.Inside ∨ s.vpc.Inside
  alone : ¬ (s.mpc.Inside ∧ s.vpc.Inside)

/-- Mounts are on mounts, and what is mounted is there. -/
structure Sound (cfg : Config M E K S W) (mt : Tree M E) : Prop where
  parent : ∀ x, (mt x).alive = true → (mt (mt x).parent).alive = true
  root : ∀ x, (mt x).alive = true → cfg.negative (mt x).root = false
  first : (mt cfg.rootMnt).alive = true

structure Shared (cfg : Config M E K S W) (s : State M E K S W) : Prop where
  locked : Locked s
  sound : Sound cfg s.mnt
  flags : Flags cfg.toConfig s.mnt s.mounted
  tgt : s.mpc = .mLock ∨ s.mpc = .mAttach → ∀ pos, s.tgt = some pos →
    Flag cfg.toConfig s.mounted pos.d ∧ (s.mnt pos.mnt).alive = true
  made : ∀ x, (s.mnt x).alive = true → Tree.HasParent s.mnt x →
    (s.mnt x).root = cfg.newRoot ∨ s.victim = some x ∧ (s.mnt x).root = cfg.nullRoot
  victim : ∀ x, s.victim = some x → (s.mnt x).alive = true ∧ Tree.HasParent s.mnt x
  fresh : s.vpc = .cPick → s.victim = none
  order : cfg.weakVacate = false → s.vpc ≠ .cVacRoot1 ∧
    ∀ x, s.victim = some x → (s.mnt x).root = cfg.nullRoot → s.sb x = cfg.nullSb
  stored : s.vpc = .cVacRoot → ∀ x, s.victim = some x → s.sb x = cfg.nullSb

/-! ### The stores -/

variable [LinearOrder M]

theorem storeRoot_mnt (cfg : Config M E K S W) (s : State M E K S W) (x y : M) :
    ∃ e, storeRoot cfg s x y = { s.mnt y with root := e } ∧ (e = (s.mnt y).root ∨ y = x ∧ e = cfg.nullRoot) := by
  by_cases same : y = x
  · refine ⟨cfg.nullRoot, ?_, .inr ⟨same, rfl⟩⟩
    rw [storeRoot, same, Function.update_self]
  · refine ⟨_, ?_, .inl rfl⟩
    rw [storeRoot, Function.update_of_ne same]

/-- The new mount is on one that is there. -/
theorem Sound.attach (sound : Sound cfg mt) {m : Mount M E} (on : m.alive = true) (parent : (mt m.parent).alive = true)
    (root : cfg.negative m.root = false) : Sound cfg (Function.update mt x m) := by
  have alive {y : M} (on' : (mt y).alive = true) : (Function.update mt x m y).alive = true := by
    by_cases same : y = x
    · rw [same, Function.update_self, on]
    · rw [Function.update_of_ne same]
      exact on'
  refine ⟨fun y on' => alive ?_, fun y on' => ?_, alive sound.first⟩
  · by_cases same : y = x
    · rw [same, Function.update_self]
      exact parent
    · rw [Function.update_of_ne same] at on' ⊢
      exact sound.parent y on'
  · by_cases same : y = x
    · rw [same, Function.update_self]
      exact root
    · rw [Function.update_of_ne same] at on' ⊢
      exact sound.root y on'

theorem Shared.storesRoot (shared : Shared cfg s) (formed : cfg.WellFormed) (victim : s.victim = some x) (locked : Locked after)
    (mnt : after.mnt = storeRoot cfg s x) (mounter : after.mpc = s.mpc ∧ after.tgt = s.tgt ∧ after.mounted = s.mounted)
    (still : after.victim = s.victim ∧ after.sb = s.sb) (later : after.vpc = .cUnlock ∨ after.vpc = .cVacSb2)
    (first : cfg.weakVacate = false → s.sb x = cfg.nullSb) : Shared cfg after := by
  have same (y : M) := storeRoot_mnt cfg s x y
  have alive (y : M) : (after.mnt y).alive = (s.mnt y).alive := by
    obtain ⟨_, root, -⟩ := same y
    rw [mnt, root]
  have linked (y : M) : Tree.HasParent after.mnt y ↔ Tree.HasParent s.mnt y := by
    obtain ⟨_, root, -⟩ := same y
    rw [Tree.HasParent, Tree.HasParent, mnt, root]
  have parent (y : M) : (after.mnt y).parent = (s.mnt y).parent := by
    obtain ⟨_, root, -⟩ := same y
    rw [mnt, root]
  have root (y : M) : (after.mnt y).root = (s.mnt y).root ∨ y = x ∧ (after.mnt y).root = cfg.nullRoot := by
    obtain ⟨_, root, how⟩ := same y
    rw [mnt, root]
    exact how
  refine ⟨locked, ⟨fun y on => ?_, fun y on => ?_, ?_⟩, ?_, fun on pos target => ?_, fun y on up => ?_, fun y this => ?_,
    fun start => ?_, fun ordered => ⟨fun here => ?_, fun y this _ => ?_⟩, fun here => ?_⟩
  · rw [alive] at on
    rw [parent, alive]
    exact shared.sound.parent y on
  · rw [alive] at on
    obtain same | ⟨-, null⟩ := root y
    · rw [same]
      exact shared.sound.root y on
    · rw [null]
      exact formed.positive.2 _
  · rw [alive]
    exact shared.sound.first
  · intro y on hashed up
    rw [alive] at on
    obtain ⟨_, root, -⟩ := same y
    rw [mnt, root] at hashed ⊢
    rw [mounter.2.2]
    exact shared.flags y on hashed ((linked y).mp up)
  · rw [mounter.1] at on
    rw [mounter.2.1] at target
    rw [mounter.2.2, alive]
    exact shared.tgt on pos target
  · rw [alive] at on
    rw [still.1]
    obtain same | ⟨this, null⟩ := root y
    · rw [same]
      exact shared.made y on ((linked y).mp up)
    · exact .inr ⟨by rw [this, victim], null⟩
  · rw [still.1] at this
    rw [alive, linked]
    exact shared.victim y this
  · obtain here | here := later <;> cases start.symm.trans here
  · obtain there | there := later <;> cases here.symm.trans there
  · rw [still.1, victim] at this
    cases this
    rw [still.2]
    exact first ordered
  · obtain there | there := later <;> cases here.symm.trans there

variable [Fintype M]

theorem Shared.attach (shared : Shared cfg s) (formed : cfg.WellFormed) {p : M} (here : s.mpc = .mAttach)
    (target : s.tgt = some ⟨p, d⟩) (free : Tree.freeId s.mnt = some x) (locked : Locked after)
    (mnt : after.mnt = Function.update s.mnt x { MountWalk.fresh cfg.toConfig x with
      alive := true, parent := p, mp := d, root := cfg.newRoot, hashed := true, ns := true, count := 1 })
    (sb : after.sb = Function.update s.sb x cfg.newSb) (mpc : after.mpc = .mUnlock) (mounted : after.mounted = s.mounted)
    (victim : after.victim = s.victim) (vpc : after.vpc = s.vpc) : Shared cfg after := by
  have unused := freeId_dead free
  have other {y : M} (on : (s.mnt y).alive = true) : y ≠ x := by
    rintro rfl
    cases on.symm.trans unused
  obtain ⟨flag, on⟩ := shared.tgt (.inr here) _ target
  refine ⟨locked, ?_, ?_, fun on => ?_, fun y on' linked => ?_, fun y same => ?_, ?_, fun ordered => ?_, fun first y same => ?_⟩
  · rw [mnt]
    exact shared.sound.attach rfl on formed.positive.1
  · rw [mnt, mounted]
    exact shared.flags.update fun _ _ _ => flag
  · rw [mpc] at on
    exact absurd on (by decide)
  · rw [Tree.HasParent] at linked
    rw [mnt] at on' linked ⊢
    rw [victim]
    by_cases same : y = x
    · rw [same, Function.update_self]
      exact .inl rfl
    · rw [Function.update_of_ne same] at on' linked ⊢
      exact shared.made y on' linked
  · rw [victim] at same
    obtain ⟨there, linked⟩ := shared.victim y same
    rw [Tree.HasParent, mnt, Function.update_of_ne (other there)]
    exact ⟨there, linked⟩
  · rw [vpc, victim]
    exact shared.fresh
  · rw [vpc, victim, sb, mnt]
    refine (shared.order ordered).imp_right fun stored y same => ?_
    have there := other (shared.victim y same).1
    rw [Function.update_of_ne there, Function.update_of_ne there]
    exact stored y same
  · rw [vpc] at first
    rw [victim] at same
    rw [sb, Function.update_of_ne (other (shared.victim y same).1)]
    exact shared.stored first y same

variable [LinearOrder E]

/-! ### The walkers -/

/-- What a step does to what others rely on. -/
structure Tells (cfg : Config M E K S W) (s after : State M E K S W) : Prop where
  le : s.seqv ≤ after.seqv
  tree : after.seqv = s.seqv → SameTree s.mnt after.mnt ∨ s.Writing
  alive : ∀ x, (s.mnt x).alive = true → (after.mnt x).alive = true
  root : ∀ x, (s.mnt x).alive = true → (after.mnt x).root = (s.mnt x).root ∨
    after.victim = some x ∧ (s.mnt x).root = cfg.newRoot ∧ (after.mnt x).root = cfg.nullRoot
  victim : ∀ x, s.victim = some x → after.victim = some x
  mounted : ∀ d, s.mounted d = true → after.mounted d = true
  seen : ∀ w, Walking (s.walker w) → s.seen w ⊆ after.seen w

theorem Tells.still (mnt : after.mnt = s.mnt) (victim : ∀ x, s.victim = some x → after.victim = some x) (le : s.seqv ≤ after.seqv)
    (mounted : ∀ d, s.mounted d = true → after.mounted d = true) (seen : ∀ w, s.seen w ⊆ after.seen w) : Tells cfg s after where
  le := le
  tree _ := by
    rw [mnt]
    exact .inl (.refl _)
  alive x on := by
    rw [mnt]
    exact on
  root x _ := by
    rw [mnt]
    exact .inl rfl
  victim := victim
  mounted := mounted
  seen w _ := seen w

/-- A step of a walker, by what it leaves alone. -/
structure Acts (s after : State M E K S W) : Prop where
  walks : Walks s.toState after.toState
  sb : after.sb = s.sb
  victim : after.victim = s.victim
  vpc : after.vpc = s.vpc
  seen : ∀ w, Walking (s.walker w) → s.seen w ⊆ after.seen w

theorem Acts.tells (acts : Acts s after) : Tells cfg s after where
  le := acts.walks.seqv.ge
  tree _ := .inl acts.walks.mnt.sameTree
  alive x on := by
    obtain ⟨_, same⟩ := acts.walks.mnt x
    rw [same]
    exact on
  root x _ := .inl (acts.walks.mnt.sameTree.root x)
  victim x this := acts.victim.trans this
  mounted d flag := by
    rw [acts.walks.mounted]
    exact flag
  seen := acts.seen

theorem Acts.shared (acts : Acts s after) (shared : Shared cfg s) : Shared cfg after := by
  have same (x : M) : ∃ c, after.mnt x = { s.mnt x with count := c } := acts.walks.mnt x
  have tree := acts.walks.mnt.sameTree
  have alive (x : M) : (after.mnt x).alive = (s.mnt x).alive := by
    obtain ⟨_, same⟩ := same x
    rw [same]
  have hashed (x : M) : (after.mnt x).hashed = (s.mnt x).hashed := by
    obtain ⟨_, same⟩ := same x
    rw [same]
  constructor
  case locked =>
    obtain ⟨sections, alone⟩ := shared.locked
    refine ⟨?_, ?_⟩
    · rw [MountWalk.State.Writing, acts.walks.seqv, acts.walks.mpc, acts.vpc]
      exact sections
    · rw [acts.walks.mpc, acts.vpc]
      exact alone
  case sound =>
    refine ⟨fun x on => ?_, fun x on => ?_, ?_⟩
    · rw [alive] at on
      rw [tree.parent, alive]
      exact shared.sound.parent x on
    · rw [alive] at on
      rw [tree.root]
      exact shared.sound.root x on
    · rw [alive]
      exact shared.sound.first
  case flags =>
    intro x on on' linked
    rw [alive] at on
    rw [hashed] at on'
    rw [tree.mp, acts.walks.mounted]
    exact shared.flags x on on' (tree.linked.mp linked)
  case tgt =>
    rw [acts.walks.mpc, acts.walks.tgt, acts.walks.mounted]
    intro on pos target
    rw [alive]
    exact shared.tgt on pos target
  case made =>
    intro x on linked
    rw [alive] at on
    rw [tree.root, acts.victim]
    exact shared.made x on (tree.linked.mp linked)
  case victim =>
    intro x this
    rw [acts.victim] at this
    rw [alive, tree.linked]
    exact shared.victim x this
  case fresh =>
    rw [acts.vpc, acts.victim]
    exact shared.fresh
  case order =>
    intro ordered
    refine ⟨?_, fun x this null => ?_⟩
    · rw [acts.vpc]
      exact (shared.order ordered).1
    · rw [acts.victim] at this
      rw [tree.root] at null
      rw [acts.sb]
      exact (shared.order ordered).2 x this null
  case stored =>
    rw [acts.vpc, acts.victim, acts.sb]
    exact shared.stored

/-! ### The mounter -/

variable [Fintype E] [DecidableEq K]

theorem Locked.mounter (locked : Locked s) (step : Mounter cfg s after) : Locked after := by
  obtain ⟨sections, alone⟩ := locked
  cases step with
  | finish here =>
    rw [here] at sections
    exact ⟨sections.trans (or_congr_left (show MLabel.mPick.Inside ↔ MLabel.done.Inside by decide)),
      fun both => absurd both.1 (by dsimp only; decide)⟩
  | pick here =>
    rw [here] at sections
    exact ⟨sections.trans (or_congr_left (show MLabel.mPick.Inside ↔ MLabel.mLock.Inside by decide)),
      fun both => absurd both.1 (by dsimp only; decide)⟩
  | lock _ calm =>
    have idle : ¬ s.vpc.Inside := fun inside => calm (sections.mpr (.inr inside))
    exact ⟨⟨fun _ => .inl (by dsimp only; decide), fun _ => MountWalk.not_writing_succ calm⟩, fun both => idle both.2⟩
  | attach here =>
    have idle : ¬ s.vpc.Inside := fun inside => alone ⟨by rw [here]; decide, inside⟩
    rw [here] at sections
    exact ⟨sections.trans (or_congr_left (show MLabel.mAttach.Inside ↔ MLabel.mUnlock.Inside by decide)), fun both => idle both.2⟩
  | unlock here =>
    have inside : s.mpc.Inside := by
      rw [here]
      decide
    have idle : ¬ s.vpc.Inside := fun busy => alone ⟨inside, busy⟩
    have writing : s.Writing := sections.mpr (.inl inside)
    refine ⟨⟨fun odd => absurd odd (MountWalk.writing_succ writing), fun busy => ?_⟩, fun both => idle both.2⟩
    exact busy.elim (fun busy => absurd busy (by dsimp only; decide)) fun busy => absurd busy idle

theorem Shared.mounter (shared : Shared cfg s) (formed : cfg.WellFormed) (step : Mounter cfg s after) : Shared cfg after := by
  have locked := shared.locked.mounter step
  cases step with
  | finish | unlock =>
    exact ⟨locked, shared.sound, shared.flags, fun on => absurd on (by dsimp only; decide), shared.made, shared.victim, shared.fresh,
      shared.order, shared.stored⟩
  | pick _ _ place cross =>
    refine ⟨locked, shared.sound, fun x on hashed linked => flag_setMounted (shared.flags x on hashed linked), fun _ pos same => ?_,
      shared.made, shared.victim, shared.fresh, shared.order, shared.stored⟩
    cases same
    exact ⟨flag_target (cross.solid (fun x on => .inr (shared.sound.root x on)) (.inr place.2.2.2.2)), cross.there place.1⟩
  | lock here =>
    exact ⟨locked, shared.sound, shared.flags, fun _ => shared.tgt (.inl here), shared.made, shared.victim, shared.fresh, shared.order,
      shared.stored⟩
  | attach here target free => exact shared.attach formed here target free locked rfl rfl rfl rfl rfl rfl

/-! ### The changer -/

theorem Locked.changer (locked : Locked s) (step : Changer cfg s after) : Locked after := by
  obtain ⟨sections, alone⟩ := locked
  have stays {label : CLabel} (inside : s.vpc.Inside) (next : label.Inside) : Locked { s with vpc := label } := by
    have idle : ¬ s.mpc.Inside := fun busy => alone ⟨busy, inside⟩
    exact ⟨⟨fun _ => .inr next, fun _ => sections.mpr (.inr inside)⟩, fun both => idle both.1⟩
  cases step with
  | pick here =>
    rw [here] at sections
    exact ⟨sections.trans (or_congr_right (show CLabel.cPick.Inside ↔ CLabel.cLock.Inside by decide)),
      fun both => absurd both.2 (by dsimp only; decide)⟩
  | @lock first _ calm order =>
    have idle : ¬ s.mpc.Inside := fun inside => calm (sections.mpr (.inl inside))
    have inside : first.Inside := by
      obtain rfl | ⟨-, rfl⟩ := order <;> decide
    exact ⟨⟨fun _ => .inr inside, fun _ => MountWalk.not_writing_succ calm⟩, fun both => idle both.1⟩
  | vacSb here =>
    have next : Locked { s with vpc := .cVacRoot } := stays (by rw [here]; decide) (by decide)
    exact ⟨next.sections, next.alone⟩
  | vacRoot1 here =>
    have next : Locked { s with vpc := .cVacSb2 } := stays (by rw [here]; decide) (by decide)
    exact ⟨next.sections, next.alone⟩
  | vacRoot here | vacSb2 here =>
    have next : Locked { s with vpc := .cUnlock } := stays (by rw [here]; decide) (by decide)
    exact ⟨next.sections, next.alone⟩
  | held here => exact stays (by obtain here | here := here <;> rw [here] <;> decide) (by decide)
  | unlock here =>
    have inside : s.vpc.Inside := by
      rw [here]
      decide
    have idle : ¬ s.mpc.Inside := fun busy => alone ⟨busy, inside⟩
    have writing : s.Writing := sections.mpr (.inr inside)
    refine ⟨⟨fun odd => absurd odd (MountWalk.writing_succ writing), fun busy => ?_⟩, fun both => idle both.1⟩
    exact busy.elim (fun busy => absurd busy idle) fun busy => absurd busy (by dsimp only; decide)

theorem Shared.changer (shared : Shared cfg s) (formed : cfg.WellFormed) (step : Changer cfg s after) : Shared cfg after := by
  have locked := shared.locked.changer step
  cases step with
  | pick here take =>
    have none := shared.fresh here
    obtain ⟨⟨on, -, -⟩, linked, -⟩ := take
    refine ⟨locked, shared.sound, shared.flags, shared.tgt, fun x on linked => ?_, fun x this => ?_, fun on => (by cases on),
      fun ordered => ⟨fun on => (by cases on), fun x this null => ?_⟩, fun on => (by cases on)⟩
    · refine .inl ((shared.made x on linked).resolve_right fun vacated => ?_)
      cases none.symm.trans vacated.1
    · cases this
      exact ⟨on, linked⟩
    · cases this
      obtain root | ⟨vacated, -⟩ := shared.made _ on linked
      · exact absurd (root.symm.trans null) formed.nullRoot
      · cases none.symm.trans vacated
  | @lock first _ _ order =>
    refine ⟨locked, shared.sound, shared.flags, shared.tgt, shared.made, shared.victim, fun on => ?_, fun ordered => ⟨fun on => ?_,
      (shared.order ordered).2⟩, fun on => ?_⟩
    · obtain rfl | ⟨-, rfl⟩ := order <;> cases on
    · obtain rfl | ⟨weak, rfl⟩ := order
      · cases on
      · cases ordered.symm.trans weak
    · obtain rfl | ⟨-, rfl⟩ := order <;> cases on
  | @vacSb x _ victim =>
    have stored (y : M) (this : s.victim = some y) : storeSb cfg s x y = cfg.nullSb := by
      cases victim.symm.trans this
      exact Function.update_self ..
    exact ⟨locked, shared.sound, shared.flags, shared.tgt, shared.made, shared.victim, fun on => (by cases on), fun _ =>
      ⟨fun on => (by cases on), fun y this _ => stored y this⟩, fun _ => stored⟩
  | @vacSb2 x _ victim =>
    have stored (y : M) (this : s.victim = some y) : storeSb cfg s x y = cfg.nullSb := by
      cases victim.symm.trans this
      exact Function.update_self ..
    exact ⟨locked, shared.sound, shared.flags, shared.tgt, shared.made, shared.victim, fun on => (by cases on), fun _ =>
      ⟨fun on => (by cases on), fun y this _ => stored y this⟩, fun on => (by cases on)⟩
  | vacRoot here victim =>
    exact shared.storesRoot formed victim locked rfl ⟨rfl, rfl, rfl⟩ ⟨rfl, rfl⟩ (.inl rfl) fun _ => shared.stored here _ victim
  | vacRoot1 here victim =>
    exact shared.storesRoot formed victim locked rfl ⟨rfl, rfl, rfl⟩ ⟨rfl, rfl⟩ (.inr rfl) fun ordered =>
      absurd here (shared.order ordered).1
  | held | unlock =>
    exact ⟨locked, shared.sound, shared.flags, shared.tgt, shared.made, shared.victim, fun on => (by cases on), fun ordered =>
      ⟨fun on => (by cases on), (shared.order ordered).2⟩, fun on => (by cases on)⟩

/-! ### The tree only grows -/

theorem Shared.mounter_tells (shared : Shared cfg s) (step : Mounter cfg s after) : Tells cfg s after ∧ after.walker = s.walker := by
  cases step with
  | finish => exact ⟨.still rfl (fun _ => id) le_rfl (fun _ => id) fun _ => subset_rfl, rfl⟩
  | lock => exact ⟨.still rfl (fun _ => id) (Nat.le_succ _) (fun _ => id) fun _ => subset_rfl, rfl⟩
  | unlock => exact ⟨.still rfl (fun _ => id) (Nat.le_succ _) (fun _ => id) fun _ => Set.subset_union_left, rfl⟩
  | pick =>
    refine ⟨.still rfl (fun _ => id) le_rfl (fun d flag => ?_) fun _ => subset_rfl, rfl⟩
    dsimp only
    rw [MountWalk.setMounted, Function.update_apply, flag]
    split_ifs <;> rfl
  | @attach x p d here _ free =>
    have unused := freeId_dead free
    have other {y : M} (on : (s.mnt y).alive = true) : y ≠ x := by
      rintro rfl
      cases on.symm.trans unused
    have writing : s.Writing := shared.locked.sections.mpr (.inl (by rw [here]; decide))
    refine ⟨⟨le_rfl, fun _ => .inr writing, fun y on => ?_, fun y on => .inl ?_, fun _ => id, fun _ => id,
      fun _ _ => subset_rfl⟩, rfl⟩
    · dsimp only
      rw [Function.update_of_ne (other on)]
      exact on
    · dsimp only
      rw [Function.update_of_ne (other on)]

theorem Shared.changer_tells (shared : Shared cfg s) (step : Changer cfg s after) : Tells cfg s after ∧ after.walker = s.walker := by
  have stores {x : M} (inside : s.vpc.Inside) (victim : s.victim = some x) (label : CLabel) :
      Tells cfg s { s with mnt := storeRoot cfg s x, vpc := label } := by
    have writing : s.Writing := shared.locked.sections.mpr (.inr inside)
    refine ⟨le_rfl, fun _ => .inr writing, fun y on => ?_, fun y on => ?_, fun _ => id, fun _ => id, fun _ _ => subset_rfl⟩
    · obtain ⟨_, root, -⟩ := storeRoot_mnt cfg s x y
      dsimp only
      rw [root]
      exact on
    · obtain ⟨e, root, how⟩ := storeRoot_mnt cfg s x y
      dsimp only
      rw [root]
      obtain same | ⟨rfl, null⟩ := how
      · exact .inl same
      · obtain before | ⟨-, already⟩ := shared.made y on (shared.victim y victim).2
        · exact .inr ⟨victim, before, null⟩
        · exact .inl (null.trans already.symm)
  cases step with
  | pick here =>
    refine ⟨.still rfl (fun x this => ?_) le_rfl (fun _ => id) fun _ => subset_rfl, rfl⟩
    cases (shared.fresh here).symm.trans this
  | lock => exact ⟨.still rfl (fun _ => id) (Nat.le_succ _) (fun _ => id) fun _ => subset_rfl, rfl⟩
  | vacSb | vacSb2 | held => exact ⟨.still rfl (fun _ => id) le_rfl (fun _ => id) fun _ => subset_rfl, rfl⟩
  | vacRoot here victim | vacRoot1 here victim => exact ⟨stores (by rw [here]; decide) victim _, rfl⟩
  | unlock => exact ⟨.still rfl (fun _ => id) (Nat.le_succ _) (fun _ => id) fun _ => Set.subset_union_left, rfl⟩

end LinuxTla.MountVacate
