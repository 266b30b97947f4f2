import LinuxTla.MountWalk.Flags

/-! The mounter and the changer keep the flags, and touch the tree in their sections only. -/

namespace LinuxTla.MountWalk

variable {M E K S W : Type} {cfg : Config M E K S W} {s after : State M E K W} {mt : Tree M E} {x y : M} {d : E} {w : W}

theorem not_writing_succ (calm : ¬ s.Writing) : (s.seqv + 1) % 2 = 1 := by
  rw [State.Writing] at calm
  omega

theorem writing_succ (writing : s.Writing) : ¬ (s.seqv + 1) % 2 = 1 := by
  rw [State.Writing] at writing
  omega

theorem Grounded.congr {mt' : Tree M E} (ground : Grounded mt x) (same : mt' x = mt x) : Grounded mt' x := by
  refine ⟨?_, ?_⟩
  · rw [same]
    exact ground.unhashed
  · rw [Tree.HasParent, same]
    exact ground.loose

/-! ### The changer waits, and enters and leaves its section -/

theorem Shared.takeable (shared : Shared cfg s) (take : Takeable cfg s) : cfg.victim ≠ cfg.rootMnt := by
  intro same
  have hashed := take.2.1
  rw [same] at hashed
  cases hashed.symm.trans shared.ground.unhashed

theorem Shared.nothing (shared : Shared cfg s) (here : s.cpc = .cPick) :
    Shared cfg { s with cpc := .done } := by
  obtain ⟨sections, alone, flags, roots, tgt, ctgt, fresh, moved, todo, owes, victim, ground, root⟩ := shared
  rw [here] at sections
  refine ⟨sections.trans (or_congr_right (show CLabel.cPick.Inside ↔ CLabel.done.Inside by decide)),
    fun both => absurd both.2 (by dsimp only; decide), flags, roots, tgt, fun on => absurd on (by dsimp only; decide),
    fun on => (by cases on), fun on => (by cases on), todo, .inr (by dsimp only; decide), fun _ on => absurd rfl on, ground, root⟩

theorem Shared.pickUmount (shared : Shared cfg s) (here : s.cpc = .cPick) (take : Takeable cfg s) :
    Shared cfg { s with cpc := .cLock } := by
  have other := shared.takeable take
  obtain ⟨sections, alone, flags, roots, tgt, ctgt, fresh, moved, todo, owes, victim, ground, root⟩ := shared
  have none := owes.resolve_right (by rw [here]; decide)
  have unset := fresh here
  rw [here] at sections
  refine ⟨sections.trans (or_congr_right (show CLabel.cPick.Inside ↔ CLabel.cLock.Inside by decide)),
    fun both => absurd both.2 (by dsimp only; decide), flags, roots, tgt, fun _ p d same => ?_,
    fun on => (by cases on), fun on => (by cases on), todo, .inl none, fun _ _ => other, ground, root⟩
  cases unset.symm.trans same

theorem Shared.lock (shared : Shared cfg s) (here : s.cpc = .cLock) (calm : ¬ s.Writing) :
    Shared cfg { s with seqv := s.seqv + 1, cpc := if cfg.change = .umount then .cUnhash else .cMvUnhash } := by
  obtain ⟨sections, alone, flags, roots, tgt, ctgt, fresh, moved, todo, owes, victim, ground, root⟩ := shared
  have none := owes.resolve_right (by rw [here]; decide)
  have idle : ¬ s.mpc.Inside := fun inside => calm (sections.mpr (.inl inside))
  have kept := ctgt (by rw [here]; decide)
  have other := victim (by rw [here]; decide) (by rw [here]; decide)
  refine ⟨⟨fun _ => .inr ?_, fun _ => not_writing_succ calm⟩, fun both => idle both.1, flags, roots, tgt, fun _ => kept,
    fun on => ?_, fun on => ?_, todo, .inl none, fun _ _ => other, ground, root⟩
  · dsimp only
    split_ifs <;> decide
  · dsimp only at on
    split_ifs at on
  · dsimp only at on
    split_ifs at on

theorem Shared.unlock (shared : Shared cfg s) (here : s.cpc = .cUnlock) :
    Shared cfg { s with seqv := s.seqv + 1, cpc := if cfg.change = .umount then .cGp else .done } := by
  obtain ⟨sections, alone, flags, roots, tgt, ctgt, fresh, moved, todo, owes, victim, ground, root⟩ := shared
  have inside : s.cpc.Inside := by
    rw [here]
    decide
  have idle : ¬ s.mpc.Inside := fun busy => alone ⟨busy, inside⟩
  have writing : s.Writing := sections.mpr (.inr inside)
  have other := victim (by rw [here]; decide) (by rw [here]; decide)
  refine ⟨⟨fun odd => absurd odd (writing_succ writing), fun busy => ?_⟩, fun both => idle both.1, flags, roots, tgt,
    fun on => ?_, fun on => ?_, fun on => ?_, todo, .inr ?_, fun _ _ => other, ground, root⟩
  · refine busy.elim (fun busy => absurd busy idle) fun busy => absurd busy ?_
    dsimp only
    split_ifs <;> decide
  · refine absurd on ?_
    dsimp only
    split_ifs <;> decide
  · dsimp only at on
    split_ifs at on
  · dsimp only at on
    split_ifs at on
  · dsimp only
    split_ifs <;> decide

theorem Shared.gp [Fintype W] (shared : Shared cfg s) (here : s.cpc = .cGp) :
    Shared cfg { s with wait := if cfg.fixRcuFree then readers s else s.wait, cpc := .cPut } := by
  obtain ⟨sections, alone, flags, roots, tgt, ctgt, fresh, moved, todo, owes, victim, ground, root⟩ := shared
  have other := victim (by rw [here]; decide) (by rw [here]; decide)
  rw [here] at sections
  exact ⟨sections.trans (or_congr_right (show CLabel.cGp.Inside ↔ CLabel.cPut.Inside by decide)),
    fun both => absurd both.2 (by dsimp only; decide), flags, roots, tgt, fun on => absurd on (by dsimp only; decide),
    fun on => (by cases on), fun on => (by cases on), todo, .inr (by dsimp only; decide), fun _ _ => other, ground, root⟩

/-! ### The victim moves, or is freed -/

variable [LinearOrder M]

theorem Flags.update {mounted : E → Bool} {m : Mount M E} (flags : Flags cfg mt mounted)
    (here : m.alive = true → m.hashed = true → m.parent ≠ x → Flag cfg mounted m.mp) :
    Flags cfg (Function.update mt x m) mounted := by
  intro y on hashed linked
  rw [Tree.HasParent] at linked
  by_cases same : y = x
  · rw [same, Function.update_self] at on hashed linked ⊢
    exact here on hashed linked
  · rw [Function.update_of_ne same] at on hashed linked ⊢
    exact flags y on hashed linked

theorem roots_update {m : Mount M E} (roots : ∀ x, (mt x).alive = true → Solid cfg (mt x).root)
    (here : m.alive = true → Solid cfg m.root) (y : M) (on : (Function.update mt x m y).alive = true) :
    Solid cfg (Function.update mt x m y).root := by
  by_cases same : y = x
  · rw [same, Function.update_self] at on ⊢
    exact here on
  · rw [Function.update_of_ne same] at on ⊢
    exact roots y on

theorem Shared.mvUnhash (shared : Shared cfg s) (here : s.cpc = .cMvUnhash) :
    Shared cfg { s with
      mnt := Function.update s.mnt cfg.victim { s.mnt cfg.victim with hashed := false }, cpc := .cMvSet } := by
  obtain ⟨sections, alone, flags, roots, tgt, ctgt, fresh, moved, todo, owes, victim, ground, root⟩ := shared
  have none := owes.resolve_right (by rw [here]; decide)
  have other := victim (by rw [here]; decide) (by rw [here]; decide)
  have target := ctgt (by rw [here]; decide)
  have inside : s.cpc.Inside := by
    rw [here]
    decide
  rw [here] at sections
  have kept (m : Mount M E) : Function.update s.mnt cfg.victim m cfg.rootMnt = s.mnt cfg.rootMnt := Function.update_of_ne other.symm _ _
  refine ⟨sections.trans (or_congr_right (show CLabel.cMvUnhash.Inside ↔ CLabel.cMvSet.Inside by decide)),
    fun both => alone ⟨both.1, inside⟩, flags.update fun _ off => (by cases off), roots_update roots (roots _), tgt,
    fun _ => target, fun on => (by cases on), fun on => (by cases on), fun y within => ?_, .inl none, fun _ _ => other,
    ground.congr (kept _), (congrArg Mount.alive (kept _)).trans root⟩
  dsimp only at within
  rw [none] at within
  exact absurd within (Finset.notMem_empty y)

theorem Shared.mvSet (shared : Shared cfg s) {p : M} {d : E} (here : s.cpc = .cMvSet) (target : s.ctgt = some ⟨p, d⟩) :
    Shared cfg { s with
      mnt := Function.update s.mnt cfg.victim { s.mnt cfg.victim with parent := p, mp := d }, cpc := .cMvHash } := by
  obtain ⟨sections, alone, flags, roots, tgt, ctgt, fresh, moved, todo, owes, victim, ground, root⟩ := shared
  have none := owes.resolve_right (by rw [here]; decide)
  have other := victim (by rw [here]; decide) (by rw [here]; decide)
  obtain ⟨_, flag⟩ := ctgt (by rw [here]; decide) p d target
  have inside : s.cpc.Inside := by
    rw [here]
    decide
  rw [here] at sections
  have kept (m : Mount M E) : Function.update s.mnt cfg.victim m cfg.rootMnt = s.mnt cfg.rootMnt := Function.update_of_ne other.symm _ _
  refine ⟨sections.trans (or_congr_right (show CLabel.cMvSet.Inside ↔ CLabel.cMvHash.Inside by decide)),
    fun both => alone ⟨both.1, inside⟩, flags.update fun _ _ _ => flag, roots_update roots (roots _), tgt,
    fun on => absurd on (by dsimp only; decide), fun on => (by cases on), fun _ => ?_, fun y within => ?_, .inl none,
    fun _ _ => other, ground.congr (kept _), (congrArg Mount.alive (kept _)).trans root⟩
  · dsimp only
    rw [Function.update_self]
    exact flag
  · dsimp only at within
    rw [none] at within
    exact absurd within (Finset.notMem_empty y)

theorem puts_mnt (s : State M E K W) (y : M) : (puts s y).root = (s.mnt y).root ∧ (puts s y).hashed = (s.mnt y).hashed ∧
    (puts s y).parent = (s.mnt y).parent ∧ (puts s y).mp = (s.mnt y).mp ∧ (y ∉ s.todo → puts s y = s.mnt y) := by
  rw [puts]
  split_ifs with inside
  · exact ⟨rfl, rfl, rfl, rfl, fun outside => absurd inside outside⟩
  · exact ⟨rfl, rfl, rfl, rfl, fun _ => rfl⟩

/-- The mounts of the subtree are freed, and none of them is hashed. -/
theorem Shared.put (shared : Shared cfg s) (here : s.cpc = .cPut) :
    Shared cfg { s with mnt := puts s, wait := ∅, todo := ∅, cpc := .done } := by
  obtain ⟨sections, alone, flags, roots, tgt, ctgt, fresh, moved, todo, owes, victim, ground, root⟩ := shared
  have other := victim (by rw [here]; decide) (by rw [here]; decide)
  have kept : puts s cfg.rootMnt = s.mnt cfg.rootMnt := (puts_mnt s cfg.rootMnt).2.2.2.2 fun inside => (todo _ inside).2.2 rfl
  have before (x : M) (on : (puts s x).alive = true) : (s.mnt x).alive = true := by
    by_cases inside : x ∈ s.todo
    · exact (todo x inside).1
    · rwa [(puts_mnt s x).2.2.2.2 inside] at on
  rw [here] at sections
  refine ⟨sections.trans (or_congr_right (show CLabel.cPut.Inside ↔ CLabel.done.Inside by decide)),
    fun both => absurd both.2 (by dsimp only; decide), fun x on on' linked => ?_, fun x on => ?_, tgt,
    fun on => absurd on (by dsimp only; decide), fun on => (by cases on), fun on => (by cases on),
    fun y inside => absurd inside (Finset.notMem_empty y), .inl rfl, fun _ on => absurd rfl on,
    ground.congr kept, (congrArg Mount.alive kept).trans root⟩
  · dsimp only [Tree.HasParent] at on on' linked ⊢
    obtain ⟨_, hashed, parent, mp, _⟩ := puts_mnt s x
    rw [mp]
    exact flags x (before x on) (hashed ▸ on') (by rw [Tree.HasParent, ← parent]; exact linked)
  · dsimp only at on ⊢
    rw [(puts_mnt s x).1]
    exact roots x (before x on)

/-! ### What the mountpoints are flagged for -/

variable [Fintype M]

theorem freeId_dead (free : Tree.freeId mt = some x) : (mt x).alive = false := by
  rw [Tree.freeId] at free
  split_ifs at free with some'
  rw [← Option.some.inj free]
  exact (Finset.mem_filter.mp (Finset.min'_mem _ some')).2

theorem mem_subtree : y ∈ Tree.subtree mt x ↔ (mt y).alive = true ∧ (y = x ∨ Tree.HasParent mt y ∧ (mt y).parent = x) := by
  simp [Tree.subtree]

/-- umount_tree() unhashes, and moves nothing that stays hashed. -/
theorem unhash_mnt (cfg : Config M E K S W) (s : State M E K W) (y : M) :
    (unhash cfg s y).alive = (s.mnt y).alive ∧ (unhash cfg s y).root = (s.mnt y).root ∧
      (y ∈ Tree.subtree s.mnt cfg.victim ∧ (unhash cfg s y).hashed = false ∨
        y ∉ Tree.subtree s.mnt cfg.victim ∧ unhash cfg s y = s.mnt y) := by
  rw [unhash]
  split_ifs with inside
  · exact ⟨rfl, rfl, .inl ⟨inside, rfl⟩⟩
  · exact ⟨rfl, rfl, .inr ⟨inside, rfl⟩⟩

variable [LinearOrder E]

theorem flag_hashed (flag : Flag cfg s.mounted (mt x).mp) (on : (mt x).alive = true) (linked : Tree.HasParent mt x) :
    Flag cfg (clear s mt) (mt x).mp :=
  flag_clear flag fun gone => gone.1 x ⟨on, linked, rfl⟩

/-- The mounter's pin keeps the flag of its target. -/
theorem flag_pinned (flag : Flag cfg s.mounted d) (pinned : s.mpc = .mLock ∨ s.mpc = .mAttach) {p : M}
    (target : s.tgt = some ⟨p, d⟩) : Flag cfg (clear s mt) d :=
  flag_clear flag fun gone => gone.2 ⟨pinned, p, target⟩

/-- The place to move to is marked before the lock is taken. -/
theorem Shared.pickMove (shared : Shared cfg s) {p : M} {d : E} {next : Pos M E} (here : s.cpc = .cPick) (take : Takeable cfg s)
    (place : Mountable cfg s p d) (cross : Cross s.mnt ⟨p, d⟩ next) (above : next.mnt ∉ Tree.subtree s.mnt cfg.victim) :
    Shared cfg { s with ctgt := some next, mounted := setMounted s.mounted next.d, cpc := .cLock } := by
  have other := shared.takeable take
  obtain ⟨sections, alone, flags, roots, tgt, ctgt, fresh, moved, todo, owes, victim, ground, root⟩ := shared
  have none := owes.resolve_right (by rw [here]; decide)
  have there : Solid cfg next.d := cross.solid roots (.inr place.2.2.2)
  rw [here] at sections
  refine ⟨sections.trans (or_congr_right (show CLabel.cPick.Inside ↔ CLabel.cLock.Inside by decide)),
    fun both => absurd both.2 (by dsimp only; decide), fun x on on' linked => flag_setMounted (flags x on on' linked), roots,
    fun on p d same => flag_setMounted (tgt on p d same), fun _ p d same => ⟨?_, ?_⟩,
    fun on => (by cases on), fun on => (by cases on), todo, .inl none, fun _ _ => other, ground, root⟩
  · cases same
    rintro rfl
    exact above (mem_subtree.mpr ⟨take.1, .inl rfl⟩)
  · cases same
    exact flag_target there

theorem Shared.mvHash (shared : Shared cfg s) {mt : Tree M E} (here : s.cpc = .cMvHash)
    (hash : mt = Function.update s.mnt cfg.victim { s.mnt cfg.victim with hashed := true }) :
    Shared cfg { s with mnt := mt, mounted := clear s mt, cpc := .cUnlock } := by
  obtain ⟨sections, alone, flags, roots, tgt, ctgt, fresh, moved, todo, owes, victim, ground, root⟩ := shared
  have none := owes.resolve_right (by rw [here]; decide)
  have other := victim (by rw [here]; decide) (by rw [here]; decide)
  have flag := moved here
  have inside : s.cpc.Inside := by
    rw [here]
    decide
  have kept : mt cfg.rootMnt = s.mnt cfg.rootMnt := by rw [hash, Function.update_of_ne other.symm]
  have before : Flags cfg mt s.mounted := by
    rw [hash]
    exact flags.update fun _ _ _ => flag
  rw [here] at sections
  refine ⟨sections.trans (or_congr_right (show CLabel.cMvHash.Inside ↔ CLabel.cUnlock.Inside by decide)),
    fun both => alone ⟨both.1, inside⟩, fun x on on' linked => flag_hashed (before x on on' linked) on linked, ?_,
    fun on p d same => flag_pinned (tgt on p d same) on same, fun on => absurd on (by dsimp only; decide),
    fun on => (by cases on), fun on => (by cases on), fun y within => ?_, .inl none, fun _ _ => other,
    ground.congr kept, (congrArg Mount.alive kept).trans root⟩
  · dsimp only
    rw [hash]
    exact roots_update roots (roots _)
  · dsimp only at within
    rw [none] at within
    exact absurd within (Finset.notMem_empty y)

/-- The whole subtree leaves the hash; the root mount is not in it. -/
theorem Shared.unhashes (shared : Shared cfg s) (here : s.cpc = .cUnhash) :
    Shared cfg { s with
      mnt := unhash cfg s, mounted := clear s (unhash cfg s), todo := Tree.subtree s.mnt cfg.victim, cpc := .cUnlock } := by
  obtain ⟨sections, alone, flags, roots, tgt, ctgt, fresh, moved, todo, owes, victim, ground, root⟩ := shared
  have other := victim (by rw [here]; decide) (by rw [here]; decide)
  have inside : s.cpc.Inside := by
    rw [here]
    decide
  have rootless : cfg.rootMnt ∉ Tree.subtree s.mnt cfg.victim := fun inside =>
    (mem_subtree.mp inside).2.elim (fun same => other same.symm) fun linked => ground.loose linked.1
  have kept : unhash cfg s cfg.rootMnt = s.mnt cfg.rootMnt :=
    (unhash_mnt cfg s cfg.rootMnt).2.2.elim (fun inside => absurd inside.1 rootless) And.right
  rw [here] at sections
  refine ⟨sections.trans (or_congr_right (show CLabel.cUnhash.Inside ↔ CLabel.cUnlock.Inside by decide)),
    fun both => alone ⟨both.1, inside⟩, fun x on on' linked => ?_, fun x on => ?_, fun on p d same =>
    flag_pinned (tgt on p d same) on same, fun on => absurd on (by dsimp only; decide), fun on => (by cases on),
    fun on => (by cases on), fun y within => ?_, .inr (by dsimp only; decide), fun _ _ => other,
    ground.congr kept, (congrArg Mount.alive kept).trans root⟩
  · dsimp only at on on' linked ⊢
    obtain ⟨_, _, ⟨_, off⟩ | ⟨_, same⟩⟩ := unhash_mnt cfg s x
    · cases on'.symm.trans off
    · refine flag_hashed ?_ on linked
      rw [Tree.HasParent, same] at linked
      rw [same] at on on' ⊢
      exact flags x on on' linked
  · dsimp only at on ⊢
    obtain ⟨alive, same, _⟩ := unhash_mnt cfg s x
    rw [same]
    exact roots x (alive ▸ on)
  · dsimp only at within ⊢
    obtain ⟨alive, _, ⟨_, off⟩ | ⟨outside, _⟩⟩ := unhash_mnt cfg s y
    · refine ⟨alive.trans (mem_subtree.mp within).1, off, ?_⟩
      rintro rfl
      exact rootless within
    · exact absurd within outside

theorem Shared.mounter (shared : Shared cfg s) (step : Mounter cfg s after) : Shared cfg after := by
  obtain ⟨sections, alone, flags, roots, tgt, ctgt, fresh, moved, todo, owes, victim, ground, root⟩ := shared
  cases step with
  | finish here =>
    rw [here] at sections
    refine ⟨sections.trans (or_congr_left (show MLabel.mPick.Inside ↔ MLabel.done.Inside by decide)), fun both => absurd both.1 (by dsimp only; decide), flags, roots, fun on => ?_, ctgt,
      fresh, moved, todo, owes, victim, ground, root⟩
    exact absurd on (by dsimp only; decide)
  | @pick p d next here more place cross =>
    have there : Solid cfg next.d := cross.solid roots (.inr place.2.2.2)
    rw [here] at sections alone
    refine ⟨sections.trans (or_congr_left (show MLabel.mPick.Inside ↔ MLabel.mLock.Inside by decide)), fun both => absurd both.1 (by dsimp only; decide), fun x on on' linked =>
      flag_setMounted (flags x on on' linked), roots, fun _ p d same => ?_, fun on p d same => ?_, fresh, fun on =>
      flag_setMounted (moved on), todo, owes, victim, ground, root⟩
    · cases same
      exact flag_target there
    · exact (ctgt on p d same).imp_right flag_setMounted
  | lock here calm =>
    have idle : ¬ s.cpc.Inside := fun inside => calm (sections.mpr (.inr inside))
    refine ⟨⟨fun _ => .inl (by dsimp only; decide), fun _ => not_writing_succ calm⟩, fun both => idle both.2, flags, roots,
      fun _ => tgt (.inl here), ctgt, fresh, moved, todo, owes, victim, ground, root⟩
  | @attach x p d here target free =>
    have unused := freeId_dead free
    have idle : ¬ s.cpc.Inside := fun inside => alone ⟨by rw [here]; decide, inside⟩
    have other (y : M) (on : (s.mnt y).alive = true) : y ≠ x := by
      rintro rfl
      cases on.symm.trans unused
    rw [here] at sections
    have kept (m : Mount M E) : Function.update s.mnt x m cfg.rootMnt = s.mnt cfg.rootMnt := Function.update_of_ne (other _ root) _ _
    refine ⟨sections.trans (or_congr_left (show MLabel.mAttach.Inside ↔ MLabel.mUnlock.Inside by decide)), fun both => idle both.2,
      flags.update fun _ _ _ => tgt (.inr here) p d target, roots_update roots fun _ => .inl ⟨_, rfl⟩,
      fun on => absurd on (by dsimp only; decide), ctgt, fresh, fun on => ?_, fun y inside => ?_, owes, victim,
      ground.congr (kept _), (congrArg Mount.alive (kept _)).trans root⟩
    · dsimp only at on
      rw [on] at idle
      exact absurd (by decide) idle
    · obtain ⟨on, off, apart⟩ := todo y inside
      dsimp only
      rw [Function.update_of_ne (other y on)]
      exact ⟨on, off, apart⟩
  | unlock here =>
    have inside : s.mpc.Inside := by
      rw [here]
      decide
    have idle : ¬ s.cpc.Inside := fun busy => alone ⟨inside, busy⟩
    have writing : s.Writing := sections.mpr (.inl inside)
    refine ⟨⟨fun odd => absurd odd (writing_succ writing), fun busy => ?_⟩, fun both => idle both.2, flags, roots, fun on => ?_, ctgt,
      fresh, moved, todo, owes, victim, ground, root⟩
    · exact busy.elim (fun busy => absurd busy (by dsimp only; decide)) fun busy => absurd busy idle
    · exact absurd on (by dsimp only; decide)

variable [Fintype W]

theorem Shared.changer (shared : Shared cfg s) (step : Changer cfg s after) : Shared cfg after := by
  cases step with
  | nothing here => exact shared.nothing here
  | pickUmount here _ take => exact shared.pickUmount here take
  | pickMove here _ take place _ cross above _ => exact shared.pickMove here take place cross above
  | lock here calm => exact shared.lock here calm
  | unhash here => exact shared.unhashes here
  | mvUnhash here => exact shared.mvUnhash here
  | mvSet here target => exact shared.mvSet here target
  | mvHash here hash => exact shared.mvHash here hash
  | unlock here => exact shared.unlock here
  | gp here => exact shared.gp here
  | put here => exact shared.put here

end LinuxTla.MountWalk
