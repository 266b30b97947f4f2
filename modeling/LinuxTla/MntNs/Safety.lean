import LinuxTla.MntNs.Books

/-! Every action keeps the books, so nothing is used after its end, nothing is listed that
nobody uses, and the last reference finds no active count. -/

namespace LinuxTla.MntNs

open Lib

variable {cfg : Config} {s after : State} {t : Task} {l next : Label}

/-! ### Opening, finding and referencing -/

/-- The last active reference drops the owner's. -/
theorem OwnerOK.put (owner : OwnerOK s) (cascade : cfg.fixCascade = true) (used : 0 < s.active) : OwnerOK (s.activePut cfg) := by
  rw [OwnerOK] at owner ⊢
  rw [if_pos used] at owner
  change (if s.active = 1 ∧ cfg.fixCascade = true then s.uactive - 1 else s.uactive) = 1 + if 0 < s.active - 1 then 1 else 0
  simp only [cascade, and_true]
  split <;> split <;> omega

theorem OwnerOK.get (owner : OwnerOK s) (cascade : cfg.fixCascade = true) (nonneg : 0 ≤ s.active) :
    OwnerOK (s.activeGet cfg) := by
  rw [OwnerOK] at owner ⊢
  change (if s.active = 0 ∧ cfg.fixCascade = true then s.uactive + 1 else s.uactive) = 1 + if 0 < s.active + 1 then 1 else 0
  rw [if_pos (by omega : 0 < s.active + 1)]
  simp only [cascade, and_true]
  split at owner <;> split <;> omega

/-- The other tasks do not evict. -/
theorem go_apart (s : State) (l : Label) (other : t ≠ .S) : (s.go t l).pc .S = s.pc .S ∧ (s.go t l).stash = s.stash := by
  have same : (s.go t l).pc .S = s.pc .S := Function.update_of_ne other.symm ..
  rw [State.stash, State.stash, same]
  exact ⟨rfl, rfl⟩

/-- A turn that touches nothing but `bad`. -/
theorem Books.plain (books : Books s) (differs : Label.Differs (s.pc t) l 0 0 0 0) (other : t ≠ .S) {b : Option Violation}
    (bad : b = none) : Turn s { s with bad := b } t l 0 := by
  obtain ⟨pc, stash⟩ := go_apart { s with bad := b } l other
  refine .of differs ⟨rfl, rfl, rfl, rfl, rfl, rfl, rfl, rfl, rfl, rfl, id⟩ id (stash.trans (add_zero _).symm) ?_ ?_ books.owner ?_
    ?_ books.freed (pc ▸ books.evicts) bad <;> dsimp only <;> omega

theorem Books.gets (books : Books s) (held : 0 < s.ref) (differs : Label.Differs (s.pc t) l 1 0 0 0) (other : t ≠ .S)
    {b : Option Violation} (bad : b = none) : Turn s { s with ref := s.ref + 1, bad := b } t l 0 := by
  obtain ⟨pc, stash⟩ := go_apart { s with ref := s.ref + 1, bad := b } l other
  refine .of differs ⟨rfl, rfl, rfl, rfl, rfl, rfl, rfl, rfl, rfl, rfl, fun _ => held⟩ (fun _ => ?_)
    (stash.trans (add_zero _).symm) ?_ ?_ books.owner ?_ ?_ books.freed (pc ▸ books.evicts) bad <;> dsimp only <;> omega

/-- path_from_stashed() keeps the books, whether it finds an inode or makes one. -/
theorem Inv.opens (fixed : cfg.Fixed) (inv : Inv s) (puts : (s.pc t).puts = true) (other : t ≠ .S) (back : next.returns = true)
    (own : next.of t = true) (opens : next.opens = 1) (rank : next.rank + 4 < (s.pc t).rank) :
    Forward s (s.openFile cfg t next) := by
  obtain ⟨holds, uses, pins, closed, tears, reading, outside⟩ := Label.puts_spec puts
  obtain ⟨refs', uses', pins', tears', reading', calm', -⟩ := Label.returns_spec back
  rw [State.openFile]
  split
  · refine inv.put ⟨rfl, rfl, rfl, rfl, rfl, rfl, rfl, rfl, rfl, rfl, id⟩ puts back own rfl rfl inv.books.owner ?_ rfl
      inv.books.freed inv.books.bad (fun l _ => ?_) (by omega)
    · rw [opens]
    · obtain ⟨pc, stash⟩ := go_apart { s with files := s.files + 1 } l other
      exact ⟨stash, pc ▸ inv.books.evicts⟩
  · case isFalse bare =>
    have none : s.inode = false := Bool.eq_false_of_not_eq_true bare
    obtain ⟨-, stash⟩ := go_apart ({ s with files := s.files + 1, inode := true }.activeGet cfg) next other
    have turn : Turn s ({ s with files := s.files + 1, inode := true }.activeGet cfg) t next 1 := by
      have differs : Label.Differs (s.pc t) next (-1) 0 1 0 := by
        refine ⟨?_, ?_, ?_, ?_, tears, tears'⟩ <;> omega
      refine .of differs ⟨rfl, rfl, rfl, rfl, rfl, rfl, rfl, rfl, rfl, rfl, id⟩ id (stash.trans ?_) ?_ ?_ ?_ rfl
        (add_zero _).symm inv.books.freed (fun _ => rfl) inv.books.bad
      · rw [State.stash, State.stash, none]
        change 1 - (s.pc .S).evicts = 0 - (s.pc .S).evicts + 1
        omega
      · change s.ref = s.ref + -1 + 1
        omega
      · change s.active + 1 = s.active + 0 + 1
        omega
      · exact OwnerOK.get (s := { s with files := s.files + 1, inode := true }) inv.books.owner fixed.cascade
          inv.books.active_nonneg
    exact inv.turn turn ⟨outside, calm', own⟩ (reading.trans reading'.symm) rank

theorem Label.reading_spec (reading : l.reading = true) :
    l.tears = 0 ∧ l ≠ .tdTree ∧ l ≠ .sWork ∧ l ≠ .tdRcu := by
  cases l <;> first | decide | cases reading

/-- A reader that finds the namespace in the tree finds the initial passive reference, with no
grace period under way. -/
theorem Inv.finds (inv : Inv s) (turn : Turn s s t l 0) (before : s.pc t ≠ .tdTree ∧ s.pc t ≠ .sWork)
    (reading : l.reading = true) (own : l.of t = true) (found : l.found = true → s.intree = true)
    (rank : l.rank < (s.pc t).rank) : Forward s ((s.rcuIn t).go t l) := by
  obtain ⟨tears, tree, work, late⟩ := Label.reading_spec reading
  obtain ⟨sem, reader⟩ := (inv.tasks t).outside before
  have does : Does s ((s.rcuIn t).go t l) t l := turn.same.rcuIn
  have balanced : Balanced s ((s.rcuIn t).go t l) t l := turn.balanced.rcuIn
  refine ⟨inv.does does balanced ?_, turn.less (by omega)⟩
  have pc : ((s.rcuIn t).go t l).pc t = l := go_pc ..
  constructor <;> rw [pc]
  case rcu => exact (Function.update_self ..).trans reading.symm
  case found =>
    intro at_found
    obtain ⟨initial, calm⟩ := inv.books.tree (found at_found)
    exact ⟨(does.initial balanced).trans initial, fun on => Bool.noConfusion (calm.symm.trans on)⟩
  case waits => exact fun _ => reading
  case back => exact fun torn => absurd (tears.symm.trans torn) (by decide)
  case sem => exact ⟨fun inside => absurd inside sem, fun here => absurd here tree⟩
  case reader => exact ⟨fun inside => absurd inside reader, fun here => absurd here work⟩
  case tree => exact fun here => absurd here late
  case own => exact own

/-- What a reader has found is not freed. -/
theorem Inv.unfreed (inv : Inv s) (found : (s.pc t).found = true) : s.freed = false := by
  have initial := ((inv.tasks t).found found).1
  have pins := Label.pins_nonneg (s.pc t)
  exact inv.books.not_freed (t := t) (by omega)

theorem flag_unfreed (bad : s.bad = none) (freed : s.freed = false) : flag s.bad (s.freed = true) .useAfterFree = none := by
  rw [flag_false _ _ (by rw [freed]; decide), bad]

theorem Inv.not_mutated (inv : Inv s) (here : s.pc t = l) (none : ∀ t, l.of t = false) : False := by
  have own := (inv.tasks t).own
  rw [here, none] at own
  cases own

/-! ### T, F, L and Q -/

theorem TaskT.forward (fixed : cfg.Fixed) (inv : Inv s) (step : TaskT cfg s after) : Forward s after := by
  cases step with
  | exit here =>
    have used : 0 < s.active := by
      have at_least := le_count (s := s) Label.uses_nonneg .T
      have := inv.books.stash_nonneg
      have := inv.books.active
      rw [here] at at_least
      change 1 ≤ _ at at_least
      omega
    obtain ⟨pc, stash⟩ := go_apart (s.activePut cfg) .tRef (t := .T) (by decide)
    have differs : Label.Differs (s.pc .T) .tRef 0 (-1) 0 0 := by
      rw [here]
      decide
    have turn : Turn s (s.activePut cfg) .T .tRef 0 := by
      refine .of differs ⟨rfl, rfl, rfl, rfl, rfl, rfl, rfl, rfl, rfl, rfl, id⟩ id
        (stash.trans (add_zero _).symm) ?_ ?_ (inv.books.owner.put fixed.cascade used) ?_ ?_ inv.books.freed
        (pc ▸ inv.books.evicts) inv.books.bad
      · exact (add_zero _).symm.trans (add_zero _).symm
      · exact (add_zero _).symm
      · exact (add_zero _).symm
      · exact (add_zero _).symm
    exact inv.turn turn (by rw [here]; decide) (by rw [here]; rfl) (by rw [here]; decide)
  | exitRefFirst _ later => exact Bool.noConfusion (fixed.activeFirst.symm.trans later)
  | ref here =>
    refine inv.put ⟨rfl, rfl, rfl, rfl, rfl, rfl, rfl, rfl, rfl, rfl, id⟩ (by rw [here]; rfl) rfl rfl rfl rfl inv.books.owner
      (add_zero _).symm rfl inv.books.freed inv.books.bad (fun l _ => ?_) (by rw [here]; decide)
    obtain ⟨pc, stash⟩ := go_apart s l (t := .T) (by decide)
    exact ⟨stash, pc ▸ inv.books.evicts⟩
  | activeLate here => exact (inv.not_mutated here fun _ => rfl).elim

theorem Inv.closes (inv : Inv s) (here : s.pc t = .fClose ∧ t = .F ∨ s.pc t = .qClose ∧ t = .Q) :
    Forward s (s.closeFile t) := by
  have other : t ≠ .S := by
    rintro rfl
    obtain ⟨-, no⟩ | ⟨-, no⟩ := here <;> cases no
  obtain ⟨pc, stash⟩ := go_apart { s with files := s.files - 1 } .done other
  have differs : Label.Differs (s.pc t) .done 0 0 (-1) 0 := by
    obtain ⟨here, -⟩ | ⟨here, -⟩ := here <;> rw [here] <;> decide
  have turn : Turn s { s with files := s.files - 1 } t .done 0 := by
    refine .of differs ⟨rfl, rfl, rfl, rfl, rfl, rfl, rfl, rfl, rfl, rfl, id⟩ id
      (stash.trans (add_zero _).symm) ?_ ?_ inv.books.owner rfl (add_zero _).symm inv.books.freed
      (pc ▸ inv.books.evicts) inv.books.bad
    · exact (add_zero _).symm.trans (add_zero _).symm
    · exact (add_zero _).symm.trans (add_zero _).symm
  refine inv.turn turn ?_ ?_ ?_
  · obtain ⟨here, -⟩ | ⟨here, -⟩ := here <;> rw [here] <;> exact ⟨by decide, rfl, rfl⟩
  · obtain ⟨here, -⟩ | ⟨here, -⟩ := here <;> rw [here] <;> rfl
  · obtain ⟨here, -⟩ | ⟨here, -⟩ := here <;> rw [here] <;> decide

theorem TaskF.forward (fixed : cfg.Fixed) (inv : Inv s) (step : TaskF cfg s after) : Forward s after := by
  cases step with
  | opens here lives =>
    have held : 0 < s.ref := inv.books.held (by rw [lives]; rfl)
    have turn : Turn s { s with ref := s.ref + 1 } .F .fStash 0 :=
      inv.books.gets held (by rw [here]; decide) (by decide) inv.books.bad
    exact inv.turn turn (by rw [here]; decide) (by rw [here]; rfl) (by rw [here]; decide)
  | gone here =>
    have turn : Turn s s .F .done 0 := inv.books.plain (by rw [here]; decide) (by decide) inv.books.bad
    exact inv.turn turn (by rw [here]; decide) (by rw [here]; rfl) (by rw [here]; decide)
  | stash here => exact inv.opens fixed (by rw [here]; rfl) (by decide) rfl rfl rfl (by rw [here]; decide)
  | close here => exact inv.closes (.inl ⟨here, rfl⟩)

theorem TaskL.forward (fixed : cfg.Fixed) (inv : Inv s) (step : TaskL cfg s after) : Forward s after := by
  cases step with
  | find here =>
    have turn : Turn s s .L (if s.intree then .lGet else .lMiss) 0 :=
      inv.books.plain (by rw [here]; split <;> decide) (by decide) inv.books.bad
    refine inv.finds turn (by rw [here]; decide) (by split <;> rfl) (by split <;> rfl) (fun found => ?_)
      (by rw [here]; split <;> decide)
    by_contra absent
    rw [if_neg absent] at found
    cases found
  | get here gets =>
    have used : 0 < s.active := gets.2.resolve_right (by rw [fixed.activeCheck]; decide)
    have bad : flag (flag s.bad (s.freed = true) .useAfterFree) (s.active = 0) .listedInactive = none := by
      rw [flag_false _ _ (by omega)]
      exact flag_unfreed inv.books.bad (inv.unfreed (t := .L) (by rw [here]; rfl))
    rw [fixed.putOutsideRcu, if_pos rfl]
    exact inv.turn (inv.books.gets gets.1 (by rw [here]; decide) (by decide) bad) (by rw [here]; decide) (by rw [here]; rfl) (by rw [here]; decide)
  | getNot here =>
    have bad := flag_unfreed inv.books.bad (inv.unfreed (t := .L) (by rw [here]; rfl))
    exact inv.turn (inv.books.plain (by rw [here]; decide) (by decide) bad) (by rw [here]; decide) (by rw [here]; rfl) (by rw [here]; decide)
  | miss here | unlock here =>
    exact inv.turnOut (inv.books.plain (by rw [here]; decide) (by decide) inv.books.bad) (by rw [here]; decide) rfl (by rw [here]; decide)
  | put here =>
    have quiet : s.rcu .L = false := by
      rw [(inv.tasks .L).rcu, here]
      rfl
    rw [quiet, if_neg (by decide)]
    refine inv.put ⟨rfl, rfl, rfl, rfl, rfl, rfl, rfl, rfl, rfl, rfl, id⟩ (by rw [here]; rfl) rfl rfl rfl rfl inv.books.owner
      (add_zero _).symm rfl inv.books.freed inv.books.bad (fun l _ => ?_) (by rw [here]; decide)
    obtain ⟨pc, stash⟩ := go_apart s l (t := .L) (by decide)
    exact ⟨stash, pc ▸ inv.books.evicts⟩
  | unlockLate here => exact (inv.not_mutated here fun _ => rfl).elim

theorem TaskQ.forward (fixed : cfg.Fixed) (inv : Inv s) (step : TaskQ cfg s after) : Forward s after := by
  cases step with
  | find here =>
    have turn : Turn s s .Q (if s.intree then .qGet else .qMiss) 0 :=
      inv.books.plain (by rw [here]; split <;> decide) (by decide) inv.books.bad
    refine inv.finds turn (by rw [here]; decide) (by split <;> rfl) (by split <;> rfl) (fun found => ?_)
      (by rw [here]; split <;> decide)
    by_contra absent
    rw [if_neg absent] at found
    cases found
  | get here referenced =>
    have bad := flag_unfreed inv.books.bad (inv.unfreed (t := .Q) (by rw [here]; rfl))
    exact inv.turnOut (inv.books.gets referenced (by rw [here]; decide) (by decide) bad) (by rw [here]; decide) rfl (by rw [here]; decide)
  | getNot here =>
    have bad := flag_unfreed inv.books.bad (inv.unfreed (t := .Q) (by rw [here]; rfl))
    exact inv.turnOut (inv.books.plain (by rw [here]; decide) (by decide) bad) (by rw [here]; decide) rfl (by rw [here]; decide)
  | miss here =>
    exact inv.turnOut (inv.books.plain (by rw [here]; decide) (by decide) inv.books.bad) (by rw [here]; decide) rfl (by rw [here]; decide)
  | opens here => exact inv.opens fixed (by rw [here]; rfl) (by decide) rfl rfl rfl (by rw [here]; decide)
  | close here => exact inv.closes (.inr ⟨here, rfl⟩)

/-! ### S -/

/-- `S` looks at the namespace and does not evict. -/
theorem Books.stats (books : Books s) {pins p : ℤ} (differs : Label.Differs (s.pc .S) l 0 0 0 pins)
    (evicts : (s.pc .S).evicts = 0 ∧ l.evicts = 0) (passive : p = s.passive + pins) {f : Bool} (freed : f = true ↔ p = 0)
    {b : Option Violation} (bad : b = none) : Turn s { s with passive := p, freed := f, bad := b } .S l 0 := by
  have here : ({ s with passive := p, freed := f, bad := b }.go .S l).pc .S = l := go_pc ..
  refine .of differs ⟨rfl, rfl, rfl, rfl, rfl, rfl, rfl, rfl, rfl, rfl, id⟩ id ?_ ?_ ?_ books.owner ?_ passive freed
    (fun evicting => ?_) bad
  · rw [State.stash, State.stash, here, evicts.1, evicts.2]
    exact (add_zero _).symm
  · dsimp only
    omega
  · dsimp only
    omega
  · exact (add_zero _).symm
  · have none := evicts.2
    rw [here.symm.trans evicting] at none
    cases none

/-- The passive reference of `S`, or the initial one, is not the last. -/
theorem Inv.pinned (inv : Inv s) (held : 0 < s.initial + (s.pc t).pins) : s.freed = false ∧ 0 < s.passive := by
  have unfreed := inv.books.not_freed held
  have nonneg := inv.books.passive_nonneg
  refine ⟨unfreed, lt_of_le_of_ne nonneg fun zero => ?_⟩
  cases unfreed.symm.trans (inv.books.freed.mpr zero.symm)

theorem TaskS.forward (inv : Inv s) (step : TaskS s after) : Forward s after := by
  have tasks := inv.tasks .S
  cases step with
  | find here =>
    have turn : Turn s s .S (if s.intree then .sGet else .sMiss) 0 :=
      inv.books.stats (by rw [here]; split <;> decide) (by rw [here]; split <;> decide) (add_zero _).symm inv.books.freed
        inv.books.bad
    refine inv.finds turn (by rw [here]; decide) (by split <;> rfl) (by split <;> rfl) (fun found => ?_)
      (by rw [here]; split <;> decide)
    by_contra absent
    rw [if_neg absent] at found
    cases found
  | get here =>
    obtain ⟨freed, held⟩ := inv.pinned (t := .S) (by
      rw [(tasks.found (by rw [here]; rfl)).1, here]
      decide)
    have bad : flag s.bad (s.freed = true ∨ s.passive = 0) .passiveOnDead = none := by
      rw [flag_false, inv.books.bad]
      rintro (gone | none)
      · cases freed.symm.trans gone
      · omega
    have differs : Label.Differs (s.pc .S) .sSem 0 0 0 1 := by
      rw [here]
      decide
    have turn := inv.books.stats differs (by rw [here]; decide) rfl (f := s.freed)
      (iff_of_false (by rw [freed]; decide) (by omega)) bad
    exact inv.turnOut turn (by rw [here]; decide) rfl (by rw [here]; decide)
  | miss here =>
    have turn : Turn s s .S .done 0 :=
      inv.books.stats (by rw [here]; decide) (by rw [here]; decide) (add_zero _).symm inv.books.freed inv.books.bad
    exact inv.turnOut turn (by rw [here]; decide) rfl (by rw [here]; decide)
  | sem here free =>
    have freed := (inv.pinned (t := .S) (by
      have := s.initial_nonneg
      rw [here]
      change 0 < s.initial + 1
      omega)).1
    have turn : Turn s { s with bad := flag s.bad (s.freed = true) .useAfterFree } .S .sWork 0 :=
      inv.books.stats (by rw [here]; decide) (by rw [here]; decide) (add_zero _).symm inv.books.freed
        (flag_unfreed inv.books.bad freed)
    have balanced := turn.balanced
    refine ⟨inv.does (t := .S) (l := .sWork)
      { turn.same.go with readers := fun u other => ?_ }
      ⟨balanced.refs, balanced.active, balanced.evicts, balanced.owner, balanced.files, balanced.stage, balanced.passive,
        balanced.freed, balanced.bad⟩ ?_, turn.less (by rw [here]; decide)⟩
    · exact ⟨fun inside => Finset.mem_of_mem_insert_of_ne inside other, Finset.mem_insert_of_mem⟩
    · have pc : ({ s with
          nsreaders := insert Task.S s.nsreaders
          bad := flag s.bad (s.freed = true) .useAfterFree }.go .S .sWork).pc .S = .sWork := go_pc ..
      constructor <;> rw [pc]
      case rcu =>
        refine tasks.rcu.trans ?_
        rw [here]
        rfl
      case found => exact fun no => Bool.noConfusion no
      case waits =>
        intro inside
        have reading := tasks.waits inside
        rw [here] at reading
        exact reading
      case back => exact fun no => absurd no (by decide)
      case sem => exact ⟨fun inside => absurd (free.symm.trans inside) (by decide), Label.noConfusion⟩
      case reader => exact ⟨fun _ => rfl, fun _ => Finset.mem_insert_self ..⟩
      case tree => exact Label.noConfusion
      case own => rfl
  | work here =>
    have freed := (inv.pinned (t := .S) (by
      have := s.initial_nonneg
      rw [here]
      change 0 < s.initial + 1
      omega)).1
    have turn : Turn s { s with bad := flag s.bad (s.freed = true) .useAfterFree } .S .sRelease 0 :=
      inv.books.stats (by rw [here]; decide) (by rw [here]; decide) (add_zero _).symm inv.books.freed
        (flag_unfreed inv.books.bad freed)
    have balanced := turn.balanced
    refine ⟨inv.does (t := .S) (l := .sRelease)
      { turn.same.go with readers := fun u other => ?_ }
      ⟨balanced.refs, balanced.active, balanced.evicts, balanced.owner, balanced.files, balanced.stage, balanced.passive,
        balanced.freed, balanced.bad⟩ ?_, turn.less (by rw [here]; decide)⟩
    · exact ⟨Finset.mem_of_mem_erase, fun inside => Finset.mem_erase.mpr ⟨other, inside⟩⟩
    · refine .of_calm (go_pc ..) rfl rfl ?_ ?_ ?_ (Finset.notMem_erase _ _)
      · refine tasks.rcu.trans ?_
        rw [here]
        rfl
      · intro inside
        have reading := tasks.waits inside
        rw [here] at reading
        exact reading
      · intro inside
        have tree := tasks.sem.mp inside
        rw [here] at tree
        cases tree
  | release here =>
    have nonneg := inv.books.passive_nonneg
    obtain ⟨unfreed, held⟩ := inv.pinned (t := .S) (by
      have := s.initial_nonneg
      rw [here]
      change 0 < s.initial + 1
      omega)
    have differs : Label.Differs (s.pc .S) .done 0 0 0 (-1) := by
      rw [here]
      decide
    have turn := inv.books.stats differs (by rw [here]; decide) (p := s.passive - 1) (sub_eq_add_neg ..) (f := s.freed || decide (s.passive = 1)) (by
        rw [unfreed, Bool.false_or, decide_eq_true_iff]
        omega) inv.books.bad
    exact inv.turn turn (by rw [here]; decide) (by rw [here]; rfl) (by rw [here]; decide)

theorem Evict.forward (fixed : cfg.Fixed) (inv : Inv s) (step : Evict cfg s after) : Forward s after := by
  cases step with
  | active inode unused idle =>
    have none : s.stash = 1 := by
      rw [State.stash, inode, idle]
      rfl
    have used : 0 < s.active := by
      have := count_nonneg (s := s) Label.uses_nonneg
      have := inv.books.active
      omega
    have here : ((s.activePut cfg).go .S .evRef).pc .S = .evRef := go_pc ..
    have differs : Label.Differs (s.pc .S) .evRef 1 0 0 0 := by
      rw [idle]
      decide
    have turn : Turn s (s.activePut cfg) .S .evRef (-1) := by
      refine .of differs ⟨rfl, rfl, rfl, rfl, rfl, rfl, rfl, rfl, rfl, rfl, id⟩ id ?_ ?_ ?_
        (inv.books.owner.put fixed.cascade used) (add_zero _).symm (add_zero _).symm inv.books.freed (fun _ => inode)
        inv.books.bad
      · rw [none, State.stash, here]
        change s.inode.toInt - 1 = 0
        rw [inode]
        rfl
      · change s.ref = s.ref + 1 + -1
        omega
      · change s.active - 1 = s.active + 0 + -1
        omega
    exact inv.turn turn (by rw [idle]; decide) (by rw [idle]; rfl) (by rw [idle]; decide)
  | refFirst _ _ _ later => exact Bool.noConfusion (fixed.evictFirst.symm.trans later)
  | ref here =>
    have empty : s.stash = 0 := by
      rw [State.stash, here, inv.books.evicts here]
      rfl
    refine inv.put ⟨rfl, rfl, rfl, rfl, rfl, rfl, rfl, rfl, rfl, rfl, id⟩ (by rw [here]; rfl) rfl rfl rfl rfl inv.books.owner
      (add_zero _).symm rfl inv.books.freed inv.books.bad (fun l none => ?_)
      (by rw [here]; decide)
    have next : ({ s with inode := false }.go .S l).pc .S = l := go_pc ..
    refine ⟨?_, fun evicting => ?_⟩
    · rw [empty, State.stash, next, none]
      rfl
    · rw [next.symm.trans evicting] at none
      cases none
  | activeLate here => exact (inv.not_mutated here fun _ => rfl).elim

/-! ### The teardown -/

theorem Label.tears_spec (torn : l.tears = 1) : l.refs = 0 ∧ l.uses = 0 ∧ l.pins = 0 ∧ l.evicts = 0 ∧ l.reading = false ∧
    l ≠ .sWork := by
  cases l <;> first | decide | cases torn

theorem Books.torn_step (books : Books s) (torn : (s.pc t).tears = 1)
    (light : l.refs = 0 ∧ l.uses = 0 ∧ l.pins = 0 ∧ l.evicts = 0) (pc : after.pc = Function.update s.pc t l)
    (counts : after.ref = s.ref ∧ after.active = s.active ∧ after.passive = s.passive ∧ after.files = s.files)
    (owner : after.uactive = s.uactive) (inode : after.inode = s.inode) (freed : after.freed = s.freed)
    (stage : after.gpOn.toInt + l.tears = s.gpOn.toInt + 1) (place : after.place t = s.ret t) (bad : after.bad = none) :
    Balanced s after t l ∧ after.stash = s.stash := by
  obtain ⟨refs, uses, pins, evicts, -⟩ := Label.tears_spec torn
  obtain ⟨refs', uses', pins', evicts'⟩ := light
  obtain ⟨ref, active, passive, files⟩ := counts
  have same : after.pc .S = s.pc .S ∨ t = .S ∧ after.pc .S = l := by
    by_cases here : t = .S
    · refine .inr ⟨here, ?_⟩
      rw [pc, here, Function.update_self]
    · refine .inl ?_
      rw [pc, Function.update_of_ne (Ne.symm here)]
  have stash : after.stash = s.stash ∧ (after.pc .S = .evRef → after.inode = true) := by
    rw [State.stash, State.stash, inode]
    obtain same | ⟨rfl, same⟩ := same
    · rw [same]
      exact ⟨rfl, books.evicts⟩
    · rw [same, evicts, evicts']
      refine ⟨rfl, ?_⟩
      rintro rfl
      cases evicts'
  refine ⟨⟨?_, ?_, stash.2, ?_, ?_, ?_, ?_, ?_, bad⟩, stash.1⟩
  · rw [stash.1]
    omega
  · rw [stash.1]
    omega
  · rw [OwnerOK, owner, active]
    exact books.owner
  · rw [place, place_torn torn]
    omega
  · rw [State.referenced, State.referenced, ref]
    omega
  · omega
  · rw [freed, passive]
    exact books.freed

theorem Inv.tears (inv : Inv s) (torn : (s.pc t).tears = 1) (does : Does s after t l)
    (balanced : Balanced s after t l ∧ after.stash = s.stash) (ref : after.ref = s.ref) (place : after.place t = s.ret t)
    (stage : l.stage + after.gpOn.toInt < (s.pc t).stage + s.gpOn.toInt) (own : Local after t) : Forward s after := by
  refine ⟨inv.does does balanced.1 own, ?_⟩
  have referenced : after.referenced = s.referenced := by rw [State.referenced, State.referenced, ref]
  rw [does.work, balanced.2, referenced, place, place_torn torn]
  omega

theorem Teardown.forward (fixed : cfg.Fixed) (inv : Inv s) (step : Teardown cfg s t after) : Forward s after := by
  have tasks := inv.tasks t
  cases step with
  | nsem here free =>
    have torn : (s.pc t).tears = 1 := by rw [here]; rfl
    obtain ⟨dead, calm⟩ := inv.books.torn torn
    have pc : ({ s with nsem := some t, bad := flag s.bad (0 < s.active) .activeWithoutRef }.go t .tdTree).pc t = .tdTree :=
      go_pc ..
    refine inv.tears (l := .tdTree) torn ?_ ?_ rfl (place_torn (by rw [pc]; rfl)) (by rw [here, State.go, calm]; decide) ?_
    · exact ⟨rfl, fun _ _ => rfl, fun _ _ => rfl,
        fun u other => iff_of_false (fun same => other (Option.some.inj same).symm) (by rw [free.1]; intro no; cases no),
        fun _ _ => .rfl, fun _ _ _ kept => kept, fun _ _ => .inl, fun tree => ⟨tree, rfl⟩,
        fun referenced => ⟨referenced, rfl, rfl, rfl⟩⟩
    · refine inv.books.torn_step torn ⟨rfl, rfl, rfl, rfl⟩ rfl ⟨rfl, rfl, rfl, rfl⟩ rfl rfl rfl rfl
        (place_torn (by rw [pc]; rfl)) ?_
      have := inv.books.active_le
      exact (flag_false _ _ (by omega)).trans inv.books.bad
    · constructor <;> rw [pc]
      case rcu =>
        refine tasks.rcu.trans ?_
        rw [here]
        rfl
      case found => exact fun no => Bool.noConfusion no
      case waits =>
        intro inside
        have reading := tasks.waits inside
        rw [here] at reading
        exact reading
      case back => exact fun _ => tasks.back torn
      case sem => exact ⟨fun _ => rfl, fun _ => rfl⟩
      case reader => exact ⟨fun inside => absurd inside (by rw [State.go, free.2]; exact Finset.notMem_empty t), Label.noConfusion⟩
      case tree => exact Label.noConfusion
      case own => rfl
  | tree here =>
    have torn : (s.pc t).tears = 1 := by rw [here]; rfl
    obtain ⟨dead, calm⟩ := inv.books.torn torn
    have holds := tasks.sem.mpr here
    have pc : ({ s with mounts := false, nsem := none, inum := false, intree := false }.go t .tdRcu).pc t = .tdRcu := go_pc ..
    refine inv.tears (l := .tdRcu) torn ?_ ?_ rfl (place_torn (by rw [pc]; rfl)) (by rw [here, State.go, calm]; decide) ?_
    · refine ⟨rfl, fun _ _ => rfl, fun _ _ => rfl, fun u other => iff_of_false (fun no => by cases no) ?_,
        fun _ _ => .rfl, fun _ _ _ kept => kept, fun _ _ => .inl, fun tree => (by cases tree), fun referenced => ?_⟩
      · rw [holds]
        exact fun same => other (Option.some.inj same).symm
      · change 0 < s.ref at referenced
        omega
    · exact inv.books.torn_step torn ⟨rfl, rfl, rfl, rfl⟩ rfl ⟨rfl, rfl, rfl, rfl⟩ rfl rfl rfl rfl
        (place_torn (by rw [pc]; rfl)) inv.books.bad
    · constructor <;> rw [pc]
      case rcu =>
        refine tasks.rcu.trans ?_
        rw [here]
        rfl
      case found => exact fun no => Bool.noConfusion no
      case waits =>
        intro inside
        have reading := tasks.waits inside
        rw [here] at reading
        exact reading
      case back => exact fun _ => tasks.back torn
      case sem => exact ⟨fun no => (by cases no), Label.noConfusion⟩
      case reader =>
        refine ⟨fun inside => ?_, Label.noConfusion⟩
        have work := tasks.reader.mp inside
        rw [here] at work
        cases work
      case tree => exact fun _ => rfl
      case own => rfl
  | treeLater _ later => exact Bool.noConfusion (fixed.treeFirst.symm.trans later)
  | rcu here =>
    have torn : (s.pc t).tears = 1 := by rw [here]; rfl
    obtain ⟨dead, calm⟩ := inv.books.torn torn
    obtain ⟨back, own⟩ := tasks.back torn
    obtain ⟨refs, uses, pins, tears, reading, mild, evicts⟩ := Label.returns_spec back
    have quiet : s.rcu t = false := by
      rw [tasks.rcu, here]
      rfl
    have pc : ({ s with gpOn := true, gpWait := s.readers }.go t (s.ret t)).pc t = s.ret t := go_pc ..
    have gone := tasks.tree here
    have place : ({ s with gpOn := true, gpWait := s.readers }.go t (s.ret t)).place t = s.ret t := by
      rw [place_calm (by rw [pc, tears]), pc]
    have less : (s.ret t).stage + Bool.toInt true < (s.pc t).stage + s.gpOn.toInt := by
      rw [here, calm, Label.stage_of_tears tears]
      decide
    refine inv.tears torn ?_ ?_ rfl place less ?_
    · refine ⟨rfl, fun _ _ => rfl, fun _ _ => rfl, fun _ _ => .rfl, fun _ _ => .rfl,
        fun u _ reads _ _ => Finset.mem_filter.mpr ⟨Finset.mem_univ u, reads⟩,
        fun u _ inside => .inr (Finset.mem_filter.mp inside).2, fun tree => ?_, fun referenced => ?_⟩
      · exact Bool.noConfusion (gone.symm.trans tree)
      · change 0 < s.ref at referenced
        omega
    · refine inv.books.torn_step torn ⟨refs, uses, pins, evicts⟩ rfl ⟨rfl, rfl, rfl, rfl⟩ rfl rfl rfl ?_ place inv.books.bad
      rw [tears, calm]
      rfl
    · refine .of_calm pc mild own ?_ ?_ ?_ ?_
      · exact quiet.trans reading.symm
      · exact fun inside => Bool.noConfusion (quiet.symm.trans (Finset.mem_filter.mp inside).2)
      · intro inside
        have tree := tasks.sem.mp inside
        rw [here] at tree
        cases tree
      · intro inside
        have work := tasks.reader.mp inside
        rw [here] at work
        cases work
  | rcuNow _ atOnce => exact Bool.noConfusion (fixed.passiveRcu.symm.trans atOnce)
  | rcuFirst here | treeLate here => exact (inv.not_mutated here fun _ => rfl).elim

/-- The callback drops the initial reference, for which nobody waits any more. -/
theorem RcuRelease.forward (inv : Inv s) (step : RcuRelease s after) : Forward s after := by
  obtain ⟨on, empty, rfl⟩ := step
  obtain ⟨refs, active, evicts, owner, files, bound, passive, -, tree, alive, bad⟩ := inv.books
  have before : s.initial = s.referenced + s.count Label.tears + 1 := by
    rw [State.initial, on]
    rfl
  have next : State.initial { s with gpOn := false, gpWait := ∅, passive := s.passive - 1, freed := decide (s.passive = 1) } =
      s.referenced + s.count Label.tears + 0 := rfl
  have dead : ¬ 0 < s.ref := by
    intro referenced
    have one : s.referenced = 1 := if_pos referenced
    have := count_nonneg (s := s) Label.tears_nonneg
    omega
  have gone : ¬ s.intree = true := fun present => Bool.noConfusion ((tree present).2.symm.trans on)
  have less : State.work { s with gpOn := false, gpWait := ∅, passive := s.passive - 1, freed := decide (s.passive = 1) } =
      ∑ t, (s.place t).rank + s.count Label.stage + 4 * s.stash + 5 * s.referenced + 0 := rfl
  refine ⟨⟨⟨refs, active, evicts, owner, files, ?_, ?_, ?_, fun present => absurd present gone,
    fun referenced => absurd referenced dead, bad⟩, fun u => ?_⟩, ?_⟩
  · rw [next]
    omega
  · rw [next]
    change s.passive - 1 = _ + s.count Label.pins
    omega
  · change decide (s.passive = 1) = true ↔ s.passive - 1 = 0
    rw [decide_eq_true_iff]
    omega
  · obtain ⟨rcu, found, waits, back, sem, reader, late, own⟩ := inv.tasks u
    refine ⟨rcu, fun at_found => ?_, fun inside => absurd inside (Finset.notMem_empty u), back, sem, reader, late, own⟩
    have inside := (found at_found).2 on
    rw [empty] at inside
    exact absurd inside (Finset.notMem_empty u)
  · rw [less, State.work, on]
    exact Int.add_lt_add_left (by decide) _

/-! ### Every reachable state -/

theorem init_inv : Inv init := by
  refine ⟨⟨by decide, by decide, fun no => (by cases no), rfl, by decide, by decide, by decide, by decide,
    fun _ => ⟨by decide, rfl⟩, fun _ => ⟨rfl, rfl, rfl⟩, rfl⟩, fun t => ?_⟩
  cases t <;> constructor <;> decide

/-- Every step but the last stutter goes forward. -/
theorem Next.forward (fixed : cfg.Fixed) (inv : Inv s) (step : Next cfg s after) : after = s ∧ Settled s ∨ Forward s after := by
  cases step with
  | t step => exact .inr (step.forward fixed inv)
  | f step => exact .inr (step.forward fixed inv)
  | l step => exact .inr (step.forward fixed inv)
  | q step => exact .inr (step.forward fixed inv)
  | s step => exact .inr (step.forward inv)
  | evict step => exact .inr (step.forward fixed inv)
  | rcuRelease step => exact .inr (step.forward inv)
  | teardown step => exact .inr (step.forward fixed inv)
  | settled all => exact .inl ⟨rfl, all⟩

theorem Next.inv (fixed : cfg.Fixed) (inv : Inv s) (step : Next cfg s after) : Inv after := by
  obtain ⟨rfl, -⟩ | forward := step.forward fixed inv
  · exact inv
  · exact forward.inv

theorem invariant (fixed : cfg.Fixed) : (spec cfg).Invariant Inv :=
  .of_step (fun _ start => by rw [start]; exact init_inv) fun _ _ inv step => step.inv fixed inv

theorem Books.typeOK (books : Books s) : TypeOK s := by
  refine ⟨books.ref_nonneg, books.active_nonneg, books.passive_nonneg, ?_, ?_⟩
  · rw [books.owner]
    split <;> decide
  · rw [books.files]
    exact Finset.sum_nonneg fun _ _ => Label.opens_nonneg _

/-- A namespace that is used is referenced, its owner knows, a referenced one has its mounts and
its place in the tree, and the protocol holds. -/
theorem namespace_safe (fixed : cfg.Fixed) : (spec cfg).Invariant fun s =>
    TypeOK s ∧ ActiveRef s ∧ OwnerOK s ∧ ProtocolOK s ∧
      (0 < s.ref → s.intree = true ∧ s.mounts = true ∧ s.inum = true ∧ s.freed = false) := by
  refine (invariant fixed).mono fun s inv => ⟨inv.books.typeOK, fun used => ?_, inv.books.owner, inv.books.bad, fun referenced => ?_⟩
  · have := inv.books.active_le
    omega
  · obtain ⟨tree, mounts, inum⟩ := inv.books.alive referenced
    have initial := (inv.books.tree tree).1
    have pins := Label.pins_nonneg (s.pc .S)
    exact ⟨tree, mounts, inum, inv.books.not_freed (t := .S) (by omega)⟩

def merged : Config where
  fixActiveCheck := true
  fixTreeFirst := true
  fixCascade := true
  fixActiveFirst := true
  fixEvictFirst := true
  fixPassiveRcu := true
  fixPutOutsideRcu := true

theorem merged_fixed : merged.Fixed := ⟨rfl, rfl, rfl, rfl, rfl, rfl, rfl⟩

/-- The task is gone, its file has brought the namespace back into use, and statmount() holds the
semaphore. -/
theorem merged_reopened : ∃ s, (spec merged).Reachable s ∧ s.pc .T = .done ∧ s.active = 1 ∧ s.ref = 1 ∧
    s.nsreaders = {.S} := by
  have start : (spec merged).Reachable init := .init rfl
  have run := start.next (.f (.opens rfl rfl))
  have run := run.next (.t (.exit rfl rfl))
  have run := run.next (.t (.ref rfl))
  have run := run.next (.s (.find rfl))
  have run := run.next (.s (.get rfl))
  have run := run.next (.s (.sem rfl rfl))
  have run := run.next (.f (.stash rfl))
  exact ⟨_, run, rfl, rfl, rfl, rfl⟩

theorem merged_safe : ∃ s, s.pc .T = .done ∧ s.active = 1 ∧ TypeOK s ∧ ActiveRef s ∧ OwnerOK s ∧ ProtocolOK s ∧
    s.intree = true ∧ s.mounts = true ∧ s.inum = true ∧ s.freed = false := by
  obtain ⟨s, reached, left, used, referenced, -⟩ := merged_reopened
  obtain ⟨types, active, owner, protocol, whole⟩ := namespace_safe merged_fixed s reached
  exact ⟨s, left, used, types, active, owner, protocol, whole (by omega)⟩

end LinuxTla.MntNs
