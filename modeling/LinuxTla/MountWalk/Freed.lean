import LinuxTla.MountWalk.Lifetimes

/-! A mount is freed only when nobody stands on it, provided that nothing is mounted on what
has left the namespace; the mounter does not look again, so this can fail. -/

namespace LinuxTla.MountWalk

open Lib

variable {M E K S W : Type} [Fintype M] [LinearOrder M]
  {cfg : Config M E K S W} {s after : State M E K W} {mt mt' : Tree M E} {x y p : M} {d : E}
  {v w : W} {l : Walker M E K} {todo : Finset M} {own : M → ℕ} {made : ℕ} {root pos next : Pos M E}

/-! ### The tree -/

theorem Rooted.parent_ne (rooted : Rooted cfg mt todo own made) (free : (mt x).alive = false) (on : (mt y).alive = true)
    (linked : Tree.HasParent mt y) : (mt y).parent ≠ x := by
  rintro rfl
  cases free.symm.trans (rooted.parent on linked).1

/-- A new mount on one that is in the namespace. -/
theorem Rooted.attach {m : Mount M E} (rooted : Rooted cfg mt todo own made) (free : (mt x).alive = false)
    (outside : x ∉ todo) (bare : own x = 0) (ns : (mt m.parent).ns = true)
    (new : m.alive = true ∧ m.freed = false ∧ m.ns = true ∧ m.count = 1) :
    Rooted cfg (Function.update mt x m) todo own (made + 1) := by
  have apart : m.parent ≠ x := by
    intro same
    have on := rooted.alive _ ns
    rw [same] at on
    cases free.symm.trans on
  have self : Function.update mt x m x = m := Function.update_self ..
  have other (y : M) (apart : y ≠ x) : Function.update mt x m y = mt y := Function.update_of_ne apart ..
  have on (y : M) (alive : (mt y).alive = true) : y ≠ x := by
    rintro rfl
    cases free.symm.trans alive
  have up (y : M) (here : y ≠ x) (alive : (mt y).alive = true) (linked : Tree.HasParent mt y) :
      Function.update mt x m (mt y).parent = mt (mt y).parent := other _ (rooted.parent_ne free alive linked)
  constructor
  case freed =>
    intro y alive
    by_cases here : y = x
    · rw [here, self]
      exact new.2.1
    · rw [other y here] at alive ⊢
      exact rooted.freed y alive
  case alive =>
    intro y inside
    by_cases here : y = x
    · rw [here, self]
      exact new.1
    · rw [other y here] at inside ⊢
      exact rooted.alive y inside
  case linked =>
    intro y alive linked
    rw [Tree.HasParent] at linked
    by_cases here : y = x
    · rw [here, self, other _ apart]
      exact ⟨new.2.2.1, ns⟩
    · rw [other y here] at alive linked ⊢
      rw [up y here alive linked]
      exact rooted.linked y alive linked
  case left =>
    intro y inside
    have here : y ≠ x := fun same => outside (same ▸ inside)
    rw [other y here]
    exact rooted.left y inside
  case stays =>
    intro calm y alive
    by_cases here : y = x
    · rw [here, self]
      exact new.2.2.1
    · rw [other y here] at alive ⊢
      exact rooted.stays calm y alive
  case hashed =>
    intro umount y alive hashed
    rw [Tree.HasParent]
    by_cases here : y = x
    · rw [here, self]
      exact apart
    · rw [other y here] at alive hashed ⊢
      exact rooted.hashed umount y alive hashed
  case few =>
    intro umount
    refine (Finset.card_le_card fun y inside => ?_).trans ((Finset.card_insert_le x (onMounts mt)).trans
      (Nat.succ_le_succ (rooted.few umount)))
    obtain ⟨alive, linked⟩ := mem_onMounts.mp inside
    rw [Tree.HasParent] at linked
    by_cases here : y = x
    · exact Finset.mem_insert.mpr (.inl here)
    · rw [other y here] at alive linked
      exact Finset.mem_insert_of_mem (mem_onMounts.mpr ⟨alive, linked⟩)
  case cycle =>
    intro umount y alive linked below
    rw [Tree.HasParent] at linked below
    by_cases here : y = x
    · rw [here, self, other _ apart] at below ⊢
      exact rooted.parent_ne free (rooted.alive _ ns) below
    · rw [other y here] at alive linked below ⊢
      rw [up y here alive linked] at below ⊢
      exact rooted.cycle umount y alive linked below
  case ledger =>
    intro y alive
    by_cases here : y = x
    · rw [here, self, new.2.2.2, if_pos (.inl new.2.2.1), bare]
      rfl
    · rw [other y here] at alive ⊢
      exact rooted.ledger y alive

/-- With two mounts made, what is mounted on a child of the victim does not exist. -/
theorem Rooted.outside (rooted : Rooted cfg mt todo own made) (umount : cfg.change = .umount) (few : made ≤ 2)
    (victim : (mt x).alive = true ∧ Tree.HasParent mt x) (on : (mt y).alive = true) (linked : Tree.HasParent mt y)
    (outside : y ∉ Tree.subtree mt x) : (mt y).parent ∉ Tree.subtree mt x := by
  intro inside
  obtain ⟨alive, same | ⟨below, parent⟩⟩ := mem_subtree.mp inside
  · exact outside (mem_subtree.mpr ⟨on, .inr ⟨linked, same⟩⟩)
  · have apart : x ≠ y := by
      rw [← parent]
      exact rooted.cycle umount y on linked below
    have apart' : (mt y).parent ≠ x := by
      rw [Tree.HasParent, parent] at below
      exact below.symm
    have three : ({y, (mt y).parent, x} : Finset M).card = 3 := by
      rw [Finset.card_insert_of_notMem, Finset.card_insert_of_notMem, Finset.card_singleton]
      · exact Finset.notMem_singleton.mpr apart'
      · simp only [Finset.mem_insert, Finset.mem_singleton, not_or]
        exact ⟨Ne.symm linked, apart.symm⟩
    have all : ({y, (mt y).parent, x} : Finset M) ⊆ onMounts mt := by
      intro z within
      simp only [Finset.mem_insert, Finset.mem_singleton] at within
      obtain rfl | rfl | rfl := within
      · exact mem_onMounts.mpr ⟨on, linked⟩
      · exact mem_onMounts.mpr ⟨alive, below⟩
      · exact mem_onMounts.mpr victim
    have bound := Finset.card_le_card all
    have := rooted.few umount
    omega

/-- umount_tree() -/
theorem Rooted.cut (rooted : Rooted cfg s.mnt ∅ own made) (umount : cfg.change = .umount) (few : made ≤ 2)
    (victim : (s.mnt cfg.victim).ns = true ∧ Tree.HasParent s.mnt cfg.victim) :
    Rooted cfg (unhash cfg s) (Tree.subtree s.mnt cfg.victim) own made := by
  have there := rooted.alive _ victim.1
  have same (y : M) : (unhash cfg s y).alive = (s.mnt y).alive ∧ (unhash cfg s y).freed = (s.mnt y).freed ∧
      (unhash cfg s y).count = (s.mnt y).count := by
    rw [MountWalk.unhash]
    split_ifs <;> exact ⟨rfl, rfl, rfl⟩
  have cut (y : M) (inside : y ∈ Tree.subtree s.mnt cfg.victim) : (unhash cfg s y).ns = false ∧
      ¬ Tree.HasParent (unhash cfg s) y := by
    rw [Tree.HasParent, MountWalk.unhash, if_pos inside]
    exact ⟨rfl, not_not_intro rfl⟩
  have kept (y : M) (outside : y ∉ Tree.subtree s.mnt cfg.victim) : unhash cfg s y = s.mnt y := by
    rw [MountWalk.unhash, if_neg outside]
  have stays (y : M) (linked : Tree.HasParent (unhash cfg s) y) : y ∉ Tree.subtree s.mnt cfg.victim ∧ Tree.HasParent s.mnt y := by
    have outside : y ∉ Tree.subtree s.mnt cfg.victim := fun inside => (cut y inside).2 linked
    rw [Tree.HasParent, kept y outside] at linked
    exact ⟨outside, linked⟩
  have up (y : M) (on : (s.mnt y).alive = true) (linked : Tree.HasParent (unhash cfg s) y) :
      unhash cfg s (s.mnt y).parent = s.mnt (s.mnt y).parent :=
    kept _ (rooted.outside umount few ⟨there, victim.2⟩ on (stays y linked).2 (stays y linked).1)
  constructor
  case freed =>
    intro y on
    rw [(same y).1] at on
    rw [(same y).2.1]
    exact rooted.freed y on
  case alive =>
    intro y ns
    by_cases inside : y ∈ Tree.subtree s.mnt cfg.victim
    · cases ns.symm.trans (cut y inside).1
    · rw [kept y inside] at ns ⊢
      exact rooted.alive y ns
  case linked =>
    intro y on linked
    rw [(same y).1] at on
    rw [kept y (stays y linked).1, up y on linked]
    exact rooted.linked y on (stays y linked).2
  case left => exact fun y inside => (cut y inside).1
  case stays => exact fun calm => absurd umount calm
  case hashed =>
    intro _ y on hashed
    rw [(same y).1] at on
    by_cases inside : y ∈ Tree.subtree s.mnt cfg.victim
    · rw [MountWalk.unhash, if_pos inside] at hashed
      cases hashed
    · rw [Tree.HasParent]
      rw [kept y inside] at hashed ⊢
      exact rooted.hashed umount y on hashed
  case few =>
    refine fun umount => (Finset.card_le_card fun y inside => ?_).trans (rooted.few umount)
    obtain ⟨on, linked⟩ := mem_onMounts.mp inside
    exact mem_onMounts.mpr ⟨(same y).1 ▸ on, (stays y linked).2⟩
  case cycle =>
    intro _ y on linked below
    rw [(same y).1] at on
    rw [kept y (stays y linked).1] at below ⊢
    rw [up y on linked]
    exact rooted.cycle umount y on (stays y linked).2 (stays _ below).2
  case ledger =>
    intro y on
    rw [(same y).1] at on
    have ledger := rooted.ledger y on
    rw [(same y).2.2, ledger]
    by_cases inside : y ∈ Tree.subtree s.mnt cfg.victim
    · have ns : (s.mnt y).ns = true := by
        obtain here | ⟨linked, _⟩ := (mem_subtree.mp inside).2
        · rw [here]
          exact victim.1
        · exact (rooted.linked y on linked).1
      rw [if_pos (.inl ns), if_pos (.inr inside)]
    · rw [kept y inside]
      simp [inside]

theorem Rooted.move (rooted : Rooted cfg mt todo own made) (calm : cfg.change ≠ .umount) (ns : (mt p).ns = true) :
    Rooted cfg (Function.update mt x { mt x with parent := p, mp := d }) todo own made := by
  have same (y : M) : ∃ q e, Function.update mt x { mt x with parent := p, mp := d } y = { mt y with parent := q, mp := e } ∧
      (y ≠ x → q = (mt y).parent) ∧ (y = x → q = p) := by
    by_cases here : y = x
    · rw [here, Function.update_self]
      exact ⟨p, d, rfl, fun other => absurd rfl other, fun _ => rfl⟩
    · rw [Function.update_of_ne here]
      exact ⟨(mt y).parent, (mt y).mp, rfl, fun _ => rfl, fun same => absurd same here⟩
  have nss (y : M) : (Function.update mt x { mt x with parent := p, mp := d } y).ns = (mt y).ns := by
    obtain ⟨_, _, same, _⟩ := same y
    rw [same]
  constructor
  case linked =>
    intro y on joined
    obtain ⟨q, _, same, other, here⟩ := same y
    rw [Tree.HasParent, same] at joined
    rw [same] at on ⊢
    rw [nss]
    dsimp only at on joined ⊢
    by_cases self : y = x
    · rw [here self]
      exact ⟨rooted.stays calm y on, ns⟩
    · rw [other self] at joined ⊢
      exact rooted.linked y on joined
  case few => exact fun umount => absurd umount calm
  case hashed => exact fun umount => absurd umount calm
  case cycle => exact fun umount => absurd umount calm
  case freed =>
    intro y on
    obtain ⟨_, _, same, _⟩ := same y
    rw [same] at on ⊢
    exact rooted.freed y on
  case alive =>
    intro y on
    rw [nss] at on
    obtain ⟨_, _, same, _⟩ := same y
    rw [same]
    exact rooted.alive y on
  case left =>
    intro y inside
    rw [nss]
    exact rooted.left y inside
  case stays =>
    intro _ y on
    rw [nss]
    obtain ⟨_, _, same, _⟩ := same y
    rw [same] at on
    exact rooted.stays calm y on
  case ledger =>
    intro y on
    obtain ⟨_, _, same, _⟩ := same y
    rw [same] at on ⊢
    exact rooted.ledger y on

theorem Rooted.put (rooted : Rooted cfg s.mnt s.todo own made) (umount : cfg.change = .umount)
    (todo : ∀ y ∈ s.todo, (s.mnt y).alive = true ∧ (s.mnt y).hashed = false) : Rooted cfg (puts s) ∅ own made := by
  have same (y : M) : (puts s y).ns = (s.mnt y).ns ∧ (puts s y).parent = (s.mnt y).parent ∧
      (puts s y).hashed = (s.mnt y).hashed := by
    rw [MountWalk.puts]
    split_ifs <;> exact ⟨rfl, rfl, rfl⟩
  have linked (y : M) : Tree.HasParent (MountWalk.puts s) y ↔ Tree.HasParent s.mnt y := by
    rw [Tree.HasParent, Tree.HasParent, (same y).2.1]
  have before (y : M) (on : (MountWalk.puts s y).alive = true) : (s.mnt y).alive = true := by
    by_cases inside : y ∈ s.todo
    · exact (todo y inside).1
    · rwa [MountWalk.puts, if_neg inside] at on
  constructor
  case freed =>
    intro y on
    have was := rooted.freed y (before y on)
    rw [MountWalk.puts] at on ⊢
    split_ifs at on ⊢ with inside
    · dsimp only at on ⊢
      have more : 1 < (s.mnt y).count := of_decide_eq_true on
      exact decide_eq_false (by omega)
    · exact was
  case alive =>
    intro y ns
    rw [(same y).1] at ns
    have outside : y ∉ s.todo := fun inside => by cases ns.symm.trans (rooted.left y inside)
    rw [MountWalk.puts, if_neg outside]
    exact rooted.alive y ns
  case linked =>
    intro y on joined
    rw [(same y).1, (same y).2.1, (same _).1]
    exact rooted.linked y (before y on) ((linked y).mp joined)
  case left => exact fun y inside => absurd inside (Finset.notMem_empty y)
  case stays => exact fun calm => absurd umount calm
  case hashed =>
    intro _ y on hashed
    rw [(same y).2.2] at hashed
    exact (linked y).mpr (rooted.hashed umount y (before y on) hashed)
  case few =>
    refine fun umount => (Finset.card_le_card fun y inside => ?_).trans (rooted.few umount)
    obtain ⟨on, joined⟩ := mem_onMounts.mp inside
    exact mem_onMounts.mpr ⟨before y on, (linked y).mp joined⟩
  case cycle =>
    intro _ y on joined below
    rw [(same y).2.1] at below ⊢
    rw [(same _).2.1]
    exact rooted.cycle umount y (before y on) ((linked y).mp joined) ((linked _).mp below)
  case ledger =>
    intro y on
    have ledger := rooted.ledger y (before y on)
    rw [(same y).1]
    by_cases inside : y ∈ s.todo
    · rw [if_pos (.inr inside)] at ledger
      rw [MountWalk.puts, if_pos inside, rooted.left y inside]
      dsimp only
      rw [ledger]
      simp
    · rw [MountWalk.puts, if_neg inside, ledger]
      simp [inside]

end LinuxTla.MountWalk
