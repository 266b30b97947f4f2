import LinuxTla.Mount.Groups
import LinuxTla.Lib.PeerReach
import LinuxTla.Lib.Pointers
import Mathlib.Dynamics.PeriodicPts.Lemmas

/-! `StructureOK`: what fs/mount.h promises of the table, and the peer graph behind its
peer, slave and shared parts. -/

namespace LinuxTla.Mount

open Lib

variable {M N D S : Type} [DecidableEq M]

namespace Table

section Invariants

variable [DecidableEq D] (L : Layout M D S) (t : Table M N D S)

def OneMountPerMountpoint : Prop :=
  ∀ a ∈ t.live L, ∀ b ∈ t.live L, t.hashed a = true → t.hashed b = true → t.parent a = t.parent b → t.mp a = t.mp b → a = b

/-- The children list is exactly the hashed mounts with this parent. -/
def ChildrenOK : Prop :=
  ∀ p ∈ t.live L, (∀ c, c ∈ t.children p ↔ c ∈ t.live L ∧ t.parent c = some p ∧ t.hashed c = true) ∧ (t.children p).Nodup ∧
    (t.umount p = false → t.overmount p = t.lookupMnt L p (t.root p))

def MountpointOK : Prop := ∀ c ∈ t.live L, ∀ p, t.parent c = some p → IsSubdir L (t.mp c) (t.root p)

def ParentOK : Prop :=
  ∀ c ∈ t.live L, ∀ p, t.parent c = some p → t.alive p = true ∧ ∃ l, t.ancestorMnts L c = some l ∧ c ∉ l

def SharedOK : Prop := ∀ m ∈ t.live L, t.shared m = true ↔ t.gid m ≠ 0

/-- The peer ring is exactly the group. -/
def RingOK : Prop := ∀ m ∈ t.live L, t.npeer m ∈ t.live L ∧ ∃ l, t.ring L m = some l ∧ l.toFinset = t.peerGroup L m

/-- Slave lists: no duplicates, only shared mounts have slaves, peers share one master and
are a contiguous segment of its list. -/
def SlavesOK : Prop :=
  ∀ m ∈ t.live L, (∀ n, n ∈ t.slaves m ↔ n ∈ t.live L ∧ t.master n = some m) ∧ (t.slaves m).Nodup ∧
    (t.slaves m ≠ [] → t.shared m = true) ∧ (∀ x, t.master m = some x → t.alive x = true) ∧
    (∀ n ∈ t.peerGroup L m, t.master n = t.master m) ∧
    ∀ x, t.master m = some x → t.gid m ≠ 0 → ∀ a b c, [a, b, c].Sublist (t.slaves x) →
      a ∈ t.peerGroup L m → c ∈ t.peerGroup L m → b ∈ t.peerGroup L m

def UnbindableOK : Prop := ∀ m ∈ t.live L, t.unbind m = true → t.shared m = false ∧ t.master m = none

def MarksClear : Prop := ∀ m ∈ t.live L, t.marked m = false ∧ t.cand m = false

def UmountOK : Prop :=
  ∀ m ∈ t.live L, (t.umount m = true → t.ns m = none ∧ t.attached m = false) ∧ (t.attached m = true → t.ns m ≠ none)

def ConnectedOK : Prop := ∀ c ∈ t.live L, ∀ p, t.parent c = some p → t.umount p = true → t.umount c = true

def LockedOK : Prop := ∀ m ∈ t.live L, t.locked m = true → t.umount m = false → t.parent m ≠ none

structure StructureOK : Prop where
  oneMount : t.OneMountPerMountpoint L
  children : t.ChildrenOK L
  mountpoint : t.MountpointOK L
  parent : t.ParentOK L
  shared : t.SharedOK L
  ring : t.RingOK L
  slaves : t.SlavesOK L
  unbindable : t.UnbindableOK L
  marks : t.MarksClear L
  umount : t.UmountOK L
  connected : t.ConnectedOK L
  locked : t.LockedOK L

/-- The record of a free slot is `Dead(m)`. -/
def Canonical : Prop := ∀ m, t.alive m = false → t.kill L m = t

/-- No mount is above itself in the chain of masters. -/
def MastersAcyclic : Prop := ∀ m ∈ t.live L, ¬ ClimbsUp t.master m m

end Invariants

/-- A free slot is in no group and on no list. -/
def Quiet (t : Table M N D S) : Prop := ∀ m, t.alive m = false → t.graph.Isolated m ∧ t.npeer m = m

variable {L : Layout M D S} {t : Table M N D S} {m x : M}

theorem mem_peerGroup (wf : L.WF) (dead : ∀ y, t.alive y = false → t.gid y = 0) :
    x ∈ t.peerGroup L m ↔ x = m ∨ t.gid m ≠ 0 ∧ t.gid x = t.gid m := by
  rw [peerGroup]
  split
  · rename_i lone
    rw [Finset.mem_singleton, lone]
    simp
  · rename_i shared
    rw [List.mem_toFinset, List.mem_filter, mem_live wf, decide_eq_true_eq]
    constructor
    · exact fun both => .inr ⟨shared, both.2⟩
    · rintro (rfl | ⟨_, same⟩)
      · refine ⟨?_, rfl⟩
        by_contra gone
        exact shared (dead x (by simpa using gone))
      · refine ⟨?_, same⟩
        by_contra gone
        exact shared (same ▸ dead x (by simpa using gone))

/-! ### Rings -/

theorem ringFromIn_some {k : ℕ} {l : List M} : t.ringFromIn m k x = some l ↔
    ∃ n < k, l = (List.range (n + 1)).map (fun i => t.npeer^[i] x) ∧ t.npeer^[n + 1] x = m ∧
      ∀ i < n, t.npeer^[i + 1] x ≠ m := by
  induction k generalizing x l with
  | zero => exact ⟨nofun, fun ⟨_, small, _⟩ => absurd small (Nat.not_lt_zero _)⟩
  | succ k ih =>
    rw [ringFromIn]
    by_cases here : t.npeer x = m
    · rw [if_pos here, Option.some.injEq]
      constructor
      · rintro rfl
        exact ⟨0, Nat.succ_pos k, rfl, here, nofun⟩
      · rintro ⟨n, _, rfl, _, early⟩
        obtain rfl : n = 0 := by
          by_contra more
          exact early 0 (Nat.pos_of_ne_zero more) here
        rfl
    · rw [if_neg here]
      simp only [Option.pure_def, Option.bind_eq_bind, Option.bind_eq_some_iff, Option.some.injEq, ih]
      constructor
      · rintro ⟨_, ⟨n, small, rfl, back, early⟩, rfl⟩
        refine ⟨n + 1, Nat.succ_lt_succ small, ?_, back, fun i less => ?_⟩
        · rw [List.range_succ_eq_map (n := n + 1), List.map_cons, List.map_map]
          rfl
        · cases i with
          | zero => exact here
          | succ i => exact early i (Nat.lt_of_succ_lt_succ less)
      · rintro ⟨n, small, rfl, back, early⟩
        cases n with
        | zero => exact absurd back here
        | succ n =>
          refine ⟨_, ⟨n, Nat.lt_of_succ_lt_succ small, rfl, back, fun i less => early (i + 1) (Nat.succ_lt_succ less)⟩, ?_⟩
          rw [List.range_succ_eq_map (n := n + 1), List.map_cons, List.map_map]
          rfl

omit [DecidableEq M] in
theorem iterate_of_around {f : M → M} {a b : M} (round : Around f a b) : ∃ i, f^[i] a = b := by
  induction round with
  | refl => exact ⟨0, rfl⟩
  | tail _ step ih =>
    obtain ⟨i, same⟩ := ih
    exact ⟨i + 1, by rw [Function.iterate_succ_apply', same, step]⟩

omit [DecidableEq M] in
theorem around_iterate (f : M → M) (a : M) (i : ℕ) : Around f a (f^[i] a) := by
  induction i with
  | zero => exact .refl
  | succ i ih =>
    rw [Function.iterate_succ_apply']
    exact ih.tail rfl

section OfRings

variable (wf : L.WF) (quiet : t.Quiet) (ring : t.RingOK L)

include wf quiet ring

theorem RingOK.around (shared : t.gid m ≠ 0) (same : t.gid m = t.gid x) : Around t.npeer m x := by
  have dead : ∀ y, t.alive y = false → t.gid y = 0 := fun y gone => (quiet _ gone).1.gid
  have alive : t.alive m = true := by
    by_contra gone
    exact shared (dead m (by simpa using gone))
  obtain ⟨-, l, run, all⟩ := ring m ((mem_live wf).mpr alive)
  obtain ⟨n, -, rfl, -⟩ := ringFromIn_some.mp run
  have inside : x ∈ t.peerGroup L m := (mem_peerGroup wf dead).mpr (.inr ⟨shared, same.symm⟩)
  rw [← all, List.mem_toFinset, List.mem_map] at inside
  obtain ⟨i, -, rfl⟩ := inside
  exact around_iterate ..

theorem RingOK.next_gid (m : M) : t.gid (t.npeer m) = t.gid m ∧ (t.gid m = 0 → t.npeer m = m) := by
  have dead : ∀ y, t.alive y = false → t.gid y = 0 := fun y gone => (quiet _ gone).1.gid
  by_cases alive : t.alive m = true
  · obtain ⟨-, l, run, all⟩ := ring m ((mem_live wf).mpr alive)
    obtain ⟨n, -, rfl, back, -⟩ := ringFromIn_some.mp run
    have inside : t.npeer m ∈ t.peerGroup L m := by
      rw [← all, List.mem_toFinset, List.mem_map]
      cases n with
      | zero => exact ⟨0, by simp, back.symm⟩
      | succ n => exact ⟨1, by simp, rfl⟩
    rcases (mem_peerGroup wf dead).mp inside with same | ⟨shared, same⟩
    · exact ⟨by rw [same], fun _ => same⟩
    · exact ⟨same, fun zero => absurd zero shared⟩
  · have self := (quiet m (by simpa using alive)).2
    exact ⟨by rw [self], fun _ => self⟩

theorem RingOK.rings : Rings t.npeer t.gid := by
  have periodic : ∀ m, m ∈ Function.periodicPts t.npeer := by
    intro m
    by_cases alive : t.alive m = true
    · obtain ⟨-, l, run, -⟩ := ring m ((mem_live wf).mpr alive)
      obtain ⟨n, -, -, back, -⟩ := ringFromIn_some.mp run
      exact ⟨n + 1, Nat.succ_pos n, back⟩
    · exact ⟨1, Nat.one_pos, (quiet m (by simpa using alive)).2⟩
  refine ⟨fun a b same => ?_, fun a => (ring.next_gid wf quiet a).1, fun a => (ring.next_gid wf quiet a).2,
    fun a b => ring.around wf quiet⟩
  exact (Function.bijOn_periodicPts t.npeer).injOn (periodic a) (periodic b) same

end OfRings

/-- A ring of the table comes back before it has more members than there are mounts. -/
theorem ring_total (wf : L.WF) (rings : Rings t.npeer t.gid) (m : M) :
    ∃ l, t.ring L m = some l ∧ ∀ x, x ∈ l ↔ Around t.npeer m x := by
  have finite : Finite M := Set.finite_univ_iff.mp ((List.finite_toSet L.mntIds).subset fun y _ => wf.mnts y)
  have periodic := rings.inj.mem_periodicPts m
  set p := Function.minimalPeriod t.npeer m with period
  have positive : 0 < p := Function.minimalPeriod_pos_of_mem_periodicPts periodic
  have back : t.npeer^[p] m = m := Function.iterate_minimalPeriod
  have small : p ≤ L.mntIds.length := by
    have inj : Set.InjOn (fun i => t.npeer^[i] m) (Finset.range p : Set ℕ) := by
      intro i i_small j j_small same
      rw [Finset.coe_range] at i_small j_small
      exact Function.iterate_injOn_Iio_minimalPeriod i_small j_small same
    have card := Finset.card_le_card_of_injOn (t := L.mntIds.toFinset) _ (fun i _ => by simpa using wf.mnts _) inj
    rw [Finset.card_range] at card
    exact card.trans (List.toFinset_card_le _)
  refine ⟨(List.range (p - 1 + 1)).map fun i => t.npeer^[i] m, ?_, fun x => ?_⟩
  · refine ringFromIn_some.mpr ⟨p - 1, ?_, rfl, ?_, fun i less same => ?_⟩
    · rw [Layout.fuel]
      omega
    · rw [Nat.sub_add_cancel positive, back]
    · have := Function.IsPeriodicPt.minimalPeriod_le (Nat.succ_pos i) same
      omega
  · rw [Nat.sub_add_cancel positive, List.mem_map]
    constructor
    · rintro ⟨i, -, rfl⟩
      exact around_iterate ..
    · intro round
      obtain ⟨i, rfl⟩ := iterate_of_around round
      exact ⟨i % p, List.mem_range.mpr (Nat.mod_lt i positive), Function.iterate_mod_minimalPeriod_eq⟩

/-! ### Levels -/

theorem levels_of_acyclic (wf : L.WF) (acyclic : ∀ m, ¬ ClimbsUp t.master m m)
    (together : ∀ a b, t.gid a ≠ 0 → t.gid a = t.gid b → t.master a = t.master b) : ∃ level, t.graph.Levels level := by
  classical
  let above x := L.mntIds.toFinset.filter fun y => ClimbsUp t.master x y
  have mem_above {x y : M} : y ∈ above x ↔ ClimbsUp t.master x y := by
    rw [Finset.mem_filter, List.mem_toFinset]
    exact and_iff_right (wf.mnts y)
  refine ⟨fun x => (above x).card, fun x y master => ?_, fun a b shared same => ?_⟩
  · refine Finset.card_lt_card (Finset.ssubset_iff.mpr ⟨y, fun mem => acyclic y (mem_above.mp mem), fun z mem => ?_⟩)
    rw [mem_above]
    rcases Finset.mem_insert.mp mem with rfl | mem
    · exact .single master
    · exact .head master (mem_above.mp mem)
  · have same' := together a b shared same
    have heads (z : M) : ClimbsUp t.master a z ↔ ClimbsUp t.master b z := by
      unfold ClimbsUp
      rw [Relation.TransGen.head'_iff, Relation.TransGen.head'_iff, same']
    exact congrArg Finset.card (Finset.filter_congr fun z _ => heads z)

/-! ### The peer graph -/

/-- The shared, peer and slave parts of `StructureOK` and acyclic masters make a peer graph. -/
theorem sound_of_parts (wf : L.WF) (quiet : t.Quiet) (shared : t.SharedOK L) (ring : t.RingOK L)
    (slaves : t.SlavesOK L) (acyclic : t.MastersAcyclic L) : t.graph.Sound := by
  have dead : ∀ y, t.alive y = false → t.gid y = 0 := fun y gone => (quiet _ gone).1.gid
  have alive_of_gid {a : M} (group : t.gid a ≠ 0) : t.alive a = true := by
    by_contra gone
    exact group (dead a (by simpa using gone))
  have alive_of_master {a y : M} (master : t.master a = some y) : t.alive a = true := by
    by_contra gone
    have := (quiet _ (by simpa using gone)).1.master
    rw [graph_master, master] at this
    cases this
  have at_live {a : M} (alive : t.alive a = true) := slaves a ((mem_live wf).mpr alive)
  have together : ∀ a b, t.gid a ≠ 0 → t.gid a = t.gid b → t.master a = t.master b := by
    intro a b group same
    obtain ⟨-, -, -, -, peers, -⟩ := at_live (alive_of_gid group)
    exact (peers b ((mem_peerGroup wf dead).mpr (.inr ⟨group, same.symm⟩))).symm
  have listed (x y : M) : x ∈ t.slaves y ↔ t.master x = some y := by
    by_cases alive : t.alive y = true
    · rw [(at_live alive).1 x, mem_live wf]
      exact ⟨fun both => both.2, fun master => ⟨alive_of_master master, master⟩⟩
    · have none := (quiet _ (by simpa using alive)).1.slaves
      rw [graph_slaves] at none
      rw [none]
      refine ⟨nofun, fun master => ?_⟩
      obtain ⟨-, -, -, live, -⟩ := at_live (alive_of_master master)
      exact absurd (live y master) alive
  constructor
  case rings => exact ring.rings wf quiet
  case mem_slaves => exact listed
  case nodup =>
    intro y
    by_cases alive : t.alive y = true
    · exact (at_live alive).2.1
    · rw [(quiet _ (by simpa using alive)).1.slaves]
      exact List.nodup_nil
  case owner =>
    intro x y master
    obtain ⟨-, -, -, live, -⟩ := at_live (alive_of_master master)
    have alive := live y master
    refine (shared y ((mem_live wf).mpr alive)).mp ((at_live alive).2.2.1 fun empty => ?_)
    have mem := (listed x y).mpr master
    rw [empty] at mem
    cases mem
  case one_master => exact together
  case segment =>
    intro y a b c sub group same
    have master := (listed a y).mp (sub.subset List.mem_cons_self)
    obtain ⟨-, -, -, -, -, segment⟩ := at_live (alive_of_gid group)
    have inside := segment y master group a b c sub ((mem_peerGroup wf dead).mpr (.inl rfl))
      ((mem_peerGroup wf dead).mpr (.inr ⟨group, same.symm⟩))
    rcases (mem_peerGroup wf dead).mp inside with rfl | ⟨-, same'⟩
    · rfl
    · exact same'
  case levels =>
    refine levels_of_acyclic wf (fun m climbs => ?_) together
    obtain ⟨y, master, -⟩ := Relation.TransGen.head'_iff.mp climbs
    exact acyclic m ((mem_live wf).mpr (alive_of_master master)) climbs

/-- A peer graph makes the shared, peer and slave parts of `StructureOK`. -/
theorem parts_of_sound (wf : L.WF) (sound : t.graph.Sound) (dead : ∀ y, t.alive y = false → t.gid y = 0 ∧ t.master y = none)
    (typed : ∀ y, t.alive y = true → (t.shared y = true ↔ t.gid y ≠ 0)) : t.SharedOK L ∧ t.RingOK L ∧ t.SlavesOK L := by
  have dead' : ∀ y, t.alive y = false → t.gid y = 0 := fun y gone => (dead y gone).1
  have alive_of_gid {a : M} (group : t.gid a ≠ 0) : t.alive a = true := by
    by_contra gone
    exact group (dead' a (by simpa using gone))
  have alive_of_master {a y : M} (master : t.master a = some y) : t.alive a = true := by
    by_contra gone
    rw [(dead a (by simpa using gone)).2] at master
    cases master
  refine ⟨fun m live => typed m ((mem_live wf).mp live), fun m live => ⟨?_, ?_⟩, fun m live => ⟨fun n => ?_, sound.nodup m,
    fun some => ?_, fun x master => alive_of_gid (sound.owner m x master), fun n peer => ?_, ?_⟩⟩
  · rw [mem_live wf]
    by_cases group : t.gid m = 0
    · have self : t.npeer m = m := sound.rings.alone m group
      rw [self]
      exact (mem_live wf).mp live
    · have same : t.gid (t.npeer m) = t.gid m := sound.rings.gid_next m
      exact alive_of_gid (same.symm ▸ group)
  · obtain ⟨l, run, all⟩ := ring_total wf sound.rings m
    refine ⟨l, run, ?_⟩
    ext x
    rw [List.mem_toFinset, all, mem_peerGroup wf dead']
    constructor
    · intro round
      by_cases group : t.gid m = 0
      · exact .inl (round.self (sound.rings.alone m group))
      · exact .inr ⟨group, sound.rings.same_gid round⟩
    · rintro (rfl | ⟨group, same⟩)
      · exact .refl
      · exact sound.rings.around m x group same.symm
  · rw [show n ∈ t.slaves m ↔ t.master n = some m from sound.mem_slaves n m, mem_live wf]
    exact ⟨fun master => ⟨alive_of_master master, master⟩, fun both => both.2⟩
  · obtain ⟨x, mem⟩ := List.exists_mem_of_ne_nil _ some
    rw [typed m ((mem_live wf).mp live)]
    exact sound.owner x m ((sound.mem_slaves x m).mp mem)
  · rcases (mem_peerGroup wf dead').mp peer with rfl | ⟨group, same⟩
    · rfl
    · exact (sound.one_master m n group same.symm).symm
  · intro x _ group a b c sub first last
    have in_group {y : M} (peer : y ∈ t.peerGroup L m) : t.gid y = t.gid m := by
      rcases (mem_peerGroup wf dead').mp peer with rfl | ⟨_, same⟩
      · rfl
      · exact same
    have between := sound.segment x a b c sub (fun zero => group ((in_group first).symm.trans zero))
      ((in_group first).trans (in_group last).symm)
    exact (mem_peerGroup wf dead').mpr (.inr ⟨group, between.trans (in_group first)⟩)

end Table

/-! ### One dentry -/

/-- `n` mounts of one dentry, with both fixes. -/
def plain (n : ℕ) : Layout (Fin n) Unit Unit where
  mntIds := List.finRange n
  dentries := [()]
  dSb _ := ()
  dParent _ := ()
  sbRoot _ := ()
  someSb := ()
  chooseMnt := List.head?
  fixCloneUnbindable := true
  fixSetGroupUnbindable := true

theorem plain_wf (n : ℕ) : (plain n).WF where
  mnts := List.mem_finRange
  chooseMnt _ _ := List.mem_of_mem_head?
  chooseMnt_some l some := ⟨l.head some, List.head?_eq_some_head some⟩

end LinuxTla.Mount
