import LinuxTla.Mount.Structure

/-! `RecvSet`: the closure reaches everything that receives, and nothing else. -/

namespace LinuxTla.Mount.Table

open Lib

variable {M N D S : Type} [DecidableEq M] {L : Layout M D S}
  {t : Table M N D S} {m x : M}

/-- A free slot is in no group and has no master. -/
def Idle (t : Table M N D S) : Prop := ∀ y, t.alive y = false → t.gid y = 0 ∧ t.master y = none

omit [DecidableEq M] in
theorem Quiet.idle (quiet : t.Quiet) : t.Idle := fun m gone => ⟨(quiet m gone).1.gid, (quiet m gone).1.master⟩

section Closure

variable {k : ℕ} {s : Finset M}

theorem subset_recvClosureIn : s ⊆ t.recvClosureIn L k s := by
  induction k generalizing s with
  | zero => exact subset_rfl
  | succ k ih =>
    rw [recvClosureIn]
    split
    · exact subset_rfl
    · exact (Finset.subset_union_left.trans Finset.subset_union_left).trans ih

theorem recvClosureIn_closed (wf : L.WF) (room : L.mntIds.length < s.card + k) :
    ∀ y ∈ t.recvClosureIn L k s, t.peerGroup L y ⊆ t.recvClosureIn L k s ∧ t.slavesOfGroup L y ⊆ t.recvClosureIn L k s := by
  induction k generalizing s with
  | zero =>
    have all : s ⊆ L.mntIds.toFinset := fun y _ => List.mem_toFinset.mpr (wf.mnts y)
    have := (Finset.card_le_card all).trans (List.toFinset_card_le _)
    omega
  | succ k ih =>
    rw [recvClosureIn]
    split
    · rename_i same
      intro y mem
      rw [← same]
      refine ⟨?_, ?_⟩
      · exact (Finset.subset_biUnion_of_mem (t.peerGroup L) mem).trans
          (Finset.subset_union_right.trans Finset.subset_union_left)
      · exact (Finset.subset_biUnion_of_mem (t.slavesOfGroup L) mem).trans Finset.subset_union_right
    · rename_i grows
      apply ih
      have more : s ⊂ s ∪ s.biUnion (t.peerGroup L) ∪ s.biUnion (t.slavesOfGroup L) :=
        (Finset.subset_union_left.trans Finset.subset_union_left).ssubset_of_ne fun same => grows same.symm
      have := Finset.card_lt_card more
      omega

theorem recvClosureIn_least {P : M → Prop} (base : ∀ y ∈ s, P y)
    (closed : ∀ y, P y → (∀ z ∈ t.peerGroup L y, P z) ∧ ∀ z ∈ t.slavesOfGroup L y, P z) :
    ∀ y ∈ t.recvClosureIn L k s, P y := by
  induction k generalizing s with
  | zero => exact base
  | succ k ih =>
    rw [recvClosureIn]
    split
    · exact base
    · refine ih fun y mem => ?_
      rw [Finset.mem_union, Finset.mem_union, Finset.mem_biUnion, Finset.mem_biUnion] at mem
      rcases mem with (mem | ⟨z, inside, mem⟩) | ⟨z, inside, mem⟩
      · exact base y mem
      · exact (closed z (base z inside)).1 y mem
      · exact (closed z (base z inside)).2 y mem

end Closure

theorem mem_slavesOfGroup (wf : L.WF) (idle : t.Idle) :
    x ∈ t.slavesOfGroup L m ↔ ∃ y ∈ t.peerGroup L m, t.master x = some y := by
  rw [slavesOfGroup, List.mem_toFinset, List.mem_filter, decide_eq_true_eq, mem_live wf]
  refine and_iff_right_of_imp fun ⟨y, _, master⟩ => ?_
  by_contra gone
  rw [(idle x (by simpa using gone)).2] at master
  cases master

/-- The closure from a live mount is everything that receives from it. -/
theorem mem_recvSet (wf : L.WF) (sound : t.graph.Sound) (idle : t.Idle) :
    x ∈ t.recvSet L m ↔ x ≠ m ∧ t.graph.Receives m x := by
  have dead : ∀ y, t.alive y = false → t.gid y = 0 := fun y gone => (idle y gone).1
  rw [recvSet, Finset.mem_erase]
  apply and_congr_right'
  refine ⟨?_, fun receives => ?_⟩
  · refine recvClosureIn_least (fun y mem => ?_) (fun y receives => ?_) x
    · rw [Finset.mem_singleton.mp mem]
      exact .self
    · have beside {z : M} (peer : z ∈ t.peerGroup L y) : t.graph.Receives m z := by
        rcases (mem_peerGroup wf dead).mp peer with rfl | ⟨shared, same⟩
        · exact receives
        · exact receives.peers sound shared same
      refine ⟨fun z => beside, fun z slave => ?_⟩
      obtain ⟨w, peer, master⟩ := (mem_slavesOfGroup wf idle).mp slave
      exact .slave master (beside peer)
  · have closed := recvClosureIn_closed (t := t) (k := L.fuel) (s := {m}) wf
      (by rw [Finset.card_singleton, Layout.fuel]; omega)
    have self (y : M) : y ∈ t.peerGroup L y := (mem_peerGroup wf dead).mpr (.inl rfl)
    have start : m ∈ t.recvClosureIn L L.fuel {m} := subset_recvClosureIn (Finset.mem_singleton_self m)
    induction receives with
    | self => exact start
    | peer shared same => exact (closed m start).1 ((mem_peerGroup wf dead).mpr (.inr ⟨fun zero => shared (same.symm.trans zero), same.symm⟩))
    | slave master _ ih => exact (closed _ ih).2 ((mem_slavesOfGroup wf idle).mpr ⟨_, self _, master⟩)

end LinuxTla.Mount.Table
