import LinuxTla.Mount.Receivers

/-! What a free slot holds is never read: tables that agree on the live mounts have the
same groups, rings and receivers, and a table agrees with its copy whose free slots are blank. -/

namespace LinuxTla.Mount.Table

variable {M N D S : Type}

/-- The propagation side of a live mount names live mounts. -/
structure Closed (t : Table M N D S) : Prop where
  npeer : ∀ m, t.alive m = true → t.alive (t.npeer m) = true
  master : ∀ m x, t.alive m = true → t.master m = some x → t.alive x = true
  slaves : ∀ m, t.alive m = true → ∀ x ∈ t.slaves m, t.alive x = true

/-- The tables differ in their free slots at most. -/
structure Agree (t u : Table M N D S) : Prop where
  alive : u.alive = t.alive
  ns : u.ns = t.ns
  umount : u.umount = t.umount
  shared : u.shared = t.shared
  gid : ∀ m, t.alive m = true → u.gid m = t.gid m
  marked : u.marked = t.marked
  master : ∀ m, t.alive m = true → u.master m = t.master m
  npeer : ∀ m, t.alive m = true → u.npeer m = t.npeer m
  slaves : ∀ m, t.alive m = true → u.slaves m = t.slaves m

/-- The free slots are in no group and on no list. -/
@[simps -fullyApplied] def blank (t : Table M N D S) : Table M N D S :=
  { t with
    gid := fun m => if t.alive m then t.gid m else 0
    master := fun m => if t.alive m then t.master m else none
    npeer := fun m => if t.alive m then t.npeer m else m
    slaves := fun m => if t.alive m then t.slaves m else [] }

variable {L : Layout M D S} {t u : Table M N D S} {m x : M}

theorem agree_blank (t : Table M N D S) : Agree t t.blank where
  alive := rfl
  ns := rfl
  umount := rfl
  shared := rfl
  gid _ alive := if_pos alive
  marked := rfl
  master _ alive := if_pos alive
  npeer _ alive := if_pos alive
  slaves _ alive := if_pos alive

theorem blank_quiet (t : Table M N D S) : t.blank.Quiet := by
  intro m dead
  have free : ¬ t.alive m = true := by simpa using dead
  exact ⟨⟨if_neg free, if_neg free, if_neg free⟩, if_neg free⟩

theorem Agree.live (agree : Agree t u) : u.live L = t.live L := by rw [Table.live, Table.live, agree.alive]

theorem Agree.closed (agree : Agree t u) (closed : t.Closed) : u.Closed := by
  constructor <;> rw [agree.alive]
  · intro m alive
    rw [agree.npeer m alive]
    exact closed.npeer m alive
  · intro m x alive
    rw [agree.master m alive]
    exact closed.master m x alive
  · intro m alive
    rw [agree.slaves m alive]
    exact closed.slaves m alive

theorem Agree.sharedOK (wf : L.WF) (agree : Agree t u) (shared : t.SharedOK L) : u.SharedOK L := by
  intro m live
  rw [agree.live] at live
  rw [agree.shared, agree.gid m ((mem_live wf).mp live)]
  exact shared m live

theorem Agree.mastersAcyclic (wf : L.WF) (agree : Agree t u) (closed : t.Closed) (acyclic : t.MastersAcyclic L) :
    u.MastersAcyclic L := by
  intro m live climbs
  rw [agree.live] at live
  have back {x y : M} (climbs : Lib.ClimbsUp u.master x y) (alive : t.alive x = true) : Lib.ClimbsUp t.master x y := by
    induction climbs using Relation.TransGen.head_induction_on with
    | single master => exact .single ((agree.master _ alive).symm.trans master)
    | head master _ ih =>
      have above := (agree.master _ alive).symm.trans master
      exact .head above (ih (closed.master _ _ alive above))
  exact acyclic m live (back climbs ((mem_live wf).mp live))

variable [DecidableEq M]

theorem closed_of_parts (wf : L.WF) (ring : t.RingOK L) (slaves : t.SlavesOK L) : t.Closed where
  npeer m alive := (mem_live wf).mp (ring m ((mem_live wf).mpr alive)).1
  master m x alive := (slaves m ((mem_live wf).mpr alive)).2.2.2.1 x
  slaves m alive x mem := (mem_live wf).mp (((slaves m ((mem_live wf).mpr alive)).1 x).mp mem).1

/-! ### Groups and rings -/

theorem Agree.peerGroup (wf : L.WF) (agree : Agree t u) (alive : t.alive m = true) : u.peerGroup L m = t.peerGroup L m := by
  rw [Table.peerGroup, Table.peerGroup, agree.gid m alive, agree.live]
  have same : (t.live L).filter (fun x => u.gid x = t.gid m) = (t.live L).filter fun x => t.gid x = t.gid m :=
    List.filter_congr fun x mem => by rw [agree.gid x ((mem_live wf).mp mem)]
  rw [same]

theorem alive_of_mem_peerGroup (wf : L.WF) (alive : t.alive m = true) (mem : x ∈ t.peerGroup L m) : t.alive x = true := by
  rw [Table.peerGroup] at mem
  split at mem
  · rwa [Finset.mem_singleton.mp mem]
  · exact (mem_live wf).mp (List.mem_filter.mp (List.mem_toFinset.mp mem)).1

theorem Agree.slavesOfGroup (wf : L.WF) (agree : Agree t u) (alive : t.alive m = true) :
    u.slavesOfGroup L m = t.slavesOfGroup L m := by
  rw [Table.slavesOfGroup, Table.slavesOfGroup, agree.live, agree.peerGroup wf alive]
  refine congrArg List.toFinset (List.filter_congr fun x mem => ?_)
  rw [agree.master x ((mem_live wf).mp mem)]

theorem alive_of_mem_slavesOfGroup (wf : L.WF) (mem : x ∈ t.slavesOfGroup L m) : t.alive x = true :=
  (mem_live wf).mp (List.mem_filter.mp (List.mem_toFinset.mp mem)).1

theorem Agree.recvClosureIn (wf : L.WF) (agree : Agree t u) {k : ℕ} {s : Finset M} (alive : ∀ y ∈ s, t.alive y = true) :
    u.recvClosureIn L k s = t.recvClosureIn L k s := by
  induction k generalizing s with
  | zero => rfl
  | succ k ih =>
    have peers : s.biUnion (u.peerGroup L) = s.biUnion (t.peerGroup L) :=
      Finset.biUnion_congr rfl fun y mem => agree.peerGroup wf (alive y mem)
    have slaves : s.biUnion (u.slavesOfGroup L) = s.biUnion (t.slavesOfGroup L) :=
      Finset.biUnion_congr rfl fun y mem => agree.slavesOfGroup wf (alive y mem)
    rw [Table.recvClosureIn, Table.recvClosureIn, peers, slaves]
    split_ifs
    · rfl
    · refine ih fun y mem => ?_
      rw [Finset.mem_union, Finset.mem_union, Finset.mem_biUnion, Finset.mem_biUnion] at mem
      rcases mem with (mem | ⟨z, inside, mem⟩) | ⟨z, -, mem⟩
      · exact alive y mem
      · exact alive_of_mem_peerGroup wf (alive z inside) mem
      · exact alive_of_mem_slavesOfGroup wf mem

theorem Agree.recvSet (wf : L.WF) (agree : Agree t u) (alive : t.alive m = true) : u.recvSet L m = t.recvSet L m := by
  rw [Table.recvSet, Table.recvSet, agree.recvClosureIn wf fun y mem => (Finset.mem_singleton.mp mem) ▸ alive]

theorem alive_of_mem_recvSet (wf : L.WF) (alive : t.alive m = true) (mem : x ∈ t.recvSet L m) : t.alive x = true := by
  refine recvClosureIn_least (P := fun y => t.alive y = true) (fun y self => ?_) (fun y alive => ?_) x (Finset.mem_of_mem_erase mem)
  · rwa [Finset.mem_singleton.mp self]
  · exact ⟨fun z => alive_of_mem_peerGroup wf alive, fun z => alive_of_mem_slavesOfGroup wf⟩

theorem Agree.ringFromIn (agree : Agree t u) (closed : t.Closed) {k : ℕ} (alive : t.alive x = true) :
    u.ringFromIn m k x = t.ringFromIn m k x := by
  induction k generalizing x with
  | zero => rfl
  | succ k ih => rw [Table.ringFromIn, Table.ringFromIn, agree.npeer x alive, ih (closed.npeer x alive)]

/-! ### The parts of `StructureOK` -/

theorem Agree.ringOK (wf : L.WF) (agree : Agree t u) (closed : t.Closed) (ring : t.RingOK L) : u.RingOK L := by
  intro m live
  rw [agree.live] at live ⊢
  have alive := (mem_live wf).mp live
  rw [agree.npeer m alive, agree.peerGroup wf alive, Table.ring, agree.ringFromIn closed alive]
  exact ring m live

theorem Agree.slavesOK (wf : L.WF) (agree : Agree t u) (closed : t.Closed) (slaves : t.SlavesOK L) : u.SlavesOK L := by
  intro m live
  rw [agree.live] at live
  have alive := (mem_live wf).mp live
  obtain ⟨listed, nodup, owner, master, peers, segment⟩ := slaves m live
  rw [agree.slaves m alive, agree.peerGroup wf alive, agree.master m alive, agree.gid m alive, agree.shared, agree.alive,
    agree.live]
  refine ⟨fun n => (listed n).trans (and_congr_right fun live' => ?_), nodup, owner, master, fun n mem => ?_,
    fun x above group a b c sub => ?_⟩
  · rw [agree.master n ((mem_live wf).mp live')]
  · rw [agree.master n (alive_of_mem_peerGroup wf alive mem)]
    exact peers n mem
  · rw [agree.slaves x (closed.master m x alive above)] at sub
    exact segment x above group a b c sub

/-! ### The operations of bulk_make_private() -/

omit [DecidableEq M] in
theorem Agree.symm (agree : Agree t u) : Agree u t where
  alive := agree.alive.symm
  ns := agree.ns.symm
  umount := agree.umount.symm
  shared := agree.shared.symm
  marked := agree.marked.symm
  gid m alive := (agree.gid m (agree.alive ▸ alive)).symm
  master m alive := (agree.master m (agree.alive ▸ alive)).symm
  npeer m alive := (agree.npeer m (agree.alive ▸ alive)).symm
  slaves m alive := (agree.slaves m (agree.alive ▸ alive)).symm

/-- Two tables with the live mounts `a` that differ in their free slots at most. -/
structure Twin (a : M → Bool) (t u : Table M N D S) : Prop where
  alive : t.alive = a
  agree : Agree t u
  closed : t.Closed

section Twins

variable {a : M → Bool} {t' u' : Table M N D S} {dest : Option M}

omit [DecidableEq M] in
theorem Twin.of_agree (agree : Agree t u) (closed : t.Closed) : Twin t.alive t u := ⟨rfl, agree, closed⟩

omit [DecidableEq M] in
theorem Twin.symm (twin : Twin a t u) : Twin a u t :=
  ⟨twin.agree.alive.trans twin.alive, twin.agree.symm, twin.agree.closed twin.closed⟩

omit [DecidableEq M] in
theorem Twin.gid (twin : Twin a t u) (alive : a m = true) : u.gid m = t.gid m :=
  twin.agree.gid m (twin.alive ▸ alive)

omit [DecidableEq M] in
theorem Twin.npeer (twin : Twin a t u) (alive : a m = true) : u.npeer m = t.npeer m ∧ a (t.npeer m) = true := by
  rw [← twin.alive] at alive ⊢
  exact ⟨twin.agree.npeer m alive, twin.closed.npeer m alive⟩

omit [DecidableEq M] in
theorem Twin.master (twin : Twin a t u) (alive : a m = true) :
    u.master m = t.master m ∧ ∀ x ∈ t.master m, a x = true := by
  rw [← twin.alive] at alive ⊢
  exact ⟨twin.agree.master m alive, fun x => twin.closed.master m x alive⟩

omit [DecidableEq M] in
theorem Twin.slaves (twin : Twin a t u) (alive : a m = true) :
    u.slaves m = t.slaves m ∧ ∀ x ∈ t.slaves m, a x = true := by
  rw [← twin.alive] at alive ⊢
  exact ⟨twin.agree.slaves m alive, twin.closed.slaves m alive⟩

omit [DecidableEq M] in
/-- Twins stay twins when the propagation side of the live mounts changes in the same way. -/
theorem Twin.put (twin : Twin a t u) (left : t'.alive = t.alive ∧ t'.ns = t.ns ∧ t'.umount = t.umount)
    (right : u'.alive = u.alive ∧ u'.ns = u.ns ∧ u'.umount = u.umount) (shared : u'.shared = t'.shared)
    (marked : u'.marked = t'.marked) (gid : ∀ m, a m = true → u'.gid m = t'.gid m)
    (master : ∀ m, a m = true → u'.master m = t'.master m ∧ ∀ x ∈ t'.master m, a x = true)
    (npeer : ∀ m, a m = true → u'.npeer m = t'.npeer m ∧ a (t'.npeer m) = true)
    (slaves : ∀ m, a m = true → u'.slaves m = t'.slaves m ∧ ∀ x ∈ t'.slaves m, a x = true) : Twin a t' u' := by
  have alive := left.1.trans twin.alive
  have agree := twin.agree
  subst alive
  exact ⟨rfl, ⟨right.1.trans (agree.alive.trans left.1.symm), right.2.1.trans (agree.ns.trans left.2.1.symm),
      right.2.2.trans (agree.umount.trans left.2.2.symm), shared, gid, marked, fun m alive => (master m alive).1,
      fun m alive => (npeer m alive).1, fun m alive => (slaves m alive).1⟩,
    ⟨fun m alive => (npeer m alive).2, fun m x alive => (master m alive).2 x, fun m alive => (slaves m alive).2⟩⟩

variable (twin : Twin a t u)

include twin

theorem Twin.setGid (m : M) (g : ℕ) : Twin a (t.setGid m g) (u.setGid m g) := by
  refine twin.put ⟨rfl, rfl, rfl⟩ ⟨rfl, rfl, rfl⟩ twin.agree.shared twin.agree.marked (fun y alive => ?_)
    (fun _ => twin.master) (fun _ => twin.npeer) fun _ => twin.slaves
  rw [setGid_gid, setGid_gid, Function.update_apply, Function.update_apply, twin.gid alive]

theorem Twin.setShared (m : M) (b : Bool) : Twin a (t.setShared m b) (u.setShared m b) :=
  twin.put ⟨rfl, rfl, rfl⟩ ⟨rfl, rfl, rfl⟩ (congrArg (fun f : M → Bool => Function.update f m b) twin.agree.shared) twin.agree.marked
    (fun _ => twin.gid) (fun _ => twin.master) (fun _ => twin.npeer) fun _ => twin.slaves

theorem Twin.setMarked (m : M) (b : Bool) : Twin a (t.setMarked m b) (u.setMarked m b) :=
  twin.put ⟨rfl, rfl, rfl⟩ ⟨rfl, rfl, rfl⟩ twin.agree.shared (congrArg (fun f : M → Bool => Function.update f m b) twin.agree.marked)
    (fun _ => twin.gid) (fun _ => twin.master) (fun _ => twin.npeer) fun _ => twin.slaves

theorem Twin.setMaster (m : M) (there : ∀ x ∈ dest, a x = true) : Twin a (t.setMaster m dest) (u.setMaster m dest) := by
  refine twin.put ⟨rfl, rfl, rfl⟩ ⟨rfl, rfl, rfl⟩ twin.agree.shared twin.agree.marked (fun _ => twin.gid)
    (fun y alive => ?_) (fun _ => twin.npeer) fun _ => twin.slaves
  rw [setMaster_master, setMaster_master, Function.update_apply, Function.update_apply]
  split
  · exact ⟨rfl, there⟩
  · exact twin.master alive

theorem Twin.setNpeer (m : M) (there : a x = true) : Twin a (t.setNpeer m x) (u.setNpeer m x) := by
  refine twin.put ⟨rfl, rfl, rfl⟩ ⟨rfl, rfl, rfl⟩ twin.agree.shared twin.agree.marked (fun _ => twin.gid)
    (fun _ => twin.master) (fun y alive => ?_) fun _ => twin.slaves
  rw [setNpeer_npeer, setNpeer_npeer, Function.update_apply, Function.update_apply]
  split
  · exact ⟨rfl, there⟩
  · exact twin.npeer alive

theorem Twin.slaveDel (m : M) : Twin a (t.slaveDel m) (u.slaveDel m) := by
  refine twin.put ⟨rfl, rfl, rfl⟩ ⟨rfl, rfl, rfl⟩ twin.agree.shared twin.agree.marked (fun _ => twin.gid)
    (fun _ => twin.master) (fun _ => twin.npeer) fun y alive => ?_
  obtain ⟨same, there⟩ := twin.slaves alive
  exact ⟨congrArg (seqDel · m) same, fun x mem => there x (List.mem_filter.mp mem).1⟩

theorem Twin.transferPropagation (alive : a m = true) (there : ∀ x ∈ dest, a x = true) :
    Twin a (t.transferPropagation m dest) (u.transferPropagation m dest) := by
  obtain ⟨same, given⟩ := twin.slaves alive
  refine twin.put ⟨rfl, rfl, rfl⟩ ⟨rfl, rfl, rfl⟩ twin.agree.shared twin.agree.marked (fun _ => twin.gid)
    (fun y alive => ?_) (fun _ => twin.npeer) fun y alive => ?_
  · rw [transferPropagation_master, transferPropagation_master, same, setOn, setOn]
    split
    · exact ⟨rfl, there⟩
    · exact twin.master alive
  · obtain ⟨same', given'⟩ := twin.slaves alive
    rw [transferPropagation_slaves, transferPropagation_slaves]
    dsimp only
    rw [same, same']
    refine ⟨rfl, fun x mem => ?_⟩
    have rest : x ∈ (if y = m then [] else t.slaves y) → a x = true := fun mem => by
      split at mem
      · cases mem
      · exact given' x mem
    split at mem
    · exact (List.mem_append.mp mem).elim (given x) rest
    · exact rest mem

theorem Twin.ringRemove (wf : L.WF) (alive : a m = true) (run : u.ringRemove L m = some u') :
    ∃ t', t.ringRemove L m = some t' ∧ Twin a t' u' := by
  obtain ⟨prev, found, same⟩ := Option.bind_eq_some_iff.mp run
  cases same
  have listed : (u.live L).filter (fun x => u.npeer x = m) = (t.live L).filter fun x => t.npeer x = m := by
    rw [twin.agree.live]
    refine List.filter_congr fun x live => ?_
    rw [twin.agree.npeer x ((mem_live wf).mp live)]
  rw [listed] at found
  refine ⟨_, Option.bind_eq_some_iff.mpr ⟨prev, found, rfl⟩, ?_⟩
  obtain ⟨same, there⟩ := twin.npeer alive
  rw [same]
  exact (twin.setNpeer prev there).setNpeer m alive

theorem Twin.unhook (wf : L.WF) (alive : a m = true) (run : u.unhook L m = some (u', dest)) :
    ∃ t', t.unhook L m = some (t', dest) ∧ Twin a t' u' ∧ ∀ x ∈ dest, a x = true := by
  obtain ⟨⟨v, next⟩, first, same⟩ := Option.bind_eq_some_iff.mp run
  cases same
  obtain ⟨beside, there⟩ := twin.npeer alive
  obtain ⟨above, there'⟩ := twin.master alive
  suffices hooked : ∃ w, (if t.npeer m ≠ m then do
        return (((← t.ringRemove L m).setGid m 0).setMaster m (some (t.npeer m)), some (t.npeer m))
      else some (if t.shared m then t.setGid m 0 else t, t.master m)) = some (w, dest) ∧ Twin a w v ∧ ∀ x ∈ dest, a x = true by
    obtain ⟨w, first, twin, there⟩ := hooked
    exact ⟨_, Option.bind_eq_some_iff.mpr ⟨_, first, rfl⟩, ((twin.slaveDel m).setShared m false).setMarked m true, there⟩
  rw [beside, above, twin.agree.shared] at first
  split at first
  · rename_i peers
    obtain ⟨v', removed, same⟩ := Option.bind_eq_some_iff.mp first
    cases same
    obtain ⟨w, removed', twin'⟩ := twin.ringRemove wf alive removed
    have there'' : ∀ x ∈ some (t.npeer m), a x = true := fun x mem => Option.some.inj mem ▸ there
    rw [if_pos peers]
    exact ⟨_, Option.bind_eq_some_iff.mpr ⟨w, removed', rfl⟩, (twin'.setGid m 0).setMaster m there'', there''⟩
  · rename_i alone
    cases first
    rw [if_neg alone]
    refine ⟨_, rfl, ?_, there'⟩
    split
    · exact twin.setGid m 0
    · exact twin

omit twin in
theorem Twin.traceTransfers (wf : L.WF) {k : ℕ} (twin : Twin a t u) (alive : a m = true)
    (run : traceTransfers L k u m = some (u', dest)) :
    ∃ t', traceTransfers L k t m = some (t', dest) ∧ Twin a t' u' ∧ ∀ x ∈ dest, a x = true := by
  induction k generalizing t u m with
  | zero => cases run
  | succ k ih =>
    obtain ⟨⟨v, next⟩, first, rest⟩ := Option.bind_eq_some_iff.mp run
    obtain ⟨w, first', twin', there⟩ := twin.unhook wf alive first
    simp only [Table.traceTransfers, first', Option.bind_eq_bind, Option.bind_some]
    cases next with
    | none =>
      cases rest
      exact ⟨w, rfl, twin', nofun⟩
    | some x =>
      have alive' := there x rfl
      obtain ⟨above, there'⟩ := twin'.master alive'
      dsimp only at rest ⊢
      rw [twin'.agree.umount, twin'.agree.marked, above] at rest
      split at rest
      · rename_i stays
        cases rest
        rw [if_pos stays]
        exact ⟨w, rfl, twin', there⟩
      · rename_i dying
        rw [if_neg dying]
        split at rest
        · rename_i marked
          cases rest
          rw [if_pos marked]
          exact ⟨w, rfl, twin', there'⟩
        · rename_i unmarked
          rw [if_neg unmarked]
          exact ih twin' alive' rest

omit twin in
theorem Twin.setDestinations {k : ℕ} (twin : Twin a t u) (alive : a m = true) (there : ∀ x ∈ dest, a x = true)
    (run : setDestinations dest k u m = some u') : ∃ t', setDestinations dest k t m = some t' ∧ Twin a t' u' := by
  induction k generalizing t u m with
  | zero => cases run
  | succ k ih =>
    obtain ⟨above, there'⟩ := twin.master alive
    rw [Table.setDestinations, above] at run
    rw [Table.setDestinations]
    split at run
    · rename_i done
      cases run
      rw [if_pos done]
      exact ⟨t, rfl, twin⟩
    · rename_i more
      obtain ⟨x, master, rest⟩ := Option.bind_eq_some_iff.mp run
      rw [if_neg more]
      obtain ⟨t', rest', twin'⟩ := ih (twin.setMaster m there) (there' x master) rest
      exact ⟨t', Option.bind_eq_some_iff.mpr ⟨x, master, rest'⟩, twin'⟩

omit twin in
theorem Twin.bmpFirst (wf : L.WF) {T : List M} (twin : Twin a t u) (alive : ∀ m ∈ T, a m = true) (run : u.bmpFirst L T = some u') :
    ∃ t', t.bmpFirst L T = some t' ∧ Twin a t' u' := by
  induction T generalizing t u with
  | nil =>
    cases run
    exact ⟨t, rfl, twin⟩
  | cons m T ih =>
    have alive_m := alive m List.mem_cons_self
    have alive_T := fun x mem => alive x (List.mem_cons_of_mem m mem)
    rw [Table.bmpFirst, List.foldlM_cons] at run ⊢
    obtain ⟨v, first, rest⟩ := Option.bind_eq_some_iff.mp run
    rw [twin.agree.marked] at first
    split at first
    · rename_i marked
      cases first
      rw [if_pos marked]
      exact ih twin alive_T rest
    · rename_i unmarked
      obtain ⟨⟨v', dest⟩, traced, set⟩ := Option.bind_eq_some_iff.mp first
      obtain ⟨w, traced', twin', there⟩ := twin.traceTransfers wf alive_m traced
      obtain ⟨w', set', twin''⟩ := twin'.setDestinations alive_m there set
      obtain ⟨t', rest', last⟩ := ih twin'' alive_T rest
      rw [if_neg unmarked]
      exact ⟨t', Option.bind_eq_some_iff.mpr ⟨w', Option.bind_eq_some_iff.mpr ⟨_, traced', set'⟩, rest'⟩, last⟩

omit twin in
theorem Twin.bmpSecond {T : List M} (twin : Twin a t u) (alive : ∀ m ∈ T, a m = true) :
    Twin a (t.bmpSecond T) (u.bmpSecond T) := by
  induction T generalizing t u with
  | nil => exact twin
  | cons m T ih =>
    have alive_m := alive m List.mem_cons_self
    obtain ⟨above, there⟩ := twin.master alive_m
    refine ih ?_ fun x mem => alive x (List.mem_cons_of_mem m mem)
    have nobody : ∀ x ∈ (none : Option M), a x = true := nofun
    beta_reduce
    rw [above]
    exact ((twin.transferPropagation alive_m there).setMaster m nobody).setMarked m false

theorem Twin.bulkMakePrivate (wf : L.WF) {T : List M} (alive : ∀ m ∈ T, a m = true) (run : u.bulkMakePrivate L T = some u') :
    ∃ t', t.bulkMakePrivate L T = some t' ∧ Twin a t' u' := by
  obtain ⟨v, first, same⟩ := Option.bind_eq_some_iff.mp run
  cases same
  obtain ⟨w, first', twin'⟩ := twin.bmpFirst wf alive first
  exact ⟨_, Option.bind_eq_some_iff.mpr ⟨w, first', rfl⟩, twin'.bmpSecond alive⟩

end Twins

end LinuxTla.Mount.Table
