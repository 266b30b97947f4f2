import Mathlib.Data.Fin.VecNotation
import LinuxTla.Lib.Transition
import LinuxTla.Lib.GroupWalk
import LinuxTla.Mount.Slots

/-! propagation_next() and next_group(): each iterates over what receives from a mount,
the one over every mount, the other over every peer group. -/

namespace LinuxTla.Mount

open Lib

variable {M N D S : Type} [DecidableEq M]

namespace Table

section Orders

variable (L : Layout M D S) (t : Table M N D S)

def groupWalkIn (origin : M) : ℕ → Option M → Option (List M)
  | 0, _ => none
  | _ + 1, none => some []
  | k + 1, some m => do
    let rest ← groupWalkIn origin k (← t.nextGroup L m origin)
    return m :: rest

/-- What iterating next_group() from `origin` returns, in that order. -/
def groupOrder (origin : M) : Option (List M) := do
  t.groupWalkIn L origin L.fuel (← t.nextGroup L origin origin)

def MastersNamed : Prop := ∀ m ∈ t.live L, t.slaves m ≠ [] → t.ns m ≠ none

def RingsFollowLists : Prop := ∀ m ∈ t.live L, ∀ a b, [a, b] <:+: t.slaves m → t.gid a ≠ 0 → t.gid a = t.gid b → t.npeer a = b

/-- `r` names one mount of every peer group that receives from `m`, but for its own, and
each after one of its master's group. -/
structure GroupsOnce (m : M) (r : List M) : Prop where
  inside : ∀ x ∈ r, x ∈ t.recvSet L m ∧ x ∉ t.peerGroup L m
  cover : ∀ y ∈ t.recvSet L m, y ∉ t.peerGroup L m → ∃ x ∈ r, x ∈ t.peerGroup L y
  once : r.Pairwise fun x y => x ∉ t.peerGroup L y
  masters : ∀ before x behind, r = before ++ x :: behind →
    ∃ z, t.master x = some z ∧ (z ∈ t.peerGroup L m ∨ ∃ w ∈ before, w ∈ t.peerGroup L z)

end Orders

variable {L : Layout M D S} {t : Table M N D S} {m x origin : M} {n : Option M}

theorem graph_nextSlave (m : M) : t.graph.nextSlave m = t.nextSlave m := by
  rw [PeerGraph.nextSlave, nextSlave, graph_master]
  cases t.master m <;> rfl

section Levels

variable {level : M → ℕ} (levels : t.graph.Levels level) (low : ∀ x, level x ≤ L.mntIds.length)
  (named : ∀ x, t.firstSlave x = (t.slaves x).head?)

include levels

theorem propNextUpIn_leaves {k : ℕ} (leaves : t.graph.Leaves origin x n) (room : level x < k) :
    t.propNextUpIn k x origin = some n := by
  induction leaves generalizing k with
  | around beside =>
    obtain ⟨k, rfl⟩ := Nat.exists_eq_succ_of_ne_zero (Nat.ne_of_gt (Nat.zero_lt_of_lt room))
    rw [graph_master] at beside
    rw [propNextUpIn, if_pos beside]
    rfl
  | list below more =>
    obtain ⟨k, rfl⟩ := Nat.exists_eq_succ_of_ne_zero (Nat.ne_of_gt (Nat.zero_lt_of_lt room))
    rw [graph_master] at below
    rw [graph_nextSlave] at more
    rw [propNextUpIn, if_neg below, more]
  | @climb x y n below last master _ ih =>
    obtain ⟨k, rfl⟩ := Nat.exists_eq_succ_of_ne_zero (Nat.ne_of_gt (Nat.zero_lt_of_lt room))
    have up := levels.above x y master
    rw [graph_master] at below
    rw [graph_nextSlave] at last
    rw [graph_master] at master
    rw [propNextUpIn, if_neg below, last, master]
    exact ih (by omega)

include low named

theorem propagationNext_steps (steps : t.graph.Steps origin x n) : t.propagationNext L x origin = some n := by
  cases steps with
  | down slaves =>
    rw [graph_slaves] at slaves
    rw [propagationNext, named, slaves]
    rfl
  | leave slaves leaves =>
    rw [graph_slaves] at slaves
    rw [propagationNext, named, slaves]
    exact propNextUpIn_leaves levels leaves (Nat.lt_succ_of_le (low x))

/-- What is left of next_group() when its second loop stops. -/
def groupAfter (L : Layout M D S) (t : Table M N D S) (origin : M) (k : ℕ) : Stop M → Option (Option M)
  | .found x => some x
  | .reached next => if next = origin then some none else t.nextGroupIn L k next origin

/-- What is left of next_group() when its inner loop stops. -/
def groupResume (L : Layout M D S) (t : Table M N D S) (origin : M) (k : ℕ) : Stop M → Option (Option M)
  | .found x => some x
  | .reached last => (t.nextGroupUp L.fuel last origin).bind (groupAfter L t origin k)

omit levels low named in
theorem nextGroupIn_succ (k : ℕ) (m : M) :
    t.nextGroupIn L (k + 1) m origin = (t.nextGroupInner L.fuel m origin).bind (groupResume L t origin k) := by
  rw [nextGroupIn]
  refine congrArg (Option.bind (t.nextGroupInner L.fuel m origin)) (funext fun stop => ?_)
  cases stop with
  | found => rfl
  | reached last =>
    refine congrArg (Option.bind (t.nextGroupUp L.fuel last origin)) (funext fun stop => ?_)
    cases stop <;> rfl

/-- The inner loop, past the slaves of `x`. -/
def groupTurn (t : Table M N D S) (origin : M) (k : ℕ) (x : M) : Option (Stop M) :=
  if t.gid x = t.gid origin then
    if t.npeer x = origin then some (.found none) else t.nextGroupInner k (t.npeer x) origin
  else if t.nextSlave x ≠ some (t.npeer x) then some (.reached x)
  else t.nextGroupInner k (t.npeer x) origin

def groupClimb (t : Table M N D S) (origin : M) (k : ℕ) (x : M) : Option (Stop M) :=
  if t.gid x = t.gid origin then some (.reached (t.npeer x))
  else if t.nextSlave x = some (t.npeer x) then some (.reached (t.npeer x))
  else t.nextGroupUp k x origin

omit levels low in
theorem nextGroupInner_succ (k : ℕ) : t.nextGroupInner (k + 1) x origin =
    match (t.slaves x).head? with
    | some s => some (.found (some s))
    | none => groupTurn t origin k x := by
  rw [nextGroupInner, named]
  cases (t.slaves x).head? <;> rfl

omit levels low named in
theorem nextGroupUp_succ (k : ℕ) : t.nextGroupUp (k + 1) x origin =
    match t.nextSlave x with
    | some s => some (.found (some s))
    | none => (t.master x).bind (groupClimb t origin k) := by
  rw [nextGroupUp]
  cases t.nextSlave x with
  | some s => rfl
  | none =>
    cases t.master x with
    | none => rfl
    | some y => rfl

/-- Whichever loop is at `x`, it comes to where the walk over groups goes. -/
theorem groups_run (sound : t.graph.Sound) {room : M → ℕ} (small : ∀ x, room x ≤ L.mntIds.length)
    (ring : ∀ x, t.gid x = t.gid origin → t.npeer x ≠ origin → room (t.npeer x) < room x)
    (row : ∀ x, t.gid x ≠ t.gid origin → t.nextSlave x = some (t.npeer x) → room (t.npeer x) < room x) {b : Bool}
    (groups : t.graph.Groups origin b x n) :
    (b = true → ∀ i > room x, ∀ k ≥ level x, (t.nextGroupInner i x origin).bind (groupResume L t origin k) = some n) ∧
    (b = false → (∀ i ≥ room x, ∀ k ≥ level x, (groupTurn t origin i x).bind (groupResume L t origin k) = some n) ∧
      ∀ i > level x, ∀ k > level x, (groupClimb t origin i x).bind (groupAfter L t origin k) = some n) := by
  have beside (x : M) : level (t.npeer x) = level x := by
    by_cases group : t.gid x = 0
    · rw [show t.npeer x = x from sound.rings.alone x group]
    · have same : t.gid (t.npeer x) = t.gid x := sound.rings.gid_next x
      exact levels.beside _ _ (fun zero => group (same.symm.trans zero)) same
  have restart {x : M} {n : Option M} (apart : t.npeer x ≠ origin)
      (enter : ∀ i > room (t.npeer x), ∀ k ≥ level (t.npeer x),
        (t.nextGroupInner i (t.npeer x) origin).bind (groupResume L t origin k) = some n) {k : ℕ} (high : k > level x) :
      groupAfter L t origin k (.reached (t.npeer x)) = some n := by
    obtain ⟨k, rfl⟩ := Nat.exists_eq_succ_of_ne_zero (Nat.ne_of_gt (Nat.zero_lt_of_lt high))
    rw [groupAfter, if_neg apart, nextGroupIn_succ]
    exact enter _ (Nat.lt_succ_of_le (small _)) k (by rw [beside]; omega)
  induction groups with
  | @down x s l slaves =>
    refine ⟨fun _ i more k _ => ?_, nofun⟩
    obtain ⟨i, rfl⟩ := Nat.exists_eq_succ_of_ne_zero (Nat.ne_of_gt (Nat.zero_lt_of_lt more))
    rw [graph_slaves] at slaves
    rw [nextGroupInner_succ named, slaves]
    rfl
  | @empty x n slaves _ ih =>
    refine ⟨fun _ i more k high => ?_, nofun⟩
    obtain ⟨i, rfl⟩ := Nat.exists_eq_succ_of_ne_zero (Nat.ne_of_gt (Nat.zero_lt_of_lt more))
    rw [graph_slaves] at slaves
    rw [nextGroupInner_succ named, slaves]
    exact (ih.2 rfl).1 i (Nat.le_of_lt_succ more) k high
  | @ended x own last =>
    rw [graph_gid] at own
    rw [graph_next] at last
    refine ⟨nofun, fun _ => ⟨fun i _ k _ => ?_, fun i _ k _ => ?_⟩⟩
    · rw [groupTurn, if_pos own, if_pos last]
      rfl
    · rw [groupClimb, if_pos own]
      exact if_pos last
  | @ring x n own more _ ih =>
    rw [graph_gid] at own
    rw [graph_next] at more ih
    have enter := ih.1 rfl
    refine ⟨nofun, fun _ => ⟨fun i bound k high => ?_, fun i _ k high => ?_⟩⟩
    · rw [groupTurn, if_pos own, if_neg more]
      exact enter i ((ring x own more).trans_le bound) k ((beside x).symm ▸ high)
    · rw [groupClimb, if_pos own]
      exact restart more enter high
  | @peer x n other behind _ ih =>
    rw [graph_gid] at other
    rw [graph_next] at ih
    rw [graph_nextSlave, graph_next] at behind
    have enter := ih.1 rfl
    have apart : t.npeer x ≠ origin := fun same => other (same ▸ (sound.rings.gid_next x).symm)
    refine ⟨nofun, fun _ => ⟨fun i bound k high => ?_, fun i _ k high => ?_⟩⟩
    · rw [groupTurn, if_neg other, if_neg (not_not.mpr behind)]
      exact enter i ((row x other behind).trans_le bound) k ((beside x).symm ▸ high)
    · rw [groupClimb, if_neg other, if_pos behind]
      exact restart apart enter high
  | @found x s other behind apart =>
    rw [graph_gid] at other
    rw [graph_next] at apart
    rw [graph_nextSlave] at behind
    have skips : t.nextSlave x ≠ some (t.npeer x) := fun same => apart (Option.some.inj (behind.symm.trans same))
    refine ⟨nofun, fun _ => ⟨fun i _ k _ => ?_, fun i more k _ => ?_⟩⟩
    · rw [groupTurn, if_neg other, if_pos skips, Option.bind_some, groupResume, Layout.fuel, nextGroupUp_succ, behind]
      rfl
    · obtain ⟨i, rfl⟩ := Nat.exists_eq_succ_of_ne_zero (Nat.ne_of_gt (Nat.zero_lt_of_lt more))
      rw [groupClimb, if_neg other, if_neg skips, nextGroupUp_succ, behind]
      rfl
  | @climb x y n other last master _ ih =>
    rw [graph_gid] at other
    rw [graph_nextSlave] at last
    have up := levels.above x y master
    rw [graph_master] at master
    have skips : t.nextSlave x ≠ some (t.npeer x) := by
      rw [last]
      exact (Option.some_ne_none _).symm
    have top := low x
    refine ⟨nofun, fun _ => ⟨fun i _ k high => ?_, fun i more k high => ?_⟩⟩
    · rw [groupTurn, if_neg other, if_pos skips, Option.bind_some, groupResume, Layout.fuel, nextGroupUp_succ, last, master]
      exact (ih.2 rfl).2 _ (up.trans_le top) k (up.trans_le high)
    · obtain ⟨i, rfl⟩ := Nat.exists_eq_succ_of_ne_zero (Nat.ne_of_gt (Nat.zero_lt_of_lt more))
      rw [groupClimb, if_neg other, if_neg skips, nextGroupUp_succ, last, master]
      exact (ih.2 rfl).2 i (by omega) k (by omega)

end Levels

section Visits

variable (wf : L.WF) (quiet : t.Quiet) (shares : t.SharedOK L) (ring : t.RingOK L) (slaves : t.SlavesOK L)
  (acyclic : t.MastersAcyclic L) (masters : t.MastersNamed L)

include wf quiet masters

omit [DecidableEq M] in
theorem firstSlave_head? (x : M) : t.firstSlave x = (t.slaves x).head? := by
  rw [firstSlave]
  split
  · rfl
  · rename_i unnamed
    rw [not_not] at unnamed
    suffices none : t.slaves x = [] by rw [none, List.head?_nil]
    by_cases alive : t.alive x = true
    · by_contra some
      exact masters x ((mem_live wf).mpr alive) some unnamed
    · exact (quiet x (by simpa using alive)).1.slaves

include shares ring slaves acyclic

theorem propagationOrder_visits (m : M) :
    ∃ l, t.propagationOrder L m = some l ∧ l.Nodup ∧ ∀ x, x ∈ l ↔ x ∈ t.recvSet L m := by
  have sound := sound_of_parts wf quiet shares ring slaves acyclic
  have finite : Finite M := Set.finite_univ_iff.mp ((List.finite_toSet L.mntIds).subset fun y _ => wf.mnts y)
  obtain ⟨_, levels⟩ := sound.levels
  obtain ⟨level, levels, low⟩ := levels.small wf.mnts
  obtain ⟨l, order⟩ := PeerGraph.exists_order sound m
  obtain ⟨n, steps, passes⟩ := order.walk
  have asks : ∀ x n, t.graph.Steps m x n → t.propagationNext L x m = some n := fun _ _ =>
    propagationNext_steps levels low (firstSlave_head? wf quiet masters)
  have room : l.length < L.fuel := by
    have := (order.nodup.subperm fun y _ => wf.mnts y).length_le
    rw [List.length_cons] at this
    rw [Layout.fuel]
    omega
  refine ⟨l, ?_, (List.nodup_cons.mp order.nodup).2, fun x => ?_⟩
  · rw [propagationOrder, asks m n steps]
    exact passes.run (fun _ => rfl) (fun _ _ => rfl) asks room
  · rw [mem_recvSet wf sound quiet.idle, ← order.mem]
    refine ⟨fun mem => ⟨?_, List.mem_cons_of_mem m mem⟩, fun both => (List.mem_cons.mp both.2).resolve_left both.1⟩
    rintro rfl
    exact (List.nodup_cons.mp order.nodup).1 mem

theorem groupOrder_visits (follows : t.RingsFollowLists L) {m : M} (shared : t.gid m ≠ 0) :
    ∃ r, t.groupOrder L m = some r ∧ t.GroupsOnce L m r := by
  have sound := sound_of_parts wf quiet shares ring slaves acyclic
  have dead : ∀ y, t.alive y = false → t.gid y = 0 := fun y gone => (quiet.idle y gone).1
  have graph : t.graph.WF := ⟨sound, fun y a b pair group same => by
    have master : t.master a = some y := (sound.mem_slaves a y).mp (pair.subset List.mem_cons_self)
    refine follows y ((mem_live wf).mpr ?_) a b pair group same
    by_contra gone
    exact sound.owner a y master (dead y (by simpa using gone))⟩
  have finite : Finite M := Set.finite_univ_iff.mp ((List.finite_toSet L.mntIds).subset fun y _ => wf.mnts y)
  obtain ⟨_, levels⟩ := sound.levels
  obtain ⟨level, levels, low⟩ := levels.small wf.mnts
  have shared : t.graph.gid m ≠ 0 := shared
  obtain ⟨room, small, around, row⟩ := PeerGraph.exists_room sound shared wf.mnts
  obtain ⟨r, per, n, groups, passes⟩ := PeerGraph.exists_groups graph shared
  have row' : ∀ x, t.gid x ≠ t.gid m → t.nextSlave x = some (t.npeer x) → room (t.npeer x) < room x :=
    fun x other behind => row x other ((graph_nextSlave x).trans behind)
  have asks : ∀ x n, t.graph.Groups m true x n → t.nextGroup L x m = some n := fun x n groups => by
    rw [nextGroup, Layout.fuel, nextGroupIn_succ]
    exact (groups_run levels low (firstSlave_head? wf quiet masters) sound small around row' groups).1 rfl
      _ (Nat.lt_succ_of_le (small x)) _ (low x)
  have beside {a b : M} : t.graph.SameGroup a b ↔ a ∈ t.peerGroup L b := by
    rw [mem_peerGroup wf dead]
    constructor
    · rintro (same | ⟨group, same⟩)
      · exact .inl same
      · exact .inr ⟨fun zero => group (same.trans zero), same⟩
    · rintro (same | ⟨group, same⟩)
      · exact .inl same
      · exact .inr ⟨fun zero => group (same.symm.trans zero), same⟩
  have own {x : M} : t.graph.SameGroup m x ↔ x ∈ t.peerGroup L m := by
    rw [mem_peerGroup wf dead]
    constructor
    · rintro (same | ⟨group, same⟩)
      · exact .inl same.symm
      · exact .inr ⟨group, same.symm⟩
    · rintro (same | ⟨group, same⟩)
      · exact .inl same.symm
      · exact .inr ⟨group, same.symm⟩
  have room' : r.length < L.fuel := by
    have nodup : r.Nodup := per.once.imp fun apart same => apart (.inl same)
    exact Nat.lt_succ_of_le (nodup.subperm fun y _ => wf.mnts y).length_le
  refine ⟨r, ?_, ⟨fun x mem => ?_, fun y mem other => ?_, ?_, fun before x behind split => ?_⟩⟩
  · rw [groupOrder, asks m n groups]
    exact passes.run (fun _ => rfl) (fun _ _ => rfl) asks room'
  · obtain ⟨receives, other⟩ := per.inside x mem
    rw [mem_recvSet wf sound quiet.idle, ← own]
    exact ⟨⟨fun same => other (.inl same.symm), receives⟩, other⟩
  · rw [mem_recvSet wf sound quiet.idle] at mem
    obtain ⟨x, inside, group⟩ := per.cover y mem.2 fun same => other (own.mp same)
    exact ⟨x, inside, beside.mp group⟩
  · exact per.once.imp fun apart mem => apart (beside.mpr mem)
  · obtain ⟨z, master, here⟩ := per.masters before x behind split
    refine ⟨z, master, here.imp own.mp ?_⟩
    rintro ⟨w, mem, group⟩
    exact ⟨w, mem, beside.mp group⟩

end Visits

/-! ### Free slots -/

section Slots

variable {u : Table M N D S} {m origin : M}

/-- Where a loop of next_group() stops is a live mount. -/
def Stop.Lives (t : Table M N D S) : Stop M → Prop
  | .found r => ∀ x ∈ r, t.alive x = true
  | .reached x => t.alive x = true

theorem Agree.nextSlave (agree : Agree t u) (closed : t.Closed) (alive : t.alive m = true) :
    u.nextSlave m = t.nextSlave m ∧ ∀ x ∈ t.nextSlave m, t.alive x = true := by
  rw [Table.nextSlave, Table.nextSlave, agree.master m alive]
  cases above : t.master m with
  | none => exact ⟨rfl, nofun⟩
  | some y =>
    have alive' := closed.master m y alive above
    dsimp only
    rw [agree.slaves y alive']
    exact ⟨rfl, fun x here => closed.slaves y alive' x (List.mem_of_getElem? here)⟩

omit [DecidableEq M] in
theorem Agree.firstSlave (agree : Agree t u) (closed : t.Closed) (alive : t.alive m = true) :
    u.firstSlave m = t.firstSlave m ∧ ∀ x ∈ t.firstSlave m, t.alive x = true := by
  rw [Table.firstSlave, Table.firstSlave, agree.slaves m alive, agree.ns]
  refine ⟨rfl, fun x here => ?_⟩
  split at here
  · exact closed.slaves m alive x (List.mem_of_mem_head? here)
  · cases here

variable (agree : Agree t u) (closed : t.Closed) (from_live : t.alive origin = true)

include agree closed from_live

theorem Agree.propNextUpIn {k : ℕ} (alive : t.alive m = true) :
    u.propNextUpIn k m origin = t.propNextUpIn k m origin ∧
      ∀ r ∈ t.propNextUpIn k m origin, ∀ x ∈ r, t.alive x = true := by
  induction k generalizing m with
  | zero => exact ⟨rfl, nofun⟩
  | succ k ih =>
    obtain ⟨same, lives⟩ := agree.nextSlave closed alive
    rw [Table.propNextUpIn, Table.propNextUpIn, agree.master m alive, agree.master origin from_live, agree.npeer m alive, same]
    split_ifs with beside last
    · exact ⟨rfl, fun r here x mem => by cases here; cases mem⟩
    · refine ⟨rfl, fun r here x mem => ?_⟩
      cases here
      cases mem
      exact closed.npeer m alive
    · cases next : t.nextSlave m with
      | some y =>
        refine ⟨rfl, fun r here x mem => ?_⟩
        cases here
        exact lives x (next.trans mem)
      | none =>
        cases above : t.master m with
        | none => exact ⟨rfl, nofun⟩
        | some y => exact ih (closed.master m y alive above)

theorem Agree.propagationNext (alive : t.alive m = true) :
    u.propagationNext L m origin = t.propagationNext L m origin ∧
      ∀ r ∈ t.propagationNext L m origin, ∀ x ∈ r, t.alive x = true := by
  obtain ⟨same, lives⟩ := agree.firstSlave closed alive
  rw [Table.propagationNext, Table.propagationNext, same]
  cases first : t.firstSlave m with
  | some y =>
    refine ⟨rfl, fun r here x mem => ?_⟩
    cases here
    exact lives x (first.trans mem)
  | none => exact agree.propNextUpIn closed from_live alive

theorem Agree.nextGroupInner {k : ℕ} (alive : t.alive m = true) :
    u.nextGroupInner k m origin = t.nextGroupInner k m origin ∧
      ∀ stop ∈ t.nextGroupInner k m origin, stop.Lives t := by
  induction k generalizing m with
  | zero => exact ⟨rfl, nofun⟩
  | succ k ih =>
    obtain ⟨first, lives⟩ := agree.firstSlave closed alive
    have next := (agree.nextSlave closed alive).1
    have peer := closed.npeer m alive
    rw [Table.nextGroupInner, Table.nextGroupInner, first, next, agree.npeer m alive, agree.gid m alive,
      agree.gid origin from_live]
    cases here : t.firstSlave m with
    | some y =>
      refine ⟨rfl, fun stop found => ?_⟩
      cases found
      exact fun x mem => lives x (here.trans mem)
    | none =>
      dsimp only
      split_ifs
      · exact ⟨rfl, fun stop found => by cases found; exact nofun⟩
      · exact ih peer
      · exact ⟨rfl, fun stop found => by cases found; exact alive⟩
      · exact ih peer

theorem Agree.nextGroupUp {k : ℕ} (alive : t.alive m = true) :
    u.nextGroupUp k m origin = t.nextGroupUp k m origin ∧ ∀ stop ∈ t.nextGroupUp k m origin, stop.Lives t := by
  induction k generalizing m with
  | zero => exact ⟨rfl, nofun⟩
  | succ k ih =>
    obtain ⟨next, lives⟩ := agree.nextSlave closed alive
    rw [nextGroupUp_succ, nextGroupUp_succ, next, agree.master m alive]
    cases here : t.nextSlave m with
    | some y =>
      refine ⟨rfl, fun stop found => ?_⟩
      cases found
      exact fun x mem => lives x (here.trans mem)
    | none =>
      cases above : t.master m with
      | none => exact ⟨rfl, nofun⟩
      | some y =>
        have alive' := closed.master m y alive above
        have peer := closed.npeer y alive'
        dsimp only [Option.bind_some]
        rw [groupClimb, groupClimb, agree.gid y alive', agree.gid origin from_live, agree.npeer y alive',
          (agree.nextSlave closed alive').1]
        split_ifs
        · exact ⟨rfl, fun stop found => by cases found; exact peer⟩
        · exact ⟨rfl, fun stop found => by cases found; exact peer⟩
        · exact ih alive'

theorem Agree.nextGroupIn {k : ℕ} (alive : t.alive m = true) :
    u.nextGroupIn L k m origin = t.nextGroupIn L k m origin ∧ ∀ r ∈ t.nextGroupIn L k m origin, ∀ x ∈ r, t.alive x = true := by
  induction k generalizing m with
  | zero => exact ⟨rfl, nofun⟩
  | succ k ih =>
    obtain ⟨inner, lives⟩ := agree.nextGroupInner closed from_live (k := L.fuel) alive
    rw [nextGroupIn_succ, nextGroupIn_succ, inner]
    cases found : t.nextGroupInner L.fuel m origin with
    | none => exact ⟨by rw [Option.bind_none, Option.bind_none], nofun⟩
    | some stop =>
      have here := lives stop found
      cases stop with
      | found r => exact ⟨rfl, fun r' same => by cases same; exact here⟩
      | reached last =>
        obtain ⟨up, lives⟩ := agree.nextGroupUp closed from_live (k := L.fuel) here
        dsimp only [Option.bind_some, groupResume]
        rw [up]
        cases found : t.nextGroupUp L.fuel last origin with
        | none => exact ⟨by rw [Option.bind_none, Option.bind_none], nofun⟩
        | some stop =>
          have here := lives stop found
          cases stop with
          | found r => exact ⟨rfl, fun r' same => by cases same; exact here⟩
          | reached next =>
            dsimp only [Option.bind_some, groupAfter]
            split_ifs
            · exact ⟨rfl, fun r' same => by cases same; exact nofun⟩
            · exact ih here

theorem Agree.nextGroup (alive : t.alive m = true) :
    u.nextGroup L m origin = t.nextGroup L m origin ∧ ∀ r ∈ t.nextGroup L m origin, ∀ x ∈ r, t.alive x = true :=
  agree.nextGroupIn closed from_live alive

theorem Agree.propWalkIn {k : ℕ} {r : Option M} (alive : ∀ x ∈ r, t.alive x = true) :
    u.propWalkIn L origin k r = t.propWalkIn L origin k r := by
  induction k generalizing r with
  | zero => rfl
  | succ k ih =>
    cases r with
    | none => rfl
    | some x =>
      obtain ⟨same, lives⟩ := agree.propagationNext closed from_live (L := L) (alive x rfl)
      rw [Table.propWalkIn, Table.propWalkIn, same]
      cases next : t.propagationNext L x origin with
      | none => simp only [Option.bind_eq_bind, Option.bind_none]
      | some r => simp only [Option.bind_eq_bind, Option.bind_some, ih (lives r next)]

theorem Agree.groupWalkIn {k : ℕ} {r : Option M} (alive : ∀ x ∈ r, t.alive x = true) :
    groupWalkIn L u origin k r = groupWalkIn L t origin k r := by
  induction k generalizing r with
  | zero => rfl
  | succ k ih =>
    cases r with
    | none => rfl
    | some x =>
      obtain ⟨same, lives⟩ := agree.nextGroup closed from_live (L := L) (alive x rfl)
      rw [Table.groupWalkIn, Table.groupWalkIn, same]
      cases next : t.nextGroup L x origin with
      | none => simp only [Option.bind_eq_bind, Option.bind_none]
      | some r => simp only [Option.bind_eq_bind, Option.bind_some, ih (lives r next)]

theorem Agree.propagationOrder : u.propagationOrder L origin = t.propagationOrder L origin := by
  obtain ⟨same, lives⟩ := agree.propagationNext closed from_live (L := L) from_live
  rw [Table.propagationOrder, Table.propagationOrder, same]
  cases next : t.propagationNext L origin origin with
  | none => simp only [Option.bind_eq_bind, Option.bind_none]
  | some r => exact agree.propWalkIn closed from_live (lives r next)

theorem Agree.groupOrder : groupOrder L u origin = groupOrder L t origin := by
  obtain ⟨same, lives⟩ := agree.nextGroup closed from_live (L := L) from_live
  rw [Table.groupOrder, Table.groupOrder, same]
  cases next : t.nextGroup L origin origin with
  | none => simp only [Option.bind_eq_bind, Option.bind_none]
  | some r => exact agree.groupWalkIn closed from_live (lives r next)

omit from_live in
theorem Agree.groupsOnce (wf : L.WF) (alive : t.alive m = true) {r : List M} (groups : u.GroupsOnce L m r) : t.GroupsOnce L m r := by
  obtain ⟨inside, cover, once, masters⟩ := groups
  rw [agree.recvSet wf alive, agree.peerGroup wf alive] at inside cover
  have lives : ∀ x ∈ r, t.alive x = true := fun x mem => alive_of_mem_recvSet wf alive (inside x mem).1
  refine ⟨inside, fun y mem other => ?_, once.imp_of_mem fun {x y} _ there apart => ?_, fun before x behind split => ?_⟩
  · obtain ⟨x, named, group⟩ := cover y mem other
    rw [agree.peerGroup wf (alive_of_mem_recvSet wf alive mem)] at group
    exact ⟨x, named, group⟩
  · rwa [agree.peerGroup wf (lives y there)] at apart
  · obtain ⟨z, master, here⟩ := masters before x behind split
    have alive' := lives x (split ▸ List.mem_append_right before List.mem_cons_self)
    rw [agree.master x alive'] at master
    rw [agree.peerGroup wf alive, agree.peerGroup wf (closed.master x z alive' master)] at here
    exact ⟨z, master, here⟩

end Slots

/-- propagation_next() visits every receiver once, and next_group() every peer group. -/
theorem iterators_visit_once [DecidableEq D] (wf : L.WF) (ok : t.StructureOK L) (acyclic : t.MastersAcyclic L)
    (masters : t.MastersNamed L) {m : M} (live : m ∈ t.live L) :
    (∃ l, t.propagationOrder L m = some l ∧ l.Nodup ∧ ∀ x, x ∈ l ↔ x ∈ t.recvSet L m) ∧
      (t.RingsFollowLists L → t.shared m = true → ∃ r, t.groupOrder L m = some r ∧ t.GroupsOnce L m r) := by
  have closed := closed_of_parts wf ok.ring ok.slaves
  have agree := agree_blank t
  have quiet := blank_quiet t
  have alive := (mem_live wf).mp live
  have shares := agree.sharedOK wf ok.shared
  have ring := agree.ringOK wf closed ok.ring
  have slaves := agree.slavesOK wf closed ok.slaves
  have acyclic := agree.mastersAcyclic wf closed acyclic
  have masters : t.blank.MastersNamed L := fun x there some => by
    rw [agree.slaves x ((mem_live wf).mp there)] at some
    exact masters x there some
  refine ⟨?_, fun follows shared => ?_⟩
  · rw [← agree.propagationOrder closed alive, ← agree.recvSet wf alive]
    exact propagationOrder_visits wf quiet shares ring slaves acyclic masters m
  · have follows : t.blank.RingsFollowLists L := fun x there a b pair => by
      have lives := (mem_live wf).mp there
      rw [agree.slaves x lives] at pair
      have first := closed.slaves x lives a (pair.subset List.mem_cons_self)
      have second := closed.slaves x lives b (pair.subset (List.mem_cons_of_mem a List.mem_cons_self))
      rw [agree.gid a first, agree.gid b second, agree.npeer a first]
      exact follows x there a b pair
    have group : t.blank.gid m ≠ 0 := by
      rw [agree.gid m alive]
      exact (ok.shared m live).mp shared
    obtain ⟨r, run, groups⟩ := groupOrder_visits wf quiet shares ring slaves acyclic masters follows group
    exact ⟨r, (agree.groupOrder closed alive).symm.trans run, agree.groupsOnce closed wf alive groups⟩

/-- Mount 0 is shared; 1, 2 and 3 are peers, its slaves in this order, on the given ring. -/
def tripled (ring : Fin 4 → Fin 4) : Table (Fin 4) Unit Unit Unit :=
  { (dead (plain 4) : Table (Fin 4) Unit Unit Unit) with
    alive := fun _ => true
    ns := fun _ => some ()
    gid := ![1, 2, 2, 2]
    shared := fun _ => true
    master := ![none, some 0, some 0, some 0]
    npeer := ring
    slaves := ![[1, 2, 3], [], [], []] }

theorem tripled_canonical (ring : Fin 4 → Fin 4) : (tripled ring).Canonical (plain 4) := nofun

theorem tripled_acyclic (ring : Fin 4 → Fin 4) : (tripled ring).MastersAcyclic (plain 4) := fun _ _ =>
  Acyclic.irrefl (f := (tripled id).master) ⟨![0, 1, 1, 1], by unfold Falls; decide⟩

theorem tripled_slaves (ring : Fin 4 → Fin 4) : (tripled ring).SlavesOK (plain 4) := by
  -- the ring is not looked at
  have listed : ∀ m n, n ∈ (tripled id).slaves m ↔ n ∈ (tripled id).live (plain 4) ∧ (tripled id).master n = some m := by
    decide
  have nodup : ∀ m, ((tripled id).slaves m).Nodup := by decide
  have peers : ∀ m, ∀ n ∈ (tripled id).peerGroup (plain 4) m, (tripled id).master n = (tripled id).master m := by decide
  have between : ∀ m x b, (tripled id).master m = some x → b ∈ (tripled id).slaves x →
      b ∈ (tripled id).peerGroup (plain 4) m := by decide
  exact fun m _ => ⟨listed m, nodup m, fun _ => rfl, fun _ _ => rfl, peers m,
    fun x master _ a b c sub _ _ => between m x b master (sub.subset (by simp))⟩

theorem tripled_ok {ring : Fin 4 → Fin 4} (rings : (tripled ring).RingOK (plain 4)) : (tripled ring).StructureOK (plain 4) where
  oneMount := by
    unfold OneMountPerMountpoint
    exact fun _ _ _ _ impossible => nomatch impossible
  children := by
    unfold ChildrenOK
    exact fun p _ => ⟨fun c => ⟨nofun, fun both => nomatch both.2.1⟩, List.nodup_nil, fun _ => rfl⟩
  mountpoint := fun _ _ _ impossible => nomatch impossible
  parent := fun _ _ _ impossible => nomatch impossible
  shared := show (tripled id).SharedOK (plain 4) by
    unfold SharedOK
    decide
  ring := rings
  slaves := tripled_slaves ring
  unbindable := fun _ _ impossible => nomatch impossible
  marks := fun _ _ => ⟨rfl, rfl⟩
  umount := fun _ _ => ⟨nofun, nofun⟩
  connected := fun _ _ _ impossible => nomatch impossible
  locked := fun _ _ impossible => nomatch impossible

theorem tripled_named (ring : Fin 4 → Fin 4) : (tripled ring).MastersNamed (plain 4) := fun _ _ _ => Option.some_ne_none _

theorem tripled_ring_forth : (tripled ![0, 2, 3, 1]).RingOK (plain 4)
  | 0, _ => ⟨by decide, _, rfl, by decide⟩
  | 1, _ => ⟨by decide, _, rfl, by decide⟩
  | 2, _ => ⟨by decide, _, rfl, by decide⟩
  | 3, _ => ⟨by decide, _, rfl, by decide⟩

theorem tripled_ring_back : (tripled ![0, 3, 1, 2]).RingOK (plain 4)
  | 0, _ => ⟨by decide, _, rfl, by decide⟩
  | 1, _ => ⟨by decide, _, rfl, by decide⟩
  | 2, _ => ⟨by decide, _, rfl, by decide⟩
  | 3, _ => ⟨by decide, _, rfl, by decide⟩

theorem iterators_visit_tripled :
    (∃ l, (tripled ![0, 2, 3, 1]).propagationOrder (plain 4) 0 = some l ∧ l.Nodup ∧
        ∀ x, x ∈ l ↔ x ∈ (tripled ![0, 2, 3, 1]).recvSet (plain 4) 0) ∧
      ∃ r, (tripled ![0, 2, 3, 1]).groupOrder (plain 4) 0 = some r ∧ (tripled ![0, 2, 3, 1]).GroupsOnce (plain 4) 0 r := by
  have visits := iterators_visit_once (plain_wf 4) (tripled_ok tripled_ring_forth) (tripled_acyclic _) (tripled_named _)
    (m := 0) (by decide)
  refine ⟨visits.1, visits.2 ?_ rfl⟩
  have follows : ∀ m a b, [a, b] <:+: (tripled ![0, 2, 3, 1]).slaves m → (tripled ![0, 2, 3, 1]).npeer a = b := by decide
  exact fun m _ a b pair _ _ => follows m a b pair

/-- A ring against the order of the list: next_group() returns one group three times over. -/
theorem next_group_repeats_group :
    (tripled ![0, 3, 1, 2]).StructureOK (plain 4) ∧ (tripled ![0, 3, 1, 2]).Canonical (plain 4) ∧
      (tripled ![0, 3, 1, 2]).MastersAcyclic (plain 4) ∧ (tripled ![0, 3, 1, 2]).MastersNamed (plain 4) ∧
      0 ∈ (tripled ![0, 3, 1, 2]).live (plain 4) ∧ (tripled ![0, 3, 1, 2]).shared 0 = true ∧
      ¬ ∃ r, (tripled ![0, 3, 1, 2]).groupOrder (plain 4) 0 = some r ∧ (tripled ![0, 3, 1, 2]).GroupsOnce (plain 4) 0 r := by
  refine ⟨tripled_ok tripled_ring_back, tripled_canonical _, tripled_acyclic _, tripled_named _, by decide, rfl, ?_⟩
  rintro ⟨r, run, once⟩
  obtain rfl : [1, 2, 3] = r := Option.some.inj (run.symm.trans rfl).symm
  exact (List.pairwise_cons.mp once.once).1 2 (by decide) (by decide)

end Table

end LinuxTla.Mount
