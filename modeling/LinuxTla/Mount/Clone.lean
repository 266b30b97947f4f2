import LinuxTla.Mount.Groups

/-! clone_mnt(): one more mount, beside or below the one it copies in the propagation
graph. -/

namespace LinuxTla.Mount

open Lib

variable {M N D S : Type} [DecidableEq M]

namespace Table

variable {L : Layout M D S} {t u v : Table M N D S} {m x old id : M}

/-- A free slot takes no part in propagation. -/
structure Blank (t : Table M N D S) (m : M) : Prop where
  graph : t.graph.Isolated m
  shared : t.shared m = false
  unbind : t.unbind m = false
  marked : t.marked m = false

/-- Free slots are blank. -/
def Tidy (t : Table M N D S) : Prop := ∀ m, t.alive m = false → t.Blank m

/-! ### clone_mnt() -/

/-- How the copy joins the propagation graph. -/
inductive Joined (t : Table M N D S) (old id : M) (flag : Cl) : PeerGraph M → Prop
  | peer (plain : flag.slave = false) (shared : t.gid old ≠ 0) : Joined t old id flag (t.graph.addPeer old id)
  | sibling (alone : t.gid old = 0) {k : ℕ} (unused : t.graph.Unused k) (given : k ≠ 0 ↔ flag.mkshared = true) :
      Joined t old id flag (t.graph.addSibling old id k)
  | slave (slave : flag.slave = true) (shared : t.gid old ≠ 0) {k : ℕ} (unused : t.graph.Unused k)
      (given : k ≠ 0 ↔ flag.mkshared = true) : Joined t old id flag (t.graph.addSlave old id k)

theorem Joined.wf {flag : Cl} {g : PeerGraph M} (joined : Joined t old id flag g) (ok : GraphOK t)
    (lone : t.graph.Isolated id) (apart : old ≠ id) : g.WF := by
  cases joined with
  | peer _ shared => exact ok.wf.addPeer lone apart shared
  | sibling alone unused => exact ok.wf.addSibling lone apart alone unused
  | slave _ shared unused => exact ok.wf.addSlave lone apart shared unused

structure Cloned (L : Layout M D S) (t : Table M N D S) (old : M) (root : D) (flag : Cl) (id : M) (t' : Table M N D S) :
    Prop where
  free : t.alive id = false
  frame : t'.frame = (t.cloneRec L id old root 0).frame
  shared : t'.shared = Function.update t.shared id (t'.gid id ≠ 0)
  unbind : t'.unbind = Function.update t.unbind id (L.fixCloneUnbindable && t.unbind old && decide (t'.gid id = 0))
  marked : t'.marked = Function.update t.marked id false
  cand : t'.cand = Function.update t.cand id false
  graph : Joined t old id flag t'.graph

omit [DecidableEq M] in
theorem newId_free (found : t.newId L = some id) : t.alive id = false := by
  have mem := List.mem_of_mem_head? found
  simpa using (List.mem_filter.mp mem).2

theorem cloneRec_graph (ok : GraphOK t) (lone : t.graph.Isolated id) {root : D} {k : ℕ} :
    (t.cloneRec L id old root k).graph = { t.graph with gid := Function.update t.gid id k } := by
  refine PeerGraph.ext ?_ ?_ ?_ ?_
  · simp
  · simpa using (ok.wf.next_isolated lone).symm
  · simpa using lone.master.symm
  · simpa using lone.slaves.symm

omit [DecidableEq M] in
theorem cloneGid_spec (wf : L.WF) (tidy : Tidy t) {flag : Cl} {k : ℕ} (public_ : flag.priv = false)
    (run : t.cloneGid L old flag = some k) :
    flag.slave = false ∧ t.gid old ≠ 0 ∧ k = t.gid old ∨
      (flag.slave = true ∨ t.gid old = 0) ∧ t.graph.Unused k ∧ (k ≠ 0 ↔ flag.mkshared = true) := by
  have blank : ∀ m, t.alive m = false → t.gid m = 0 := fun m dead => (tidy m dead).graph.gid
  rw [cloneGid] at run
  by_cases plain : flag.slave = false ∧ t.gid old ≠ 0
  · obtain ⟨slave, shared⟩ := plain
    simp only [slave, public_, Bool.or_self, Bool.false_eq_true, if_false, shared, and_false] at run
    exact .inl ⟨slave, shared, (Option.some.inj run).symm⟩
  · have other : flag.slave = true ∨ t.gid old = 0 := by
      by_contra neither
      obtain ⟨slave, shared⟩ := not_or.mp neither
      exact plain ⟨by simpa using slave, shared⟩
    have zero : (if flag.slave = true ∨ flag.priv = true then 0 else t.gid old) = 0 := by
      rcases other with slave | alone
      · rw [if_pos (.inl slave)]
      · rw [alone, ite_self]
    simp only [Bool.or_eq_true, zero, and_true] at run
    split at run
    · rename_i mkshared
      obtain ⟨positive, unused⟩ := newGid_spec wf blank run
      exact .inr ⟨other, unused, by simp [positive, mkshared]⟩
    · rename_i plain
      cases run
      exact .inr ⟨other, fun bad => absurd rfl bad, by simp [plain]⟩

/-- The record of a new mount, wherever its links go. -/
structure Recorded (L : Layout M D S) (t : Table M N D S) (old : M) (root : D) (id : M) (u : Table M N D S) : Prop where
  frame : u.frame = (t.cloneRec L id old root 0).frame
  shared : u.shared = Function.update t.shared id (u.gid id ≠ 0)
  unbind : u.unbind = Function.update t.unbind id (L.fixCloneUnbindable && t.unbind old && decide (u.gid id = 0))
  marked : u.marked = Function.update t.marked id false
  cand : u.cand = Function.update t.cand id false

theorem cloneRec_recorded {root : D} {k : ℕ} : Recorded L t old root id (t.cloneRec L id old root k) := by
  constructor <;> simp [frame]

section Links

variable {root : D} {flag : Cl} {k : ℕ}

theorem Recorded.links (recorded : Recorded L t old root id u) (frame : v.frame = u.frame) (shared : v.shared = u.shared)
    (unbind : v.unbind = u.unbind) (marked : v.marked = u.marked) (cand : v.cand = u.cand) (gid : v.gid = u.gid) :
    Recorded L t old root id v :=
  ⟨frame.trans recorded.frame, by rw [shared, recorded.shared, gid], by rw [unbind, recorded.unbind, gid],
    marked.trans recorded.marked, cand.trans recorded.cand⟩

/-- The end of clone_mnt() for a mount that gets its original's master. -/
def linkBeside (t u : Table M N D S) (old id : M) : Table M N D S :=
  match t.master old with
  | none => u
  | some x => (u.setMaster id (some x)).slaveAddBehind old id

theorem linkBeside_graph (lone : t.graph.Isolated id) (apart : old ≠ id) (gid : u.gid = Function.update t.gid id k)
    (master : u.master = t.master) (slaves : u.slaves = t.slaves) :
    (linkBeside t u old id).graph = t.graph.addBeside old id k u.npeer := by
  unfold linkBeside
  split
  · rename_i top
    have same : Function.update t.master id none = t.master := by
      rw [Function.update_eq_self_iff]
      exact lone.master.symm
    refine PeerGraph.ext gid rfl ?_ ?_
    · funext y
      simp [top, same, master]
    · funext y
      simp [top, slaves]
  · rename_i x top
    have keeps : Function.update u.master id (some x) old = some x := by rw [Function.update_of_ne apart, master, top]
    have added : (u.setMaster id (some x)).slaveAddBehind old id =
        (u.setMaster id (some x)).setSlaves x (insertAfter (u.slaves x) old id) := by
      rw [slaveAddBehind, setMaster_master, keeps]
      rfl
    rw [added]
    refine PeerGraph.ext ?_ ?_ ?_ ?_
    · funext y
      simp [gid]
    · funext y
      simp
    · funext y
      simp [top, master]
    · funext y
      simp only [graph_slaves, setSlaves_slaves, setMaster_slaves, slaves, PeerGraph.addBeside_slaves, graph_master, top,
        Option.some.injEq, Function.update_apply, eq_comm]
      split <;> simp_all

/-- Only masters and slave lists change. -/
theorem linkBeside_same : (linkBeside t u old id).frame = u.frame ∧ (linkBeside t u old id).gid = u.gid ∧
    (linkBeside t u old id).shared = u.shared ∧ (linkBeside t u old id).unbind = u.unbind ∧
    (linkBeside t u old id).marked = u.marked ∧ (linkBeside t u old id).cand = u.cand := by
  unfold linkBeside slaveAddBehind
  split
  · exact ⟨rfl, rfl, rfl, rfl, rfl, rfl⟩
  · split
    · exact ⟨rfl, rfl, rfl, rfl, rfl, rfl⟩
    · exact ⟨rfl, rfl, rfl, rfl, rfl, rfl⟩

theorem linkBeside_recorded (recorded : Recorded L t old root id u) : Recorded L t old root id (linkBeside t u old id) := by
  obtain ⟨frame, gid, shared, unbind, marked, cand⟩ := @linkBeside_same M N D S _ t u old id
  exact recorded.links frame shared unbind marked cand gid

theorem cloneMnt_links (run : t.cloneMnt L old root flag = some (v, id)) (public_ : flag.priv = false) :
    t.alive id = false ∧ ∃ k, t.cloneGid L old flag = some k ∧
      let u := t.cloneRec L id old root k
      let w := if u.Peers id old then u.ringInsertAfter old id else u
      v = if flag.slave = true ∧ t.gid old ≠ 0 then (w.setMaster id (some old)).slaveAddHead old id else linkBeside t w old id := by
  obtain ⟨id', found, run⟩ := Option.bind_eq_some_iff.mp run
  obtain ⟨k, gid, run⟩ := Option.bind_eq_some_iff.mp run
  simp only [public_, Bool.false_eq_true, if_false] at run
  have here : id' = id := by
    split at run
    · cases run
      rfl
    · split at run <;> cases run <;> rfl
  subst here
  refine ⟨newId_free found, k, gid, ?_⟩
  dsimp only
  split at run
  · rename_i slave
    cases run
    rw [if_pos slave]
  · rename_i other
    rw [if_neg other, linkBeside]
    cases top : t.master old with
    | none =>
      rw [top] at run
      cases run
      rfl
    | some g =>
      rw [top] at run
      cases run
      rfl

theorem cloneMnt_spec (wf : L.WF) (ok : GraphOK t) (tidy : Tidy t) (public_ : flag.priv = false) (here : t.alive old = true)
    (run : t.cloneMnt L old root flag = some (v, id)) : Cloned L t old root flag id v := by
  obtain ⟨free, k, gid, rfl⟩ := cloneMnt_links run public_
  have lone := (tidy id free).graph
  have apart : old ≠ id := fun same => by
    rw [same, free] at here
    cases here
  have graph : (t.cloneRec L id old root k).graph = _ := cloneRec_graph ok lone
  have recorded : Recorded L t old root id (t.cloneRec L id old root k) := cloneRec_recorded
  generalize t.cloneRec L id old root k = u at graph recorded
  have u_gid : u.gid = Function.update t.gid id k := congrArg PeerGraph.gid graph
  have u_npeer : u.npeer = t.npeer := congrArg PeerGraph.next graph
  have u_master : u.master = t.master := congrArg PeerGraph.master graph
  have u_slaves : u.slaves = t.slaves := congrArg PeerGraph.slaves graph
  have peers : u.Peers id old ↔ k = t.gid old ∧ k ≠ 0 := by
    rw [Peers, u_gid, Function.update_self, Function.update_of_ne apart]
  have done : ∀ {w}, Recorded L t old root id w → Joined t old id flag w.graph → Cloned L t old root flag id w :=
    fun rec joined => ⟨free, rec.frame, rec.shared, rec.unbind, rec.marked, rec.cand, joined⟩
  rcases cloneGid_spec wf tidy public_ gid with ⟨plain, shared, same⟩ | ⟨apart', unused, given⟩
  · rw [if_pos (peers.mpr ⟨same, same ▸ shared⟩), if_neg (by simp [plain])]
    refine done (linkBeside_recorded (recorded.links (by simp) (by simp) (by simp) (by simp) (by simp) (by simp))) ?_
    have joined := linkBeside_graph (u := u.ringInsertAfter old id) lone apart u_gid u_master u_slaves
    rw [joined, same, ringInsertAfter_npeer, u_npeer]
    exact .peer plain shared
  · have not_peers : ¬ u.Peers id old := fun bad => by
      obtain ⟨same, nonzero⟩ := peers.mp bad
      exact unused nonzero old same.symm
    rw [if_neg not_peers]
    split
    · rename_i slave
      refine done (recorded.links (by simp) (by simp) (by simp) (by simp) (by simp) (by simp)) ?_
      have joined : ((u.setMaster id (some old)).slaveAddHead old id).graph = t.graph.addSlave old id k :=
        PeerGraph.ext u_gid u_npeer (by funext y; simp [u_master]) (by funext y; simp [u_slaves])
      rw [joined]
      exact .slave slave.1 slave.2 unused given
    · rename_i other
      have alone : t.gid old = 0 := by
        by_contra nonzero
        exact other ⟨apart'.resolve_right nonzero, nonzero⟩
      refine done (linkBeside_recorded recorded) ?_
      rw [linkBeside_graph lone apart u_gid u_master u_slaves, u_npeer]
      exact .sibling alone unused given

end Links

/-! ### The table with the new mount -/

section Joined

variable {flag : Cl} {g : PeerGraph M} (joined : Joined t old id flag g)

include joined

theorem Joined.gid_old (far : x ≠ id) : g.gid x = t.gid x := by
  cases joined <;> exact Function.update_of_ne far ..

theorem Joined.master_old (far : x ≠ id) : g.master x = t.master x := by
  cases joined <;> exact Function.update_of_ne far ..

/-- Where the copy stands: with its original, or below it. -/
theorem Joined.master_new : g.master id = if flag.slave = true ∧ t.gid old ≠ 0 then some old else t.master old := by
  cases joined with
  | peer plain => simp [plain]
  | sibling alone => simp [alone]
  | slave slave shared => simp [slave, shared]

theorem Joined.gid_new : flag.slave = false ∧ t.gid old ≠ 0 ∧ g.gid id = t.gid old ∨
    (flag.slave = true ∨ t.gid old = 0) ∧ t.graph.Unused (g.gid id) ∧ (g.gid id ≠ 0 ↔ flag.mkshared = true) := by
  cases joined with
  | peer plain shared => exact .inl ⟨plain, shared, Function.update_self ..⟩
  | @sibling alone k unused given =>
    have same : (t.graph.addSibling old id k).gid id = k := Function.update_self ..
    rw [same]
    exact .inr ⟨.inr alone, unused, given⟩
  | @slave slave shared k unused given =>
    have same : (t.graph.addSlave old id k).gid id = k := Function.update_self ..
    rw [same]
    exact .inr ⟨.inl slave, unused, given⟩

theorem Joined.isolated (far : x ≠ id) (lone : t.graph.Isolated x) (ok : GraphOK t) :
    g.Isolated x := by
  refine ⟨(joined.gid_old far).trans lone.gid, (joined.master_old far).trans lone.master, ?_⟩
  cases joined with
  | peer | sibling =>
    simp only [PeerGraph.addPeer_slaves, PeerGraph.addSibling_slaves]
    rw [if_neg (ok.wf.not_master lone), lone.slaves]
  | slave slave shared =>
    have other : x ≠ old := fun same => shared (same ▸ lone.gid)
    simp only [PeerGraph.addSlave_slaves]
    rw [Function.update_of_ne other, lone.slaves]

end Joined

section Cloned

variable {flag : Cl} {root : D} {t' : Table M N D S} (cloned : Cloned L t old root flag id t')

include cloned

theorem Cloned.apart (here : t.alive old = true) : old ≠ id := fun same => by
  rw [same, cloned.free] at here
  cases here

theorem Cloned.graphOK (ok : GraphOK t) (tidy : Tidy t) (here : t.alive old = true)
    (bound : t.unbind old = true → t.gid old = 0) : GraphOK t' := by
  constructor
  · exact cloned.graph.wf ok (tidy id cloned.free).graph (cloned.apart here)
  · intro m shared
    by_cases same : m = id
    · rw [same, cloned.shared, Function.update_self] at shared
      rw [same]
      exact of_decide_eq_true shared
    · rw [cloned.shared, Function.update_of_ne same] at shared
      rw [show t'.gid m = t.gid m from cloned.graph.gid_old same]
      exact ok.shared m shared
  · intro m unbind
    by_cases same : m = id
    · subst same
      rw [cloned.unbind, Function.update_self] at unbind
      simp only [Bool.and_eq_true, decide_eq_true_eq] at unbind
      obtain ⟨⟨-, unbind⟩, zero⟩ := unbind
      refine ⟨by rw [cloned.shared, Function.update_self]; simpa using zero, ?_⟩
      rw [show t'.master m = _ from cloned.graph.master_new, if_neg fun bad => bad.2 (bound unbind)]
      exact (ok.unbind old unbind).2
    · rw [cloned.unbind, Function.update_of_ne same] at unbind
      obtain ⟨unshared, none⟩ := ok.unbind m unbind
      exact ⟨by rw [cloned.shared, Function.update_of_ne same, unshared], (cloned.graph.master_old same).trans none⟩

theorem Cloned.alive (x : M) : t'.alive x = Function.update t.alive id true x := by
  rw [show t'.alive = _ from congrArg Frame.alive cloned.frame]
  rfl

theorem Cloned.umount (x : M) : t'.umount x = Function.update t.umount id false x := by
  rw [show t'.umount = _ from congrArg Frame.umount cloned.frame]
  rfl

theorem Cloned.tidy (ok : GraphOK t) (tidy : Tidy t) : Tidy t' := by
  intro m dead
  have far : m ≠ id := fun same => by
    rw [same, cloned.alive, Function.update_self] at dead
    cases dead
  rw [cloned.alive, Function.update_of_ne far] at dead
  have blank := tidy m dead
  exact {
    graph := cloned.graph.isolated far blank.graph ok
    shared := by rw [cloned.shared, Function.update_of_ne far, blank.shared]
    unbind := by rw [cloned.unbind, Function.update_of_ne far, blank.unbind]
    marked := by rw [cloned.marked, Function.update_of_ne far, blank.marked] }

end Cloned

end Table

end LinuxTla.Mount
