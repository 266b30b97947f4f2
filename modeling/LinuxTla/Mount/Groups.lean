import LinuxTla.Lib.PeerGroups
import LinuxTla.Lib.PeerLeave
import LinuxTla.Lib.Folds
import LinuxTla.Mount.Propagation

/-! The propagation side of the table as a peer graph; leaving a group, and inventing
group ids. -/

namespace LinuxTla.Mount

open Lib

variable {M N D S : Type} [DecidableEq M]

/-- Every id is listed, and a choice from a list is one of its members. -/
structure Layout.WF (L : Layout M D S) : Prop where
  mnts : ∀ m, m ∈ L.mntIds
  chooseMnt : ∀ l x, L.chooseMnt l = some x → x ∈ l
  chooseMnt_some : ∀ l, l ≠ [] → ∃ x, L.chooseMnt l = some x

/-- Everything but the propagation side. -/
structure Frame (M N D S : Type) where
  alive : M → Bool
  sb : M → S
  root : M → D
  parent : M → Option M
  mp : M → D
  hashed : M → Bool
  children : M → List M
  overmount : M → Option M
  ns : M → Option N
  attached : M → Bool
  locked : M → Bool
  umount : M → Bool
  shrink : M → Bool
  onexp : M → Bool
  expmark : M → Bool

namespace Table

@[simps -fullyApplied] def graph (t : Table M N D S) : PeerGraph M := ⟨t.gid, t.npeer, t.master, t.slaves⟩

def frame (t : Table M N D S) : Frame M N D S :=
  ⟨t.alive, t.sb, t.root, t.parent, t.mp, t.hashed, t.children, t.overmount, t.ns, t.attached, t.locked, t.umount, t.shrink,
    t.onexp, t.expmark⟩

section Views

variable (t : Table M N D S)

@[simp] theorem setGid_frame (m : M) (g : ℕ) : (t.setGid m g).frame = t.frame := rfl
@[simp] theorem setShared_frame (m : M) (b : Bool) : (t.setShared m b).frame = t.frame := rfl
@[simp] theorem setUnbind_frame (m : M) (b : Bool) : (t.setUnbind m b).frame = t.frame := rfl
@[simp] theorem setMarked_frame (m : M) (b : Bool) : (t.setMarked m b).frame = t.frame := rfl
@[simp] theorem setMaster_frame (m : M) (x : Option M) : (t.setMaster m x).frame = t.frame := rfl
@[simp] theorem setSlaves_frame (m : M) (s : List M) : (t.setSlaves m s).frame = t.frame := rfl
@[simp] theorem setMntShared_frame (m : M) : (t.setMntShared m).frame = t.frame := rfl
@[simp] theorem slaveDel_frame (m : M) : (t.slaveDel m).frame = t.frame := rfl
@[simp] theorem slaveAddHead_frame (x m : M) : (t.slaveAddHead x m).frame = t.frame := rfl
@[simp] theorem ringInsertAfter_frame (old new : M) : (t.ringInsertAfter old new).frame = t.frame := rfl
@[simp] theorem transferPropagation_frame (m : M) (x : Option M) : (t.transferPropagation m x).frame = t.frame := rfl

end Views

/-- The peer graph is well formed; a shared mount has a group, an unbindable one is private. -/
structure GraphOK (t : Table M N D S) : Prop where
  wf : t.graph.WF
  shared : ∀ m, t.shared m = true → t.gid m ≠ 0
  unbind : ∀ m, t.unbind m = true → t.shared m = false ∧ t.master m = none

/-- T_SHARED is set exactly on mounts with a group id. -/
def Typed (t : Table M N D S) (m : M) : Prop := t.shared m = true ↔ t.gid m ≠ 0

variable {L : Layout M D S} {t t' : Table M N D S} {m x old new : M}

omit [DecidableEq M] in
theorem mem_live (wf : L.WF) : m ∈ t.live L ↔ t.alive m = true := by
  rw [live, List.mem_filter]
  exact ⟨And.right, fun alive => ⟨wf.mnts m, alive⟩⟩

/-! ### Leaving a group -/

theorem ringRemove_spec (wf : L.WF) (run : t.ringRemove L m = some t') :
    ∃ prev, t.npeer prev = m ∧
      t' = { t with npeer := Function.update (Function.update t.npeer prev (t.npeer m)) m m } := by
  obtain ⟨prev, found, same⟩ := Option.bind_eq_some_iff.mp run
  have before := (List.mem_filter.mp (wf.chooseMnt _ _ found)).2
  exact ⟨prev, of_decide_eq_true before, (Option.some.inj same).symm⟩

/-- Where change_mnt_propagation() sends the slaves of `m`. -/
structure Leaving (t : Table M N D S) (m prev : M) (dest : Option M) : Prop where
  before : t.npeer prev = m
  goes : ∀ x, dest = some x → x ≠ m ∧ t.gid x ≠ 0 ∧ t.graph.Above m x
  source : ∀ x, dest = some x → t.master m = some x ∨ t.npeer m = x

omit [DecidableEq M] in
theorem Leaving.to_master (ok : GraphOK t) (alone : t.npeer m = m) : Leaving t m m (t.master m) :=
  ⟨alone, fun x master => ⟨fun here => ok.wf.not_self_master (here ▸ master), ok.wf.owner m x master,
    fun _ levels => (levels.above m x master).le⟩, fun _ master => .inl master⟩

omit [DecidableEq M] in
theorem Leaving.to_nobody (alone : t.npeer m = m) : Leaving t m m none := ⟨alone, nofun, nofun⟩

omit [DecidableEq M] in
theorem Leaving.to_peer (ok : GraphOK t) {prev : M} (before : t.npeer prev = m) (peers : t.npeer m ≠ m) :
    Leaving t m prev (some (t.npeer m)) := by
  have group : t.gid (t.npeer m) = t.gid m := ok.wf.rings.gid_next m
  have nonzero : t.gid (t.npeer m) ≠ 0 := fun zero => peers (ok.wf.rings.alone m (group.symm.trans zero))
  refine ⟨before, fun x dest => ?_, fun x dest => .inr (Option.some.inj dest)⟩
  cases dest
  exact ⟨peers, nonzero, fun level levels => (levels.beside _ _ nonzero group).le⟩

theorem graph_withdraw {u : Table M N D S} {prev : M} {dest : Option M} (ok : GraphOK t) (leaving : Leaving t m prev dest)
    (gid : u.gid = Function.update t.gid m 0)
    (npeer : u.npeer = Function.update (Function.update t.npeer prev (t.npeer m)) m m)
    (master : u.master = Function.update (setOn t.master (t.slaves m) dest) m none)
    (slaves : u.slaves = fun x => seqDel ((t.transferPropagation m dest).slaves x) m) :
    u.graph = t.graph.withdraw prev m dest := by
  have not_self : m ∉ t.slaves m := fun mem => ok.wf.not_self_master ((ok.wf.mem_slaves m m).mp mem)
  have not_dest : dest ≠ some m := fun same => (leaving.goes m same).1 rfl
  have keep : (t.slaves m).filter (· ≠ m) = t.slaves m := List.filter_eq_self.mpr fun x mem =>
    decide_eq_true fun here : x = m => not_self (here ▸ mem)
  refine PeerGraph.ext gid npeer ?_ ?_
  · funext x
    simp only [graph_master, master, PeerGraph.withdraw_master, Function.update_apply, setOn]
    split_ifs with here mem listed listed <;> try rfl
    · exact absurd ((ok.wf.mem_slaves x m).mp mem) listed
    · exact absurd ((ok.wf.mem_slaves x m).mpr listed) mem
  · funext x
    simp only [graph_slaves, slaves, PeerGraph.withdraw_slaves, transferPropagation_slaves, seqDel]
    by_cases here : x = m
    · subst here
      simp [not_dest]
    · simp only [if_neg here]
      split
      · rw [List.filter_append, keep]
      · rfl

/-- What change_mnt_propagation() leaves of the group of `m`, before `m` may become a slave. -/
structure Left (t : Table M N D S) (m : M) (type : PropType) (t' : Table M N D S) : Prop where
  frame : t'.frame = t.frame
  marked : t'.marked = t.marked
  cand : t'.cand = t.cand
  shared : t'.shared = Function.update t.shared m false
  unbind : ∀ y, t'.unbind y = true → y = m ∧ type ≠ .slave ∨ t.unbind y = true
  graph : ∃ prev dest, Leaving t m prev dest ∧ (t'.graph = t.graph.withdraw prev m dest ∨
    type = .slave ∧ ∃ x, (dest = some x ∨ t.master m = some x ∧ dest = none) ∧
      t'.graph = (t.graph.withdraw prev m dest).addSlave x m 0)

theorem Left.becomeType (ok : GraphOK t) (type : PropType) {prev : M} {dest goal : Option M} {u : Table M N D S}
    (aim : goal = dest ∨ goal = t.master m ∧ dest = none) (leaving : Leaving t m prev dest)
    (frame : u.frame = t.frame) (marked : u.marked = t.marked) (cand : u.cand = t.cand)
    (shared : u.shared = Function.update t.shared m false) (unbind : u.unbind = t.unbind)
    (gid : u.gid = Function.update t.gid m 0)
    (npeer : u.npeer = Function.update (Function.update t.npeer prev (t.npeer m)) m m)
    (master : Function.update u.master m none = Function.update (setOn t.master (t.slaves m) dest) m none)
    (slaves : ∀ x, seqDel (u.slaves x) m = seqDel ((t.transferPropagation m dest).slaves x) m) :
    Left t m type (u.becomeType m type goal) := by
  have out : ((u.slaveDel m).setMaster m none).graph = t.graph.withdraw prev m dest :=
    graph_withdraw ok leaving gid npeer master (funext slaves)
  unfold Table.becomeType
  split
  · rename_i slave
    split
    · rename_i x
      refine ⟨frame, marked, cand, shared, fun y h => .inr (unbind ▸ h), prev, dest, leaving, .inr ⟨slave, x, ?_, ?_⟩⟩
      · rcases aim with same | ⟨same, none⟩
        · exact .inl same.symm
        · exact .inr ⟨same.symm, none⟩
      · rw [← out]
        exact PeerGraph.ext (by funext y; simp [gid]) rfl (by funext y; simp) rfl
    · exact ⟨frame, marked, cand, shared, fun y h => .inr (unbind ▸ h), prev, dest, leaving, .inl out⟩
  · rename_i other
    refine ⟨frame, marked, cand, shared, fun y h => ?_, prev, dest, leaving, .inl out⟩
    by_cases here : y = m
    · exact .inl ⟨here, other⟩
    · exact .inr (by simpa [Function.update_of_ne here, unbind] using h)

theorem changeMntPropagation_left (wf : L.WF) (ok : GraphOK t) (typed : t.Typed m) {type : PropType}
    (other : type ≠ .shared) (run : t.changeMntPropagation L m type = some t') : Left t m type t' := by
  rw [changeMntPropagation, if_neg other] at run
  obtain ⟨⟨u, goal⟩, left, same⟩ := Option.bind_eq_some_iff.mp run
  cases same
  rw [leaveGroup] at left
  split at left
  · split at left
    · rename_i alone
      cases left
      exact Left.becomeType ok type (.inl rfl) (.to_master ok alone) rfl rfl rfl rfl rfl rfl (by simp [alone]) rfl fun _ => rfl
    · rename_i peers
      obtain ⟨u', removed, same⟩ := Option.bind_eq_some_iff.mp left
      obtain ⟨prev, before, rfl⟩ := ringRemove_spec wf removed
      cases same
      exact Left.becomeType ok type (.inl rfl) (.to_peer ok before peers) rfl rfl rfl rfl rfl rfl rfl rfl fun _ => rfl
  · rename_i unshared
    cases left
    have zero : t.gid m = 0 := by
      by_contra nonzero
      exact unshared (typed.mpr nonzero)
    have alone : t.npeer m = m := ok.wf.rings.alone m zero
    have empty : t.slaves m = [] := List.eq_nil_iff_forall_not_mem.mpr fun x mem =>
      ok.wf.owner x m ((ok.wf.mem_slaves x m).mp mem) zero
    refine Left.becomeType ok type (.inr ⟨rfl, rfl⟩) (.to_nobody alone) rfl rfl rfl ?_ rfl ?_ ?_ ?_ ?_
    · rw [eq_comm, Function.update_eq_self_iff]
      simpa using unshared
    · rw [eq_comm, Function.update_eq_self_iff, zero]
    · simp [alone]
    · rw [empty, setOn_nil]
    · intro x
      simp only [transferPropagation_slaves]
      by_cases here : x = m
      · simp [here, empty]
      · simp [here]

theorem Leaving.withdrawn (ok : GraphOK t) {prev : M} {dest : Option M} (leaving : Leaving t m prev dest) :
    t.graph.Withdrawn [m] (fun _ => dest) (fun x => if dest = some x then [m, x] else [x]) (t.graph.withdraw prev m dest) :=
  ok.wf.withdraw leaving.before leaving.goes

omit [DecidableEq M] in
theorem Leaving.new_master (ok : GraphOK t) {dest : Option M} {prev : M} (leaving : Leaving t m prev dest)
    (aim : dest = some x ∨ t.master m = some x ∧ dest = none) : x ≠ m ∧ t.gid x ≠ 0 ∧ (t.gid m = 0 → t.master m = some x) := by
  rcases aim with dest | ⟨master, -⟩
  · obtain ⟨far, nonzero, -⟩ := leaving.goes x dest
    refine ⟨far, nonzero, fun zero => (leaving.source x dest).resolve_right fun peer => far ?_⟩
    rw [← peer, show t.npeer m = m from ok.wf.rings.alone m zero]
  · exact ⟨fun here => ok.wf.not_self_master (here ▸ master), ok.wf.owner m x master, fun _ => master⟩

namespace Left

variable {type : PropType} (left : Left t m type t') (ok : GraphOK t)

include left

theorem gid : t'.gid = Function.update t.gid m 0 := by
  obtain ⟨prev, dest, -, graph | ⟨-, x, -, graph⟩⟩ := left.graph
  · exact congrArg PeerGraph.gid graph
  · rw [show t'.gid = _ from congrArg PeerGraph.gid graph]
    exact Function.update_idem ..

include ok

theorem graphOK (typed : t.Typed m) : GraphOK t' := by
  have gid := left.gid
  obtain ⟨prev, dest, leaving, graph⟩ := left.graph
  have gone := leaving.withdrawn ok
  constructor
  · rcases graph with graph | ⟨-, x, aim, graph⟩
    · exact graph ▸ gone.wf ok.wf
    · obtain ⟨far, nonzero, -⟩ := leaving.new_master ok aim
      rw [graph]
      refine (gone.wf ok.wf).addSlave (gone.isolated m (List.mem_singleton_self m)) far ?_ fun bad => absurd rfl bad
      rwa [gone.gid x (by simpa using far)]
  · intro y shared
    rw [left.shared] at shared
    have far : y ≠ m := fun here => by
      rw [here, Function.update_self] at shared
      cases shared
    rw [Function.update_of_ne far] at shared
    rw [gid, Function.update_of_ne far]
    exact ok.shared y shared
  · intro y unbind
    rcases left.unbind y unbind with ⟨rfl, other⟩ | before
    · refine ⟨by rw [left.shared, Function.update_self], ?_⟩
      rcases graph with graph | ⟨slave, -⟩
      · have lone := gone.isolated y (List.mem_singleton_self y)
        rw [← graph] at lone
        exact lone.master
      · exact absurd slave other
    · obtain ⟨unshared, none⟩ := ok.unbind y before
      have master : (t.graph.withdraw prev m dest).master y = Option.none := by
        rw [PeerGraph.withdraw_master, graph_master, none]
        simp
      refine ⟨?_, ?_⟩
      · rw [left.shared, Function.update_apply, unshared, ite_self]
      · rcases graph with graph | ⟨-, x, aim, graph⟩
        · exact (congrFun (congrArg PeerGraph.master graph) y).trans master
        · have far : y ≠ m := fun here => by
            subst here
            have zero : t.gid y = 0 := by
              by_contra nonzero
              rw [typed.mpr nonzero] at unshared
              cases unshared
            rw [(leaving.new_master ok aim).2.2 zero] at none
            cases none
          rw [← graph_master, graph, PeerGraph.addSlave_master, Function.update_of_ne far, master]

theorem isolated (far : x ≠ m) (lone : t.graph.Isolated x) : t'.graph.Isolated x := by
  have gid := left.gid
  obtain ⟨prev, dest, leaving, graph⟩ := left.graph
  have master : (t.graph.withdraw prev m dest).master x = none := by
    rw [PeerGraph.withdraw_master, lone.master]
    simp
  have not_dest : dest ≠ some x := fun here => (leaving.goes x here).2.1 lone.gid
  have slaves : (t.graph.withdraw prev m dest).slaves x = [] := by
    rw [PeerGraph.withdraw_slaves, if_neg far, if_neg not_dest, lone.slaves, List.filter_nil]
  refine ⟨by rw [graph_gid, gid, Function.update_of_ne far]; exact lone.gid, ?_, ?_⟩
  · rcases graph with graph | ⟨-, y, -, graph⟩
    · rw [graph, master]
    · rw [graph, PeerGraph.addSlave_master, Function.update_of_ne far, master]
  · rcases graph with graph | ⟨-, y, aim, graph⟩
    · rw [graph, slaves]
    · have other : x ≠ y := fun here => (leaving.new_master ok aim).2.1 (here ▸ lone.gid)
      rw [graph, PeerGraph.addSlave_slaves, Function.update_of_ne other, slaves]

end Left

/-! ### Inventing group ids -/

omit [DecidableEq M] in
theorem newGid_spec (wf : L.WF) (blank : ∀ m, t.alive m = false → t.gid m = 0) {g : ℕ} (run : t.newGid L = some g) :
    g ≠ 0 ∧ t.graph.Unused g := by
  have found := List.find?_some run
  have listed := List.mem_of_find?_eq_some run
  have positive : g ≠ 0 := by
    have := (List.mem_range'_1.mp listed).1
    omega
  refine ⟨positive, fun _ x same => ?_⟩
  have alive : t.alive x = true := by
    by_contra dead
    exact positive (same.symm.trans (blank x (by simpa using dead)))
  refine absurd ?_ (of_decide_eq_true found)
  exact List.mem_filter.mpr ⟨List.mem_map.mpr ⟨x, (mem_live wf).mpr alive, same⟩, by simpa using positive⟩

/-- The table with the group ids of some private mounts of `s` invented. -/
structure Invented (t : Table M N D S) (s : List M) (t' : Table M N D S) : Prop where
  ok : GraphOK t'
  same : t' = { t with gid := t'.gid }
  gid : ∀ x, t'.gid x = t.gid x ∨ x ∈ s ∧ t.gid x = 0 ∧ t'.gid x ≠ 0

omit [DecidableEq M] in
theorem Invented.refl (ok : GraphOK t) (s : List M) : Invented t s t := ⟨ok, rfl, fun _ => .inl rfl⟩

theorem inventIds_spec (wf : L.WF) (ok : GraphOK t) (blank : ∀ m, t.alive m = false → t.gid m = 0) {s : List M}
    (inside : ∀ m ∈ s, t.alive m = true) (run : t.inventIds L s = some t') :
    Invented t s t' ∧ ∀ x ∈ s, t'.gid x ≠ 0 := by
  have whole := foldlM_split (P := fun done _ u => Invented t s u ∧ ∀ x ∈ done, u.gid x ≠ 0) (l := s) ?_
    ⟨Invented.refl ok s, nofun⟩ run
  · exact whole
  · rintro done m rest u u' split ⟨invented, given⟩ round
    have here : m ∈ s := split ▸ List.mem_append_right done List.mem_cons_self
    split at round
    · rename_i zero
      obtain ⟨g, new, same⟩ := Option.bind_eq_some_iff.mp round
      cases same
      have blank' : ∀ m, u.alive m = false → u.gid m = 0 := fun x dead => by
        have alive : u.alive = t.alive := by rw [invented.same]
        rw [alive] at dead
        rcases invented.gid x with same | ⟨mem, -, -⟩
        · rw [same, blank x dead]
        · rw [inside x mem] at dead
          cases dead
      obtain ⟨positive, unused⟩ := newGid_spec wf blank' new
      refine ⟨⟨⟨invented.ok.wf.setGid zero unused, fun y shared => ?_, invented.ok.unbind⟩, ?_, fun x => ?_⟩, fun x mem => ?_⟩
      · rw [setGid_gid, Function.update_apply]
        split
        · exact positive
        · exact invented.ok.shared y shared
      · rw [invented.same]
        rfl
      · rw [setGid_gid, Function.update_apply]
        split
        · rename_i same
          subst same
          refine .inr ⟨here, ?_, positive⟩
          exact (invented.gid x).elim (fun same => same.symm.trans zero) fun h => h.2.1
        · exact invented.gid x
      · rw [setGid_gid, Function.update_apply]
        split
        · exact positive
        · rename_i far
          exact given x ((List.mem_append.mp mem).resolve_right (by simpa using far))
    · rename_i nonzero
      cases round
      refine ⟨invented, fun x mem => ?_⟩
      rcases List.mem_append.mp mem with mem | mem
      · exact given x mem
      · rwa [List.mem_singleton.mp mem]

end Table

end LinuxTla.Mount
