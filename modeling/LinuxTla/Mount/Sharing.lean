import LinuxTla.Lib.Transition
import LinuxTla.Mount.Clone
import LinuxTla.Mount.Iterators
import LinuxTla.Mount.Private

/-! The propagation graph over whole runs. Mounts come, are copied, change their type,
join a group, are attached below a shared mount, are unmounted and freed, in any order;
the rings, the slave lists and the masters stay what fs/mount.h promises of them. -/

namespace LinuxTla.Mount.Table

open Lib

variable {M N D S : Type} [DecidableEq M]

def Mounted (t : Table M N D S) (m : M) : Prop := t.alive m = true ∧ t.umount m = false

/-- The mount tree changes, or a mark on a mount, and nothing else of the propagation side. -/
structure Aside (t u : Table M N D S) : Prop where
  alive : u.alive = t.alive
  umount : u.umount = t.umount
  graph : u.graph = t.graph
  shared : u.shared = t.shared
  unbind : u.unbind = t.unbind
  marked : ∀ m, t.alive m = false → u.marked m = t.marked m

/-- propagate_mnt(): the source tree has its group ids and is not shared yet; copies are
made, none of an unbindable mount, and attached. -/
inductive Spread (L : Layout M D S) : Table M N D S → Table M N D S → Prop
  | done (t) : Spread L t t
  | copy {t u v old root flag id} (here : t.alive old = true) (public_ : flag.priv = false) (bound : t.unbind old = false)
      (run : t.cloneMnt L old root flag = some (u, id)) (rest : Spread L u v) : Spread L t v
  | aside {t u v} (change : Aside t u) (rest : Spread L u v) : Spread L t v

/-- What the system calls do to the propagation graph. -/
inductive Change (L : Layout M D S) (t : Table M N D S) : Table M N D S → Prop
  | mount {id sb root} (free : t.newId L = some id) : Change L t (t.fresh L id sb root)
  | clone {old root flag id u} (here : t.alive old = true) (public_ : flag.priv = false)
      (run : t.cloneMnt L old root flag = some (u, id)) : Change L t u
  | changeType {s type u} (mounted : ∀ m ∈ s, t.Mounted m) (run : t.changeType L s type = some u) : Change L t u
  | setGroup {source target} (apart : source ≠ target) (mounted : t.Mounted target)
      (private_ : t.shared target = false ∧ t.master target = none)
      (bindable : L.fixSetGroupUnbindable = true → t.unbind target = false)
      (public_ : t.shared source = true ∨ t.master source ≠ none) : Change L t (t.joinGroup source target)
  | attach {s u v} (mounted : ∀ m ∈ s, t.Mounted m) (invent : t.inventIds L s = some u) (spread : Spread L u v) :
      Change L t (v.shareAll s)
  | umount {s u} (nodup : s.Nodup) (there : ∀ m ∈ s, t.alive m = true) (unmarked : t.MarksClear L)
      (run : t.umountAll L s = some u) : Change L t u
  | free {m} (gone : t.umount m = true) : Change L t (t.kill L m)
  | aside {u} (change : Aside t u) : Change L t u

/-- Every run starts without a mount. -/
def propagation (L : Layout M D S) : System (Table M N D S) where
  init t := t = dead L
  next t u := Change L t u

/-- What every step keeps. While a tree is being attached its mounts `s` have groups and
are not shared. -/
structure Tended (t : Table M N D S) (s : List M) : Prop where
  ok : GraphOK t
  tidy : Tidy t
  typed : ∀ m, m ∉ s → t.Typed m
  gone : ∀ m, t.umount m = true → t.graph.Isolated m

/-! ### One step -/

variable {L : Layout M D S} {t u v : Table M N D S} {s : List M} {m x id source target : M}

omit [DecidableEq M] in
theorem GraphOK.isolated_of_gid (ok : GraphOK t) (alone : t.gid m = 0) (none : t.master m = none) : t.graph.Isolated m := by
  refine ⟨alone, none, List.eq_nil_iff_forall_not_mem.mpr fun x mem => ?_⟩
  exact ok.wf.owner x m ((ok.wf.mem_slaves x m).mp mem) alone

omit [DecidableEq M] in
theorem Tended.aside (tended : Tended t s) (change : Aside t u) : Tended u s := by
  have gid : u.gid = t.gid := congrArg PeerGraph.gid change.graph
  have master : u.master = t.master := congrArg PeerGraph.master change.graph
  constructor
  · exact ⟨change.graph ▸ tended.ok.wf, by rw [change.shared, gid]; exact tended.ok.shared,
      by rw [change.unbind, change.shared, master]; exact tended.ok.unbind⟩
  · intro m free
    have free' : t.alive m = false := change.alive ▸ free
    have blank := tended.tidy m free'
    exact ⟨change.graph ▸ blank.graph, change.shared ▸ blank.shared, change.unbind ▸ blank.unbind,
      (change.marked m free').trans blank.marked⟩
  · intro m out
    rw [Typed, change.shared, gid]
    exact tended.typed m out
  · intro m gone
    rw [change.graph]
    exact tended.gone m (change.umount ▸ gone)

/-- A slot is cleared that takes no part in propagation. -/
theorem Tended.kill (tended : Tended t []) (lone : t.graph.Isolated m) : Tended (t.kill L m) [] := by
  have next : t.npeer m = m := tended.ok.wf.next_isolated lone
  have graph : (t.kill L m).graph = t.graph := by
    refine PeerGraph.ext ?_ ?_ ?_ ?_
    · simpa using lone.gid.symm
    · simpa using next.symm
    · simpa using lone.master.symm
    · simpa using lone.slaves.symm
  constructor
  · refine ⟨graph ▸ tended.ok.wf, fun x shared => ?_, fun x unbind => ?_⟩
    · by_cases here : x = m
      · rw [kill_shared, here, Function.update_self] at shared
        cases shared
      · rw [kill_shared, Function.update_of_ne here] at shared
        rw [kill_gid, Function.update_of_ne here]
        exact tended.ok.shared x shared
    · by_cases here : x = m
      · rw [kill_unbind, here, Function.update_self] at unbind
        cases unbind
      · rw [kill_unbind, Function.update_of_ne here] at unbind
        rw [kill_shared, kill_master, Function.update_of_ne here, Function.update_of_ne here]
        exact tended.ok.unbind x unbind
  · intro x free
    by_cases here : x = m
    · rw [here]
      exact ⟨graph ▸ lone, by simp, by simp, by simp⟩
    · rw [kill_alive, Function.update_of_ne here] at free
      have blank := tended.tidy x free
      exact ⟨graph ▸ blank.graph, by simpa [here] using blank.shared, by simpa [here] using blank.unbind,
        by simpa [here] using blank.marked⟩
  · intro x _
    by_cases here : x = m
    · simp [Typed, here]
    · simpa [Typed, here] using tended.typed x (List.not_mem_nil)
  · intro x gone
    by_cases here : x = m
    · rw [kill_umount, here, Function.update_self] at gone
      cases gone
    · rw [kill_umount, Function.update_of_ne here] at gone
      exact graph ▸ tended.gone x gone

theorem Tended.fresh (tended : Tended t []) (free : t.alive id = false) {sb : S} {root : D} :
    Tended (t.fresh L id sb root) [] := by
  have cleared : Tended (t.kill L id) [] := tended.kill (tended.tidy id free).graph
  refine ⟨⟨cleared.ok.wf, cleared.ok.shared, cleared.ok.unbind⟩, fun m gone => ?_, cleared.typed, cleared.gone⟩
  have far : m ≠ id := fun here => by
    rw [fresh_alive, here, Function.update_self] at gone
    cases gone
  rw [fresh_alive, Function.update_of_ne far] at gone
  have blank := cleared.tidy m (by rwa [kill_alive, Function.update_of_ne far])
  exact ⟨blank.graph, blank.shared, blank.unbind, blank.marked⟩

/-- A copy of a mount that is not about to be shared. -/
theorem Tended.clone (wf : L.WF) (tended : Tended t s) {old : M} {root : D} {flag : Cl} (here : t.alive old = true)
    (public_ : flag.priv = false) (bound : t.unbind old = true → t.gid old = 0)
    (run : t.cloneMnt L old root flag = some (u, id)) : Tended u s := by
  have cloned := cloneMnt_spec wf tended.ok tended.tidy public_ here run
  constructor
  · exact cloned.graphOK tended.ok tended.tidy here bound
  · exact cloned.tidy tended.ok tended.tidy
  · intro m out
    rw [Typed, cloned.shared]
    by_cases same : m = id
    · rw [same, Function.update_self, decide_eq_true_eq]
    · rw [Function.update_of_ne same, show u.gid m = t.gid m from cloned.graph.gid_old same]
      exact tended.typed m out
  · intro m gone
    have far : m ≠ id := fun same => by
      rw [cloned.umount, same, Function.update_self] at gone
      cases gone
    rw [cloned.umount, Function.update_of_ne far] at gone
    exact cloned.graph.isolated far (tended.gone m gone) tended.ok

/-- A mount leaves its group; one of its mounts that is unmounted already is no part of one. -/
theorem Tended.change (wf : L.WF) (tended : Tended t []) (mounted : t.Mounted m) {type : PropType} (other : type ≠ .shared)
    (run : t.changeMntPropagation L m type = some u) : Tended u [] ∧ u.alive = t.alive ∧ u.umount = t.umount := by
  have typed := tended.typed m (List.not_mem_nil)
  have left := changeMntPropagation_left wf tended.ok typed other run
  have alive : u.alive = t.alive := congrArg Frame.alive left.frame
  have umount : u.umount = t.umount := congrArg Frame.umount left.frame
  refine ⟨⟨left.graphOK tended.ok typed, fun x free => ?_, fun x _ => ?_, fun x gone => ?_⟩, alive, umount⟩
  · rw [alive] at free
    have far : x ≠ m := fun here => by
      rw [here, mounted.1] at free
      cases free
    have blank := tended.tidy x free
    refine ⟨left.isolated tended.ok far blank.graph, ?_, ?_, left.marked ▸ blank.marked⟩
    · rw [left.shared, Function.update_of_ne far, blank.shared]
    · by_contra unbind
      rcases left.unbind x (by simpa using unbind) with ⟨here, -⟩ | before
      · exact far here
      · rw [blank.unbind] at before
        cases before
  · rw [Typed, left.shared, left.gid]
    by_cases here : x = m
    · simp [here]
    · rw [Function.update_of_ne here, Function.update_of_ne here]
      exact tended.typed x (List.not_mem_nil)
  · rw [umount] at gone
    have far : x ≠ m := fun here => by
      rw [here, mounted.2] at gone
      cases gone
    exact left.isolated tended.ok far (tended.gone x gone)

theorem Tended.invent (wf : L.WF) (tended : Tended t []) (mounted : ∀ m ∈ s, t.Mounted m) (run : t.inventIds L s = some u) :
    Tended u s ∧ (∀ m ∈ s, u.Mounted m) ∧ ∀ m ∈ s, u.gid m ≠ 0 := by
  have blank : ∀ m, t.alive m = false → t.gid m = 0 := fun m free => (tended.tidy m free).graph.gid
  obtain ⟨invented, given⟩ := inventIds_spec wf tended.ok blank (fun m mem => (mounted m mem).1) run
  have kept : ∀ x, x ∉ s → u.gid x = t.gid x := fun x out => (invented.gid x).resolve_right fun new => out new.1
  have lone : ∀ x, x ∉ s → t.graph.Isolated x → u.graph.Isolated x := fun x out isolated => by
    rw [invented.same]
    exact ⟨(kept x out).trans isolated.gid, isolated.master, isolated.slaves⟩
  have rest : u.alive = t.alive ∧ u.umount = t.umount ∧ u.shared = t.shared ∧ u.unbind = t.unbind ∧ u.marked = t.marked := by
    rw [invented.same]
    exact ⟨rfl, rfl, rfl, rfl, rfl⟩
  obtain ⟨alive, umount, shared, unbind, marked⟩ := rest
  refine ⟨⟨invented.ok, fun x free => ?_, fun x out => ?_, fun x gone => ?_⟩, fun m mem => ?_, given⟩
  · rw [alive] at free
    have out : x ∉ s := fun mem => by
      rw [(mounted x mem).1] at free
      cases free
    have blank := tended.tidy x free
    exact ⟨lone x out blank.graph, shared ▸ blank.shared, unbind ▸ blank.unbind, marked ▸ blank.marked⟩
  · rw [Typed, shared, kept x out]
    exact tended.typed x (List.not_mem_nil)
  · rw [umount] at gone
    have out : x ∉ s := fun mem => by
      rw [(mounted x mem).2] at gone
      cases gone
    exact lone x out (tended.gone x gone)
  · rw [Mounted, alive, umount]
    exact mounted m mem

theorem Tended.share (tended : Tended t s) (mounted : ∀ m ∈ s, t.Mounted m) (given : ∀ m ∈ s, t.gid m ≠ 0) :
    Tended (t.shareAll s) [] := by
  constructor
  · refine ⟨tended.ok.wf, fun m shared => ?_, fun m unbind => ?_⟩
    · by_cases mem : m ∈ s
      · exact given m mem
      · rw [shareAll_shared, setOn_of_notMem mem] at shared
        exact tended.ok.shared m shared
    · by_cases mem : m ∈ s
      · rw [shareAll_unbind, setOn_of_mem mem] at unbind
        cases unbind
      · rw [shareAll_unbind, setOn_of_notMem mem] at unbind
        rw [shareAll_shared, setOn_of_notMem mem]
        exact tended.ok.unbind m unbind
  · intro m free
    have blank := tended.tidy m free
    have out : m ∉ s := fun mem => Bool.false_ne_true (Eq.trans free.symm (mounted m mem).1)
    exact ⟨blank.graph, by rw [shareAll_shared, setOn_of_notMem out, blank.shared],
      by rw [shareAll_unbind, setOn_of_notMem out, blank.unbind], blank.marked⟩
  · intro m _
    rw [Typed, shareAll_shared]
    by_cases mem : m ∈ s
    · rw [setOn_of_mem mem]
      exact ⟨fun _ => given m mem, fun _ => rfl⟩
    · rw [setOn_of_notMem mem]
      exact tended.typed m mem
  · exact tended.gone

theorem setOn_update {α : Type} (f : M → α) (s : List M) (m : M) (v : α) :
    setOn (Function.update f m v) s v = setOn f (m :: s) v := by
  funext x
  simp only [setOn, List.mem_cons, Function.update_apply]
  split <;> simp_all

theorem share_each (s : List M) : s.foldlM (fun mt m => mt.changeMntPropagation L m .shared) t = some (t.shareAll s) := by
  induction s generalizing t with
  | nil => rfl
  | cons m s ih =>
    rw [List.foldlM_cons, changeMntPropagation, if_pos rfl]
    refine ih.trans (congrArg some ?_)
    simp [shareAll, setMntShared, setShared, setUnbind, setOn_update]

theorem Tended.changeType (wf : L.WF) (tended : Tended t []) (mounted : ∀ m ∈ s, t.Mounted m) {type : PropType}
    (run : t.changeType L s type = some u) : Tended u [] := by
  obtain ⟨v, first, run⟩ := Option.bind_eq_some_iff.mp run
  by_cases share : type = .shared
  · subst share
    rw [if_pos rfl] at first
    obtain ⟨tended', mounted', given⟩ := tended.invent wf mounted first
    rw [share_each, Option.some.injEq] at run
    exact run ▸ tended'.share mounted' given
  · rw [if_neg share] at first
    cases first
    have kept := foldlM_keeps (P := fun u => Tended u [] ∧ u.alive = t.alive ∧ u.umount = t.umount) ?_ ⟨tended, rfl, rfl⟩ run
    · exact kept.1
    · rintro v m w mem ⟨tended, alive, umount⟩ round
      have mounted : v.Mounted m := by
        rw [Mounted, alive, umount]
        exact mounted m mem
      obtain ⟨tended', alive', umount'⟩ := tended.change wf mounted share round
      exact ⟨tended', alive'.trans alive, umount'.trans umount⟩

theorem joinGroup_eq (t : Table M N D S) (source target : M) : t.joinGroup source target =
    if t.shared source then
      (((linkBeside t t source target).setGid target (t.gid source)).ringInsertAfter source target).setMntShared target
    else linkBeside t t source target := by
  unfold joinGroup linkBeside
  cases t.master source <;> rfl

theorem joinGroup_joined (typed : t.Typed source) (apart : source ≠ target) (lone : t.graph.Isolated target) :
    Joined t source target ⟨false, false, false, false, false⟩ (t.joinGroup source target).graph := by
  have alone : t.gid = Function.update t.gid target 0 := (Function.update_eq_self_iff.mpr lone.gid.symm).symm
  have beside : (linkBeside t t source target).graph = t.graph.addBeside source target 0 t.npeer :=
    linkBeside_graph lone apart alone rfl rfl
  rw [joinGroup_eq]
  split
  · rename_i shared
    have gid : (linkBeside t t source target).gid = Function.update t.gid target 0 := congrArg PeerGraph.gid beside
    have next : (linkBeside t t source target).npeer = t.npeer := congrArg PeerGraph.next beside
    have master : (linkBeside t t source target).master = _ := congrArg PeerGraph.master beside
    have slaves : (linkBeside t t source target).slaves = _ := congrArg PeerGraph.slaves beside
    have joined : ((((linkBeside t t source target).setGid target (t.gid source)).ringInsertAfter source target).setMntShared
        target).graph = t.graph.addPeer source target := by
      refine PeerGraph.ext ?_ ?_ ?_ ?_
      · rw [graph_gid, setMntShared_gid, ringInsertAfter_gid, setGid_gid, gid, Function.update_idem]
        rfl
      · rw [graph_next, setMntShared_npeer, ringInsertAfter_npeer, setGid_npeer, next]
        rfl
      · rw [graph_master, setMntShared_master, ringInsertAfter_master, setGid_master, master]
        rfl
      · rw [graph_slaves, setMntShared_slaves, ringInsertAfter_slaves, setGid_slaves, slaves]
        rfl
    rw [joined]
    exact .peer rfl (typed.mp shared)
  · rename_i unshared
    have alone : t.gid source = 0 := by
      by_contra nonzero
      exact unshared (typed.mpr nonzero)
    rw [beside]
    exact .sibling alone (fun bad => absurd rfl bad) (by simp)

theorem joinGroup_same (t : Table M N D S) (source target : M) : (t.joinGroup source target).frame = t.frame ∧
    (t.joinGroup source target).marked = t.marked ∧
    (t.joinGroup source target).shared = (if t.shared source then Function.update t.shared target true else t.shared) ∧
    (t.joinGroup source target).unbind = if t.shared source then Function.update t.unbind target false else t.unbind := by
  obtain ⟨frame, -, shared, unbind, marked, -⟩ := @linkBeside_same M N D S _ t t source target
  rw [joinGroup_eq]
  split
  · exact ⟨by simpa using frame, by simpa using marked, by simp [shared], by simp [unbind]⟩
  · exact ⟨frame, marked, shared, unbind⟩

/-- An unbindable target would get a master, which is what the fix of MOVE_MOUNT_SET_GROUP is about. -/
theorem Tended.joinGroup (tended : Tended t []) (apart : source ≠ target) (mounted : t.Mounted target)
    (private_ : t.shared target = false ∧ t.master target = none) (bindable : t.unbind target = false) :
    Tended (t.joinGroup source target) [] := by
  have typed : ∀ m, t.Typed m := fun m => tended.typed m List.not_mem_nil
  have alone : t.gid target = 0 := by
    by_contra nonzero
    rw [(typed target).mpr nonzero] at private_
    cases private_.1
  have lone := tended.ok.isolated_of_gid alone private_.2
  have joined := joinGroup_joined (typed source) apart lone
  obtain ⟨frame, marked, shared, unbind⟩ := joinGroup_same t source target
  have gid_old : ∀ {x}, x ≠ target → (t.joinGroup source target).gid x = t.gid x := joined.gid_old
  have shared_old : ∀ {x}, x ≠ target → (t.joinGroup source target).shared x = t.shared x := fun far => by
    rw [shared]
    split
    · rw [Function.update_of_ne far]
    · rfl
  have unbind_old : ∀ {x}, x ≠ target → (t.joinGroup source target).unbind x = t.unbind x := fun far => by
    rw [unbind]
    split
    · rw [Function.update_of_ne far]
    · rfl
  have unbind_new : (t.joinGroup source target).unbind target = false := by
    rw [unbind]
    split
    · rw [Function.update_self]
    · exact bindable
  have typed_new : (t.joinGroup source target).Typed target := by
    rcases joined.gid_new with ⟨-, nonzero, same⟩ | ⟨zero, -, given⟩
    · have given : (t.joinGroup source target).gid target ≠ 0 := fun zero => nonzero (same.symm.trans zero)
      rw [Typed, shared, if_pos ((typed source).mpr nonzero), Function.update_self]
      exact ⟨fun _ => given, fun _ => rfl⟩
    · have zero : t.gid source = 0 := zero.resolve_left Bool.false_ne_true
      have none : (t.joinGroup source target).gid target = 0 := by
        by_contra nonzero
        exact Bool.false_ne_true (given.mp nonzero)
      rw [Typed, shared, if_neg fun bad => (typed source).mp bad zero, private_.1, none]
      simp
  have alive : (t.joinGroup source target).alive = t.alive := congrArg Frame.alive frame
  have umount : (t.joinGroup source target).umount = t.umount := congrArg Frame.umount frame
  have typed' : ∀ m, (t.joinGroup source target).Typed m := fun m => by
    by_cases here : m = target
    · exact here ▸ typed_new
    · rw [Typed, shared_old here, gid_old here]
      exact typed m
  refine ⟨⟨joined.wf tended.ok lone apart, fun m => (typed' m).mp, fun m unbind => ?_⟩, fun m free => ?_,
    fun m _ => typed' m, fun m gone => ?_⟩
  · have far : m ≠ target := fun here => by
      rw [here, unbind_new] at unbind
      cases unbind
    rw [unbind_old far] at unbind
    rw [shared_old far, show (t.joinGroup source target).master m = t.master m from joined.master_old far]
    exact tended.ok.unbind m unbind
  · rw [alive] at free
    have far : m ≠ target := fun here => by
      rw [here, mounted.1] at free
      cases free
    have blank := tended.tidy m free
    exact ⟨joined.isolated far blank.graph tended.ok, (shared_old far).trans blank.shared, (unbind_old far).trans blank.unbind,
      marked ▸ blank.marked⟩
  · rw [umount] at gone
    have far : m ≠ target := fun here => by
      rw [here, mounted.2] at gone
      cases gone
    exact joined.isolated far (tended.gone m gone) tended.ok

theorem Tended.spread (wf : L.WF) (tended : Tended t s) (mounted : ∀ m ∈ s, t.Mounted m) (given : ∀ m ∈ s, t.gid m ≠ 0)
    (spread : Spread L t u) : Tended u s ∧ (∀ m ∈ s, u.Mounted m) ∧ ∀ m ∈ s, u.gid m ≠ 0 := by
  induction spread with
  | done => exact ⟨tended, mounted, given⟩
  | @copy t u v old root flag id here public_ bound run _ ih =>
    have cloned := cloneMnt_spec wf tended.ok tended.tidy public_ here run
    have far : ∀ m ∈ s, m ≠ id := fun m mem same => by
      rw [same] at mem
      exact Bool.false_ne_true (cloned.free.symm.trans (mounted id mem).1)
    refine ih (tended.clone wf here public_ (fun bad => ?_) run) (fun m mem => ?_) fun m mem => ?_
    · rw [bound] at bad
      cases bad
    · rw [Mounted, cloned.alive, cloned.umount, Function.update_of_ne (far m mem), Function.update_of_ne (far m mem)]
      exact mounted m mem
    · rw [show u.gid m = t.gid m from cloned.graph.gid_old (far m mem)]
      exact given m mem
  | @aside t u v change _ ih =>
    refine ih (tended.aside change) (fun m mem => ?_) fun m mem => ?_
    · rw [Mounted, change.alive, change.umount]
      exact mounted m mem
    · rw [show u.gid = t.gid from congrArg PeerGraph.gid change.graph]
      exact given m mem

theorem Tended.umount (wf : L.WF) (tended : Tended t []) (nodup : s.Nodup) (there : ∀ m ∈ s, t.alive m = true)
    (unmarked : t.MarksClear L) (run : t.umountAll L s = some u) : Tended u [] := by
  have typed : ∀ m, t.Typed m := fun m => tended.typed m List.not_mem_nil
  have doomed : Doomed { t with umount := setOn t.umount s true } s := {
    sound := tended.ok.wf.toSound
    nodup := nodup
    typed := fun m _ => typed m
    umount := fun m mem => setOn_of_mem mem
    private_ := fun m gone out => tended.gone m ((setOn_of_notMem out).symm.trans gone)
    unmarked := fun m mem => (unmarked m ((mem_live wf).mpr (there m mem))).1 }
  have done := bulkMakePrivate_spec wf doomed run
  obtain ⟨dest, owners, out, -⟩ := done.graph
  have graph : u.graph.WF := out.wf tended.ok.wf
  have lone : ∀ m, t.graph.Isolated m → u.graph.Isolated m := fun m isolated => by
    by_cases mem : m ∈ s
    · exact out.isolated m mem
    · have gid : u.gid m = 0 := (out.gid m mem).trans isolated.gid
      have master : u.master m = none := by
        have lifted := out.master m mem
        rwa [graph_master, graph_master, show t.master m = none from isolated.master] at lifted
      refine ⟨gid, master, List.eq_nil_iff_forall_not_mem.mpr fun x listed => ?_⟩
      exact graph.owner x m ((graph.mem_slaves x m).mp listed) gid
  have typed' : ∀ m, u.Typed m := fun m => by
    rw [Typed, done.shared]
    split
    · rename_i mem
      rw [show u.gid m = 0 from (out.isolated m mem).gid]
      simp
    · rename_i mem
      rw [show u.gid m = t.gid m from out.gid m mem]
      exact typed m
  have alive : u.alive = t.alive := congrArg Frame.alive done.frame
  have umount : u.umount = setOn t.umount s true := congrArg Frame.umount done.frame
  refine ⟨⟨graph, fun m => (typed' m).mp, fun m unbind => ?_⟩, fun m free => ?_, fun m _ => typed' m, fun m gone => ?_⟩
  · rw [done.unbind] at unbind
    obtain ⟨unshared, none⟩ := tended.ok.unbind m unbind
    by_cases mem : m ∈ s
    · exact ⟨by rw [done.shared, if_pos mem], (out.isolated m mem).master⟩
    · refine ⟨by rw [done.shared, if_neg mem]; exact unshared, ?_⟩
      have lifted := out.master m mem
      rwa [graph_master, graph_master, show t.master m = Option.none from none] at lifted
  · rw [alive] at free
    have blank := tended.tidy m free
    have mem : m ∉ s := fun mem => by
      rw [there m mem] at free
      cases free
    exact ⟨lone m blank.graph, by rw [done.shared, if_neg mem]; exact blank.shared, done.unbind ▸ blank.unbind,
      done.marked ▸ blank.marked⟩
  · by_cases mem : m ∈ s
    · exact out.isolated m mem
    · rw [umount, setOn_of_notMem mem] at gone
      exact lone m (tended.gone m gone)

/-! ### Runs -/

theorem Tended.step (wf : L.WF) (fixed : L.fixSetGroupUnbindable = true) (tended : Tended t []) (change : Change L t u) :
    Tended u [] := by
  cases change with
  | mount free => exact tended.fresh (newId_free free)
  | clone here public_ run =>
    refine tended.clone wf here public_ (fun unbind => ?_) run
    by_contra nonzero
    have shared := (tended.typed _ List.not_mem_nil).mpr nonzero
    rw [(tended.ok.unbind _ unbind).1] at shared
    cases shared
  | changeType mounted run => exact tended.changeType wf mounted run
  | setGroup apart mounted private_ bindable _ => exact tended.joinGroup apart mounted private_ (bindable fixed)
  | attach mounted invent spread =>
    obtain ⟨begun, mounted, given⟩ := tended.invent wf mounted invent
    obtain ⟨tended, mounted, given⟩ := begun.spread wf mounted given spread
    exact tended.share mounted given
  | umount nodup there unmarked run => exact tended.umount wf nodup there unmarked run
  | free gone => exact tended.kill (tended.gone _ gone)
  | aside change => exact tended.aside change

omit [DecidableEq M] in
theorem Tended.dead : Tended (dead L : Table M N D S) [] := by
  have isolated : ∀ m, (Table.dead L : Table M N D S).graph.Isolated m := fun _ => ⟨rfl, rfl, rfl⟩
  refine ⟨⟨?_, nofun, nofun⟩, fun m _ => ⟨isolated m, rfl, rfl, rfl⟩, fun _ _ => ⟨nofun, fun bad => absurd rfl bad⟩,
    fun m _ => isolated m⟩
  exact {
    rings := ⟨fun _ _ same => same, fun _ => rfl, fun _ _ => rfl, fun _ _ bad => absurd rfl bad⟩
    mem_slaves := fun _ _ => ⟨nofun, nofun⟩
    nodup := fun _ => List.nodup_nil
    owner := nofun
    one_master := fun _ _ bad => absurd rfl bad
    segment := fun _ _ _ _ _ bad => absurd rfl bad
    levels := ⟨fun _ => 0, nofun, fun _ _ bad => absurd rfl bad⟩
    aligned := fun _ _ _ _ bad => absurd rfl bad }

theorem tended_invariant (wf : L.WF) (fixed : L.fixSetGroupUnbindable = true) :
    (propagation L : System (Table M N D S)).Invariant (Tended · []) :=
  .of_step (fun _ start => start ▸ .dead) fun _ _ tended change => tended.step wf fixed change

/-- In every table a run comes to the peer rings are the groups, the slave lists are in
order, peers follow each other on both, and nobody is above himself. -/
theorem propagation_sound (wf : L.WF) (fixed : L.fixSetGroupUnbindable = true) (reached : (propagation L).Reachable t) :
    t.SharedOK L ∧ t.RingOK L ∧ t.SlavesOK L ∧ t.UnbindableOK L ∧ t.MastersAcyclic L ∧ t.RingsFollowLists L ∧
      ∀ m ∈ t.live L, t.umount m = true → t.shared m = false ∧ t.npeer m = m ∧ t.master m = none ∧ t.slaves m = [] := by
  have tended := tended_invariant wf fixed t reached
  have sound := tended.ok.wf.toSound
  obtain ⟨shared, ring, slaves⟩ := parts_of_sound wf sound
    (fun m free => ⟨(tended.tidy m free).graph.gid, (tended.tidy m free).graph.master⟩) fun m _ => tended.typed m List.not_mem_nil
  obtain ⟨level, levels⟩ := sound.levels
  refine ⟨shared, ring, slaves, fun m _ => tended.ok.unbind m, fun m _ => ?_, fun m _ a b => tended.ok.wf.aligned m a b,
    fun m live gone => ?_⟩
  · exact Acyclic.irrefl ⟨level, levels.above⟩
  · have lone := tended.gone m gone
    refine ⟨?_, sound.next_isolated lone, lone.master, lone.slaves⟩
    by_contra still
    exact (shared m live).mp (by simpa using still) lone.gid

section Family

def plainly : Cl := ⟨false, false, false, false, false⟩

/-- A shared mount 0, its peer 1 and its slave 2; then 0 is unmounted and freed. -/
def single : Table (Fin 3) Unit Unit Unit := (dead (plain 3)).fresh (plain 3) 0 () ()
def sharing : Table (Fin 3) Unit Unit Unit := (single.changeType (plain 3) [0] .shared).getD single
def pair : Table (Fin 3) Unit Unit Unit := ((sharing.cloneMnt (plain 3) 0 () plainly).map Prod.fst).getD sharing
def family : Table (Fin 3) Unit Unit Unit :=
  ((pair.cloneMnt (plain 3) 0 () { plainly with slave := true }).map Prod.fst).getD pair
def bereft : Table (Fin 3) Unit Unit Unit := (family.umountAll (plain 3) [0]).getD family

theorem bereft_reached : (propagation (plain 3)).Reachable (bereft.kill (plain 3) 0) := by
  have free : (dead (plain 3) : Table (Fin 3) Unit Unit Unit).newId (plain 3) = some 0 := by decide
  have first : (propagation (plain 3)).Reachable single := (System.Reachable.init rfl).next (.mount free)
  have mounted : ∀ m ∈ [0], single.Mounted m := by
    unfold Mounted
    decide
  have share : single.changeType (plain 3) [0] .shared = some sharing := rfl
  have shared : (propagation (plain 3)).Reachable sharing := first.next (.changeType mounted share)
  have copy : sharing.cloneMnt (plain 3) 0 () plainly = some (pair, 1) := rfl
  have peer : (propagation (plain 3)).Reachable pair := shared.next (.clone (by decide) rfl copy)
  have enslave : pair.cloneMnt (plain 3) 0 () { plainly with slave := true } = some (family, 2) := rfl
  have slave : (propagation (plain 3)).Reachable family := peer.next (.clone (by decide) rfl enslave)
  have unmarked : family.MarksClear (plain 3) := by
    unfold MarksClear
    decide
  have parted : (propagation (plain 3)).Reachable bereft :=
    slave.next (.umount (List.nodup_singleton 0) (by decide) unmarked rfl)
  exact parted.next (.free (by decide))

/-- The slave of the mount that is gone has found its peer. -/
theorem bereft_sound : (bereft.kill (plain 3) 0).alive 0 = false ∧ (bereft.kill (plain 3) 0).master 2 = some 1 ∧
    (bereft.kill (plain 3) 0).RingOK (plain 3) ∧ (bereft.kill (plain 3) 0).SlavesOK (plain 3) := by
  obtain ⟨-, ring, slaves, -⟩ := propagation_sound (plain_wf 3) rfl bereft_reached
  exact ⟨by decide, by decide, ring, slaves⟩

end Family

end LinuxTla.Mount.Table
