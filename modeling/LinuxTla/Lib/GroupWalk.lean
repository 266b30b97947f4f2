import LinuxTla.Lib.PeerWalk

/-! A walk over the peer groups below a node: the walk over the nodes, less those that
come right after a peer. -/

namespace LinuxTla.Lib.PeerGraph

open List

variable {α : Type u} [DecidableEq α]

def SameGroup (g : PeerGraph α) (a b : α) : Prop := a = b ∨ g.gid a ≠ 0 ∧ g.gid a = g.gid b

/-- `x` stands right behind a peer on the list of their master. -/
def Trails (g : PeerGraph α) (x : α) : Prop := ∃ w, g.nextSlave w = some x ∧ g.gid w ≠ 0 ∧ g.gid w = g.gid x

/-- `x` is not the first of a group below `origin`. -/
def Joins (g : PeerGraph α) (origin x : α) : Prop := g.gid x = g.gid origin ∨ g.Trails x

/-- Where the walk over groups goes from a node: before it has looked at the slaves of
the node, or when it is done with everything below them. -/
inductive Groups (g : PeerGraph α) (origin : α) : Bool → α → Option α → Prop
  | down {x s : α} {l : List α} (slaves : g.slaves x = s :: l) : Groups g origin true x (some s)
  | empty {x : α} {n : Option α} (slaves : g.slaves x = []) (rest : Groups g origin false x n) : Groups g origin true x n
  | ended {x : α} (own : g.gid x = g.gid origin) (last : g.next x = origin) : Groups g origin false x none
  | ring {x : α} {n : Option α} (own : g.gid x = g.gid origin) (more : g.next x ≠ origin)
      (rest : Groups g origin true (g.next x) n) : Groups g origin false x n
  | peer {x : α} {n : Option α} (other : g.gid x ≠ g.gid origin) (beside : g.nextSlave x = some (g.next x))
      (rest : Groups g origin true (g.next x) n) : Groups g origin false x n
  | found {x s : α} (other : g.gid x ≠ g.gid origin) (behind : g.nextSlave x = some s) (apart : s ≠ g.next x) :
      Groups g origin false x (some s)
  | climb {x y : α} {n : Option α} (other : g.gid x ≠ g.gid origin) (last : g.nextSlave x = none)
      (master : g.master x = some y) (rest : Groups g origin false y n) : Groups g origin false x n

/-- `r` has one node of every group below `origin` but its own, each behind one of its master's group. -/
structure PerGroup (g : PeerGraph α) (origin : α) (r : List α) : Prop where
  inside : ∀ x ∈ r, g.Receives origin x ∧ ¬ g.SameGroup origin x
  cover : ∀ y, g.Receives origin y → ¬ g.SameGroup origin y → ∃ x ∈ r, g.SameGroup x y
  once : r.Pairwise fun x y => ¬ g.SameGroup x y
  masters : ∀ before x behind, r = before ++ x :: behind →
    ∃ z, g.master x = some z ∧ (g.SameGroup origin z ∨ ∃ w ∈ before, g.SameGroup w z)

variable {g : PeerGraph α} {origin x y s : α}

namespace Sound

variable (sound : g.Sound)

include sound

theorem nextSlave_some (behind : g.nextSlave x = some s) :
    ∃ y before rest, g.master x = some y ∧ g.slaves y = before ++ x :: s :: rest := by
  obtain ⟨y, master, _⟩ := Option.bind_eq_some_iff.mp behind
  obtain ⟨before, rest, split⟩ := append_of_mem ((sound.mem_slaves x y).mpr master)
  rw [sound.nextSlave_split split] at behind
  obtain ⟨rest, rfl⟩ := head?_eq_some_iff.mp behind
  exact ⟨y, before, rest, master, split⟩

theorem nextSlave_master (behind : g.nextSlave x = some s) : g.master s = g.master x := by
  obtain ⟨y, before, rest, master, split⟩ := sound.nextSlave_some behind
  rw [master, ← sound.mem_slaves, split]
  simp

/-- What stands before `s` on a list ends with whoever `s` is behind. -/
theorem nextSlave_last (behind : g.nextSlave x = some s) {before rest : List α} (split : g.slaves y = before ++ s :: rest) :
    ∃ l, before = l ++ [x] := by
  obtain ⟨y', l, rest', master, split'⟩ := sound.nextSlave_some behind
  have here : g.master s = some y := (sound.mem_slaves s y).mp (split ▸ mem_append_right before mem_cons_self)
  rw [sound.nextSlave_master behind, master, Option.some.injEq] at here
  rw [here, append_cons] at split'
  have nodup := sound.nodup y
  rw [split] at nodup
  have fresh := (nodup_cons.mp (nodup_middle.mp nodup)).1
  rw [mem_append, not_or] at fresh
  exact ⟨l, ((append_cons_inj_of_notMem fresh.1 fresh.2).mp (split.symm.trans split')).1⟩

theorem nextSlave_inj {w : α} (first : g.nextSlave x = some s) (second : g.nextSlave w = some s) : x = w := by
  obtain ⟨y, before, rest, -, split⟩ := sound.nextSlave_some first
  rw [append_cons] at split
  obtain ⟨l, same⟩ := sound.nextSlave_last second split
  exact (append_singleton_inj.mp same).2

theorem nextSlave_ne : g.nextSlave x ≠ some x := fun behind => by
  obtain ⟨y, before, rest, -, split⟩ := sound.nextSlave_some behind
  have nodup := sound.nodup y
  rw [split] at nodup
  exact (nodup_cons.mp (nodup_append.mp nodup).2.1).1 mem_cons_self

theorem trails {a b : α} {before behind : List α} (split : g.slaves y = before ++ a :: behind) (mem : b ∈ behind)
    (shared : g.gid a ≠ 0) (same : g.gid a = g.gid b) : g.Trails b := by
  obtain ⟨mid, rest, rfl⟩ := append_of_mem mem
  rcases eq_nil_or_concat' mid with rfl | ⟨mid, u, rfl⟩
  · exact ⟨a, sound.nextSlave_split split, shared, same⟩
  · have between : [a, u, b] <+ g.slaves y := by
      rw [split]
      simp
    have group := sound.segment y a u b between shared same
    refine ⟨u, ?_, group ▸ shared, group.trans same⟩
    have split' : g.slaves y = (before ++ a :: mid) ++ u :: b :: rest := by
      rw [split]
      simp
    exact sound.nextSlave_split split'

theorem first_of_group (master : g.master x = some y) :
    ∃ w, g.master w = some y ∧ g.SameGroup w x ∧ ¬ g.Trails w ∧ (w = x ∨ [w, x] <+ g.slaves y) := by
  classical
  have listed := (sound.mem_slaves x y).mpr master
  obtain ⟨w, first⟩ := Option.isSome_iff_exists.mp (find?_isSome (p := fun w => decide (g.SameGroup w x)).mpr
    ⟨x, listed, decide_eq_true (.inl rfl)⟩)
  obtain ⟨group, before, behind, split, others⟩ := find?_eq_some_iff_append.mp first
  have group := of_decide_eq_true group
  refine ⟨w, (sound.mem_slaves w y).mp (split ▸ mem_append_right before mem_cons_self), group, ?_, ?_⟩
  · rintro ⟨u, behind', shared, same⟩
    obtain ⟨l, rfl⟩ := sound.nextSlave_last behind' split
    have other := others u (mem_append_right l mem_cons_self)
    have beside : g.SameGroup u x := by
      rcases group with rfl | ⟨-, group⟩
      · exact .inr ⟨shared, same⟩
      · exact .inr ⟨shared, same.trans group⟩
    simp [beside] at other
  · rw [split] at listed
    rcases mem_append.mp listed with mem | mem
    · have other := others x mem
      simp [SameGroup] at other
    · rcases mem_cons.mp mem with same | mem
      · exact .inl same.symm
      · rw [split]
        exact .inr (((singleton_sublist.mpr mem).cons_cons w).trans (sublist_append_right ..))

end Sound

/-- From the next node of the walk to the next group. -/
inductive Fetch (g : PeerGraph α) (origin : α) : Option α → Option α → Prop
  | ended : Fetch g origin none none
  | first {z : α} (fresh : ¬ g.Joins origin z) : Fetch g origin (some z) (some z)
  | skip {z : α} {n : Option α} (joins : g.Joins origin z) (rest : g.Groups origin true z n) : Fetch g origin (some z) n

section Walk

variable {n n' : Option α} (wf : g.WF) (shared : g.gid origin ≠ 0)

include wf shared

theorem Leaves.groups (leaves : g.Leaves origin x n') (receives : g.Receives origin x) (fetch : g.Fetch origin n' n) :
    g.Groups origin false x n := by
  obtain ⟨level, levels⟩ := wf.levels
  have not_own {x : α} (below : g.master x ≠ g.master origin) : g.gid x ≠ g.gid origin := fun same =>
    below (wf.one_master x origin (same ▸ shared) same)
  induction leaves with
  | @around x beside =>
    have own : g.gid x = g.gid origin := by
      by_contra other
      obtain ⟨z, master, receives⟩ := receives.master other
      exact levels.deeper (receives.level levels) master beside
    split at fetch
    · rename_i last
      cases fetch
      exact .ended own last
    · rename_i more
      cases fetch with
      | first fresh => exact absurd (.inl ((wf.rings.gid_next x).trans own)) fresh
      | skip _ rest => exact .ring own more rest
  | @list x s below more =>
    have other := not_own below
    cases fetch with
    | first fresh =>
      refine .found other more fun same => fresh (.inr ⟨x, more, fun zero => ?_, ?_⟩)
      · rw [same, wf.rings.alone x zero] at more
        exact wf.nextSlave_ne more
      · rw [same, wf.rings.gid_next]
    | skip joins rest =>
      rcases joins with own | ⟨w, behind, group, same⟩
      · exact absurd own (not_own (wf.nextSlave_master more ▸ below))
      · obtain rfl := wf.nextSlave_inj behind more
        obtain ⟨y, before, behind', -, split⟩ := wf.nextSlave_some more
        have pair : [w, s] <:+: g.slaves y := ⟨before, behind', by rw [split]; simp⟩
        have next := wf.aligned y w s pair group same
        rw [← next] at more rest
        exact .peer other more rest
  | climb below last master _ ih =>
    have other := not_own below
    obtain ⟨z, master', above⟩ := receives.master other
    obtain rfl := Option.some.inj (master.symm.trans master')
    exact .climb other last master (ih above fetch)

theorem Steps.groups (steps : g.Steps origin x n') (receives : g.Receives origin x) (fetch : g.Fetch origin n' n) :
    g.Groups origin true x n := by
  obtain ⟨level, levels⟩ := wf.levels
  cases steps with
  | leave slaves leaves => exact .empty slaves (leaves.groups wf shared receives fetch)
  | @down s l slaves =>
    have master : g.master s = some x := (wf.mem_slaves s x).mp (slaves ▸ mem_cons_self)
    cases fetch with
    | first => exact .down slaves
    | skip joins rest =>
      rcases joins with own | ⟨w, behind, -, -⟩
      · exact absurd (wf.one_master s origin (own ▸ shared) own) (levels.deeper (receives.level levels) master)
      · have split : g.slaves x = [] ++ s :: l := slaves
        obtain ⟨before, impossible⟩ := wf.nextSlave_last behind split
        exact absurd impossible.symm (append_ne_nil_of_right_ne_nil _ (cons_ne_nil _ _))

theorem passes_groups {l : List α} [DecidablePred (g.Joins origin)] (passes : Passes (g.Steps origin) n' l none)
    (receives : ∀ x ∈ l, g.Receives origin x) :
    g.Fetch origin n' (l.filter (¬ g.Joins origin ·)).head? ∧
      Passes (g.Groups origin true) (l.filter (¬ g.Joins origin ·)).head? (l.filter (¬ g.Joins origin ·)) none := by
  generalize stop : (none : Option α) = e at passes
  induction passes with
  | stop =>
    subst stop
    exact ⟨.ended, .stop⟩
  | @go a l n e first rest ih =>
    obtain ⟨fetch, passes⟩ := ih (fun x mem => receives x (mem_cons_of_mem a mem)) stop
    have here := first.groups wf shared (receives a mem_cons_self) fetch
    by_cases joins : g.Joins origin a
    · rw [filter_cons_of_neg (by simpa using joins)]
      exact ⟨.skip joins here, passes⟩
    · rw [filter_cons_of_pos (by simpa using joins)]
      exact ⟨.first joins, .go here passes⟩

end Walk

/-- How far it is at most along the peers from a node, before the walk has to go up. -/
theorem exists_room [Finite α] (sound : g.Sound) (shared : g.gid origin ≠ 0) {all : List α} (complete : ∀ x, x ∈ all) :
    ∃ room : α → ℕ, (∀ x, room x ≤ all.length) ∧
      (∀ x, g.gid x = g.gid origin → g.next x ≠ origin → room (g.next x) < room x) ∧
      ∀ x, g.gid x ≠ g.gid origin → g.nextSlave x = some (g.next x) → room (g.next x) < room x := by
  obtain ⟨c, distinct, ring, next⟩ := sound.rings.cycle origin
  let row x := if g.gid x = g.gid origin then origin :: c else (g.master x).elim [] g.slaves
  have nodup : ∀ x, (row x).Nodup := by
    intro x
    simp only [row]
    split
    · exact distinct
    · cases g.master x with
      | none => exact nodup_nil
      | some y => exact sound.nodup y
  have closer {x s : α} {before rest : List α} (same : row s = row x) (split : row x = before ++ x :: s :: rest) :
      (row s).length - (row s).idxOf s < (row x).length - (row x).idxOf x := by
    have fresh := nodup x
    rw [split, append_cons] at fresh
    have first : x ∉ before := fun mem =>
      (nodup_append.mp (nodup_append.mp fresh).1).2.2 x mem x mem_cons_self rfl
    have second : s ∉ before ++ [x] := fun mem => (nodup_append.mp fresh).2.2 s mem s mem_cons_self rfl
    rw [same, split, append_cons, idxOf_append_of_notMem second, append_assoc, singleton_append,
      idxOf_append_of_notMem first, idxOf_cons_self, idxOf_cons_self]
    simp only [length_append, length_cons, length_nil]
    omega
  refine ⟨fun x => (row x).length - (row x).idxOf x, fun x => ?_, fun x own more => ?_, fun x other behind => ?_⟩
  · exact (Nat.sub_le _ _).trans ((nodup x).subperm fun y _ => complete y).length_le
  · have here : row x = origin :: c := if_pos own
    have round : Around g.next origin x := sound.rings.around origin x shared own.symm
    obtain ⟨before, behind, split⟩ := append_of_mem ((ring x).mpr round)
    have step := next before x behind split
    cases behind with
    | nil => exact absurd step more
    | cons s rest =>
      obtain rfl : g.next x = s := step
      exact closer ((if_pos ((sound.rings.gid_next x).trans own)).trans here.symm) (here.trans split)
  · obtain ⟨y, before, rest, master, split⟩ := sound.nextSlave_some behind
    have here : row x = g.slaves y := by
      simp only [row, if_neg other, master]
      rfl
    refine closer ?_ (here.trans split)
    have group : g.gid (g.next x) ≠ g.gid origin := by rwa [sound.rings.gid_next]
    rw [here]
    simp only [row, if_neg group, sound.nextSlave_master behind, master]
    rfl

/-- The walk over the groups below `origin`. -/
theorem exists_groups [Finite α] (wf : g.WF) (shared : g.gid origin ≠ 0) :
    ∃ r, g.PerGroup origin r ∧ ∃ n, g.Groups origin true origin n ∧ Passes (g.Groups origin true) n r none := by
  classical
  obtain ⟨l, order⟩ := exists_order wf.toSound origin
  obtain ⟨n, steps, passes⟩ := order.walk
  have receives : ∀ x ∈ l, g.Receives origin x := fun x mem => (order.mem x).mp (mem_cons_of_mem origin mem)
  obtain ⟨fetch, groups⟩ := passes_groups wf shared passes receives
  refine ⟨l.filter (¬ g.Joins origin ·), ?_, _, steps.groups wf shared .self fetch, groups⟩
  have mem_kept {x : α} : x ∈ l.filter (¬ g.Joins origin ·) ↔ g.Receives origin x ∧ ¬ g.Joins origin x := by
    rw [mem_filter, decide_eq_true_eq, ← order.mem, mem_cons]
    refine and_congr_left fun fresh => ⟨.inr, fun mem => mem.resolve_left ?_⟩
    rintro rfl
    exact fresh (.inl rfl)
  have own {x : α} : g.SameGroup origin x ↔ g.gid x = g.gid origin := by
    constructor
    · rintro (rfl | ⟨-, same⟩)
      · rfl
      · exact same.symm
    · exact fun same => .inr ⟨shared, same.symm⟩
  have nodup : (l.filter (¬ g.Joins origin ·)).Nodup := (nodup_cons.mp order.nodup).2.filter _
  -- the first of the group of `x`, which is on the walk where `x` is
  have head {x : α} (receives : g.Receives origin x) (other : g.gid x ≠ g.gid origin) :
      ∃ w ∈ l.filter (¬ g.Joins origin ·), g.SameGroup w x ∧ (w = x ∨ [w, x] <+ l) := by
    obtain ⟨y, master, above⟩ := receives.master other
    obtain ⟨w, master', group, first, place⟩ := wf.first_of_group master
    have apart : g.gid w ≠ g.gid origin := by
      rcases group with rfl | ⟨-, same⟩
      · exact other
      · exact same ▸ other
    refine ⟨w, mem_kept.mpr ⟨.slave master' above, fun joins => joins.elim apart first⟩, group, ?_⟩
    refine place.imp_right fun before => ?_
    have before := before.trans ((sublist_cons_self y _).trans (order.order y ((order.mem y).mpr above)))
    rcases cons_sublist_cons'.mp before with before | ⟨rfl, -⟩
    · exact before
    · exact absurd rfl apart
  constructor
  case inside =>
    intro x mem
    obtain ⟨receives, fresh⟩ := mem_kept.mp mem
    exact ⟨receives, fun same => fresh (.inl (own.mp same))⟩
  case cover =>
    intro y receives other
    obtain ⟨w, mem, group, -⟩ := head receives fun same => other (own.mpr same)
    exact ⟨w, mem, group⟩
  case once =>
    refine nodup.pairwise_of_forall_ne fun a a_mem b b_mem apart same => ?_
    obtain ⟨a_receives, a_fresh⟩ := mem_kept.mp a_mem
    obtain ⟨b_receives, b_fresh⟩ := mem_kept.mp b_mem
    obtain ⟨group, equal⟩ := same.resolve_left apart
    obtain ⟨y, master, -⟩ := a_receives.master fun same => a_fresh (.inl same)
    have b_listed := (wf.mem_slaves b y).mpr ((wf.one_master a b group equal).symm.trans master)
    obtain ⟨before, behind, split⟩ := append_of_mem ((wf.mem_slaves a y).mpr master)
    rw [split] at b_listed
    rcases mem_append.mp b_listed with mem | mem
    · obtain ⟨p, q, rfl⟩ := append_of_mem mem
      rw [append_assoc, cons_append] at split
      exact a_fresh (.inr (wf.trails split (mem_append_right q mem_cons_self) (equal ▸ group) equal.symm))
    · rcases mem_cons.mp mem with same | mem
      · exact apart same.symm
      · exact b_fresh (.inr (wf.trails split mem group equal))
  case masters =>
    intro before x behind split
    obtain ⟨receives, fresh⟩ := mem_kept.mp (split ▸ mem_append_right before mem_cons_self)
    obtain ⟨z, master, above⟩ := receives.master fun same => fresh (.inl same)
    refine ⟨z, master, ?_⟩
    by_cases top : g.gid z = g.gid origin
    · exact .inl (own.mpr top)
    · obtain ⟨w, mem, group, place⟩ := head above top
      refine .inr ⟨w, ?_, group⟩
      have after : [z, x] <+ l := by
        have listed := singleton_sublist.mpr ((wf.mem_slaves x z).mpr master)
        rcases cons_sublist_cons'.mp ((listed.cons_cons z).trans (order.order z ((order.mem z).mpr above))) with after | ⟨rfl, -⟩
        · exact after
        · exact absurd rfl top
      have pair : [w, x] <+ l := by
        rcases place with rfl | place
        · exact after
        · exact sublist_pair_trans (nodup_cons.mp order.nodup).2 place after
      have kept := pair.filter (¬ g.Joins origin ·)
      rw [filter_cons_of_pos (by simpa using (mem_kept.mp mem).2), filter_cons_of_pos (by simpa using fresh), filter_nil,
        split] at kept
      rw [split] at nodup
      have alone := (nodup_cons.mp (nodup_middle.mp nodup)).1
      rw [mem_append, not_or] at alone
      exact singleton_sublist.mp (sublist_split (p := [w]) (q := []) alone.1 alone.2 kept).1

end LinuxTla.Lib.PeerGraph
