import Mathlib.Data.Set.Finite.Lattice
import Mathlib.Dynamics.PeriodicPts.Lemmas
import LinuxTla.Lib.PeerReach
import LinuxTla.Lib.Pointers

/-! A walk over everything that receives from a node of a peer graph, depth first: down
to the first slave, on to the next slave of the same master, back up to the master, and
from peer to peer of the node where it began. -/

namespace LinuxTla.Lib

open List

/-- From `a` a walk passes the nodes of the list and stops at `b`. -/
inductive Passes {α : Type u} (step : α → Option α → Prop) : Option α → List α → Option α → Prop
  | stop {n : Option α} : Passes step n [] n
  | go {a : α} {l : List α} {n b : Option α} (first : step a n) (rest : Passes step n l b) : Passes step (some a) (a :: l) b

variable {α : Type u}

theorem Passes.trans {step : α → Option α → Prop} {a b c : Option α} {l l' : List α} (first : Passes step a l b)
    (second : Passes step b l' c) : Passes step a (l ++ l') c := by
  induction first with
  | stop => exact second
  | go first _ ih => exact .go first (ih second)

/-- A loop that asks `next` for one node after the other returns what the walk passes. -/
theorem Passes.run {step : α → Option α → Prop} {walk : ℕ → Option α → Option (List α)} {next : α → Option (Option α)}
    {l : List α} {n : Option α} {k : ℕ} (passes : Passes step n l none) (ended : ∀ k, walk (k + 1) none = some [])
    (more : ∀ k a, walk (k + 1) (some a) = (next a).bind fun n => (walk k n).bind fun rest => some (a :: rest))
    (asks : ∀ a n, step a n → next a = some n) (room : l.length < k) : walk k n = some l := by
  generalize stop : (none : Option α) = e at passes
  induction passes generalizing k with
  | stop =>
    subst stop
    obtain ⟨k, rfl⟩ := Nat.exists_eq_succ_of_ne_zero (Nat.ne_of_gt room)
    exact ended k
  | go first _ ih =>
    obtain ⟨k, rfl⟩ := Nat.exists_eq_succ_of_ne_zero (Nat.ne_of_gt (Nat.zero_lt_of_lt room))
    rw [more, asks _ _ first, Option.bind_some, ih (Nat.lt_of_succ_lt_succ room) stop, Option.bind_some]

theorem Rings.cycle [Finite α] {next : α → α} {gid : α → ℕ} (rings : Rings next gid) (a : α) :
    ∃ l, (a :: l).Nodup ∧ (∀ x, x ∈ a :: l ↔ Around next a x) ∧
      ∀ before x behind, a :: l = before ++ x :: behind → next x = behind.head?.getD a := by
  have periodic := rings.inj.mem_periodicPts a
  set p := Function.minimalPeriod next a with period
  have positive : 0 < p := Function.minimalPeriod_pos_of_mem_periodicPts periodic
  have back : next^[p] a = a := Function.iterate_minimalPeriod
  have shape : (range p).map (fun i => next^[i] a) = a :: ((range (p - 1)).map fun i => next^[i + 1] a) := by
    obtain ⟨q, same⟩ := Nat.exists_eq_succ_of_ne_zero positive.ne'
    rw [same, Nat.succ_sub_one, range_succ_eq_map, map_cons, map_map]
    rfl
  refine ⟨(range (p - 1)).map fun i => next^[i + 1] a, ?_, fun x => ?_, fun before x behind split => ?_⟩
  · rw [← shape]
    refine nodup_range.map_on fun i i_small j j_small same => ?_
    exact Function.iterate_injOn_Iio_minimalPeriod (mem_range.mp i_small) (mem_range.mp j_small) same
  · rw [← shape, mem_map]
    constructor
    · rintro ⟨i, -, rfl⟩
      clear * -
      induction i with
      | zero => exact .refl
      | succ i ih =>
        rw [Function.iterate_succ_apply']
        exact ih.tail rfl
    · intro round
      suffices some : ∃ i, next^[i] a = x by
        obtain ⟨i, rfl⟩ := some
        exact ⟨i % p, mem_range.mpr (Nat.mod_lt i positive), Function.iterate_mod_minimalPeriod_eq⟩
      induction round with
      | refl => exact ⟨0, rfl⟩
      | tail _ step ih =>
        obtain ⟨i, same⟩ := ih
        exact ⟨i + 1, by rw [Function.iterate_succ_apply', same, step]⟩
  · rw [← shape] at split
    have size := congrArg length split
    rw [length_map, length_range, length_append, length_cons] at size
    have at_x : next^[before.length] a = x := by
      have := congrArg (·[before.length]?) split
      rw [getElem?_map, getElem?_range (by omega), getElem?_append_right le_rfl, Nat.sub_self] at this
      exact Option.some.inj this
    rw [← at_x, ← Function.iterate_succ_apply' next]
    cases behind with
    | nil =>
      rw [length_nil] at size
      rw [show before.length.succ = p by omega, back]
      rfl
    | cons y behind =>
      have := congrArg (·[before.length + 1]?) split
      rw [length_cons] at size
      rw [getElem?_map, getElem?_range (by omega), getElem?_append_right (by omega), Nat.add_sub_cancel_left] at this
      exact Option.some.inj this

namespace PeerGraph

variable [DecidableEq α]

/-- The next entry of the list of its master. -/
def nextSlave (g : PeerGraph α) (x : α) : Option α := (g.master x).bind fun y => (g.slaves y)[(g.slaves y).idxOf x + 1]?

/-- Where the walk from `origin` goes when it is done with everything below a node. -/
inductive Leaves (g : PeerGraph α) (origin : α) : α → Option α → Prop
  | around {x : α} (beside : g.master x = g.master origin) :
      Leaves g origin x (if g.next x = origin then none else some (g.next x))
  | list {x s : α} (below : g.master x ≠ g.master origin) (more : g.nextSlave x = some s) : Leaves g origin x (some s)
  | climb {x y : α} {n : Option α} (below : g.master x ≠ g.master origin) (last : g.nextSlave x = none)
      (master : g.master x = some y) (rest : Leaves g origin y n) : Leaves g origin x n

/-- The node after `x` in the walk from `origin`. -/
inductive Steps (g : PeerGraph α) (origin : α) : α → Option α → Prop
  | down {x s : α} {l : List α} (slaves : g.slaves x = s :: l) : Steps g origin x (some s)
  | leave {x : α} {n : Option α} (slaves : g.slaves x = []) (leaves : g.Leaves origin x n) : Steps g origin x n

/-- `l` is everything below `x`, in the order of the walk from `origin`. -/
structure Below (g : PeerGraph α) (origin x : α) (l : List α) : Prop where
  nodup : (x :: l).Nodup
  mem : ∀ y, y ∈ l ↔ ClimbsUp g.master y x
  order : ∀ p ∈ x :: l, p :: g.slaves p <+ x :: l
  walk : ∀ n, g.Leaves origin x n → ∃ n', g.Steps origin x n' ∧ Passes (g.Steps origin) n' l n

variable {g : PeerGraph α} {origin x y s : α} {level : α → ℕ}

theorem Sound.nextSlave_split (sound : g.Sound) {before behind : List α} (split : g.slaves y = before ++ x :: behind) :
    g.nextSlave x = behind.head? := by
  have master : g.master x = some y := (sound.mem_slaves x y).mp (split ▸ mem_append_right before mem_cons_self)
  have nodup := sound.nodup y
  rw [split] at nodup
  have fresh : x ∉ before := fun mem => (nodup_append.mp nodup).2.2 x mem x mem_cons_self rfl
  rw [nextSlave, master, Option.bind_some, split, idxOf_append_of_notMem fresh, idxOf_cons_self, Nat.add_zero,
    getElem?_append_right (Nat.le_succ _), Nat.succ_sub (Nat.le_refl _), Nat.sub_self, getElem?_cons_succ, head?_eq_getElem?]

omit [DecidableEq α] in
theorem Levels.falls (levels : g.Levels level) : Falls g.master level := levels.above

omit [DecidableEq α] in
/-- Levels can be counted off below the number of nodes. -/
theorem Levels.small {all : List α} (levels : g.Levels level) (complete : ∀ x, x ∈ all) :
    ∃ level', g.Levels level' ∧ ∀ x, level' x ≤ all.length := by
  refine ⟨fun x => ((all.map level).toFinset.filter (· < level x)).card, ⟨fun x y master => ?_, fun a b shared same => ?_⟩,
    fun x => ?_⟩
  · refine Finset.card_lt_card (Finset.ssubset_iff.mpr ⟨level y, by simp, fun k mem => ?_⟩)
    have above := levels.above x y master
    rcases Finset.mem_insert.mp mem with rfl | mem
    · exact Finset.mem_filter.mpr ⟨mem_toFinset.mpr (mem_map_of_mem (complete y)), above⟩
    · obtain ⟨mem, less⟩ := Finset.mem_filter.mp mem
      exact Finset.mem_filter.mpr ⟨mem, less.trans above⟩
  · exact congrArg Finset.card (Finset.filter_congr fun k _ => by rw [levels.beside a b shared same])
  · exact (Finset.card_filter_le _ _).trans ((toFinset_card_le _).trans (length_map _).le)

omit [DecidableEq α] in
/-- Whoever is not above the origin has no slave beside it. -/
theorem Levels.deeper (levels : g.Levels level) (low : level origin ≤ level x) (master : g.master s = some x) :
    g.master s ≠ g.master origin := fun same => by
  have up := levels.above origin x (same.symm.trans master)
  omega

omit [DecidableEq α] in
/-- Slaves of one master have nothing below them in common. -/
theorem Sound.apart (sound : g.Sound) {a b z : α} (first : g.master a = some y) (second : g.master b = some y)
    (left : Climbs g.master z a) (right : Climbs g.master z b) : a = b := by
  obtain ⟨level, levels⟩ := sound.levels
  have one {u v : α} (to_y : g.master u = some y) (to_y' : g.master v = some y) (up : Climbs g.master u v) : u = v := by
    rcases climbs_iff.mp up with same | ⟨w, step, rest⟩
    · exact same
    · rw [to_y] at step
      cases step
      have := levels.falls.climbs rest
      have := levels.above v y to_y'
      omega
  rcases left.total right with up | up
  · exact one first second up
  · exact (one second first up).symm

theorem exists_below [Finite α] (sound : g.Sound) (levels : g.Levels level) (low : level origin ≤ level x) :
    ∃ l, g.Below origin x l := by
  obtain ⟨top, bound⟩ := (Set.finite_range level).bddAbove
  suffices go : ∀ k x, top < level x + k → level origin ≤ level x → ∃ l, g.Below origin x l from
    go (top + 1) x (by omega) low
  intro k
  induction k with
  | zero =>
    intro x far _
    have := bound ⟨x, rfl⟩
    omega
  | succ k ih =>
    intro x far low
    have each : ∀ s, ∃ l, g.master s = some x → g.Below origin s l := by
      intro s
      by_cases master : g.master s = some x
      · have deeper := levels.above s x master
        obtain ⟨l, below⟩ := ih s (by omega) (by omega)
        exact ⟨l, fun _ => below⟩
      · exact ⟨[], fun here => absurd here master⟩
    choose below spec using each
    have master {s : α} (mem : s ∈ g.slaves x) : g.master s = some x := (sound.mem_slaves s x).mp mem
    have inside {s y : α} (mem : s ∈ g.slaves x) : y ∈ s :: below s ↔ Climbs g.master y s := by
      rw [mem_cons, (spec s (master mem)).mem, Climbs, Relation.reflTransGen_iff_eq_or_transGen, eq_comm]
      exact Iff.rfl
    have all : ∀ y, y ∈ (g.slaves x).flatMap (fun s => s :: below s) ↔ ClimbsUp g.master y x := by
      intro y
      rw [mem_flatMap, ClimbsUp, Relation.TransGen.tail'_iff]
      constructor
      · rintro ⟨s, mem, here⟩
        exact ⟨s, (inside mem).mp here, master mem⟩
      · rintro ⟨s, up, step⟩
        have mem := (sound.mem_slaves s x).mpr step
        exact ⟨s, mem, (inside mem).mpr up⟩
    refine ⟨(g.slaves x).flatMap fun s => s :: below s, ?_, all, ?_, ?_⟩
    · rw [nodup_cons, all]
      refine ⟨fun up => (lt_irrefl _ (levels.falls.climbsUp up)), ?_⟩
      rw [nodup_flatMap]
      refine ⟨fun s mem => (spec s (master mem)).nodup, ?_⟩
      refine (sound.nodup x).imp_of_mem fun {a b} first second apart => ?_
      intro y left right
      exact apart (sound.apart (master first) (master second) ((inside first).mp left) ((inside second).mp right))
    · intro p mem
      rcases mem_cons.mp mem with rfl | mem
      · refine cons_sublist_cons.mpr ?_
        clear * -
        induction g.slaves p with
        | nil => exact nil_sublist _
        | cons s ss ih =>
          rw [flatMap_cons, cons_append]
          exact (ih.trans (sublist_append_right ..)).cons_cons s
      · obtain ⟨s, listed, here⟩ := mem_flatMap.mp mem
        refine ((spec s (master listed)).order p here).trans (.cons x ?_)
        exact sublist_flatten_of_mem (mem_map_of_mem listed)
    · intro n leaves
      suffices row : ∀ before s behind, g.slaves x = before ++ s :: behind →
          Passes (g.Steps origin) (some s) ((s :: behind).flatMap fun s => s :: below s) n by
        cases list : g.slaves x with
        | nil => exact ⟨n, .leave list leaves, .stop⟩
        | cons s behind => exact ⟨some s, .down list, row [] s behind list⟩
      intro before s behind
      induction behind generalizing before s with
      | nil =>
        intro split
        have here : g.master s = some x := master (split ▸ mem_append_right before mem_cons_self)
        obtain ⟨n', step, passes⟩ := (spec s here).walk n
          (.climb (levels.deeper low here) (sound.nextSlave_split split) here leaves)
        rw [flatMap_singleton]
        exact .go step passes
      | cons s' behind ih =>
        intro split
        have here : g.master s = some x := master (split ▸ mem_append_right before mem_cons_self)
        obtain ⟨n', step, passes⟩ := (spec s here).walk (some s')
          (.list (levels.deeper low here) (sound.nextSlave_split split))
        rw [flatMap_cons]
        exact (Passes.go step passes).trans (ih (before ++ [s]) s' (by rw [split, append_assoc]; rfl))

/-- `origin :: l` is the walk from `origin`. -/
structure Order (g : PeerGraph α) (origin : α) (l : List α) : Prop where
  nodup : (origin :: l).Nodup
  mem : ∀ y, y ∈ origin :: l ↔ g.Receives origin y
  order : ∀ p ∈ origin :: l, p :: g.slaves p <+ origin :: l
  walk : ∃ n, g.Steps origin origin n ∧ Passes (g.Steps origin) n l none

omit [DecidableEq α] in
/-- Around the ring nothing but the node itself changes. -/
theorem Sound.beside (sound : g.Sound) (levels : g.Levels level) (round : Around g.next origin x) :
    g.gid x = g.gid origin ∧ g.master x = g.master origin ∧ level x = level origin := by
  have same : g.gid x = g.gid origin := sound.rings.same_gid round
  by_cases group : g.gid origin = 0
  · rw [round.self (sound.rings.alone origin group)]
    exact ⟨rfl, rfl, rfl⟩
  · exact ⟨same, sound.one_master x origin (same ▸ group) same, levels.beside x origin (same ▸ group) same⟩

omit [DecidableEq α] in
/-- What receives from a node hangs under one of its peers. -/
theorem Sound.receives_iff (sound : g.Sound) : g.Receives origin y ↔ ∃ o, Around g.next origin o ∧ Climbs g.master y o := by
  constructor
  · intro receives
    induction receives with
    | self => exact ⟨origin, .refl, .refl⟩
    | peer shared same => exact ⟨_, sound.rings.around _ _ (fun zero => shared (same.symm.trans zero)) same, .refl⟩
    | slave master _ ih =>
      obtain ⟨o, round, up⟩ := ih
      exact ⟨o, round, up.head master⟩
  · rintro ⟨o, round, up⟩
    induction up using Relation.ReflTransGen.head_induction_on with
    | refl =>
      by_cases group : g.gid origin = 0
      · rw [round.self (sound.rings.alone origin group)]
        exact .self
      · have same : g.gid o = g.gid origin := sound.rings.same_gid round
        exact .peer (same ▸ group) same.symm
    | head step _ ih => exact .slave step ih

theorem exists_order [Finite α] (sound : g.Sound) (origin : α) : ∃ l, g.Order origin l := by
  obtain ⟨level, levels⟩ := sound.levels
  obtain ⟨c, distinct, ring, next⟩ := sound.rings.cycle origin
  have each : ∀ o, ∃ l, o ∈ origin :: c → g.Below origin o l := by
    intro o
    by_cases mem : o ∈ origin :: c
    · obtain ⟨-, -, same⟩ := sound.beside levels ((ring o).mp mem)
      obtain ⟨l, below⟩ := exists_below sound levels same.ge
      exact ⟨l, fun _ => below⟩
    · exact ⟨[], fun here => absurd here mem⟩
  choose below spec using each
  have inside {o y : α} (mem : o ∈ origin :: c) : y ∈ o :: below o ↔ Climbs g.master y o := by
    rw [mem_cons, (spec o mem).mem, Climbs, Relation.reflTransGen_iff_eq_or_transGen, eq_comm]
    exact Iff.rfl
  have level_on {o : α} (mem : o ∈ origin :: c) : level o = level origin := (sound.beside levels ((ring o).mp mem)).2.2
  have one {a b : α} (first : a ∈ origin :: c) (second : b ∈ origin :: c) (up : Climbs g.master a b) : a = b := by
    rcases Relation.reflTransGen_iff_eq_or_transGen.mp up with same | strict
    · exact same.symm
    · have := levels.falls.climbsUp strict
      rw [level_on first, level_on second] at this
      exact absurd this (lt_irrefl _)
  refine ⟨below origin ++ c.flatMap fun o => o :: below o, ?_, fun y => ?_, fun p mem => ?_, ?_⟩
  · show ((origin :: c).flatMap fun o => o :: below o).Nodup
    rw [nodup_flatMap]
    refine ⟨fun o mem => (spec o mem).nodup, distinct.imp_of_mem fun {a b} first second apart y left right => ?_⟩
    rcases ((inside first).mp left).total ((inside second).mp right) with up | up
    · exact apart (one first second up)
    · exact apart (one second first up).symm
  · show y ∈ (origin :: c).flatMap (fun o => o :: below o) ↔ _
    rw [sound.receives_iff, mem_flatMap]
    constructor
    · rintro ⟨o, mem, here⟩
      exact ⟨o, (ring o).mp mem, (inside mem).mp here⟩
    · rintro ⟨o, round, up⟩
      exact ⟨o, (ring o).mpr round, (inside ((ring o).mpr round)).mpr up⟩
  · obtain ⟨o, listed, here⟩ := mem_flatMap.mp (show p ∈ (origin :: c).flatMap (fun o => o :: below o) from mem)
    exact ((spec o listed).order p here).trans (sublist_flatten_of_mem (mem_map_of_mem (f := fun o => o :: below o) listed))
  · suffices row : ∀ behind before o, origin :: c = before ++ o :: behind →
        ∃ n, g.Steps origin o n ∧ Passes (g.Steps origin) n (below o ++ behind.flatMap fun o => o :: below o) none from
      row c [] origin rfl
    intro behind
    induction behind with
    | nil =>
      intro before o split
      have mem : o ∈ origin :: c := split ▸ mem_append_right before mem_cons_self
      have last : g.next o = origin := next before o [] split
      obtain ⟨n, step, passes⟩ := (spec o mem).walk none
        (by simpa [last] using Leaves.around (sound.beside levels ((ring o).mp mem)).2.1)
      refine ⟨n, step, ?_⟩
      rw [flatMap_nil, append_nil]
      exact passes
    | cons o' behind ih =>
      intro before o split
      have mem : o ∈ origin :: c := split ▸ mem_append_right before mem_cons_self
      have more : g.next o = o' := next before o (o' :: behind) split
      have on : o' ≠ origin := by
        rintro rfl
        rw [split] at distinct
        cases before with
        | nil =>
          cases split
          exact (nodup_cons.mp distinct).1 mem_cons_self
        | cons z before =>
          cases split
          exact (nodup_cons.mp distinct).1 (mem_append_right before (mem_cons_of_mem o mem_cons_self))
      obtain ⟨n, step, passes⟩ := (spec o mem).walk (some o')
        (by simpa [more, on] using Leaves.around (sound.beside levels ((ring o).mp mem)).2.1)
      obtain ⟨n', step', passes'⟩ := ih (before ++ [o]) o' (by rw [split, append_assoc]; rfl)
      refine ⟨n, step, passes.trans ?_⟩
      rw [flatMap_cons]
      exact .go step' passes'

end PeerGraph

end LinuxTla.Lib
