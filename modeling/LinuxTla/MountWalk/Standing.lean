import LinuxTla.MountWalk.Freed
import Mathlib.Algebra.BigOperators.Pi

/-! No walker stands on a freed mount in a run that mounts nothing on what has left the
namespace. Only a second mount, raced by the umount of the first, can do that. -/

namespace LinuxTla.MountWalk

open Lib

variable {M E K S W : Type}
  {cfg : Config M E K S W} {s after : State M E K W} {mt : Tree M E} {x y p : M} {d : E}
  {w : W} {l : Walker M E K}

/-- Where a walker stands, or its result once it is done. -/
def touch (s : State M E K W) (w : W) : Option M :=
  if (s.walker w).pc = .done then
    match (s.walker w).res with
    | some (.ok pos) => some pos.mnt
    | _ => none
  else some (s.walker w).path.mnt

/-- `NoUAF` -/
def NoUAF (s : State M E K W) : Prop := ∀ w x, touch s w = some x → (s.mnt x).freed = false

/-- What is about to be mounted on is still in the namespace. -/
def Careful (s : State M E K W) : Prop := s.mpc = .mAttach → ∀ pos, s.tgt = some pos → (s.mnt pos.mnt).ns = true

/-- A step that kills nothing and starts no put. -/
theorem Stands.writes (stands : Stands cfg s w l) (alive : ∀ x, (s.mnt x).alive = true → (after.mnt x).alive = true)
    (rcu : after.rcu = s.rcu) (waits : s.rcu w = true → (s.cpc = .cPut → l.path.mnt ∈ s.todo → w ∈ s.wait) →
      after.cpc = .cPut → l.path.mnt ∈ after.todo → w ∈ after.wait) : Stands cfg after w l where
  held x same := alive x (stands.held x same)
  early mode going := (stands.early mode going).imp_right (alive _)
  late := stands.late
  ended := stands.ended
  start := stands.start
  waits mode begun going := by
    obtain ⟨reads, kept⟩ := stands.waits mode begun going
    rw [rcu]
    exact ⟨reads, waits reads kept⟩

/-- The changer does not put, so nobody has to be waited for. -/
theorem Stands.quiet (stands : Stands cfg s w l) (alive : ∀ x, (s.mnt x).alive = true → (after.mnt x).alive = true)
    (rcu : after.rcu = s.rcu) (other : after.cpc ≠ .cPut) : Stands cfg after w l :=
  stands.writes alive rcu fun _ _ put => absurd put other

/-- Where the mounter aims stays in the namespace. -/
structure Aims (cfg : Config M E K S W) (s : State M E K W) : Prop where
  budget : s.budget ≤ cfg.mounts
  first : cfg.change = .umount → s.budget ≠ 0 →
    s.cpc = .cPick ∧ ∀ x, (s.mnt x).alive = true → (s.mnt x).ns = true ∧ (s.mnt x).hashed = false
  tgt : s.mpc = .mLock ∨ s.mpc = .mAttach → ∀ pos, s.tgt = some pos → (s.mnt pos.mnt).ns = true

theorem Aims.careful (aims : Aims cfg s) : Careful s := fun here => aims.tgt (.inr here)

theorem Aims.walks (aims : Aims cfg s) (walks : Walks s after) (budget : after.budget = s.budget) : Aims cfg after := by
  have hashed (x : M) : (after.mnt x).hashed = (s.mnt x).hashed := by
    obtain ⟨_, same⟩ := walks.mnt x
    rw [same]
  constructor
  · rw [budget]
    exact aims.budget
  · rw [budget, walks.cpc]
    simp only [walks.alive, walks.ns, hashed]
    exact aims.first
  · rw [walks.mpc, walks.tgt]
    simp only [walks.ns]
    exact aims.tgt

variable [LinearOrder M]

theorem rehash_mnt (s : State M E K W) (v x : M) (h : Bool) :
    Function.update s.mnt v { s.mnt v with hashed := h } x =
      { s.mnt x with hashed := if x = v then h else (s.mnt x).hashed, count := (s.mnt x).count } := by
  rw [Function.update_apply]
  split_ifs with here
  · rw [here]
  · rfl

theorem Init.aims (start : Init cfg s) : Aims cfg s := by
  refine ⟨start.budget.le, fun _ _ => ⟨start.cpc, fun x => ?_⟩, ?_⟩
  · rw [start.mnt]
    split_ifs <;> exact fun on => ⟨on, rfl⟩
  · rw [start.tgt]
    exact fun _ pos same => (by cases same)

variable [Fintype W]

theorem holders_congr (walker : after.walker = s.walker) : holders after = holders s := by rw [holders, holders, walker]

variable [Fintype M]

theorem Safe.noUAF (safe : Safe cfg s) : NoUAF s := by
  intro w x same
  have stands := safe.stands w
  refine safe.rooted.freed x ?_
  rw [touch] at same
  split_ifs at same with done
  · cases res : (s.walker w).res with
    | none =>
      rw [res] at same
      cases same
    | some r =>
      cases r with
      | err e =>
        rw [res] at same
        cases same
      | ok pos =>
        rw [res] at same
        cases same
        exact stands.held _ (stands.ended done pos res)
  · cases same
    cases mode : (s.walker w).ref with
    | false => exact (stands.early mode done).2
    | true => exact stands.held _ (stands.late mode)

/-! ### The mounter and the changer -/

theorem Safe.nothing (safe : Safe cfg s) (here : s.cpc = .cPick) :
    Safe cfg { s with cpc := .done } := by
  have shared := safe.shared.nothing here
  obtain ⟨_, rooted, ⟨umounts, moves, target, victim, idle, budget⟩, bound, stands⟩ := safe
  exact ⟨shared, rooted, ⟨fun on => absurd on (by dsimp only; decide), fun on => absurd on (by dsimp only; decide),
    fun on => absurd on (by dsimp only; decide), fun on => absurd on (by dsimp only; decide), .inr (by dsimp only; decide),
    budget⟩, bound, fun w => (stands w).quiet (fun _ on => on) rfl (by dsimp only; decide)⟩

theorem Safe.pickUmount (safe : Safe cfg s) (here : s.cpc = .cPick) (take : Takeable cfg s) :
    Safe cfg { s with cpc := .cLock } := by
  have shared := safe.shared.pickUmount here take
  obtain ⟨before, rooted, ⟨umounts, moves, target, victim, idle, budget⟩, bound, stands⟩ := safe
  have none := idle.resolve_right (by rw [here]; decide)
  have unset := before.fresh here
  refine ⟨shared, rooted, ⟨fun on => absurd on (by dsimp only; decide), fun on => absurd on (by dsimp only; decide),
    fun _ pos same => ?_, fun _ => ⟨take.2.2, fun umount => rooted.hashed umount _ take.1 take.2.1⟩, .inl none, budget⟩, bound,
    fun w => (stands w).quiet (fun _ on => on) rfl (by dsimp only; decide)⟩
  cases unset.symm.trans same

theorem Safe.lock (safe : Safe cfg s) (here : s.cpc = .cLock) (calm : ¬ s.Writing) :
    Safe cfg { s with seqv := s.seqv + 1, cpc := if cfg.change = .umount then .cUnhash else .cMvUnhash } := by
  have shared := safe.shared.lock here calm
  obtain ⟨_, rooted, ⟨umounts, moves, target, victim, idle, budget⟩, bound, stands⟩ := safe
  have none := idle.resolve_right (by rw [here]; decide)
  have known := victim (.inl here)
  have goals := target (by rw [here]; decide)
  refine ⟨shared, rooted, ⟨fun on => ?_, fun on => ?_, fun _ => goals, fun _ => known, .inl none, budget⟩, bound,
    fun w => (stands w).quiet (fun _ on => on) rfl ?_⟩
  · by_contra calm
    dsimp only at on
    rw [if_neg calm] at on
    exact absurd on (by decide)
  · intro umount
    dsimp only at on
    rw [if_pos umount] at on
    exact absurd on (by decide)
  · dsimp only
    split_ifs <;> decide

theorem Safe.mvUnhash (safe : Safe cfg s) (here : s.cpc = .cMvUnhash) :
    Safe cfg { s with
      mnt := Function.update s.mnt cfg.victim { s.mnt cfg.victim with hashed := false }, cpc := .cMvSet } := by
  have shared := safe.shared.mvUnhash here
  obtain ⟨_, rooted, ⟨umounts, moves, target, victim, idle, budget⟩, bound, stands⟩ := safe
  have none := idle.resolve_right (by rw [here]; decide)
  have calm := moves (.inl here)
  have known := victim (.inr (.inr (.inl here)))
  have goals := target (by rw [here]; decide)
  have same (x : M) := rehash_mnt s cfg.victim x false
  refine ⟨shared, rooted.congr (fun x => ⟨_, _, same x⟩) (fun umount => absurd umount calm) fun x on => ?_,
    ⟨fun on => absurd on (by dsimp only; decide), fun _ => calm, fun _ pos known => ?_, fun _ => ?_, .inl none, budget⟩, bound,
    fun w => (stands w).quiet (fun x on => ?_) rfl (by dsimp only; decide)⟩
  · exact (congrArg Mount.count (same x)).trans (rooted.ledger x on)
  · exact (congrArg Mount.ns (same _)).trans (goals pos known)
  · exact ⟨(congrArg Mount.ns (same _)).trans known.1, fun umount => absurd umount calm⟩
  · exact (congrArg Mount.alive (same x)).trans on

theorem Safe.mvSet (safe : Safe cfg s) {p : M} {d : E} (here : s.cpc = .cMvSet) (goal : s.ctgt = some ⟨p, d⟩) :
    Safe cfg { s with
      mnt := Function.update s.mnt cfg.victim { s.mnt cfg.victim with parent := p, mp := d }, cpc := .cMvHash } := by
  have shared := safe.shared.mvSet here goal
  obtain ⟨_, rooted, ⟨umounts, moves, target, victim, idle, budget⟩, bound, stands⟩ := safe
  have none := idle.resolve_right (by rw [here]; decide)
  have calm := moves (.inr (.inl here))
  have known := victim (.inr (.inr (.inr here)))
  have ns : (s.mnt p).ns = true := target (by rw [here]; decide) ⟨p, d⟩ goal
  refine ⟨shared, rooted.move calm ns, ⟨fun on => absurd on (by dsimp only; decide), fun _ => calm,
    fun on => absurd on (by dsimp only; decide), fun on => absurd on (by dsimp only; decide), .inl none, budget⟩, bound,
    fun w => (stands w).quiet (fun x on => ?_) rfl (by dsimp only; decide)⟩
  dsimp only
  rw [Function.update_apply]
  split_ifs with self
  · rw [self] at on
    exact on
  · exact on

theorem Safe.unlock (safe : Safe cfg s) (here : s.cpc = .cUnlock) :
    Safe cfg { s with seqv := s.seqv + 1, cpc := if cfg.change = .umount then .cGp else .done } := by
  have shared := safe.shared.unlock here
  obtain ⟨_, rooted, ⟨umounts, moves, target, victim, idle, budget⟩, bound, stands⟩ := safe
  refine ⟨shared, rooted, ⟨fun on => ?_, fun on => ?_, fun on => ?_, fun on => ?_, .inr ?_, budget⟩, bound,
    fun w => (stands w).quiet (fun _ on => on) rfl ?_⟩
  · by_contra calm
    dsimp only at on
    rw [if_neg calm] at on
    exact absurd on (by decide)
  all_goals
    dsimp only at *
    split_ifs at * <;> simp_all +decide

theorem Safe.gp (safe : Safe cfg s) (waits : cfg.fixRcuFree = true) (here : s.cpc = .cGp) :
    Safe cfg { s with wait := if cfg.fixRcuFree then readers s else s.wait, cpc := .cPut } := by
  have shared := safe.shared.gp here
  obtain ⟨_, rooted, ⟨umounts, moves, target, victim, idle, budget⟩, bound, stands⟩ := safe
  refine ⟨shared, rooted, ⟨fun _ => umounts (.inr (.inl here)), fun on => absurd on (by dsimp only; decide),
    fun on => absurd on (by dsimp only; decide), fun on => absurd on (by dsimp only; decide), .inr (by dsimp only; decide),
    budget⟩, bound, fun w => (stands w).writes (fun _ on => on) rfl fun reads _ _ _ => ?_⟩
  dsimp only
  rw [if_pos waits]
  exact Finset.mem_filter.mpr ⟨Finset.mem_univ w, reads⟩

/-- Nobody reads the freed mounts any more: the readers of before have been waited for. -/
theorem Safe.put [DecidableEq W] (safe : Safe cfg s) (here : s.cpc = .cPut) (quietly : s.wait = ∅) :
    Safe cfg { s with mnt := puts s, wait := ∅, todo := ∅, cpc := .done } := by
  have shared := safe.shared.put here
  obtain ⟨before, rooted, ⟨umounts, moves, target, victim, idle, budget⟩, bound, stands⟩ := safe
  have umount := umounts (.inr (.inr here))
  have todo (y : M) (inside : y ∈ s.todo) := before.todo y inside
  have lives (x : M) (on : (s.mnt x).alive = true) (held : x ∈ s.todo → holders s x ≠ 0) : (puts s x).alive = true := by
    rw [puts]
    split_ifs with inside
    · have ledger := rooted.ledger x on
      have some' := held inside
      rw [if_pos (.inr inside)] at ledger
      exact decide_eq_true (by omega)
    · exact on
  refine ⟨shared, rooted.put umount fun y inside => ⟨(todo y inside).1, (todo y inside).2.1⟩,
    ⟨fun on => absurd on (by dsimp only; decide), fun on => absurd on (by dsimp only; decide),
      fun on => absurd on (by dsimp only; decide), fun on => absurd on (by dsimp only; decide), .inl rfl, budget⟩, bound,
    fun w => ?_⟩
  obtain ⟨held, early, late, ended, start, kept⟩ := stands w
  refine ⟨fun x same => lives x (held x same) fun _ => ?_, fun mode going => ⟨(early mode going).1, ?_⟩, late, ended, start,
    fun mode begun going => ⟨(kept mode begun going).1, fun put => (by cases put)⟩⟩
  · rw [holders_eq s w, Pi.add_apply, Walker.refs, same, Option.elim_some, one_self]
    omega
  · refine lives _ (early mode going).2 fun inside => ?_
    by_cases begun : (s.walker w).pc = .wInit
    · exact absurd (start begun).2 (todo _ inside).2.2
    · have waiting := (kept mode begun going).2 here inside
      rw [quietly] at waiting
      exact absurd waiting (Finset.notMem_empty w)

variable [LinearOrder E]

theorem Safe.pickMove (safe : Safe cfg s) {p : M} {d : E} {next : Pos M E} (here : s.cpc = .cPick) (move : cfg.change = .move)
    (take : Takeable cfg s) (place : Mountable cfg s p d) (cross : Cross s.mnt ⟨p, d⟩ next)
    (above : next.mnt ∉ Tree.subtree s.mnt cfg.victim) :
    Safe cfg { s with ctgt := some next, mounted := setMounted s.mounted next.d, cpc := .cLock } := by
  have shared := safe.shared.pickMove here take place cross above
  obtain ⟨_, rooted, ⟨umounts, moves, target, victim, idle, budget⟩, bound, stands⟩ := safe
  have none := idle.resolve_right (by rw [here]; decide)
  have calm : cfg.change ≠ .umount := by
    rw [move]
    decide
  refine ⟨shared, rooted, ⟨fun on => absurd on (by dsimp only; decide), fun on => absurd on (by dsimp only; decide),
    fun _ pos same => ?_, fun _ => ?_, .inl none, budget⟩, bound,
    fun w => (stands w).quiet (fun _ on => on) rfl (by dsimp only; decide)⟩
  · cases same
    exact rooted.stays calm _ (cross.there place.1)
  · exact ⟨take.2.2, fun umount => absurd umount calm⟩

theorem Safe.unhashes (safe : Safe cfg s) (here : s.cpc = .cUnhash) :
    Safe cfg { s with
      mnt := unhash cfg s, mounted := clear s (unhash cfg s), todo := Tree.subtree s.mnt cfg.victim, cpc := .cUnlock } := by
  have shared := safe.shared.unhashes here
  obtain ⟨_, rooted, ⟨umounts, moves, target, victim, idle, budget⟩, bound, stands⟩ := safe
  have none := idle.resolve_right (by rw [here]; decide)
  have umount := umounts (.inl here)
  rw [none] at rooted
  refine ⟨shared, rooted.cut umount (Nat.sub_le ..) ((victim (.inr (.inl here))).imp_right fun linked => linked umount), ⟨fun on => absurd on (by dsimp only; decide),
    fun on => absurd on (by dsimp only; decide), fun on => absurd on (by dsimp only; decide),
    fun on => absurd on (by dsimp only; decide), .inr (by dsimp only; decide), budget⟩, bound,
    fun w => (stands w).quiet (fun x on => ?_) rfl (by dsimp only; decide)⟩
  dsimp only
  rw [(unhash_mnt cfg s x).1]
  exact on

theorem Safe.mvHash (safe : Safe cfg s) {mt : Tree M E} (here : s.cpc = .cMvHash)
    (hash : mt = Function.update s.mnt cfg.victim { s.mnt cfg.victim with hashed := true }) :
    Safe cfg { s with mnt := mt, mounted := clear s mt, cpc := .cUnlock } := by
  have shared := safe.shared.mvHash here hash
  obtain ⟨_, rooted, ⟨umounts, moves, target, victim, idle, budget⟩, bound, stands⟩ := safe
  have none := idle.resolve_right (by rw [here]; decide)
  have calm := moves (.inr (.inr here))
  have same (x : M) : mt x = { s.mnt x with hashed := (mt x).hashed, count := (s.mnt x).count } := by
    rw [hash, rehash_mnt]
  refine ⟨shared, rooted.congr (fun x => ⟨_, _, same x⟩) (fun umount => absurd umount calm) fun x on => ?_,
    ⟨fun on => absurd on (by dsimp only; decide), fun on => absurd on (by dsimp only; decide),
      fun on => absurd on (by dsimp only; decide), fun on => absurd on (by dsimp only; decide), .inl none, budget⟩, bound,
    fun w => (stands w).quiet (fun x on => ?_) rfl (by dsimp only; decide)⟩
  · exact (congrArg Mount.count (same x)).trans (rooted.ledger x on)
  · exact (congrArg Mount.alive (same x)).trans on

theorem Safe.mounter (safe : Safe cfg s) (careful : Careful s) (step : Mounter cfg s after) : Safe cfg after := by
  have shared := safe.shared.mounter step
  obtain ⟨earlier, rooted, ⟨umounts, moves, target, victim, idle, budget⟩, bound, stands⟩ := safe
  have quiet (w : W) : s.rcu w = true → (s.cpc = .cPut → (s.walker w).path.mnt ∈ s.todo → w ∈ s.wait) →
      s.cpc = .cPut → (s.walker w).path.mnt ∈ s.todo → w ∈ s.wait := fun _ kept => kept
  cases step with
  | finish =>
    exact ⟨shared, rooted, ⟨umounts, moves, target, victim, idle, fun on => absurd on (by dsimp only; decide)⟩, bound,
      fun w => (stands w).writes (fun _ on => on) rfl (quiet w)⟩
  | pick here more =>
    exact ⟨shared, rooted, ⟨umounts, moves, target, victim, idle, fun _ => more⟩, bound,
      fun w => (stands w).writes (fun _ on => on) rfl (quiet w)⟩
  | lock here =>
    exact ⟨shared, rooted, ⟨umounts, moves, target, victim, idle, fun _ => budget (.inl here)⟩, bound,
      fun w => (stands w).writes (fun _ on => on) rfl (quiet w)⟩
  | unlock here =>
    exact ⟨shared, rooted, ⟨umounts, moves, target, victim, idle, fun on => absurd on (by dsimp only; decide)⟩, bound,
      fun w => (stands w).writes (fun _ on => on) rfl (quiet w)⟩
  | @attach x p d here goal free =>
    have unused := freeId_dead free
    have more := budget (.inr here)
    have ns : (s.mnt p).ns = true := careful here ⟨p, d⟩ goal
    have on (y : M) (alive : (s.mnt y).alive = true) : y ≠ x := by
      rintro rfl
      cases alive.symm.trans unused
    have outside : x ∉ s.todo := fun inside => on x (earlier.todo x inside).1 rfl
    have bare : holders s x = 0 := by
      rw [holders, Finset.sum_apply]
      refine Finset.sum_eq_zero fun w _ => ?_
      rw [Walker.refs]
      cases held : (s.walker w).held with
      | none => rfl
      | some y => exact one_other (on y ((stands w).held y held)).symm
    have other (y : M) (alive : (s.mnt y).alive = true) (m : Mount M E) : Function.update s.mnt x m y = s.mnt y :=
      Function.update_of_ne (on y alive) _ _
    refine ⟨shared, ?_, ⟨umounts, moves, fun targets pos same => ?_, fun at' => ?_, idle, fun on => ?_⟩,
      (Nat.sub_le ..).trans bound, fun w => (stands w).writes (fun y alive => ?_) rfl (quiet w)⟩
    · have made : 2 - (s.budget - 1) = 2 - s.budget + 1 := by omega
      dsimp only
      rw [made]
      exact rooted.attach unused outside bare ns ⟨rfl, rfl, rfl, rfl⟩
    · have before := target targets pos same
      dsimp only
      rw [other _ (rooted.alive _ before)]
      exact before
    · have before := victim at'
      dsimp only [Tree.HasParent]
      rw [other _ (rooted.alive _ before.1)]
      exact before
    · exact absurd on (by dsimp only; decide)
    · dsimp only
      rw [other y alive]
      exact alive

theorem Aims.mounter (aims : Aims cfg s) (safe : Safe cfg s) (sure : cfg.change = .umount → cfg.mounts ≤ 1)
    (step : Mounter cfg s after) : Aims cfg after := by
  obtain ⟨bound, first, tgt⟩ := aims
  cases step with
  | finish | unlock => exact ⟨bound, first, fun on => absurd on (by dsimp only; decide)⟩
  | lock here => exact ⟨bound, first, fun _ => tgt (.inl here)⟩
  | pick here more place cross =>
    refine ⟨bound, first, fun _ pos same => ?_⟩
    cases same
    have on := cross.there place.1
    by_cases umount : cfg.change = .umount
    · exact ((first umount more).2 _ on).1
    · exact safe.rooted.stays umount _ on
  | attach here =>
    refine ⟨(Nat.sub_le ..).trans bound, fun umount more => absurd ?_ more, fun on => absurd on (by dsimp only; decide)⟩
    have := sure umount
    dsimp only
    omega

theorem Aims.changer (aims : Aims cfg s) (safe : Safe cfg s) (step : Changer cfg s after) : Aims cfg after := by
  obtain ⟨bound, first, tgt⟩ := aims
  have calm (here : s.cpc ≠ .cPick) (umount : cfg.change = .umount) (more : s.budget ≠ 0) : False :=
    here (first umount more).1
  have aim (here : s.cpc ≠ .cPick) (umount : cfg.change = .umount) (on : s.mpc = .mLock ∨ s.mpc = .mAttach) : False :=
    calm here umount (safe.works.budget on)
  cases step with
  | nothing here none =>
    have other : cfg.change ≠ .umount := by
      rw [none]
      decide
    exact ⟨bound, fun umount => absurd umount other, tgt⟩
  | pickUmount here umount take =>
    refine ⟨bound, fun _ more => absurd take.2.1 ?_, tgt⟩
    rw [((first umount more).2 _ take.1).2]
    decide
  | pickMove here move =>
    have other : cfg.change ≠ .umount := by
      rw [move]
      decide
    exact ⟨bound, fun umount => absurd umount other, tgt⟩
  | lock here | unlock here | gp here =>
    exact ⟨bound, fun umount more => (calm (by rw [here]; decide) umount more).elim, tgt⟩
  | unhash here =>
    have umount := safe.works.umounts (.inl here)
    exact ⟨bound, fun umount more => (calm (by rw [here]; decide) umount more).elim,
      fun on => (aim (by rw [here]; decide) umount on).elim⟩
  | put here =>
    have umount := safe.works.umounts (.inr (.inr here))
    exact ⟨bound, fun umount more => (calm (by rw [here]; decide) umount more).elim,
      fun on => (aim (by rw [here]; decide) umount on).elim⟩
  | mvUnhash here | mvSet here =>
    refine ⟨bound, fun umount more => (calm (by rw [here]; decide) umount more).elim, fun on pos same => ?_⟩
    have ns := tgt on pos same
    dsimp only
    rw [Function.update_apply]
    split_ifs with self
    · exact self ▸ ns
    · exact ns
  | mvHash here hash =>
    refine ⟨bound, fun umount more => (calm (by rw [here]; decide) umount more).elim, fun on pos same => ?_⟩
    dsimp only
    rw [hash, rehash_mnt]
    exact tgt on pos same

theorem Init.safe [Fintype E] [DecidableEq K] (start : Init cfg s) (formed : cfg.WellFormed) (few : cfg.mounts ≤ 2) : Safe cfg s := by
  have inv := start.inv
  have tree (x : M) : (s.mnt x).freed = false ∧ (s.mnt x).hashed = false ∧ ¬ Tree.HasParent s.mnt x ∧
      (s.mnt x).ns = (s.mnt x).alive ∧ (s.mnt x).count = if (s.mnt x).ns = true then 1 else 0 := by
    rw [Tree.HasParent, start.mnt]
    by_cases root : x = cfg.rootMnt
    · rw [if_pos root]
      exact ⟨rfl, rfl, not_not_intro rfl, rfl, rfl⟩
    · rw [if_neg root]
      exact ⟨rfl, rfl, not_not_intro rfl, rfl, rfl⟩
  have bare : holders s = 0 := by
    refine Finset.sum_eq_zero fun w _ => ?_
    rw [Walker.refs, start.walker]
    rfl
  refine ⟨inv.shared, ?_, ⟨?_, ?_, ?_, ?_, .inl start.todo, ?_⟩, start.budget ▸ few, fun w => ?_⟩
  · rw [start.todo, bare]
    refine ⟨fun x _ => (tree x).1, fun x ns => (tree x).2.2.2.1 ▸ ns, fun x _ linked => absurd linked (tree x).2.2.1,
      fun x inside => absurd inside (Finset.notMem_empty x), fun _ x on => (tree x).2.2.2.1.trans on, fun _ x _ hashed => ?_,
      fun _ => ?_, fun _ x _ linked => absurd linked (tree x).2.2.1, fun x _ => ?_⟩
    · cases hashed.symm.trans (tree x).2.1
    · have none : onMounts s.mnt = ∅ :=
        Finset.filter_eq_empty_iff.mpr fun x _ both => (tree x).2.2.1 both.2
      rw [none]
      exact Nat.zero_le _
    · rw [(tree x).2.2.2.2]
      simp
  · rw [start.cpc]
    exact fun on => absurd on (by decide)
  · rw [start.cpc]
    exact fun on => absurd on (by decide)
  · rw [start.ctgt]
    exact fun _ pos same => (by cases same)
  · rw [start.cpc]
    exact fun on => absurd on (by decide)
  · rw [start.mpc]
    exact fun on => absurd on (by decide)
  · rw [start.walker]
    refine ⟨fun x same => (by cases same), fun _ _ => ⟨rfl, ?_⟩, fun ref => (by cases ref), fun done => (by cases done),
      fun _ => ⟨rfl, formed.rooted w⟩, fun _ begun => absurd rfl begun⟩
    dsimp only
    rw [formed.rooted w]
    exact inv.shared.root

variable [DecidableEq W]

theorem Safe.changer (safe : Safe cfg s) (waits : cfg.fixRcuFree = true) (step : Changer cfg s after) : Safe cfg after := by
  cases step with
  | nothing here => exact safe.nothing here
  | pickUmount here _ take => exact safe.pickUmount here take
  | pickMove here move take place _ cross above _ => exact safe.pickMove here move take place cross above
  | lock here calm => exact safe.lock here calm
  | unhash here => exact safe.unhashes here
  | mvUnhash here => exact safe.mvUnhash here
  | mvSet here goal => exact safe.mvSet here goal
  | mvHash here hash => exact safe.mvHash here hash
  | unlock here => exact safe.unlock here
  | gp here => exact safe.gp waits here
  | put here quietly => exact safe.put here quietly

/-! ### The walkers -/

variable [Fintype E] [DecidableEq K]

omit [Fintype W] in
theorem RcuWalk.walks (step : RcuWalk cfg s w after) : Walks s after ∧ after.budget = s.budget := by
  cases step with
  | init => exact ⟨⟨.refl _, rfl, rfl, rfl, rfl, rfl, rfl, rfl⟩, rfl⟩
  | compEnd | compUp | compMissing | compChild | bare | miss | hop | step | up => exact ⟨walks_set .., rfl⟩
  | slow | negative | upEagain => exact ⟨⟨.refl _, rfl, rfl, rfl, rfl, rfl, rfl, rfl⟩, rfl⟩
  | slowAgain | missAgain | hopAgain | upAgain | completeAgain => exact ⟨walks_restart .., rfl⟩
  | complete => exact ⟨⟨recount_addCount (s.rcuOut w) (s.walker w).path.mnt 1, rfl, rfl, rfl, rfl, rfl, rfl, rfl⟩, rfl⟩

omit [Fintype W] in
theorem RefWalk.walks (step : RefWalk cfg s w after) : Walks s after ∧ after.budget = s.budget := by
  have goes (next : Pos M E) : Walks s (refTo s w next) ∧ (refTo s w next).budget = s.budget := by
    rw [refTo]
    split_ifs
    · exact ⟨walks_set .., rfl⟩
    · refine ⟨(walks_rebase s w next.mnt).1.trans (walks_set ..), ?_⟩
      rw [State.set_budget, State.rebase]
      split <;> rfl
  cases step with
  | compEnd | missing => exact ⟨walks_set .., rfl⟩
  | up | down => exact goes _

/-! ### Every run -/

theorem Safe.next (safe : Safe cfg s) (formed : cfg.WellFormed) (waits : cfg.fixRcuFree = true) (careful : Careful s)
    (step : Next cfg s after) : Safe cfg after := by
  cases step with
  | rcu mode step => exact safe.rcuWalk formed mode step
  | ref mode step => exact safe.refWalk mode step
  | mounter step => exact safe.mounter careful step
  | changer step => exact safe.changer waits step
  | settled => exact safe

theorem Aims.next (aims : Aims cfg s) (safe : Safe cfg s) (sure : cfg.change = .umount → cfg.mounts ≤ 1)
    (step : Next cfg s after) : Aims cfg after := by
  cases step with
  | rcu _ step => exact aims.walks step.walks.1 step.walks.2
  | ref _ step => exact aims.walks step.walks.1 step.walks.2
  | mounter step => exact aims.mounter safe sure step
  | changer step => exact aims.changer safe step
  | settled => exact aims

/-- On the runs on which each mount is made on one that is still in the namespace. -/
theorem safe_whilst (formed : cfg.WellFormed) (waits : cfg.fixRcuFree = true) (few : cfg.mounts ≤ 2) :
    ((spec cfg).whilst Careful).Invariant (Safe cfg) := by
  apply System.Invariant.of_step
  · exact fun s start => Init.safe start formed few
  · rintro s t safe ⟨careful, step⟩
    exact safe.next formed waits careful step

/-- No walker stands on a freed mount while every mount is made on one that is still in the
namespace. -/
theorem careful_walks_stand (formed : cfg.WellFormed) (waits : cfg.fixRcuFree = true) (few : cfg.mounts ≤ 2) :
    ((spec cfg).whilst Careful).Invariant NoUAF :=
  (safe_whilst formed waits few).mono fun _ safe => safe.noUAF

/-- Nobody stands on a freed mount, unless the second mount goes onto the first when that has
been unmounted. -/
theorem stands_on_mounts (formed : cfg.WellFormed) (waits : cfg.fixRcuFree = true) (few : cfg.mounts ≤ 2) {length : ℕ}
    {states : ℕ → State M E K W} (run : (spec cfg).Run length states)
    (careful : cfg.change = .umount → cfg.mounts = 2 → ∀ i < length, Careful (states i)) : ∀ i ≤ length, NoUAF (states i) := by
  by_cases sure : cfg.change = .umount → cfg.mounts ≤ 1
  · have both : ∀ i ≤ length, Safe cfg (states i) ∧ Aims cfg (states i) := by
      intro i
      induction i with
      | zero => exact fun _ => ⟨Init.safe run.start formed few, Init.aims run.start⟩
      | succ i ih =>
        intro inside
        obtain ⟨safe, aims⟩ := ih (by omega)
        have step := run.next i inside
        exact ⟨safe.next formed waits aims.careful step, aims.next safe sure step⟩
    exact fun i inside => (both i inside).1.noUAF
  · obtain ⟨umount, two⟩ := Classical.not_imp.mp sure
    have guarded := run.whilst (careful umount (by omega))
    exact fun i inside => (safe_whilst formed waits few _ (guarded.reachable i inside)).noUAF

/-! ### A lazy umount during the visit -/

def leaving : Config (Fin 3) (Fin 4) (Fin 4) Bool Unit := { visit with change := .umount }

theorem calm {s : State (Fin 3) (Fin 4) (Fin 4) Unit} (elsewhere : s.mpc ≠ .mAttach) : Careful s :=
  fun here => absurd here elsewhere

theorem onto {s : State (Fin 3) (Fin 4) (Fin 4) Unit} {pos : Pos (Fin 3) (Fin 4)} (target : s.tgt = some pos)
    (inside : (s.mnt pos.mnt).ns = true) : Careful s := by
  intro _ other same
  obtain rfl : pos = other := Option.some.inj (target.symm.trans same)
  exact inside

/-- The walker is on the mount that is unmounted, and the grace period waits for it. -/
theorem leaving_frees : ∃ s, ((spec leaving).whilst Careful).Reachable s ∧ (s.mnt 1).freed = true ∧
    (s.walker ()).path = ⟨1, 3⟩ ∧ (s.walker ()).res = some (.err .eagain) := by
  have run : ((spec leaving).whilst Careful).Reachable threshold :=
    .init ⟨fun _ => rfl, fun _ => rfl, rfl, fun _ => rfl, rfl, fun _ => rfl, rfl, rfl, rfl, rfl, rfl, rfl⟩
  have run := run.next ⟨calm (by decide), .mounter (.pick (p := 0) (d := 1) rfl (by decide) ⟨rfl, rfl, rfl, rfl⟩ (.here (by decide)))⟩
  have run := run.next ⟨calm (by decide), .mounter (.lock rfl (by decide))⟩
  have run := run.next ⟨onto rfl rfl, .mounter (.attach (x := 1) rfl rfl (by decide))⟩
  have run := run.next ⟨calm (by decide), .mounter (.unlock rfl)⟩
  have run := run.next ⟨calm (by decide), .rcu (w := ()) rfl (.init rfl (by decide))⟩
  have run := run.next ⟨calm (by decide), .rcu (w := ()) rfl (.compChild (c := 1) rfl rfl (by decide))⟩
  have run := run.next ⟨calm (by decide), .rcu (w := ()) rfl (.hop (q := 1) rfl rfl (by decide) (by decide) fun stale => stale.2 rfl)⟩
  have run := run.next ⟨calm (by decide), .rcu (w := ()) rfl (.bare rfl rfl (by decide))⟩
  have run := run.next ⟨calm (by decide), .rcu (w := ()) rfl (.step rfl rfl rfl)⟩
  have run := run.next ⟨calm (by decide), .changer (.pickUmount rfl rfl ⟨rfl, rfl, rfl⟩)⟩
  have run := run.next ⟨calm (by decide), .changer (.lock rfl (by decide))⟩
  have run := run.next ⟨calm (by decide), .changer (.unhash rfl)⟩
  have run := run.next ⟨calm (by decide), .changer (.unlock rfl)⟩
  have run := run.next ⟨calm (by decide), .changer (.gp rfl)⟩
  have run := run.next ⟨calm (by decide), .rcu (w := ()) rfl (.compChild (c := 3) rfl rfl (by decide))⟩
  have run := run.next ⟨calm (by decide), .rcu (w := ()) rfl (.bare rfl rfl (by decide))⟩
  have run := run.next ⟨calm (by decide), .rcu (w := ()) rfl (.step rfl rfl rfl)⟩
  have run := run.next ⟨calm (by decide), .rcu (w := ()) rfl (.compUp rfl rfl)⟩
  have run := run.next ⟨calm (by decide), .rcu (w := ()) rfl (.upEagain rfl (DotDot.plain (by decide) (by decide))
    (fun distrusts => distrusts.2.elim (fun same => Up.noConfusion same) fun same => Up.noConfusion same.1) ⟨rfl, rfl, fun same => absurd same (by decide)⟩)⟩
  have run := run.next ⟨calm (by decide), .changer (.put rfl (by decide))⟩
  exact ⟨_, run, by decide, rfl, rfl⟩

theorem leaving_walks_stand : ∃ s, ((spec leaving).whilst Careful).Reachable s ∧ (s.mnt 1).freed = true ∧
    (s.walker ()).path = ⟨1, 3⟩ ∧ NoUAF s := by
  obtain ⟨s, reached, freed, place, -⟩ := leaving_frees
  exact ⟨s, reached, freed, place, careful_walks_stand ⟨fun _ => rfl, by decide⟩ rfl (by decide) s reached⟩

theorem leaving_stands : ∃ length states, (spec leaving).Run length states ∧ ((states length).mnt 1).freed = true ∧
    ((states length).walker ()).path = ⟨1, 3⟩ ∧ ∀ i ≤ length, NoUAF (states i) := by
  obtain ⟨s, reached, freed, place, -⟩ := leaving_frees
  obtain ⟨length, states, run, rfl⟩ := reached.run
  obtain ⟨run, careful⟩ := run.of_whilst
  exact ⟨length, states, run, freed, place, stands_on_mounts ⟨fun _ => rfl, by decide⟩ rfl (by decide) run fun _ _ => careful⟩

/-- A mount made on one that was unmounted leads the walker back onto it, freed. -/
theorem leaving_climbs_onto_freed : leaving.WellFormed ∧ leaving.mounts = 2 ∧ ¬ (spec leaving).Invariant NoUAF := by
  refine ⟨⟨fun _ => rfl, by decide⟩, rfl, fun stands => ?_⟩
  have run : (spec leaving).Reachable threshold :=
    .init ⟨fun _ => rfl, fun _ => rfl, rfl, fun _ => rfl, rfl, fun _ => rfl, rfl, rfl, rfl, rfl, rfl, rfl⟩
  -- The first mount sends the walker back to the root, in REF mode, and it goes down into it.
  have run := run.next (.rcu (w := ()) rfl (.init rfl (by decide)))
  have run := run.next (.mounter (.pick (p := 0) (d := 1) rfl (by decide) ⟨rfl, rfl, rfl, rfl⟩ (.here (by decide))))
  have run := run.next (.mounter (.lock rfl (by decide)))
  have run := run.next (.mounter (.attach (x := 1) rfl rfl (by decide)))
  have run := run.next (.mounter (.unlock rfl))
  have run := run.next (.rcu (w := ()) rfl (.compChild (c := 1) rfl rfl (by decide)))
  have run := run.next (.rcu (w := ()) rfl (.hopAgain (q := 1) rfl rfl (by decide) (by decide) ⟨rfl, fun same => absurd same (by decide)⟩))
  have run := run.next (.ref (w := ()) rfl (.down (c := 1) rfl (by decide) rfl (by decide) rfl (.across (o := 1) (by decide) (.here (by decide)))))
  -- The place on it is picked before it is unmounted, and mounted on after.
  have run := run.next (.mounter (.pick (p := 1) (d := 3) rfl (by decide) ⟨rfl, rfl, rfl, rfl⟩ (.here (by decide))))
  have run := run.next (.changer (.pickUmount rfl rfl ⟨rfl, rfl, rfl⟩))
  have run := run.next (.changer (.lock rfl (by decide)))
  have run := run.next (.changer (.unhash rfl))
  have run := run.next (.changer (.unlock rfl))
  have run := run.next (.mounter (.lock rfl (by decide)))
  have run := run.next (.mounter (.attach (x := 2) rfl rfl (by decide)))
  have run := run.next (.mounter (.unlock rfl))
  have run := run.next (.ref (w := ()) rfl (.down (c := 3) rfl (by decide) rfl (by decide) rfl (.across (o := 2) (by decide) (.here (by decide)))))
  have run := run.next (.changer (.gp rfl))
  have run := run.next (.changer (.put rfl (by decide)))
  have run := run.next (.ref (w := ()) rfl (.up rfl (by decide) rfl
    (.climb (by decide) (by decide) (.found (by decide) (by decide) (by decide)))))
  exact absurd (stands _ run () 1 (by decide)) (by decide)

end LinuxTla.MountWalk
