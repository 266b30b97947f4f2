import LinuxTla.Lib.Counts
import LinuxTla.MountWalk.Validated
import Mathlib.Algebra.BigOperators.Group.Finset.Basic

/-! As long as nothing is mounted on a mount that has left the namespace, whoever stands on a
mount keeps it. -/

namespace LinuxTla.MountWalk

open Lib

variable {M E K S W : Type} [LinearOrder M]
  {cfg : Config M E K S W} {s after : State M E K W} {mt mt' : Tree M E} {x y p : M} {d : E}
  {v w : W} {l : Walker M E K} {todo : Finset M} {own : M → ℕ} {made : ℕ} {root pos next : Pos M E}

def Walker.refs (l : Walker M E K) : M → ℕ := l.held.elim 0 one

variable [Fintype W]

def holders (s : State M E K W) : M → ℕ := ∑ w, (s.walker w).refs

variable [DecidableEq W]

def rest (s : State M E K W) (w : W) : M → ℕ := ∑ v ∈ Finset.univ.erase w, (s.walker v).refs

theorem holders_eq (s : State M E K W) (w : W) : holders s = rest s w + (s.walker w).refs :=
  (Finset.sum_erase_add _ _ (Finset.mem_univ w)).symm

theorem holders_update (walker : after.walker = Function.update s.walker w l) : holders after = rest s w + l.refs := by
  have others : rest after w = rest s w := Finset.sum_congr rfl fun v other => by
    rw [walker, Function.update_of_ne (Finset.ne_of_mem_erase other)]
  rw [holders_eq after w, others, walker, Function.update_self]

variable [Fintype M]

def onMounts (mt : Tree M E) : Finset M := Finset.univ.filter fun x => (mt x).alive = true ∧ Tree.HasParent mt x

/-- A mount that is attached has its parent in the namespace, and every reference is counted. -/
structure Rooted (cfg : Config M E K S W) (mt : Tree M E) (todo : Finset M) (own : M → ℕ) (made : ℕ) : Prop where
  freed : ∀ x, (mt x).alive = true → (mt x).freed = false
  alive : ∀ x, (mt x).ns = true → (mt x).alive = true
  linked : ∀ x, (mt x).alive = true → Tree.HasParent mt x → (mt x).ns = true ∧ (mt (mt x).parent).ns = true
  left : ∀ x ∈ todo, (mt x).ns = false
  stays : cfg.change ≠ .umount → ∀ x, (mt x).alive = true → (mt x).ns = true
  hashed : cfg.change = .umount → ∀ x, (mt x).alive = true → (mt x).hashed = true → Tree.HasParent mt x
  few : cfg.change = .umount → (onMounts mt).card ≤ made
  cycle : cfg.change = .umount → ∀ x, (mt x).alive = true → Tree.HasParent mt x → Tree.HasParent mt (mt x).parent →
    (mt (mt x).parent).parent ≠ x
  ledger : ∀ x, (mt x).alive = true → (mt x).count = (if (mt x).ns = true ∨ x ∈ todo then 1 else 0) + own x

theorem mem_onMounts : x ∈ onMounts mt ↔ (mt x).alive = true ∧ Tree.HasParent mt x := by simp [onMounts]

omit [Fintype W] [DecidableEq W] in
/-- Nothing but counts and the hash changes. -/
theorem Rooted.congr {own' : M → ℕ} (rooted : Rooted cfg mt todo own made)
    (same : ∀ x, ∃ h c, mt' x = { mt x with hashed := h, count := c }) (calm : cfg.change = .umount → ∀ x, (mt' x).hashed = (mt x).hashed)
    (ledger : ∀ x, (mt x).alive = true → (mt' x).count = (if (mt x).ns = true ∨ x ∈ todo then 1 else 0) + own' x) :
    Rooted cfg mt' todo own' made := by
  have alive (x : M) : (mt' x).alive = (mt x).alive := by
    obtain ⟨_, _, same⟩ := same x
    rw [same]
  have ns (x : M) : (mt' x).ns = (mt x).ns := by
    obtain ⟨_, _, same⟩ := same x
    rw [same]
  have parent (x : M) : (mt' x).parent = (mt x).parent := by
    obtain ⟨_, _, same⟩ := same x
    rw [same]
  have linked (x : M) : Tree.HasParent mt' x ↔ Tree.HasParent mt x := by rw [Tree.HasParent, Tree.HasParent, parent]
  have on : onMounts mt' = onMounts mt := by
    ext x
    rw [mem_onMounts, mem_onMounts, alive, linked]
  constructor
  case freed =>
    intro x here
    rw [alive] at here
    obtain ⟨_, _, same⟩ := same x
    rw [same]
    exact rooted.freed x here
  case hashed =>
    intro umount x here
    rw [alive] at here
    rw [calm umount, linked]
    exact rooted.hashed umount x here
  case few =>
    rw [on]
    exact rooted.few
  case ledger =>
    intro x here
    rw [alive] at here
    rw [ns]
    exact ledger x here
  case left =>
    intro x inside
    rw [ns]
    exact rooted.left x inside
  all_goals simp only [alive, ns, parent, linked]
  · exact rooted.alive
  · exact rooted.linked
  · exact rooted.stays
  · exact rooted.cycle

/-! ### Where a walker goes -/

omit [Fintype W] [DecidableEq W] in
theorem Rooted.parent (rooted : Rooted cfg mt todo own made) (on : (mt x).alive = true) (linked : Tree.HasParent mt x) :
    (mt (mt x).parent).alive = true ∧ (mt x).parent ∉ todo := by
  have ns := (rooted.linked x on linked).2
  exact ⟨rooted.alive _ ns, fun inside => by cases ns.symm.trans (rooted.left _ inside)⟩

omit [Fintype W] [DecidableEq W] in
theorem Climb.there {answer : Option (Pos M E)} (rooted : Rooted cfg mt todo own made) (climb : Climb mt root x answer)
    (on : (mt x).alive = true) (found : answer = some pos) : (mt pos.mnt).alive = true ∧ pos.mnt ∉ todo := by
  induction climb with
  | top | root => cases found
  | found linked =>
    cases found
    exact rooted.parent on linked
  | up linked _ _ _ ih => exact ih (rooted.parent on linked).1 found

omit [Fintype W] [DecidableEq W] in
theorem DotDot.there {how : Up} (rooted : Rooted cfg mt todo own made) (up : DotDot cfg mt root pos how next)
    (on : (mt pos.mnt).alive = true) : (mt next.mnt).alive = true ∧ (next.mnt = pos.mnt ∨ next.mnt ∉ todo) := by
  cases up with
  | root | top | plain => exact ⟨on, .inl rfl⟩
  | climb _ _ found =>
    obtain ⟨alive, outside⟩ := found.there rooted on rfl
    exact ⟨alive, .inr outside⟩

variable [LinearOrder E]

theorem Cross.there (cross : Cross mt pos next) (on : (mt pos.mnt).alive = true) : (mt next.mnt).alive = true := by
  induction cross with
  | here => exact on
  | across found _ ih => exact ih (lookupMnt_some found).1

/-! ### Who stands where -/

/-- A walker in REF mode holds the mount it stands on, and the grace period waits for one in
RCU mode. -/
structure Stands (cfg : Config M E K S W) (s : State M E K W) (w : W) (l : Walker M E K) : Prop where
  held : ∀ x, l.held = some x → (s.mnt x).alive = true
  early : l.ref = false → l.pc ≠ .done → l.held = none ∧ (s.mnt l.path.mnt).alive = true
  late : l.ref = true → l.held = some l.path.mnt
  ended : l.pc = .done → ∀ pos, l.res = some (.ok pos) → l.held = some pos.mnt
  start : l.pc = .wInit → l.ref = false ∧ l.path.mnt = cfg.rootMnt
  waits : l.ref = false → l.pc ≠ .wInit → l.pc ≠ .done → s.rcu w = true ∧ (s.cpc = .cPut → l.path.mnt ∈ s.todo → w ∈ s.wait)

/-- The changer knows what it works on. -/
structure Works (cfg : Config M E K S W) (s : State M E K W) : Prop where
  umounts : s.cpc = .cUnhash ∨ s.cpc = .cGp ∨ s.cpc = .cPut → cfg.change = .umount
  moves : s.cpc = .cMvUnhash ∨ s.cpc = .cMvSet ∨ s.cpc = .cMvHash → cfg.change ≠ .umount
  target : s.cpc.Targets → ∀ pos, s.ctgt = some pos → (s.mnt pos.mnt).ns = true
  victim : s.cpc = .cLock ∨ s.cpc = .cUnhash ∨ s.cpc = .cMvUnhash ∨ s.cpc = .cMvSet → (s.mnt cfg.victim).ns = true ∧
    (cfg.change = .umount → Tree.HasParent s.mnt cfg.victim)
  idle : s.todo = ∅ ∨ s.cpc.Owes
  budget : s.mpc = .mLock ∨ s.mpc = .mAttach → s.budget ≠ 0

/-- Nobody stands on a mount that is gone. -/
structure Safe (cfg : Config M E K S W) (s : State M E K W) : Prop where
  shared : Shared cfg s
  rooted : Rooted cfg s.mnt s.todo (holders s) (2 - s.budget)
  works : Works cfg s
  budget : s.budget ≤ 2
  stands : ∀ w, Stands cfg s w (s.walker w)

/-- The walker's step pays for its references. -/
structure Pays (cfg : Config M E K S W) (s : State M E K W) (w : W) (l : Walker M E K) (after : State M E K W) : Prop where
  walks : Walks s after
  walker : after.walker = Function.update s.walker w l
  count : ∀ x, (after.mnt x).count = (s.mnt x).count - (s.walker w).refs x + l.refs x
  budget : after.budget = s.budget
  rcu : ∀ v, v ≠ w → after.rcu v = s.rcu v
  wait : ∀ v, v ≠ w → (v ∈ after.wait ↔ v ∈ s.wait)
  stands : Stands cfg after w l

omit [LinearOrder M] [Fintype W] [DecidableEq W] [Fintype M] [LinearOrder E] in
theorem Walks.alive (walks : Walks s after) (x : M) : (after.mnt x).alive = (s.mnt x).alive := by
  obtain ⟨_, same⟩ := walks.mnt x
  rw [same]

omit [LinearOrder M] [Fintype W] [DecidableEq W] [Fintype M] [LinearOrder E] in
theorem Walks.ns (walks : Walks s after) (x : M) : (after.mnt x).ns = (s.mnt x).ns := by
  obtain ⟨_, same⟩ := walks.mnt x
  rw [same]

variable [Fintype E]

omit [Fintype E] in
theorem Safe.pays (safe : Safe cfg s) (pays : Pays cfg s w l after) : Safe cfg after where
  shared := pays.walks.shared safe.shared
  budget := pays.budget ▸ safe.budget
  rooted := by
    rw [pays.walks.todo, pays.budget]
    refine safe.rooted.congr (fun x => ?_) (fun _ x => ?_) fun x on => ?_
    · obtain ⟨c, same⟩ := pays.walks.mnt x
      exact ⟨(s.mnt x).hashed, c, same⟩
    · obtain ⟨_, same⟩ := pays.walks.mnt x
      rw [same]
    · have ledger := safe.rooted.ledger x on
      rw [holders_eq s w, Pi.add_apply] at ledger
      rw [pays.count, holders_update pays.walker, Pi.add_apply, ledger]
      push_cast
      omega
  works := by
    have tree := pays.walks.mnt.sameTree
    obtain ⟨umounts, moves, target, victim, idle, budget⟩ := safe.works
    refine ⟨?_, ?_, ?_, ?_, ?_, ?_⟩
    · rw [pays.walks.cpc]
      exact umounts
    · rw [pays.walks.cpc]
      exact moves
    · rw [pays.walks.cpc, pays.walks.ctgt]
      intro on pos same
      rw [pays.walks.ns]
      exact target on pos same
    · rw [pays.walks.cpc, pays.walks.ns, tree.linked]
      exact victim
    · rw [pays.walks.cpc, pays.walks.todo]
      exact idle
    · rw [pays.walks.mpc, pays.budget]
      exact budget
  stands v := by
    rw [pays.walker]
    by_cases here : v = w
    · rw [here, Function.update_self]
      exact pays.stands
    · rw [Function.update_of_ne here]
      obtain ⟨held, early, late, ended, start, waits⟩ := safe.stands v
      refine ⟨fun x same => (pays.walks.alive x).trans (held x same), fun mode going => ?_, late, ended, start,
        fun mode begun going => ?_⟩
      · rw [pays.walks.alive]
        exact early mode going
      · rw [pays.rcu v here, pays.wait v here, pays.walks.cpc, pays.walks.todo]
        exact waits mode begun going

/-! ### The walkers -/

omit [Fintype W] [DecidableEq W] [Fintype M] [LinearOrder E] [Fintype E] in
theorem addCount_count (s : State M E K W) (x y : M) (n : ℤ) :
    ((s.addCount x n).mnt y).count = (s.mnt y).count + n * one x y := by
  rw [State.addCount_mnt, Function.update_apply]
  by_cases here : y = x
  · rw [if_pos here, here, one_self]
    simp
  · rw [if_neg here, one_other here]
    simp

omit [LinearOrder M] [Fintype W] [Fintype M] [LinearOrder E] [Fintype E] in
theorem rcuOut_wait (s : State M E K W) (other : v ≠ w) : (s.rcuOut w).rcu v = s.rcu v ∧ (v ∈ (s.rcuOut w).wait ↔ v ∈ s.wait) := by
  refine ⟨?_, ?_⟩
  · rw [State.rcuOut_rcu, Function.update_of_ne other]
  · rw [State.rcuOut_wait, Finset.mem_erase]
    exact ⟨And.right, fun inside => ⟨other, inside⟩⟩

omit [Fintype E] in
theorem Safe.moves (safe : Safe cfg s) (mode : l.ref = false) (held : l.held = none) (none : (s.walker w).held = none)
    (pc : l.pc ≠ .wInit ∧ l.pc ≠ .done) (there : (s.mnt l.path.mnt).alive = true)
    (waits : s.rcu w = true ∧ (s.cpc = .cPut → l.path.mnt ∈ s.todo → w ∈ s.wait)) : Safe cfg (s.set w l) := by
  refine safe.pays (w := w) ⟨walks_set .., rfl, fun x => ?_, rfl, fun _ _ => rfl, fun _ _ => .rfl, ?_⟩
  · rw [Walker.refs, Walker.refs, held, none]
    simp
  · refine ⟨fun x same => ?_, fun _ _ => ⟨held, there⟩, fun ref => ?_, fun done => absurd done pc.2,
      fun init => absurd init pc.1, fun _ _ _ => waits⟩
    · cases held.symm.trans same
    · cases mode.symm.trans ref

omit [Fintype E] in
/-- A walker whose walk ended without a mount. -/
theorem Safe.fails (safe : Safe cfg s) (mode : (s.walker w).ref = false) (going : (s.walker w).pc ≠ .done) (e : Errno) :
    Safe cfg (s.finish w (.err e)) := by
  have none := ((safe.stands w).early mode going).1
  refine safe.pays (w := w) (l := { s.walker w with pc := .done, res := some (.err e) })
    ⟨⟨.refl _, rfl, rfl, rfl, rfl, rfl, rfl, rfl⟩, rfl, fun x => ?_, rfl, fun v other => (rcuOut_wait s other).1,
      fun v other => (rcuOut_wait s other).2, ?_⟩
  · rw [Walker.refs, Walker.refs]
    simp [State.finish]
  · refine ⟨fun x same => ?_, fun _ going => absurd rfl going, fun ref => ?_, fun _ pos same => (by cases same),
      fun init => (by cases init), fun _ _ going => absurd rfl going⟩
    · cases none.symm.trans same
    · cases mode.symm.trans ref

variable [DecidableEq K]

omit [DecidableEq K] [Fintype E] in
theorem Safe.restarts (safe : Safe cfg s) (formed : cfg.WellFormed) (mode : (s.walker w).ref = false)
    (going : (s.walker w).pc ≠ .done) : Safe cfg (s.restart cfg w) := by
  have none := ((safe.stands w).early mode going).1
  have walks := walks_restart cfg s w
  refine safe.pays (w := w)
    (l := { s.walker w with pc := .rComp, ref := true, path := cfg.root w, left := cfg.prog w, held := some cfg.rootMnt })
    ⟨walks, rfl, fun x => ?_, rfl, fun v other => (rcuOut_wait s other).1, fun v other => (rcuOut_wait s other).2, ?_⟩
  · rw [Walker.refs, Walker.refs, none]
    change (((s.rcuOut w).addCount cfg.rootMnt 1).mnt x).count = _
    rw [addCount_count]
    simp
  · refine ⟨fun x same => ?_, fun ref => (by cases ref), fun _ => ?_, fun done => (by cases done), fun init => (by cases init),
      fun ref => (by cases ref)⟩
    · cases same
      exact (walks.alive _).trans safe.shared.root
    · exact congrArg some (formed.rooted w).symm

theorem Safe.rcuWalk (safe : Safe cfg s) (formed : cfg.WellFormed) (mode : (s.walker w).ref = false)
    (step : RcuWalk cfg s w after) : Safe cfg after := by
  have stands := safe.stands w
  have begun {pc : Label} (here : (s.walker w).pc = pc) (other : pc ≠ .wInit ∧ pc ≠ .done) :
      ((s.walker w).pc ≠ .wInit ∧ (s.walker w).pc ≠ .done) := by
    rw [here]
    exact other
  have early (on : (s.walker w).pc ≠ .wInit ∧ (s.walker w).pc ≠ .done) := stands.early mode on.2
  have waits (on : (s.walker w).pc ≠ .wInit ∧ (s.walker w).pc ≠ .done) := stands.waits mode on.1 on.2
  cases step with
  | init here =>
    obtain ⟨none, there⟩ := stands.early mode (by rw [here]; decide)
    have root := (stands.start here).2
    refine safe.pays (w := w) (l := { s.walker w with pc := .wComp, mseq := s.seqv })
      ⟨⟨.refl _, rfl, rfl, rfl, rfl, rfl, rfl, rfl⟩, rfl, fun x => ?_, rfl, fun v other => ?_, fun _ _ => .rfl, ?_⟩
    · rw [Walker.refs, Walker.refs]
      simp
    · exact Function.update_of_ne other _ _
    · refine ⟨fun x same => ?_, fun _ _ => ⟨none, there⟩, fun ref => ?_, fun done => (by cases done), fun init => (by cases init),
        fun _ _ _ => ⟨Function.update_self .., fun _ inside => ?_⟩⟩
      · cases none.symm.trans same
      · cases mode.symm.trans ref
      · exact absurd root (safe.shared.todo _ inside).2.2
  | compEnd here | compUp here | compMissing here | compChild here | bare here | miss here =>
    have on := begun here (by decide)
    exact safe.moves mode (early on).1 (early on).1 (by simp) (early on).2 (waits on)
  | slow here | negative here | upEagain here =>
    exact safe.fails mode (begun here (by decide)).2 _
  | slowAgain here | missAgain here | hopAgain here | upAgain here | completeAgain here =>
    exact safe.restarts formed mode (begun here (by decide)).2
  | @hop d q here _ _ hop =>
    have on := begun here (by decide)
    obtain ⟨alive, hashed, _⟩ := lookupMnt_some hop
    refine safe.moves mode (early on).1 (early on).1 on alive ⟨(waits on).1, fun _ inside => ?_⟩
    cases hashed.symm.trans (safe.shared.todo q inside).2.1
  | step here =>
    have on := begun here (by decide)
    exact safe.moves mode (early on).1 (early on).1 (by simp) (early on).2 (waits on)
  | up here up =>
    have on := begun here (by decide)
    obtain ⟨alive, stays⟩ := up.there safe.rooted (early on).2
    refine safe.moves mode (early on).1 (early on).1 (by simp) alive ⟨(waits on).1, fun put inside => ?_⟩
    obtain same | outside := stays
    · exact (waits on).2 put (same ▸ inside)
    · exact absurd inside outside
  | complete here =>
    have on := begun here (by decide)
    obtain ⟨none, there⟩ := early on
    have walks : Walks s ((s.rcuOut w).addCount (s.walker w).path.mnt 1) :=
      ⟨recount_addCount (s.rcuOut w) _ 1, rfl, rfl, rfl, rfl, rfl, rfl, rfl⟩
    refine safe.pays (w := w)
      (l := { s.walker w with pc := .done, res := some (.ok (s.walker w).path), held := some (s.walker w).path.mnt })
      ⟨walks.trans (walks_set ..), rfl, fun x => ?_, rfl, fun v other => (rcuOut_wait s other).1,
        fun v other => (rcuOut_wait s other).2, ?_⟩
    · rw [Walker.refs, Walker.refs, none]
      change (((s.rcuOut w).addCount (s.walker w).path.mnt 1).mnt x).count = _
      rw [addCount_count]
      simp
    · refine ⟨fun x same => ?_, fun _ going => absurd rfl going, fun ref => ?_, fun _ pos same => ?_, fun init => (by cases init),
        fun _ _ going => absurd rfl going⟩
      · cases same
        exact (walks.alive _).trans there
      · cases mode.symm.trans ref
      · cases same
        rfl

omit [DecidableEq K] [Fintype E] in
/-- A walker in REF mode moves its reference. -/
theorem Safe.refTo (safe : Safe cfg s) (mode : (s.walker w).ref = true) (here : (s.walker w).pc = .rComp)
    (there : (s.mnt next.mnt).alive = true) : Safe cfg (refTo s w next) := by
  have stands := safe.stands w
  have held := stands.late mode
  rw [MountWalk.refTo]
  split_ifs with stays
  · refine safe.pays (w := w) (l := { s.walker w with path := next, left := (s.walker w).left.tail })
      ⟨walks_set .., rfl, fun x => ?_, rfl, fun _ _ => rfl, fun _ _ => .rfl, ?_⟩
    · rw [Walker.refs, Walker.refs]
      simp
    · refine ⟨stands.held, fun ref => ?_, fun _ => ?_, fun done => ?_, fun init => ?_, fun ref => ?_⟩
      · cases mode.symm.trans ref
      · dsimp only
        rw [stays]
        exact held
      · cases here.symm.trans done
      · cases here.symm.trans init
      · cases mode.symm.trans ref
  · obtain ⟨walks, walker⟩ := walks_rebase s w next.mnt
    have moved : s.rebase w next.mnt = (s.addCount (s.walker w).path.mnt (-1)).addCount next.mnt 1 := by
      rw [State.rebase, held]
    refine safe.pays (w := w) (l := { s.walker w with path := next, left := (s.walker w).left.tail, held := some next.mnt })
      ⟨walks.trans (walks_set ..), ?_, fun x => ?_, ?_, fun _ _ => ?_, fun _ _ => ?_, ?_⟩
    · change Function.update (s.rebase w next.mnt).walker w _ = _
      rw [walker]
    · rw [Walker.refs, Walker.refs, held, State.set_mnt, moved, addCount_count, addCount_count]
      simp only [Option.elim_some]
      omega
    · rw [State.set_budget, moved]
      rfl
    · rw [State.set_rcu, moved]
      rfl
    · rw [State.set_wait, moved]
      rfl
    · refine ⟨fun x same => ?_, fun ref => ?_, fun _ => rfl, fun done => ?_, fun init => ?_, fun ref => ?_⟩
      · cases same
        exact (walks.alive _).trans there
      · cases mode.symm.trans ref
      · cases here.symm.trans done
      · cases here.symm.trans init
      · cases mode.symm.trans ref

theorem Safe.refWalk (safe : Safe cfg s) (mode : (s.walker w).ref = true) (step : RefWalk cfg s w after) : Safe cfg after := by
  have stands := safe.stands w
  have held := stands.late mode
  have alive : (s.mnt (s.walker w).path.mnt).alive = true := stands.held _ held
  have ends (r : Result M E) (same : ∀ pos, r = .ok pos → pos = (s.walker w).path) :
      Safe cfg (s.set w { s.walker w with pc := .done, res := some r }) := by
    refine safe.pays (w := w) (l := { s.walker w with pc := .done, res := some r })
      ⟨walks_set .., rfl, fun x => ?_, rfl, fun _ _ => rfl, fun _ _ => .rfl, ?_⟩
    · rw [Walker.refs, Walker.refs]
      simp
    · refine ⟨stands.held, fun _ going => absurd rfl going, fun _ => held, fun _ pos ok => ?_, fun init => (by cases init),
        fun _ _ going => absurd rfl going⟩
      rw [same pos (Option.some.inj ok)]
      exact held
  cases step with
  | compEnd => exact ends _ fun pos ok => (Result.ok.inj ok).symm
  | missing => exact ends _ fun pos ok => (by cases ok)
  | up here _ _ up => exact safe.refTo mode here (up.there safe.rooted alive).1
  | down here _ _ _ _ cross => exact safe.refTo mode here (cross.there alive)

end LinuxTla.MountWalk
