import Mathlib.Data.Fin.VecNotation
import LinuxTla.MountWalk.Standing

/-! A negative dentry is -ENOENT without a recheck. That is what the tree said when the walk
began, unless the walker goes past a dentry that has lost its mount since. -/

namespace LinuxTla.MountWalk

variable {M E K S W : Type} [LinearOrder M]
  {cfg : Config M E K S W} {s after : State M E K W} {mt mt' tree : Tree M E} {x : M} {d : E}
  {w : W} {l : Walker M E K} {root pos next : Pos M E}

/-! ### A mount keeps its root -/

/-- The root mount, or one that was attached once. -/
def Made (cfg : Config M E K S W) (mt : Tree M E) (x : M) : Prop := x = cfg.rootMnt ∨ (mt x).root = cfg.sbRoot cfg.newSb

/-- Whoever is mounted, or was, is on such a mount. -/
structure Housed (cfg : Config M E K S W) (s : State M E K W) : Prop where
  alive : ∀ x, (s.mnt x).alive = true → Made cfg s.mnt x
  parent : ∀ x, Made cfg s.mnt x → Made cfg s.mnt (s.mnt x).parent
  tgt : s.mpc = .mLock ∨ s.mpc = .mAttach → ∀ pos, s.tgt = some pos → Made cfg s.mnt pos.mnt
  ctgt : s.cpc.Targets → ∀ pos, s.ctgt = some pos → Made cfg s.mnt pos.mnt

/-- Mounts that were attached once keep their roots. -/
def Keeps (cfg : Config M E K S W) (mt mt' : Tree M E) : Prop := ∀ x, Made cfg mt x → (mt' x).root = (mt x).root

omit [LinearOrder M] in
theorem Made.kept (made : Made cfg mt x) (keeps : Keeps cfg mt mt') : Made cfg mt' x :=
  made.imp_right fun same => (keeps x made).trans same

omit [LinearOrder M] in
theorem Keeps.trans {last : Tree M E} (first : Keeps cfg mt mt') (second : Keeps cfg mt' last) : Keeps cfg mt last :=
  fun x made => (second x (made.kept first)).trans (first x made)

omit [LinearOrder M] in
/-- The step leaves the roots alone and links nothing to a mount never attached. -/
theorem Housed.links (housed : Housed cfg s) (root : ∀ x, (after.mnt x).root = (s.mnt x).root)
    (alive : ∀ x, (after.mnt x).alive = true → (s.mnt x).alive = true)
    (parent : ∀ x, (after.mnt x).parent = (s.mnt x).parent ∨ (after.mnt x).parent = x ∨ Made cfg s.mnt (after.mnt x).parent)
    (tgt : after.mpc = .mLock ∨ after.mpc = .mAttach → ∀ pos, after.tgt = some pos → Made cfg s.mnt pos.mnt)
    (ctgt : after.cpc.Targets → ∀ pos, after.ctgt = some pos → Made cfg s.mnt pos.mnt) :
    Housed cfg after ∧ Keeps cfg s.mnt after.mnt := by
  have made (x : M) : Made cfg after.mnt x ↔ Made cfg s.mnt x := by rw [Made, Made, root]
  refine ⟨⟨fun x on => (made x).mpr (housed.alive x (alive x on)), fun x there => (made _).mpr ?_,
    fun on pos same => (made _).mpr (tgt on pos same), fun on pos same => (made _).mpr (ctgt on pos same)⟩, fun x _ => root x⟩
  rw [made] at there
  obtain same | same | there' := parent x
  · rw [same]
    exact housed.parent x there
  · rwa [same]
  · exact there'

omit [LinearOrder M] in
theorem Housed.walks (housed : Housed cfg s) (walks : Walks s after) : Housed cfg after ∧ Keeps cfg s.mnt after.mnt := by
  refine housed.links (fun x => ?_) (fun x => ?_) (fun x => .inl ?_) ?_ ?_
  · obtain ⟨_, same⟩ := walks.mnt x
    rw [same]
  · obtain ⟨_, same⟩ := walks.mnt x
    rw [same]
    exact id
  · obtain ⟨_, same⟩ := walks.mnt x
    rw [same]
  · rw [walks.mpc, walks.tgt]
    exact housed.tgt
  · rw [walks.cpc, walks.ctgt]
    exact housed.ctgt

theorem Init.housed (start : Init cfg s) : Housed cfg s where
  alive x on := by
    rw [start.mnt] at on
    split_ifs at on with here
    · exact .inl here
    · cases on
  parent x there := by
    rw [start.mnt]
    split_ifs <;> exact there
  tgt on := by
    rw [start.mpc] at on
    exact absurd on (by decide)
  ctgt on := by
    rw [start.cpc] at on
    exact absurd on (by decide)

omit [LinearOrder M] in
theorem Climb.made {answer : Option (Pos M E)} (housed : Housed cfg s) (climb : Climb s.mnt root x answer)
    (made : Made cfg s.mnt x) (found : answer = some pos) : Made cfg s.mnt pos.mnt := by
  induction climb with
  | top | root => cases found
  | found =>
    cases found
    exact housed.parent _ made
  | up _ _ _ _ ih => exact ih (housed.parent _ made) found

omit [LinearOrder M] in
theorem DotDot.made {how : Up} (housed : Housed cfg s) (up : DotDot cfg s.mnt root pos how next) (made : Made cfg s.mnt pos.mnt) :
    Made cfg s.mnt next.mnt := by
  cases up with
  | root | top | plain => exact made
  | climb _ _ found =>
    have there := found.made housed made rfl
    exact there

variable [Fintype M] [LinearOrder E]

theorem Cross.made (housed : Housed cfg s) (cross : Cross s.mnt pos next) (on : (s.mnt pos.mnt).alive = true) :
    Made cfg s.mnt next.mnt := by
  induction cross with
  | here => exact housed.alive _ on
  | across found _ ih => exact ih (lookupMnt_some found).1

theorem Housed.mounter (housed : Housed cfg s) (shared : Shared cfg s) (step : Mounter cfg s after) :
    Housed cfg after ∧ Keeps cfg s.mnt after.mnt := by
  have calm : Keeps cfg s.mnt s.mnt := fun _ _ => rfl
  cases step with
  | finish => exact ⟨⟨housed.alive, housed.parent, fun on => absurd on (by dsimp only; decide), housed.ctgt⟩, calm⟩
  | pick _ _ place cross =>
    have there := cross.made housed place.1
    refine ⟨⟨housed.alive, housed.parent, fun _ pos same => ?_, housed.ctgt⟩, calm⟩
    cases same
    exact there
  | lock here => exact ⟨⟨housed.alive, housed.parent, fun _ => housed.tgt (.inl here), housed.ctgt⟩, calm⟩
  | unlock => exact ⟨⟨housed.alive, housed.parent, fun on => absurd on (by dsimp only; decide), housed.ctgt⟩, calm⟩
  | @attach y p d here target free =>
    have unused : (s.mnt y).alive = false := freeId_dead free
    have apart : y ≠ cfg.rootMnt := by
      rintro rfl
      cases shared.root.symm.trans unused
    -- an id that is used again gets the root it had
    have keeps : Keeps cfg s.mnt (Function.update s.mnt y { fresh cfg y with
        alive := true, parent := p, mp := d, root := cfg.sbRoot cfg.newSb, hashed := true, ns := true, count := 1 }) := by
      intro x made
      by_cases same : x = y
      · rw [same, Function.update_self]
        exact ((same ▸ made).resolve_left apart).symm
      · rw [Function.update_of_ne same]
    have target := housed.tgt (.inr here) _ target
    refine ⟨⟨fun x on => ?_, fun x made => ?_, fun on => absurd on (by dsimp only; decide),
      fun on pos same => (housed.ctgt on pos same).kept keeps⟩, keeps⟩
    · by_cases same : x = y
      · refine .inr ?_
        dsimp only
        rw [same, Function.update_self]
      · dsimp only at on
        rw [Function.update_of_ne same] at on
        exact (housed.alive x on).kept keeps
    · by_cases same : x = y
      · dsimp only
        rw [same, Function.update_self]
        exact target.kept keeps
      · dsimp only [Made] at made ⊢
        rw [Function.update_of_ne same] at made ⊢
        exact (housed.parent x made).kept keeps

variable [Fintype W]

omit [LinearOrder M] [Fintype M] [LinearOrder E] [Fintype W] in
/-- Only the victim's record is written. -/
theorem Housed.writes [DecidableEq M] {m : Mount M E} (housed : Housed cfg s)
    (mnt : after.mnt = Function.update s.mnt cfg.victim m) (root : m.root = (s.mnt cfg.victim).root)
    (alive : m.alive = (s.mnt cfg.victim).alive) (parent : m.parent = (s.mnt cfg.victim).parent ∨ Made cfg s.mnt m.parent)
    (tgt : after.mpc = s.mpc ∧ after.tgt = s.tgt) (ctgt : after.cpc.Targets → s.cpc.Targets ∧ after.ctgt = s.ctgt) :
    Housed cfg after ∧ Keeps cfg s.mnt after.mnt := by
  refine housed.links (fun x => ?_) (fun x on => ?_) (fun x => ?_) ?_ fun on pos same => ?_
  · by_cases same : x = cfg.victim
    · rw [mnt, same, Function.update_self, root]
    · rw [mnt, Function.update_of_ne same]
  · by_cases same : x = cfg.victim
    · rw [mnt, same, Function.update_self, alive] at on
      exact same ▸ on
    · rwa [mnt, Function.update_of_ne same] at on
  · by_cases same : x = cfg.victim
    · rw [mnt, same, Function.update_self]
      exact parent.imp_right .inr
    · rw [mnt, Function.update_of_ne same]
      exact .inl rfl
  · rw [tgt.1, tgt.2]
    exact housed.tgt
  · obtain ⟨before, still⟩ := ctgt on
    exact housed.ctgt before pos (still ▸ same)

theorem Housed.changer (housed : Housed cfg s) (shared : Shared cfg s) (step : Changer cfg s after) :
    Housed cfg after ∧ Keeps cfg s.mnt after.mnt := by
  have still (x : M) : (s.mnt x).parent = (s.mnt x).parent ∨ (s.mnt x).parent = x ∨ Made cfg s.mnt (s.mnt x).parent := .inl rfl
  cases step with
  | nothing | gp =>
    exact housed.links (fun _ => rfl) (fun _ => id) still housed.tgt fun on => absurd on (by dsimp only; decide)
  | pickUmount here =>
    refine housed.links (fun _ => rfl) (fun _ => id) still housed.tgt fun _ pos same => ?_
    cases (shared.fresh here).symm.trans same
  | pickMove _ _ _ place _ cross =>
    refine housed.links (fun _ => rfl) (fun _ => id) still housed.tgt fun _ pos same => ?_
    cases same
    exact cross.made housed place.1
  | lock here => exact housed.links (fun _ => rfl) (fun _ => id) still housed.tgt fun _ => housed.ctgt (by rw [here]; decide)
  | unlock =>
    refine housed.links (fun _ => rfl) (fun _ => id) still housed.tgt fun on => absurd on ?_
    dsimp only
    split_ifs <;> decide
  | unhash =>
    refine housed.links (fun x => (unhash_mnt cfg s x).2.1) (fun x on => (unhash_mnt cfg s x).1 ▸ on) (fun x => ?_) housed.tgt
      fun on => absurd on (by dsimp only; decide)
    dsimp only [unhash]
    split_ifs
    · exact .inr (.inl rfl)
    · exact .inl rfl
  | mvUnhash here => exact housed.writes rfl rfl rfl (.inl rfl) ⟨rfl, rfl⟩ fun _ => ⟨by rw [here]; decide, rfl⟩
  | mvSet here target =>
    have made := housed.ctgt (by rw [here]; decide) _ target
    exact housed.writes rfl rfl rfl (.inr made) ⟨rfl, rfl⟩ fun on => absurd on (by dsimp only; decide)
  | mvHash here hash => exact housed.writes hash rfl rfl (.inl rfl) ⟨rfl, rfl⟩ fun on => absurd on (by dsimp only; decide)
  | put =>
    refine housed.links (fun x => (puts_mnt s x).1) (fun x on => ?_) (fun x => .inl (puts_mnt s x).2.2.1) housed.tgt
      fun on => absurd on (by dsimp only; decide)
    by_cases inside : x ∈ s.todo
    · exact (shared.todo x inside).1
    · dsimp only at on
      rwa [(puts_mnt s x).2.2.2.2 inside] at on

/-! ### The tree the walk began on -/

variable [Fintype E] [DecidableEq K]

/-- The walk is still a prefix of the sequential walk of `mt`, which fails on a negative dentry
the walker is about to enter. -/
structure Recalls (cfg : Config M E K S W) (mt : Tree M E) (s : State M E K W) (w : W) (l : Walker M E K) : Prop where
  same : l.mseq = s.seqv → SameTree mt s.mnt
  keeps : Keeps cfg mt s.mnt
  made : Made cfg mt l.path.mnt
  sim : Sim cfg mt w l
  refuses : Refuses cfg mt w l

omit [Fintype W] in
theorem Recalls.outlives (recalls : Recalls cfg mt s w l) (tells : Tells s after) (keeps : Keeps cfg s.mnt after.mnt)
    (follows : Follows cfg s.mnt s.seqv w l) : Recalls cfg mt after w l where
  same valid := by
    have still := tells.le
    have le := follows.le
    have now : l.mseq = s.seqv := by omega
    obtain same | writing := tells.tree (valid.symm.trans now)
    · exact (recalls.same now).trans same
    · have even := follows.even
      rw [State.Writing] at writing
      omega
  keeps := recalls.keeps.trans keeps
  made := recalls.made
  sim := recalls.sim
  refuses := recalls.refuses

omit [Fintype W] in
theorem Reads.made {m : Walker M E K} (reads : Reads cfg s.mnt w l m) (housed : Housed cfg s) (made : Made cfg s.mnt l.path.mnt) :
    Made cfg s.mnt m.path.mnt := by
  cases reads with
  | compEnd | compUp | compMissing | compChild | pass | step => exact made
  | hop _ _ _ hop => exact housed.alive _ (lookupMnt_some hop).1
  | up _ up => exact up.made housed made

variable [DecidableEq W]

omit [Fintype W] in
theorem Recalls.goesOn {first : State M E K W} (recalls : Recalls cfg first.mnt s w (s.walker w)) (housed : Housed cfg first)
    (shared : Shared cfg first) (inv : Inv cfg s) (formed : cfg.WellFormed)
    (there : ∀ sb, cfg.negative (cfg.sbRoot sb) = false)
    (fixes : cfg.fixRecheckMiss = true ∧ cfg.fixRecheckHop = true ∧ cfg.fixRecheckDotdot = true)
    (follows : Follows cfg s.mnt s.seqv w (s.walker w)) (begun : (s.walker w).pc ≠ .wInit)
    (bare : ∀ d, (s.walker w).pc = .wMounts → (s.walker w).nxt = some d → s.mounted d = false →
      Tree.lookupMnt first.mnt (s.walker w).path.mnt d = none)
    (step : RcuWalk cfg s w after) (going : GoesOn (after.walker w)) : Recalls cfg first.mnt after w (after.walker w) := by
  have reads := step.reads inv.shared.flags begun going
    ⟨recalls.same, follows.even, bare, fun _ => recalls.keeps _ recalls.made, .inr fixes⟩
  obtain ⟨stays, mseq, -⟩ := step.stays begun going
  have mnt : after.mnt = s.mnt := (congrArg State.mnt stays).trans rfl
  have seqv : after.seqv = s.seqv := (congrArg State.seqv stays).trans rfl
  constructor
  case same =>
    rw [mseq, seqv, mnt]
    exact recalls.same
  case keeps =>
    rw [mnt]
    exact recalls.keeps
  case made => exact reads.made housed recalls.made
  case sim => exact recalls.sim.reads formed reads
  case refuses =>
    refine recalls.refuses.reads recalls.sim (fun x on => ?_) reads
    obtain ⟨sb, same⟩ | positive := shared.roots x on
    · rw [same]
      exact there sb
    · exact positive

omit [Fintype W] in
theorem RcuWalk.going (step : RcuWalk cfg s w after) : (s.walker w).pc ≠ .done := by
  cases step with
  | init here | compEnd here | compUp here | compMissing here | compChild here | slow here | slowAgain here | bare here | miss here
  | missAgain here | hop here | hopAgain here | negative here | step here | upAgain here | upEagain here | up here | complete here
  | completeAgain here =>
    rw [here]
    decide

omit [Fintype W] in
theorem Recalls.begins (inv : Inv cfg s) (formed : cfg.WellFormed) (here : (s.walker w).pc = .wInit) (step : RcuWalk cfg s w after) :
    ¬ after.Writing ∧ after.seqv = (after.walker w).mseq ∧ (after.walker w).pc ≠ .wInit ∧
      Recalls cfg after.mnt after w (after.walker w) := by
  obtain ⟨left, path⟩ := (inv.tracked w).start here
  obtain ⟨calm, rfl⟩ := step.begins here
  rw [State.set_walker, Function.update_self]
  refine ⟨calm, rfl, by simp, fun _ => .refl _, fun _ _ => rfl, .inl ?_, .comp rfl fun r walk => ?_, fun on => absurd on (by simp)⟩
  · dsimp only
    rw [path, formed.rooted]
  · dsimp only at walk
    rw [left, path] at walk
    exact walk

/-! ### Along a run -/

omit [Fintype W] in
theorem RcuWalk.others {v : W} (step : RcuWalk cfg s v after) (other : w ≠ v) : after.walker w = s.walker w := by
  cases step <;> exact Function.update_of_ne other _ _

omit [Fintype W] in
theorem RefWalk.others {v : W} (step : RefWalk cfg s v after) (other : w ≠ v) : after.walker w = s.walker w := by
  have goes (next : Pos M E) : (refTo s v next).walker w = s.walker w := by
    rw [refTo]
    split_ifs
    · exact Function.update_of_ne other _ _
    · refine (Function.update_of_ne other _ _).trans ?_
      rw [(walks_rebase s v next.mnt).2]
  cases step with
  | compEnd | missing => exact Function.update_of_ne other _ _
  | up | down => exact goes _

omit [Fintype W] in
theorem RefWalk.ref (step : RefWalk cfg s w after) (mode : (s.walker w).ref = true) : (after.walker w).ref = true := by
  have goes (next : Pos M E) : ((refTo s w next).walker w).ref = true := by
    rw [refTo]
    split_ifs
    · rw [State.set_walker, Function.update_self]
      exact mode
    · rw [State.set_walker, Function.update_self]
      exact mode
  cases step with
  | compEnd | missing =>
    rw [State.set_walker, Function.update_self]
    exact mode
  | up | down => exact goes _

theorem Housed.turn (housed : Housed cfg s) (shared : Shared cfg s) (step : Next cfg s after) :
    Housed cfg after ∧ Keeps cfg s.mnt after.mnt := by
  cases step with
  | rcu _ step => exact housed.walks step.walks.1
  | ref _ step => exact housed.walks step.walks.1
  | mounter step => exact housed.mounter shared step
  | changer step => exact housed.changer shared step
  | settled => exact ⟨housed, fun _ _ => rfl⟩

/-- For a walker a step is its own in RCU mode, somebody else's, or in REF mode. -/
theorem Next.turn (step : Next cfg s after) (inv : Inv cfg s) (w : W) :
    (s.walker w).ref = false ∧ RcuWalk cfg s w after ∨ after.walker w = s.walker w ∧ Tells s after ∨ (after.walker w).ref = true := by
  cases step with
  | @rcu v _ mode step =>
    by_cases own : w = v
    · exact .inl ⟨own ▸ mode, own ▸ step⟩
    · exact .inr (.inl ⟨step.others own, step.walks.1.tells⟩)
  | @ref v _ mode step =>
    by_cases own : w = v
    · exact .inr (.inr (own ▸ step.ref mode))
    · exact .inr (.inl ⟨step.others own, step.walks.1.tells⟩)
  | mounter step =>
    obtain ⟨tells, walker⟩ := inv.shared.mounter_tells step
    exact .inr (.inl ⟨congrFun walker w, tells⟩)
  | changer step =>
    obtain ⟨tells, walker⟩ := inv.shared.changer_tells step
    exact .inr (.inl ⟨congrFun walker w, tells⟩)
  | settled => exact .inr (.inl ⟨rfl, le_rfl, fun _ => .inl (.refl _)⟩)

/-- A walker passes a dentry without DCACHE_MOUNTED that had a mount on it, as seen from where
the walker is, when its count was valid. -/
def Misses (states : ℕ → State M E K W) (i : ℕ) : Prop :=
  ∃ w d k, ((states i).walker w).pc = .wMounts ∧ ((states i).walker w).nxt = some d ∧ (states i).mounted d = false ∧
    k ≤ i ∧ ((states k).walker w).pc ≠ .wInit ∧ (states k).seqv = ((states i).walker w).mseq ∧
      Tree.lookupMnt (states k).mnt ((states i).walker w).path.mnt d ≠ none

/-- A walker that is about to return -ENOENT for a negative dentry returns what the sequential
walk gave outside the sections at an instant since its path_init(), or gives now. -/
def RefusedOK (cfg : Config M E K S W) (states : ℕ → State M E K W) (i : ℕ) : Prop :=
  ∀ w d, ((states i).walker w).ref = false → ((states i).walker w).pc = .wStep → ((states i).walker w).nxt = some d →
    cfg.negative d = true → ∃ k ≤ i, ((states k).walker w).pc ≠ .wInit ∧ (¬ (states k).Writing ∨ k = i) ∧
      Resolve cfg (states k).mnt (cfg.root w) (cfg.prog w) (cfg.root w) (.err .enoent)

/-- Every walker in RCU mode recalls the tree it began on. -/
def Recalled (cfg : Config M E K S W) (states : ℕ → State M E K W) (i : ℕ) : Prop :=
  ∀ w, GoesOn ((states i).walker w) → ((states i).walker w).pc ≠ .wInit →
    ∃ k ≤ i, ¬ (states k).Writing ∧ (states k).seqv = ((states i).walker w).mseq ∧ ((states k).walker w).pc ≠ .wInit ∧
      Recalls cfg (states k).mnt (states i) w ((states i).walker w)

theorem recalled (formed : cfg.WellFormed) (there : ∀ sb, cfg.negative (cfg.sbRoot sb) = false)
    (fixes : cfg.fixRecheckMiss = true ∧ cfg.fixRecheckHop = true ∧ cfg.fixRecheckDotdot = true) {length : ℕ}
    {states : ℕ → State M E K W} (run : (spec cfg).Run length states) (sure : ∀ i < length, ¬ Misses states i) :
    ∀ i ≤ length, Recalled cfg states i := by
  have inv (i : ℕ) (inside : i ≤ length) : Inv cfg (states i) := invariant formed _ (run.reachable i inside)
  have housed : ∀ i ≤ length, Housed cfg (states i) := by
    intro i
    induction i with
    | zero => exact fun _ => Init.housed run.start
    | succ i ih => exact fun inside => ((ih (by omega)).turn (inv i (by omega)).shared (run.next i inside)).1
  intro i
  induction i with
  | zero =>
    intro _ w _ begun
    exact absurd (congrArg Walker.pc (run.start.walker w)) begun
  | succ i ih =>
    intro inside w going begun
    have before := inv i (by omega)
    have step := run.next i inside
    obtain ⟨mode, walk⟩ | ⟨still, tells⟩ | ref := step.turn before w
    · by_cases here : ((states i).walker w).pc = .wInit
      · obtain ⟨calm, seqv, begun, recalls⟩ := Recalls.begins before formed here walk
        exact ⟨i + 1, le_rfl, calm, seqv, begun, recalls⟩
      · have on : ((states i).walker w).pc ≠ .done := walk.going
        obtain ⟨k, le, calm, seqv, begun', recalls⟩ := ih (by omega) w ⟨mode, on⟩ here
        have follows := (before.tracked w).follows mode here on
        refine ⟨k, by omega, calm, ?_, begun', recalls.goesOn (housed k (by omega)) (inv k (by omega)).shared before formed there fixes
          follows here (fun d at_ next bare => ?_) walk going⟩
        · rw [(walk.stays here going).2.1]
          exact seqv
        · by_contra some
          exact sure i inside ⟨w, d, k, at_, next, bare, le, begun', seqv, some⟩
    · rw [still] at going begun ⊢
      obtain ⟨k, le, calm, seqv, begun', recalls⟩ := ih (by omega) w going begun
      refine ⟨k, by omega, calm, seqv, begun', recalls.outlives tells ?_ ((before.tracked w).follows going.1 begun going.2)⟩
      exact ((housed i (by omega)).turn before.shared step).2
    · cases going.1.symm.trans ref

/-- The -ENOENT of a negative dentry was true when the walk began, as long as no walker passes
a dentry that has lost its mount since. -/
theorem refused_was_true (formed : cfg.WellFormed) (there : ∀ sb, cfg.negative (cfg.sbRoot sb) = false)
    (fixes : cfg.fixRecheckMiss = true ∧ cfg.fixRecheckHop = true ∧ cfg.fixRecheckDotdot = true) {length : ℕ}
    {states : ℕ → State M E K W} (run : (spec cfg).Run length states) (sure : ∀ i < length, ¬ Misses states i) :
    ∀ i ≤ length, RefusedOK cfg states i := by
  intro i inside w d mode here next negative
  have begun : ((states i).walker w).pc ≠ .wInit := by
    rw [here]
    decide
  have going : GoesOn ((states i).walker w) := ⟨mode, by rw [here]; decide⟩
  obtain ⟨k, le, calm, -, begun', recalls⟩ := recalled formed there fixes run sure i inside w going begun
  exact ⟨k, le, begun', .inl calm, recalls.refuses (.inr here) d next negative⟩

/-! ### Two mounts go at once -/

/-- The place of the first mount, a directory there and a file in it, twice; on the mounted
filesystem the file is missing below the directory and there beside it. -/
def covering : Config (Fin 3) (Fin 8) (Fin 4) Bool Unit where
  dparent := ![0, 0, 1, 2, 4, 4, 4, 5]
  dname := ![0, 1, 2, 3, 0, 2, 3, 3]
  dsb d := decide (4 ≤ d)
  sbRoot sb := if sb then 4 else 0
  negative d := decide (d = 7)
  rootSb := false
  newSb := true
  rootMnt := 0
  prog _ := [.name 1, .name 2, .name 3]
  root _ := ⟨0, 0⟩
  isScoped _ := false
  mounts := 2
  change := .umount
  victim := 1
  fixRecheckMiss := true
  fixRecheckHop := true
  fixRecheckDotdot := true
  fixScopedEagain := true
  fixRcuFree := true

def covered : State (Fin 3) (Fin 8) (Fin 4) Unit where
  mnt x := if x = 0 then { fresh covering x with alive := true, ns := true, count := 1 } else fresh covering x
  mounted _ := false
  seqv := 0
  rcu _ := false
  wait := ∅
  walker w :=
    { pc := .wInit, ref := false, path := covering.root w, nxt := none, left := covering.prog w, mseq := 0, res := none,
      held := none }
  mpc := .mPick
  tgt := none
  budget := 2
  cpc := .cPick
  ctgt := none
  todo := ∅

theorem covered_init : (spec covering).init covered :=
  ⟨fun _ => rfl, fun _ => rfl, rfl, fun _ => rfl, rfl, fun _ => rfl, rfl, rfl, rfl, rfl, rfl, rfl⟩

/-- Nothing passed unflagged was mounted on, as nothing ever is on the first mount. -/
def Plain (s : State (Fin 3) (Fin 8) (Fin 4) Unit) : Prop :=
  ((s.walker ()).pc = .wMounts → ∀ d, (s.walker ()).nxt = some d → s.mounted d = false → (s.walker ()).path.mnt = 1) ∧
    ∀ d, Tree.lookupMnt s.mnt 1 d = none

instance (s : State (Fin 3) (Fin 8) (Fin 4) Unit) : Decidable (Plain s) := inferInstanceAs (Decidable (_ ∧ _))

/-- The first mount is gone when the walker is refused on it. -/
theorem covering_refuses : ∃ s, ((spec covering).whilst Plain).Reachable s ∧ (s.walker ()).ref = false ∧
    (s.walker ()).pc = .wStep ∧ (s.walker ()).nxt = some 7 ∧ Tree.lookupMnt s.mnt 0 1 = none ∧ Stale s () := by
  have run : ((spec covering).whilst Plain).Reachable covered := .init covered_init
  have run := run.next ⟨by decide, .mounter (.pick (p := 0) (d := 1) rfl (by decide) ⟨rfl, rfl, rfl, rfl⟩ (.here (by decide)))⟩
  have run := run.next ⟨by decide, .mounter (.lock rfl (by decide))⟩
  have run := run.next ⟨by decide, .mounter (.attach (x := 1) rfl rfl (by decide))⟩
  have run := run.next ⟨by decide, .mounter (.unlock rfl)⟩
  have run := run.next ⟨by decide, .rcu (w := ()) rfl (.init rfl (by decide))⟩
  have run := run.next ⟨by decide, .rcu (w := ()) rfl (.compChild (c := 1) rfl rfl (by decide))⟩
  have run := run.next ⟨by decide, .rcu (w := ()) rfl (.hop (q := 1) rfl rfl (by decide) (by decide) fun stale => stale.2 rfl)⟩
  have run := run.next ⟨by decide, .rcu (w := ()) rfl (.bare rfl rfl (by decide))⟩
  have run := run.next ⟨by decide, .rcu (w := ()) rfl (.step rfl rfl rfl)⟩
  have run := run.next ⟨by decide, .rcu (w := ()) rfl (.compChild (c := 5) rfl rfl (by decide))⟩
  have run := run.next ⟨by decide, .rcu (w := ()) rfl (.bare rfl rfl (by decide))⟩
  have run := run.next ⟨by decide, .rcu (w := ()) rfl (.step rfl rfl rfl)⟩
  have run := run.next ⟨by decide, .rcu (w := ()) rfl (.compChild (c := 7) rfl rfl (by decide))⟩
  have run := run.next ⟨by decide, .changer (.pickUmount rfl rfl ⟨rfl, rfl, rfl⟩)⟩
  have run := run.next ⟨by decide, .changer (.lock rfl (by decide))⟩
  have run := run.next ⟨by decide, .changer (.unhash rfl)⟩
  have run := run.next ⟨by decide, .rcu (w := ()) rfl (.bare rfl rfl (by decide))⟩
  exact ⟨_, run, rfl, rfl, rfl, by decide, by unfold Stale; decide⟩

theorem Plain.sure {length : ℕ} {states : ℕ → State (Fin 3) (Fin 8) (Fin 4) Unit} (plain : ∀ i < length, Plain (states i)) :
    ∀ i < length, ¬ Misses states i := by
  rintro i inside ⟨w, d, k, here, next, bare, le, -, -, some⟩
  have place : ((states i).walker w).path.mnt = 1 := (plain i inside).1 here d next bare
  rw [place] at some
  exact some ((plain k (by omega)).2 d)

theorem covering_was_refused : ∃ length states, (spec covering).Run length states ∧
    Tree.lookupMnt (states length).mnt 0 1 = none ∧ Stale (states length) () ∧ ((states length).walker ()).pc = .wStep ∧
    ∃ k ≤ length, ((states k).walker ()).pc ≠ .wInit ∧ (¬ (states k).Writing ∨ k = length) ∧
      Resolve covering (states k).mnt ⟨0, 0⟩ [.name 1, .name 2, .name 3] ⟨0, 0⟩ (.err .enoent) := by
  obtain ⟨s, reached, mode, here, next, gone, stale⟩ := covering_refuses
  obtain ⟨length, states, run, rfl⟩ := reached.run
  obtain ⟨run, plain⟩ := run.of_whilst
  exact ⟨length, states, run, gone, stale, here, refused_was_true ⟨fun _ => rfl, by decide⟩ (by decide) ⟨rfl, rfl, rfl⟩ run
    (Plain.sure plain) length le_rfl () 7 mode here next rfl⟩

/-- The sequential walk finds something. -/
def Answers (s : State (Fin 3) (Fin 8) (Fin 4) Unit) : Prop :=
  (s.walker ()).pc ≠ .wInit → ¬ Resolve covering s.mnt (covering.root ()) (covering.prog ()) (covering.root ()) (.err .enoent)

theorem answers_before {s : State (Fin 3) (Fin 8) (Fin 4) Unit} (init : (s.walker ()).pc = .wInit) : Answers s :=
  fun begun => absurd init begun

/-- Through both mounts. -/
theorem answers_across {s : State (Fin 3) (Fin 8) (Fin 4) Unit}
    (first : Tree.lookupMnt s.mnt 0 1 = some 1 ∧ (s.mnt 1).root = 4 ∧ Tree.lookupMnt s.mnt 1 4 = none)
    (second : Tree.lookupMnt s.mnt 1 5 = some 2 ∧ (s.mnt 2).root = 4 ∧ Tree.lookupMnt s.mnt 2 4 = none)
    (last : Tree.lookupMnt s.mnt 2 6 = none) : Answers s := by
  obtain ⟨first, root, top⟩ := first
  obtain ⟨second, root', top'⟩ := second
  intro _ refused
  have walk : Resolve covering s.mnt ⟨0, 0⟩ [.name 1, .name 2, .name 3] ⟨0, 0⟩ (.ok ⟨2, 6⟩) := by
    refine .down (c := 1) (by decide) rfl (.across first (by rw [root]; exact .here top)) ?_
    refine .down (c := 5) (by decide) rfl (.across second (by rw [root']; exact .here top')) ?_
    exact .down (c := 6) (by decide) rfl (.here last) .nil
  cases walk.unique refused

/-- On the root mount alone. -/
theorem answers_below {s : State (Fin 3) (Fin 8) (Fin 4) Unit}
    (none : Tree.lookupMnt s.mnt 0 1 = none ∧ Tree.lookupMnt s.mnt 0 2 = none ∧ Tree.lookupMnt s.mnt 0 3 = none) : Answers s := by
  obtain ⟨place, directory, file⟩ := none
  intro _ refused
  have walk : Resolve covering s.mnt ⟨0, 0⟩ [.name 1, .name 2, .name 3] ⟨0, 0⟩ (.ok ⟨0, 3⟩) := by
    refine .down (c := 1) (by decide) rfl (.here place) ?_
    refine .down (c := 2) (by decide) rfl (.here directory) ?_
    exact .down (c := 3) (by decide) rfl (.here file) .nil
  cases walk.unique refused

/-- Half of the walk on the tree with both mounts, half on the tree with none. -/
theorem covering_mixes : ∃ s, ((spec covering).whilst Answers).Reachable s ∧ Answers s ∧ (s.walker ()).ref = false ∧
    (s.walker ()).pc = .wStep ∧ (s.walker ()).nxt = some 7 := by
  have run : ((spec covering).whilst Answers).Reachable covered := .init covered_init
  have run := run.next ⟨answers_before rfl, .mounter (.pick (p := 0) (d := 1) rfl (by decide) ⟨rfl, rfl, rfl, rfl⟩ (.here (by decide)))⟩
  have run := run.next ⟨answers_before rfl, .mounter (.lock rfl (by decide))⟩
  have run := run.next ⟨answers_before rfl, .mounter (.attach (x := 1) rfl rfl (by decide))⟩
  have run := run.next ⟨answers_before rfl, .mounter (.unlock rfl)⟩
  have run := run.next ⟨answers_before rfl, .mounter (.pick (p := 1) (d := 5) rfl (by decide) ⟨rfl, rfl, rfl, rfl⟩ (.here (by decide)))⟩
  have run := run.next ⟨answers_before rfl, .mounter (.lock rfl (by decide))⟩
  have run := run.next ⟨answers_before rfl, .mounter (.attach (x := 2) rfl rfl (by decide))⟩
  have run := run.next ⟨answers_before rfl, .mounter (.unlock rfl)⟩
  have run := run.next ⟨answers_before rfl, .rcu (w := ()) rfl (.init rfl (by decide))⟩
  have run := run.next ⟨answers_across (by decide) (by decide) (by decide), .rcu (w := ()) rfl (.compChild (c := 1) rfl rfl (by decide))⟩
  have run := run.next ⟨answers_across (by decide) (by decide) (by decide), .rcu (w := ()) rfl
    (.hop (q := 1) rfl rfl (by decide) (by decide) fun stale => stale.2 rfl)⟩
  have run := run.next ⟨answers_across (by decide) (by decide) (by decide), .rcu (w := ()) rfl (.bare rfl rfl (by decide))⟩
  have run := run.next ⟨answers_across (by decide) (by decide) (by decide), .rcu (w := ()) rfl (.step rfl rfl rfl)⟩
  have run := run.next ⟨answers_across (by decide) (by decide) (by decide), .rcu (w := ()) rfl (.compChild (c := 5) rfl rfl (by decide))⟩
  have run := run.next ⟨answers_across (by decide) (by decide) (by decide), .changer (.pickUmount rfl rfl ⟨rfl, rfl, rfl⟩)⟩
  have run := run.next ⟨answers_across (by decide) (by decide) (by decide), .changer (.lock rfl (by decide))⟩
  have run := run.next ⟨answers_across (by decide) (by decide) (by decide), .changer (.unhash rfl)⟩
  -- The directory has lost its mount and its flag.
  have run := run.next ⟨answers_below (by decide), .rcu (w := ()) rfl (.bare rfl rfl (by decide))⟩
  have run := run.next ⟨answers_below (by decide), .rcu (w := ()) rfl (.step rfl rfl rfl)⟩
  have run := run.next ⟨answers_below (by decide), .rcu (w := ()) rfl (.compChild (c := 7) rfl rfl (by decide))⟩
  have run := run.next ⟨answers_below (by decide), .rcu (w := ()) rfl (.bare rfl rfl (by decide))⟩
  exact ⟨_, run, answers_below (by decide), rfl, rfl, rfl⟩

theorem covering_is_refused : covering.WellFormed ∧ (∀ sb, covering.negative (covering.sbRoot sb) = false) ∧ covering.mounts = 2 ∧
    ∃ length states, (spec covering).Run length states ∧ ¬ RefusedOK covering states length := by
  refine ⟨⟨fun _ => rfl, by decide⟩, by decide, rfl, ?_⟩
  obtain ⟨s, reached, last, mode, here, next⟩ := covering_mixes
  obtain ⟨length, states, run, rfl⟩ := reached.run
  obtain ⟨run, answers⟩ := run.of_whilst
  refine ⟨length, states, run, fun ok => ?_⟩
  obtain ⟨k, le, begun, -, refused⟩ := ok () 7 mode here next rfl
  obtain before | rfl := le.lt_or_eq
  · exact answers k before begun refused
  · exact last begun refused

end LinuxTla.MountWalk
