import Mathlib.Data.Fin.VecNotation
import LinuxTla.MountVacate.Sections

/-! An RCU walk answers as the sequential walk did when it began, except after a ".." that
takes the root of a filesystem for a dentry below it, as the loads disagree. -/

namespace LinuxTla.MountVacate

open MountWalk (Pos Result Tree Walker Up Climb DotDot Resolve SameTree UnderD Walks Reads Sees Sim Refuses)

variable {M E K S W : Type} {cfg : Config M E K S W} {s after : State M E K S W} {mt : Tree M E} {x : M} {d : E} {v w : W}
  {l m : Walker M E K} {t : MountWalk.State M E K W} {how : Up} {src : Pos M E} {sb : S} {r1 r3 r4 : E}

/-! ### ".." -/

/-- A walker is about to take ".." on the root of a filesystem, in the mount that was vacated
under it, and the loads of mnt_root may disagree. -/
def Risky (cfg : Config M E K S W) (s : State M E K S W) (w : W) : Prop :=
  ((s.walker w).ref = false ∧ (s.walker w).pc = .wDotdot ∧ cfg.isScoped w = false) ∧ Stale cfg s w (s.walker w).path.mnt ∧
    (s.mnt (s.walker w).path.mnt).root = cfg.nullRoot ∧
      ((s.walker w).path.d = cfg.newRoot ∨ (s.walker w).path.d = cfg.nullRoot) ∧
        cfg.dparent (s.walker w).path.d = (s.walker w).path.d

instance [LinearOrder M] [LinearOrder E] : Decidable (Risky cfg s w) :=
  inferInstanceAs (Decidable ((_ ∧ _ ∧ _) ∧ Stale _ _ _ _ ∧ _ ∧ (_ ∨ _) ∧ _))

theorem Leaves.dotDot {root pos : Pos M E} (leaves : Leaves mt root pos (mt pos.mnt).root how src) :
    DotDot cfg.toConfig mt root pos how (newpos cfg how src) := by
  cases leaves with
  | root here => exact .root here
  | top other edge none => exact .top other edge none
  | climb other edge found => exact .climb other edge found
  | plain other inside => exact .plain other inside

/-- The fixes of the mounts are in, those of vacate_mount() among them. -/
structure Config.Fixed (cfg : Config M E K S W) : Prop where
  miss : cfg.fixRecheckMiss = true
  hop : cfg.fixRecheckHop = true
  dotdot : cfg.fixRecheckDotdot = true
  eagain : cfg.fixScopedEagain = true
  connected : cfg.fixVacantConnected = true

/-- On the root it had before, the vacated mount passes path_connected() only under stale loads
and on the root of a filesystem. -/
theorem Loads.vacated (loads : Loads cfg s w how src sb r1 r3 r4) (formed : cfg.WellFormed) (shared : Shared cfg s)
    (this : s.victim = some src.mnt) (null : (s.mnt src.mnt).root = cfg.nullRoot) (edge : src.d = cfg.newRoot)
    (fix : cfg.fixVacantConnected = true) (connected : PathConnectedObs cfg sb r3 r4 (cfg.dparent src.d)) :
    cfg.weakVacate = true ∧ cfg.dparent src.d = src.d := by
  obtain ⟨same, way⟩ := connected
  have home : cfg.dsb (cfg.dparent src.d) = cfg.newSb := by rw [formed.parent, edge, formed.newRoot]
  have same : cfg.newSb = sb := home.symm.trans (not_not.mp fun other => same ⟨fix, other⟩)
  refine ⟨?_, not_not.mp fun linked => ?_⟩
  · cases weak : cfg.weakVacate with
    | true => rfl
    | false =>
      obtain now | ⟨⟨stale, -⟩, -⟩ := loads.sb
      · have stored := (shared.order weak).2 _ this null
        exact absurd (stored.symm.trans (now.symm.trans same.symm)) formed.null.2
      · cases weak.symm.trans stale.1
  · rw [← same] at way
    obtain top | under := way
    · obtain now | ⟨-, early⟩ := loads.third
      · have root : cfg.sbRoot cfg.newSb = cfg.sbRoot cfg.nullSb := top.symm.trans (now.trans null)
        have other := congrArg cfg.dsb root
        rw [formed.home, formed.home] at other
        exact formed.null.2 other.symm
      · rw [early] at top
        rw [edge, top] at linked
        exact linked (formed.top _)
    · obtain now | ⟨-, early⟩ := loads.fourth
      · have other := UnderD.dsb formed under
        rw [home, now, null, Config.nullRoot, formed.home] at other
        exact formed.null.2 other.symm
      · rw [early, edge] at under
        rw [edge] at linked
        exact UnderD.no_loop formed (formed.forest cfg.newRoot) linked under

theorem answers_update [DecidableEq W] {p : Prop} (answers : RcuResultOK s) (ok : p) (v : W) : Function.update s.rok w p v := by
  rw [Function.update_apply]
  split_ifs
  · exact ok
  · exact answers v

theorem Climb.alive {answer : Option (Pos M E)} {root : Pos M E} (sound : Sound cfg mt) (climb : Climb mt root x answer)
    (on : (mt x).alive = true) (found : answer = some src) : (mt src.mnt).alive = true := by
  induction climb with
  | top | root => cases found
  | found =>
    cases found
    exact sound.parent _ on
  | up _ _ _ _ ih => exact ih (sound.parent _ on) found

variable [Fintype M] [LinearOrder M] [LinearOrder E]

/-! ### The tree the walk began on -/

/-- The tree has only grown since, but for the root of the mount that is vacated. -/
structure Grown (cfg : Config M E K S W) (mt : Tree M E) (s : State M E K S W) : Prop where
  sound : Sound cfg mt
  alive : ∀ x, (mt x).alive = true → (s.mnt x).alive = true
  root : ∀ x, (mt x).alive = true → (s.mnt x).root = (mt x).root ∨
    s.victim = some x ∧ (mt x).root = cfg.newRoot ∧ (s.mnt x).root = cfg.nullRoot
  flags : ∀ p d, Tree.lookupMnt mt p d ≠ none → s.mounted d = true

theorem Grown.outlives (grown : Grown cfg mt s) (tells : Tells cfg s after) (formed : cfg.WellFormed) : Grown cfg mt after where
  sound := grown.sound
  alive x on := tells.alive x (grown.alive x on)
  root x on := by
    obtain same | ⟨this, before, null⟩ := grown.root x on
    · rw [← same]
      exact tells.root x (grown.alive x on)
    · refine .inr ⟨tells.victim x this, before, ?_⟩
      obtain same | ⟨-, before', -⟩ := tells.root x (grown.alive x on)
      · exact same.trans null
      · exact absurd (before'.symm.trans null) formed.nullRoot
  flags p d found := tells.mounted d (grown.flags p d found)

variable [Fintype E] [DecidableEq K]

/-- A walker and the tree at its path_init(): the walk is still a prefix of the sequential walk
of that tree. -/
structure Recalls (cfg : Config M E K S W) (mt : Tree M E) (s : State M E K S W) (w : W) (l : Walker M E K) : Prop where
  le : l.mseq ≤ s.seqv
  even : l.mseq % 2 = 0
  same : l.mseq = s.seqv → SameTree mt s.mnt
  grown : Grown cfg mt s
  alive : (mt l.path.mnt).alive = true
  sim : Sim cfg.toConfig mt w l
  refuses : Refuses cfg.toConfig mt w l
  seen : now cfg mt w ⊆ s.seen w

theorem Recalls.outlives (recalls : Recalls cfg mt s w l) (tells : Tells cfg s after) (formed : cfg.WellFormed)
    (seen : s.seen w ⊆ after.seen w) : Recalls cfg mt after w l where
  le := recalls.le.trans tells.le
  even := recalls.even
  same valid := by
    have still := tells.le
    have le := recalls.le
    have now : l.mseq = s.seqv := by omega
    obtain same | writing := tells.tree (valid.symm.trans now)
    · exact (recalls.same now).trans same
    · have even := recalls.even
      rw [MountWalk.State.Writing] at writing
      omega
  grown := recalls.grown.outlives tells formed
  alive := recalls.alive
  sim := recalls.sim
  refuses := recalls.refuses
  seen := recalls.seen.trans seen

theorem Reads.alive (reads : Reads cfg.toConfig mt w l m) (sound : Sound cfg mt) (on : (mt l.path.mnt).alive = true) :
    (mt m.path.mnt).alive = true := by
  cases reads with
  | compEnd | compUp | compMissing | compChild | pass | step => exact on
  | hop _ _ _ hop => exact (MountWalk.lookupMnt_some hop).1
  | up _ up =>
    cases up with
    | root | top | plain => exact on
    | climb _ _ found =>
      have there := Climb.alive sound found on rfl
      exact there

/-- The walker goes on as the sequential walk of its tree does. -/
theorem Recalls.reads (recalls : Recalls cfg mt s w l) (formed : cfg.WellFormed) (reads : Reads cfg.toConfig mt w l m)
    (mseq : m.mseq = l.mseq) : Recalls cfg mt s w m where
  le := mseq ▸ recalls.le
  even := mseq ▸ recalls.even
  same valid := recalls.same (mseq ▸ valid)
  grown := recalls.grown
  alive := Reads.alive reads recalls.grown.sound recalls.alive
  sim := recalls.sim.reads formed.walk reads
  refuses := recalls.refuses.reads recalls.sim recalls.grown.sound.root reads
  seen := recalls.seen

/-- A ".." that goes on is the one of the tree the walk began on. -/
theorem Loads.up (loads : Loads cfg s w how src sb r1 r3 r4) (formed : cfg.WellFormed) (fixed : cfg.Fixed) (shared : Shared cfg s)
    (recalls : Recalls cfg mt s w (s.walker w)) (mode : (s.walker w).ref = false) (here : (s.walker w).pc = .wDotdot)
    (trusts : ¬ Fails cfg s w how src sb r3 r4) (goes : ¬ Eagain cfg s w) (sure : ¬ Risky cfg s w) :
    DotDot cfg.toConfig mt (cfg.root w) (s.walker w).path how (newpos cfg how src) := by
  have leaves := loads.leaves
  by_cases valid : (s.walker w).mseq = s.seqv
  · have now : r1 = (s.mnt (s.walker w).path.mnt).root := loads.first.resolve_right fun early => early.1.1.2.2 valid
    rw [now] at leaves
    exact (recalls.same valid).symm.dotDot leaves.dotDot
  · have mismatch : Mismatch s w := fun same => valid same.symm
    cases leaves with
    | root | top => exact absurd (.inl ⟨mismatch, .inl rfl⟩) trusts
    | climb => exact absurd (.inl ⟨mismatch, .inr ⟨rfl, fixed.dotdot⟩⟩) trusts
    | plain other inside =>
      have connected := connected_of_trusts (by decide) trusts
      have loose : cfg.isScoped w = false := by
        cases scope : cfg.isScoped w with
        | false => rfl
        | true => exact absurd ⟨scope, fixed.eagain, mismatch⟩ goes
      refine .plain other fun edge => sure ⟨⟨mode, here, loose⟩, ?_⟩
      obtain same | ⟨this, before, null⟩ := recalls.grown.root _ recalls.alive
      · -- the first load is older than the mount's root
        obtain now | ⟨⟨stale, null⟩, -⟩ := loads.first
        · exact absurd (edge.trans (same.symm.trans now.symm)) inside
        · have there : (s.walker w).path.d = cfg.nullRoot := edge.trans (same.symm.trans null)
          refine ⟨stale, null, .inr there, ?_⟩
          rw [there]
          exact formed.top _
      · have there : (s.walker w).path.d = cfg.newRoot := edge.trans before
        obtain ⟨weak, top⟩ := loads.vacated formed shared this null there fixed.connected connected
        exact ⟨⟨weak, this, valid⟩, null, .inl there, top⟩

/-! ### Every run -/

structure Tracked (cfg : Config M E K S W) (s : State M E K S W) (w : W) (l : Walker M E K) : Prop where
  start : l.ref = false → l.pc = .wInit → l.left = cfg.prog w ∧ l.path = cfg.root w
  recalls : Walking l → ∃ mt, Recalls cfg mt s w l

structure Inv (cfg : Config M E K S W) (s : State M E K S W) : Prop where
  shared : Shared cfg s
  tracked : ∀ w, Tracked cfg s w (s.walker w)
  answers : RcuResultOK s

/-- A walker that leaves RCU mode or is done. -/
theorem Tracked.ended (ends : l.ref = true ∨ l.pc = .done) : Tracked cfg s w l where
  start mode here := by
    obtain ref | done := ends
    · cases mode.symm.trans ref
    · cases here.symm.trans done
  recalls walking := by
    obtain ref | done := ends
    · cases walking.1.symm.trans ref
    · exact absurd done walking.2.2

theorem Tracked.outlives (tracked : Tracked cfg s w (s.walker w)) (tells : Tells cfg s after) (formed : cfg.WellFormed) :
    Tracked cfg after w (s.walker w) where
  start := tracked.start
  recalls walking := by
    obtain ⟨mt, recalls⟩ := tracked.recalls walking
    exact ⟨mt, recalls.outlives tells formed (tells.seen w walking)⟩

theorem Init.inv (start : Init cfg s) (formed : cfg.WellFormed) : Inv cfg s where
  shared := by
    have walk := start.walk
    have fresh (x : M) : (s.mnt x).hashed = false ∧ (s.mnt x).parent = x ∧ (s.mnt x).root = cfg.sbRoot cfg.rootSb := by
      rw [walk.mnt]
      split_ifs <;> exact ⟨rfl, rfl, rfl⟩
    refine ⟨⟨?_, ?_⟩, ⟨fun x on => ?_, fun x _ => ?_, ?_⟩, fun x _ on => ?_, ?_, fun x _ linked => absurd (fresh x).2.1 linked,
      ?_, fun _ => start.victim, fun _ => ⟨?_, ?_⟩, ?_⟩
    · rw [MountWalk.State.Writing, walk.seqv, walk.mpc, start.vpc]
      decide
    · rw [walk.mpc]
      exact fun both => absurd both.1 (by decide)
    · rw [(fresh x).2.1]
      exact on
    · rw [(fresh x).2.2]
      exact formed.positive.2 _
    · rw [walk.mnt, if_pos rfl]
    · cases on.symm.trans (fresh x).1
    · rw [walk.mpc]
      exact fun on => absurd on (by decide)
    · rw [start.victim]
      exact fun _ this => by cases this
    · rw [start.vpc]
      decide
    · rw [start.victim]
      exact fun _ this => by cases this
    · rw [start.vpc]
      exact fun on => by cases on
  tracked w := by
    rw [start.walk.walker]
    exact ⟨fun _ _ => ⟨rfl, rfl⟩, fun walking => absurd rfl walking.2.1⟩
  answers := start.rok

variable [DecidableEq W]

theorem Inv.acts (inv : Inv cfg s) (formed : cfg.WellFormed) (acts : Acts s after) (others : ∀ v, v ≠ w → after.walker v = s.walker v)
    (own : Tracked cfg after w (after.walker w)) (answers : RcuResultOK after) : Inv cfg after where
  shared := acts.shared inv.shared
  tracked v := by
    by_cases here : v = w
    · rw [here]
      exact own
    · rw [others v here]
      exact (inv.tracked v).outlives acts.tells formed
  answers := answers

/-- path_init() -/
theorem Inv.begins (inv : Inv cfg s) (formed : cfg.WellFormed) (mode : (s.walker w).ref = false) (here : (s.walker w).pc = .wInit)
    (step : MountWalk.RcuWalk cfg.toConfig s.toState w t) :
    Inv cfg { s with toState := t, seen := Function.update s.seen w (now cfg s.mnt w) } := by
  obtain ⟨left, path⟩ := (inv.tracked w).start mode here
  refine inv.acts (w := w) formed ⟨step.walks.1, rfl, rfl, rfl, fun v walking => ?_⟩ (fun v other => step.others other) ?_ inv.answers
  · by_cases same : v = w
    · exact absurd (same ▸ here) walking.2.1
    · dsimp only
      rw [Function.update_of_ne same]
  · obtain ⟨calm, rfl⟩ := step.begins here
    have sound := inv.shared.sound
    dsimp only
    rw [MountWalk.State.set_walker, Function.update_self]
    refine ⟨fun _ there => (by cases there), fun _ => ⟨s.mnt, le_rfl, ?_, fun _ => .refl _, ⟨sound, fun _ => id, fun _ _ => .inl rfl,
      fun p d found => ?_⟩, ?_, .comp rfl fun r walk => ?_, fun on => absurd on (by simp), ?_⟩⟩
    · rw [MountWalk.State.Writing] at calm
      dsimp only
      omega
    · obtain ⟨q, found⟩ := Option.ne_none_iff_exists'.mp found
      exact (inv.shared.flags.found found).1
    · dsimp only
      rw [path, formed.rooted]
      exact sound.first
    · dsimp only at walk
      rw [left, path] at walk
      exact walk
    · dsimp only
      rw [Function.update_self]

/-- The steps that are as in `MountWalk`. -/
theorem Inv.goes (inv : Inv cfg s) (formed : cfg.WellFormed) (fixed : cfg.Fixed) (mode : (s.walker w).ref = false)
    (begun : (s.walker w).pc ≠ .wInit) (other : (s.walker w).pc ≠ .wDotdot) (step : MountWalk.RcuWalk cfg.toConfig s.toState w t)
    (going : (t.walker w).pc ≠ .done) : Inv cfg { s with toState := t } := by
  have acts : Acts s { s with toState := t } := ⟨step.walks.1, rfl, rfl, rfl, fun _ _ => subset_rfl⟩
  refine inv.acts (w := w) formed acts (fun v other => step.others other) ?_ inv.answers
  cases ref : (t.walker w).ref with
  | true => exact .ended (.inl ref)
  | false =>
    obtain ⟨-, mseq, pc⟩ := step.stays begun ⟨ref, going⟩
    obtain ⟨mt, recalls⟩ := (inv.tracked w).recalls ⟨mode, begun, step.going⟩
    have sees : Sees cfg.toConfig mt s.toState w (s.walker w) := by
      refine ⟨recalls.same, recalls.even, fun d _ _ bare => ?_, fun there => absurd there other,
        .inr ⟨fixed.miss, fixed.hop, fixed.dotdot⟩⟩
      by_contra found
      cases bare.symm.trans (recalls.grown.flags _ d found)
    have reads := step.reads inv.shared.flags begun ⟨ref, going⟩ sees
    exact ⟨fun _ there => absurd there pc, fun _ => ⟨mt, (recalls.reads formed reads mseq).outlives acts.tells formed subset_rfl⟩⟩

theorem Inv.up (inv : Inv cfg s) (formed : cfg.WellFormed) (fixed : cfg.Fixed) (mode : (s.walker w).ref = false)
    (here : (s.walker w).pc = .wDotdot) (loads : Loads cfg s w how src sb r1 r3 r4) (trusts : ¬ Fails cfg s w how src sb r3 r4)
    (goes : ¬ Eagain cfg s w) (sure : ¬ Risky cfg s w) :
    Inv cfg { s with
      toState := s.set w { s.walker w with
        pc := .wComp, path := newpos cfg how src, left := (s.walker w).left.tail }
      vesc := s.vesc ∨ Escaped cfg s how src } := by
  have acts : Acts s { s with
      toState := s.set w { s.walker w with
        pc := .wComp, path := newpos cfg how src, left := (s.walker w).left.tail }
      vesc := s.vesc ∨ Escaped cfg s how src } :=
    ⟨MountWalk.walks_set .., rfl, rfl, rfl, fun _ _ => subset_rfl⟩
  obtain ⟨mt, recalls⟩ := (inv.tracked w).recalls ⟨mode, by rw [here]; decide, by rw [here]; decide⟩
  have up := loads.up formed fixed inv.shared recalls mode here trusts goes sure
  refine inv.acts (w := w) formed acts (fun v other => Function.update_of_ne other _ _) ?_ inv.answers
  dsimp only
  rw [MountWalk.State.set_walker, Function.update_self]
  have next := (recalls.reads formed (.up here up) rfl).outlives acts.tells formed subset_rfl
  exact ⟨fun _ there => (by cases there), fun _ => ⟨mt, next⟩⟩

theorem Inv.rcuWalk (inv : Inv cfg s) (formed : cfg.WellFormed) (fixed : cfg.Fixed) (sure : ¬ Risky cfg s w)
    (mode : (s.walker w).ref = false) (step : RcuWalk cfg s w after) : Inv cfg after := by
  have seen (v : W) (_ : Walking (s.walker v)) : s.seen v ⊆ s.seen v := subset_rfl
  cases step with
  | init here step => exact inv.begins formed mode here step
  | goes begun other step going => exact inv.goes formed fixed mode begun other step going
  | @validated t r here step done res =>
    refine inv.acts (w := w) formed ⟨step.walks.1, rfl, rfl, rfl, seen⟩ (fun v other => step.others other) (.ended (.inr done))
      (answers_update inv.answers ?_)
    obtain ⟨mt, recalls⟩ := (inv.tracked w).recalls ⟨mode, by obtain here | here := here <;> rw [here] <;> decide, step.going⟩
    obtain ⟨valid, r', res', walk⟩ := step.ends (fun _ => recalls.sim) here done
    cases res.symm.trans res'
    exact (recalls.same valid).resolve walk
  | @refused t r here step done res =>
    refine inv.acts (w := w) formed ⟨step.walks.1, rfl, rfl, rfl, seen⟩ (fun v other => step.others other) (.ended (.inr done))
      (answers_update inv.answers (.inl ?_))
    obtain ⟨mt, recalls⟩ := (inv.tracked w).recalls ⟨mode, by rw [here]; decide, step.going⟩
    exact recalls.seen (step.refused recalls.refuses here done res)
  | upAgain =>
    refine inv.acts (w := w) formed ⟨MountWalk.walks_restart .., rfl, rfl, rfl, seen⟩ (fun v other => Function.update_of_ne other _ _)
      (.ended (.inl ?_)) inv.answers
    dsimp only
    rw [MountWalk.State.restart, MountWalk.State.set_walker, Function.update_self]
  | upEagain =>
    refine inv.acts (w := w) formed ⟨⟨.refl _, rfl, rfl, rfl, rfl, rfl, rfl, rfl⟩, rfl, rfl, rfl, seen⟩
      (fun v other => Function.update_of_ne other _ _) (.ended (.inr ?_)) inv.answers
    dsimp only
    rw [MountWalk.State.finish, MountWalk.State.set_walker, Function.update_self]
  | up here loads trusts goes => exact inv.up formed fixed mode here loads trusts goes sure

theorem Inv.refWalk (inv : Inv cfg s) (formed : cfg.WellFormed) (mode : (s.walker w).ref = true)
    (step : MountWalk.RefWalk cfg.toConfig s.toState w t) : Inv cfg { s with toState := t } :=
  inv.acts (w := w) formed ⟨step.walks.1, rfl, rfl, rfl, fun _ _ => subset_rfl⟩ (fun _ other => step.others other)
    (.ended (.inl (step.ref mode))) inv.answers

theorem invariant (formed : cfg.WellFormed) (fixed : cfg.Fixed) :
    ((spec cfg).whilst fun s => ∀ w, ¬ Risky cfg s w).Invariant (Inv cfg) := by
  refine .of_step (fun s start => Init.inv start formed) fun s after inv ⟨sure, step⟩ => ?_
  cases step with
  | rcu mode step => exact inv.rcuWalk formed fixed (sure _) mode step
  | ref mode step => exact inv.refWalk formed mode step
  | mounter step =>
    obtain ⟨tells, walker⟩ := inv.shared.mounter_tells step
    refine ⟨inv.shared.mounter formed step, fun w => walker ▸ (inv.tracked w).outlives tells formed, ?_⟩
    cases step <;> exact inv.answers
  | changer step =>
    obtain ⟨tells, walker⟩ := inv.shared.changer_tells step
    refine ⟨inv.shared.changer formed step, fun w => walker ▸ (inv.tracked w).outlives tells formed, ?_⟩
    cases step <;> exact inv.answers
  | settled => exact inv

/-- Under any order of loads and stores, as long as no walker takes ".." on the root of a
filesystem in the mount that was vacated under it. -/
theorem answers_while_safe (formed : cfg.WellFormed) (fixed : cfg.Fixed) :
    ((spec cfg).whilst fun s => ∀ w, ¬ Risky cfg s w).Invariant RcuResultOK :=
  fun s reached => (invariant formed fixed s reached).answers

/-- `pub` below the root of a filesystem, or that whole filesystem, is mounted on a directory of
the root filesystem. The file beside the directory is missing in what is mounted. -/
def layout (whole weak : Bool) : Config (Fin 3) (Fin 8) (Fin 5) (Fin 3) (Fin 3) where
  dparent := ![0, 0, 0, 3, 3, 4, if whole then 3 else 4, 7]
  dname := ![0, 1, 2, 0, 3, 4, 2, 0]
  dsb := ![0, 0, 0, 1, 1, 1, 1, 2]
  sbRoot := ![0, 3, 7]
  negative d := decide (d = 6)
  rootSb := 0
  newSb := 1
  rootMnt := 0
  prog := ![[.name 1, .up, .name 2], [.name 1, .name 4, .up, .name 2], [.name 1, .name 2]]
  root _ := ⟨0, 0⟩
  isScoped _ := false
  mounts := 1
  change := .none
  victim := 1
  fixRecheckMiss := true
  fixRecheckHop := true
  fixRecheckDotdot := true
  fixScopedEagain := true
  fixRcuFree := true
  newRoot := if whole then 3 else 4
  nullSb := 2
  fixVacantConnected := true
  fixDotdotMseq := false
  weakVacate := weak

theorem layout_formed (whole weak : Bool) : (layout whole weak).WellFormed where
  rooted _ := rfl
  top := by cases whole <;> cases weak <;> decide
  home := by cases whole <;> cases weak <;> decide
  parent := by cases whole <;> cases weak <;> decide
  forest d := by
    have depth : (layout whole weak).dparent ((layout whole weak).dparent d) = (layout whole weak).sbRoot ((layout whole weak).dsb d) := by
      revert d
      cases whole <;> cases weak <;> decide
    have top : UnderD (layout whole weak).toConfig ((layout whole weak).sbRoot ((layout whole weak).dsb d))
        ((layout whole weak).sbRoot ((layout whole weak).dsb d)) := .here
    rw [← depth] at top ⊢
    exact .of_parent (.of_parent top)
  null := by cases whole <;> cases weak <;> decide
  newRoot := by cases whole <;> rfl
  positive := by cases whole <;> cases weak <;> decide

theorem layout_fixed (whole weak : Bool) : (layout whole weak).Fixed := ⟨rfl, rfl, rfl, rfl, rfl⟩

def booted (whole weak : Bool) : State (Fin 3) (Fin 8) (Fin 5) (Fin 3) (Fin 3) where
  mnt x := if x = 0 then { MountWalk.fresh (layout whole weak).toConfig x with alive := true, ns := true, count := 1 }
    else MountWalk.fresh (layout whole weak).toConfig x
  mounted _ := false
  seqv := 0
  rcu _ := false
  wait := ∅
  walker w :=
    { pc := .wInit, ref := false, path := ⟨0, 0⟩, nxt := none, left := (layout whole weak).prog w, mseq := 0, res := none,
      held := none }
  mpc := .mPick
  tgt := none
  budget := 1
  cpc := .cPick
  ctgt := none
  todo := ∅
  sb _ := 0
  victim := none
  vpc := .cPick
  vesc := False
  rok _ := True
  seen _ := ∅

theorem booted_init (whole weak : Bool) : (spec (layout whole weak)).init (booted whole weak) :=
  ⟨⟨fun _ => rfl, fun _ => rfl, rfl, fun _ => rfl, rfl, fun _ => rfl, rfl, rfl, rfl, rfl, rfl, rfl⟩, fun _ => rfl, rfl, rfl, id,
    fun _ => trivial, fun _ => rfl⟩

section Torn

variable {whole : Bool} {s : State (Fin 3) (Fin 8) (Fin 5) (Fin 3) (Fin 3)} {w : Fin 3} {d : Fin 8}

/-- The first load of mnt_root is new, the others are old. -/
theorem torn_loads (path : (s.walker w).path = ⟨1, d⟩) (other : d ≠ 7) (stale : Stale (layout whole true) s w 1)
    (root : (s.mnt 1).root = 7) (sb : s.sb 1 = 2) :
    Loads (layout whole true) s w .plain ⟨1, d⟩ 1 7 (layout whole true).newRoot (layout whole true).newRoot := by
  have early : RootObs (layout whole true) s w 1 (layout whole true).newRoot := .inr ⟨⟨stale, root⟩, rfl⟩
  refine ⟨?_, ?_, .inr ⟨⟨stale, sb⟩, rfl⟩, early, early⟩
  · rw [path]
    exact .inl root.symm
  · rw [path]
    exact .plain (fun same => (by cases same)) other

theorem torn_trusts (home : (layout whole true).dsb ((layout whole true).dparent d) = 1)
    (way : UnderD (layout whole true).toConfig (layout whole true).newRoot ((layout whole true).dparent d)) :
    ¬ Fails (layout whole true) s w .plain ⟨1, d⟩ 1 (layout whole true).newRoot (layout whole true).newRoot := by
  rintro (⟨-, again | ⟨again, -⟩⟩ | ⟨-, lost⟩ | ⟨-, -, again⟩)
  · cases again
  · cases again
  · exact lost ⟨fun other => other.2 home, .inr way⟩
  · cases again

end Torn

/-- Out of the directory below the bound one, under loads that disagree, to the missing file. -/
theorem torn_in_bind : ∃ s, ((spec (layout false true)).whilst fun s => ∀ w, ¬ Risky (layout false true) s w).Reachable s ∧
    (s.mnt 1).root = 7 ∧ (s.walker 1).path = ⟨1, 4⟩ ∧ (s.walker 1).res = some (.err .enoent) := by
  have run : ((spec (layout false true)).whilst fun s => ∀ w, ¬ Risky (layout false true) s w).Reachable (booted false true) :=
    .init (booted_init false true)
  have run := run.next ⟨by decide, .mounter (.pick (p := 0) (d := 1) rfl (by decide)
    ⟨rfl, rfl, by decide, .up (by decide) (by decide) .here, rfl⟩ (.here (by decide)))⟩
  have run := run.next ⟨by decide, .mounter (.lock rfl (by decide))⟩
  have run := run.next ⟨by decide, .mounter (.attach (x := 1) rfl rfl (by decide))⟩
  have run := run.next ⟨by decide, .mounter (.unlock rfl)⟩
  have run := run.next ⟨by decide, .rcu (w := 1) rfl (.init rfl (.init rfl (by decide)))⟩
  have run := run.next ⟨by decide, .rcu (w := 1) rfl
    (.goes (by decide) (by decide) (.compChild (c := 1) rfl rfl (by decide)) (by decide))⟩
  have run := run.next ⟨by decide, .rcu (w := 1) rfl (.goes (by decide) (by decide)
    (.hop (q := 1) rfl rfl (by decide) (by decide) fun stale => stale.2 rfl) (by decide))⟩
  have run := run.next ⟨by decide, .rcu (w := 1) rfl (.goes (by decide) (by decide) (.bare rfl rfl (by decide)) (by decide))⟩
  have run := run.next ⟨by decide, .rcu (w := 1) rfl (.goes (by decide) (by decide) (.step rfl rfl rfl) (by decide))⟩
  have run := run.next ⟨by decide, .rcu (w := 1) rfl
    (.goes (by decide) (by decide) (.compChild (c := 5) rfl rfl (by decide)) (by decide))⟩
  have run := run.next ⟨by decide, .rcu (w := 1) rfl (.goes (by decide) (by decide) (.bare rfl rfl (by decide)) (by decide))⟩
  have run := run.next ⟨by decide, .rcu (w := 1) rfl (.goes (by decide) (by decide) (.step rfl rfl rfl) (by decide))⟩
  have run := run.next ⟨by decide, .rcu (w := 1) rfl (.goes (by decide) (by decide) (.compUp rfl rfl) (by decide))⟩
  have run := run.next ⟨by decide, .changer (.pick rfl ⟨⟨rfl, rfl, rfl⟩, by decide, by decide⟩)⟩
  have run := run.next ⟨by decide, .changer (.lock rfl (by decide) (.inl rfl))⟩
  have run := run.next ⟨by decide, .changer (.vacSb rfl rfl rfl)⟩
  have run := run.next ⟨by decide, .changer (.vacRoot rfl rfl)⟩
  have run := run.next ⟨by decide, .rcu (w := 1) rfl (.up rfl (torn_loads rfl (by decide) ⟨rfl, rfl, by decide⟩ rfl rfl)
    (torn_trusts rfl .here) fun eagain => absurd eagain.1 (by decide))⟩
  have run := run.next ⟨by decide, .rcu (w := 1) rfl
    (.goes (by decide) (by decide) (.compChild (c := 6) rfl rfl (by decide)) (by decide))⟩
  have run := run.next ⟨by decide, .rcu (w := 1) rfl (.goes (by decide) (by decide) (.bare rfl rfl (by decide)) (by decide))⟩
  have run := run.next ⟨by decide, .rcu (w := 1) rfl (.refused rfl (.negative rfl rfl rfl) rfl rfl)⟩
  exact ⟨_, run, rfl, rfl, rfl⟩

theorem bind_answers : ∃ s, ((spec (layout false true)).whilst fun s => ∀ w, ¬ Risky (layout false true) s w).Reachable s ∧
    (s.mnt 1).root = 7 ∧ (s.walker 1).path = ⟨1, 4⟩ ∧ (s.walker 1).res = some (.err .enoent) ∧ RcuResultOK s := by
  obtain ⟨s, reached, vacated, place, res⟩ := torn_in_bind
  exact ⟨s, reached, vacated, place, res, answers_while_safe (layout_formed false true) (layout_fixed false true) s reached⟩

/-- Through the mount, out again, and to the file beside it. -/
theorem whole_finds {mt : Tree (Fin 3) (Fin 8)} {e : Fin 8}
    (found : Tree.lookupMnt mt 0 1 = some 1 ∧ (mt 1).root = e ∧ Tree.lookupMnt mt 1 e = none)
    (place : (mt 1).parent = 0 ∧ (mt 1).mp = 1 ∧ (mt 0).root = 0) (bare : Tree.lookupMnt mt 0 2 = none) :
    .err .enoent ∉ now (layout true true) mt 0 := by
  intro refused
  obtain ⟨found, root, top⟩ := found
  obtain ⟨parent, mp, first⟩ := place
  have climb : Climb mt ⟨0, 0⟩ 1 (some ⟨0, 1⟩) := by
    have found : Climb mt ⟨0, 0⟩ 1 (some ⟨(mt 1).parent, (mt 1).mp⟩) := by
      refine .found ?_ ?_ ?_
      · rw [Tree.HasParent, parent]
        decide
      · rw [parent, mp]
        decide
      · rw [parent, mp, first]
        decide
    rwa [parent, mp] at found
  have walk : Resolve (layout true true).toConfig mt ⟨0, 0⟩ [.name 1, .up, .name 2] ⟨0, 0⟩ (.ok ⟨0, 2⟩) := by
    refine .down (c := 1) (by decide) rfl (.across found (by rw [root]; exact .here top)) ?_
    refine .up (.climb (fun same => (by cases same)) root.symm climb) ?_
    exact .down (c := 2) (by decide) rfl (.here bare) .nil
  cases walk.unique refused

/-- The walker stays on the root of the filesystem, which is not there any more. -/
theorem whole_is_torn : (layout true true).WellFormed ∧ (layout true true).Fixed ∧ (layout true true).fixDotdotMseq = false ∧
    (layout true true).mounts ≤ 2 ∧ ∃ s, (spec (layout true true)).Reachable s ∧ ¬ RcuResultOK s := by
  refine ⟨layout_formed true true, layout_fixed true true, rfl, by decide, ?_⟩
  have run : (spec (layout true true)).Reachable (booted true true) := .init (booted_init true true)
  have run := run.next (.mounter (.pick (p := 0) (d := 1) rfl (by decide) ⟨rfl, rfl, by decide, .up (by decide) (by decide) .here, rfl⟩
    (.here (by decide))))
  have run := run.next (.mounter (.lock rfl (by decide)))
  have run := run.next (.mounter (.attach (x := 1) rfl rfl (by decide)))
  have run := run.next (.mounter (.unlock rfl))
  have run := run.next (.rcu (w := 0) rfl (.init rfl (.init rfl (by decide))))
  have run := run.next (.rcu (w := 0) rfl (.goes (by decide) (by decide) (.compChild (c := 1) rfl rfl (by decide)) (by decide)))
  have run := run.next (.rcu (w := 0) rfl (.goes (by decide) (by decide)
    (.hop (q := 1) rfl rfl (by decide) (by decide) fun stale => stale.2 rfl) (by decide)))
  have run := run.next (.rcu (w := 0) rfl (.goes (by decide) (by decide) (.bare rfl rfl (by decide)) (by decide)))
  have run := run.next (.rcu (w := 0) rfl (.goes (by decide) (by decide) (.step rfl rfl rfl) (by decide)))
  have run := run.next (.rcu (w := 0) rfl (.goes (by decide) (by decide) (.compUp rfl rfl) (by decide)))
  have run := run.next (.changer (.pick rfl ⟨⟨rfl, rfl, rfl⟩, by decide, by decide⟩))
  have run := run.next (.changer (.lock rfl (by decide) (.inl rfl)))
  have run := run.next (.changer (.vacSb rfl rfl rfl))
  have run := run.next (.changer (.vacRoot rfl rfl))
  have run := run.next (.rcu (w := 0) rfl (.up rfl (torn_loads rfl (by decide) ⟨rfl, rfl, by decide⟩ rfl rfl) (torn_trusts rfl .here)
    fun eagain => absurd eagain.1 (by decide)))
  have run := run.next (.rcu (w := 0) rfl (.goes (by decide) (by decide) (.compChild (c := 6) rfl rfl (by decide)) (by decide)))
  have run := run.next (.rcu (w := 0) rfl (.goes (by decide) (by decide) (.bare rfl rfl (by decide)) (by decide)))
  have run := run.next (.rcu (w := 0) rfl (.refused rfl (.negative rfl rfl rfl) rfl rfl))
  refine ⟨_, run, fun ok => ?_⟩
  have ok := ok 0
  dsimp only at ok
  rw [Function.update_self] at ok
  obtain seen | now := ok
  · rw [Function.update_self] at seen
    exact whole_finds (e := 3) (by decide) (by decide) (by decide) seen
  · exact whole_finds (e := 7) (by decide) (by decide) (by decide) now

/-- No RCU walk climbs out of the mount that is vacated under it; and when loads and stores are
in order it answers as the sequential walk did at some instant. -/
theorem stays_inside (formed : cfg.WellFormed) (fixed : cfg.Fixed) :
    (spec cfg).Invariant fun s => NoVacantEscape s ∧ (cfg.weakVacate = false → RcuResultOK s) := by
  refine fun s reached => ⟨never_escapes formed fixed.connected s reached, fun ordered => ?_⟩
  refine (invariant formed fixed s (reached.whilst fun s w risky => ?_)).answers
  cases ordered.symm.trans risky.2.1.1

/-- The climb out of the bound directory is refused, and the missing file is missing. -/
theorem vacated_bind : ∃ s, (spec (layout false false)).Reachable s ∧ (s.mnt 1).root = 7 ∧ (s.walker 0).ref = true ∧
    (s.walker 2).res = some (.err .enoent) := by
  have run : (spec (layout false false)).Reachable (booted false false) := .init (booted_init false false)
  have run := run.next (.mounter (.pick (p := 0) (d := 1) rfl (by decide) ⟨rfl, rfl, by decide, .up (by decide) (by decide) .here, rfl⟩
    (.here (by decide))))
  have run := run.next (.mounter (.lock rfl (by decide)))
  have run := run.next (.mounter (.attach (x := 1) rfl rfl (by decide)))
  have run := run.next (.mounter (.unlock rfl))
  have run := run.next (.rcu (w := 0) rfl (.init rfl (.init rfl (by decide))))
  have run := run.next (.rcu (w := 0) rfl (.goes (by decide) (by decide) (.compChild (c := 1) rfl rfl (by decide)) (by decide)))
  have run := run.next (.rcu (w := 0) rfl (.goes (by decide) (by decide)
    (.hop (q := 1) rfl rfl (by decide) (by decide) fun stale => stale.2 rfl) (by decide)))
  have run := run.next (.rcu (w := 0) rfl (.goes (by decide) (by decide) (.bare rfl rfl (by decide)) (by decide)))
  have run := run.next (.rcu (w := 0) rfl (.goes (by decide) (by decide) (.step rfl rfl rfl) (by decide)))
  have run := run.next (.rcu (w := 0) rfl (.goes (by decide) (by decide) (.compUp rfl rfl) (by decide)))
  have run := run.next (.rcu (w := 2) rfl (.init rfl (.init rfl (by decide))))
  have run := run.next (.rcu (w := 2) rfl (.goes (by decide) (by decide) (.compChild (c := 1) rfl rfl (by decide)) (by decide)))
  have run := run.next (.rcu (w := 2) rfl (.goes (by decide) (by decide)
    (.hop (q := 1) rfl rfl (by decide) (by decide) fun stale => stale.2 rfl) (by decide)))
  have run := run.next (.rcu (w := 2) rfl (.goes (by decide) (by decide) (.bare rfl rfl (by decide)) (by decide)))
  have run := run.next (.rcu (w := 2) rfl (.goes (by decide) (by decide) (.step rfl rfl rfl) (by decide)))
  have run := run.next (.changer (.pick rfl ⟨⟨rfl, rfl, rfl⟩, by decide, by decide⟩))
  have run := run.next (.changer (.lock rfl (by decide) (.inl rfl)))
  have run := run.next (.changer (.vacSb rfl rfl rfl))
  have run := run.next (.changer (.vacRoot rfl rfl))
  -- mnt_root and mnt_sb are those of knullfs, the dentry is not
  have run := run.next (.rcu (w := 0) rfl (.upAgain rfl ⟨.inl rfl, .plain (by decide) (by decide), .inl rfl, .inl rfl, .inl rfl⟩
    (.inr (.inl ⟨by decide, fun connected => connected.1 ⟨rfl, by decide⟩⟩))))
  have run := run.next (.changer (.unlock rfl))
  have run := run.next (.rcu (w := 2) rfl (.goes (by decide) (by decide) (.compChild (c := 6) rfl rfl (by decide)) (by decide)))
  have run := run.next (.rcu (w := 2) rfl (.goes (by decide) (by decide) (.bare rfl rfl (by decide)) (by decide)))
  have run := run.next (.rcu (w := 2) rfl (.refused rfl (.negative rfl rfl rfl) rfl rfl))
  exact ⟨_, run, rfl, rfl, rfl⟩

theorem bind_stays_inside : ∃ s, (spec (layout false false)).Reachable s ∧ (s.mnt 1).root = 7 ∧ (s.walker 0).ref = true ∧
    (s.walker 2).res = some (.err .enoent) ∧ NoVacantEscape s ∧ RcuResultOK s := by
  obtain ⟨s, reached, vacated, refused, res⟩ := vacated_bind
  obtain ⟨inside, answers⟩ := stays_inside (layout_formed false false) (layout_fixed false false) s reached
  exact ⟨s, reached, vacated, refused, res, inside, answers rfl⟩

end LinuxTla.MountVacate
