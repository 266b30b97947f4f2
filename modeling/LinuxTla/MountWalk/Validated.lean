import LinuxTla.MountWalk.Writers

/-! A walk whose sequence count is still valid has walked the tree of this moment, so what it
returns is what a locked walk would return. -/

namespace LinuxTla.MountWalk

variable {M E K S W : Type} [Fintype M] [LinearOrder M] [Fintype E] [LinearOrder E] [DecidableEq K]
  {cfg : Config M E K S W} {s after : State M E K W} {mt mt' : Tree M E} {x y : M} {d : E}
  {v w : W} {l : Walker M E K} {left : List (Comp K)} {pos : Pos M E} {mounted : E → Bool}

/-- The sequential walk comes past here. -/
def Reaches (cfg : Config M E K S W) (mt : Tree M E) (w : W) (left : List (Comp K)) (pos : Pos M E) : Prop :=
  ∀ r, Resolve cfg mt (cfg.root w) left pos r → Resolve cfg mt (cfg.root w) (cfg.prog w) (cfg.root w) r

theorem Reaches.congr (reaches : Reaches cfg mt w left pos) (same : SameTree mt mt') : Reaches cfg mt' w left pos :=
  fun r walk => same.resolve (reaches r (same.symm.resolve walk))

/-- Where the sequential walk is when the walker is at its label. -/
inductive Sim (cfg : Config M E K S W) (mt : Tree M E) (w : W) (l : Walker M E K) : Prop
  | comp (here : l.pc = .wComp) (reaches : Reaches cfg mt w l.left l.path)
  | complete (here : l.pc = .wComplete) (empty : l.left = []) (reaches : Reaches cfg mt w l.left l.path)
  | up {rest} (here : l.pc = .wDotdot) (next : l.left = .up :: rest) (reaches : Reaches cfg mt w l.left l.path)
  | missing {n rest} (here : l.pc = .wSlow) (next : l.left = .name n :: rest) (missing : child cfg l.path.d n = none)
      (reaches : Reaches cfg mt w l.left l.path)
  | mounts {c rest d} (here : l.pc = .wMounts) (comp : l.left = c :: rest) (next : l.nxt = some d)
      (reaches : Solid cfg d → ∀ pos, Cross mt ⟨l.path.mnt, d⟩ pos → Reaches cfg mt w rest pos)
  | step {c rest d} (here : l.pc = .wStep) (comp : l.left = c :: rest) (next : l.nxt = some d)
      (reaches : Solid cfg d → Reaches cfg mt w rest ⟨l.path.mnt, d⟩)

theorem Sim.congr (sim : Sim cfg mt w l) (same : SameTree mt mt') : Sim cfg mt' w l := by
  cases sim with
  | comp here reaches => exact .comp here (reaches.congr same)
  | complete here empty reaches => exact .complete here empty (reaches.congr same)
  | up here next reaches => exact .up here next (reaches.congr same)
  | missing here next missing reaches => exact .missing here next missing (reaches.congr same)
  | mounts here comp next reaches =>
    exact .mounts here comp next fun there pos cross => (reaches there pos (same.symm.cross cross)).congr same
  | step here comp next reaches => exact .step here comp next fun there => (reaches there).congr same

/-- A walker in RCU mode: as long as its count is valid nothing has changed. -/
structure Follows (cfg : Config M E K S W) (mt : Tree M E) (seqv : ℕ) (w : W) (l : Walker M E K) : Prop where
  le : l.mseq ≤ seqv
  even : l.mseq % 2 = 0
  sim : l.mseq = seqv → Sim cfg mt w l

structure Tracked (cfg : Config M E K S W) (s : State M E K W) (w : W) (l : Walker M E K) : Prop where
  start : l.pc = .wInit → l.left = cfg.prog w ∧ l.path = cfg.root w
  follows : l.ref = false → l.pc ≠ .wInit → l.pc ≠ .done → Follows cfg s.mnt s.seqv w l

structure Inv (cfg : Config M E K S W) (s : State M E K W) : Prop where
  shared : Shared cfg s
  tracked : ∀ w, Tracked cfg s w (s.walker w)

/-- The tree changes in a section only. -/
structure Tells (s after : State M E K W) : Prop where
  le : s.seqv ≤ after.seqv
  tree : after.seqv = s.seqv → SameTree s.mnt after.mnt ∨ s.Writing

theorem Tells.tracked (tells : Tells s after) (tracked : Tracked cfg s w l) : Tracked cfg after w l where
  start := tracked.start
  follows mode begun going := by
    obtain ⟨le, even, sim⟩ := tracked.follows mode begun going
    refine ⟨le.trans tells.le, even, fun valid => ?_⟩
    have still := tells.le
    have now : l.mseq = s.seqv := by omega
    obtain same | writing := tells.tree (valid.symm.trans now)
    · exact (sim now).congr same
    · rw [State.Writing] at writing
      omega

omit [Fintype E] [DecidableEq K] in
theorem Walks.tells (walks : Walks s after) : Tells s after :=
  ⟨walks.seqv.ge, fun _ => .inl walks.mnt.sameTree⟩

/-! ### The writers -/

omit [Fintype E] [DecidableEq K] in
theorem Shared.mounter_tells (shared : Shared cfg s) (step : Mounter cfg s after) : Tells s after ∧ after.walker = s.walker := by
  cases step with
  | finish | pick => exact ⟨⟨le_rfl, fun _ => .inl (.refl _)⟩, rfl⟩
  | lock | unlock => exact ⟨⟨Nat.le_succ _, fun same => absurd same (Nat.succ_ne_self _)⟩, rfl⟩
  | attach here => exact ⟨⟨le_rfl, fun _ => .inr (shared.sections.mpr (.inl (by rw [here]; decide)))⟩, rfl⟩

omit [Fintype E] [DecidableEq K] in
/-- The put of an umounted mount is outside the section, and nobody finds that mount. -/
theorem Shared.puts_tree (shared : Shared cfg s) : SameTree s.mnt (puts s) := by
  refine .of_hashed (fun x => ?_) (fun x => (puts_mnt s x).2.2.1) (fun x => (puts_mnt s x).2.2.2.1) fun x => (puts_mnt s x).1
  by_cases inside : x ∈ s.todo
  · have off := (shared.todo x inside).2.1
    rw [(puts_mnt s x).2.1, off]
    exact ⟨fun on => (by cases on.2), fun on => (by cases on.2)⟩
  · rw [(puts_mnt s x).2.2.2.2 inside]

variable [Fintype W]

omit [Fintype E] [DecidableEq K] in
theorem Shared.changer_tells (shared : Shared cfg s) (step : Changer cfg s after) : Tells s after ∧ after.walker = s.walker := by
  have writing (inside : s.cpc.Inside) : s.Writing := shared.sections.mpr (.inr inside)
  cases step with
  | nothing | pickUmount | pickMove | gp => exact ⟨⟨le_rfl, fun _ => .inl (.refl _)⟩, rfl⟩
  | lock | unlock => exact ⟨⟨Nat.le_succ _, fun same => absurd same (Nat.succ_ne_self _)⟩, rfl⟩
  | unhash here | mvUnhash here | mvSet here | mvHash here =>
    exact ⟨⟨le_rfl, fun _ => .inr (writing (by rw [here]; decide))⟩, rfl⟩
  | put => exact ⟨⟨le_rfl, fun _ => .inl shared.puts_tree⟩, rfl⟩

/-! ### The walkers -/

variable [DecidableEq W]

omit [Fintype M] [Fintype E] [LinearOrder E] [DecidableEq K] [Fintype W] in
theorem walks_restart (cfg : Config M E K S W) (s : State M E K W) (w : W) : Walks s (s.restart cfg w) :=
  ⟨recount_addCount (s.rcuOut w) cfg.rootMnt 1, rfl, rfl, rfl, rfl, rfl, rfl, rfl⟩

omit [Fintype M] [LinearOrder M] [Fintype E] [LinearOrder E] [DecidableEq K] [Fintype W] in
theorem walks_set (s : State M E K W) (w : W) (l : Walker M E K) : Walks s (s.set w l) :=
  ⟨.refl _, rfl, rfl, rfl, rfl, rfl, rfl, rfl⟩

/-- What the step of a walker leaves alone, and where the walker is afterwards. -/
structure Acts (cfg : Config M E K S W) (s : State M E K W) (w : W) (l : Walker M E K) (after : State M E K W) : Prop where
  walker : after.walker = Function.update s.walker w l
  walks : Walks s after
  tracked : Tracked cfg after w l

omit [Fintype W] in
theorem Inv.acts (inv : Inv cfg s) (acts : Acts cfg s w l after) : Inv cfg after where
  shared := acts.walks.shared inv.shared
  tracked v := by
    rw [acts.walker]
    by_cases here : v = w
    · rw [here, Function.update_self]
      exact acts.tracked
    · rw [Function.update_of_ne here]
      exact acts.walks.tells.tracked (inv.tracked v)

omit [Fintype W] [DecidableEq W] in
/-- A walker that leaves RCU mode or is done. -/
theorem Tracked.ended (pc : l.pc ≠ .wInit) (ends : l.ref = true ∨ l.pc = .done) : Tracked cfg s w l where
  start here := absurd here pc
  follows mode _ going := by
    obtain ref | done := ends
    · cases mode.symm.trans ref
    · exact absurd done going

omit [Fintype W] [DecidableEq W] in
theorem Tracked.next {m : Walker M E K} (pc : m.pc ≠ .wInit) (follows : Follows cfg s.mnt s.seqv w l) (mseq : m.mseq = l.mseq)
    (sim : l.mseq = s.seqv → Sim cfg s.mnt w m) : Tracked cfg s w m where
  start here := absurd here pc
  follows _ _ _ := ⟨mseq ▸ follows.le, mseq ▸ follows.even, fun valid => sim (mseq ▸ valid)⟩

omit [Fintype E] [DecidableEq K] [Fintype W] [DecidableEq W] in
theorem Flags.found {p q : M} (flags : Flags cfg mt mounted) (found : Tree.lookupMnt mt p d = some q) : Flag cfg mounted d := by
  obtain ⟨on, hashed, _, mp, _⟩ := lookupMnt_some found
  rw [← mp]
  exact flags q on hashed (lookupMnt_linked found)

/-! ### What a walker reads -/

/-- One step of a walk that reads `mt`. -/
inductive Reads (cfg : Config M E K S W) (mt : Tree M E) (w : W) (l : Walker M E K) : Walker M E K → Prop
  | compEnd (here : l.pc = .wComp) (empty : l.left = []) : Reads cfg mt w l { l with pc := .wComplete }
  | compUp {rest} (here : l.pc = .wComp) (next : l.left = .up :: rest) : Reads cfg mt w l { l with pc := .wDotdot }
  | compMissing {n rest} (here : l.pc = .wComp) (next : l.left = .name n :: rest) (missing : child cfg l.path.d n = none) :
      Reads cfg mt w l { l with pc := .wSlow }
  | compChild {n rest c} (here : l.pc = .wComp) (next : l.left = .name n :: rest) (found : child cfg l.path.d n = some c) :
      Reads cfg mt w l { l with pc := .wMounts, nxt := some c }
  | pass {d : E} (here : l.pc = .wMounts) (next : l.nxt = some d) (none : Tree.lookupMnt mt l.path.mnt d = none) :
      Reads cfg mt w l { l with pc := .wStep }
  | hop {d : E} {q root} (here : l.pc = .wMounts) (next : l.nxt = some d) (solid : Solid cfg d)
      (hop : Tree.lookupMnt mt l.path.mnt d = some q) (top : root = (mt q).root) :
      Reads cfg mt w l { l with path := ⟨q, root⟩, nxt := some root }
  | step {d : E} (here : l.pc = .wStep) (next : l.nxt = some d) (positive : cfg.negative d = false) :
      Reads cfg mt w l { l with pc := .wComp, path := ⟨l.path.mnt, d⟩, left := l.left.tail }
  | up {how next} (here : l.pc = .wDotdot) (up : DotDot cfg mt (cfg.root w) l.path how next) :
      Reads cfg mt w l { l with pc := .wComp, path := next, left := l.left.tail }

omit [Fintype W] [DecidableEq W] in
/-- The sequential walk keeps up. -/
theorem Sim.reads {m : Walker M E K} (sim : Sim cfg mt w l) (formed : cfg.WellFormed) (reads : Reads cfg mt w l m) :
    Sim cfg mt w m := by
  cases sim with
  | comp here reaches =>
    cases reads with
    | compEnd _ empty => exact .complete rfl empty reaches
    | compUp _ next => exact .up rfl next reaches
    | compMissing _ next missing => exact .missing rfl next missing reaches
    | compChild _ next found =>
      refine .mounts rfl next rfl fun there pos cross r walk => reaches r ?_
      rw [next]
      exact .down found (there.child formed found) cross walk
    | pass there | hop there | step there | up there => cases here.symm.trans there
  | mounts here comp next reaches =>
    cases reads with
    | pass _ next' none =>
      cases next.symm.trans next'
      exact .step rfl comp next fun there => reaches there _ (.here none)
    | hop _ next' solid hop top =>
      cases next.symm.trans next'
      cases top
      exact .mounts here comp rfl fun _ pos cross => reaches solid pos (.across hop cross)
    | compEnd there | compUp there | compMissing there | compChild there | step there | up there => cases here.symm.trans there
  | step here comp next reaches =>
    cases reads with
    | step _ next' positive =>
      cases next.symm.trans next'
      refine .comp rfl ?_
      dsimp only
      rw [comp]
      exact reaches (.inr positive)
    | compEnd there | compUp there | compMissing there | compChild there | pass there | hop there | up there =>
      cases here.symm.trans there
  | up here next reaches =>
    cases reads with
    | up _ up =>
      refine .comp rfl fun r walk => reaches r ?_
      dsimp only at walk
      rw [next] at walk ⊢
      exact .up up walk
    | compEnd there | compUp there | compMissing there | compChild there | pass there | hop there | step there =>
      cases here.symm.trans there
  | complete here | missing here =>
    cases reads with
    | compEnd there | compUp there | compMissing there | compChild there | pass there | hop there | step there | up there =>
      cases here.symm.trans there

/-- The sequential walk fails on a negative dentry the walker is about to enter. -/
def Refuses (cfg : Config M E K S W) (mt : Tree M E) (w : W) (l : Walker M E K) : Prop :=
  l.pc = .wMounts ∨ l.pc = .wStep → ∀ d, l.nxt = some d → cfg.negative d = true →
    Resolve cfg mt (cfg.root w) (cfg.prog w) (cfg.root w) (.err .enoent)

omit [Fintype W] [DecidableEq W] in
/-- The root of what is mounted is there; a negative child ends the sequential walk. -/
theorem Refuses.reads {m : Walker M E K} (refuses : Refuses cfg mt w l) (sim : Sim cfg mt w l)
    (there : ∀ x, (mt x).alive = true → cfg.negative (mt x).root = false) (reads : Reads cfg mt w l m) : Refuses cfg mt w m := by
  intro enters d next negative
  cases reads with
  | compEnd | compUp | compMissing | step | up => exact absurd enters (by simp)
  | compChild here comp found =>
    cases next
    cases sim with
    | comp _ reaches =>
      refine reaches _ ?_
      rw [comp]
      exact .negative found negative
    | complete at_ | up at_ | missing at_ | mounts at_ | step at_ => cases here.symm.trans at_
  | pass here => exact refuses (.inl here) d next negative
  | hop _ _ _ hop top =>
    cases next
    rw [top, there _ (lookupMnt_some hop).1] at negative
    cases negative

/-- What the walker reads now is in `mt`: all of it while its count is valid, and later what
no recheck covers. -/
structure Sees (cfg : Config M E K S W) (mt : Tree M E) (s : State M E K W) (w : W) (l : Walker M E K) : Prop where
  valid : l.mseq = s.seqv → SameTree mt s.mnt
  even : l.mseq % 2 = 0
  bare : ∀ d, l.pc = .wMounts → l.nxt = some d → s.mounted d = false → Tree.lookupMnt mt l.path.mnt d = none
  root : l.pc = .wDotdot → (s.mnt l.path.mnt).root = (mt l.path.mnt).root
  sure : l.mseq = s.seqv ∨ cfg.fixRecheckMiss = true ∧ cfg.fixRecheckHop = true ∧ cfg.fixRecheckDotdot = true

omit [Fintype E] [DecidableEq K] [Fintype W] [DecidableEq W] in
theorem Sees.up {how : Up} {next : Pos M E} (sees : Sees cfg mt s w (s.walker w)) (here : (s.walker w).pc = .wDotdot)
    (up : DotDot cfg s.mnt (cfg.root w) (s.walker w).path how next) (trusts : ¬ Distrusts cfg s w how) :
    DotDot cfg mt (cfg.root w) (s.walker w).path how next := by
  cases up with
  | plain other inside => exact .plain other (by rw [← sees.root here]; exact inside)
  | root here =>
    have valid : (s.walker w).mseq = s.seqv := by
      by_contra stale
      exact trusts ⟨fun same => stale same.symm, .inl rfl⟩
    exact (sees.valid valid).symm.dotDot (.root here)
  | top other edge none =>
    have valid : (s.walker w).mseq = s.seqv := by
      by_contra stale
      exact trusts ⟨fun same => stale same.symm, .inl rfl⟩
    exact (sees.valid valid).symm.dotDot (.top other edge none)
  | climb other edge found =>
    have valid := sees.sure.elim id fun fixes => by
      by_contra stale
      exact trusts ⟨fun same => stale same.symm, .inr ⟨rfl, fixes.2.2⟩⟩
    exact (sees.valid valid).symm.dotDot (.climb other edge found)

/-- The walker goes on in RCU mode. -/
def GoesOn (l : Walker M E K) : Prop := l.ref = false ∧ l.pc ≠ .done

omit [Fintype M] [LinearOrder M] [Fintype E] [LinearOrder E] [DecidableEq K] [Fintype W] [DecidableEq W] in
theorem GoesOn.not_over {m : Walker M E K} (going : GoesOn l) (ended : m.ref = true ∨ m.pc = .done) (last : l = m) : False := by
  rw [last] at going
  obtain ref | done := ended
  · cases going.1.symm.trans ref
  · exact going.2 done

omit [Fintype W] in
/-- path_init() -/
theorem RcuWalk.begins (step : RcuWalk cfg s w after) (here : (s.walker w).pc = .wInit) : ¬ s.Writing ∧
    after = { s with rcu := Function.update s.rcu w true }.set w { s.walker w with pc := .wComp, mseq := s.seqv } := by
  cases step with
  | init _ calm => exact ⟨calm, rfl⟩
  | compEnd there | compUp there | compMissing there | compChild there | slow there | slowAgain there | bare there | miss there
  | missAgain there | hop there | hopAgain there | negative there | step there | upAgain there | upEagain there | up there
  | complete there | completeAgain there => cases here.symm.trans there

omit [Fintype W] in
theorem RcuWalk.stays (step : RcuWalk cfg s w after) (begun : (s.walker w).pc ≠ .wInit) (going : GoesOn (after.walker w)) :
    after = s.set w (after.walker w) ∧ (after.walker w).mseq = (s.walker w).mseq ∧ (after.walker w).pc ≠ .wInit := by
  have goes {m : Walker M E K} (mseq : m.mseq = (s.walker w).mseq) (pc : m.pc ≠ .wInit) :
      s.set w m = s.set w ((s.set w m).walker w) ∧ ((s.set w m).walker w).mseq = (s.walker w).mseq ∧
        ((s.set w m).walker w).pc ≠ .wInit := by
    rw [State.set_walker, Function.update_self]
    exact ⟨rfl, mseq, pc⟩
  cases step with
  | init here => exact absurd here begun
  | hop => exact goes rfl begun
  | compEnd | compUp | compMissing | compChild | bare | miss | step | up => exact goes rfl (by simp)
  | slow | negative | upEagain | complete => exact (going.not_over (.inr rfl) (Function.update_self ..)).elim
  | slowAgain | missAgain | hopAgain | upAgain | completeAgain => exact (going.not_over (.inl rfl) (Function.update_self ..)).elim

omit [Fintype W] in
theorem RcuWalk.reads (step : RcuWalk cfg s w after) (flags : Flags cfg s.mnt s.mounted) (begun : (s.walker w).pc ≠ .wInit)
    (going : GoesOn (after.walker w)) (sees : Sees cfg mt s w (s.walker w)) :
    Reads cfg mt w (s.walker w) (after.walker w) := by
  have goes {m : Walker M E K} (reads : Reads cfg mt w (s.walker w) m) : Reads cfg mt w (s.walker w) ((s.set w m).walker w) := by
    rw [State.set_walker, Function.update_self]
    exact reads
  -- a recheck that passes found the count valid
  have valid {fix : Bool} (on : cfg.fixRecheckMiss = true ∧ cfg.fixRecheckHop = true ∧ cfg.fixRecheckDotdot = true → fix = true)
      (trusts : ¬ (fix = true ∧ Stale s w)) : (s.walker w).mseq = s.seqv :=
    sees.sure.elim id fun fixes => not_not.mp fun stale => trusts ⟨on fixes, fun same => stale same.symm⟩
  cases step with
  | init here => exact absurd here begun
  | compEnd here empty => exact goes (.compEnd here empty)
  | compUp here next => exact goes (.compUp here next)
  | compMissing here next missing => exact goes (.compMissing here next missing)
  | compChild here next found => exact goes (.compChild here next found)
  | slow | negative | upEagain | complete => exact (going.not_over (.inr rfl) (Function.update_self ..)).elim
  | slowAgain | missAgain | hopAgain | upAgain | completeAgain => exact (going.not_over (.inl rfl) (Function.update_self ..)).elim
  | bare here next bare => exact goes (.pass here next (sees.bare _ here next bare))
  | miss here next _ miss trusts =>
    have valid := valid And.left trusts
    -- a valid count is even, so the hash was not being rewritten
    have none := miss.resolve_right fun writing => by
      have even := sees.even
      rw [State.Writing] at writing
      omega
    rw [(sees.valid valid).lookup] at none
    exact goes (.pass here next none)
  | @hop d q here next _ hop trusts =>
    have whole := sees.valid (valid (fun fixes => fixes.2.1) trusts)
    have solid := (flags.found hop).2
    rw [whole.lookup] at hop
    exact goes (.hop here next solid hop (whole.root q))
  | step here next positive => exact goes (.step here next positive)
  | up here up trusts => exact goes (.up here (sees.up here up trusts))

variable [DecidableEq S]

omit [DecidableEq S] [Fintype W] in
/-- While the count is valid the walker reads the tree of this moment. -/
theorem Inv.goesOn (inv : Inv cfg s) (formed : cfg.WellFormed) (mode : (s.walker w).ref = false) (begun : (s.walker w).pc ≠ .wInit)
    (still : (s.walker w).pc ≠ .done) (step : RcuWalk cfg s w after) (going : GoesOn (after.walker w)) : Inv cfg after := by
  have follows := (inv.tracked w).follows mode begun still
  obtain ⟨stays, mseq, pc⟩ := step.stays begun going
  rw [stays]
  refine inv.acts (w := w) ⟨rfl, walks_set .., .next pc follows mseq fun valid => ?_⟩
  have sees : Sees cfg s.mnt s w (s.walker w) := by
    refine ⟨fun _ => .refl _, follows.even, fun d _ _ bare => ?_, fun _ => rfl, .inl valid⟩
    cases found : Tree.lookupMnt s.mnt (s.walker w).path.mnt d with
    | none => rfl
    | some q => cases bare.symm.trans (inv.shared.flags.found found).1
  exact (follows.sim valid).reads formed (step.reads inv.shared.flags begun going sees)

omit [DecidableEq S] [Fintype W] in
theorem Inv.rcuWalk (inv : Inv cfg s) (formed : cfg.WellFormed) (mode : (s.walker w).ref = false) (step : RcuWalk cfg s w after) : Inv cfg after := by
  have walk := step
  have goes {m : Walker M E K} (begun : (s.walker w).pc ≠ .wInit ∧ (s.walker w).pc ≠ .done) (ref : m.ref = false) (pc : m.pc ≠ .done)
      (walk : RcuWalk cfg s w (s.set w m)) : Inv cfg (s.set w m) := by
    refine inv.goesOn formed mode begun.1 begun.2 walk ?_
    rw [State.set_walker, Function.update_self]
    exact ⟨ref, pc⟩
  cases step with
  | init here calm =>
    obtain ⟨left, path⟩ := (inv.tracked w).start here
    refine inv.acts (w := w) ⟨rfl, ⟨.refl _, rfl, rfl, rfl, rfl, rfl, rfl, rfl⟩, fun on => (by cases on), fun _ _ _ =>
      ⟨le_rfl, ?_, fun _ => .comp rfl fun r walk => ?_⟩⟩
    · rw [State.Writing] at calm
      dsimp only
      omega
    · dsimp only at walk
      rw [left, path] at walk
      exact walk
  | compEnd here | compUp here | compMissing here | compChild here | bare here | miss here | step here | up here =>
    exact goes (by rw [here]; decide) mode (by simp) walk
  | hop here => exact goes (by rw [here]; decide) mode (by simp [here]) walk
  | slow | negative | upEagain =>
    exact inv.acts (w := w) ⟨rfl, ⟨.refl _, rfl, rfl, rfl, rfl, rfl, rfl, rfl⟩, .ended (by simp) (.inr rfl)⟩
  | slowAgain | missAgain | hopAgain | upAgain | completeAgain =>
    exact inv.acts (w := w) ⟨rfl, walks_restart .., .ended (by simp) (.inl rfl)⟩
  | complete =>
    exact inv.acts (w := w) ⟨rfl, ⟨recount_addCount (s.rcuOut w) _ 1, rfl, rfl, rfl, rfl, rfl, rfl, rfl⟩, .ended (by simp) (.inr rfl)⟩

omit [Fintype M] [LinearOrder M] [Fintype E] [LinearOrder E] [DecidableEq K] [Fintype W] [DecidableEq W] in
theorem Walks.trans {last : State M E K W} (first : Walks s after) (second : Walks after last) : Walks s last :=
  ⟨first.mnt.trans second.mnt, second.mounted.trans first.mounted, second.seqv.trans first.seqv, second.mpc.trans first.mpc,
    second.tgt.trans first.tgt, second.cpc.trans first.cpc, second.ctgt.trans first.ctgt, second.todo.trans first.todo⟩

omit [Fintype M] [Fintype E] [LinearOrder E] [DecidableEq K] [Fintype W] [DecidableEq W] in
theorem walks_addCount (s : State M E K W) (x : M) (n : ℤ) : Walks s (s.addCount x n) :=
  ⟨recount_addCount s x n, rfl, rfl, rfl, rfl, rfl, rfl, rfl⟩

omit [Fintype M] [Fintype E] [LinearOrder E] [DecidableEq K] [Fintype W] [DecidableEq W] in
theorem walks_rebase (s : State M E K W) (w : W) (x : M) : Walks s (s.rebase w x) ∧ (s.rebase w x).walker = s.walker := by
  rw [State.rebase]
  cases (s.walker w).held with
  | none => exact ⟨walks_addCount .., rfl⟩
  | some h => exact ⟨(walks_addCount s h (-1)).trans (walks_addCount ..), rfl⟩

omit [DecidableEq S] [Fintype W] in
theorem Inv.refWalk (inv : Inv cfg s) (mode : (s.walker w).ref = true) (step : RefWalk cfg s w after) : Inv cfg after := by
  have goes (next : Pos M E) (here : (s.walker w).pc = .rComp) : Inv cfg (refTo s w next) := by
    have begun : (s.walker w).pc ≠ .wInit := by
      rw [here]
      decide
    rw [refTo]
    split_ifs with stays
    · exact inv.acts (w := w) ⟨rfl, walks_set .., .ended begun (.inl mode)⟩
    · obtain ⟨walks, walker⟩ := walks_rebase s w next.mnt
      refine inv.acts (w := w)
        (l := { s.walker w with path := next, left := (s.walker w).left.tail, held := some next.mnt })
        ⟨?_, walks.trans (walks_set ..), .ended begun (.inl mode)⟩
      change Function.update (s.rebase w next.mnt).walker w _ = _
      rw [walker]
  cases step with
  | compEnd | missing => exact inv.acts (w := w) ⟨rfl, walks_set .., .ended (by simp) (.inl mode)⟩
  | up here | down here => exact goes _ here

/-! ### Every reachable state -/

omit [Fintype W] [DecidableEq W] [DecidableEq S] in
theorem Init.inv (start : Init cfg s) : Inv cfg s where
  shared := by
    have unhashed (x : M) : (s.mnt x).hashed = false ∧ ¬ Tree.HasParent s.mnt x ∧
        (s.mnt x).root = cfg.sbRoot cfg.rootSb := by
      rw [Tree.HasParent, start.mnt]
      split_ifs <;> exact ⟨rfl, not_not_intro rfl, rfl⟩
    refine ⟨?_, ?_, fun x _ on => ?_, fun x _ => ?_, ?_, ?_, fun _ => start.ctgt, ?_, ?_, .inl start.todo, ?_,
      ⟨(unhashed _).1, (unhashed _).2.1⟩, ?_⟩
    · rw [State.Writing, start.seqv, start.mpc, start.cpc]
      decide
    · rw [start.mpc]
      exact fun both => absurd both.1 (by decide)
    · cases on.symm.trans (unhashed x).1
    · rw [(unhashed x).2.2]
      exact .inl ⟨_, rfl⟩
    · rw [start.mpc]
      exact fun on => absurd on (by decide)
    · rw [start.cpc]
      exact fun on => absurd on (by decide)
    · rw [start.cpc]
      exact fun on => (by cases on)
    · rw [start.todo]
      exact fun y inside => absurd inside (Finset.notMem_empty y)
    · exact fun on => absurd start.cpc on
    · rw [start.mnt, if_pos rfl]
  tracked w := by
    rw [start.walker]
    exact ⟨fun _ => ⟨rfl, rfl⟩, fun _ begun => absurd rfl begun⟩

omit [DecidableEq S] in
theorem invariant (formed : cfg.WellFormed) : (spec cfg).Invariant (Inv cfg) := by
  refine .of_step (fun s start => Init.inv start) fun s after inv step => ?_
  cases step with
  | rcu mode step => exact inv.rcuWalk formed mode step
  | ref mode step => exact inv.refWalk mode step
  | mounter step =>
    obtain ⟨tells, walker⟩ := inv.shared.mounter_tells step
    exact ⟨inv.shared.mounter step, fun w => walker ▸ tells.tracked (inv.tracked w)⟩
  | changer step =>
    obtain ⟨tells, walker⟩ := inv.shared.changer_tells step
    exact ⟨inv.shared.changer step, fun w => walker ▸ tells.tracked (inv.tracked w)⟩
  | settled => exact inv

omit [Fintype W] [DecidableEq S] in
/-- A walker that ends after its last recheck, with its result. -/
theorem RcuWalk.ends (step : RcuWalk cfg s w after) (sim : (s.walker w).mseq = s.seqv → Sim cfg mt w (s.walker w))
    (last : (s.walker w).pc = .wSlow ∨ (s.walker w).pc = .wComplete) (done : (after.walker w).pc = .done) :
    (s.walker w).mseq = s.seqv ∧ ∃ r, (after.walker w).res = some r ∧ Resolve cfg mt (cfg.root w) (cfg.prog w) (cfg.root w) r := by
  have other {pc : Label} (here : (s.walker w).pc = pc) (not : ¬ (pc = .wSlow ∨ pc = .wComplete)) : False :=
    not (here ▸ last)
  cases step with
  | complete here valid =>
    have valid := (not_not.mp valid).symm
    refine ⟨valid, .ok (s.walker w).path, ?_, ?_⟩
    · rw [State.set_walker, Function.update_self]
    · cases sim valid with
      | complete _ empty reaches =>
        refine reaches _ ?_
        rw [empty]
        exact .nil
      | comp there | up there | missing there | mounts there | step there => cases here.symm.trans there
  | slow here valid =>
    have valid := (not_not.mp valid).symm
    refine ⟨valid, .err .enoent, ?_, ?_⟩
    · rw [State.finish, State.set_walker, Function.update_self]
    · cases sim valid with
      | missing _ next missing reaches =>
        refine reaches _ ?_
        rw [next]
        exact .missing missing
      | comp there | complete there | up there | mounts there | step there => cases here.symm.trans there
  | slowAgain | completeAgain =>
    rw [State.restart, State.set_walker, Function.update_self] at done
    cases done
  | init here | compEnd here | compUp here | compMissing here | compChild here | bare here | miss here | missAgain here
  | hop here | hopAgain here | negative here | step here | upAgain here | upEagain here | up here =>
    exact (other here (by decide)).elim

omit [Fintype W] [DecidableEq S] in
/-- A walker that ends on a negative dentry. -/
theorem RcuWalk.refused {r : Result M E} (step : RcuWalk cfg s w after) (refuses : Refuses cfg mt w (s.walker w))
    (here : (s.walker w).pc = .wStep) (done : (after.walker w).pc = .done) (res : (after.walker w).res = some r) :
    Resolve cfg mt (cfg.root w) (cfg.prog w) (cfg.root w) r := by
  cases step with
  | negative _ next negative =>
    rw [State.finish, State.set_walker, Function.update_self] at res
    cases res
    exact refuses (.inr here) _ next negative
  | step =>
    rw [State.set_walker, Function.update_self] at done
    cases done
  | init there | compEnd there | compUp there | compMissing there | compChild there | slow there | slowAgain there | bare there
  | miss there | missAgain there | hop there | hopAgain there | upAgain there | upEagain there | up there | complete there
  | completeAgain there => cases here.symm.trans there

omit [DecidableEq S] in
/-- A validated RCU walk is a locked walk. -/
theorem validated_is_locked (formed : cfg.WellFormed) :
    (spec cfg).Invariant fun s => ∀ w after, (s.walker w).ref = false → RcuWalk cfg s w after →
      (s.walker w).pc = .wComplete ∨ (s.walker w).pc = .wSlow → (after.walker w).pc = .done →
        ∃ r, (after.walker w).res = some r ∧ (∀ r', Resolve cfg s.mnt (cfg.root w) (cfg.prog w) (cfg.root w) r' ↔ r' = r) ∧
          (cfg.isScoped w = true → ∀ pos, r = .ok pos → Under cfg s.mnt (cfg.root w) pos) := by
  intro s reached w after mode step last done
  have inv := invariant formed s reached
  have sim (valid : (s.walker w).mseq = s.seqv) : Sim cfg s.mnt w (s.walker w) := by
    refine ((inv.tracked w).follows mode ?_ ?_).sim valid
    · obtain here | here := last <;> rw [here] <;> decide
    · obtain here | here := last <;> rw [here] <;> decide
  obtain ⟨-, r, res, walk⟩ := step.ends sim last.symm done
  refine ⟨r, res, fun r' => ⟨fun walk' => walk'.unique walk, fun same => same ▸ walk⟩, fun _ pos ok => ?_⟩
  refine walk.under ?_ (.here rfl .here) ok
  rw [formed.rooted]
  exact inv.shared.ground

/-- Into a directory with something mounted on it, and out again, while that is moved. -/
def visit : Config (Fin 3) (Fin 4) (Fin 4) Bool Unit where
  dparent d := if d = 1 then 0 else if d = 3 then 2 else d
  dname d := d
  dsb d := decide (2 ≤ d)
  sbRoot sb := if sb then 2 else 0
  negative _ := false
  rootSb := false
  newSb := true
  rootMnt := 0
  prog _ := [.name 1, .name 3, .up, .up]
  root _ := ⟨0, 0⟩
  isScoped _ := true
  mounts := 2
  change := .move
  victim := 1
  fixRecheckMiss := true
  fixRecheckHop := true
  fixRecheckDotdot := true
  fixScopedEagain := true
  fixRcuFree := true

def threshold : State (Fin 3) (Fin 4) (Fin 4) Unit where
  mnt x := if x = 0 then { fresh visit x with alive := true, ns := true, count := 1 } else fresh visit x
  mounted _ := false
  seqv := 0
  rcu _ := false
  wait := ∅
  walker w :=
    { pc := .wInit, ref := false, path := visit.root w, nxt := none, left := visit.prog w, mseq := 0, res := none,
      held := none }
  mpc := .mPick
  tgt := none
  budget := 2
  cpc := .cPick
  ctgt := none
  todo := ∅

/-- In through the mount, into its directory and out again. -/
theorem visit_completes : ∃ s, (spec visit).Reachable s ∧ (s.walker ()).ref = false ∧ (s.walker ()).pc = .wComplete ∧
    ¬ Stale s () ∧ (s.walker ()).path = ⟨0, 0⟩ ∧ Tree.lookupMnt s.mnt 0 1 = some 1 := by
  have run : (spec visit).Reachable threshold :=
    .init ⟨fun _ => rfl, fun _ => rfl, rfl, fun _ => rfl, rfl, fun _ => rfl, rfl, rfl, rfl, rfl, rfl, rfl⟩
  have run := run.next (.mounter (.pick (p := 0) (d := 1) rfl (by decide) ⟨rfl, rfl, rfl, rfl⟩ (.here (by decide))))
  have run := run.next (.mounter (.lock rfl (by decide)))
  have run := run.next (.mounter (.attach (x := 1) rfl rfl (by decide)))
  have run := run.next (.mounter (.unlock rfl))
  have run := run.next (.rcu (w := ()) rfl (.init rfl (by decide)))
  have run := run.next (.rcu (w := ()) rfl (.compChild (c := 1) rfl rfl (by decide)))
  have run := run.next (.rcu (w := ()) rfl (.hop (q := 1) rfl rfl (by decide) (by decide) fun stale => stale.2 rfl))
  have run := run.next (.rcu (w := ()) rfl (.bare rfl rfl (by decide)))
  have run := run.next (.rcu (w := ()) rfl (.step rfl rfl rfl))
  have run := run.next (.rcu (w := ()) rfl (.compChild (c := 3) rfl rfl (by decide)))
  have run := run.next (.rcu (w := ()) rfl (.bare rfl rfl (by decide)))
  have run := run.next (.rcu (w := ()) rfl (.step rfl rfl rfl))
  have run := run.next (.rcu (w := ()) rfl (.compUp rfl rfl))
  have run := run.next (.rcu (w := ()) rfl (.up rfl (DotDot.plain (by decide) (by decide)) (fun stale => stale.1 rfl)
    fun stale => stale.2.2 rfl))
  have run := run.next (.rcu (w := ()) rfl (.compUp rfl rfl))
  have run := run.next (.rcu (w := ()) rfl (.up rfl
    (DotDot.climb (by decide) (by decide) (.found (by decide) (by decide) (by decide))) (fun stale => stale.1 rfl)
    fun stale => stale.2.2 rfl))
  have run := run.next (.rcu (w := ()) rfl (.compEnd rfl rfl))
  exact ⟨_, run, rfl, rfl, fun stale => stale rfl, rfl, by decide⟩

theorem visit_is_locked : ∃ s after, (spec visit).Reachable s ∧ RcuWalk visit s () after ∧
    (s.walker ()).pc = .wComplete ∧ Tree.lookupMnt s.mnt 0 1 = some 1 ∧ (after.walker ()).res = some (.ok ⟨0, 0⟩) ∧
      (∀ r', Resolve visit s.mnt (visit.root ()) (visit.prog ()) (visit.root ()) r' ↔ r' = .ok ⟨0, 0⟩) ∧
      Under visit s.mnt (visit.root ()) ⟨0, 0⟩ := by
  obtain ⟨s, reached, mode, here, valid, place, found⟩ := visit_completes
  have step : RcuWalk visit s () _ := .complete here valid
  obtain ⟨r, same, locked, inside⟩ := validated_is_locked ⟨fun _ => rfl, by decide⟩ s reached () _ mode step (.inl here) rfl
  have result : Result.ok ⟨0, 0⟩ = r := by
    rw [← place]
    exact Option.some.inj same
  rw [← result] at locked inside
  exact ⟨s, _, reached, step, here, found, by rw [← place]; rfl, locked, inside rfl _ rfl⟩

end LinuxTla.MountWalk
