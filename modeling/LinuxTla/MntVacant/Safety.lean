import LinuxTla.MntVacant.Steps
import Mathlib.Tactic.IntervalCases

/-! A mount is freed once and under nobody's feet, what an unmounted tree covered stays covered,
and a stand-in without a reference is doomed when nobody can be left on it. -/

namespace LinuxTla.MntVacant

open Lib

/-! ### A loop device and its file -/

/-- A mount on another whose filesystem keeps a file open there: a loop device. -/
def loop : Config (Fin 2) (Fin 2) (Fin 1) where
  parent m := if m = 1 then some 0 else none
  sb := id
  pin b := if b = 1 then some 0 else none
  holderMnt _ := 0
  walkBudget := 1
  detachTargets := {1}
  holderOrder := .any
  marks := false
  uInline := false
  noref := true
  markStores := .weak

abbrev LoopState := State (Fin 2) (Fin 2) (Fin 1) (Fin 1)

theorem loop_ordered : ordered loop Finset.univ = [0, 1] := by
  have depths : (Finset.univ.image fun m : Fin 2 => toLex (depthTo loop (Fintype.card (Fin 2)) m, m)) =
      insert (toLex (0, 0)) {toLex (1, 1)} := by decide
  unfold ordered
  rw [depths, Finset.sort_insert, Finset.sort_singleton]
  · rfl
  · decide
  · decide

theorem loop_wf : loop.WellFormed where
  forest := ⟨fun m => m.val, fun x y parent => by
    simp only [loop] at parent
    split at parent
    · case isTrue top =>
      cases parent
      simp [top]
    · simp at parent⟩
  sb := Function.bijective_id
  targets m inside := by
    have here : m = 1 := by simpa [loop] using inside
    simp [loop, here]

abbrev loopItem (m : Fin 2) (kind : Kind) (step : TwStep) (owner : Task (Fin 1) (Fin 1)) : Item (Fin 2) (Fin 1) (Fin 1) :=
  ⟨m, kind, step, owner⟩

/-- The steps of a run: the mount below is vacated, and a walk has its mark and its increment in
the store buffer when the last reference of the one above goes. -/
def loopStep (s : LoopState) : ℕ → LoopState
  | 0 => { s with ugp := s.rcu, upc := .wait }
  | 1 => { s with upc := .put }
  | 2 => { s with uhead := [1] }.put loop 0 .u
  | 3 => { s with uhead := [] }.put loop 1 .u
  | 4 => { s with upc := .done }
  | 5 => { s.setWalker 0 { s.walker 0 with
      pc := .lookup, src := some 0, tgt := some 1, seq := s.seq, res := none, n := (s.walker 0).n + 1 } with
      rcu := insert 0 s.rcu }
  | 6 => s.goto 0 .legit1
  | 7 => s.setWalker 0 { s.walker 0 with pc := .drain, stHeld := s.vacant 1, stCnt := true }
  | 8 => ((s.unmark 1).release loop 1).advance ⟨1, .release, .sb, .u⟩
  | 9 => { s with
      hdone := Function.update s.hdone 0 true, ext := Function.update s.ext 0 (s.ext 0 - 1) }.put loop 0 (.holder 0)
  | 10 => { s with pins := s.pins.erase 0 }.put loop 0 .k
  | 11 => (s.setWalker 0 { s.walker 0 with
      pc := if (s.walker 0).stHeld then .drain else .legit2, stCnt := false }).addCount 1 1
  | 12 => { s.setWalker 0 { s.walker 0 with
      pc := if (s.walker 0).stCnt then .drain else .legit2, stHeld := false } with
      held := Function.update s.held 1 true }
  | 13 => s.goto 0 .lock
  | 14 => ({ s.goto 0 .ref with seq := s.seq + 1 }.addCount 1 (-1)).rcuOut 0
  | 15 => s.answer 0 .ebadf
  | 16 => ({ s with oldroot := Function.update s.oldroot 1 false }.free 1).advance ⟨1, .release, .handoff, .u⟩
  | 17 => ((s.unmark 0).release loop 0).advance ⟨0, .cleanup, .sb, .k⟩
  | 18 => (s.free 0).advance ⟨0, .cleanup, .free, .k⟩
  | 19 => { s with freed := Function.update s.freed 1 true }
  | _ => { s with freed := Function.update s.freed 0 true }

def loopRun : ℕ → LoopState
  | 0 => { init loop with uhead := [0, 1] }
  | n + 1 => loopStep (loopRun n) n

theorem loop_may {s : LoopState} (quiet : ∀ t, s.Quiet t) : s.UMayPut loop :=
  ⟨quiet .u, fun mode => absurd mode (by decide), fun mode => absurd mode (by decide)⟩

theorem loop_runs {s : LoopState} {it : Item (Fin 2) (Fin 1) (Fin 1)} :
    s.Runnable loop it := fun mode => absurd mode (by decide)

set_option maxRecDepth 4000 in
theorem loop_next {n : ℕ} (inside : n < 21) (quiet : ∀ t, (loopRun n).Quiet t) :
    (loopRun n).Next loop (loopStep (loopRun n) n) := by
  interval_cases n
  · exact .unlocker (.gp (by decide))
  · exact .unlocker (.wait (by decide) (by decide))
  · exact .unlocker (.put (by decide) (loop_may quiet) (show (loopRun 2).uhead = [0, 1] by decide))
  · exact .unlocker (.put (by decide) (loop_may quiet) (show (loopRun 3).uhead = [1] by decide))
  · exact .unlocker (.done (by decide) (loop_may quiet) (by decide))
  · exact .walk (.start (by decide) (by decide) (quiet _) (by decide) (by decide))
  · exact .walk (.lookupFound (p := 0) (t := 1) (by decide) (by decide) (by decide) (by decide) ⟨by decide, by decide⟩)
  · exact .walk (.legit1Stores (t := 1) (by decide) (by decide) (by decide) (by decide))
  · exact .taskWork (show (loopRun 8).TaskWork loop (loopItem 1 .release .sb .u) _ from
      .sb (by decide) rfl loop_runs (by decide))
  · exact .holder (.close (h := 0) (by decide) (quiet _) fun mode => absurd mode (by decide))
  · exact .pinPut (by decide) (quiet _)
  · exact .walk (.drainCnt (by decide) (by decide) (by decide) (by decide))
  · exact .walk (.drainHeld (by decide) (by decide) (by decide))
  · exact .walk (.legit2Lock (by decide) (by decide))
  · exact .walk (.lockDoomed (by decide) (by decide) (by decide))
  · exact .walk (.refClosed (p := 0) (by decide) (quiet _) (by decide) (by decide))
  · exact .taskWork (show (loopRun 16).TaskWork loop (loopItem 1 .release .handoff .u) _ from
      .handoffFree (by decide) rfl loop_runs (by decide))
  · exact .taskWork (show (loopRun 17).TaskWork loop (loopItem 0 .cleanup .sb .k) _ from
      .sb (by decide) rfl loop_runs (by decide))
  · exact .taskWork (show (loopRun 18).TaskWork loop (loopItem 0 .cleanup .free .k) _ from
      .free (by decide) rfl loop_runs)
  · exact .rcuFree (m := 1) (by decide) (by decide) (by decide)
  · exact .rcuFree (m := 0) (by decide) (by decide) (by decide)

theorem loop_reaches {n : ℕ} (inside : n ≤ 21) : (spec loop).Reachable (loopRun n) := by
  induction n with
  | zero =>
    refine .init ?_
    change { init loop with uhead := [0, 1] } = init loop
    rw [← loop_ordered]
    rfl
  | succ n ih =>
    have reached := ih (by omega)
    exact reached.next (loop_next (by omega) ((inv loop_wf _ reached).ledger.noref rfl))

variable {M S H W : Type} {cfg : Config M S H} {s after : State M S H W} {m : M} {w : W}

/-! ### A mount is freed once and last -/

theorem Stages.cleared (stages : Stages cfg s ∅) (called : s.rcufree m = true) : ∀ it ∈ s.tw, it.m ≠ m := by
  rintro it inside rfl
  obtain kind | kind : it.kind = .release ∨ it.kind = .cleanup := by cases it.kind <;> simp
  · have pending := (stages.release it inside kind).1
    simp [(stages.rcufree it.m called).2] at pending
  · have pending := (stages.cleanup it inside kind).2.2.1
    simp [called] at pending

variable [LinearOrder M] [Fintype S] [Fintype H] [Fintype W]

theorem Inv.unhashed (inv : Inv cfg s 0 none ∅) (doomed : s.doomed m = true) : s.hashed m = false :=
  Bool.eq_false_of_not_eq_true fun on => by
    have up := inv.tree.alive m on
    simp [doomed] at up

theorem Inv.unreferenced (inv : Inv cfg s 0 none ∅) (freed : s.freed m = true) : Unreferenced s m := by
  have called := inv.stages.freed m freed
  obtain ⟨doomed, -⟩ := inv.stages.rcufree m called
  have dead : ¬ s.Live m := fun live => by simp [live.2] at doomed
  have idle := inv.stages.cleared called
  have final := inv.ledger.final m (.inr doomed)
  have unowed := inv.ledger.unowed m doomed
  have left := inv.walkers.gone m freed
  unfold outer pinned at final
  exact
    { hashed := inv.unhashed doomed
      inst := by simp [inv.stages.inst m, place, doomed]
      stuck := inv.stages.unstuck idle
      ext := by omega
      mark := by
        by_contra marked
        obtain ⟨acct, marked⟩ := Option.ne_none_iff_exists'.mp marked
        obtain live | ⟨it, inside, here, -⟩ := (inv.releases.sbact m).mp (inv.releases.conn m acct marked).2
        · exact dead live
        · exact idle it inside here
      others := fun x => by
        refine ⟨fun parent => ?_, fun inside => ?_⟩
        · rw [inv.tree.parent x] at parent
          split at parent
          · case isTrue on => exact dead (inv.tree.below x m on parent)
          · simp at parent
        · have pending := (inv.stages.stuck m x inside).2.2.2.2.1
          simp [called] at pending
      uhead := List.count_eq_zero.mp (by omega)
      pins := fun inside => by
        rw [if_pos inside] at final
        omega
      vq := fun t => List.count_eq_zero.mp ((Finset.sum_eq_zero_iff.mp unowed) t (Finset.mem_univ t))
      tw := idle
      tgt := fun w pc tgt => by
        rcases pc with crossing | holds
        · have waits := (inv.walkers.each w).waits m called crossing tgt
          simp [left] at waits
        · have up := ((inv.walkers.each w).kept m holds tgt).1
          simp [doomed] at up
      src := fun w reads src => by
        have waits := (inv.walkers.each w).waitsSrc m called reads src
        simp [left] at waits }

theorem Inv.doomedIsLast (inv : Inv cfg s 0 none ∅) : DoomedIsLast s := by
  intro m doomed
  have exact := inv.ledger.exact m (.inr (.inl doomed))
  have final := inv.ledger.final m (.inr doomed)
  have unowed := inv.ledger.unowed m doomed
  have own : parentRef cfg s m = 0 := if_neg fun held => by simp [inv.unhashed doomed] at held
  have same : wrefs s m = (Finset.univ.filter fun w => Visible s w m ∧ Transient (s.walker w).pc).card := by
    unfold wrefs
    congr 1
    ext w
    simp only [Finset.mem_filter, Finset.mem_univ, true_and]
    refine ⟨fun seen => ⟨seen, ?_⟩, And.left⟩
    have away : ¬ Holding (s.walker w).pc := fun holds => by
      have up := ((inv.walkers.each w).kept m holds seen.1).1
      simp [doomed] at up
    obtain ⟨-, pc⟩ := seen
    unfold Holding at away
    unfold Transient
    tauto
  rw [exact, ← same]
  unfold refs
  simp [final, unowed, own]

/-- A vacated mount is freed exactly once and never under anybody's feet. -/
theorem freed_once [Fintype M] [DecidableEq S] [DecidableEq H] [DecidableEq W] (wf : cfg.WellFormed) :
    (spec cfg).Invariant fun s : State M S H W =>
    NoDangling s ∧ NoNegative s ∧ NoWarn s ∧ ExactlyOnce s ∧ DoomedIsLast s := by
  refine (inv wf).mono fun s inv => ⟨fun m => inv.unreferenced, inv.clean.negative, inv.clean.warn, fun m => ?_, inv.doomedIsLast⟩
  rw [inv.clean.frees m, inv.releases.releases m]
  constructor <;> split <;> omega

/-- Both mounts are freed, each once. -/
theorem loop_freed_once : Unreferenced (loopRun 21) 1 ∧ (loopRun 21).frees 1 = 1 ∧ (loopRun 21).releases 1 = 1 ∧
    (loopRun 12).doomed 1 = true ∧ (loopRun 12).count 1 = 1 ∧
    (loopRun 12).count 1 = (Finset.univ.filter fun w => Visible (loopRun 12) w 1 ∧ Transient ((loopRun 12).walker w).pc).card :=
  ⟨(freed_once loop_wf _ (loop_reaches (by decide))).1 1 (by decide), by decide, by decide, by decide, by decide,
    (freed_once loop_wf _ (loop_reaches (by decide))).2.2.2.2 1 (by decide)⟩

/-! ### What a mount covers stays covered -/

theorem Inv.hashedHasRef (inv : Inv cfg s 0 none ∅) : HashedHasRef cfg s := by
  intro m _ on
  have up := inv.tree.alive m on
  refine ⟨up, ?_⟩
  by_cases vacant : s.vacant m = true
  · by_cases mode : cfg.noref = true
    · exact .inr ⟨mode, vacant⟩
    · have own : parentRef cfg s m = 1 := if_pos ⟨by simpa using mode, vacant, on⟩
      have least := inv.ledger.least m
      unfold refs at least
      exact .inl (by omega)
  · exact .inl (inv.ledger.alive m up (fun vacant' => absurd vacant' vacant) (by simp))

/-- An unmounted tree never reveals what it covered, whatever the superblocks pin. -/
theorem covered_stays [Fintype M] [DecidableEq S] [DecidableEq H] [DecidableEq W] (wf : cfg.WellFormed) :
    (spec cfg).Invariant fun s : State M S H W => NoReveal s ∧ NoHang s ∧ HashedHasRef cfg s :=
  (inv wf).mono fun _ inv => ⟨fun w => (inv.walkers.each w).answers.1, fun w => (inv.walkers.each w).answers.2, inv.hashedHasRef⟩

/-- A stand-in without a reference is in the hash while a walk is on it. -/
theorem loop_covered : (loopRun 8).hashed 1 = true ∧ (loopRun 8).count 1 = 0 ∧ ((loopRun 8).walker 0).pc = .drain ∧
    NoReveal (loopRun 8) ∧ NoHang (loopRun 8) ∧ HashedHasRef loop (loopRun 8) :=
  ⟨by decide, by decide, by decide, covered_stays loop_wf _ (loop_reaches (by decide))⟩

/-! ### The verdict on a stand-in -/

/-- The walker has an increment on `m`, or one in its store buffer. -/
def Increments (s : State M S H W) (w : W) (m : M) : Prop :=
  (s.walker w).tgt = some m ∧ (Transient (s.walker w).pc ∨ Holding (s.walker w).pc)

/-- The walker finds mount_lock taken and comes to its lock_mount_hash() path. -/
def TakesBack (s : State M S H W) (w : W) (m : M) : Prop :=
  (s.walker w).tgt = some m ∧ Transient (s.walker w).pc ∧ s.seq ≠ (s.walker w).seq

/-- Every increment on a doomed stand-in is taken back under mount_lock. -/
def VerdictOK [Fintype M] [DecidableEq H] [DecidableEq W] (cfg : Config M S H) (s : State M S H W) : Prop :=
  ∀ m, s.vacant m = true → s.doomed m = true → ∀ w, Increments s w m → TakesBack s w m ∧
    ∀ after, s.Walk cfg w after → TakesBack after w m ∨
      (s.walker w).pc = .lock ∧ (after.walker w).pc = .ref ∧ after.count m = s.count m - 1

theorem Inv.takesBack (inv : Inv cfg s 0 none ∅) (doomed : s.doomed m = true) (increments : Increments s w m) :
    TakesBack s w m := by
  obtain ⟨tgt, transient | holds⟩ := increments
  · refine ⟨tgt, transient, fun same => ?_⟩
    have ok := inv.walkers.each w
    obtain drain | legit2 | lock := transient
    · have on := ok.found m (.inr (.inl drain)) same tgt
      simp [inv.unhashed doomed] at on
    · have on := ok.found m (.inr (.inr (.inl legit2))) same tgt
      simp [inv.unhashed doomed] at on
    · exact ok.lock lock same
  · have up := ((inv.walkers.each w).kept m holds tgt).1
    simp [doomed] at up

omit [Fintype S] [Fintype H] [Fintype W] in
theorem TakesBack.step [Fintype M] [DecidableEq H] [DecidableEq W] (takes : TakesBack s w m)
    (doomed : s.doomed m = true) (step : s.Walk cfg w after) :
    TakesBack after w m ∨ (s.walker w).pc = .lock ∧ (after.walker w).pc = .ref ∧ after.count m = s.count m - 1 := by
  obtain ⟨tgt, transient, other⟩ := takes
  have only : ∀ {t}, (s.walker w).tgt = some t → t = m := fun tgt' => Option.some.inj (tgt'.symm.trans tgt)
  cases step with
  | drainHeld here tgt' =>
    refine .inl ⟨by simpa [State.setWalker] using tgt, ?_, by simpa [State.setWalker] using other⟩
    cases left : (s.walker w).stCnt <;> simp [State.setWalker, Transient, left]
  | drainCnt here tgt' buffered =>
    refine .inl ⟨by simpa [State.addCount, State.setWalker] using tgt, ?_, by simpa [State.addCount, State.setWalker] using other⟩
    cases left : (s.walker w).stHeld <;> simp [State.addCount, State.setWalker, Transient, left]
  | legit2Use here same => exact absurd same other
  | legit2Lock here =>
    exact .inl ⟨by simpa [State.goto, State.setWalker] using tgt, by simp [State.goto, State.setWalker, Transient],
      by simpa [State.goto, State.setWalker] using other⟩
  | lockDoomed here tgt' =>
    obtain rfl := only tgt'
    exact .inr ⟨here, by simp [State.rcuOut, State.addCount, State.goto, State.setWalker],
      by simp [State.rcuOut, State.addCount, State.goto, State.setWalker, sub_eq_add_neg]⟩
  | lock here tgt' alive =>
    rw [only tgt', doomed] at alive
    exact absurd alive.symm Bool.false_ne_true
  | start here | lookupGone here | lookupFound here | lookupBeneath here | lookupRef here | legit1Ref here | legit1 here
  | legit1Stores here | put here | use here | refClosed here | refGone here | refBeneath here | refHangs here | ref here =>
    simp [Transient, here] at transient

theorem Inv.verdictOK [Fintype M] [DecidableEq H] [DecidableEq W] (inv : Inv cfg s 0 none ∅) :
    VerdictOK cfg s := fun _ _ doomed _ increments =>
  have takes := inv.takesBack doomed increments
  ⟨takes, fun _ step => takes.step doomed step⟩

theorem Inv.ownRefOnRing (inv : Inv cfg s 0 none ∅) : OwnRefOnRing s := by
  intro m inside
  have listed : 0 < s.uhead.count m := List.count_pos_iff.mpr inside
  have alive : ∀ {dead}, (s.vacant m = true ∨ s.doomed m = true) = dead → ¬ dead := by
    rintro _ rfl dead
    have final := inv.ledger.final m dead
    unfold outer at final
    omega
  have alive := not_or.mp (alive rfl)
  have up : s.doomed m = false := Bool.eq_false_of_not_eq_true alive.2
  have least := inv.ledger.least m
  unfold refs outer at least
  exact ⟨inv.stages.exists (inv.stages.notFree up), Bool.eq_false_of_not_eq_true alive.1, up, by omega⟩

theorem Inv.vacantCount (inv : Inv cfg s 0 none ∅) (mode : cfg.noref = true) : VacantCount cfg s := by
  intro m vacant _ _
  have final := inv.ledger.final m (.inl vacant)
  have quiet := inv.ledger.noref mode
  have unowed : owed s m = 0 := by simp [owed, quiet]
  have own : parentRef cfg s m = 0 := if_neg fun held => by simp [mode] at held
  rw [inv.ledger.exact m (.inl vacant)]
  unfold refs ownRef
  simp [final, unowed, own, mode]

theorem Inv.heldCoversRefs (inv : Inv cfg s 0 none ∅) : HeldCoversRefs cfg s := by
  intro m _ vacant _ w tgt pc
  have ok := inv.walkers.each w
  obtain legit2 | lock | holds := pc
  · by_cases same : s.seq = (s.walker w).seq
    · have empty := (not_congr ok.stores).mp (by simp [legit2])
      exact .inl ((ok.marked m (.inr (.inl legit2)) same tgt vacant).resolve_right fun buffered => empty (.inl buffered))
    · exact .inr ⟨.inl legit2, same⟩
  · exact .inr ⟨.inr lock, ok.lock lock⟩
  · exact .inl ((ok.kept m holds tgt).2 vacant)

theorem Inv.vacantOK (inv : Inv cfg s 0 none ∅) : VacantOK cfg s := by
  intro m vacant up
  simp [inv.stages.inst m, place, vacant, up]

theorem Inv.knullfsOK [Fintype M] (inv : Inv cfg s 0 none ∅) : KnullfsOK s := by
  intro m _
  refine ⟨fun listed => ?_, fun vacant => inv.tree.childless inv.stages fun live => ?_⟩
  · rw [inv.stages.inst m, place] at listed
    by_contra own
    cases up : s.doomed m <;> simp [own, up] at listed
  · simp [live.1] at vacant

/-- The parent's verdict on a stand-in without a reference is right. -/
theorem verdict_right [Fintype M] [DecidableEq S] [DecidableEq H] [DecidableEq W] (wf : cfg.WellFormed)
    (mode : cfg.noref = true) : (spec cfg).Invariant fun s : State M S H W =>
    OwnRefOnRing s ∧ VacantCount cfg s ∧ HeldCoversRefs cfg s ∧ VacantOK cfg s ∧ KnullfsOK s ∧ NoVacantOnRing s ∧
      VerdictOK cfg s := by
  refine (inv wf).mono fun s inv => ⟨inv.ownRefOnRing, inv.vacantCount mode, inv.heldCoversRefs, inv.vacantOK, inv.knullfsOK,
    fun m vacant inside => ?_, inv.verdictOK⟩
  have own := (inv.ownRefOnRing m inside).2.1
  simp [vacant] at own

/-- The verdict comes while a walk has both stores in its buffer. -/
theorem loop_verdict : (loopRun 11).vacant 1 = true ∧ (loopRun 11).doomed 1 = true ∧ TakesBack (loopRun 11) 0 1 :=
  ⟨by decide, by decide, ((verdict_right loop_wf rfl _ (loop_reaches (by decide))).2.2.2.2.2.2 1 (by decide) (by decide) 0
    ⟨by decide, .inl (.inl (by decide))⟩).1⟩

end LinuxTla.MntVacant
