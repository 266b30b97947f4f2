import LinuxTla.Fiber.Reasons

/-! A cancellation that arrives during a cleanup is kept for the next wait, unless the
expiry of a deadline takes its place. -/

namespace LinuxTla.Fiber

open Lib

section Values

variable {F E W : Type}

instance (op : Op) : Decidable op.Waits := inferInstanceAs (Decidable (_ ∨ _))

/-- The value is not the result of a fiber that is done. -/
def Origin.Plain (o : Origin F) : Prop :=
  match o with
  | .result _ => False
  | _ => True

instance (o : Origin F) : Decidable o.Plain := by
  unfold Origin.Plain
  split <;> infer_instance

/-- `f` performs an operation that waits, or that would wait if it had no value for `f`. -/
def Event.Performs (e : Event F) (f : F) : Prop :=
  match e with
  | .waits g _ => g = f
  | .answers g op _ o => g = f ∧ op.Waits ∧ o.Plain
  | _ => False

instance [DecidableEq F] (e : Event F) (f : F) : Decidable (e.Performs f) := by
  unfold Event.Performs
  split <;> infer_instance

def Event.Returns (e : Event F) (f : F) (v : Val) (o : Origin F) : Prop := e = .returns f v o ∨ ∃ op, e = .answers f op v o

/-- `f` is told that it was cancelled itself. -/
def Event.Delivers (e : Event F) (f : F) : Prop := e.Returns f .canceled .own

variable [DecidableEq F] [DecidableEq E] [DecidableEq W]

/-- What becomes of the values kept for the fiber that acts. -/
inductive Retains (s t : State F E W) (f : F) (e : Event F) : Prop
  | performs (before : (s.fib f).cont = .none) (event : e.Performs f)
      (canceled : (s.fib f).pendingVal = .canceled → ∃ op o, e = .answers f op .canceled o)
      (pending : (t.fib f).pendingVal = .ok ∧ (e.Delivers f → (s.fib f).pendingVal = .canceled) ∨
        (t.fib f).pendingVal = (s.fib f).pendingVal ∧ ¬ e.Delivers f)
      (still : (t.fib f).swallowedVal = (s.fib f).swallowedVal)
  | code (before : (s.fib f).cont = .none) (quiet : ¬ e.Performs f) (after : (t.fib f).cont ≠ .op)
      (silent : ¬ e.Delivers f) (pending : (t.fib f).pendingVal = (s.fib f).pendingVal)
      (still : (t.fib f).swallowedVal = (s.fib f).swallowedVal)
  | inside (before : (s.fib f).cont = .op) (pending : (t.fib f).pendingVal = (s.fib f).pendingVal)
      (still : (t.fib f).swallowedVal = (s.fib f).swallowedVal)
  | waits (before : (s.fib f).cont = .cwu) (quiet : e = .quiet) (after : (t.fib f).cont = .cwu)
      (value : (t.fib f).swallowedVal = swallowed s f) (pending : (t.fib f).pendingVal = (s.fib f).pendingVal)
  | ends {x} (before : (s.fib f).cont = .cwu) (quiet : e = .quiet) (after : (t.fib f).cont = .none)
      (goal : (s.fib f).optarget = some x) (resolved : (s.fut (.fiber x)).state = .resolved)
      (pending : (t.fib f).pendingVal = if swallowed s f ≠ .ok then swallowed s f else (s.fib f).pendingVal)
      (clean : (t.fib f).swallowedVal = .ok)

variable {cfg : Config F E W} {s t r : State F E W} {f : F} {e : Event F}

def Fib.Values (b c : Fib F E W) : Prop := c.pendingVal = b.pendingVal ∧ c.swallowedVal = b.swallowedVal

theorem Retains.record {b : Fib F E W} (here : t.fib f = b) (before : (s.fib f).cont = .none) (quiet : ¬ e.Performs f)
    (silent : ¬ e.Delivers f) (cont : b.cont ≠ .op) (values : (s.fib f).Values b) : Retains s t f e := by
  subst here
  exact .code before quiet cont silent values.1 values.2

theorem Retains.paused {b : Fib F E W} {op : Op} (here : t.fib f = b) (before : (s.fib f).cont = .none)
    (none : (s.fib f).pendingVal = .ok) (values : (s.fib f).Values b) : Retains s t f (.waits f op) := by
  subst here
  refine .performs before rfl (fun canceled => ?_) (.inl ⟨values.1.trans none, fun delivers => ?_⟩) values.2
  · cases none.symm.trans canceled
  · obtain same | ⟨_, same⟩ := delivers <;> cases same

theorem Val.ok_ne_canceled : Val.ok ≠ Val.canceled := by decide

theorem Cont.none_ne_op : Cont.none ≠ Cont.op := by decide

theorem Cont.cwu_ne_op : Cont.cwu ≠ Cont.op := by decide

omit [DecidableEq E] [DecidableEq W] in
theorem Decided.values {v : Val} (decided : Decided cfg r f v t) : (t.fib f).cont = .none ∧ (r.fib f).Values (t.fib f) := by
  cases decided with
  | carry =>
    rw [clearOp, State.setFib_self]
    exact ⟨rfl, rfl, rfl⟩
  | fail =>
    rw [unwindTo, clearOp, State.setFib_setFib, State.setFib_self]
    exact ⟨rfl, rfl, rfl⟩

theorem Decided.retains {v : Val} (decided : Decided cfg (spend s f) f v t) (before : (s.fib f).cont = .none)
    (quiet : ¬ e.Performs f) (silent : ¬ e.Delivers f) : Retains s t f e := by
  have spent : (spend s f).fib f = { s.fib f with budget := (s.fib f).budget - 1 } := State.setFib_self ..
  obtain ⟨cont, values⟩ := decided.values
  rw [spent] at values
  refine .code before quiet ?_ silent values.1 values.2
  rw [cont]
  exact Cont.none_ne_op

theorem Acts.retains (step : Acts cfg s f e t) (fixed : cfg.Fixed) (formed : cfg.WellFormed) (core : Core cfg s)
    (plan : Plan s f) : Retains s t f e := by
  have running := step.running
  have spent : (spend s f).fib f = { s.fib f with budget := (s.fib f).budget - 1 } := State.setFib_self ..
  have wrote {r : State F E W} {b : Fib F E W} (same : r.fib f = b) (h : Fib F E W → Fib F E W) :
      (r.setFib f h).fib f = h b := by rw [State.setFib_self, same]
  have quiet : ¬ (Event.quiet : Event F).Performs f := id
  have code {b : Fib F E W} (none : b.cont = .none) : b.cont ≠ .op := by
    rw [none]
    exact Cont.none_ne_op
  have other {k : F} (owned : .fiber k ∈ (s.fib f).owned) : f ≠ k := by
    rintro rfl
    exact plan.orphan (core.child owned).2
  have top {k : F} {rest : List (Id F E W)} (none : (s.fib f).cont = .none) (top : (s.fib f).cstack = .fiber k :: rest) :
      .fiber k ∈ (s.fib f).owned := (plan.doing.calm none).owned ▸ top ▸ List.mem_cons_self
  have silent : ¬ (Event.quiet : Event F).Delivers f := by
    intro delivers
    obtain same | ⟨_, same⟩ := delivers <;> cases same
  have away {r : State F E W} {b : Fib F E W} (here : r.fib f = b) :
      (switchOut cfg r f .suspended).fib f = { b with state := .suspended, wakeSrc := .none } := by
    rw [switchOut_suspended]
    dsimp only
    rw [State.setFib_self, here]
  have queued {r : State F E W} {b : Fib F E W} (here : r.fib f = b) : b.Values ((switchOut cfg r f .ready).fib f) := by
    rw [switchOut_ready fixed]
    dsimp only
    rw [State.setFib_self, here]
    exact ⟨rfl, rfl⟩
  cases step with
  | @delivered op _ can waits stashed decided =>
    obtain ⟨_, values⟩ := decided.values
    have delivered : (deliver (spend s f) f).fib f = { s.fib f with budget := (s.fib f).budget - 1, pendingVal := .ok } := by
      rw [deliver, State.setFib_self, spent]
    rw [delivered] at values
    refine .performs can.2.2 ⟨rfl, waits, trivial⟩ (fun canceled => ⟨op, .own, ?_⟩) (.inl ⟨values.1, fun delivers => ?_⟩) values.2
    · rw [canceled]
    · obtain same | ⟨_, same⟩ := delivers
      · cases same
      · exact (Event.answers.inj same).2.2.1
  | @refused op _ can exiting decided =>
    have silent : ¬ (Event.answers f op .canceled .refused).Delivers f := by
      intro delivers
      obtain same | ⟨_, same⟩ := delivers <;> cases same
    by_cases waits : op.Waits
    · obtain ⟨_, values⟩ := decided.values
      rw [spent] at values
      exact .performs can.2.2 ⟨rfl, waits, trivial⟩ (fun _ => ⟨op, .refused, rfl⟩) (.inr ⟨values.1, silent⟩) values.2
    · exact decided.retains can.2.2 (fun performs => waits performs.2.1) silent
  | @awaitedDone g _ can handle resolved decided =>
    refine decided.retains can.2.2 (fun performs => performs.2.2) fun delivers => ?_
    obtain same | ⟨_, same⟩ := delivers
    · cases same
    · cases (Event.answers.inj same).2.2.2
  | yields can none =>
    have values := queued (wrote spent fun b => { b with cont := .op, opkind := .yield })
    exact .paused rfl can.2.2 none values
  | bares can none => exact .paused (away (wrote spent _)) can.2.2 none ⟨rfl, rfl⟩
  | waitsExt can none => exact .paused (away (wrote (r := (spend s f).setFut _ _) spent _)) can.2.2 none ⟨rfl, rfl⟩
  | waitsFiber can _ none =>
    exact .paused (away (wrote (r := ((spend s f).setFut _ _).setFut _ _) spent _)) can.2.2 none ⟨rfl, rfl⟩
  | @spawns k fl can unborn =>
    have apart : f ≠ k := by
      rintro rfl
      exact (core.running_alive running).1.1 unborn
    have here : (((spend s f).setFib k fun _ => newFib cfg (.fiber f) (cfg.prio k) fl true s.iter).setFut (.fiber k) fun _ =>
        fiberFut none (!fl)).fib f = { s.fib f with budget := (s.fib f).budget - 1 } := by
      rw [State.setFut_fib, State.setFib_of_ne apart, spent]
    exact .record (wrote here _) can.2.2 quiet silent (code can.2.2) ⟨rfl, rfl⟩
  | @cancels k can handle =>
    have apart := core.handle_ne plan.orphan (plan.doing.calm can.2.2) handle
    obtain ⟨same, _⟩ := ((core.spend f).cancels fixed formed k).running (core.spend f) running apart.symm
    exact .record (same.trans spent) can.2.2 quiet silent (code can.2.2) ⟨rfl, rfl⟩
  | exits can | noTimeout can => exact .record spent can.2.2 quiet silent (code can.2.2) ⟨rfl, rfl⟩
  | timeout can => exact .record (wrote (r := (spend s f).setFut _ _) spent _) can.2.2 quiet silent (code can.2.2) ⟨rfl, rfl⟩
  | leavesBlock can => exact .record (wrote (wrote spent _) _) can.2.2 quiet silent Cont.none_ne_op ⟨rfl, rfl⟩
  | rets _ can => exact .record (wrote (wrote rfl _) _) can.2.2 quiet silent Cont.none_ne_op ⟨rfl, rfl⟩
  | resumed _ op _ flagged decided =>
    obtain ⟨_, values⟩ := decided.values
    rw [flagged.rest] at values
    exact .inside op values.1 values.2
  | awaited _ op kind _ decided =>
    obtain ⟨_, values⟩ := decided.values
    obtain ⟨y, _, _, _, _, step⟩ | ⟨w, k, _, _, _, _, _, step⟩ :=
      endWait_cases core fixed formed running plan.doing op kind
    · rw [step, State.setFib_self] at values
      exact .inside op values.1 values.2
    · rw [step, State.setFib_self] at values
      exact .inside op values.1 values.2
  | absorbed _ op => refine .inside op ?_ ?_ <;> rw [away rfl]
  | cwuWaits _ cwu =>
    refine .waits cwu rfl ?_ ?_ ?_ <;> rw [swallow, away (wrote rfl _)]
    exact cwu
  | @cwuEnds k _ cwu target resolved =>
    obtain ⟨w, rest, r, u, mode, _, top, calm, _, rfl, released, step⟩ :=
      endCwu_cases core fixed formed running plan.doing cwu target resolved
    have apart : f ≠ k := by
      rintro rfl
      exact absurd resolved (Fut.pending_iff.mp ((core.alive f (core.running_alive running).1).state.mpr
        (core.running_alive running).2.1))
    have before : u.fib f = s.fib f := by
      obtain rfl | rfl := released
      · rfl
      · rw [freedFiber, State.setFib_of_ne apart]
        rfl
    refine .ends cwu rfl ?_ target resolved ?_ ?_ <;> rw [step, State.setFib_self]
    rw [before]
  | completes _ unwinds none =>
    obtain ⟨u, completion, done⟩ := core.completes fixed formed running
    have self := completion.self
    rw [State.setFib_self] at self
    rw [done]
    exact .record self none quiet silent (code none) ⟨rfl, rfl⟩
  | blockLeft _ _ none => exact .record (wrote rfl _) none quiet silent (code none) ⟨rfl, rfl⟩
  | @frees y rest _ _ none top notFiber =>
    have calm := plan.doing.calm none
    cases y with
    | fiber k => exact absurd rfl (notFiber k)
    | wait w => exact absurd (top ▸ List.mem_cons_self) (calm.2 w)
    | ext y =>
      have owned : .ext y ∈ (s.fib f).owned := calm.owned ▸ top ▸ List.mem_cons_self
      rw [cwuSync_ext fixed formed (core.owns running owned notFiber)]
      exact .record (wrote rfl _) none quiet silent (code none) ⟨rfl, rfl⟩
  | @freesDone k _ _ _ none stack resolved =>
    have owned := top none stack
    have before := unref_other cfg resolved (core.child_done running plan.orphan owned resolved).2 (other owned)
    exact .record (wrote before.1 _) none quiet silent (code none) ⟨rfl, rfl⟩
  | @freesFresh k _ _ _ none stack pending resolved =>
    have owned := top none stack
    have apart := other owned
    have cancels := core.cancels fixed formed k
    have cancelled := core.cancel fixed formed (g := k) fun active => apart (Option.some.inj (running.symm.trans active))
    obtain ⟨same, phase⟩ := cancels.running core running apart
    have completed := (cancelled.child_done (phase.trans running) (same ▸ plan.orphan) (same ▸ owned) resolved).2
    have before := unref_other cfg resolved completed apart
    exact .record (wrote (before.1.trans same) _) none quiet silent (code none) ⟨rfl, rfl⟩
  | @cwuFast k _ _ _ _ none stack callback =>
    have bare := (core.alive k (core.alive_of_held (core.child (top none stack)).1)).cb
    rw [(core.cancels fixed formed k).cb bare] at callback
    cases callback
  | @cwuBegins k w _ _ _ none stack =>
    obtain ⟨same, _⟩ := (core.cancels fixed formed k).running core running (other (top none stack))
    exact .record (away (wrote (r := ((cancel cfg s k).setFut _ _).setFut _ _) same _)) none quiet silent Cont.cwu_ne_op ⟨rfl, rfl⟩

end Values

section Others

variable {F E W : Type} {cfg : Config F E W} {s t : State F E W} {f g : F}

/-- A cancellation that reached a fiber in a cleanup, and where it is until the fiber sees it. -/
structure Kept (s : State F E W) (f : F) : Prop where
  there : (s.fib f).state ≠ .none
  carried : (s.fib f).cont = .cwu ∧ ((s.fib f).state = .cancelled ∧ s.phase ≠ some f ∨
        s.phase = some f ∧ (s.fib f).wakeVal = .canceled ∨ (s.fib f).swallowedVal = .canceled) ∨
      (s.fib f).cont ≠ .op ∧ (s.fib f).pendingVal = .canceled

/-- What a step of somebody else leaves to a fiber that it does not enter. -/
theorem Passive.values (passive : Passive cfg s t g) (there : (s.fib g).state ≠ .none) (elsewhere : t.phase ≠ some g) :
    (t.fib g).state ≠ .none ∧ ((s.fib g).state = .cancelled → (t.fib g).state = .cancelled) ∧
      (t.fib g).swallowedVal = (s.fib g).swallowedVal ∧ (t.fib g).pendingVal = (s.fib g).pendingVal := by
  cases passive with
  | same fib =>
    rw [fib]
    exact ⟨there, id, rfl, rfl⟩
  | woken _ _ _ nudged fib =>
    rw [fib]
    cases nudged with
    | same => exact ⟨there, id, rfl, rfl⟩
    | woken _ waits =>
      refine ⟨(FibState.Begun.alive (.inl rfl)).1, fun cancelled => ?_, rfl, rfl⟩
      cases waits.symm.trans cancelled
    | kept => exact ⟨there, id, rfl, rfl⟩
  | marked _ fib =>
    obtain ⟨_, _, fib⟩ := fib
    rw [fib]
    exact ⟨(FibState.Begun.alive (.inr (.inr rfl))).1, fun _ => rfl, rfl, rfl⟩
  | @ended st _ before after _ fib =>
    obtain ⟨_, _, _, _, fib⟩ := fib
    rw [fib]
    refine ⟨?_, fun cancelled => ?_, rfl, rfl⟩
    · intro none
      rw [show st = FibState.none from none] at after
      obtain after | after := after <;> cases after
    · rw [cancelled] at before
      obtain before | before := before <;> cases before
  | born unborn => exact absurd unborn there
  | entered enters => exact absurd enters.active elsewhere

theorem Frame.kept (frame : Frame cfg s t g) (stepped : Stepped cfg s t g) (away : s.phase ≠ some g) (kept : Kept s g) :
    Kept t g := by
  have stays := frame.fib.stays.resolve_right fun born => kept.there born.1
  by_cases active : t.phase = some g
  · have enters := (stepped active).resolve_left fun running => away running.1
    obtain ⟨_, _, _, _, fib⟩ := enters.fib
    refine ⟨?_, ?_⟩
    · rw [fib]
      exact kept.there
    · obtain ⟨cwu, ⟨cancelled, _⟩ | ⟨running, _⟩ | swallowed⟩ | ⟨notOp, pending⟩ := kept.carried
      · refine .inl ⟨stays.cont.trans cwu, .inr (.inl ⟨active, ?_⟩)⟩
        rw [fib]
        exact if_pos cancelled
      · exact absurd running away
      · refine .inl ⟨stays.cont.trans cwu, .inr (.inr ?_)⟩
        rw [fib]
        exact swallowed
      · refine .inr ⟨stays.cont ▸ notOp, ?_⟩
        rw [fib]
        refine (if_neg fun keep => ?_).trans pending
        cases pending.symm.trans keep.2.2.2
  · obtain ⟨there, cancelled, swallowed, pending⟩ := frame.fib.values kept.there active
    refine ⟨there, ?_⟩
    obtain ⟨cwu, ⟨before, _⟩ | ⟨running, _⟩ | before⟩ | ⟨notOp, before⟩ := kept.carried
    · exact .inl ⟨stays.cont.trans cwu, .inl ⟨cancelled before, active⟩⟩
    · exact absurd running away
    · exact .inl ⟨stays.cont.trans cwu, .inr (.inr (swallowed.trans before))⟩
    · exact .inr ⟨stays.cont ▸ notOp, pending.trans before⟩

end Others

section Runs

variable {F E W : Type} [DecidableEq F] [DecidableEq E] [DecidableEq W] {cfg : Config F E W} {s t : State F E W} {f g : F} {e : Event F}

/-- The end of a cleanup wait puts the expiry of a deadline in the place of a cancellation. -/
structure Overwrites (s : State F E W) (f : F) : Prop where
  running : s.phase = some f
  cwu : (s.fib f).cont = .cwu
  done : ∃ x, (s.fib f).optarget = some x ∧ (s.fut (.fiber x)).state = .resolved
  pending : (s.fib f).pendingVal = .canceled
  other : swallowed s f ≠ .ok ∧ swallowed s f ≠ .canceled

instance (s : State F E W) (f : F) : Decidable (Overwrites s f) :=
  decidable_of_iff
    (s.phase = some f ∧ (s.fib f).cont = .cwu ∧ (∃ x ∈ (s.fib f).optarget, (s.fut (.fiber x)).state = .resolved) ∧
      (s.fib f).pendingVal = .canceled ∧ swallowed s f ≠ .ok ∧ swallowed s f ≠ .canceled)
    ⟨fun all => ⟨all.1, all.2.1, all.2.2.1, all.2.2.2.1, all.2.2.2.2⟩,
      fun lost => ⟨lost.running, lost.cwu, lost.done, lost.pending, lost.other⟩⟩

/-- The fiber itself carries the cancellation on, or its wait returns it. -/
theorem Acts.kept (step : Acts cfg s f e t) (fixed : cfg.Fixed) (formed : cfg.WellFormed) (sane : Sane cfg s)
    (clear : ¬ Overwrites s f) (kept : Kept s f) :
    ¬ e.Performs f ∧ Kept t f ∨ e.Performs f ∧ ∃ op o, e = .answers f op .canceled o := by
  have running := step.running
  have plan := sane.plan f
  have quiet : ¬ (Event.quiet : Event F).Performs f := id
  have there : (t.fib f).state ≠ .none := by
    have live := (sane.core.running f running).live
    cases (step.actor fixed formed sane.core plan).goes with
    | onward _ state =>
      rw [state]
      exact fun none => live (.inl none)
    | sleeps _ state | cleans _ state | lingers _ state | queued _ state =>
      rw [state]
      decide
    | done _ gone =>
      intro none
      rw [none] at gone
      obtain gone | gone := gone <;> cases gone
  have canceled (cwu : (s.fib f).cont = .cwu)
      (inside : (s.fib f).state = .cancelled ∧ s.phase ≠ some f ∨ s.phase = some f ∧ (s.fib f).wakeVal = .canceled ∨
        (s.fib f).swallowedVal = .canceled) : swallowed s f = .canceled := by
    obtain ⟨_, away⟩ | ⟨_, woken⟩ | before := inside
    · exact absurd running away
    · exact if_pos (.inl woken)
    · exact if_pos (.inr before)
  cases step.retains fixed formed sane.core plan with
  | performs before event answers _ _ =>
    obtain ⟨cwu, _⟩ | ⟨_, pending⟩ := kept.carried
    · cases before.symm.trans cwu
    · exact .inr ⟨event, answers pending⟩
  | code before silent after _ pending _ =>
    obtain ⟨cwu, _⟩ | ⟨_, stashed⟩ := kept.carried
    · cases before.symm.trans cwu
    · exact .inl ⟨silent, there, .inr ⟨after, pending.trans stashed⟩⟩
  | inside before _ _ =>
    obtain ⟨cwu, _⟩ | ⟨notOp, _⟩ := kept.carried
    · cases before.symm.trans cwu
    · exact absurd before notOp
  | waits before silent after value pending =>
    subst silent
    refine .inl ⟨quiet, there, ?_⟩
    obtain ⟨cwu, inside⟩ | ⟨_, stashed⟩ := kept.carried
    · exact .inl ⟨after, .inr (.inr (value.trans (canceled cwu inside)))⟩
    · refine .inr ⟨?_, pending.trans stashed⟩
      rw [after]
      exact Cont.cwu_ne_op
  | ends before silent after goal resolved pending _ =>
    subst silent
    refine .inl ⟨quiet, there, .inr ⟨?_, ?_⟩⟩
    · rw [after]
      exact Cont.none_ne_op
    · obtain ⟨cwu, inside⟩ | ⟨_, stashed⟩ := kept.carried
      · rw [pending, canceled cwu inside]
        exact if_pos (by decide)
      · rw [pending]
        split_ifs with other
        · by_contra differs
          exact clear ⟨running, before, ⟨_, goal, resolved⟩, stashed, other, differs⟩
        · exact stashed

theorem Acts.performs (step : Acts cfg s f e t) (performs : e.Performs g) : g = f := by
  cases step with
  | delivered | refused | awaitedDone => exact performs.1.symm
  | yields | bares | waitsExt | waitsFiber => exact performs.symm
  | spawns | cancels | exits | noTimeout | timeout | leavesBlock | rets | resumed | awaited | absorbed | cwuWaits | cwuEnds
    | completes | blockLeft | frees | freesDone | freesFresh | cwuFast | cwuBegins => exact performs.elim

theorem Kept.next (kept : Kept s f) (fixed : cfg.Fixed) (formed : cfg.WellFormed) (sane : Sane cfg s) (clear : ¬ Overwrites s f)
    (step : Next cfg s e t) : ¬ e.Performs f ∧ Kept t f ∨ e.Performs f ∧ ∃ op o, e = .answers f op .canceled o := by
  obtain ⟨g, step⟩ | ⟨quiet, step⟩ := step.cases fixed
  · obtain rfl | differs := eq_or_ne f g
    · exact step.kept fixed formed sane clear kept
    · have own := sane.plan g
      have frame := step.frame fixed formed sane.core own.doing own.orphan differs
      have actor := step.actor fixed formed sane.core own
      refine .inl ⟨fun performs => differs (step.performs performs), frame.kept (actor.stepped differs) (fun active => ?_) kept⟩
      exact differs (Option.some.inj (active.symm.trans step.running))
  · refine .inl ⟨?_, ?_⟩
    · rw [quiet]
      exact id
    · obtain idle | ⟨fib, phase, _⟩ := step.still
      · have frame := step.frame fixed formed sane.core sane.ready f
        refine frame.kept (step.stepped fixed formed sane.core sane.ready f) ?_ kept
        rw [idle]
        exact (Option.some_ne_none f).symm
      · refine ⟨?_, ?_⟩ <;> rw [fib]
        · exact kept.there
        · rw [phase]
          exact kept.carried

/-! ### Along a run -/

variable {length : ℕ} {states : ℕ → State F E W} {events : ℕ → Event F}

/-- In step `i` somebody cancels `f`, which waits in a cleanup of a block. -/
structure Asked (states : ℕ → State F E W) (i : ℕ) (f : F) : Prop where
  cwu : ((states i).fib f).cont = .cwu
  block : ((states i).fib f).after = .block
  waits : ((states i).fib f).state = .suspended ∨ ((states i).fib f).state = .ready
  away : (states i).phase ≠ some f
  cancelled : ((states (i + 1)).fib f).state = .cancelled

instance (states : ℕ → State F E W) (i : ℕ) (f : F) : Decidable (Asked states i f) :=
  decidable_of_iff
    (((states i).fib f).cont = .cwu ∧ ((states i).fib f).after = .block ∧
      (((states i).fib f).state = .suspended ∨ ((states i).fib f).state = .ready) ∧ (states i).phase ≠ some f ∧
      ((states (i + 1)).fib f).state = .cancelled)
    ⟨fun all => ⟨all.1, all.2.1, all.2.2.1, all.2.2.2.1, all.2.2.2.2⟩,
      fun asked => ⟨asked.cwu, asked.block, asked.waits, asked.away, asked.cancelled⟩⟩

/-- A cancellation that arrives in a cleanup of a block is what the first wait after it returns. -/
def Redelivers (length : ℕ) (states : ℕ → State F E W) (events : ℕ → Event F) : Prop :=
  ∀ i f, Asked states i f → ∀ j, i < j → j < length → (events j).Performs f →
    (∀ k, i < k → k < j → ¬ (events k).Performs f) → ∃ op o, events j = .answers f op .canceled o

omit [DecidableEq F] [DecidableEq E] [DecidableEq W] in
theorem Asked.begun {i : ℕ} (asked : Asked states i f) : ((states i).fib f).state.Begun :=
  asked.waits.elim (fun asleep => .inr (.inl asleep)) .inl

omit [DecidableEq F] [DecidableEq E] [DecidableEq W] in
theorem Asked.before {i : ℕ} (asked : Asked states i f) : ((states i).fib f).state ≠ .cancelled := by
  intro cancelled
  obtain waits | waits := asked.waits <;> cases waits.symm.trans cancelled

omit [DecidableEq F] [DecidableEq E] [DecidableEq W] in
theorem Asked.frame {i : ℕ} (asked : Asked states i f) (frame : Frame cfg (states i) (states (i + 1)) f)
    (stepped : Stepped cfg (states i) (states (i + 1)) f) : Kept (states (i + 1)) f := by
  have stays := frame.fib.stays.resolve_right fun born => asked.begun.alive.1 born.1
  refine ⟨?_, .inl ⟨stays.cont.trans asked.cwu, .inl ⟨asked.cancelled, fun active => ?_⟩⟩⟩
  · rw [asked.cancelled]
    decide
  · have enters := (stepped active).resolve_left fun running => asked.away running.1
    obtain ⟨_, _, _, _, fib⟩ := enters.fib
    have cancelled := asked.cancelled
    rw [fib] at cancelled
    exact asked.before cancelled

theorem Asked.kept {i : ℕ} (asked : Asked states i f) (fixed : cfg.Fixed) (formed : cfg.WellFormed) (sane : Sane cfg (states i))
    (step : Next cfg (states i) e (states (i + 1))) : Kept (states (i + 1)) f := by
  obtain ⟨g, step⟩ | ⟨_, step⟩ := step.cases fixed
  · have own := sane.plan g
    have differs : f ≠ g := by
      rintro rfl
      exact asked.away step.running
    have frame := step.frame fixed formed sane.core own.doing own.orphan differs
    exact asked.frame frame ((step.actor fixed formed sane.core own).stepped differs)
  · obtain _ | ⟨fib, _⟩ := step.still
    · exact asked.frame (step.frame fixed formed sane.core sane.ready f) (step.stepped fixed formed sane.core sane.ready f)
    · have cancelled := asked.cancelled
      rw [fib] at cancelled
      exact absurd cancelled asked.before

/-- A cancellation that arrives in a cleanup is delivered as one, in every run in which no
cleanup wait ends with the expiry of a deadline while a cancellation is kept. -/
theorem cleanup_redelivers (fixed : cfg.Fixed) (formed : cfg.WellFormed) (trace : Trace cfg length states events)
    (clear : ∀ i < length, ∀ f, ¬ Overwrites (states i) f) : Redelivers length states events := by
  intro i f asked j later inside performs first
  have sane (k : ℕ) (within : k < length) : Sane cfg (states k) :=
    sane_invariant fixed formed _ (trace.run.reachable k (by omega))
  have kept (k : ℕ) (order : i + 1 ≤ k) : k ≤ j → Kept (states k) f := by
    induction k, order using Nat.le_induction with
    | base => exact fun _ => asked.kept fixed formed (sane i (by omega)) (trace.next i (by omega))
    | succ k order ih =>
      intro within
      have step := trace.next k (by omega)
      obtain ⟨_, still⟩ | ⟨performs, _⟩ := (ih (by omega)).next fixed formed (sane k (by omega)) (clear k (by omega) f) step
      · exact still
      · exact absurd performs (first k (by omega) (by omega))
  have answers := (kept j later le_rfl).next fixed formed (sane j inside) (clear j inside f) (trace.next j inside)
  exact (answers.resolve_left fun other => other.1 performs).2

end Runs

/-! ### A run that loses one -/

section Trio

/-- A fiber with two children, and main that may cancel it. -/
def trio : Config (Fin 3) (Fin 2) (Fin 1) where
  fiberOrder := [0, 1, 2]
  topLevel := {0}
  floatingTop := ∅
  extOrder := [0, 1]
  waitOrder := [0]
  waiterOrder ws := [0].filter (· ∈ ws)
  prio _ := 0
  budget := 7
  ops := {.yield, .spawn, .tobegin, .toend, .bare}
  mainMayExit := false
  mainMayCancel := true
  mainCancelMax := 0
  exitOnIdle := false
  allowIgnoreErrors := false
  childMayFail := true
  fixFreePending := true
  fixCwuLoop := true
  fixExitArmed := true
  fixRecancel := true
  fixStickyError := true
  fixNoChildTrampoline := true
  fixAwaitLoop := true

/-- The fiber leaves a block with two children inside of an outer deadline. It is cancelled
while it waits for the first child, and the deadline expires while it waits for the other. -/
def expiry : List (Move (Fin 3) (Fin 2) (Fin 1)) :=
  [.dispatch (some (.fiber 0)), .timeoutBegin 0, .timeoutBegin 0, .spawn 0 false false, .spawn 0 false false,
    .yield 0 false, .dispatch (some (.fiber 2)), .bare 2 false, .dispatch (some (.fiber 0)), .continueOp 0 false,
    .timeoutEnd 0, .unwind 0, .mainCancel 0, .fire 0, .dispatch (some (.fiber 1)), .bare 1 false,
    .dispatch (some (.fiber 2)), .continueOp 2 false, .unwind 2, .dispatch (some (.fiber 0)), .continueCwu 0, .unwind 0,
    .dispatch (some (.ext 0)), .dispatch (some (.fiber 1)), .continueOp 1 false, .unwind 1,
    .dispatch (some (.fiber 0)), .continueCwu 0, .unwind 0, .unwind 0, .yield 0 false]

/-- The same without the deadline. -/
def noExpiry : List (Move (Fin 3) (Fin 2) (Fin 1)) :=
  [.dispatch (some (.fiber 0)), .timeoutBegin 0, .spawn 0 false false, .yield 0 false, .dispatch (some (.fiber 1)),
    .bare 1 false, .dispatch (some (.fiber 0)), .continueOp 0 false, .timeoutEnd 0, .unwind 0, .mainCancel 0,
    .dispatch (some (.fiber 1)), .continueOp 1 false, .unwind 1, .dispatch (some (.fiber 0)), .continueCwu 0, .unwind 0,
    .unwind 0, .yield 0 false]

theorem expiry_overwrites : ∃ steps, replay trio (init trio) expiry = some steps ∧
    Trace trio 31 (stateAt (init trio) steps) (eventAt steps) ∧ ¬ Redelivers 31 (stateAt (init trio) steps) (eventAt steps) := by
  have run : ((replay trio (init trio) expiry).map fun steps => decide (steps.length = 31 ∧
      Asked (stateAt (init trio) steps) 12 0 ∧ eventAt steps 30 = .answers 0 .yield .etime .own ∧
      ∀ k < 30, 12 < k → ¬ (eventAt steps k).Performs 0)) = some true := by decide +kernel
  obtain ⟨steps, replayed, known⟩ := Option.map_eq_some_iff.mp run
  obtain ⟨length, asked, last, first⟩ := of_decide_eq_true known
  refine ⟨steps, replayed, ⟨rfl, fun i inside => replay_next replayed i (by omega)⟩, fun redelivers => ?_⟩
  obtain ⟨op, o, answers⟩ := redelivers 12 0 asked 30 (by decide) (by decide) (by rw [last]; decide) fun k later earlier =>
    first k earlier later
  rw [last] at answers
  cases answers

theorem noExpiry_redelivers : ∃ steps, replay trio (init trio) noExpiry = some steps ∧
    ∃ op o, eventAt steps 18 = .answers 0 op .canceled o := by
  have run : ((replay trio (init trio) noExpiry).map fun steps => decide (steps.length = 19 ∧
      Asked (stateAt (init trio) steps) 10 0 ∧ (eventAt steps 18).Performs 0 ∧
      (∀ k < 18, 10 < k → ¬ (eventAt steps k).Performs 0) ∧
      ∀ i < 19, ∀ f, ¬ Overwrites (stateAt (init trio) steps i) f)) = some true := by decide +kernel
  obtain ⟨steps, replayed, known⟩ := Option.map_eq_some_iff.mp run
  obtain ⟨length, asked, performs, first, clear⟩ := of_decide_eq_true known
  have formed : trio.WellFormed := ⟨by decide, by decide, fun ws w => by simp [trio, Subsingleton.elim w 0]⟩
  have trace : Trace trio 19 (stateAt (init trio) steps) (eventAt steps) :=
    ⟨rfl, fun i inside => replay_next replayed i (by omega)⟩
  have redelivers := cleanup_redelivers ⟨rfl, rfl, rfl, rfl, rfl, rfl, rfl⟩ formed trace clear
  exact ⟨steps, replayed, redelivers 10 0 asked 18 (by decide) (by decide) performs fun k later earlier => first k earlier later⟩

end Trio

end LinuxTla.Fiber
