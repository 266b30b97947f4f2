import LinuxTla.Fiber.Turns

/-! What a step does to a fiber that is not the one acting, and to the futures it owns. -/

namespace LinuxTla.Fiber

section Frame

variable {F E W : Type}

/-- A future that somebody else may have resolved. It is dropped only if its owner `b` is
queued, and with an error if it would have been resumed with one. -/
structure Fut.Later (b : Fib F E W) (u v : Fut F W) : Prop where
  same : u.Same v
  value : v.state = u.state ∧ v.result = u.result ∨ u.state = .pending ∧ v.state = .resolved
  fireResult : v.fireResult = u.fireResult
  dropped : v.dropped = true → u.dropped = true ∨ b.state = .ready ∧ (u.fireResult ≠ .ok → b.result ≠ .ok)

theorem Fut.Later.refl (b : Fib F E W) (u : Fut F W) : Fut.Later b u u := ⟨.refl u, .inl ⟨rfl, rfl⟩, rfl, .inl⟩

structure Enters (cfg : Config F E W) (s t : State F E W) (g : F) : Prop where
  idle : s.phase = none
  active : t.phase = some g
  runs : (s.fib g).state.Runs
  fib : ∃ d e i, (d = false ∧ e = (s.fib g).exitOn ∨ (s.fib g).state = .cancelled ∧ t.exitReq = true) ∧
    t.fib g = { (s.fib g).entered cfg with deferOn := d, exitOn := e, deferIter := i }

/-- What becomes of a fiber that is not acting. -/
inductive Passive (cfg : Config F E W) (s t : State F E W) (g : F) : Prop
  | same {i} (fib : t.fib g = { s.fib g with deferIter := i })
  | woken {y v c i} (own : (s.fut y).cb = some g) (resolved : (t.fut y).state = .resolved) (result : (t.fut y).result = v)
      (nudged : Nudged s g v (.future y) c) (fib : t.fib g = { c with deferIter := i })
  | marked (began : (s.fib g).state = .ready ∨ (s.fib g).state = .suspended)
      (fib : ∃ d i, t.fib g = { s.fib g with state := .cancelled, deferOn := d, exitOn := true, deferIter := i })
  | ended {st d} (before : (s.fib g).state = .initial ∨ (s.fib g).state = .completed)
      (after : st = .completed ∨ st = .freed) (online : d = true → (s.fib g).state = .completed ∧ (s.fib g).deferOn = true)
      (fib : ∃ v e fl i, t.fib g =
        { s.fib g with state := st, result := v, deferOn := d, exitOn := e, floating := fl, deferIter := i })
  | born (before : (s.fib g).state = .none) (listed : g ∈ cfg.fiberOrder) (creator : ∃ f p fl i, s.phase = some f ∧ f ≠ g ∧
      t.fib g = newFib cfg (.fiber f) p fl true i)
  | entered (enters : Enters cfg s t g)

/-- What becomes of a fiber that is not acting and of what it owns. A wait of its own is
settled only when the fiber it waits for is done, and then it does not sleep on. -/
structure Frame (cfg : Config F E W) (s t : State F E W) (g : F) : Prop where
  fib : Passive cfg s t g
  fut : ∀ y, (s.fut y).cb = some g → (s.fut y).Later (t.fib g) (t.fut y)
  asleep : (t.fib g).state = .suspended → ∀ w, (s.fut (.wait w)).cb = some g →
    (t.fut (.wait w)).state = (s.fut (.wait w)).state
  waits : ∀ w x, (s.fut (.wait w)).cb = some g → (s.fut (.wait w)).target = some x →
    (t.fut (.wait w)).state = (s.fut (.wait w)).state ∨ (t.fib x).state.Over

variable {cfg : Config F E W} {s t r : State F E W} {f g : F}

theorem Frame.record (fib : Passive cfg s t g) (fut : ∀ y, (s.fut y).cb = some g → t.fut y = s.fut y) : Frame cfg s t g where
  fib := fib
  fut y cb := by
    rw [fut y cb]
    exact .refl ..
  asleep _ w cb := by rw [fut _ cb]
  waits w x cb _ := .inl (by rw [fut _ cb])

theorem Frame.same (fib : t.fib g = s.fib g) (fut : ∀ y, (s.fut y).cb = some g → t.fut y = s.fut y) : Frame cfg s t g :=
  .record (.same (i := (s.fib g).deferIter) fib) fut

/-- While a fiber runs nobody is entered, and what else happens leaves the fiber alone. -/
theorem Frame.trans_same (first : Frame cfg s r g) (running : s.phase = some f) (fib : t.fib g = r.fib g)
    (gone : ∀ x, (r.fib x).state.Over → (t.fib x).state.Over) (fut : ∀ y, (s.fut y).cb = some g → t.fut y = r.fut y) :
    Frame cfg s t g where
  fib := by
    cases first.fib with
    | same eq => exact .same (fib.trans eq)
    | woken own resolved result nudged eq =>
      exact .woken own ((fut _ own).symm ▸ resolved) ((fut _ own).symm ▸ result) nudged (fib.trans eq)
    | marked began eq => exact .marked began (fib ▸ eq)
    | ended before after online eq => exact .ended before after online (fib ▸ eq)
    | born before listed creator =>
      obtain ⟨h, p, fl, i, active, differs, eq⟩ := creator
      exact .born before listed ⟨h, p, fl, i, active, differs, fib.trans eq⟩
    | entered enters =>
      rw [enters.idle] at running
      cases running
  fut y cb := by
    rw [fut y cb, fib]
    exact first.fut y cb
  asleep waits w cb := by
    rw [fut _ cb]
    exact first.asleep (fib ▸ waits) w cb
  waits w x cb target := by
    rw [fut _ cb]
    exact (first.waits w x cb target).imp_right (gone x)

theorem Enters.of_eq (enters : Enters cfg r t g) (fib : r.fib g = s.fib g) (phase : r.phase = s.phase) :
    Enters cfg s t g where
  idle := phase ▸ enters.idle
  active := enters.active
  runs := fib ▸ enters.runs
  fib := fib ▸ enters.fib

/-- What was done before left the fiber alone. -/
theorem Frame.of_eq (later : Frame cfg r t g) (fib : r.fib g = s.fib g)
    (fut : ∀ y, (s.fut y).cb = some g ∨ (r.fut y).cb = some g → r.fut y = s.fut y) (phase : r.phase = s.phase) :
    Frame cfg s t g where
  fib := by
    cases later.fib with
    | same eq =>
      rw [fib] at eq
      exact .same eq
    | woken own resolved result nudged eq =>
      exact .woken (fut _ (.inr own) ▸ own) resolved result (nudged.of_eq fib phase) eq
    | marked began eq =>
      rw [fib] at began eq
      exact .marked began eq
    | ended before after online eq =>
      rw [fib] at before online eq
      exact .ended before after online eq
    | born before listed creator =>
      rw [fib] at before
      rw [phase] at creator
      exact .born before listed creator
    | entered enters => exact .entered (enters.of_eq fib phase)
  fut y cb := by
    have same := fut y (.inl cb)
    rw [← same] at cb ⊢
    exact later.fut y cb
  asleep waits w cb := by
    have same := fut (.wait w) (.inl cb)
    rw [← same] at cb ⊢
    exact later.asleep waits w cb
  waits w x cb target := by
    have same := fut (.wait w) (.inl cb)
    rw [← same] at cb target ⊢
    exact later.waits w x cb target

/-- An io, timer or deadline future has no waiters. -/
theorem Core.alone (core : Core cfg s) (x : E) : (s.fut (.ext x)).waiters = ∅ := by
  obtain blank | used := core.ext x
  · exact blank.waiters
  · exact used.2

section Completing

variable {v : Val} {h : F} (completion : Completion s g v t)

include completion

theorem Completion.waits {w : W} {x : F} (target : w ∈ (s.fut (.fiber g)).waiters → x = g) :
    (t.fut (.wait w)).state = (s.fut (.wait w)).state ∨ (t.fib x).state.Over := by
  by_cases inside : w ∈ (s.fut (.fiber g)).waiters
  · rw [target inside]
    exact .inr (completion.done.elim (fun done => .inr (.inl done.1)) fun freed => .inr (.inr freed.1))
  · refine .inl (congrArg Fut.state (completion.still _ (Id.fiber_ne_wait g w).symm fun v listed same => ?_))
    cases same
    exact inside listed

variable (pending : ∀ w ∈ (s.fut (.fiber g)).waiters, (s.fut (.wait w)).state = .pending)
  (bare : (s.fut (.fiber g)).cb = none)

include pending bare

theorem Completion.later {b : Fib F E W} {y : Id F E W} (cb : (s.fut y).cb = some h) : Fut.Later b (s.fut y) (t.fut y) := by
  by_cases waits : ∃ w ∈ (s.fut (.fiber g)).waiters, y = .wait w
  · obtain ⟨w, inside, rfl⟩ := waits
    rw [completion.settled w inside]
    exact ⟨⟨rfl, rfl, rfl, rfl, rfl⟩, .inr ⟨pending w inside, rfl⟩, rfl, .inl⟩
  · have other : y ≠ .fiber g := by
      rintro rfl
      rw [bare] at cb
      cases cb
    rw [completion.still y other fun w inside same => waits ⟨w, inside, same⟩]
    exact .refl ..

/-- Whoever waits for the fiber that completed is woken, the others are left alone. -/
theorem Completion.frame (differs : h ≠ g)
    (targets : ∀ w x, (s.fut (.wait w)).target = some x → w ∈ (s.fut (.fiber g)).waiters → x = g) : Frame cfg s t h where
  fib := by
    obtain same | ⟨w, waits, cb, nudged⟩ := completion.others h differs
    · exact .same (i := (s.fib h).deferIter) same
    · have settled := completion.settled w waits
      exact .woken (y := .wait w) (i := (t.fib h).deferIter) cb (by rw [settled]) (by rw [settled]) nudged rfl
  fut _ cb := completion.later pending bare cb
  asleep waits w cb := by
    have other : w ∉ (s.fut (.fiber g)).waiters := fun inside => completion.awake w inside h cb waits
    rw [completion.still (.wait w) (Id.fiber_ne_wait g w).symm fun v inside same => ?_]
    cases same
    exact other inside
  waits w x cb target := completion.waits (targets w x target)

end Completing

section Owners

variable (core : Core cfg s)

include core

/-- The future of a fiber resumes nobody. -/
theorem Core.bare (g : F) : (s.fut (.fiber g)).cb = none := by
  by_cases live : s.Alive g
  · exact (core.alive g live).cb
  · exact (core.dead g live).cb

theorem Core.not_fiber {y : Id F E W} (cb : (s.fut y).cb = some f) : y ≠ .fiber g := by
  rintro rfl
  rw [core.bare] at cb
  cases cb

theorem Core.waits {w : W} (inside : w ∈ (s.fut (.fiber g)).waiters) : (s.fut (.wait w)).state = .pending :=
  ((core.waiters g w).mp inside).2

theorem Core.not_free_ext {x : E} (free : (s.fut (.ext x)).kind = .free) {y : Id F E W} (cb : (s.fut y).cb = some g) :
    y ≠ .ext x := by
  rintro rfl
  obtain blank | ⟨onLoop, _⟩ := core.ext x
  · rw [blank.cb] at cb
    cases cb
  · rw [Fut.OnLoop, free] at onLoop
    simp at onLoop

theorem Core.not_free_wait {w : W} (free : (s.fut (.wait w)).kind = .free) {y : Id F E W} (cb : (s.fut y).cb = some g) :
    y ≠ .wait w := by
  rintro rfl
  obtain blank | waiting := core.wait w
  · rw [blank.cb] at cb
    cases cb
  · rw [waiting.kind] at free
    cases free

/-- A future that resumes a fiber is on its stack. -/
theorem Core.owned_of {y : Id F E W} (cb : (s.fut y).cb = some g) : y ∈ (s.fib g).owned := by
  refine (core.scopes.mem g y).mpr ?_
  cases y with
  | fiber h => exact absurd rfl (core.not_fiber (g := h) cb)
  | ext x => exact cb
  | wait w => exact cb

/-- What another fiber owns is none of the futures of `f`. -/
theorem Core.apart {x y : Id F E W} (owned : x ∈ (s.fib f).owned) (cb : (s.fut y).cb = some g) (differs : g ≠ f) :
    y ≠ x := by
  rintro rfl
  exact differs (core.scopes.eq_of_mem (core.owned_of cb) owned)

/-- Whoever is among the waiters of a fiber waits for it. -/
theorem Core.target {w : W} {x : F} (target : (s.fut (.wait w)).target = some x) (inside : w ∈ (s.fut (.fiber g)).waiters) :
    x = g :=
  Option.some.inj (target.symm.trans ((core.waiters g w).mp inside).1)

theorem Cancels.frame [DecidableEq F] (cancels : Cancels s g t) (h : F) : Frame cfg s t h := by
  cases cancels with
  | idle => exact .same rfl fun _ _ => rfl
  | fresh initial completion =>
    have waits : ∀ w ∈ (s.fut (.fiber g)).waiters, (s.fut (.wait w)).state = .pending := fun _ => core.waits
    obtain rfl | differs := eq_or_ne h g
    · have gone := completion.done.imp And.left And.left
      refine ⟨.ended (d := false) (.inl initial) gone nofun ⟨_, _, _, (s.fib h).deferIter, completion.self⟩,
        fun _ cb => completion.later waits (core.bare h) cb, fun sleeps => ?_, fun w x _ target => completion.waits (core.target target)⟩
      obtain done | done := gone <;> rw [done] at sleeps <;> cases sleeps
    · exact completion.frame waits (core.bare g) differs fun w x => core.target
  | marks began =>
    obtain rfl | differs := eq_or_ne h g
    · exact .record (.marked began ⟨_, (s.fib h).deferIter, State.setFib_self ..⟩) fun _ _ => rfl
    · exact .same (State.setFib_of_ne differs _) fun _ _ => rfl

end Owners

end Frame

section Leaving

variable {F E W : Type} [DecidableEq F] {cfg : Config F E W} {s t r : State F E W} {f g : F}

theorem State.setFib_over {h : Fib F E W → Fib F E W} (keeps : ∀ b, (h b).state = b.state) (x : F)
    (gone : (s.fib x).state.Over) : ((s.setFib f h).fib x).state.Over := by
  obtain rfl | differs := eq_or_ne x f
  · rw [State.setFib_self, keeps]
    exact gone
  · rw [State.setFib_of_ne differs]
    exact gone

theorem Decided.frame {v : Val} (decided : Decided cfg r f v t) (before : Frame cfg s r g) (running : s.phase = some f)
    (differs : g ≠ f) : Frame cfg s t g := by
  cases decided with
  | carry => exact before.trans_same running (State.setFib_of_ne differs _) (State.setFib_over fun _ => rfl) fun _ _ => rfl
  | fail =>
    rw [unwindTo, clearOp, State.setFib_setFib]
    exact before.trans_same running (State.setFib_of_ne differs _) (State.setFib_over fun _ => rfl) fun _ _ => rfl

theorem Flagged.frame {F E W : Type} {cfg : Config F E W} {s t : State F E W} (flagged : Flagged s t) (g : F) :
    Frame cfg s t g := by
  rw [flagged.rest]
  exact .same rfl fun _ _ => rfl

/-- The fiber writes its own record. -/
theorem Frame.own (before : Frame cfg s r g) (running : s.phase = some f) (h : Fib F E W → Fib F E W) (differs : g ≠ f)
    (keeps : ∀ b, (h b).state = b.state := by exact fun _ => rfl) : Frame cfg s (r.setFib f h) g :=
  before.trans_same running (State.setFib_of_ne differs h) (State.setFib_over keeps) fun _ _ => rfl

theorem Frame.away {F E W : Type} {cfg : Config F E W} {s t r : State F E W} {f g : F} (before : Frame cfg s r g)
    (running : s.phase = some f) (live : ¬ (r.fib f).state.Over) (differs : g ≠ f) (fib : ∀ h, h ≠ f → t.fib h = r.fib h)
    (fut : t.fut = r.fut) : Frame cfg s t g := by
  refine before.trans_same running (fib g differs) (fun x gone => ?_) fun y _ => by rw [fut]
  rw [fib x]
  · exact gone
  · rintro rfl
    exact live gone

end Leaving

variable {F E W : Type} [DecidableEq F] [DecidableEq E] [DecidableEq W] {cfg : Config F E W} {s t r : State F E W} {f g : F}

theorem Frame.suspend (before : Frame cfg s r g) (running : s.phase = some f) (live : ¬ (r.fib f).state.Over) (differs : g ≠ f) :
    Frame cfg s (switchOut cfg r f .suspended) g := by
  rw [switchOut_suspended]
  exact before.away running live differs (fun h other => Function.update_of_ne other ..) rfl

theorem Frame.ready (fixed : cfg.Fixed) (before : Frame cfg s r g) (running : s.phase = some f) (live : ¬ (r.fib f).state.Over)
    (differs : g ≠ f) : Frame cfg s (switchOut cfg r f .ready) g := by
  rw [switchOut_ready fixed]
  exact before.away running live differs (fun h other => Function.update_of_ne other ..) rfl

theorem Frame.writes (before : Frame cfg s r g) (running : s.phase = some f) {x : Id F E W} (h : Fut F W → Fut F W)
    (apart : ∀ y, (s.fut y).cb = some g → y ≠ x) : Frame cfg s (r.setFut x h) g :=
  before.trans_same running rfl (fun _ => id) fun y cb => State.setFut_of_ne (apart y cb) h

/-- The child on top is released: its record is written if that frees it. -/
theorem Core.frame_released (core : Core cfg s) (before : Frame cfg s r g) (running : s.phase = some f) {k : F} (differs : k ≠ f)
    (ends : (s.fib k).state = .initial ∨ (s.fib k).state = .completed)
    (same : ∃ st v d e fl, r.fib k = { s.fib k with state := st, result := v, deferOn := d, exitOn := e, floating := fl })
    (released : t = r.setFut (.fiber k) (fun v => { v with held := false }) ∨ t = freedFiber r k) : Frame cfg s t g := by
  obtain rfl | rfl := released
  · exact before.writes running _ fun y cb => core.not_fiber cb
  · obtain rfl | apart := eq_or_ne g k
    · obtain ⟨st, v, d, e, fl, same⟩ := same
      have freed : (freedFiber r g).fib g =
          { s.fib g with state := .freed, result := v, deferOn := false, exitOn := false, floating := false } := by
        rw [freedFiber, State.setFib_self, State.setFut_fib, same]
      refine .record (.ended (d := false) ends (.inr rfl) (absurd · Bool.false_ne_true) ⟨_, _, _, (s.fib g).deferIter, freed⟩) fun y cb => ?_
      have owned := core.owned_of cb
      have none : (s.fib g).owned = [] := by
        obtain initial | completed := ends
        · exact core.fresh g initial fun active => differs (Option.some.inj (active.symm.trans running))
        · exact core.ended g (.inr (.inl completed))
      rw [none] at owned
      cases owned
    · refine before.trans_same running ?_ (fun x gone => ?_) fun y cb => Function.update_of_ne (core.not_fiber cb) ..
      · rw [freedFiber, State.setFib_of_ne apart]
        rfl
      · rw [freedFiber]
        obtain rfl | other := eq_or_ne x k
        · rw [State.setFib_self]
          exact .inr (.inr rfl)
        · rw [State.setFib_of_ne other]
          exact gone

/-! ### The actions of another fiber -/

theorem Core.spend {F E W : Type} [DecidableEq F] {cfg : Config F E W} {s : State F E W} (core : Core cfg s) (f : F) :
    Core cfg (spend s f) := core.act rfl rfl rfl

theorem Core.child_done {F E W : Type} {cfg : Config F E W} {s : State F E W} {f k : F} (core : Core cfg s)
    (running : s.phase = some f) (orphan : (s.fib f).creator ≠ .fiber f) (owned : .fiber k ∈ (s.fib f).owned)
    (resolved : (s.fut (.fiber k)).state = .resolved) : k ≠ f ∧ (s.fib k).state = .completed := by
  have child := core.child owned
  refine ⟨?_, ?_⟩
  · rintro rfl
    exact orphan child.2
  · by_contra going
    rw [(core.alive k (core.alive_of_held child.1)).state.mpr going] at resolved
    cases resolved

/-- A fiber that has unwound its stack completes before it switches out. -/
theorem Core.completes (core : Core cfg s) (fixed : cfg.Fixed) (formed : cfg.WellFormed) (running : s.phase = some f) :
    ∃ u, Completion (s.setFib f fun b => { b with state := .completed, mode := .normal, wakeSrc := .none }) f
        (s.fib f).retval u ∧
      switchOut cfg (s.setFib f fun b => { b with mode := .normal }) f .completed =
        { u with phase := none, exiting := false } := by
  have there := core.alive f (core.running_alive running).1
  have pending := there.state.mpr (core.running_alive running).2.1
  refine ⟨_, completeFiber_completion fixed formed pending there.cb (core.answerable _) there.kind, ?_⟩
  rw [switchOut]
  rw [State.setFib_setFib, State.setFib_self]
  rfl

theorem Acts.frame {e : Event F} (step : Acts cfg s f e t) (fixed : cfg.Fixed) (formed : cfg.WellFormed)
    (core : Core cfg s) (doing : Doing s.fut (s.fib f)) (orphan : (s.fib f).creator ≠ .fiber f) (differs : g ≠ f) :
    Frame cfg s t g := by
  have running := step.running
  have calm (can : s.CanOp f) : (s.fib f).Calm := doing.calm can.2.2
  have start : Frame cfg s s g := .same rfl fun _ _ => rfl
  have spent : Frame cfg s (spend s f) g := start.own running _ differs
  have popped {r : State F E W} (before : Frame cfg s r g) : Frame cfg s (popTop r f) g := before.own running _ differs
  have live {r : State F E W} (same : (r.fib f).state = (s.fib f).state) : ¬ (r.fib f).state.Over :=
    same ▸ (core.running f running).live
  have wrote {r : State F E W} {h : Fib F E W → Fib F E W} (here : r.fib f = (spend s f).fib f)
      (keeps : ∀ b, (h b).state = b.state) : ¬ ((r.setFib f h).fib f).state.Over := by
    apply live
    rw [State.setFib_self, keeps, here, spend, State.setFib_self]
  cases step with
  | delivered _ _ _ decided => exact decided.frame (spent.own running _ differs) running differs
  | refused _ _ decided | awaitedDone _ _ _ decided => exact decided.frame spent running differs
  | yields => exact (spent.own running _ differs).ready fixed running (wrote rfl fun _ => rfl) differs
  | bares => exact (spent.own running _ differs).suspend running (wrote rfl fun _ => rfl) differs
  | waitsExt _ _ free =>
    have pushed := (spent.writes running (fun _ => extFut .ext f (s.fib f).prio .ok) fun y cb => core.not_free_ext free cb)
    exact (pushed.own running _ differs).suspend running (wrote rfl fun _ => rfl) differs
  | @waitsFiber k w _ _ _ _ free =>
    have pushed := spent.writes running (fun _ => waitFut f k) fun y cb => core.not_free_wait free cb
    have listed := pushed.writes (x := .fiber k) running (fun u => { u with waiters := insert w u.waiters }) fun y cb =>
      core.not_fiber cb
    exact (listed.own running _ differs).suspend running (wrote rfl fun _ => rfl) differs
  | @spawns k fl can unborn inside =>
    refine Frame.own (Frame.writes ?_ running _ fun y cb => core.not_fiber cb) running _ differs
    obtain rfl | apart := eq_or_ne g k
    · refine .record (.born unborn inside ⟨f, _, _, _, running, differs.symm, State.setFib_self ..⟩) fun y cb => ?_
      have owned := core.owned_of cb
      rw [core.ended g (.inl unborn)] at owned
      cases owned
    · refine .record (.same (i := (s.fib g).deferIter) ?_) fun _ _ => rfl
      exact (State.setFib_of_ne apart _).trans (State.setFib_of_ne differs _)
  | @cancels k can handle =>
    have later := Cancels.frame (core.spend f) ((core.spend f).cancels fixed formed k) g
    exact later.of_eq (State.setFib_of_ne differs _) (fun _ _ => rfl) rfl
  | exits | noTimeout => exact .same (Function.update_of_ne differs ..) fun _ _ => rfl
  | timeout _ free =>
    exact (spent.writes running _ fun y cb => core.not_free_ext free cb).own running _ differs
  | leavesBlock => exact (spent.own running _ differs).own running _ differs
  | rets => exact (start.own running _ differs).own running _ differs
  | resumed _ _ _ flagged decided => exact decided.frame (flagged.frame g) running differs
  | awaited _ op kind _ decided =>
    refine decided.frame ?_ running differs
    obtain ⟨x, rest, top, _, _, step⟩ | ⟨w, h, rest, top, _, _, _, step⟩ :=
      endWait_cases core fixed formed running doing op kind
    all_goals
      rw [step]
      have owned := top ▸ List.mem_cons_self
    · exact (start.writes running _ fun y cb => core.apart owned cb differs).own running _ differs
    · have left := start.writes running (Fut.leave w) (x := .fiber h) fun y cb => core.not_fiber cb
      exact (left.writes running _ fun y cb => core.apart owned cb differs).own running _ differs
  | absorbed => exact start.suspend running (live rfl) differs
  | cwuWaits =>
    refine (start.own running _ differs).suspend running (live ?_) differs
    rw [State.setFib_self]
  | @cwuEnds k _ cwu target resolved =>
    obtain ⟨w, rest, r, u, _, wait, top, _, _, rfl, released, step⟩ :=
      endCwu_cases core fixed formed running doing cwu target resolved
    rw [step]
    have owned : (s.fib f).owned = .wait w :: .fiber k :: rest := by
      rw [Fib.owned, wait, top]
      rfl
    have left := start.writes running (Fut.leave w) (x := .fiber k) fun y cb => core.not_fiber cb
    have freed := left.writes running (fun _ => freeFut) fun y cb =>
      core.apart (x := .wait w) (owned ▸ List.mem_cons_self) cb differs
    obtain ⟨apart, completed⟩ := core.child_done running orphan
      (owned ▸ List.mem_cons_of_mem _ List.mem_cons_self) resolved
    exact (core.frame_released freed running apart (.inr completed) ⟨_, _, _, _, _, rfl⟩ released).own running _ differs
  | completes =>
    obtain ⟨u, completion, done⟩ := core.completes fixed formed running
    have later : Frame cfg _ u g := completion.frame (fun _ => core.waits) (core.bare f) differs fun w x => core.target
    rw [done]
    have before : Frame cfg s u g := later.of_eq (State.setFib_of_ne differs _) (fun _ _ => rfl) rfl
    exact before.trans_same running rfl (fun _ => id) fun _ _ => rfl
  | blockLeft => exact start.own running _ differs
  | @frees x rest _ _ none top other =>
    apply popped
    have calm := doing.calm none
    cases x with
    | fiber k => exact absurd rfl (other k)
    | wait w => exact absurd (top ▸ List.mem_cons_self) (calm.2 w)
    | ext x =>
      have owned : .ext x ∈ (s.fib f).owned := calm.owned ▸ top ▸ List.mem_cons_self
      rw [cwuSync_ext fixed formed (core.owns running owned other)]
      exact start.writes running _ fun y cb => core.apart owned cb differs
  | @freesDone k _ _ _ none top resolved =>
    have owned : .fiber k ∈ (s.fib f).owned := (doing.calm none).owned ▸ top ▸ List.mem_cons_self
    obtain ⟨apart, completed⟩ := core.child_done running orphan owned resolved
    exact popped (core.frame_released start running apart (.inr completed) ⟨_, _, _, _, _, rfl⟩
      (unref_fiber cfg resolved completed))
  | @freesFresh k _ _ _ none top pending resolved =>
    have owned : .fiber k ∈ (s.fib f).owned := (doing.calm none).owned ▸ top ▸ List.mem_cons_self
    have apart : k ≠ f := by
      rintro rfl
      exact orphan (core.child owned).2
    have cancels := core.cancels fixed formed k
    have cancelled := core.cancel fixed formed (g := k) fun active => apart (Option.some.inj (active.symm.trans running))
    obtain ⟨same, phase⟩ := cancels.running core running apart.symm
    obtain ⟨_, completed⟩ := cancelled.child_done (phase.trans running) (same ▸ orphan) (same ▸ owned) resolved
    have before := Cancels.frame core cancels g
    have released := unref_fiber cfg resolved completed
    generalize cancel cfg s k = r at cancels resolved before released
    cases cancels with
    | idle | marks => cases pending.symm.trans resolved
    | fresh initial completion =>
      exact popped (core.frame_released before running apart (.inl initial) ⟨_, _, _, _, _, completion.self⟩ released)
  | @cwuFast k _ _ _ _ none top callback =>
    have owned : .fiber k ∈ (s.fib f).owned := (doing.calm none).owned ▸ top ▸ List.mem_cons_self
    have bare := (core.alive k (core.alive_of_held (core.child owned).1)).cb
    rw [(core.cancels fixed formed k).cb bare] at callback
    cases callback
  | @cwuBegins k w _ _ _ none top pending still free =>
    have owned : .fiber k ∈ (s.fib f).owned := (doing.calm none).owned ▸ top ▸ List.mem_cons_self
    have apart : f ≠ k := by
      rintro rfl
      exact orphan (core.child owned).2
    have cancels := core.cancels fixed formed k
    have pushed := (Cancels.frame core cancels g).writes running (fun _ => waitFut f k) fun y cb => core.not_free_wait free cb
    have listed := pushed.writes (x := .fiber k) running (fun u => { u with waiters := insert w u.waiters }) fun y cb =>
      core.not_fiber cb
    refine (listed.own running _ differs).suspend running (live ?_) differs
    rw [State.setFib_self]
    change ((cancel cfg s k).fib f).state = (s.fib f).state
    rw [(cancels.running core running apart).1]

/-! ### The turns of the loop -/

section Loop

variable {F E W : Type} {cfg : Config F E W} {s t r : State F E W} {f g : F}

/-- The futures are renumbered or marked as observed. -/
structure Fut.Beside (u v : Fut F W) : Prop where
  same : u.Same v
  value : v.state = u.state ∧ v.result = u.result
  fireResult : v.fireResult = u.fireResult
  dropped : v.dropped = u.dropped

theorem Fut.Beside.refl (u : Fut F W) : u.Beside u := ⟨.refl u, ⟨rfl, rfl⟩, rfl, rfl⟩

theorem Fut.Same.trans {u v w : Fut F W} (first : u.Same v) (second : v.Same w) : u.Same w where
  kind := second.kind.trans first.kind
  cb := second.cb.trans first.cb
  waiters := second.waiters.trans first.waiters
  target := second.target.trans first.target
  held := second.held.trans first.held

theorem Fut.Later.beside {b c : Fib F E W} {u v w : Fut F W} (later : Fut.Later b u v) (beside : v.Beside w)
    (state : c.state = b.state) (result : c.result = b.result) : Fut.Later c u w where
  same := later.same.trans beside.same
  value := by
    rw [beside.value.1, beside.value.2]
    exact later.value
  fireResult := beside.fireResult.trans later.fireResult
  dropped := by
    rw [beside.dropped, state, result]
    exact later.dropped

theorem Fut.Beside.later {b : Fib F E W} {u v w : Fut F W} (beside : u.Beside v) (later : Fut.Later b v w) :
    Fut.Later b u w where
  same := beside.same.trans later.same
  value := by
    rw [← beside.value.1, ← beside.value.2]
    exact later.value
  fireResult := later.fireResult.trans beside.fireResult
  dropped := by
    rw [← beside.fireResult, ← beside.dropped]
    exact later.dropped

theorem norm_beside [DecidableEq F] [DecidableEq E] (cfg : Config F E W) (s : State F E W) (y : Id F E W) : (s.fut y).Beside ((s.norm cfg).fut y) := by
  rw [State.norm]
  cases y with
  | fiber | wait => exact .refl _
  | ext y =>
    dsimp only
    split
    · exact ⟨⟨rfl, rfl, rfl, rfl, rfl⟩, ⟨rfl, rfl⟩, rfl, rfl⟩
    · exact .refl _

theorem norm_fib [DecidableEq F] [DecidableEq E] (cfg : Config F E W) (s : State F E W) (g : F) :
    ∃ i, (s.norm cfg).fib g = { s.fib g with deferIter := i } := by
  rw [State.norm]
  dsimp only
  split
  · exact ⟨_, rfl⟩
  · exact ⟨_, rfl⟩

theorem observe_beside [DecidableEq E] (cfg : Config F E W) (s : State F E W) (i : ℕ) (y : Id F E W) :
    (s.fut y).Beside ((s.observe cfg i).fut y) := by
  rw [State.observe]
  cases y with
  | fiber | wait => exact .refl _
  | ext y =>
    dsimp only
    split
    · exact ⟨⟨rfl, rfl, rfl, rfl, rfl⟩, ⟨rfl, rfl⟩, rfl, rfl⟩
    · exact .refl _

theorem Enters.norm [DecidableEq F] [DecidableEq E] (enters : Enters cfg s t g) : Enters cfg s (t.norm cfg) g := by
  obtain ⟨i, eq⟩ := norm_fib cfg t g
  obtain ⟨d, e, _, source, fib⟩ := enters.fib
  exact ⟨enters.idle, enters.active, enters.runs, d, e, i, source, by rw [eq, fib]⟩

theorem Frame.norm [DecidableEq F] [DecidableEq E] (before : Frame cfg s t g) : Frame cfg s (t.norm cfg) g := by
  obtain ⟨i, eq⟩ := norm_fib cfg t g
  refine ⟨?_, fun y cb => ?_, fun waits w cb => ?_, fun w x cb target => ?_⟩
  · cases before.fib with
    | same fib => exact .same (i := i) (by rw [eq, fib])
    | @woken y _ _ _ own resolved result nudged fib =>
      have beside := (norm_beside cfg t y).value
      exact .woken (i := i) own (beside.1.trans resolved) (beside.2.trans result) nudged (by rw [eq, fib])
    | marked began fib =>
      obtain ⟨d, _, fib⟩ := fib
      exact .marked began ⟨d, i, by rw [eq, fib]⟩
    | ended ends after online fib =>
      obtain ⟨v, e, fl, _, fib⟩ := fib
      exact .ended ends after online ⟨v, e, fl, i, by rw [eq, fib]⟩
    | born unborn listed creator =>
      obtain ⟨f, p, fl, _, active, differs, fib⟩ := creator
      refine .born unborn listed ⟨f, p, fl, i, active, differs, ?_⟩
      rw [eq, fib]
      rfl
    | entered enters => exact .entered enters.norm
  · rw [eq]
    exact (before.fut y cb).beside (norm_beside cfg t y) rfl rfl
  · rw [eq] at waits
    exact (norm_beside cfg t (.wait w)).value.1.trans (before.asleep waits w cb)
  · obtain ⟨j, same⟩ := norm_fib cfg t x
    rw [same]
    exact (before.waits w x cb target).imp_left (norm_beside cfg t (.wait w)).value.1.trans

/-- The exit source runs a fiber that is cancelled. -/
theorem Enters.exit [DecidableEq F] (idle : s.phase = none) (cancelled : (s.fib g).state = .cancelled) :
    Enters cfg s (Fiber.enter cfg { s.exits.setFib g fun b => { b with exitOn := false } with exiting := true } g true) g := by
  refine ⟨idle, rfl, .inr (.inr cancelled), (s.fib g).deferOn, false, (s.fib g).deferIter, .inr ⟨cancelled, rfl⟩, ?_⟩
  have entered : (Fiber.enter cfg { s.exits.setFib g fun b => { b with exitOn := false } with exiting := true } g true).fib g =
      Fib.entered cfg ((s.exits.setFib g fun b => { b with exitOn := false }).fib g) := State.setFib_self ..
  rw [entered, State.setFib_self]
  rfl

theorem Enters.defer [DecidableEq F] (idle : s.phase = none) (runs : (s.fib g).state.Runs) (i : ℕ) :
    Enters cfg s (Fiber.enter cfg (s.setFib g fun b => { b with deferOn := false, deferIter := i }) g false) g := by
  refine ⟨idle, rfl, runs, false, (s.fib g).exitOn, i, .inl ⟨rfl, rfl⟩, ?_⟩
  have entered : (Fiber.enter cfg (s.setFib g fun b => { b with deferOn := false, deferIter := i }) g false).fib g =
      Fib.entered cfg ((s.setFib g fun b => { b with deferOn := false, deferIter := i }).fib g) := State.setFib_self ..
  rw [entered, State.setFib_self]
  rfl

theorem Frame.of_waited [DecidableEq E] (later : Frame cfg (s.waited cfg) t g) : Frame cfg s t g := by
  have beside := observe_beside cfg { s with iter := s.iter + 1, exitReq := false } (s.iter + 1)
  refine ⟨?_, fun y cb => (beside y).later (later.fut y ((beside y).same.cb.trans cb)), later.asleep, later.waits⟩
  cases later.fib with
  | same fib => exact .same fib
  | woken own resolved result nudged fib =>
    exact .woken ((beside _).same.cb.symm.trans own) resolved result (nudged.of_eq rfl rfl) fib
  | marked began fib => exact .marked began fib
  | ended ends after online fib => exact .ended ends after online fib
  | born unborn listed creator => exact .born unborn listed creator
  | entered enters => exact .entered (enters.of_eq rfl rfl)

end Loop

theorem Drops.self {src : Id F E W} {v : Val} {fut : Id F E W → Fut F W} (drops : Drops s g v src fut) :
    (fut src).state = (s.fut src).state ∧ (fut src).fireResult = (s.fut src).fireResult := by
  cases drops with
  | none => exact ⟨rfl, rfl⟩
  | drop =>
    rw [Function.update_self]
    exact ⟨rfl, rfl⟩

/-- A deadline that was dropped found its fiber queued, and with an error. -/
theorem Drops.later {x : E} {v : Val} {b : Fib F E W} {fut : Id F E W → Fut F W} (drops : Drops s g v (.ext x) fut)
    (idle : s.phase = Option.none) (nudged : Nudged s g v (.future (.ext x)) b) (dropped : (fut (.ext x)).dropped = true) :
    (s.fut (.ext x)).dropped = true ∨ b.state = .ready ∧ (v ≠ .ok → b.result ≠ .ok) := by
  cases drops with
  | none => exact .inl dropped
  | drop _ queued late =>
    refine .inr ?_
    have error (bad : v ≠ .ok) : (s.fib g).result ≠ .ok := by
      refine (late bad).resolve_left ?_
      rw [idle]
      nofun
    cases nudged with
    | same => exact ⟨queued, error⟩
    | woken _ waits =>
      rw [queued] at waits
      cases waits
    | kept _ _ none bad => exact absurd none (error bad)

/-- The fiber that waits for the event is woken. -/
theorem Expires.frame {x : E} (expires : Expires s x t) (alone : (s.fut (.ext x)).waiters = ∅) (idle : s.phase = none) (g : F) :
    Frame cfg s t g := by
  refine ⟨?_, fun y cb => ?_, fun _ w _ => by rw [expires.fut (Id.ext_ne_wait x w).symm],
    fun w y _ _ => .inl (by rw [expires.fut (Id.ext_ne_wait x w).symm])⟩
  · obtain same | ⟨cb, nudged⟩ := expires.fib g
    · exact .same (i := (s.fib g).deferIter) same
    · obtain same | ⟨resolved, result⟩ := expires.value cb
      · exact .same (i := (s.fib g).deferIter) same
      · exact .woken (i := (t.fib g).deferIter) cb resolved result nudged rfl
  · obtain rfl | differs := eq_or_ne y (.ext x)
    · have same := expires.self alone
      have self : (s.setFut (.ext x) Fut.expired).fut (.ext x) = (s.fut (.ext x)).expired := State.setFut_self ..
      cases expires with
      | late =>
        refine ⟨same, .inl ?_, ?_, ?_⟩ <;> rw [State.setFut_self]
        · exact ⟨rfl, rfl⟩
        · exact .inl
      | alone none =>
        rw [none] at cb
        cases cb
      | @wakes k b fut pending cb' nudged drops =>
        obtain rfl : k = g := Option.some.inj (cb'.symm.trans cb)
        have later := drops.later idle (nudged.of_eq rfl rfl)
        obtain ⟨state, fireResult⟩ := drops.self
        rw [self] at later state fireResult
        dsimp only at same ⊢
        rw [Function.update_self]
        exact ⟨same, .inr ⟨pending, state⟩, fireResult, later⟩
    · rw [expires.fut differs]
      exact .refl ..

/-- Only a flag or a counter of the loop changes afterwards. -/
theorem Frame.passes {F E W : Type} {cfg : Config F E W} {s r t : State F E W} {g : F} (before : Frame cfg s r g)
    (fib : t.fib = r.fib) (fut : t.fut = r.fut) (phase : t.phase = r.phase) (exitReq : t.exitReq = r.exitReq) :
    Frame cfg s t g where
  fib := by
    cases before.fib with
    | same eq => exact .same (fib ▸ eq)
    | woken own resolved result nudged eq => exact .woken own (fut ▸ resolved) (fut ▸ result) nudged (fib ▸ eq)
    | marked began eq => exact .marked began (fib ▸ eq)
    | ended ends after online eq => exact .ended ends after online (fib ▸ eq)
    | born unborn listed creator => exact .born unborn listed (fib ▸ creator)
    | entered enters =>
      exact .entered ⟨enters.idle, phase.trans enters.active, enters.runs, by rw [exitReq, fib]; exact enters.fib⟩
  fut y cb := by
    rw [fib, fut]
    exact before.fut y cb
  asleep waits w cb := by
    rw [fut]
    exact before.asleep (fib ▸ waits) w cb
  waits w x cb target := by
    rw [fut, fib]
    exact before.waits w x cb target

theorem Turns.frame (step : Turns cfg s t) (fixed : cfg.Fixed) (formed : cfg.WellFormed) (core : Core cfg s)
    (ready : ∀ g, s.exitReq = false → (s.fib g).deferOn = true → (s.fib g).state.Runs) (g : F) : Frame cfg s t g := by
  cases step with
  | finishes | mainExits => exact .same rfl fun _ _ => rfl
  | @exitTurn k idle _ armed =>
    apply Frame.norm
    set r : State F E W := { s.exits.setFib k fun b => { b with exitOn := false } with exiting := true } with taken
    have here : r.fib k = { s.fib k with exitOn := false } := Function.update_self ..
    have there (differs : g ≠ k) : r.fib g = s.fib g := Function.update_of_ne differs ..
    rw [Fiber.exitTurn]
    dsimp only
    rw [← taken]
    split_ifs with completed going
    · obtain rfl | differs := eq_or_ne g k
      · refine .record (.ended (.inr completed) (.inl completed) (fun on => ⟨completed, on⟩) ?_) fun _ _ => rfl
        exact ⟨(s.fib g).result, false, (s.fib g).floating, (s.fib g).deferIter, here⟩
      · exact .same (there differs) fun _ _ => rfl
    · have core' : Core cfg r := core.exits k
      have cancels := core'.cancels fixed formed k
      have phase : r.phase = s.phase := rfl
      have fut : r.fut = s.fut := rfl
      clear_value r
      generalize cancel cfg r k = u at cancels
      refine Frame.passes (r := u) ?_ rfl rfl rfl rfl
      obtain rfl | differs := eq_or_ne g k
      · cases cancels with
        | idle ended =>
          rw [State.Alive, here] at ended
          exact absurd ended (not_or.mpr ⟨not_not_intro armed.1, not_or.mpr ⟨completed, going⟩⟩)
        | fresh initial completion =>
          have ends := completion.self
          rw [here] at initial ends
          have gone := completion.done.imp And.left And.left
          refine ⟨.ended (d := false) (.inl initial) gone (absurd · Bool.false_ne_true) ⟨_, _, _, (s.fib g).deferIter, ends⟩, fun y cb => ?_,
            fun sleeps => ?_, fun w x _ target => ?_⟩
          · rw [← fut] at cb ⊢
            exact completion.later (fun _ => core'.waits) (core'.bare g) cb
          · obtain done | done := gone <;> rw [done] at sleeps <;> cases sleeps
          · rw [← fut] at target ⊢
            exact completion.waits (core'.target target)
        | marks began =>
          rw [here] at began
          refine .record (.marked began ⟨(s.fib g).deferOn || !r.exiting, (s.fib g).deferIter, ?_⟩) fun y _ => ?_
          · rw [marked, State.setFib_self, here]
          · rw [← fut]
            rfl
      · exact (Cancels.frame core' cancels g).of_eq (there differs) (fun _ _ => by rw [fut]) phase
    · obtain rfl | differs := eq_or_ne g k
      · exact .record (.entered (.exit idle (not_not.mp going))) fun _ _ => rfl
      · refine .same ?_ fun _ _ => rfl
        have entered : (Fiber.enter cfg r k true).fib g = r.fib g := State.setFib_of_ne differs _
        exact entered.trans (there differs)
  | @deferTurn k idle _ exit online =>
    apply Frame.norm
    apply Frame.of_waited
    set r := s.waited cfg with begun
    rw [Fiber.deferTurn]
    split_ifs with completed runs
    · obtain rfl | differs := eq_or_ne g k
      · refine .record (.ended (d := false) (.inr completed) (.inl completed) (absurd · Bool.false_ne_true) ?_) fun _ _ => rfl
        exact ⟨(s.fib g).result, (s.fib g).exitOn, (s.fib g).floating, r.iter, State.setFib_self ..⟩
      · exact .same (State.setFib_of_ne differs _) fun _ _ => rfl
    · obtain rfl | differs := eq_or_ne g k
      · exact .record (.entered (.defer (s := r) idle runs r.iter)) fun _ _ => rfl
      · refine .same ?_ fun _ _ => rfl
        have entered : (Fiber.enter cfg (r.setFib k fun b => { b with deferOn := false, deferIter := r.iter }) k false).fib g =
            (r.setFib k fun b => { b with deferOn := false, deferIter := r.iter }).fib g := State.setFib_of_ne differs _
        exact entered.trans (State.setFib_of_ne differs _)
    · exact absurd (ready k exit online.2) runs
  | @extTurn x idle =>
    apply Frame.norm
    apply Frame.of_waited
    exact (core.waited.expires fixed formed x).frame (core.waited.alone x) idle g
  | @fires x =>
    refine ⟨.same (i := (s.fib g).deferIter) rfl, fun y _ => ?_,
      fun _ w _ => by rw [State.setFut_of_ne (Id.ext_ne_wait x w).symm],
      fun w y _ _ => .inl (by rw [State.setFut_of_ne (Id.ext_ne_wait x w).symm])⟩
    obtain rfl | differs := eq_or_ne y (.ext x)
    · rw [State.setFut_self]
      exact ⟨⟨rfl, rfl, rfl, rfl, rfl⟩, .inl ⟨rfl, rfl⟩, rfl, .inl⟩
    · rw [State.setFut_of_ne differs]
      exact .refl ..
  | @mainCancels k t idle _ _ _ _ rest =>
    have before := Cancels.frame core (core.cancels fixed formed k) g
    rw [rest]
    exact before.passes rfl rfl rfl rfl
  | stays => exact .same rfl fun _ _ => rfl

/-- A fiber that runs ran before, or the loop entered it. -/
def Stepped {F E W : Type} (cfg : Config F E W) (s t : State F E W) (g : F) : Prop :=
  t.phase = some g → s.phase = some g ∧ t.fib g = s.fib g ∨ Enters cfg s t g

theorem Cancels.rest {F E W : Type} [DecidableEq F] {s r : State F E W} {k : F} (cancels : Cancels s k r) :
    r = { s with fib := r.fib, fut := r.fut } := by
  cases cancels with
  | idle | marks => rfl
  | fresh _ completion => exact completion.rest

theorem Turns.stepped (step : Turns cfg s t) (fixed : cfg.Fixed) (formed : cfg.WellFormed) (core : Core cfg s)
    (ready : ∀ g, s.exitReq = false → (s.fib g).deferOn = true → (s.fib g).state.Runs) (g : F) : Stepped cfg s t g := by
  intro active
  cases step with
  | finishes idle =>
    rw [idle] at active
    cases active
  | @exitTurn k idle _ armed =>
    rw [Fiber.exitTurn] at active ⊢
    dsimp only at active ⊢
    split_ifs at active ⊢ with completed going
    · rw [State.norm] at active
      cases idle.symm.trans active
    · have phase := congrArg State.phase ((core.exits k).cancels fixed formed k).rest
      cases idle.symm.trans (phase.symm.trans active)
    · obtain rfl : k = g := Option.some.inj active
      exact .inr (Enters.exit idle (not_not.mp going)).norm
  | @deferTurn k idle _ exit online =>
    rw [Fiber.deferTurn] at active ⊢
    split_ifs at active ⊢ with completed runs
    · cases idle.symm.trans active
    · obtain rfl : k = g := Option.some.inj active
      have enters : Enters cfg (s.waited cfg) (Fiber.enter cfg _ k false) k :=
        .defer (s := s.waited cfg) idle runs (s.waited cfg).iter
      exact .inr (enters.of_eq (s := s) rfl rfl).norm
    · exact absurd (ready k exit online.2) runs
  | @extTurn x idle =>
    have phase := (core.waited.expires fixed formed x).phase
    cases idle.symm.trans (phase.symm.trans active)
  | fires | mainExits | stays => exact .inl ⟨active, rfl⟩
  | @mainCancels k _ idle _ _ _ _ rest =>
    rw [rest] at active
    have phase := congrArg State.phase (core.cancels fixed formed k).rest
    cases idle.symm.trans (phase.symm.trans active)

end LinuxTla.Fiber
