import LinuxTla.Fiber.Basic

/-! What resuming, resolving, completing and cancelling can change when every fix is in
place: one description for each, which is all that the invariants use of them. -/

namespace LinuxTla.Fiber

variable {F E W : Type} {cfg : Config F E W} {s t : State F E W}

theorem Id.fiber_ne_wait (g : F) (w : W) : (.fiber g : Id F E W) ≠ .wait w := nofun

theorem Id.fiber_ne_ext (g : F) (x : E) : (.fiber g : Id F E W) ≠ .ext x := nofun

theorem Id.ext_ne_wait (x : E) (w : W) : (.ext x : Id F E W) ≠ .wait w := nofun

section Relations

/-- What a future that resolved with `v` does to the fiber it resumes. -/
inductive Nudged (s : State F E W) (g : F) (v : Val) (src : Source F E W) : Fib F E W → Prop
  | same : Nudged s g v src (s.fib g)
  | woken (deferOn : Bool) (waits : (s.fib g).state = .suspended) :
      Nudged s g v src
        { s.fib g with state := .ready, result := v, wakeSrc := src, deferOn := deferOn, exitOn := true }
  | kept (queued : (s.fib g).state = .ready) (away : s.phase ≠ some g) (none : (s.fib g).result = .ok) (error : v ≠ .ok) :
      Nudged s g v src { s.fib g with result := v, wakeSrc := src }

/-- The wait futures `ws` resolve with `v`. -/
structure Resolved (s : State F E W) (ws : Finset W) (v : Val) (t : State F E W) : Prop where
  settled : ∀ w ∈ ws, t.fut (.wait w) = { s.fut (.wait w) with state := .resolved, result := v }
  other : ∀ x, (∀ w ∈ ws, x ≠ .wait w) → t.fut x = s.fut x
  fib : ∀ g, t.fib g = s.fib g ∨
    ∃ w ∈ ws, (s.fut (.wait w)).cb = some g ∧ Nudged s g v (.future (.wait w)) (t.fib g)
  awake : ∀ w ∈ ws, ∀ g, (s.fut (.wait w)).cb = some g → (t.fib g).state ≠ .suspended
  rest : t = { s with fib := t.fib, fut := t.fut }

namespace Resolved

theorem none (v : Val) : Resolved s ∅ v s where
  settled := by simp
  other _ _ := rfl
  fib _ := .inl rfl
  awake := by simp
  rest := rfl

variable {ws : Finset W} {v : Val} (resolved : Resolved s ws v t)

include resolved

/-- Only the state and the result of a wait future change. -/
theorem fut (x : Id F E W) : t.fut x = s.fut x ∨ t.fut x = { s.fut x with state := .resolved, result := v } := by
  by_cases waiter : ∃ w ∈ ws, x = .wait w
  · obtain ⟨w, inside, rfl⟩ := waiter
    exact .inr (resolved.settled w inside)
  · exact .inl (resolved.other x fun w inside same => waiter ⟨w, inside, same⟩)

theorem cb (x : Id F E W) : (t.fut x).cb = (s.fut x).cb := by
  obtain same | settled := resolved.fut x
  · rw [same]
  · rw [settled]

theorem phase : t.phase = s.phase := by rw [resolved.rest]

/-- A fiber that is neither suspended nor queued is left alone. -/
theorem fib_eq {g : F} (running : (s.fib g).state ≠ .suspended) (idle : (s.fib g).state ≠ .ready) :
    t.fib g = s.fib g := by
  obtain same | ⟨_, _, _, nudged⟩ := resolved.fib g
  · exact same
  · generalize t.fib g = b at nudged
    cases nudged with
    | same => rfl
    | woken _ waits => exact absurd waits running
    | kept queued => exact absurd queued idle

/-- One more waiter: a fiber that was resumed with `v` is not resumed with `v` again. -/
theorem cons [DecidableEq W] {w : W} {before : State F E W} (one : Resolved before {w} v s) :
    Resolved before (insert w ws) v t where
  settled x inside := by
    by_cases later : x ∈ ws
    · rw [resolved.settled x later]
      obtain same | settled := one.fut (.wait x)
      · rw [same]
      · rw [settled]
    · have same : x = w := (Finset.mem_insert.mp inside).resolve_right later
      subst same
      rw [resolved.other, one.settled x (Finset.mem_singleton_self x)]
      exact fun y later' h => later (Id.wait.inj h ▸ later')
  other x apart := by
    rw [resolved.other x fun y later => apart y (Finset.mem_insert_of_mem later), one.other]
    intro y single
    rw [Finset.mem_singleton.mp single]
    exact apart w (Finset.mem_insert_self w ws)
  fib g := by
    obtain before' | ⟨x, single, owner, nudged⟩ := one.fib g
    · obtain after | ⟨y, later, owner', nudged'⟩ := resolved.fib g
      · exact .inl (after.trans before')
      · refine .inr ⟨y, Finset.mem_insert_of_mem later, (one.cb _) ▸ owner', ?_⟩
        generalize t.fib g = b at nudged'
        cases nudged' with
        | same => exact before' ▸ .same
        | woken d waits =>
          rw [before'] at waits ⊢
          exact .woken d waits
        | kept queued away none error =>
          rw [before'] at queued none ⊢
          exact .kept queued (one.phase ▸ away) none error
    · have member : x ∈ insert w ws := (Finset.mem_singleton.mp single) ▸ Finset.mem_insert_self w ws
      obtain after | ⟨y, later, owner', nudged'⟩ := resolved.fib g
      · exact .inr ⟨x, member, owner, after ▸ nudged⟩
      · have owner'' := (one.cb (.wait y)) ▸ owner'
        generalize t.fib g = b at nudged' ⊢
        cases nudged' with
        | same => exact .inr ⟨x, member, owner, nudged⟩
        | woken d waits =>
          generalize s.fib g = c at nudged waits ⊢
          cases nudged with
          | same => exact .inr ⟨y, Finset.mem_insert_of_mem later, owner'', .woken d waits⟩
          | woken => cases waits
          | kept queued =>
            dsimp only at waits
            rw [queued] at waits
            cases waits
        | kept queued away none error =>
          generalize s.fib g = c at nudged queued none ⊢
          cases nudged with
          | same =>
            exact .inr ⟨y, Finset.mem_insert_of_mem later, owner'', .kept queued (one.phase ▸ away) none error⟩
          | woken => exact absurd none error
          | kept => exact absurd none error
  awake x inside g owner := by
    by_cases later : x ∈ ws
    · exact resolved.awake x later g ((one.cb _).trans owner)
    · have same : x = w := (Finset.mem_insert.mp inside).resolve_right later
      have before' := one.awake x (same ▸ Finset.mem_singleton_self x) g owner
      obtain after | ⟨y, _, _, nudged⟩ := resolved.fib g
      · rwa [after]
      · generalize t.fib g = b at nudged
        cases nudged with
        | same => exact before'
        | woken => nofun
        | kept => exact before'
  rest := by
    rw [resolved.rest, one.rest]

end Resolved

theorem Resolved.eq {v : Val} (resolved : Resolved s ∅ v t) : t = s := by
  have fib : t.fib = s.fib := funext fun g => (resolved.fib g).resolve_right (by simp)
  have fut : t.fut = s.fut := funext fun x => resolved.other x (by simp)
  rw [resolved.rest, fib, fut]

end Relations

@[simp] theorem State.setFib_setFib [DecidableEq F] (g : F) (h h' : Fib F E W → Fib F E W) :
    (s.setFib g h).setFib g h' = s.setFib g (h' ∘ h) := by
  simp only [State.setFib, Function.update_self, Function.update_idem, Function.comp_apply]

theorem arm_eq [DecidableEq F] (fixed : cfg.Fixed) (g : F) :
    arm cfg s g = s.setFib g fun b => { b with deferOn := b.deferOn || !s.exiting, exitOn := true } := by
  simp only [arm, fixed.exitArmed, Bool.or_true]

theorem State.setFut_self [DecidableEq F] [DecidableEq E] [DecidableEq W] (x : Id F E W) (h : Fut F W → Fut F W) :
    (s.setFut x h).fut x = h (s.fut x) := Function.update_self ..

theorem State.setFut_of_ne [DecidableEq F] [DecidableEq E] [DecidableEq W] {x y : Id F E W} (apart : y ≠ x)
    (h : Fut F W → Fut F W) : (s.setFut x h).fut y = s.fut y := Function.update_of_ne apart ..

theorem State.setFib_self [DecidableEq F] (g : F) (h : Fib F E W → Fib F E W) :
    (s.setFib g h).fib g = h (s.fib g) := Function.update_self ..

theorem State.setFib_of_ne [DecidableEq F] {g f : F} (apart : f ≠ g) (h : Fib F E W → Fib F E W) :
    (s.setFib g h).fib f = s.fib f := Function.update_of_ne apart ..

/-! ### Resuming and resolving -/

variable [DecidableEq F] [DecidableEq E] [DecidableEq W]

/-- A deadline that expires while the fiber is queued with an error is dropped. -/
inductive Drops (s : State F E W) (g : F) (v : Val) (src : Id F E W) : (Id F E W → Fut F W) → Prop
  | none : Drops s g v src s.fut
  | drop (deadline : s.IsDeadline src) (queued : (s.fib g).state = .ready)
      (late : v ≠ .ok → s.phase = some g ∨ (s.fib g).result ≠ .ok) :
      Drops s g v src (Function.update s.fut src { s.fut src with dropped := true })

theorem resume_cases (fixed : cfg.Fixed) {g : F} (v : Val) (src : Id F E W)
    (alive : (s.fut (.fiber g)).kind = .fiber) :
    ∃ b fut, Nudged s g v (.future src) b ∧ Drops s g v src fut ∧ b.state ≠ .suspended ∧
      resume cfg s g v src = { s with fib := Function.update s.fib g b, fut := fut } := by
  have same : Function.update s.fib g (s.fib g) = s.fib := Function.update_eq_self ..
  rw [resume, if_neg (not_not_intro alive)]
  split_ifs with waits sticky drop
  · refine ⟨_, _, .woken ((s.fib g).deferOn || !s.exiting) waits, .none, nofun, ?_⟩
    rw [arm_eq fixed, State.setFib_setFib]
    rfl
  · exact ⟨_, _, .kept sticky.2.1 sticky.2.2.1 sticky.2.2.2.1 sticky.2.2.2.2, .none, waits, rfl⟩
  · have late (error : v ≠ .ok) : s.phase = some g ∨ (s.fib g).result ≠ .ok := by
      by_contra early
      rw [not_or, not_not] at early
      exact sticky ⟨fixed.stickyError, drop.2, early.1, early.2, error⟩
    exact ⟨_, _, .same, .drop drop.1 drop.2 late, waits, by rw [same, State.setFut]⟩
  · exact ⟨_, _, .same, .none, waits, by rw [same]⟩

/-- The fibers that the futures `ws` resume are there. -/
def Answerable (s : State F E W) (ws : Finset W) : Prop :=
  ∀ w ∈ ws, ∀ g, (s.fut (.wait w)).cb = some g → (s.fut (.fiber g)).kind = .fiber

theorem resolveWaiter_resolved (fixed : cfg.Fixed) {v : Val} {w : W} (there : Answerable s {w}) :
    Resolved s {w} v (resolveWaiter cfg v s w) := by
  have settled : ∀ x ∈ ({w} : Finset W), Function.update s.fut (.wait w) { s.fut (.wait w) with state := .resolved, result := v }
      (.wait x) = { s.fut (.wait x) with state := .resolved, result := v } := by
    intro x single
    rw [Finset.mem_singleton.mp single, Function.update_self]
  have other : ∀ x, (∀ y ∈ ({w} : Finset W), x ≠ .wait y) →
      Function.update s.fut (.wait w) { s.fut (.wait w) with state := .resolved, result := v } x = s.fut x :=
    fun x apart => Function.update_of_ne (apart w (Finset.mem_singleton_self w)) ..
  cases owner : (s.fut (.wait w)).cb with
  | none =>
    simp only [resolveWaiter, callback, owner]
    refine ⟨settled, other, fun g => .inl rfl, fun x single g owned => ?_, rfl⟩
    rw [Finset.mem_singleton.mp single, owner] at owned
    cases owned
  | some g =>
    have alive : ((s.setFut (.wait w) fun u => { u with state := .resolved, result := v }).fut (.fiber g)).kind = .fiber := by
      rw [State.setFut_of_ne (Id.fiber_ne_wait g w)]
      exact there w (Finset.mem_singleton_self w) g owner
    obtain ⟨b, fut, nudged, drops, awake, eq⟩ := resume_cases fixed v (.wait w) alive
    simp only [resolveWaiter, callback, owner]
    rw [eq]
    cases drops with
    | drop deadline => exact deadline.elim
    | none =>
      refine ⟨settled, other, fun h => ?_, fun x single h owned => ?_, rfl⟩
      · obtain rfl | differs := eq_or_ne h g
        · refine .inr ⟨w, Finset.mem_singleton_self w, owner, ?_⟩
          dsimp only
          rw [Function.update_self]
          cases nudged with
          | same => exact .same
          | woken d waits => exact .woken d waits
          | kept queued away none error => exact .kept queued away none error
        · exact .inl (Function.update_of_ne differs ..)
      · rw [Finset.mem_singleton.mp single, owner] at owned
        cases owned
        dsimp only
        rwa [Function.update_self]

theorem resolveWaiters_list (fixed : cfg.Fixed) (v : Val) {ws : List W} (there : Answerable s ws.toFinset) :
    Resolved s ws.toFinset v (ws.foldl (resolveWaiter cfg v) s) := by
  induction ws generalizing s with
  | nil => exact .none v
  | cons w ws ih =>
    rw [List.toFinset_cons] at there ⊢
    have one : Resolved s {w} v (resolveWaiter cfg v s w) := by
      apply resolveWaiter_resolved fixed
      intro x single
      exact there x (Finset.mem_singleton.mp single ▸ Finset.mem_insert_self ..)
    refine (ih fun x later g owner => ?_).cons one
    rw [one.other _ fun y _ => Id.fiber_ne_wait g y]
    exact there x (Finset.mem_insert_of_mem later) g ((one.cb _).symm.trans owner)

theorem resolveWaiters_resolved (fixed : cfg.Fixed) (formed : cfg.WellFormed) {v : Val} {ws : Finset W}
    (there : Answerable s ws) : Resolved s ws v (resolveWaiters cfg s ws v) := by
  have all : (cfg.waiterOrder ws).toFinset = ws := by
    ext w
    rw [List.mem_toFinset, formed.waiters]
  rw [resolveWaiters]
  have := resolveWaiters_list fixed v (all.symm ▸ there)
  rwa [all] at this

/-- An io, timer or deadline future resolves: it has no waiters. -/
theorem resolveFut_ext (fixed : cfg.Fixed) (formed : cfg.WellFormed) {x : E} {v : Val}
    (pending : (s.fut (.ext x)).state = .pending) (alone : (s.fut (.ext x)).waiters = ∅)
    (there : ∀ g, (s.fut (.ext x)).cb = some g → (s.fut (.fiber g)).kind = .fiber) :
    ∃ r, r = s.setFut (.ext x) (fun u => { u with state := .resolved, result := v, waiters := ∅ }) ∧
      ((s.fut (.ext x)).cb = none ∧ resolveFut cfg s (.ext x) v = r ∨
        ∃ g b fut, (s.fut (.ext x)).cb = some g ∧ Nudged r g v (.future (.ext x)) b ∧ Drops r g v (.ext x) fut ∧
          b.state ≠ .suspended ∧
          resolveFut cfg s (.ext x) v = { r with fib := Function.update r.fib g b, fut := fut }) := by
  have none (t : State F E W) : resolveWaiters cfg t ∅ v = t :=
    (resolveWaiters_resolved fixed formed fun _ inside => absurd inside (Finset.notMem_empty _)).eq
  refine ⟨_, rfl, ?_⟩
  rw [resolveFut, if_neg (not_not_intro pending), alone]
  cases owner : (s.fut (.ext x)).cb with
  | none =>
    dsimp only [callback]
    rw [none]
    exact .inl ⟨rfl, rfl⟩
  | some g =>
    have alive : ((s.setFut (.ext x) fun u => { u with state := .resolved, result := v, waiters := ∅ }).fut
        (.fiber g)).kind = .fiber := by
      rw [State.setFut_of_ne (Id.fiber_ne_ext g x)]
      exact there g owner
    obtain ⟨b, fut, nudged, drops, awake, eq⟩ := resume_cases fixed v (.ext x) alive
    dsimp only [callback]
    rw [none, eq]
    exact .inr ⟨g, b, fut, rfl, nudged, drops, awake, rfl⟩

/-! ### Completing -/

/-- `completeFiber` before the waiters are resolved. -/
def closed (s : State F E W) (g : F) (v : Val) : State F E W :=
  (s.setFib g fun b => { b with state := .completed, result := v, deferOn := false, exitOn := false }).setFut (.fiber g)
    fun u => { u with state := .resolved, result := v, waiters := ∅ }

def settledFiber (s : State F E W) (g : F) : State F E W := s.setFib g fun b => { b with floating := false }

def freedFiber (s : State F E W) (g : F) : State F E W :=
  (s.setFut (.fiber g) fun _ => freeFut).setFib g fun b =>
    { b with state := .freed, deferOn := false, exitOn := false, floating := false }

theorem resolveFut_resolved {x : Id F E W} {v : Val} (done : (s.fut x).state = .resolved) :
    resolveFut cfg s x v = s := by
  rw [resolveFut, done]
  exact if_pos nofun

theorem freeOther_fiber {g : F} (done : (s.fut (.fiber g)).state = .resolved) (state : (s.fib g).state = .completed) :
    freeOther cfg s (.fiber g) = freedFiber s g := by
  rw [freeOther, resolveFut_resolved done, done, if_neg (fun h => nomatch h.1)]
  dsimp only
  rw [if_pos (.inr state)]
  rfl

theorem held_of_refs {F E W : Type} [DecidableEq F] [DecidableEq W] {cfg : Config F E W} {s : State F E W} {x : Id F E W} (none : s.refs cfg x = 0) : (s.fut x).held = false := by
  by_contra held
  rw [Bool.not_eq_false] at held
  unfold State.refs at none
  rw [if_pos held] at none
  omega

theorem resolveFut_fiber (fixed : cfg.Fixed) (formed : cfg.WellFormed) {g : F} {v : Val}
    (pending : (s.fut (.fiber g)).state = .pending) (bare : (s.fut (.fiber g)).cb = none)
    (there : Answerable s (s.fut (.fiber g)).waiters) (kind : (s.fut (.fiber g)).kind = .fiber) :
    Resolved (s.setFut (.fiber g) fun u => { u with state := .resolved, result := v, waiters := ∅ })
      (s.fut (.fiber g)).waiters v (resolveFut cfg s (.fiber g) v) := by
  rw [resolveFut, if_neg (not_not_intro pending), bare]
  refine resolveWaiters_resolved fixed formed fun w inside h owner => ?_
  rw [State.setFut_of_ne (Id.fiber_ne_wait g w).symm] at owner
  have before := there w inside h owner
  obtain rfl | differs := eq_or_ne h g
  · rw [State.setFut_self]
    exact kind
  · rw [State.setFut_of_ne fun same => differs (Id.fiber.inj same)]
    exact before

theorem completeFiber_cases (fixed : cfg.Fixed) (formed : cfg.WellFormed) {g : F} {v : Val}
    (pending : (s.fut (.fiber g)).state = .pending) (bare : (s.fut (.fiber g)).cb = none)
    (there : Answerable s (s.fut (.fiber g)).waiters) (kind : (s.fut (.fiber g)).kind = .fiber) :
    ∃ t, Resolved (closed s g v) (s.fut (.fiber g)).waiters v t ∧
      (completeFiber cfg s g v = settledFiber t g ∨
        (s.fut (.fiber g)).held = false ∧ completeFiber cfg s g v = freedFiber t g) := by
  have resolved := resolveFut_fiber (v := v) fixed formed
    (s := s.setFib g fun b => { b with state := .completed, result := v, deferOn := false, exitOn := false })
    pending bare there kind
  refine ⟨_, resolved, ?_⟩
  rw [completeFiber]
  set t := resolveFut cfg _ (.fiber g) v
  have fib : t.fib g = (closed s g v).fib g := by
    apply resolved.fib_eq
    · rw [State.setFut_fib, State.setFib_self]
      nofun
    · rw [State.setFut_fib, State.setFib_self]
      nofun
  have fut : t.fut (.fiber g) = (closed s g v).fut (.fiber g) := resolved.other _ fun w _ => Id.fiber_ne_wait g w
  have done : ((settledFiber t g).fut (.fiber g)).state = .resolved := by
    rw [settledFiber, State.setFib_fut, fut, closed, State.setFut_self]
  have state : ((settledFiber t g).fib g).state = .completed := by
    rw [settledFiber, State.setFib_self, fib, closed, State.setFut_fib, State.setFib_self]
  change maybeFreeOther cfg (settledFiber t g) (.fiber g) = _ ∨ _ ∧ maybeFreeOther cfg (settledFiber t g) (.fiber g) = _
  rw [maybeFreeOther]
  split_ifs with none
  · refine .inr ⟨?_, ?_⟩
    · have held := held_of_refs none
      rwa [settledFiber, State.setFib_fut, fut, closed, State.setFut_self] at held
    · rw [freeOther_fiber done state]
      simp only [freedFiber, settledFiber, State.setFib, State.setFut, Function.update_self, Function.update_idem]
  · exact .inl rfl

structure Completion (s : State F E W) (g : F) (v : Val) (u : State F E W) : Prop where
  done : (u.fib g).state = .completed ∧ u.fut (.fiber g) = { s.fut (.fiber g) with state := .resolved, result := v, waiters := ∅ } ∨
    (u.fib g).state = .freed ∧ u.fut (.fiber g) = freeFut ∧ (s.fut (.fiber g)).held = false
  self : u.fib g =
    { s.fib g with state := (u.fib g).state, result := v, deferOn := false, exitOn := false, floating := false }
  others : ∀ h, h ≠ g → u.fib h = s.fib h ∨
    ∃ w ∈ (s.fut (.fiber g)).waiters, (s.fut (.wait w)).cb = some h ∧ Nudged s h v (.future (.wait w)) (u.fib h)
  awake : ∀ w ∈ (s.fut (.fiber g)).waiters, ∀ h, (s.fut (.wait w)).cb = some h → (u.fib h).state ≠ .suspended
  settled : ∀ w ∈ (s.fut (.fiber g)).waiters,
    u.fut (.wait w) = { s.fut (.wait w) with state := .resolved, result := v }
  still : ∀ x, x ≠ .fiber g → (∀ w ∈ (s.fut (.fiber g)).waiters, x ≠ .wait w) → u.fut x = s.fut x
  rest : u = { s with fib := u.fib, fut := u.fut }

/-- Another fiber was not written to. -/
theorem Nudged.of_eq {F E W : Type} {r s : State F E W} {h : F} {v : Val} {src : Source F E W} {b : Fib F E W}
    (nudged : Nudged r h v src b) (fib : r.fib h = s.fib h) (phase : r.phase = s.phase) : Nudged s h v src b := by
  cases nudged with
  | same =>
    rw [fib]
    exact .same
  | woken d waits =>
    rw [fib] at waits ⊢
    exact .woken d waits
  | kept queued away none error =>
    rw [fib] at queued none ⊢
    exact .kept queued (phase ▸ away) none error

theorem completeFiber_completion (fixed : cfg.Fixed) (formed : cfg.WellFormed) {g : F} {v : Val}
    (pending : (s.fut (.fiber g)).state = .pending) (bare : (s.fut (.fiber g)).cb = none)
    (there : Answerable s (s.fut (.fiber g)).waiters) (kind : (s.fut (.fiber g)).kind = .fiber) :
    Completion s g v (completeFiber cfg s g v) := by
  obtain ⟨t, resolved, result⟩ := completeFiber_cases (v := v) fixed formed pending bare there kind
  set c := closed s g v with closes
  have closed_fib : c.fib g = { s.fib g with state := .completed, result := v, deferOn := false, exitOn := false } := by
    rw [closes, closed, State.setFut_fib, State.setFib_self]
  have closed_other {h : F} (differs : h ≠ g) : c.fib h = s.fib h := by
    rw [closes, closed, State.setFut_fib, State.setFib_of_ne differs]
  have closed_fut {x : Id F E W} (differs : x ≠ .fiber g) : c.fut x = s.fut x := by
    rw [closes, closed, State.setFut_of_ne differs]
    rfl
  have here : t.fib g = { s.fib g with state := .completed, result := v, deferOn := false, exitOn := false } := by
    rw [resolved.fib_eq, closed_fib]
    all_goals
      rw [closed_fib]
    · nofun
    · nofun
  have own : t.fut (.fiber g) = { s.fut (.fiber g) with state := .resolved, result := v, waiters := ∅ } := by
    rw [resolved.other _ fun w _ => Id.fiber_ne_wait g w, closes, closed, State.setFut_self]
    rfl
  have others {h : F} (differs : h ≠ g) : t.fib h = s.fib h ∨
      ∃ w ∈ (s.fut (.fiber g)).waiters, (s.fut (.wait w)).cb = some h ∧ Nudged s h v (.future (.wait w)) (t.fib h) := by
    obtain same | ⟨w, inside, cb, nudged⟩ := resolved.fib h
    · exact .inl (same.trans (closed_other differs))
    · refine .inr ⟨w, inside, ?_, nudged.of_eq (closed_other differs) rfl⟩
      rwa [closed_fut (Id.fiber_ne_wait g w).symm] at cb
  have awake (w : W) (inside : w ∈ (s.fut (.fiber g)).waiters) (h : F) (cb : (s.fut (.wait w)).cb = some h) :
      (t.fib h).state ≠ .suspended := by
    apply resolved.awake w inside
    rwa [closed_fut (Id.fiber_ne_wait g w).symm]
  have settled (w : W) (inside : w ∈ (s.fut (.fiber g)).waiters) :
      t.fut (.wait w) = { s.fut (.wait w) with state := .resolved, result := v } := by
    rw [resolved.settled w inside, closed_fut (Id.fiber_ne_wait g w).symm]
  have still (x : Id F E W) (differs : x ≠ .fiber g) (apart : ∀ w ∈ (s.fut (.fiber g)).waiters, x ≠ .wait w) :
      t.fut x = s.fut x := by
    rw [resolved.other x apart, closed_fut differs]
  obtain same | ⟨unheld, same⟩ := result
  all_goals rw [same]
  · have self : (settledFiber t g).fib g =
        { s.fib g with state := .completed, result := v, deferOn := false, exitOn := false, floating := false } := by
      rw [settledFiber, State.setFib_self, here]
    have other {h : F} (differs : h ≠ g) : (settledFiber t g).fib h = t.fib h := State.setFib_of_ne differs _
    refine ⟨.inl ⟨by rw [self], own⟩, by rw [self], fun h differs => ?_, fun w inside h cb => ?_, settled, still, ?_⟩
    · rw [other differs]
      exact others differs
    · obtain rfl | differs := eq_or_ne h g
      · rw [self]
        nofun
      · rw [other differs]
        exact awake w inside h cb
    · rw [settledFiber, resolved.rest]
      rfl
  · have self : (freedFiber t g).fib g =
        { s.fib g with state := .freed, result := v, deferOn := false, exitOn := false, floating := false } := by
      rw [freedFiber, State.setFib_self, State.setFut_fib, here]
    have fut {x : Id F E W} (differs : x ≠ .fiber g) : (freedFiber t g).fut x = t.fut x := by
      rw [freedFiber, State.setFib_fut, State.setFut_of_ne differs]
    have freed : (freedFiber t g).fut (.fiber g) = freeFut := by
      rw [freedFiber, State.setFib_fut, State.setFut_self]
    have other {h : F} (differs : h ≠ g) : (freedFiber t g).fib h = t.fib h := by
      rw [freedFiber, State.setFib_of_ne differs, State.setFut_fib]
    refine ⟨.inr ⟨by rw [self], freed, unheld⟩, by rw [self], fun h differs => ?_, fun w inside h cb => ?_,
      fun w inside => ?_, fun x differs apart => ?_, ?_⟩
    · rw [other differs]
      exact others differs
    · obtain rfl | differs := eq_or_ne h g
      · rw [self]
        nofun
      · rw [other differs]
        exact awake w inside h cb
    · rw [fut (Id.fiber_ne_wait g w).symm]
      exact settled w inside
    · rw [fut differs]
      exact still x differs apart
    · rw [freedFiber, resolved.rest]
      rfl

/-! ### Releasing -/

theorem State.setFut_setFut (x : Id F E W) (h h' : Fut F W → Fut F W) :
    (s.setFut x h).setFut x h' = s.setFut x (h' ∘ h) := by
  simp only [State.setFut, Function.update_self, Function.update_idem, Function.comp_apply]

theorem State.setFut_comm {x y : Id F E W} (apart : x ≠ y) (h h' : Fut F W → Fut F W) :
    (s.setFut x h).setFut y h' = (s.setFut y h').setFut x h := by
  simp only [State.setFut, Function.update_of_ne apart, Function.update_of_ne apart.symm,
    Function.update_comm apart]

/-- The future of a scope that the running fiber `f` owns. -/
structure Owns (s : State F E W) (f : F) (x : Id F E W) : Prop where
  running : s.phase = some f
  awake : (s.fib f).state ≠ .suspended
  alive : (s.fut (.fiber f)).kind = .fiber
  cb : (s.fut x).cb = some f
  waiters : (s.fut x).waiters = ∅

theorem Owns.resolveFut (fixed : cfg.Fixed) (formed : cfg.WellFormed) {f : F} {x : Id F E W} (owns : Owns s f x)
    (other : x ≠ .fiber f) (pending : (s.fut x).state = .pending) :
    ∃ u, u.state = .resolved ∧ u.held = (s.fut x).held ∧ u.target = (s.fut x).target ∧
      resolveFut cfg s x .canceled = s.setFut x fun _ => u := by
  have none (t : State F E W) : resolveWaiters cfg t ∅ .canceled = t :=
    (resolveWaiters_resolved fixed formed fun _ inside => absurd inside (Finset.notMem_empty _)).eq
  have alive : ((s.setFut x fun u => { u with state := .resolved, result := .canceled, waiters := ∅ }).fut
      (.fiber f)).kind = .fiber := by
    rw [State.setFut_of_ne other.symm]
    exact owns.alive
  obtain ⟨b, fut, nudged, drops, _, eq⟩ := resume_cases fixed .canceled x alive
  have same : b = s.fib f := by
    cases nudged with
    | same => rfl
    | woken _ waits => exact absurd waits owns.awake
    | kept _ away => exact absurd owns.running away
  rw [Fiber.resolveFut, if_neg (not_not_intro pending), owns.cb, owns.waiters]
  dsimp only [callback]
  rw [none, eq, same]
  cases drops with
  | none =>
    refine ⟨{ s.fut x with state := .resolved, result := .canceled, waiters := ∅ }, rfl, rfl, rfl, ?_⟩
    simp only [State.setFut, Function.update_eq_self]
  | drop =>
    refine ⟨{ s.fut x with state := .resolved, result := .canceled, waiters := ∅, dropped := true }, rfl, rfl, rfl, ?_⟩
    simp only [State.setFut, Function.update_eq_self, Function.update_self, Function.update_idem]

/-- The handle of an io, timer or deadline future is the only reference. -/
theorem unref_ext {x : E} (done : (s.fut (.ext x)).state = .resolved) :
    unref cfg s (.ext x) = s.setFut (.ext x) fun _ => freeFut := by
  set t := s.setFut (.ext x) fun u => { u with held := false } with released
  have none : t.refs cfg (.ext x) = 0 := by
    simp [State.refs, t]
  have still : (t.fut (.ext x)).state = .resolved := by
    rw [released, State.setFut_self]
    exact done
  have free : freeOther cfg t (.ext x) = t.setFut (.ext x) fun _ => freeFut := by
    rw [freeOther, resolveFut_resolved still, still, if_neg fun h => nomatch h.1]
  have last : ¬ 0 < t.refs cfg (.ext x) := by omega
  change (if 0 < t.refs cfg (.ext x) then t else freeOther cfg t (.ext x)) = _
  rw [if_neg last, free, released, State.setFut_setFut]
  rfl

theorem detach_ext (x : E) :
    detach s (.ext x) = s.setFut (.ext x) fun u => { u with srcOn := false, fired := false, obsIter := none } := rfl

theorem cwuSync_ext (fixed : cfg.Fixed) (formed : cfg.WellFormed) {f : F} {x : E} (owns : Owns s f (.ext x)) :
    cwuSync cfg s (.ext x) = s.setFut (.ext x) fun _ => freeFut := by
  obtain ⟨h, done, eq⟩ : ∃ h : Fut F W → Fut F W, (h (s.fut (.ext x))).state = .resolved ∧
      cancelNonFiber cfg s (.ext x) = s.setFut (.ext x) h := by
    rw [cancelNonFiber]
    cases state : (s.fut (.ext x)).state with
    | resolved => exact ⟨id, state, by simp [State.setFut]⟩
    | pending =>
      have self : (detach s (.ext x)).fut (.ext x) =
          { s.fut (.ext x) with srcOn := false, fired := false, obsIter := none } := by
        rw [detach_ext, State.setFut_self]
      have owns' : Owns (detach s (.ext x)) f (.ext x) := by
        refine ⟨owns.running, owns.awake, ?_, ?_, ?_⟩
        · rw [detach_ext, State.setFut_of_ne (Id.fiber_ne_ext f x)]
          exact owns.alive
        · rw [self]
          exact owns.cb
        · rw [self]
          exact owns.waiters
      obtain ⟨u, done, _, _, eq⟩ := owns'.resolveFut fixed formed (Id.fiber_ne_ext f x).symm (by rw [self]; exact state)
      refine ⟨fun _ => u, done, ?_⟩
      rw [if_neg (not_not_intro rfl), eq, detach_ext, State.setFut_setFut]
      rfl
  rw [cwuSync, eq, unref_ext (by rw [State.setFut_self]; exact done), State.setFut_setFut]
  rfl

/-- A wait future that is released leaves its target, which somebody else holds. -/
theorem unref_wait {w : W} {t : F} (target : (s.fut (.wait w)).target = some t) (held : (s.fut (.fiber t)).held = true) :
    unref cfg s (.wait w) =
      (s.setFut (.fiber t) (.leave w)).setFut (.wait w) fun _ => freeFut := by
  set r := s.setFut (.wait w) fun u => { u with held := false } with released
  have none : r.refs cfg (.wait w) = 0 := by
    simp [State.refs, r]
  have target' : (r.fut (.wait w)).target = some t := by
    rw [released, State.setFut_self]
    exact target
  have last : ¬ 0 < r.refs cfg (.wait w) := by omega
  rw [unref, ← released, if_neg last, freeWait, target']
  dsimp only
  rw [maybeFreeOther, if_neg, released, ← State.setFut_comm (Id.fiber_ne_wait t w).symm, State.setFut_setFut,
    State.setFut_comm (Id.fiber_ne_wait t w).symm]
  · rfl
  · intro gone
    have free := held_of_refs gone
    rw [State.setFut_of_ne (Id.fiber_ne_wait t w), State.setFut_self, released,
      State.setFut_of_ne (Id.fiber_ne_wait t w), Fut.leave, held] at free
    cases free

theorem cwuSync_wait (fixed : cfg.Fixed) (formed : cfg.WellFormed) {f : F} {w : W} {t : F} (owns : Owns s f (.wait w))
    (target : (s.fut (.wait w)).target = some t) (held : (s.fut (.fiber t)).held = true) :
    cwuSync cfg s (.wait w) =
      (s.setFut (.fiber t) (.leave w)).setFut (.wait w) fun _ => freeFut := by
  have apart := Id.fiber_ne_wait (E := E) t w
  rw [cwuSync, cancelNonFiber]
  cases state : (s.fut (.wait w)).state with
  | resolved => exact unref_wait target held
  | pending =>
    have detached : detach s (.wait w) = s.setFut (.fiber t) (Fut.leave w) := by
      rw [detach, target]
    have self : (detach s (.wait w)).fut (.wait w) = s.fut (.wait w) := by
      rw [detached, State.setFut_of_ne apart.symm]
    have owns' : Owns (detach s (.wait w)) f (.wait w) := by
      refine ⟨?_, ?_, ?_, ?_, ?_⟩
      · rw [detached]
        exact owns.running
      · rw [detached]
        exact owns.awake
      · rw [detached]
        obtain rfl | differs := eq_or_ne f t
        · rw [State.setFut_self]
          exact owns.alive
        · rw [State.setFut_of_ne fun same => differs (Id.fiber.inj same)]
          exact owns.alive
      · rw [self]
        exact owns.cb
      · rw [self]
        exact owns.waiters
    obtain ⟨u, _, _, kept, eq⟩ := owns'.resolveFut fixed formed (Id.fiber_ne_wait f w).symm (by rw [self]; exact state)
    have twice : (Fut.leave w ∘ Fut.leave w : Fut F W → Fut F W) = Fut.leave w := by
      funext v
      simp only [Function.comp_apply, Fut.leave, Finset.erase_idem]
    rw [if_neg (not_not_intro rfl), eq, unref_wait (t := t)]
    · rw [detached, State.setFut_comm apart.symm, State.setFut_setFut, State.setFut_setFut, twice]
      rfl
    · rw [State.setFut_self, kept, self]
      exact target
    · rw [State.setFut_of_ne apart, detached, State.setFut_self]
      exact held

theorem unref_fiber (cfg : Config F E W) {g : F} (done : (s.fut (.fiber g)).state = .resolved) (state : (s.fib g).state = .completed) :
    unref cfg s (.fiber g) = s.setFut (.fiber g) (fun u => { u with held := false }) ∨
      unref cfg s (.fiber g) = freedFiber s g := by
  set r := s.setFut (.fiber g) fun u => { u with held := false } with released
  have done' : (r.fut (.fiber g)).state = .resolved := by
    rw [released, State.setFut_self]
    exact done
  change (if 0 < r.refs cfg (.fiber g) then r else freeOther cfg r (.fiber g)) = _ ∨
    (if 0 < r.refs cfg (.fiber g) then r else freeOther cfg r (.fiber g)) = _
  split_ifs
  · exact .inl rfl
  · refine .inr ?_
    rw [freeOther_fiber done' state, freedFiber, released, State.setFut_setFut]
    rfl

/-! ### Cancelling -/

/-- `marked`: a fiber that has begun is cancelled. -/
def marked (s : State F E W) (g : F) : State F E W :=
  s.setFib g fun b => { b with state := .cancelled, deferOn := b.deferOn || !s.exiting, exitOn := true }

theorem cancel_cases (fixed : cfg.Fixed) (s : State F E W) (g : F) :
    (cancel cfg s g = s ∧
        ((s.fut (.fiber g)).kind ≠ .fiber ∨ (s.fut (.fiber g)).state = .resolved ∨ (s.fib g).state = .completed ∨
          (s.fib g).state = .cancelled)) ∨
      ((s.fut (.fiber g)).kind = .fiber ∧ (s.fut (.fiber g)).state = .pending ∧
        ((s.fib g).state = .initial ∧ cancel cfg s g = completeFiber cfg s g .canceled ∨
          (s.fib g).state ≠ .initial ∧ (s.fib g).state ≠ .completed ∧ (s.fib g).state ≠ .cancelled ∧
            cancel cfg s g = marked s g)) := by
  rw [cancel]
  split_ifs with idle initial
  · exact .inl ⟨rfl, idle⟩
  · rw [not_or, not_or, not_not] at idle
    refine .inr ⟨idle.1, ?_, .inl ⟨initial, rfl⟩⟩
    cases state : (s.fut (.fiber g)).state with
    | pending => rfl
    | resolved => exact absurd state idle.2.1
  · rw [not_or, not_or, not_not, not_or] at idle
    refine .inr ⟨idle.1, ?_, .inr ⟨initial, idle.2.2.1, idle.2.2.2, ?_⟩⟩
    · cases state : (s.fut (.fiber g)).state with
      | pending => rfl
      | resolved => exact absurd state idle.2.1
    · simp only [marked, fixed.exitArmed, Bool.or_true]

end LinuxTla.Fiber
