import LinuxTla.Fiber.Owned

/-! What happens on the stack of the running fiber: a future is pushed, or the one on top
is released. -/

namespace LinuxTla.Fiber

open Lib

section Stack

variable {F E W : Type}

def Fib.push (x : Id F E W) (b : Fib F E W) : Fib F E W := { b with cwuWait := none, cstack := x :: b.owned }

def Fib.pop (b : Fib F E W) : Fib F E W := { b with cwuWait := none, cstack := b.owned.tail }

theorem pop_owned {b : Fib F E W} {x : Id F E W} {rest : List (Id F E W)} (top : b.owned = x :: rest) :
    b.pop.owned = rest := by
  change b.owned.tail = rest
  rw [top, List.tail_cons]

/-- Only the books of the fiber change, not what it is. -/
structure Keeps (h : Fib F E W → Fib F E W) : Prop where
  state : ∀ b, (h b).state = b.state
  creator : ∀ b, (h b).creator = b.creator

theorem keeps_push (x : Id F E W) : Keeps (Fib.push x) := ⟨fun _ => rfl, fun _ => rfl⟩

theorem keeps_pop : Keeps (Fib.pop : Fib F E W → Fib F E W) := ⟨fun _ => rfl, fun _ => rfl⟩

variable {cfg : Config F E W} {s t : State F E W}

/-- One stack changes, and nothing that makes a fiber what it is. -/
structure Restacked (cfg : Config F E W) (s t : State F E W) (f : F) : Prop where
  state : ∀ g, (t.fib g).state = (s.fib g).state
  creator : ∀ g, (t.fib g).creator = (s.fib g).creator
  owned : ∀ g, g ≠ f → (t.fib g).owned = (s.fib g).owned
  phase : t.phase = s.phase
  crash : t.crash = s.crash
  kind : ∀ g, (t.fut (.fiber g)).kind = (s.fut (.fiber g)).kind
  cb : ∀ g, (t.fut (.fiber g)).cb = (s.fut (.fiber g)).cb
  done : ∀ g, (t.fut (.fiber g)).state = (s.fut (.fiber g)).state
  dead : ∀ g, ¬ s.Alive g → t.fut (.fiber g) = s.fut (.fiber g)
  main : ∀ g ∈ cfg.topLevel, g ∉ cfg.floatingTop → (t.fut (.fiber g)).held = (s.fut (.fiber g)).held

theorem Restacked.core {f : F} (plain : Restacked cfg s t f) (core : Core cfg s) (running : s.phase = some f)
    (scopes : Stacks (fun g => (t.fib g).owned) t.owner)
    (ext : ∀ x, (t.fut (.ext x)).Blank ∨ (t.fut (.ext x)).OnLoop ∧ (t.fut (.ext x)).waiters = ∅)
    (wait : ∀ w, (t.fut (.wait w)).Blank ∨ Waiting cfg t (t.fut (.wait w)))
    (waiters : ∀ g w, w ∈ (t.fut (.fiber g)).waiters ↔
      (t.fut (.wait w)).target = some g ∧ (t.fut (.wait w)).state = .pending) : Core cfg t where
  scopes := scopes
  ext := ext
  wait := wait
  alive g live := by
    rw [State.Alive, plain.state] at live
    have before := core.alive g live
    refine ⟨(plain.kind g).trans before.kind, (plain.cb g).trans before.cb, ?_⟩
    rw [plain.done, plain.state]
    exact before.state
  dead g dead := by
    rw [State.Alive, plain.state] at dead
    rw [plain.dead g dead]
    exact core.dead g dead
  waiters := waiters
  main g top held := by
    rw [plain.main g top held, plain.creator]
    exact core.main g top held
  ended g ended := by
    rw [plain.state] at ended
    have other : g ≠ f := by
      rintro rfl
      obtain ⟨live, going, _⟩ := core.running_alive running
      obtain none | completed | freed := ended
      · exact live.1 none
      · exact going completed
      · exact live.2 freed
    exact (plain.owned g other).trans (core.ended g ended)
  fresh g initial away := by
    rw [plain.phase] at away
    rw [plain.state] at initial
    have other : g ≠ f := fun same => away (same ▸ running)
    exact (plain.owned g other).trans (core.fresh g initial away)
  running g active := by
    rw [plain.phase] at active
    rw [plain.state]
    exact core.running g active
  noCrash := plain.crash.trans core.noCrash

/-- A wait future stays one while its target stays on the stack. -/
theorem Waiting.mono {u : Fut F W} (waiting : Waiting cfg s u)
    (more : ∀ g, u.cb = some g → ∀ k, .fiber k ∈ (s.fib g).owned → .fiber k ∈ (t.fib g).owned) : Waiting cfg t u := by
  obtain ⟨kind, waiters, g, k, cb, target, anchored⟩ := waiting
  exact ⟨kind, waiters, g, k, cb, target, anchored.imp_left (more g cb k)⟩

theorem Restacked.trans {r : State F E W} {f : F} (first : Restacked cfg s r f) (second : Restacked cfg r t f) :
    Restacked cfg s t f where
  state g := (second.state g).trans (first.state g)
  creator g := (second.creator g).trans (first.creator g)
  owned g other := (second.owned g other).trans (first.owned g other)
  phase := second.phase.trans first.phase
  crash := second.crash.trans first.crash
  kind g := (second.kind g).trans (first.kind g)
  cb g := (second.cb g).trans (first.cb g)
  done g := (second.done g).trans (first.done g)
  dead g dead := by
    have dead' : ¬ r.Alive g := by
      rw [State.Alive, first.state]
      exact dead
    exact (second.dead g dead').trans (first.dead g dead)
  main g top held := (second.main g top held).trans (first.main g top held)

theorem owner_update [DecidableEq F] [DecidableEq E] [DecidableEq W] {x : Id F E W} {o : Option F}
    (here : t.owner x = o) (other : ∀ y, y ≠ x → t.owner y = s.owner y) :
    t.owner = Function.update s.owner x o := by
  funext y
  obtain rfl | differs := eq_or_ne y x
  · rw [Function.update_self, here]
  · rw [Function.update_of_ne differs, other y differs]

end Stack

section Fibers

variable {F E W : Type} [DecidableEq F] {h : Fib F E W → Fib F E W}

theorem owned_update (s : State F E W) (f : F) (h : Fib F E W → Fib F E W) :
    (fun g => ((s.setFib f h).fib g).owned) = Function.update (fun g => (s.fib g).owned) f (h (s.fib f)).owned := by
  funext g
  obtain rfl | other := eq_or_ne g f
  · rw [State.setFib_self, Function.update_self]
  · rw [State.setFib_of_ne other, Function.update_of_ne other]

theorem Keeps.setFib_state (keeps : Keeps h) (s : State F E W) (f g : F) :
    ((s.setFib f h).fib g).state = (s.fib g).state := by
  obtain rfl | other := eq_or_ne g f
  · rw [State.setFib_self, keeps.state]
  · rw [State.setFib_of_ne other]

theorem Keeps.setFib_creator (keeps : Keeps h) (s : State F E W) (f g : F) :
    ((s.setFib f h).fib g).creator = (s.fib g).creator := by
  obtain rfl | other := eq_or_ne g f
  · rw [State.setFib_self, keeps.creator]
  · rw [State.setFib_of_ne other]

theorem mem_push {s : State F E W} {f : F} {x y : Id F E W} {g : F} (inside : y ∈ (s.fib g).owned) :
    y ∈ ((s.setFib f (Fib.push x)).fib g).owned := by
  obtain rfl | other := eq_or_ne g f
  · rw [State.setFib_self]
    exact List.mem_cons_of_mem _ inside
  · rwa [State.setFib_of_ne other]

theorem mem_pop {s : State F E W} {f : F} {x y : Id F E W} {rest : List (Id F E W)} {g : F}
    (top : (s.fib f).owned = x :: rest) (other : y ≠ x) (inside : y ∈ (s.fib g).owned) :
    y ∈ ((s.setFib f Fib.pop).fib g).owned := by
  obtain rfl | differs := eq_or_ne g f
  · rw [State.setFib_self, pop_owned top]
    rw [top, List.mem_cons] at inside
    exact inside.resolve_left other
  · rwa [State.setFib_of_ne differs]

end Fibers

variable {F E W : Type} [DecidableEq F] [DecidableEq E] [DecidableEq W] {cfg : Config F E W} {s t : State F E W}
  {f : F} {h : Fib F E W → Fib F E W}

section Both

variable (s f h) {x : Id F E W} (v : Fut F W)

theorem both_fut_self : ((s.setFut x fun _ => v).setFib f h).fut x = v := by
  rw [State.setFib_fut, State.setFut_self]

variable {y : Id F E W} (other : y ≠ x)

include other

theorem both_fut_of_ne : ((s.setFut x fun _ => v).setFib f h).fut y = s.fut y := by
  rw [State.setFib_fut, State.setFut_of_ne other]

end Both

/-- The stack of `f` and the future of an id that is not a fiber change. -/
theorem Keeps.restacked (keeps : Keeps h) (s : State F E W) (f : F) {x : Id F E W} (v : Fut F W)
    (other : ∀ g, x ≠ .fiber g) : Restacked cfg s ((s.setFut x fun _ => v).setFib f h) f where
  state g := keeps.setFib_state _ f g
  creator g := keeps.setFib_creator _ f g
  owned g apart := by rw [State.setFib_of_ne apart]; rfl
  phase := rfl
  crash := rfl
  kind g := by rw [both_fut_of_ne s f h v (other g).symm]
  cb g := by rw [both_fut_of_ne s f h v (other g).symm]
  done g := by rw [both_fut_of_ne s f h v (other g).symm]
  dead g _ := both_fut_of_ne s f h v (other g).symm
  main g _ _ := by rw [both_fut_of_ne s f h v (other g).symm]

theorem Keeps.owner (keeps : Keeps h) (s : State F E W) (f : F) {x : Id F E W} (v : Fut F W)
    (other : ∀ g, x ≠ .fiber g) : ((s.setFut x fun _ => v).setFib f h).owner = Function.update s.owner x v.cb := by
  apply owner_update
  · cases x with
    | fiber g => exact absurd rfl (other g)
    | ext x => rw [State.owner, both_fut_self]
    | wait w => rw [State.owner, both_fut_self]
  · intro y apart
    cases y with
    | fiber g => rw [State.owner, State.owner, keeps.setFib_creator, both_fut_of_ne s f h v apart, State.setFut_fib]
    | ext y => rw [State.owner, State.owner, both_fut_of_ne s f h v apart]
    | wait w => rw [State.owner, State.owner, both_fut_of_ne s f h v apart]

namespace Core

variable (core : Core cfg s) (running : s.phase = some f)

include core running

/-- A free io or timer future is pushed. -/
theorem pushExt {x : E} {kind : Kind} {p : ℤ} {r : Val} (used : kind = .ext ∨ kind = .deadline)
    (free : (s.fut (.ext x)).kind = .free) :
    Core cfg ((s.setFut (.ext x) fun _ => extFut kind f p r).setFib f (Fib.push (.ext x))) := by
  have blank : s.owner (.ext x) = none := by
    obtain blank | ⟨onLoop, _⟩ := core.ext x
    · exact blank.cb
    · rw [Fut.OnLoop, free] at onLoop
      simp at onLoop
  apply ((keeps_push _).restacked s f _ fun g => (Id.fiber_ne_ext g x).symm).core core running
  · rw [owned_update, (keeps_push _).owner s f _ fun g => (Id.fiber_ne_ext g x).symm]
    exact core.scopes.push blank
  · intro y
    obtain rfl | other := eq_or_ne y x
    · rw [both_fut_self]
      exact .inr ⟨used, rfl⟩
    · rw [both_fut_of_ne _ _ _ _ fun same => other (Id.ext.inj same)]
      exact core.ext y
  · intro w
    rw [both_fut_of_ne _ _ _ _ (Id.ext_ne_wait x w).symm]
    exact (core.wait w).imp_right fun waiting => waiting.mono fun g _ k inside => mem_push inside
  · intro g w
    rw [both_fut_of_ne _ _ _ _ (Id.fiber_ne_ext g x), both_fut_of_ne _ _ _ _ (Id.ext_ne_wait x w).symm]
    exact core.waiters g w

/-- The io or timer future on top is freed. -/
theorem popExt {x : E} {rest : List (Id F E W)} (top : (s.fib f).owned = .ext x :: rest) :
    Core cfg ((s.setFut (.ext x) fun _ => freeFut).setFib f Fib.pop) := by
  apply (keeps_pop.restacked s f _ fun g => (Id.fiber_ne_ext g x).symm).core core running
  · rw [owned_update, keeps_pop.owner s f _ fun g => (Id.fiber_ne_ext g x).symm]
    exact pop_owned top ▸ core.scopes.pop top
  · intro y
    obtain rfl | other := eq_or_ne y x
    · rw [both_fut_self]
      exact .inl freeFut_blank
    · rw [both_fut_of_ne _ _ _ _ fun same => other (Id.ext.inj same)]
      exact core.ext y
  · intro w
    rw [both_fut_of_ne _ _ _ _ (Id.ext_ne_wait x w).symm]
    exact (core.wait w).imp_right fun waiting => waiting.mono fun _ _ k inside => mem_pop top (Id.fiber_ne_ext k x) inside
  · intro g w
    rw [both_fut_of_ne _ _ _ _ (Id.fiber_ne_ext g x), both_fut_of_ne _ _ _ _ (Id.ext_ne_wait x w).symm]
    exact core.waiters g w

end Core

/-- Only the set of waiters of fiber `g` changes. -/
theorem relisted {g : F} {l : Fut F W → Fut F W} (only : ∀ u, l u = { u with waiters := (l u).waiters }) (k : F) :
    ∃ ws, (s.setFut (.fiber g) l).fut (.fiber k) = { s.fut (.fiber k) with waiters := ws } := by
  obtain rfl | other := eq_or_ne k g
  · rw [State.setFut_self]
    exact ⟨_, only _⟩
  · rw [State.setFut_of_ne fun same => other (Id.fiber.inj same)]
    exact ⟨_, rfl⟩

theorem relisted_restacked {g : F} {l : Fut F W → Fut F W} (only : ∀ u, l u = { u with waiters := (l u).waiters })
    (alive : s.Alive g) : Restacked cfg s (s.setFut (.fiber g) l) f where
  state _ := rfl
  creator _ := rfl
  owned _ _ := rfl
  phase := rfl
  crash := rfl
  kind k := by
    obtain ⟨ws, eq⟩ := relisted (s := s) only k
    rw [eq]
  cb k := by
    obtain ⟨ws, eq⟩ := relisted (s := s) only k
    rw [eq]
  done k := by
    obtain ⟨ws, eq⟩ := relisted (s := s) only k
    rw [eq]
  dead k dead := by
    refine State.setFut_of_ne (fun same => dead ?_) _
    cases same
    exact alive
  main k _ _ := by
    obtain ⟨ws, eq⟩ := relisted (s := s) only k
    rw [eq]

theorem relisted_owner {g : F} {l : Fut F W → Fut F W} (only : ∀ u, l u = { u with waiters := (l u).waiters }) :
    (s.setFut (.fiber g) l).owner = s.owner := by
  funext x
  cases x with
  | fiber k =>
    obtain ⟨ws, eq⟩ := relisted (s := s) only k
    rw [State.owner, State.owner, eq, State.setFut_fib]
  | ext x => rw [State.owner, State.owner, State.setFut_of_ne (Id.fiber_ne_ext g x).symm]
  | wait w => rw [State.owner, State.owner, State.setFut_of_ne (Id.fiber_ne_wait g w).symm]

theorem Fut.leave_only {F W : Type} [DecidableEq W] (w : W) (u : Fut F W) : u.leave w = { u with waiters := (u.leave w).waiters } := rfl

namespace Core

variable (core : Core cfg s) (running : s.phase = some f)

include core running

theorem pushWait {g : F} {w : W} (free : (s.fut (.wait w)).kind = .free)
    (pending : (s.fut (.fiber g)).state = .pending) (alive : s.Alive g) (anchored : Anchored cfg s f g) :
    Core cfg ((((s.setFut (.wait w) fun _ => waitFut f g).setFut (.fiber g) fun u =>
      { u with waiters := insert w u.waiters })).setFib f (Fib.push (.wait w))) := by
  have blank : (s.fut (.wait w)).Blank := by
    obtain blank | waiting := core.wait w
    · exact blank
    · rw [waiting.kind] at free
      cases free
  have other (k : F) : (.wait w : Id F E W) ≠ .fiber k := (Id.fiber_ne_wait k w).symm
  have only (u : Fut F W) : { u with waiters := insert w u.waiters } =
      { u with waiters := (({ u with waiters := insert w u.waiters } : Fut F W)).waiters } := rfl
  rw [State.setFut_comm (other g)]
  set r := s.setFut (.fiber g) fun u => { u with waiters := insert w u.waiters } with relists
  apply ((relisted_restacked only alive).trans ((keeps_push _).restacked r f (waitFut f g) other)).core core running
  · rw [owned_update, (keeps_push _).owner r f _ other, relists, relisted_owner only]
    exact core.scopes.push blank.cb
  · intro x
    rw [both_fut_of_ne _ _ _ _ (Id.ext_ne_wait x w), relists, State.setFut_of_ne (Id.fiber_ne_ext g x).symm]
    exact core.ext x
  · intro y
    obtain rfl | apart := eq_or_ne y w
    · rw [both_fut_self]
      exact .inr ⟨rfl, rfl, f, g, rfl, rfl, anchored.imp_left mem_push⟩
    · rw [both_fut_of_ne _ _ _ _ fun same => apart (Id.wait.inj same), relists, State.setFut_of_ne (Id.fiber_ne_wait g y).symm]
      exact (core.wait y).imp_right fun waiting => waiting.mono fun _ _ k inside => mem_push inside
  · intro k y
    have before := core.waiters k y
    rw [both_fut_of_ne _ _ _ _ (Id.fiber_ne_wait k w)]
    obtain rfl | apart := eq_or_ne y w
    · rw [both_fut_self]
      obtain rfl | differs := eq_or_ne k g
      · rw [relists, State.setFut_self]
        exact iff_of_true (Finset.mem_insert_self ..) ⟨rfl, rfl⟩
      · rw [relists, State.setFut_of_ne fun same => differs (Id.fiber.inj same)]
        refine iff_of_false (fun inside => ?_) fun both => differs (Option.some.inj both.1).symm
        have target := (before.mp inside).1
        rw [blank.target] at target
        cases target
    · rw [both_fut_of_ne _ _ _ _ fun same => apart (Id.wait.inj same), relists,
        State.setFut_of_ne (Id.fiber_ne_wait g y).symm, ← before]
      obtain rfl | differs := eq_or_ne k g
      · rw [State.setFut_self]
        exact Finset.mem_insert.trans (or_iff_right apart)
      · rw [State.setFut_of_ne fun same => differs (Id.fiber.inj same)]

/-- The wait future on top leaves its target and is freed. -/
theorem popWait {g : F} {w : W} {rest : List (Id F E W)} (top : (s.fib f).owned = .wait w :: rest)
    (target : (s.fut (.wait w)).target = some g) :
    Core cfg (((s.setFut (.fiber g) (.leave w)).setFut (.wait w) fun _ => freeFut).setFib f Fib.pop) := by
  have other (k : F) : (.wait w : Id F E W) ≠ .fiber k := (Id.fiber_ne_wait k w).symm
  set r := s.setFut (.fiber g) (.leave w) with relists
  have alive : s.Alive g := core.alive_of_held (core.held_of_target target).1
  apply ((relisted_restacked (Fut.leave_only w) alive).trans (keeps_pop.restacked r f freeFut other)).core core running
  · rw [owned_update, keeps_pop.owner r f _ other, relists, relisted_owner (Fut.leave_only w)]
    exact pop_owned top ▸ core.scopes.pop top
  · intro x
    rw [both_fut_of_ne _ _ _ _ (Id.ext_ne_wait x w), relists, State.setFut_of_ne (Id.fiber_ne_ext g x).symm]
    exact core.ext x
  · intro y
    obtain rfl | apart := eq_or_ne y w
    · rw [both_fut_self]
      exact .inl freeFut_blank
    · rw [both_fut_of_ne _ _ _ _ fun same => apart (Id.wait.inj same), relists, State.setFut_of_ne (Id.fiber_ne_wait g y).symm]
      exact (core.wait y).imp_right fun waiting => waiting.mono fun _ _ k inside => mem_pop top (other k).symm inside
  · intro k y
    have before := core.waiters k y
    rw [both_fut_of_ne _ _ _ _ (other k).symm]
    obtain rfl | apart := eq_or_ne y w
    · rw [both_fut_self]
      refine iff_of_false (fun inside => ?_) nofun
      obtain rfl | differs := eq_or_ne k g
      · rw [relists, State.setFut_self] at inside
        exact Finset.notMem_erase _ _ inside
      · rw [relists, State.setFut_of_ne fun same => differs (Id.fiber.inj same)] at inside
        exact differs (Option.some.inj ((before.mp inside).1.symm.trans target))
    · rw [both_fut_of_ne _ _ _ _ fun same => apart (Id.wait.inj same), relists,
        State.setFut_of_ne (Id.fiber_ne_wait g y).symm, ← before]
      obtain rfl | differs := eq_or_ne k g
      · rw [State.setFut_self]
        exact Finset.mem_erase.trans (and_iff_right apart)
      · rw [State.setFut_of_ne fun same => differs (Id.fiber.inj same)]

omit running in
/-- A completed fiber that nobody holds goes away. -/
theorem free {g : F} (completed : (s.fib g).state = .completed) (unheld : (s.fut (.fiber g)).held = false) :
    Core cfg (freedFiber s g) := by
  have untargeted (w : W) : (s.fut (.wait w)).target ≠ some g := by
    intro target
    rw [(core.held_of_target target).1] at unheld
    cases unheld
  have gone : ¬ (freedFiber s g).Alive g := by
    rw [State.Alive, freedFiber, State.setFib_self]
    exact fun live => live.2 rfl
  have empty : (s.fib g).owned = [] := core.ended g (.inr (.inl completed))
  have other {k : F} (differs : k ≠ g) : (freedFiber s g).fib k = s.fib k := State.setFib_of_ne differs _
  have fut {x : Id F E W} (differs : x ≠ .fiber g) : (freedFiber s g).fut x = s.fut x := by
    rw [freedFiber, State.setFib_fut, State.setFut_of_ne differs]
  have self : (freedFiber s g).fut (.fiber g) = freeFut := by
    rw [freedFiber, State.setFib_fut, State.setFut_self]
  have owned (k : F) : ((freedFiber s g).fib k).owned = (s.fib k).owned := by
    obtain rfl | differs := eq_or_ne k g
    · rw [freedFiber, State.setFib_self]
      rfl
    · rw [other differs]
  have owner : (freedFiber s g).owner = s.owner := by
    funext x
    cases x with
    | fiber k =>
      obtain rfl | differs := eq_or_ne k g
      · rw [State.owner, State.owner, self, unheld]
        rfl
      · rw [State.owner, State.owner, fut fun same => differs (Id.fiber.inj same), other differs]
    | ext x => rw [State.owner, State.owner, fut (Id.fiber_ne_ext g x).symm]
    | wait w => rw [State.owner, State.owner, fut (Id.fiber_ne_wait g w).symm]
  exact
    { scopes := by
        rw [owner, show (fun k => ((freedFiber s g).fib k).owned) = fun k => (s.fib k).owned from funext owned]
        exact core.scopes
      ext := fun x => by
        rw [fut (Id.fiber_ne_ext g x).symm]
        exact core.ext x
      wait := fun w => by
        rw [fut (Id.fiber_ne_wait g w).symm]
        exact (core.wait w).imp_right fun waiting => waiting.mono fun h _ k inside => (owned h).symm ▸ inside
      alive := fun k live => by
        have differs : k ≠ g := fun same => gone (same ▸ live)
        rw [State.Alive, other differs] at live
        rw [other differs, fut fun same => differs (Id.fiber.inj same)]
        exact core.alive k live
      dead := fun k dead => by
        obtain rfl | differs := eq_or_ne k g
        · rw [self]
          exact freeFut_blank
        · rw [State.Alive, other differs] at dead
          rw [fut fun same => differs (Id.fiber.inj same)]
          exact core.dead k dead
      waiters := fun k w => by
        rw [fut (Id.fiber_ne_wait g w).symm]
        obtain rfl | differs := eq_or_ne k g
        · rw [self]
          exact iff_of_false (Finset.notMem_empty w) fun both => untargeted w both.1
        · rw [fut fun same => differs (Id.fiber.inj same)]
          exact core.waiters k w
      main := fun k top held => by
        have differs : k ≠ g := by
          rintro rfl
          rw [(core.main k top held).1] at unheld
          cases unheld
        rw [fut fun same => differs (Id.fiber.inj same), other differs]
        exact core.main k top held
      ended := fun k ended => by
        obtain rfl | differs := eq_or_ne k g
        · exact (owned k).trans empty
        · rw [other differs] at ended ⊢
          exact core.ended k ended
      fresh := fun k initial away => by
        obtain rfl | differs := eq_or_ne k g
        · exact (owned k).trans empty
        · rw [other differs] at initial ⊢
          exact core.fresh k initial away
      running := fun k active => by
        have differs : k ≠ g := by
          rintro rfl
          exact (core.running_alive active).2.1 completed
        rw [other differs]
        exact core.running k active
      noCrash := core.noCrash }

/-- The child on top is released by its owner, which waits for nobody. -/
theorem release {g : F} {rest : List (Id F E W)} (top : (s.fib f).owned = .fiber g :: rest)
    (calm : ∀ w, .wait w ∉ (s.fib f).owned) :
    Core cfg ((s.setFut (.fiber g) fun u => { u with held := false }).setFib f Fib.pop) := by
  have inside : .fiber g ∈ (s.fib f).owned := by
    rw [top]
    exact List.mem_cons_self
  obtain ⟨held, creator⟩ := core.child inside
  have alive := core.alive_of_held held
  have fut {x : Id F E W} (differs : x ≠ .fiber g) :
      ((s.setFut (.fiber g) fun u => { u with held := false }).setFib f Fib.pop).fut x = s.fut x := by
    rw [State.setFib_fut, State.setFut_of_ne differs]
  have self : ((s.setFut (.fiber g) fun u => { u with held := false }).setFib f Fib.pop).fut (.fiber g) =
      { s.fut (.fiber g) with held := false } := by
    rw [State.setFib_fut, State.setFut_self]
  have notMain {k : F} (main : k ∈ cfg.topLevel) (owned : k ∉ cfg.floatingTop) : k ≠ g := by
    rintro rfl
    rw [(core.main k main owned).2] at creator
    cases creator
  have plain : Restacked cfg s ((s.setFut (.fiber g) fun u => { u with held := false }).setFib f Fib.pop) f :=
    { state := fun k => keeps_pop.setFib_state _ f k
      creator := fun k => keeps_pop.setFib_creator _ f k
      owned := fun k apart => by rw [State.setFib_of_ne apart, State.setFut_fib]
      phase := rfl
      crash := rfl
      kind := fun k => by
        obtain rfl | differs := eq_or_ne k g
        · rw [self]
        · rw [fut fun same => differs (Id.fiber.inj same)]
      cb := fun k => by
        obtain rfl | differs := eq_or_ne k g
        · rw [self]
        · rw [fut fun same => differs (Id.fiber.inj same)]
      done := fun k => by
        obtain rfl | differs := eq_or_ne k g
        · rw [self]
        · rw [fut fun same => differs (Id.fiber.inj same)]
      dead := fun k dead => fut fun same => dead (Id.fiber.inj same ▸ alive)
      main := fun k main owned => by rw [fut fun same => notMain main owned (Id.fiber.inj same)] }
  apply plain.core core running
  · rw [owned_update, owner_update (s := s) (x := .fiber g) (o := none)]
    · exact pop_owned top ▸ core.scopes.pop top
    · rw [State.owner, self]
      rfl
    · intro y differs
      cases y with
      | fiber k => rw [State.owner, State.owner, fut differs, keeps_pop.setFib_creator, State.setFut_fib]
      | ext x => rw [State.owner, State.owner, fut differs]
      | wait w => rw [State.owner, State.owner, fut differs]
  · intro x
    rw [fut (Id.fiber_ne_ext g x).symm]
    exact core.ext x
  · intro w
    rw [fut (Id.fiber_ne_wait g w).symm]
    refine (core.wait w).imp_right fun waiting => waiting.mono fun h cb k owned => ?_
    have differs : h ≠ f := by
      rintro rfl
      exact calm w (core.owned_of_cb cb)
    rwa [State.setFib_of_ne differs, State.setFut_fib]
  · intro k w
    rw [fut (Id.fiber_ne_wait g w).symm]
    obtain rfl | differs := eq_or_ne k g
    · rw [self]
      exact core.waiters k w
    · rw [fut fun same => differs (Id.fiber.inj same)]
      exact core.waiters k w

end Core

end LinuxTla.Fiber
