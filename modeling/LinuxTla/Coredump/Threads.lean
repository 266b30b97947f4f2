import LinuxTla.Coredump.Model

/-! What holds of every thread: its flags, pending signals and counters tell how
far it is on the way to its exit. -/

namespace LinuxTla.Coredump

open Lib

/-! ### Stages of a thread -/

/-- Past coredump_task_exit(). -/
def PC.past : PC → Bool
  | .parked | .exitCancel | .exitCancelTw | .exitWaitWorkers | .exitSignals | .exitNotify
  | .zombie | .dead => true
  | _ => false

/-- On the thread list and not yet past coredump_task_exit(). -/
def PC.before (pc : PC) : Bool := pc.live && !pc.past

/-- Where a thread still has get_signal() ahead. -/
def PC.catchable : PC → Bool
  | .run | .sigwait | .execCancelTw | .execWaitWorkers | .execDethread | .execWait | .execPost
  | .execLateTw | .execLateWait => true
  | _ => false

/-- On the way out after a fatal signal, before its own exit. -/
def PC.leaving : PC → Bool
  | .sqCancel | .sqCancelTw | .sqWaitWorkers => true
  | _ => false

/-- Past exit_signals(). -/
def PC.gone : PC → Bool
  | .exitNotify | .zombie | .dead => true
  | _ => false

/-- The dumper while core_state is attached. -/
def PC.attached : PC → Bool
  | .dumpWait | .dumpWrite | .dumpFinish => true
  | _ => false

/-- Which labels a thread of a role can have, with every patch applied. -/
def Role.suits : Role → PC → Bool
  | _, .run | _, .exitSync | _, .parked | _, .exitCancel | _, .exitCancelTw | _, .exitWaitWorkers
  | _, .exitSignals | _, .exitNotify | _, .dead => true
  | .user, .sigwait | .user, .dumpWait | .user, .dumpWrite | .user, .dumpFinish | .user, .dumpRelease
  | .user, .execCancelTw | .user, .execWaitWorkers | .user, .execDethread | .user, .execWait
  | .user, .execPost | .user, .zombie => true
  | .sqpoll, .sqCancel | .sqpoll, .sqCancelTw | .sqpoll, .sqWaitWorkers => true
  | .iowq, .wqExit | .slot, .wqExit | .slot, .none => true
  | _, _ => false

/-- What a thread's invariant depends on beside the thread. -/
structure View (T : Type) where
  exit : Bool
  exec : Option T
  dumper : Option T
  counted : Finset T
  active : Bool

def State.view {T : Type} (s : State T) : View T :=
  ⟨s.group.exit, s.group.exec, s.dumper, s.counted, s.core.active⟩

/-- The group is dying, or another thread's exec wants `t` dead. -/
def Marked {T : Type} (v : View T) (t : T) : Prop := v.exit = true ∨ ∃ e, v.exec = some e ∧ e ≠ t

structure ThreadInv {T : Type} (cfg : Config T) (v : View T) (t : T) (th : Thread T) : Prop where
  suits : (cfg.role t).suits th.pc = true
  mask : Sig.kill ∉ th.blocked ∧ Sig.kill ∉ th.realblocked
  post : Flag.postcoredump ∈ th.flags ↔ th.pc.past = true
  signaled : th.pc.leaving = true → Flag.signaled ∈ th.flags
  exiting : Flag.exiting ∈ th.flags → th.pc.gone = true
  exec : th.pc = .execWait ↔ v.exec = some t
  doomed : Marked v t → th.pc.catchable = true → th.sigpending = true ∧ Sig.kill ∈ th.pending
  clean : th.pc.before = true → Sig.kill ∈ th.pending → Marked v t
  dumping : th.pc.dumping = true → v.dumper = some t
  counted : t ∈ v.counted → th.pc ≠ .none ∧ v.dumper ≠ some t
  decremented : th.decremented = true ↔ t ∈ v.counted ∧ th.pc.past = true
  reach : v.active = true → th.pc.before = true → v.dumper = some t ∨ t ∈ v.counted

/-- A move that the counts of threads do not see. -/
structure PC.Moves (a b : PC) : Prop where
  before : b.before = a.before
  past : b.past = a.past
  live : b.live = a.live
  posts : b = .execPost → a = .execPost

/-- A move that the rendezvous does not see either. -/
structure PC.Glides (a b : PC) : Prop extends PC.Moves a b where
  attached : b.attached = a.attached
  waits : a = .dumpWait → b = .dumpWait

theorem PC.Moves.refl (a : PC) : a.Moves a := ⟨rfl, rfl, rfl, id⟩

theorem PC.Glides.refl (a : PC) : a.Glides a := ⟨.refl a, rfl, id⟩

/-- A move that asks nothing new of the thread. -/
structure PC.Passes (a b : PC) : Prop where
  glides : a.Glides b
  suits : ∀ role : Role, role.suits a = true → role.suits b = true
  leaving : b.leaving = true → a.leaving = true
  gone : a.gone = true → b.gone = true
  catchable : b.catchable = true → a.catchable = true
  wait : b = .execWait ↔ a = .execWait
  dumping : b.dumping = true → a.dumping = true
  none : b = .none → a = .none

def PC.passes (a b : PC) : Bool :=
  b.before == a.before && b.past == a.past && b.live == a.live && b.attached == a.attached &&
    (!(a == .dumpWait) || b == .dumpWait) && (!(b == .execPost) || a == .execPost) &&
    [Role.user, .sqpoll, .iowq, .slot].all (fun role => !role.suits a || role.suits b) &&
    (!b.leaving || a.leaving) && (!a.gone || b.gone) && (!b.catchable || a.catchable) &&
    (b == .execWait) == (a == .execWait) && (!b.dumping || a.dumping) && (!(b == .none) || a == .none)

theorem PC.Passes.of {a b : PC} (passes : a.passes b = true) : a.Passes b := by
  simp only [PC.passes, Bool.and_eq_true, Bool.or_eq_true, Bool.not_eq_true', beq_iff_eq, beq_eq_false_iff_ne,
    List.all_eq_true] at passes
  obtain ⟨⟨⟨⟨⟨⟨⟨⟨⟨⟨⟨⟨before, past⟩, live⟩, attached⟩, waits⟩, posts⟩, suits⟩, leaving⟩, gone⟩, catchable⟩,
    wait⟩, dumping⟩, none⟩ := passes
  have follows {p q : Bool} (either : p = false ∨ q = true) (holds : p = true) : q = true :=
    either.resolve_left fun fails => Bool.false_ne_true (fails.symm.trans holds)
  refine ⟨⟨⟨before, past, live, ?_⟩, attached, ?_⟩, fun role => follows (suits role ?_), follows leaving,
    follows gone, follows catchable, ?_, follows dumping, ?_⟩
  · exact fun here => posts.resolve_left (not_not_intro here)
  · exact fun here => waits.resolve_left (not_not_intro here)
  · cases role <;> decide
  · exact beq_eq_beq.1 wait
  · exact fun here => none.resolve_left (not_not_intro here)

theorem before_of_catchable {pc : PC} (catchable : pc.catchable = true) : pc.before = true := by
  cases pc <;> first | rfl | cases catchable

theorem not_gone_of_before {pc : PC} (before : pc.before = true) : pc.gone = false := by
  revert before
  cases pc <;> decide

theorem live_of_before {pc : PC} (before : pc.before = true) : pc.live = true := by
  cases pc <;> first | rfl | cases before

theorem live_eq_false {pc : PC} (gone : pc.live = false) : pc = .none ∨ pc = .dead := by
  revert gone
  cases pc <;> decide

theorem not_past_of_before {pc : PC} (before : pc.before = true) : pc.past = false := by
  cases pc <;> first | rfl | cases before

theorem alive_of_before {pc : PC} (before : pc.before = true) : pc.alive = true := by
  cases pc <;> first | rfl | cases before

theorem not_gone_of_dumping {pc : PC} (dumps : pc.dumping = true) : pc.gone = false := by
  revert dumps
  cases pc <;> decide

theorem user_of_dumping {role : Role} {pc : PC} (suits : role.suits pc = true) (dumps : pc.dumping = true) :
    role = .user := by
  revert suits dumps
  cases role <;> cases pc <;> decide

section Steps

variable {T : Type} {cfg : Config T} {v : View T} {t : T} {th : Thread T}

/-- Waking a thread, or telling it of task work. -/
theorem ThreadInv.wake (held : ThreadInv cfg v t th) : ThreadInv cfg v t { th with sigpending := true } :=
  { held with doomed := fun marked catchable => ⟨rfl, (held.doomed marked catchable).2⟩ }

theorem ThreadInv.signal (held : ThreadInv cfg v t th) :
    ThreadInv cfg v t { th with flags := insert .signaled th.flags } :=
  { held with
    post := by rw [Finset.mem_insert, or_iff_right (by decide)]; exact held.post
    signaled := fun _ => Finset.mem_insert_self ..
    exiting := fun flag => held.exiting ((Finset.mem_insert.1 flag).resolve_left (by decide)) }

theorem ThreadInv.queue (held : ThreadInv cfg v t th) {sig : Sig}
    (harmless : sig = .kill → th.pc.before = false) :
    ThreadInv cfg v t { th with pending := insert sig th.pending } :=
  { held with
    doomed := fun marked catchable =>
      ⟨(held.doomed marked catchable).1, Finset.mem_insert_of_mem (held.doomed marked catchable).2⟩
    clean := fun before kill => by
      obtain rfl | queued := Finset.mem_insert.1 kill
      · rw [harmless rfl] at before
        exact nomatch before
      · exact held.clean before queued }

theorem ThreadInv.wq (held : ThreadInv cfg v t th) (notify released freed wqexit refput : Bool)
    (twq : Finset (Work T)) (owner : Option T) :
    ThreadInv cfg v t { th with notify, released, freed, wqexit, refput, twq, owner } :=
  { held with }

/-- A move to a label that asks nothing new of the thread. -/
theorem ThreadInv.glide (held : ThreadInv cfg v t th) {pc : PC} (before : pc.before = th.pc.before)
    (past : pc.past = th.pc.past)
    (suits : (cfg.role t).suits pc = true) (signaled : pc.leaving = true → Flag.signaled ∈ th.flags)
    (gone : th.pc.gone = true → pc.gone = true) (catchable : pc.catchable = true → th.pc.catchable = true)
    (wait : pc = .execWait ↔ th.pc = .execWait) (dumping : pc.dumping = true → th.pc.dumping = true)
    (none : pc = .none → th.pc = .none) : ThreadInv cfg v t { th with pc := pc } where
  suits := suits
  mask := held.mask
  post := by rw [past]; exact held.post
  signaled := signaled
  exiting flag := gone (held.exiting flag)
  exec := wait.trans held.exec
  doomed marked caught := held.doomed marked (catchable caught)
  clean early := held.clean (before ▸ early)
  dumping dumps := held.dumping (dumping dumps)
  counted member := ⟨fun absent => (held.counted member).1 (none absent), (held.counted member).2⟩
  decremented := by rw [past]; exact held.decremented
  reach active early := held.reach active (before ▸ early)

theorem ThreadInv.goto (held : ThreadInv cfg v t th) {here : PC} (next : PC) (at_here : th.pc = here)
    (passes : here.passes next = true) : ThreadInv cfg v t { th with pc := next } := by
  subst at_here
  have passes := PC.Passes.of passes
  exact held.glide passes.glides.before passes.glides.past (passes.suits _ held.suits) (fun leaves => held.signaled (passes.leaving leaves))
    passes.gone passes.catchable passes.wait passes.dumping passes.none

theorem ThreadInv.dequeue (held : ThreadInv cfg v t th)
    (unmarked : ¬ Marked v t) {pend : Finset Sig} (fewer : pend ⊆ th.pending) (woken : Bool) :
    ThreadInv cfg v t { th with pending := pend, sigpending := woken } :=
  { held with
    doomed := fun marked => absurd marked unmarked
    clean := fun before kill => held.clean before (fewer kill) }

/-- Dequeueing on the way out: the label moves to `exitSync` at once. -/
theorem ThreadInv.lastDequeue (held : ThreadInv cfg v t th)
    (here : th.pc = .run) {pend : Finset Sig} (fewer : pend ⊆ th.pending) (woken : Bool) :
    ThreadInv cfg v t { th with pending := pend, sigpending := woken, pc := .exitSync } :=
  { held.goto .exitSync here rfl with
    doomed := fun _ caught => nomatch caught
    clean := fun _ kill => held.clean (by rw [here]; rfl) (fewer kill) }

theorem ThreadInv.remask (held : ThreadInv cfg v t th) (unmarked : ¬ Marked v t) {blocked realblocked : Finset Sig}
    (mask : Sig.kill ∉ blocked ∧ Sig.kill ∉ realblocked) (woken : Bool) :
    ThreadInv cfg v t { th with blocked := blocked, realblocked := realblocked, sigpending := woken } :=
  { held with
    mask := mask
    doomed := fun marked => absurd marked unmarked }

theorem ThreadInv.detach (held : ThreadInv cfg v t th) : ThreadInv cfg { v with active := false } t th :=
  { held with reach := nofun }

/-- The group starts to die, told to every thread that can still be caught. -/
theorem ThreadInv.exits (held : ThreadInv cfg v t th) (exit : Bool) (stays : v.exit = true → exit = true)
    (late : exit = true → v.exit = true ∨ th.pc.before = false) : ThreadInv cfg { v with exit := exit } t th :=
  { held with
    doomed := fun marked catchable => by
      obtain dies | other := marked
      · obtain already | past := late dies
        · exact held.doomed (.inl already) catchable
        · exact absurd ((before_of_catchable catchable).symm.trans past) nofun
      · exact held.doomed (.inr other) catchable
    clean := fun before kill => (held.clean before kill).imp_left stays }

/-- coredump_task_exit(). -/
theorem ThreadInv.sync (held : ThreadInv cfg v t th) (here : th.pc = .exitSync) {next : PC}
    (passed : next = .parked ∨ next = .exitCancel) {done : Bool} (counts : done = true ↔ t ∈ v.counted)
    (exit : Bool) : ThreadInv cfg { v with exit := exit } t
      { th with flags := insert .postcoredump th.flags, decremented := done, pc := next } := by
  have past : next.past = true := by obtain rfl | rfl := passed <;> rfl
  have before : next.before = false := by obtain rfl | rfl := passed <;> rfl
  constructor
  case suits => obtain rfl | rfl := passed <;> cases cfg.role t <;> rfl
  case mask => exact held.mask
  case post => exact ⟨fun _ => past, fun _ => Finset.mem_insert_self ..⟩
  case signaled => obtain rfl | rfl := passed <;> exact nofun
  case exiting =>
    intro flag
    have := held.exiting ((Finset.mem_insert.1 flag).resolve_left (by decide))
    rw [here] at this
    exact nomatch this
  case exec =>
    have := held.exec
    rw [here] at this
    refine ⟨fun waits => ?_, fun exec => nomatch this.2 exec⟩
    obtain rfl | rfl := passed <;> cases waits
  case doomed => obtain rfl | rfl := passed <;> exact fun _ => nofun
  case clean =>
    rw [before]
    exact nofun
  case dumping => obtain rfl | rfl := passed <;> exact nofun
  case counted =>
    refine fun member => ⟨?_, (held.counted member).2⟩
    obtain rfl | rfl := passed <;> exact nofun
  case decremented => exact counts.trans (and_iff_left past).symm
  case reach =>
    rw [before]
    exact fun _ => nofun

theorem ThreadInv.exitSignals (held : ThreadInv cfg v t th) (here : th.pc = .exitSignals) :
    ThreadInv cfg v t { th with flags := insert .exiting th.flags, pc := .exitNotify } :=
  have moved := held.goto .exitNotify here rfl
  { moved with
    post := by rw [Finset.mem_insert, or_iff_right (by decide)]; exact moved.post
    signaled := nofun
    exiting := fun _ => rfl }

/-- An io-wq worker leaves its loop. -/
theorem ThreadInv.seesExit (held : ThreadInv cfg v t th) (here : th.pc = .run)
    (ioWq : (cfg.role t).ioWq = true) : ThreadInv cfg v t { th with pc := .wqExit } := by
  have moves : th.pc.Moves .wqExit := by
    rw [here]
    exact ⟨rfl, rfl, rfl, nofun⟩
  refine held.glide moves.before moves.past ?_ nofun ?_ nofun ?_ nofun nofun
  · revert ioWq
    cases cfg.role t <;> decide
  · rw [here]
    exact nofun
  · rw [here]
    exact ⟨nofun, nofun⟩

/-- A new io thread of a group that nobody wants dead. -/
theorem ThreadInv.newborn (held : ThreadInv cfg v t th) (absent : th.pc = .none) (slot : cfg.role t = .slot)
    (lives : v.exit = false) (single : v.exec = none) (idle : v.active = false) {flags : Finset Flag}
    (fresh : Flag.postcoredump ∉ flags ∧ Flag.exiting ∉ flags) (owner : Option T) :
    ThreadInv cfg v t { th with
      pc := .run
      owner := owner
      flags := flags
      blocked := allButKill
      pending := ∅
      sigpending := false
      notify := false
      refput := false } := by
  have unmarked : ¬ Marked v t := by
    rintro (dies | ⟨e, executing, -⟩)
    · exact Bool.false_ne_true (lives.symm.trans dies)
    · exact nomatch single.symm.trans executing
  constructor
  case suits => rw [slot]; rfl
  case mask =>
    refine ⟨?_, held.mask.2⟩
    simp only
    decide
  case post => exact ⟨fun flag => absurd flag fresh.1, nofun⟩
  case signaled => exact nofun
  case exiting => exact fun flag => absurd flag fresh.2
  case exec => exact ⟨nofun, fun executing => nomatch single.symm.trans executing⟩
  case doomed => exact fun marked => absurd marked unmarked
  case clean => exact fun _ kill => absurd kill (Finset.notMem_empty _)
  case dumping => exact nofun
  case counted => exact fun member => absurd absent (held.counted member).1
  case decremented =>
    refine ⟨fun done => ?_, fun both => nomatch both.2⟩
    exact absurd absent (held.counted (held.decremented.1 done).1).1
  case reach => exact fun active => nomatch idle.symm.trans active

theorem ThreadInv.sibling (held : ThreadInv cfg v t th) (single : v.exec = none)
    {e : T} (different : t ≠ e) {pend : Finset Sig} {woken : Bool}
    (caught : th.pc.catchable = true → woken = true ∧ Sig.kill ∈ pend) :
    ThreadInv cfg { v with exec := some e } t { th with pending := pend, sigpending := woken } :=
  { held with
    exec := by
      refine ⟨fun waits => ?_, fun same => absurd (Option.some.inj same).symm different⟩
      exact nomatch single.symm.trans (held.exec.1 waits)
    doomed := fun _ catchable => caught catchable
    clean := fun _ _ => .inr ⟨e, rfl, different.symm⟩ }

theorem ThreadInv.deThread (held : ThreadInv cfg v t th) (here : th.pc = .execDethread)
    (lives : v.exit = false) (single : v.exec = none) :
    ThreadInv cfg { v with exec := some t } t { th with pc := .execWait } := by
  have unmarked : ¬ Marked v t := by
    rintro (dies | ⟨e, executing, -⟩)
    · exact Bool.false_ne_true (lives.symm.trans dies)
    · exact nomatch single.symm.trans executing
  have user := held.suits
  rw [here] at user
  constructor
  case suits =>
    simp only
    revert user
    cases cfg.role t <;> decide
  case mask => exact held.mask
  case post =>
    have := held.post
    rw [here] at this
    exact this
  case signaled => exact nofun
  case exiting =>
    intro flag
    have := held.exiting flag
    rw [here] at this
    exact nomatch this
  case exec => exact ⟨fun _ => rfl, fun _ => rfl⟩
  case doomed =>
    rintro (dies | ⟨e, executing, different⟩)
    · exact absurd (lives.symm.trans dies) nofun
    · exact absurd (Option.some.inj executing).symm different
  case clean => exact fun _ kill => absurd (held.clean (by rw [here]; rfl) kill) unmarked
  case dumping => exact nofun
  case counted => exact fun member => ⟨nofun, (held.counted member).2⟩
  case decremented =>
    have := held.decremented
    rw [here] at this
    exact this
  case reach => exact fun active _ => held.reach active (by rw [here]; rfl)

/-- exec gives the group back, or is through. -/
theorem ThreadInv.execEnds (held : ThreadInv cfg v t th) (here : th.pc = .execWait) (executing : v.exec = some t)
    {pc : PC} (next : pc = .execPost ∨ pc = .run) : ThreadInv cfg { v with exec := none } t { th with pc := pc } := by
  have user := held.suits
  have post := held.post
  have exiting := held.exiting
  have decremented := held.decremented
  rw [here] at user post exiting decremented
  constructor
  case suits =>
    simp only
    revert user
    obtain rfl | rfl := next <;> cases cfg.role t <;> decide
  case mask => exact held.mask
  case post => obtain rfl | rfl := next <;> exact post
  case signaled => obtain rfl | rfl := next <;> exact nofun
  case exiting => exact fun flag => nomatch exiting flag
  case exec => obtain rfl | rfl := next <;> exact ⟨nofun, nofun⟩
  case doomed =>
    rintro (dies | ⟨_, none, -⟩) _
    · exact held.doomed (.inl dies) (by rw [here]; rfl)
    · exact nomatch none
  case clean =>
    intro _ kill
    obtain dies | ⟨e, other, different⟩ := held.clean (by rw [here]; rfl) kill
    · exact .inl dies
    · exact absurd (Option.some.inj (executing.symm.trans other)).symm different
  case dumping => obtain rfl | rfl := next <;> exact nofun
  case counted =>
    refine fun member => ⟨?_, (held.counted member).2⟩
    obtain rfl | rfl := next <;> exact nofun
  case decremented => obtain rfl | rfl := next <;> exact decremented
  case reach => exact fun active _ => held.reach active (by rw [here]; rfl)

/-- The others when exec ends: the group dies or they are gone. -/
theorem ThreadInv.bystander (held : ThreadInv cfg v t th) {e : T} (executing : v.exec = some e)
    (different : t ≠ e) (quiet : v.exit = true ∨ th.pc.before = false) :
    ThreadInv cfg { v with exec := none } t th :=
  { held with
    exec := by
      refine ⟨fun waits => ?_, fun none => nomatch none⟩
      exact absurd (Option.some.inj (executing.symm.trans (held.exec.1 waits))).symm different
    doomed := fun marked catchable => by
      obtain dies | ⟨_, none, -⟩ := marked
      · exact held.doomed (.inl dies) catchable
      · exact nomatch none
    clean := fun before _ => .inl (quiet.resolve_right fun gone => nomatch before.symm.trans gone) }

theorem ThreadInv.execStart (held : ThreadInv cfg v t th) (here : th.pc = .run) (user : cfg.role t = .user)
    {pc : PC} (next : pc = .execCancelTw ∨ pc = .execDethread) : ThreadInv cfg v t { th with pc := pc } := by
  have moves : pc.before = th.pc.before ∧ pc.past = th.pc.past := by
    rw [here]
    obtain rfl | rfl := next <;> exact ⟨rfl, rfl⟩
  refine held.glide moves.1 moves.2 ?_ ?_ ?_ ?_ ?_ ?_ ?_
  · rw [user]
    obtain rfl | rfl := next <;> rfl
  · obtain rfl | rfl := next <;> exact nofun
  · rw [here]
    exact nofun
  · rw [here]
    exact fun _ => rfl
  · rw [here]
    obtain rfl | rfl := next <;> exact ⟨nofun, nofun⟩
  · obtain rfl | rfl := next <;> exact nofun
  · obtain rfl | rfl := next <;> exact nofun

theorem ThreadInv.execAlone (held : ThreadInv cfg v t th) (here : th.pc = .execDethread) :
    ThreadInv cfg v t { th with pc := .execPost } := by
  have user := held.suits
  rw [here] at user
  refine held.glide (by rw [here]; rfl) (by rw [here]; rfl) ?_ nofun ?_ ?_ ?_ nofun nofun
  · revert user
    cases cfg.role t <;> decide
  · rw [here]
    exact nofun
  · rw [here]
    exact fun _ => rfl
  · rw [here]
    exact ⟨nofun, nofun⟩

theorem ThreadInv.release (held : ThreadInv cfg v t th) (here : th.pc = .exitNotify ∨ th.pc = .zombie) :
    ThreadInv cfg v t { th with pc := .dead } := by
  have moves : PC.dead.before = th.pc.before ∧ PC.dead.past = th.pc.past := by
    obtain here | here := here <;> rw [here] <;> exact ⟨rfl, rfl⟩
  refine held.glide moves.1 moves.2 ?_ nofun (fun _ => rfl) nofun ?_ nofun nofun
  · cases cfg.role t <;> rfl
  · obtain here | here := here <;> rw [here] <;> exact ⟨nofun, nofun⟩

theorem ThreadInv.dumps (held : ThreadInv cfg v t th) (here : th.pc = .exitSync) (user : cfg.role t = .user)
    (single : v.exec = none) {zapped : Finset T} (member : t ∉ zapped) (fresh : th.decremented = false)
    {pc : PC} (waits : pc = .dumpWait ∨ pc = .dumpWrite) :
    ThreadInv cfg ⟨true, v.exec, some t, zapped, true⟩ t
      { th with sigpending := false, flags := th.flags ∪ {.signaled, .dumpcore}, pc := pc } := by
  have keeps {flag : Flag} (here : flag ∈ th.flags ∪ {.signaled, .dumpcore}) (other : flag ≠ .signaled)
      (other' : flag ≠ .dumpcore) : flag ∈ th.flags := by
    obtain kept | added := Finset.mem_union.1 here
    · exact kept
    · obtain same | same := Finset.mem_insert.1 added
      · exact absurd same other
      · exact absurd (Finset.mem_singleton.1 same) other'
  have past : pc.past = false := by obtain rfl | rfl := waits <;> rfl
  constructor
  case suits => rw [user]; obtain rfl | rfl := waits <;> rfl
  case mask => exact held.mask
  case post =>
    rw [past]
    refine ⟨fun flag => ?_, nofun⟩
    have := held.post.1 (keeps flag nofun nofun)
    rw [here] at this
    exact nomatch this
  case signaled => exact fun _ => Finset.mem_union_right _ (by decide)
  case exiting =>
    intro flag
    have := held.exiting (keeps flag nofun nofun)
    rw [here] at this
    exact nomatch this
  case exec =>
    rw [single]
    obtain rfl | rfl := waits <;> exact ⟨nofun, nofun⟩
  case doomed => obtain rfl | rfl := waits <;> exact fun _ caught => nomatch caught
  case clean => exact fun _ _ => .inl rfl
  case dumping => exact fun _ => rfl
  case counted => exact fun counted => absurd counted member
  case decremented =>
    rw [past]
    exact ⟨fun done => absurd (fresh.symm.trans done) Bool.false_ne_true, fun both => nomatch both.2⟩
  case reach => exact fun _ _ => .inl rfl

/-- A sibling when the dump of `d` starts. -/
theorem ThreadInv.zapped (held : ThreadInv cfg v t th) (fresh : v.dumper = none)
    {d : T} (different : t ≠ d) {zapped : Finset T} (counts : t ∈ zapped ↔ th.pc.before = true)
    (undone : th.decremented = false) {pend : Finset Sig} {woken : Bool}
    (caught : t ∈ zapped → woken = true ∧ Sig.kill ∈ pend) :
    ThreadInv cfg ⟨true, v.exec, some d, zapped, true⟩ t { th with pending := pend, sigpending := woken } :=
  { held with
    doomed := fun _ catchable => caught (counts.2 (before_of_catchable catchable))
    clean := fun _ _ => .inl rfl
    dumping := fun dumps => absurd (fresh.symm.trans (held.dumping dumps)) nofun
    counted := fun counted => by
      refine ⟨fun absent => ?_, fun same => different (Option.some.inj same).symm⟩
      have := counts.1 counted
      rw [absent] at this
      exact nomatch this
    decremented := by
      refine ⟨fun done => absurd (undone.symm.trans done) Bool.false_ne_true, fun both => ?_⟩
      exact absurd (not_past_of_before (counts.1 both.1)) (Bool.eq_false_iff.not.2 (not_not_intro both.2))
    reach := fun _ before => .inr (counts.2 before) }

/-- A worker leaves get_signal() for its own exit. -/
theorem ThreadInv.leave (held : ThreadInv cfg v t th) (here : th.pc = .exitSync)
    (worker : (cfg.role t).worker = true) (signaled : Flag.signaled ∈ th.flags) :
    ThreadInv cfg v t { th with pc := if cfg.role t = .sqpoll then .sqCancel else .wqExit } := by
  have glides (role : Role) : th.pc.Glides (if role = .sqpoll then .sqCancel else .wqExit) := by
    rw [here]
    split <;> exact ⟨⟨rfl, rfl, rfl, nofun⟩, rfl, nofun⟩
  refine held.glide (glides _).before (glides _).past ?_ (fun _ => signaled) (by rw [here]; exact nofun) ?_ ?_ ?_ ?_
  · cases role : cfg.role t with
    | user => rw [role] at worker; exact nomatch worker
    | sqpoll | iowq | slot => rfl
  · split <;> exact nofun
  · rw [here]
    split <;> exact ⟨nofun, nofun⟩
  · split <;> exact nofun
  · split <;> exact nofun

end Steps

end LinuxTla.Coredump
