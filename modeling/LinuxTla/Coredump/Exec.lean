import LinuxTla.Coredump.Steps

/-! The steps that change who is live: worker creation, execve() and
exit_notify(). With them the invariant holds in every reachable state. -/

namespace LinuxTla.Coredump

open Lib

variable {T : Type} [DecidableEq T] [Fintype T] {cfg : Config T} {s s' : State T}

/-- Without a dumper there is no rendezvous to keep. -/
theorem Inv.calm (inv : Inv cfg s) (alive : s.group.exit = false)
    (threads : ∀ t, ThreadInv cfg s'.view t (s'.thread t)) (dumper : s'.dumper = s.dumper)
    (counted : s'.counted = s.counted) (core : s'.core = s.core) (quick : s'.group.quick = quickThreads s')
    (notifyCount : ∀ e, s'.group.exec = some e → e = cfg.leader ∨ (s'.thread cfg.leader).pc.live = true →
      s'.group.notifyCount = (siblings cfg s' e).card)
    (alone : ∀ e, (s'.thread e).pc = .execPost → ∀ t, t ≠ e → (s'.thread t).pc.live = false) : Inv cfg s' := by
  have none := inv.dumper_none alive
  have idle := inv.idle alive
  have none' : s'.dumper = .none := dumper.trans none
  refine ⟨threads, quick, ?_, ?_, ?_, ?_, ?_, notifyCount, alone⟩
  · intro active
    rw [core, idle] at active
    exact nomatch active
  · exact fun some => absurd none' some.1
  · rw [core, idle]
    unfold dumperPc
    rw [none']
    exact ⟨nofun, nofun⟩
  · exact fun _ => counted.trans (inv.started none)
  · exact fun some => absurd none' some

/-! ### Worker creation -/

/-- A thread the gates let through has get_signal() ahead, so with nothing pending
nobody wants the group dead. -/
theorem Inv.creator (inv : Inv cfg s) {c : T} (point : (s.thread c).pc.taskWork = true)
    (signaled : Flag.signaled ∉ (s.thread c).flags) (post : Flag.postcoredump ∉ (s.thread c).flags)
    (quiet : (s.thread c).sigpending = false) :
    (s.thread c).pc.catchable = true ∧ (s.thread c).pc ≠ .execPost ∧
      s.group.exit = false ∧ s.group.exec = none := by
  have held := inv.threads c
  have place : (s.thread c).pc = .run ∨ (s.thread c).pc = .execCancelTw := by
    have suits := held.suits
    have leaving := held.signaled
    have past := held.post
    cases pc : (s.thread c).pc <;> rw [pc] at point suits leaving past
    case run => exact .inl rfl
    case execCancelTw => exact .inr rfl
    case exitCancelTw => exact absurd (past.2 rfl) post
    case sqCancelTw => exact absurd (leaving rfl) signaled
    case execLateTw => cases role : cfg.role c <;> rw [role] at suits <;> exact absurd suits (by decide)
    all_goals exact nomatch point
  have catchable : (s.thread c).pc.catchable = true := by
    obtain here | here := place <;> rw [here] <;> rfl
  have unmarked : ¬ Marked s.view c := fun marked =>
    Bool.false_ne_true (quiet.symm.trans (held.doomed marked catchable).1)
  refine ⟨catchable, ?_, Bool.eq_false_iff.2 fun dies => unmarked (.inl dies), ?_⟩
  · obtain here | here := place <;> rw [here] <;> exact nofun
  · by_contra some
    obtain ⟨e, executing⟩ := Option.ne_none_iff_exists'.1 some
    refine unmarked (.inr ⟨e, executing, ?_⟩)
    rintro rfl
    have waits := held.exec.2 executing
    obtain here | here := place <;> rw [here] at waits <;> exact nomatch waits

theorem Inv.newWorker (inv : Inv cfg s) {c n : T} (point : (s.thread c).pc.taskWork = true)
    (signaled : Flag.signaled ∉ (s.thread c).flags) (post : Flag.postcoredump ∉ (s.thread c).flags)
    (quiet : (s.thread c).sigpending = false) (slot : cfg.role n = .slot) (absent : (s.thread n).pc = .none) :
    Inv cfg (newWorker s c n) := by
  obtain ⟨catchable, posted, lives, single⟩ := inv.creator point signaled post quiet
  have own := inv.threads c
  have before : (s.thread c).pc.before = true := before_of_catchable catchable
  have exiting : Flag.exiting ∉ (s.thread c).flags := fun flag =>
    nomatch (not_gone_of_before before).symm.trans (own.exiting flag)
  have idle := inv.idle lives
  have self : (Coredump.newWorker s c n).thread n = _ := State.set_self ..
  have other (u : T) (different : u ≠ n) : (Coredump.newWorker s c n).thread u = s.thread u :=
    State.set_other _ _ different
  refine inv.calm lives (fun u => ?_) rfl rfl rfl ?_ ?_ ?_
  · obtain rfl | different := eq_or_ne u n
    · rw [self]
      exact (inv.threads u).newborn absent slot lives single idle ⟨post, exiting⟩ _
    · rw [other u different]
      exact inv.threads u
  · change s.group.quick + 1 = _
    have joins : quickThreads (Coredump.newWorker s c n) = quickThreads s + 1 :=
      quickThreads_leave (t := n) (by rw [self]; rfl) (by rw [absent]; rfl)
        fun u different => by rw [other u different]
    rw [joins, inv.quick]
    rfl
  · intro e executing
    exact nomatch single.symm.trans executing
  · intro e posts
    have apart : e ≠ n := by
      rintro rfl
      rw [self] at posts
      exact nomatch posts
    rw [other e apart] at posts
    have different : c ≠ e := by
      rintro rfl
      exact posted posts
    have gone := inv.alone e posts c different
    exact nomatch (live_of_before before).symm.trans gone

theorem Inv.createWorker (fixed : cfg.Fixed) (inv : Inv cfg s) {c : T} (step : CreateWorker cfg s c s') :
    Inv cfg s' := by
  obtain ⟨-, point, item, -, result⟩ := step
  have taken (twq : Finset (Work T)) : Inv cfg (s.set c { s.thread c with twq := twq }) := inv.stay c ..
  obtain ⟨-, -, rfl⟩ | result := result
  · exact taken _
  split at result
  · subst result
    exact taken _
  next open' =>
    split at result
    · split at result
      · subst result
        exact (taken _).frame ..
      · subst result
        exact taken _
    next quiet =>
      obtain ⟨n, slot, absent, rfl⟩ | ⟨-, rfl⟩ := result
      · have apart : n ≠ c := by
          rintro rfl
          rw [absent] at point
          exact nomatch point
        simp only [fixed.gateSignaled, fixed.gatePostcoredump, true_and, not_or] at open'
        refine (taken _).newWorker ?_ ?_ ?_ ?_ slot ?_
        · rw [State.set_self]
          exact point
        · rw [State.set_self]
          exact open'.1
        · rw [State.set_self]
          exact open'.2
        · rw [State.set_self]
          exact Bool.eq_false_iff.2 quiet
        · rw [State.set_other _ _ apart]
          exact absent
      · exact taken _

/-! ### execve() -/

theorem Inv.execStart (inv : Inv cfg s) {t : T} (step : ExecStart cfg s t s') : Inv cfg s' := by
  obtain ⟨role, user, -, rfl⟩ := step
  have goes {pc : PC} (next : pc = .execCancelTw ∨ pc = .execDethread) (wqexit : Bool) :
      Inv cfg (s.set t { s.thread t with wqexit := wqexit, pc := pc }) := by
    have held := ((inv.threads t).execStart user.1 role next).wq (s.thread t).notify (s.thread t).released
      (s.thread t).freed wqexit (s.thread t).refput (s.thread t).twq (s.thread t).owner
    refine inv.set t held ?_ rfl
    rw [user.1]
    obtain rfl | rfl := next <;> exact ⟨⟨rfl, rfl, rfl, nofun⟩, rfl, nofun⟩
  split
  · exact (goes (.inl rfl) _).frame ..
  · exact (goes (.inr rfl) (s.thread t).wqexit).frame ..

omit [Fintype T] in
theorem card_siblings [Fintype T] (e : T) (leader : e = cfg.leader ∨ (s.thread cfg.leader).pc.live = true) :
    ((siblings cfg s e).card : ℤ) = (othersLive s e).card - (if e = cfg.leader then 0 else 1) := by
  split
  next own =>
    have same : siblings cfg s e = othersLive s e := by
      refine Finset.filter_congr fun u _ => ?_
      rw [← own]
      tauto
    rw [same]
    omega
  next other =>
    have inside : cfg.leader ∈ othersLive s e :=
      Finset.mem_filter.2 ⟨Finset.mem_univ _, Ne.symm other, leader.resolve_left other⟩
    have same : siblings cfg s e = (othersLive s e).erase cfg.leader := by
      ext u
      simp only [siblings, othersLive, Finset.mem_filter, Finset.mem_univ, true_and, Finset.mem_erase]
      tauto
    have := Finset.card_pos.2 ⟨_, inside⟩
    rw [same, Finset.card_erase_of_mem inside]
    omega

theorem Inv.deThread (inv : Inv cfg s) {t : T} (step : DeThread cfg s t s') : Inv cfg s' := by
  obtain ⟨here, result⟩ := step
  have before : (s.thread t).pc.before = true := by rw [here]; rfl
  split at result
  next empty =>
    -- Nobody else is live.
    subst result
    have other (u : T) (different : u ≠ t) :
        (s.set t { s.thread t with pc := .execPost }).thread u = s.thread u := State.set_other _ _ different
    have pc {A : Type} (f : PC → A) (same : f .execDethread = f .execPost) (u : T) :
        f ((s.set t { s.thread t with pc := .execPost }).thread u).pc = f (s.thread u).pc := by
      obtain rfl | different := eq_or_ne u t
      · rw [State.set_self, here]
        exact same.symm
      · rw [other u different]
    refine inv.of_live (fun u => ?_) (pc PC.before rfl) (pc PC.live rfl) rfl rfl id rfl
      (fun e executing => ⟨executing, rfl⟩) (inv.meets (pc PC.attached rfl) ?_ ?_ rfl rfl rfl) ?_
    · obtain rfl | different := eq_or_ne u t
      · rw [State.set_self]
        exact (inv.threads u).execAlone here
      · rw [other u different]
        exact inv.threads u
    · intro u waits
      rw [other u]
      · exact waits
      · rintro rfl
        cases here.symm.trans waits
    · intro u
      obtain rfl | different := eq_or_ne u t
      · rw [State.set_self]
      · rw [other u different]
    · intro e posts u different
      obtain rfl | apart := eq_or_ne e t
      · refine Bool.eq_false_iff.2 fun live => ?_
        have inside : u ∈ othersLive s e := Finset.mem_filter.2 ⟨Finset.mem_univ u, different, live⟩
        rw [show othersLive s e = ∅ from empty] at inside
        exact absurd inside (Finset.notMem_empty u)
      · rw [other e apart] at posts
        exact inv.alone e posts u different
  split at result
  · subst result
    exact inv.goto t .run here rfl
  next quiet =>
    obtain ⟨lives, single⟩ : s.group.exit = false ∧ s.group.exec = none := by
      rw [not_or, not_not] at quiet
      exact ⟨Bool.eq_false_iff.2 quiet.1, quiet.2⟩
    have self : s'.thread t = { s.thread t with pc := .execWait } := by
      rw [result]
      exact State.set_self ..
    have other (u : T) (different : u ≠ t) :
        ∃ pend woken, s'.thread u = { s.thread u with pending := pend, sigpending := woken } ∧
          ((s.thread u).pc.catchable = true → woken = true ∧ Sig.kill ∈ pend) := by
      obtain ⟨pend, woken, thread, caught⟩ := zap_cases s (fun u => u ≠ t ∧ (s.thread u).pc.alive = true) u
      refine ⟨pend, woken, ?_, fun catchable =>
        caught ⟨different, alive_of_before (before_of_catchable catchable)⟩⟩
      rw [result]
      exact (State.set_other _ _ different).trans thread
    have pc {A : Type} (f : PC → A) (same : f .execDethread = f .execWait) (u : T) :
        f (s'.thread u).pc = f (s.thread u).pc := by
      obtain rfl | different := eq_or_ne u t
      · rw [self, here]
        exact same.symm
      · obtain ⟨pend, woken, thread, -⟩ := other u different
        rw [thread]
    have live := pc PC.live rfl
    have view : s'.view = { s.view with exec := some t } := by
      rw [result]
      rfl
    have core : s'.core = s.core := by rw [result]; rfl
    have count : s'.group = { s.group with
        exec := some t
        notifyCount := ((othersLive s t).card : ℤ) - (if t = cfg.leader then 0 else 1) } := by
      rw [result]
    refine inv.calm lives (fun u => ?_) (congrArg View.dumper view) (congrArg View.counted view) core ?_ ?_ ?_
    · rw [view]
      obtain rfl | different := eq_or_ne u t
      · rw [self]
        exact (inv.threads u).deThread here lives single
      · obtain ⟨pend, woken, thread, caught⟩ := other u different
        rw [thread]
        exact (inv.threads u).sibling single different caught
    · have quick : quickThreads s' = quickThreads s := by
        unfold quickThreads
        refine congrArg Finset.card (Finset.filter_congr fun u _ => ?_)
        rw [pc PC.before rfl]
      rw [quick, count]
      exact inv.quick
    · intro e executing
      rw [count] at executing ⊢
      obtain rfl := Option.some.inj executing
      rw [live]
      intro leader
      have same : siblings cfg s' t = siblings cfg s t := by
        refine Finset.filter_congr fun u _ => ?_
        rw [live]
      rw [same, card_siblings t leader]
    · intro e posts
      have apart : e ≠ t := by
        rintro rfl
        rw [self] at posts
        cases posts
      obtain ⟨pend, woken, thread, -⟩ := other e apart
      rw [thread] at posts
      have gone := inv.alone e posts t apart.symm
      cases (live_of_before before).symm.trans gone

/-- notify_count never lets de_thread() return while a sibling is live. -/
theorem Inv.alone_of_notifyCount (inv : Inv cfg s) {e : T} (here : (s.thread e).pc = .execWait)
    (zero : s.group.notifyCount = 0) (leader : e = cfg.leader ∨ (s.thread cfg.leader).pc = .zombie) {t : T}
    (different : t ≠ e) (apart : t ≠ cfg.leader) : (s.thread t).pc.live = false := by
  have executing : s.group.exec = some e := (inv.threads e).exec.1 here
  have count := inv.notifyCount e executing (leader.imp_right fun zombie => by rw [zombie]; rfl)
  rw [zero] at count
  have none := Finset.card_eq_zero.1 (Int.ofNat_eq_zero.1 count.symm)
  refine Bool.eq_false_iff.2 fun live => ?_
  exact Finset.filter_eq_empty_iff.1 none (Finset.mem_univ t) ⟨different, apart, live⟩

omit [Fintype T] in
/-- Only the exec'ing thread moves, and a zombie leader is released. -/
theorem DeThreadDone.cases {t : T} (step : DeThreadDone cfg s t s') (u : T) :
    u = t ∧ s'.thread u = { s.thread u with pc := .execPost } ∨
      u ≠ t ∧ u = cfg.leader ∧ (s.thread u).pc = .zombie ∧ s'.thread u = { s.thread u with pc := .dead } ∨
      u ≠ t ∧ u ≠ cfg.leader ∧ s'.thread u = s.thread u := by
  obtain ⟨-, -, leader, rfl⟩ := step
  simp only
  obtain rfl | different := eq_or_ne u t
  · exact .inl ⟨rfl, if_pos rfl⟩
  · rw [if_neg different]
    obtain rfl | apart := eq_or_ne u cfg.leader
    · exact .inr (.inl ⟨different, rfl, leader.resolve_left different.symm, if_pos rfl⟩)
    · exact .inr (.inr ⟨different, apart, if_neg apart⟩)

theorem Inv.deThreadDone (inv : Inv cfg s) {t : T} (step : DeThreadDone cfg s t s') : Inv cfg s' := by
  have cases := step.cases
  obtain ⟨here, zero, leader, result⟩ := step
  have executing : s.group.exec = some t := (inv.threads t).exec.1 here
  have pc {A : Type} (f : PC → A) (same : f .execWait = f .execPost) (dead : f .zombie = f .dead) (u : T) :
      f (s'.thread u).pc = f (s.thread u).pc := by
    obtain ⟨rfl, thread⟩ | ⟨-, -, zombie, thread⟩ | ⟨-, -, thread⟩ := cases u
    · rw [thread, here]
      exact same.symm
    · rw [thread, zombie]
      exact dead.symm
    · rw [thread]
  have waits (u : T) (waiting : (s.thread u).pc = .dumpWait) : (s'.thread u).pc = .dumpWait := by
    obtain ⟨rfl, -⟩ | ⟨-, -, zombie, -⟩ | ⟨-, -, thread⟩ := cases u
    · exact nomatch here.symm.trans waiting
    · exact nomatch zombie.symm.trans waiting
    · rw [thread]
      exact waiting
  have decremented (u : T) : (s'.thread u).decremented = (s.thread u).decremented := by
    obtain ⟨-, thread⟩ | ⟨-, -, -, thread⟩ | ⟨-, -, thread⟩ := cases u <;> rw [thread]
  have dumper : s'.dumper = s.dumper := by rw [result]
  have counted : s'.counted = s.counted := by rw [result]
  have core : s'.core = s.core := by rw [result]
  have group : s'.group = { s.group with exec := none } := by rw [result]
  obtain ⟨remaining, rendezvous, active⟩ :=
    inv.meets (pc PC.attached rfl rfl) waits decremented dumper counted core
  have dead (u : T) (different : u ≠ t) : (s'.thread u).pc.live = false := by
    obtain ⟨same, -⟩ | ⟨-, -, -, thread⟩ | ⟨-, apart, thread⟩ := cases u
    · exact absurd same different
    · rw [thread]
      rfl
    · rw [thread]
      exact inv.alone_of_notifyCount here zero leader different apart
  have view : s'.view = { s.view with exec := none } := by
    rw [result]
    rfl
  refine ⟨fun u => ?_, ?_, remaining, rendezvous, active, ?_, ?_, ?_, ?_⟩
  · rw [view]
    have held := inv.threads u
    obtain ⟨rfl, thread⟩ | ⟨different, -, zombie, thread⟩ | ⟨different, apart, thread⟩ := cases u
    · rw [thread]
      exact held.execEnds here executing (.inl rfl)
    · rw [thread]
      exact (held.release (.inr zombie)).bystander executing different (.inr rfl)
    · rw [thread]
      refine held.bystander executing different (.inr ?_)
      unfold PC.before
      rw [inv.alone_of_notifyCount here zero leader different apart]
      rfl
  · have quick : quickThreads s' = quickThreads s := by
      unfold quickThreads
      refine congrArg Finset.card (Finset.filter_congr fun u _ => ?_)
      rw [pc PC.before rfl rfl]
    rw [quick, group]
    exact inv.quick
  · rw [dumper, counted]
    exact inv.started
  · rw [dumper, group]
    exact inv.dies
  · rw [group]
    exact nofun
  · intro e posts u different
    obtain rfl | apart := eq_or_ne e t
    · exact dead u different
    · have gone := dead e apart
      rw [posts] at gone
      exact nomatch gone

theorem Inv.deThreadKilled (inv : Inv cfg s) {t : T} (step : DeThreadKilled s t s') : Inv cfg s' := by
  obtain ⟨here, kill, rfl⟩ := step
  have held := inv.threads t
  have executing : s.group.exec = some t := held.exec.1 here
  -- Only a group exit kills the thread that waits in de_thread().
  have dies : s.group.exit = true := by
    obtain dies | ⟨e, other, different⟩ := held.clean (by rw [here]; rfl) kill
    · exact dies
    · exact absurd (Option.some.inj (executing.symm.trans other)).symm different
  have other (u : T) (different : u ≠ t) : (s.set t { s.thread t with pc := .run }).thread u = s.thread u :=
    State.set_other _ _ different
  have pc {A : Type} (f : PC → A) (same : f .execWait = f .run) (u : T) :
      f ((s.set t { s.thread t with pc := .run }).thread u).pc = f (s.thread u).pc := by
    obtain rfl | different := eq_or_ne u t
    · rw [State.set_self, here]
      exact same.symm
    · rw [other u different]
  refine inv.of_live (fun u => ?_) (pc PC.before rfl) (pc PC.live rfl) rfl rfl id rfl (fun e none => nomatch none)
    (inv.meets (pc PC.attached rfl) ?_ ?_ rfl rfl rfl) ?_
  · simp only
    obtain rfl | different := eq_or_ne u t
    · rw [State.set_self]
      exact held.execEnds here executing (.inr rfl)
    · rw [other u different]
      exact (inv.threads u).bystander executing different (.inl dies)
  · intro u waits
    have apart : u ≠ t := by
      rintro rfl
      exact nomatch here.symm.trans waits
    exact (congrArg Thread.pc (other u apart)).trans waits
  · intro u
    obtain rfl | different := eq_or_ne u t
    · simp only [State.set_self]
    · exact congrArg Thread.decremented (other u different)
  · intro e posts
    have apart : e ≠ t := by
      rintro rfl
      exact nomatch (congrArg Thread.pc (State.set_self ..)).symm.trans posts
    exact inv.alone e ((congrArg Thread.pc (other e apart)).symm.trans posts)

theorem Inv.execPost (fixed : cfg.Fixed) (inv : Inv cfg s) {t : T} (step : ExecPost cfg s t s') : Inv cfg s' := by
  obtain ⟨here, result⟩ := step
  rw [if_neg fun late => Bool.false_ne_true (late.1.symm.trans fixed.execCancelFirst)] at result
  subst result
  exact inv.goto t _ here rfl

/-- With the patch nothing is cancelled after de_thread(). -/
theorem Inv.not_late (inv : Inv cfg s) (t : T) :
    (s.thread t).pc ≠ .execLateTw ∧ (s.thread t).pc ≠ .execLateWait := by
  have suits := (inv.threads t).suits
  constructor <;> intro here <;> rw [here] at suits <;> revert suits <;> cases cfg.role t <;> decide

/-! ### exit_notify() -/

/-- What exit_notify() does to a thread: `t` becomes a zombie or is released, and
a zombie leader goes with the last of the others. -/
theorem ExitNotify.cases {t : T} (step : ExitNotify cfg s t s') :
    (t = cfg.leader ∧ ¬ GroupEmpty s t ∧ s' = s.set t { s.thread t with pc := .zombie }) ∨
      (t = cfg.leader → GroupEmpty s t) ∧
        (∀ u, u = t ∧ s'.thread u = { s.thread u with pc := .dead } ∨
          u ≠ t ∧ u = cfg.leader ∧ (s.thread u).pc = .zombie ∧ othersLive s t = {cfg.leader} ∧
            s'.thread u = { s.thread u with pc := .dead } ∨
          u ≠ t ∧ s'.thread u = s.thread u) ∧
        s' = { s with
          thread := s'.thread
          group := { s.group with
            notifyCount :=
              if s.group.notifyCount > 0 ∧ t ≠ cfg.leader then s.group.notifyCount - 1
              else s.group.notifyCount } } := by
  obtain ⟨-, result⟩ := step
  split at result
  next zombie => exact .inl ⟨zombie.1, zombie.2, result⟩
  next leaves =>
    refine .inr ⟨fun leader => ?_, fun u => ?_, by rw [result]⟩
    · by_contra others
      exact leaves ⟨leader, others⟩
    · rw [result]
      simp only
      obtain rfl | different := eq_or_ne u t
      · exact .inl ⟨rfl, if_pos rfl⟩
      · rw [if_neg different]
        refine .inr ?_
        split
        next reaped => exact .inl ⟨different, reaped.1, reaped.1 ▸ reaped.2.1, reaped.2.2, rfl⟩
        next => exact .inr ⟨different, rfl⟩

theorem Inv.exitNotify (wf : cfg.WellFormed) (inv : Inv cfg s) {t : T} (step : ExitNotify cfg s t s') :
    Inv cfg s' := by
  have here := step.1
  have live : (s.thread t).pc.live = true := by rw [here]; rfl
  obtain ⟨leader, -, rfl⟩ | ⟨last, cases, result⟩ := step.cases
  · have glides : (s.thread t).pc.Glides .zombie := by
      rw [here]
      exact ⟨⟨rfl, rfl, rfl, nofun⟩, rfl, nofun⟩
    refine inv.set t ((inv.threads t).glide glides.before glides.past ?_ nofun (fun _ => rfl) nofun ?_ nofun nofun)
      glides rfl
    · rw [leader, wf.leader]
      rfl
    · rw [here]
      exact ⟨nofun, nofun⟩
  have pc {A : Type} (f : PC → A) (same : f .exitNotify = f .dead) (dead : f .zombie = f .dead) (u : T) :
      f (s'.thread u).pc = f (s.thread u).pc := by
    obtain ⟨rfl, thread⟩ | ⟨-, -, zombie, -, thread⟩ | ⟨-, thread⟩ := cases u
    · rw [thread, here]
      exact same.symm
    · rw [thread, zombie]
      exact dead.symm
    · rw [thread]
  have waits (u : T) (waiting : (s.thread u).pc = .dumpWait) : (s'.thread u).pc = .dumpWait := by
    obtain ⟨rfl, -⟩ | ⟨-, -, zombie, -, -⟩ | ⟨-, thread⟩ := cases u
    · exact nomatch here.symm.trans waiting
    · exact nomatch zombie.symm.trans waiting
    · rw [thread]
      exact waiting
  have decremented (u : T) : (s'.thread u).decremented = (s.thread u).decremented := by
    obtain ⟨-, thread⟩ | ⟨-, -, -, -, thread⟩ | ⟨-, thread⟩ := cases u <;> rw [thread]
  have dumper : s'.dumper = s.dumper := by rw [result]
  have counted : s'.counted = s.counted := by rw [result]
  have core : s'.core = s.core := by rw [result]
  have group : s'.group = { s.group with
      notifyCount :=
        if s.group.notifyCount > 0 ∧ t ≠ cfg.leader then s.group.notifyCount - 1
        else s.group.notifyCount } := by
    rw [result]
  have view : s'.view = s.view := by
    rw [result]
    rfl
  obtain ⟨remaining, rendezvous, active⟩ :=
    inv.meets (pc PC.attached rfl rfl) waits decremented dumper counted core
  refine ⟨fun u => ?_, ?_, remaining, rendezvous, active, ?_, ?_, ?_, ?_⟩
  · rw [view]
    obtain ⟨rfl, thread⟩ | ⟨-, -, zombie, -, thread⟩ | ⟨-, thread⟩ := cases u
    · rw [thread]
      exact (inv.threads u).release (.inl here)
    · rw [thread]
      exact (inv.threads u).release (.inr zombie)
    · rw [thread]
      exact inv.threads u
  · have quick : quickThreads s' = quickThreads s := by
      unfold quickThreads
      refine congrArg Finset.card (Finset.filter_congr fun u _ => ?_)
      rw [pc PC.before rfl rfl]
    rw [quick, group]
    exact inv.quick
  · rw [dumper, counted]
    exact inv.started
  · rw [dumper, group]
    exact inv.dies
  · intro e executing leader
    rw [group] at executing ⊢
    have waiting : (s.thread e).pc = .execWait := (inv.threads e).exec.2 executing
    have apart : t ≠ e := by
      rintro rfl
      exact nomatch here.symm.trans waiting
    -- The exec'ing thread is live, so `t` is not a leader that goes as the last one.
    have follower : t ≠ cfg.leader := by
      intro same
      have empty := last same
      have inside : e ∈ othersLive s t :=
        Finset.mem_filter.2 ⟨Finset.mem_univ e, apart.symm, by rw [waiting]; rfl⟩
      rw [show othersLive s t = ∅ from empty] at inside
      exact absurd inside (Finset.notMem_empty e)
    have lived : e = cfg.leader ∨ (s.thread cfg.leader).pc.live = true := by
      refine leader.imp_right fun living => ?_
      obtain ⟨same, -⟩ | ⟨-, -, zombie, -, -⟩ | ⟨-, thread⟩ := cases cfg.leader
      · exact absurd same.symm follower
      · rw [zombie]
        rfl
      · rw [← thread]
        exact living
    have inside : t ∈ siblings cfg s e := Finset.mem_filter.2 ⟨Finset.mem_univ t, apart, follower, live⟩
    have fewer : siblings cfg s' e = (siblings cfg s e).erase t := by
      ext u
      simp only [siblings, Finset.mem_filter, Finset.mem_univ, true_and, Finset.mem_erase]
      obtain ⟨rfl, thread⟩ | ⟨-, same, -, -, -⟩ | ⟨different, thread⟩ := cases u
      · rw [thread]
        simp [PC.live]
      · tauto
      · rw [thread]
        tauto
    have count := inv.notifyCount e executing lived
    have positive := Finset.card_pos.2 ⟨t, inside⟩
    rw [fewer, Finset.card_erase_of_mem inside]
    simp only
    rw [if_pos ⟨by omega, follower⟩]
    omega
  · intro e posts u different
    obtain ⟨-, thread⟩ | ⟨-, -, -, -, thread⟩ | ⟨apart, thread⟩ := cases e
    · rw [thread] at posts
      exact nomatch posts
    · rw [thread] at posts
      exact nomatch posts
    · rw [thread] at posts
      exact nomatch live.symm.trans (inv.alone e posts t apart.symm)

/-! ### Every reachable state -/

theorem Inv.init (start : Init cfg s) : Inv cfg s := by
  subst start
  have running (t : T) (pc : PC) (labelled : (if cfg.role t = .slot then PC.none else .run) = pc) :
      pc = .none ∧ cfg.role t = .slot ∨ pc = .run ∧ cfg.role t ≠ .slot := by
    split at labelled
    next slot => exact .inl ⟨labelled.symm, slot⟩
    next other => exact .inr ⟨labelled.symm, other⟩
  refine ⟨fun t => ?_, ?_, nofun, fun some => absurd rfl some.1, ⟨nofun, nofun⟩, fun _ => rfl,
    fun some => absurd rfl some, nofun, fun e posts => ?_⟩
  · have kinds := running t _ rfl
    have kill : Sig.kill ∉ (if (cfg.role t).worker = true then allButKill else ∅) := by split <;> decide
    constructor
    case suits =>
      simp only
      obtain ⟨pc, slot⟩ | ⟨pc, -⟩ := kinds
      · rw [pc, slot]
        rfl
      · rw [pc]
        cases cfg.role t <;> rfl
    case mask => exact ⟨kill, Finset.notMem_empty _⟩
    case post =>
      refine ⟨fun flag => absurd flag (Finset.notMem_empty _), fun past => ?_⟩
      simp only at past
      obtain ⟨pc, -⟩ | ⟨pc, -⟩ := kinds <;> rw [pc] at past <;> exact nomatch past
    case signaled =>
      intro leaving
      simp only at leaving
      obtain ⟨pc, -⟩ | ⟨pc, -⟩ := kinds <;> rw [pc] at leaving <;> exact nomatch leaving
    case exiting => exact fun flag => absurd flag (Finset.notMem_empty _)
    case exec =>
      refine ⟨fun waits => ?_, nofun⟩
      simp only at waits
      obtain ⟨pc, -⟩ | ⟨pc, -⟩ := kinds <;> rw [pc] at waits <;> exact nomatch waits
    case doomed =>
      rintro (dies | ⟨e, executing, -⟩)
      · exact nomatch dies
      · exact nomatch executing
    case clean => exact fun _ kill => absurd kill (Finset.notMem_empty _)
    case dumping =>
      intro dumps
      simp only at dumps
      obtain ⟨pc, -⟩ | ⟨pc, -⟩ := kinds <;> rw [pc] at dumps <;> exact nomatch dumps
    case counted => exact fun member => absurd member (Finset.notMem_empty _)
    case decremented => exact ⟨nofun, fun both => absurd both.1 (Finset.notMem_empty _)⟩
    case reach => exact nofun
  · unfold quickThreads
    simp only
    refine congrArg _ (congrArg Finset.card (Finset.filter_congr fun t _ => ?_))
    split
    next slot => exact ⟨fun other => absurd slot other, nofun⟩
    next other => exact ⟨fun _ => rfl, fun _ => other⟩
  · obtain ⟨pc, -⟩ | ⟨pc, -⟩ := running e _ posts <;> exact nomatch pc

theorem Inv.env (fixed : cfg.Fixed) (inv : Inv cfg s) (step : EnvStep cfg s s') : Inv cfg s' := by
  cases step with
  | sendGroup sig step => exact inv.sendGroup step
  | sendThread t sig step => exact inv.sendThread step
  | blockUsr t step => exact inv.blockUsr step
  | unblockUsr t step => exact inv.unblockUsr step
  | sigWaitEnter t step => exact inv.sigWaitEnter step
  | tracerClearMask t step => exact (not_tracerClearMask fixed step).elim
  | exitSyscall t step => exact inv.exitSyscall step
  | exitGroupSyscall t step => exact inv.exitGroupSyscall step
  | execStart t step => exact inv.execStart step
  | workerQueuesCreate t step => exact inv.workerQueuesCreate step
  | freed t step => exact inv.freed step
  | freeze kind step => exact inv.freeze step

theorem Inv.thread (wf : cfg.WellFormed) (fixed : cfg.Fixed) (inv : Inv cfg s) {t : T}
    (step : ThreadStep cfg s t s') : Inv cfg s' := by
  cases step with
  | getSignal step => exact inv.getSignal fixed step
  | handleNotify step => exact inv.handleNotify step
  | sigWaitWake step => exact inv.sigWaitWake step
  | dumpWaitDone step => exact inv.dumpWaitDone step
  | dumpChunk step => exact inv.dumpChunk step
  | dumpFinish step => exact inv.dumpFinish step
  | releaseClear u step => exact inv.releaseClear step
  | releaseWake u step => exact inv.releaseWake step
  | releaseDone step => exact inv.releaseDone step
  | syncGroupExit step => exact inv.syncGroupExit step
  | unpark step => exact inv.unpark step
  | exitCancel step => exact inv.exitCancel step
  | exitCancelWait step => exact inv.cancelWait step rfl
  | exitWorkersDone step => exact inv.waitDone step rfl
  | exitSignals step => exact inv.exitSignals step
  | exitNotify step => exact inv.exitNotify wf step
  | workerSeesExit step => exact inv.workerSeesExit step
  | workerExit step => exact inv.workerExit step
  | sqCancel step => exact inv.sqCancel step
  | sqCancelWait step => exact inv.cancelWait step rfl
  | sqWorkersDone step => exact inv.waitDone step rfl
  | createWorker step => exact inv.createWorker fixed step
  | retryFires step => exact inv.retryFires step
  | execCancelWait step => exact inv.cancelWait step rfl
  | execWorkersDone step => exact inv.waitDone step rfl
  | deThread step => exact inv.deThread step
  | deThreadDone step => exact inv.deThreadDone step
  | deThreadKilled step => exact inv.deThreadKilled step
  | execPost step => exact inv.execPost fixed step
  | execLateWait step => exact absurd step.1 (inv.not_late t).1
  | execLateDone step => exact absurd step.1 (inv.not_late t).2

theorem inv_invariant (wf : cfg.WellFormed) (fixed : cfg.Fixed) : (spec cfg).Invariant (Inv cfg) := by
  refine System.Invariant.of_step (fun s start => Inv.init start) fun s s' inv step => ?_
  obtain env | ⟨t, own⟩ := step
  · exact inv.env fixed env
  · exact inv.thread wf fixed own

/-! ### The counts and the exec window -/

/-- Every patch applied, and a budget of one for every signal and for execve(). -/
def patched {T : Type} (role : T → Role) (owner0 : T → Option T) (ringOwners : Finset T) (leader : T) :
    Config T where
  role := role
  owner0 := owner0
  ringOwners := ringOwners
  leader := leader
  chunks := 2
  sigBudget := fun _ => 1
  execBudget := 1
  tracerBudget := 0
  retryBudget := 1
  fixRcuRelease := true
  fixSigpendingDumpcore := true
  fixRetargetGroupExit := true
  fixWorkerNodump := true
  fixPtraceMask := true
  fixExecCancelFirst := true
  fixGateSignaled := true
  fixGatePostcoredump := true

/-- A leader with a ring, its worker and a slot for one more. -/
def small : Config (Fin 3) :=
  patched (fun t => match t with | 0 => .user | 1 => .iowq | 2 => .slot) (fun t => if t = 1 then some 0 else none)
    {0} 0

theorem small_wellFormed : small.WellFormed := ⟨rfl, by decide, by decide⟩

theorem small_fixed : small.Fixed := ⟨rfl, rfl, rfl, rfl, rfl, rfl, rfl, rfl⟩

theorem small_dumping : ∃ s, (spec small).Reachable s ∧ s.core.active = true ∧ s.group.exit = true := by
  have started : (spec small).Reachable _ := .init rfl
  have faults := started.next (.inl (.sendThread 0 .core ⟨by decide, by decide, (if_neg (by decide)).mpr
    ((if_pos (by decide)).mpr rfl)⟩))
  have dumps := faults.next (.inr ⟨0, .getSignal ⟨by decide, by decide, by decide, by decide,
    (if_neg (by decide)).mpr ((if_pos (by decide)).mpr ⟨.core, by decide, rfl⟩)⟩⟩)
  exact ⟨_, dumps, by decide, by decide⟩

/-- The rendezvous counts exactly. -/
theorem rendezvous_safe (wf : cfg.WellFormed) (fixed : cfg.Fixed) :
    (spec cfg).Invariant fun s => CountConsistent s ∧ OnlyCountedDecrement s ∧ RemainingNonNegative s ∧
      ReleasedAfterAllParked s := by
  refine (inv_invariant wf fixed).mono fun s inv => ⟨inv.remaining, ?_, ?_, inv.rendezvous⟩
  · exact fun t done => ((inv.threads t).decremented.1 done).1
  · intro active
    rw [inv.remaining active]
    omega

theorem small_rendezvous : ∃ s : State (Fin 3), s.core.active = true ∧ CountConsistent s ∧ OnlyCountedDecrement s ∧
    RemainingNonNegative s ∧ ReleasedAfterAllParked s := by
  obtain ⟨s, reached, active, -⟩ := small_dumping
  exact ⟨s, active, rendezvous_safe small_wellFormed small_fixed s reached⟩

/-- After de_thread() the exec'ing thread is alone, and de_thread() does not return
before. -/
theorem exec_safe (wf : cfg.WellFormed) (fixed : cfg.Fixed) :
    (spec cfg).Invariant fun s => SingleThreadedExec s ∧ NotifyCountHolds s cfg := by
  refine (inv_invariant wf fixed).mono fun s inv => ⟨fun e window t different => ?_, ?_⟩
  · have posts : (s.thread e).pc = .execPost := by
      obtain ⟨early, late⟩ := inv.not_late e
      cases pc : (s.thread e).pc <;> rw [pc] at window early late <;>
        first | rfl | exact absurd rfl early | exact absurd rfl late | exact nomatch window
    exact live_eq_false (inv.alone e posts t different)
  · intro e here zero leader t different live
    obtain rfl | apart := eq_or_ne t cfg.leader
    · exact ⟨rfl, leader.resolve_left different.symm⟩
    · exact nomatch live.symm.trans (inv.alone_of_notifyCount here zero leader different apart)

/-- A leader and a sibling in user mode. -/
def duo : Config (Fin 2) := patched (fun _ => .user) (fun _ => none) ∅ 0

/-- de_thread() kills the sibling and waits until it is released. -/
theorem duo_waits : ∃ s, (spec duo).Reachable s ∧ (s.thread 0).pc = .execWait ∧ s.group.notifyCount = 0 ∧
    (s.thread 1).pc = .dead := by
  have run : (spec duo).Reachable _ := .init rfl
  have run := run.next (.inl (.execStart 0 ⟨rfl, ⟨rfl, rfl, rfl⟩, by decide, rfl⟩))
  have run := run.next (.inr ⟨0, .deThread ⟨rfl, rfl⟩⟩)
  have run := run.next (.inr ⟨1, .getSignal ⟨by decide, by decide, by decide, by decide, (if_pos (by decide)).mpr rfl⟩⟩)
  have run := run.next (.inr ⟨1, .syncGroupExit ⟨by decide, rfl⟩⟩)
  have run := run.next (.inr ⟨1, .exitCancel ⟨by decide, rfl⟩⟩)
  have run := run.next (.inr ⟨1, .exitSignals ⟨by decide, _, (if_pos (by decide)).mpr rfl, rfl⟩⟩)
  have run := run.next (.inr ⟨1, .exitNotify ⟨by decide, rfl⟩⟩)
  exact ⟨_, run, by decide, by decide, by decide⟩

theorem duo_exec : ∃ waiting executing : State (Fin 2), DeThreadDone duo waiting 0 executing ∧
    ((waiting.thread 0).pc = .execWait ∧ waiting.group.notifyCount = 0 ∧ NotifyCountHolds waiting duo) ∧
      (executing.thread 0).pc.execWindow = true ∧ (executing.thread 1).pc = .dead ∧ SingleThreadedExec executing := by
  obtain ⟨s, reached, here, zero, gone⟩ := duo_waits
  have done : DeThreadDone duo s 0 _ := ⟨here, zero, .inl rfl, rfl⟩
  have after : (spec duo).Reachable _ := reached.next (.inr ⟨0, .deThreadDone done⟩)
  have fixed : duo.Fixed := ⟨rfl, rfl, rfl, rfl, rfl, rfl, rfl, rfl⟩
  have safe := exec_safe ⟨rfl, by decide, by decide⟩ fixed
  exact ⟨s, _, done, ⟨here, zero, (safe s reached).2⟩, rfl, gone, (safe _ after).1⟩

end LinuxTla.Coredump
