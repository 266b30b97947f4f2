import LinuxTla.Verity.Safety

/-! Whoever clears the deferred removal of the active device, or has just created it,
owes the mark, and no exit from the protocol forgets the debt. -/

namespace LinuxTla.Verity

variable {W : Type} {cfg : Config W} {d d' : Device} {x x' : Worker} {s s' : State W}

/-- udev is done with an existing device, and one marked for removal is in use. -/
structure Device.Settled (d : Device) : Prop where
  queue : d.dev ≠ .absent → d.udevq = []
  linked : d.dev ≠ .absent → d.devlink = true
  used : d.dev = .active → d.deferred = true → 0 < d.opens

/-- Nobody but a worker in the protocol will remove the device. -/
def Device.Left (d : Device) : Prop := d.dev = .active ∧ d.deferred = false

/-- The labels between dm_deferred_remove_cancel() and the end of the attempt. -/
def Label.attempting : Label → Bool
  | .reuse | .waitlink | .tryOpen | .opened | .again | .fallback => true
  | _ => false

def Worker.Owes (x : Worker) : Prop := x.restore = true ∨ x.pc = .tryOpen ∨ x.pc = .opened

def Worker.Tidy (x : Worker) : Prop := x.restore = true → x.pc.attempting = true

theorem Worker.Tidy.clear (tidy : x.Tidy) (label : x.pc.attempting = false) : x.restore = false := by
  cases restore : x.restore with
  | false => rfl
  | true => exact Bool.noConfusion (label.symm.trans (tidy restore))

theorem Worker.not_owes (tidy : x.Tidy) (label : x.pc.attempting = false) : ¬ x.Owes := by
  rintro (restore | opening | opened)
  · exact Bool.noConfusion (label.symm.trans (tidy restore))
  · rw [opening] at label
    cases label
  · rw [opened] at label
    cases label

namespace Device

/-- Closing neither sets nor clears the mark. -/
theorem Left.of_close (left : d.close.Left) : d.Left := by
  obtain ⟨active, unmarked⟩ := left
  unfold close at active unmarked
  split at active
  · cases active
  · case isFalse last =>
    rw [if_neg last] at unmarked
    exact ⟨active, unmarked⟩

theorem not_left_deactivate : ¬ d.deactivate.Left := by
  rintro ⟨active, unmarked⟩
  unfold deactivate at active unmarked
  split at active
  · case isTrue gone => exact gone active
  · case isFalse present =>
    rw [if_neg present] at unmarked
    split at active
    · case isTrue used =>
      rw [if_pos used] at unmarked
      cases unmarked
    · cases active

theorem Settled.close (settled : d.Settled) : d.close.Settled := by
  have present : d.close.dev ≠ .absent → d.dev ≠ .absent := by
    unfold Device.close
    split
    · case isTrue last =>
      intro _
      rw [last.2.2]
      exact Dev.noConfusion
    · exact id
  refine ⟨fun there => ?_, fun there => ?_, fun active marked => ?_⟩
  · have same : d.close.udevq = d.udevq := by
      unfold Device.close
      split <;> rfl
    rw [same]
    exact settled.queue (present there)
  · have same : d.close.devlink = d.devlink := by
      unfold Device.close
      split <;> rfl
    rw [same]
    exact settled.linked (present there)
  · unfold Device.close at active marked ⊢
    split
    · case isTrue last =>
      rw [if_pos last] at active
      cases active
    · case isFalse last =>
      rw [if_neg last] at active marked
      have used : 0 < d.opens := settled.used active marked
      have more : d.opens ≠ 1 := fun one => last ⟨one, marked, active⟩
      show 0 < d.opens - 1
      omega

theorem Settled.deactivate (settled : d.Settled) : d.deactivate.Settled := by
  unfold Device.deactivate
  split
  · exact settled
  · case isFalse present =>
    have there : d.dev ≠ .absent := fun absent => present (by rw [absent]; exact Dev.noConfusion)
    split
    · case isTrue used => exact ⟨settled.queue, settled.linked, fun _ _ => used⟩
    · exact ⟨fun _ => settled.queue there, fun _ => settled.linked there, Dev.noConfusion⟩

theorem Settled.more (settled : d.Settled) (ok : d.Ok) : Settled { d with opens := d.opens + 1 } :=
  ⟨settled.queue, settled.linked, fun _ _ => Int.lt_add_one_of_le ok.nonneg⟩

/-- The link exists as long as the device does. -/
theorem Settled.openable (settled : d.Settled) (active : d.dev = .active) : d.Openable :=
  ⟨settled.linked (by rw [active]; exact Dev.noConfusion), active⟩

theorem Settled.cleanupDev (settled : d.Settled) : (cleanupDev cfg x d).Settled := by
  have closed : (if x.fd then d.close else d).Settled := by
    split
    · exact settled.close
    · exact settled
  unfold Verity.cleanupDev
  dsimp only
  split
  · exact closed.deactivate
  · exact closed

end Device

/-- A failed attempt that owed the mark has paid. -/
theorem cleanupDev_left (fixed : cfg.Fixed) (left : (cleanupDev cfg x d).Left) : d.Left ∧ x.restore = false := by
  unfold cleanupDev at left
  rw [fixed.restore, Bool.and_true] at left
  dsimp only at left
  cases restore : x.restore with
  | true =>
    rw [restore, if_pos rfl] at left
    exact absurd left Device.not_left_deactivate
  | false =>
    rw [restore, if_neg Bool.noConfusion] at left
    refine ⟨?_, rfl⟩
    split at left
    · exact left.of_close
    · exact left

/-! ### One worker -/

theorem WorkerStep.settled (fixed : cfg.Fixed) (step : WorkerStep cfg d x d' x') (settled : d.Settled) (ok : d.Ok) :
    d'.Settled := by
  cases step with
  | loopOpen | tryOpen => exact settled.more ok
  | activate =>
    unfold activated
    rw [fixed.sync, if_pos rfl, if_pos rfl]
    exact ⟨fun _ => rfl, fun _ => rfl, fun _ => Bool.noConfusion⟩
  | check =>
    refine ⟨settled.queue, settled.linked, fun _ marked => ?_⟩
    rw [fixed.cancel, if_pos rfl] at marked
    cases marked
  | opened => exact (settled.more ok).close.deactivate
  | again | fallback => exact settled.cleanupDev
  | _ => exact settled

theorem WorkerStep.tidy (step : WorkerStep cfg d x d' x') (tidy : x.Tidy) : x'.Tidy := by
  cases step with
  | check | loopEnd | checkGone | reuseGone | waitLink | waitLinkTimeout | tryOpen | tryOpenFailed => exact fun _ => rfl
  | activate => exact fun _ => rfl
  | loopOpen label | loopActivate label | activateExists label =>
    exact fun restore => Bool.noConfusion ((tidy.clear (by rw [label]; rfl)).symm.trans restore)
  | reuse =>
    intro _
    cases fd : x.fd <;> rfl
  | start | opened | again | fallback => exact Bool.noConfusion

/-- A step that leaves the device to somebody leaves it to the worker, or found it so
without the worker's doing. -/
theorem WorkerStep.owes (fixed : cfg.Fixed) (step : WorkerStep cfg d x d' x') (tidy : x.Tidy) (settled : d.Settled)
    (left : d'.Left) : x'.Owes ∨ d.Left ∧ ¬ x.Owes := by
  cases step with
  | start label | loopEnd label | loopActivate label | activateExists label | loopOpen label =>
    exact .inr ⟨left, Worker.not_owes tidy (by rw [label]; rfl)⟩
  | activate => exact .inl (.inr (.inl rfl))
  | check => exact .inl (.inl rfl)
  | checkGone _ gone | reuseGone _ gone => exact absurd left.1 gone
  | reuse label | waitLink label | waitLinkTimeout label =>
    by_cases owes : x.restore = true
    · exact .inl (.inl owes)
    · refine .inr ⟨left, ?_⟩
      rintro (restore | other | other)
      · exact owes restore
      all_goals
        rw [label] at other
        cases other
  | tryOpen => exact .inl (.inr (.inr rfl))
  | tryOpenFailed _ failed => exact absurd (settled.openable left.1) failed
  | opened => exact absurd left Device.not_left_deactivate
  | again label | fallback label =>
    obtain ⟨before, clear⟩ := cleanupDev_left fixed left
    refine .inr ⟨before, ?_⟩
    rintro (restore | other | other)
    · rw [clear] at restore
      cases restore
    all_goals
      rw [label] at other
      cases other

theorem Move.settled (fixed : cfg.Fixed) (step : Move cfg d x d' x') (settled : d.Settled) (ok : d.Ok) :
    d'.Settled := by
  cases step with
  | worker step => exact step.settled fixed settled ok
  | die mortal => exact Bool.noConfusion (fixed.lives.symm.trans mortal)
  | umount => exact settled.close

theorem Move.tidy (fixed : cfg.Fixed) (step : Move cfg d x d' x') (tidy : x.Tidy) : x'.Tidy := by
  cases step with
  | worker step => exact step.tidy tidy
  | die mortal => exact Bool.noConfusion (fixed.lives.symm.trans mortal)
  | umount => exact tidy

theorem Move.owes (fixed : cfg.Fixed) (step : Move cfg d x d' x') (tidy : x.Tidy) (settled : d.Settled)
    (left : d'.Left) : x'.Owes ∨ d.Left ∧ ¬ x.Owes := by
  cases step with
  | worker step => exact step.owes fixed tidy settled left
  | die mortal => exact Bool.noConfusion (fixed.lives.symm.trans mortal)
  | umount =>
    by_cases owes : x.Owes
    · exact .inl owes
    · exact .inr ⟨left.of_close, owes⟩

/-! ### All workers -/

structure Owed (cfg : Config W) (s : State W) : Prop where
  settled : s.device.Settled
  tidy : ∀ w ∈ cfg.workers, (s.worker w).Tidy
  debtor : s.device.Left → ∃ w ∈ cfg.workers, (s.worker w).Owes

theorem DeviceStep.settled (step : DeviceStep d d') (settled : d.Settled) : d'.Settled ∧ (d'.Left → d.Left) := by
  cases step with
  | removeWork => exact ⟨⟨fun there => absurd rfl there, fun there => absurd rfl there, Dev.noConfusion⟩,
      fun left => Dev.noConfusion left.1⟩
  | @udev event rest pending =>
    have absent : d.dev = .absent := by
      by_contra there
      rw [settled.queue there] at pending
      cases pending
    refine ⟨⟨fun there => absurd absent there, fun there => absurd absent there, fun active => ?_⟩, id⟩
    exact Dev.noConfusion (absent.symm.trans active)

theorem Owed.step [DecidableEq W] (fixed : cfg.Fixed) (counted : Counted cfg s) (owed : Owed cfg s)
    (step : Next cfg s s') : Owed cfg s' := by
  cases step with
  | @move w d' x' member step =>
    have tidy := owed.tidy w member
    refine ⟨step.settled fixed owed.settled counted.device, ?_, fun left => ?_⟩
    · exact (Function.forall_update_iff s.worker fun other y => other ∈ cfg.workers → y.Tidy).mpr
        ⟨fun _ => step.tidy fixed tidy, fun other _ => owed.tidy other⟩
    · obtain owes | ⟨before, innocent⟩ := step.owes fixed tidy owed.settled left
      · refine ⟨w, member, ?_⟩
        dsimp only
        rwa [Function.update_self]
      · obtain ⟨debtor, inside, owes⟩ := owed.debtor before
        have apart : debtor ≠ w := by
          rintro rfl
          exact innocent owes
        refine ⟨debtor, inside, ?_⟩
        dsimp only
        rwa [Function.update_of_ne apart]
  | device step =>
    obtain ⟨settled, left⟩ := step.settled owed.settled
    exact ⟨settled, owed.tidy, fun after => owed.debtor (left after)⟩

theorem owed [DecidableEq W] (fixed : cfg.Fixed) : (spec cfg).Invariant (Owed cfg) := by
  refine counted.relative ?_ fun _ _ counted _ owed step => owed.step fixed counted step
  rintro state rfl
  exact ⟨⟨fun there => absurd rfl there, fun there => absurd rfl there, Dev.noConfusion⟩,
    fun _ _ => Bool.noConfusion, fun left => Dev.noConfusion left.1⟩

/-- Nobody owes anything once no worker is in the protocol. -/
theorem Owed.paid (owed : Owed cfg s) (quiet : Quiet cfg s) : ¬ s.device.Left := by
  intro left
  obtain ⟨w, member, owes⟩ := owed.debtor left
  refine Worker.not_owes (owed.tidy w member) ?_ owes
  obtain idle | finished := quiet w member
  · rw [idle]
    rfl
  · cases label : (s.worker w).pc <;> rw [label] at finished <;> first | rfl | cases finished

/-- Without workers in the protocol only mounts keep the device open. -/
theorem Counted.mounted (counted : Counted cfg s) (quiet : Quiet cfg s) (used : 0 < s.device.opens) :
    ∃ w ∈ cfg.workers, (s.worker w).mount = true := by
  by_contra none
  have unheld : ∀ w ∈ cfg.workers, (s.worker w).holds = 0 := by
    intro w member
    have unmounted : (s.worker w).mount = false := by
      cases mount : (s.worker w).mount with
      | false => rfl
      | true => exact absurd ⟨w, member, mount⟩ none
    have closed : (s.worker w).fd = false := by
      apply (counted.workers w member).shut
      obtain idle | finished := quiet w member
      · rw [idle]
        rfl
      · cases label : (s.worker w).pc <;> rw [label] at finished <;> first | rfl | cases finished
    simp [Worker.holds, unmounted, closed]
  have zero := counted.exact.trans (Finset.sum_eq_zero unheld)
  omega

/-- Removal of the shared device is armed whenever the workers have left it. -/
theorem removal_armed [DecidableEq W] (fixed : cfg.Fixed) :
    (spec cfg).Invariant fun s => Quiet cfg s → Armed cfg s := by
  refine (counted.and (owed fixed)).mono fun s ⟨counted, owed⟩ quiet => ?_
  have marked (active : s.device.dev = .active) : s.device.deferred = true := by
    by_contra unmarked
    exact owed.paid quiet ⟨active, Bool.eq_false_of_not_eq_true unmarked⟩
  constructor
  · intro unmounted active
    have used := owed.settled.used active (marked active)
    obtain ⟨w, member, mounted⟩ := counted.mounted quiet used
    exact Bool.noConfusion ((unmounted w member).symm.trans mounted)
  · exact fun mounted => marked (counted.mountedIsActive mounted)

section Small

/-- Two workers with one attempt each. -/
def small : Config (Fin 2) where
  workers := Finset.univ
  attempts := 1
  workerMayDie := false
  udevSync := true
  fixCancelDeferred := true
  fixRestoreDeferred := true

/-- The first worker hands its mount out before the second has started. -/
theorem small_handed : ∃ s, (spec small).Reachable s ∧ Quiet small s ∧ (s.worker 0).mount = true := by
  have move {s : State (Fin 2)} {d' x'} (reached : (spec small).Reachable s)
      (step : WorkerStep small s.device (s.worker 0) d' x') :
      (spec small).Reachable ⟨d', Function.update s.worker 0 x'⟩ :=
    reached.next (Next.move (Finset.mem_univ 0) (.worker step))
  have run := move (.init rfl) (.start rfl)
  have run := move run (.loopActivate rfl Nat.one_pos (by decide))
  have run := move run (.activate rfl rfl)
  have run := move run (.tryOpen rfl (by decide))
  have run := move run (.opened rfl)
  exact ⟨_, run, by decide, rfl⟩

theorem small_armed : ∃ s, Quiet small s ∧ s.device.deferred = true := by
  obtain ⟨s, reached, quiet, mounted⟩ := small_handed
  exact ⟨s, quiet, (removal_armed ⟨rfl, rfl, rfl, rfl⟩ s reached quiet).2 ⟨0, Finset.mem_univ 0, mounted⟩⟩

end Small

end LinuxTla.Verity
