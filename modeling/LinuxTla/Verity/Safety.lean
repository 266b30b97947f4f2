import LinuxTla.Verity.Model
import LinuxTla.Lib.Sums
import Mathlib.Algebra.BigOperators.Ring.Finset
import Mathlib.Tactic.ByContra

/-! The open count is exact, so a device under a mount stays; and whoever clears the
deferred removal of an active device owes it until it is set again. -/

namespace LinuxTla.Verity

def Worker.holds (x : Worker) : ℤ := (if x.fd then 1 else 0) + if x.mount then 1 else 0

theorem Worker.holds_nonneg (x : Worker) : 0 ≤ x.holds := by
  cases fd : x.fd <;> cases mount : x.mount <;> simp [holds, fd, mount]

def Label.shut : Label → Bool
  | .idle | .loop | .activate | .waitlink | .tryOpen | .done | .doneUnique | .dead => true
  | _ => false

structure Worker.Ok (x : Worker) : Prop where
  opened : x.pc = .opened → x.fd = true
  shut : x.pc.shut = true → x.fd = false
  mounted : x.mount = true → x.pc = .done

/-- Only an active device is open. -/
structure Device.Ok (d : Device) : Prop where
  nonneg : 0 ≤ d.opens
  active : d.dev ≠ .active → d.opens = 0

namespace Device

variable {d : Device}

@[simp] theorem close_opens : d.close.opens = d.opens - 1 := by
  unfold close
  split
  · case isTrue last => exact (sub_eq_zero.mpr last.1).symm
  · rfl

@[simp] theorem deactivate_opens : d.deactivate.opens = d.opens := by
  unfold deactivate
  split
  · rfl
  · split <;> rfl

theorem Ok.of_opens (ok : d.Ok) (held : 0 < d.opens) : d.dev = .active := by
  by_contra other
  have := ok.active other
  omega

theorem Ok.close (ok : d.Ok) (held : 0 < d.opens) : d.close.Ok := by
  refine ⟨by rw [close_opens]; omega, ?_⟩
  unfold Device.close
  split
  · exact fun _ => rfl
  · exact fun other => absurd (ok.of_opens held) other

theorem Ok.deactivate (ok : d.Ok) : d.deactivate.Ok := by
  refine ⟨by rw [deactivate_opens]; exact ok.nonneg, ?_⟩
  unfold Device.deactivate
  split
  · exact ok.active
  · split
    · exact ok.active
    · case isFalse unused =>
      have := ok.nonneg
      exact fun _ => show d.opens = 0 by omega

theorem Ok.more (ok : d.Ok) (active : d.dev = .active) : Ok { d with opens := d.opens + 1 } := by
  have := ok.nonneg
  exact ⟨show 0 ≤ d.opens + 1 by omega, fun other => absurd active other⟩

end Device

variable {W : Type} {cfg : Config W} {d d' : Device} {x x' : Worker}

theorem cleanupDev_opens : (cleanupDev cfg x d).opens = d.opens - if x.fd then 1 else 0 := by
  unfold cleanupDev
  cases x.fd <;> dsimp only <;> split <;> simp

theorem Device.Ok.cleanupDev (ok : d.Ok) (held : x.fd = true → 0 < d.opens) : (cleanupDev cfg x d).Ok := by
  have closed : (if x.fd then d.close else d).Ok := by
    split
    · case isTrue fd => exact ok.close (held fd)
    · exact ok
  unfold Verity.cleanupDev
  dsimp only
  split
  · exact closed.deactivate
  · exact closed

/-! ### The open count -/

/-- What a worker and its client do keeps the others' references. -/
theorem WorkerStep.opens (step : WorkerStep cfg d x d' x') (ok : x.Ok) (device : d.Ok) :
    d'.opens - x'.holds = d.opens - x.holds := by
  have shut := ok.shut
  have mounted := ok.mounted
  have opened := ok.opened
  cases step with
  | start label => simp [Worker.holds, shut (by rw [label]; rfl)]
  | loopOpen label _ openable | tryOpen label openable =>
    have closed : x.fd = false := shut (by rw [label]; rfl)
    simp only [Worker.holds, closed, if_true, Bool.false_eq_true, if_false]
    omega
  | activate label absent =>
    have unused : d.opens = 0 := device.active (by rw [absent]; exact Dev.noConfusion)
    simp [activated, unused, Worker.holds]
  | opened label =>
    have fresh : x.mount = false := by
      cases mount : x.mount with
      | false => rfl
      | true => rw [mounted mount] at label; cases label
    simp [Worker.holds, opened label, fresh]
  | again label | fallback label =>
    rw [cleanupDev_opens]
    simp only [Worker.holds, Bool.false_eq_true, if_false]
    omega
  | _ => rfl


theorem WorkerStep.ok (step : WorkerStep cfg d x d' x') (ok : x.Ok) : x'.Ok := by
  have shut := ok.shut
  have opened := ok.opened
  have unmounted (label : x.pc ≠ .done) : x.mount ≠ true := fun mount => label (ok.mounted mount)
  cases step with
  | reuse label =>
    refine ⟨?_, ?_, fun mount => absurd mount (unmounted (by rw [label]; decide))⟩
    · cases fd : x.fd <;> simp
    · cases fd : x.fd <;> simp [Label.shut]
  | opened label => exact ⟨Label.noConfusion, fun _ => rfl, fun _ => rfl⟩
  | loopOpen label | tryOpen label =>
    refine ⟨fun _ => rfl, ?_, fun mount => absurd mount (unmounted (by rw [label]; decide))⟩
    exact Bool.noConfusion
  | start label | again label | fallback label =>
    exact ⟨Label.noConfusion, fun _ => rfl, fun mount => absurd mount (unmounted (by rw [label]; decide))⟩
  | loopEnd label | loopActivate label | activate label | activateExists label | checkGone label | check label
  | reuseGone label | waitLink label | waitLinkTimeout label | tryOpenFailed label =>
    refine ⟨Label.noConfusion, fun closed => ?_, fun mount => absurd mount (unmounted (by rw [label]; decide))⟩
    first
    | exact Bool.noConfusion closed
    | exact shut (by rw [label]; rfl)

theorem WorkerStep.device (step : WorkerStep cfg d x d' x') (ok : x.Ok) (device : d.Ok)
    (held : x.fd = true → 0 < d.opens) : d'.Ok := by
  cases step with
  | loopOpen _ _ openable | tryOpen _ openable => exact device.more openable.2
  | activate => exact ⟨le_rfl, fun other => absurd rfl other⟩
  | check => exact ⟨device.nonneg, device.active⟩
  | opened label =>
    have open' := held (ok.opened label)
    exact ((device.more (device.of_opens open')).close (show 0 < d.opens + 1 by omega)).deactivate
  | again | fallback => exact device.cleanupDev held
  | _ => exact device

/-- What a worker and its client hold is part of the open count; the rest belongs to
the others. -/
theorem Move.kept (step : Move cfg d x d' x') (ok : x.Ok) (device : d.Ok) (held : x.holds ≤ d.opens) :
    x'.Ok ∧ d'.Ok ∧ d'.opens - x'.holds = d.opens - x.holds := by
  have open' (fd : x.fd = true) : 0 < d.opens := by
    simp only [Worker.holds, fd, if_true] at held
    split at held <;> omega
  cases step with
  | worker step => exact ⟨step.ok ok, step.device ok device open', step.opens ok device⟩
  | die _ label =>
    have fresh : x.mount = false := by
      cases mount : x.mount with
      | false => rfl
      | true =>
        rw [ok.mounted mount] at label
        cases label
    refine ⟨⟨Label.noConfusion, fun _ => rfl, fun mount => Bool.noConfusion (fresh.symm.trans mount)⟩, ?_, ?_⟩
    · split
      · case isTrue fd => exact device.close (open' fd)
      · exact device
    · cases fd : x.fd
      · simp only [Worker.holds, Bool.false_eq_true, if_false, fd]
      · simp only [Worker.holds, if_true, Device.close_opens, Bool.false_eq_true, if_false, fd]
        omega
  | umount mounted =>
    have positive : 0 < d.opens := by
      simp only [Worker.holds, mounted, if_true] at held
      split at held <;> omega
    refine ⟨⟨ok.opened, ok.shut, Bool.noConfusion⟩, device.close positive, ?_⟩
    simp only [Device.close_opens, Worker.holds, mounted, if_true, Bool.false_eq_true, if_false]
    omega

theorem DeviceStep.ok (step : DeviceStep d d') (device : d.Ok) : d'.Ok ∧ d'.opens = d.opens := by
  cases step with
  | removeWork going =>
    exact ⟨⟨device.nonneg, fun _ => device.active (by rw [going]; exact Dev.noConfusion)⟩, rfl⟩
  | udev => exact ⟨⟨device.nonneg, device.active⟩, rfl⟩

/-! ### All workers -/

variable {s s' : State W}

structure Counted (cfg : Config W) (s : State W) : Prop where
  workers : ∀ w ∈ cfg.workers, (s.worker w).Ok
  device : s.device.Ok
  exact : s.device.opens = ∑ w ∈ cfg.workers, (s.worker w).holds

theorem Counted.held (counted : Counted cfg s) {w : W} (member : w ∈ cfg.workers) :
    (s.worker w).holds ≤ s.device.opens := by
  rw [counted.exact]
  exact Finset.single_le_sum (fun other _ => (s.worker other).holds_nonneg) member

theorem Counted.step [DecidableEq W] (counted : Counted cfg s) (step : Next cfg s s') : Counted cfg s' := by
  cases step with
  | @move w d' x' member step =>
    obtain ⟨ok, device, opens⟩ := step.kept (counted.workers w member) counted.device (counted.held member)
    refine ⟨?_, device, ?_⟩
    · exact (Function.forall_update_iff s.worker fun other y => other ∈ cfg.workers → y.Ok).mpr
        ⟨fun _ => ok, fun other _ => counted.workers other⟩
    · have changed := Lib.sum_change (f := fun other => (Function.update s.worker w x' other).holds)
        (g := fun other => (s.worker other).holds) member fun other _ apart => by
          rw [Function.update_of_ne apart]
      have before := counted.exact
      rw [Function.update_self] at changed
      dsimp only
      omega
  | device step =>
    obtain ⟨device, opens⟩ := step.ok counted.device
    exact ⟨counted.workers, device, opens.trans counted.exact⟩

theorem counted [DecidableEq W] : (spec cfg).Invariant (Counted cfg) := by
  refine Lib.System.Invariant.of_step ?_ fun _ _ counted step => counted.step step
  rintro state rfl
  refine ⟨fun w _ => ⟨Label.noConfusion, fun _ => rfl, Bool.noConfusion⟩, ⟨le_rfl, fun _ => rfl⟩, ?_⟩
  exact (Finset.sum_eq_zero fun _ _ => rfl).symm

theorem Counted.openCountExact (counted : Counted cfg s) : OpenCountExact cfg s := by
  unfold OpenCountExact
  rw [counted.exact]
  simp only [Worker.holds, Finset.sum_add_distrib, Finset.sum_boole]

theorem Counted.mountedIsActive (counted : Counted cfg s) : MountedIsActive cfg s := by
  rintro ⟨w, member, mounted⟩
  have held := counted.held member
  apply counted.device.of_opens
  simp only [Worker.holds, mounted, if_true] at held
  split at held <;> omega

/-- A shared device is never removed under a user. -/
theorem sharing_safe [DecidableEq W] : (spec cfg).Invariant fun s =>
    OpenCountExact cfg s ∧ MountedIsActive cfg s ∧ NoOpenWhileDeleting s := by
  refine counted.mono fun s counted => ⟨counted.openCountExact, counted.mountedIsActive, fun going => ?_⟩
  exact counted.device.active (by rw [going]; exact Dev.noConfusion)

end LinuxTla.Verity
