import LinuxTla.MntVacant.Safety

/-! Of an unmounted tree only the cycles of superblock pins keep anything alive. -/

namespace LinuxTla.MntVacant

open Lib

variable {M S H W : Type} {cfg : Config M S H} {s : State M S H W} {m : M}

/-- Following a mount to the mount its superblock pins comes back. -/
def OnCycle (cfg : Config M S H) (m : M) : Prop := ClimbsUp (fun m => cfg.pin (cfg.sb m)) m m

/-- In the end what no cycle of pins keeps is gone, but for the stand-ins that cover what a cycle
keeps. -/
structure OnlyCyclesLeak (cfg : Config M S H) (s : State M S H W) : Prop where
  mounts : ∀ m, ¬ OnCycle cfg m → (∀ p, cfg.parent m = some p → ¬ OnCycle cfg p) → s.freed m = true
  superblocks : ∀ m, ¬ OnCycle cfg m → s.sbact (cfg.sb m) = false
  marks : ∀ m, ¬ OnCycle cfg m → s.watched (some (cfg.sb m)) = 0
  knullfs : s.watched none = 0

theorem OnlyCyclesLeak.reaped (wf : cfg.WellFormed) (acyclic : ∀ m, ¬ OnCycle cfg m)
    (leak : s.Settled → OnlyCyclesLeak cfg s) : Reaped s ∧ WatchedBalanced s := by
  refine ⟨fun settled => ⟨fun m => ?_, fun b => ?_⟩, fun settled b => ?_⟩
  · exact (leak settled).mounts m (acyclic m) fun p _ => acyclic p
  · obtain ⟨m, rfl⟩ := wf.sb.2 b
    exact (leak settled).superblocks m (acyclic m)
  · obtain _ | b := b
    · exact (leak settled).knullfs
    · obtain ⟨m, rfl⟩ := wf.sb.2 b
      exact (leak settled).marks m (acyclic m)

/-! ### U puts every mount -/

/-- U is done once it has put every mount. -/
def Emptied (s : State M S H W) : Prop := s.upc = .done → s.uhead = []

theorem put_emptied [Fintype M] [LinearOrder M] [DecidableEq H] [DecidableEq W] (task : Task H W) :
    Emptied (s.put cfg m task) ↔ Emptied s := by
  have same : (s.put cfg m task).upc = s.upc ∧ (s.put cfg m task).uhead = s.uhead := by
    unfold State.put State.vacantPutNoref State.vacantPut State.lastPut
    simp only
    repeat' split
    all_goals exact ⟨rfl, rfl⟩
  unfold Emptied
  rw [same.1, same.2]

theorem emptied [Fintype M] [LinearOrder M] [Fintype S] [DecidableEq S] [Fintype H] [DecidableEq H] [DecidableEq W] :
    (spec cfg).Invariant fun s : State M S H W => Emptied s := by
  refine .of_step (fun s start => ?_) fun s after emptied step => ?_
  · rintro done
    cases start
    simp [init] at done
  cases step with
  | unlocker step =>
    cases step with
    | gp | wait => exact fun done => by simp at done
    | done _ _ empty => exact fun _ => empty
    | put here => exact (put_emptied _).mpr fun done => by simp [here] at done
  | holder step =>
    cases step with
    | refused | mark => exact emptied
    | close => exact (put_emptied _).mpr emptied
  | walk step =>
    cases step with
    | put | use => exact (put_emptied _).mpr emptied
    | _ => exact emptied
  | detach step =>
    cases step with
    | detach =>
      unfold State.detach
      repeat' split
      all_goals exact emptied
  | taskWork step =>
    cases step with
    | stuckPut => exact (put_emptied _).mpr emptied
    | stuckFree | sbHangs => exact emptied
    | stuckDone | sb | free | handoffFree | handoff =>
      unfold State.advance
      split <;> exact emptied
  | vput | pinPut => exact (put_emptied _).mpr emptied
  | rcuFree | settled => exact emptied

/-! ### Who is alive in the end -/

theorem State.Settled.unseen [LinearOrder M] [Fintype W] (settled : s.Settled) : wrefs s m = 0 := by
  simp [wrefs, Visible, settled.walkers]

theorem State.Settled.unowed [LinearOrder M] [Fintype H] [Fintype W] (settled : s.Settled) : owed s m = 0 := by
  have quiet : ∀ t, s.vq t = [] := settled.quiet
  simp [owed, quiet]

variable [LinearOrder M] [Fintype S] [Fintype H] [Fintype W]

theorem Inv.watched_nonneg (inv : Inv cfg s 0 none ∅) (wf : cfg.WellFormed) : NoNegativeWatch s := by
  rintro (_ | b)
  · rw [inv.releases.unwatched none (by simp)]
  · obtain ⟨m, rfl⟩ := wf.sb.2 b
    rw [inv.releases.watched m]
    split <;> omega

/-- Who is alive in the end is pinned by somebody alive. -/
theorem Inv.pinned_by (inv : Inv cfg s 0 none ∅) (wf : cfg.WellFormed) (alone : cfg.Alone) (settled : s.Settled)
    (idle : s.uhead = []) (live : s.Live m) : ∃ x, s.Live x ∧ cfg.pin (cfg.sb x) = some m := by
  have exact := inv.ledger.exact m (.inr (.inr alone))
  have alive := inv.ledger.alive m live.2 (fun vacant => by simp [live.1] at vacant) (by simp)
  have closed : s.ext m = 0 := by
    rw [inv.ledger.ext m]
    simp [settled.hdone]
  have own : parentRef cfg s m = 0 := if_neg fun held => by simp [live.1] at held
  have some' : (Finset.univ.filter fun b => s.sbact b = true ∧ cfg.pin b = some m).card ≠ 0 := fun none => by
    have refs : refs cfg s m = 0 := by simp [refs, outer, pinned, idle, closed, settled.unseen, settled.unowed, own, settled.pins, none]
    rw [refs] at exact
    simp at exact
    omega
  obtain ⟨b, inside⟩ := Finset.card_ne_zero.mp some'
  obtain ⟨active, pins⟩ := (Finset.mem_filter.mp inside).2
  obtain ⟨x, rfl⟩ := wf.sb.2 b
  obtain live | ⟨it, inside, -⟩ := (inv.releases.sbact x).mp active
  · exact ⟨x, live, pins⟩
  · simp [settled.tw] at inside

variable [Fintype M]

theorem Inv.onCycle (inv : Inv cfg s 0 none ∅) (wf : cfg.WellFormed) (alone : cfg.Alone) (settled : s.Settled)
    (idle : s.uhead = []) (live : s.Live m) : OnCycle cfg m :=
  climbsUp_self (fun x (live : s.Live x) => inv.pinned_by wf alone settled idle live) live

/-- What is off the cycles of pins, and not a stand-in below one, is freed. -/
theorem Inv.freed (inv : Inv cfg s 0 none ∅) (wf : cfg.WellFormed) (alone : cfg.Alone) (settled : s.Settled)
    (idle : s.uhead = []) (off : ¬ OnCycle cfg m)
    (above : ∀ p, cfg.parent m = some p → ¬ OnCycle cfg p) : s.freed m = true := by
  have dead : ¬ s.Live m := fun live => off (inv.onCycle wf alone settled idle live)
  have none : ∀ it, it ∉ s.tw := fun it inside => by simp [settled.tw] at inside
  by_cases doomed : s.doomed m = true
  · have released : s.oldroot m = false := Bool.eq_false_of_not_eq_true fun pending => by
      obtain ⟨it, inside, -⟩ := inv.stages.pending m pending
      exact none it inside
    refine settled.freed m ?_
    by_contra pending
    obtain absent | ⟨it, inside, -⟩ | ⟨p, inside⟩ :=
      inv.stages.ends m doomed released (Bool.eq_false_of_not_eq_true pending)
    · exact Finset.notMem_empty m absent
    · exact none it inside
    · obtain ⟨-, -, -, -, -, -, it, inside, -⟩ := inv.stages.stuck m p inside
      exact none it inside
  · have up : s.doomed m = false := Bool.eq_false_of_not_eq_true doomed
    have vacant : s.vacant m = true := by
      by_contra own
      exact dead ⟨Bool.eq_false_of_not_eq_true own, up⟩
    exfalso
    by_cases on : s.hashed m = true
    · obtain ⟨p, parent⟩ := Option.ne_none_iff_exists'.mp (inv.tree.top m on)
      exact above p parent (inv.onCycle wf alone settled idle (inv.tree.below m p on parent))
    · have alive := inv.ledger.alive m up (fun _ => Bool.eq_false_of_not_eq_true on) (by simp)
      have exact := inv.ledger.exact m (.inl vacant)
      have final := inv.ledger.final m (.inl vacant)
      have own : parentRef cfg s m = 0 := if_neg fun held => on held.2.2
      have refs : refs cfg s m = 0 := by simp [refs, final, settled.unseen, settled.unowed, own]
      rw [refs] at exact
      simp at exact
      omega

theorem Inv.inactive (inv : Inv cfg s 0 none ∅) (wf : cfg.WellFormed) (alone : cfg.Alone) (settled : s.Settled)
    (idle : s.uhead = []) (off : ¬ OnCycle cfg m) : s.sbact (cfg.sb m) = false :=
  Bool.eq_false_of_not_eq_true fun active => by
    obtain live | ⟨it, inside, -⟩ := (inv.releases.sbact m).mp active
    · exact off (inv.onCycle wf alone settled idle live)
    · simp [settled.tw] at inside

theorem Inv.onlyCyclesLeak (inv : Inv cfg s 0 none ∅) (wf : cfg.WellFormed) (alone : cfg.Alone) (settled : s.Settled)
    (idle : s.uhead = []) : OnlyCyclesLeak cfg s where
  mounts _ := inv.freed wf alone settled idle
  superblocks _ := inv.inactive wf alone settled idle
  marks m off := by
    rw [inv.releases.watched m, if_pos]
    by_contra marked
    obtain ⟨acct, marked⟩ := Option.ne_none_iff_exists'.mp marked
    have active := (inv.releases.conn m acct marked).2
    rw [inv.inactive wf alone settled idle off] at active
    exact Bool.false_ne_true active
  knullfs := inv.releases.unwatched none (by simp)

/-- With vacated mounts only cycles of superblock pins keep anything alive, and no teardown waits
for a mark. -/
theorem only_cycles_leak [DecidableEq S] [DecidableEq H] [DecidableEq W] (wf : cfg.WellFormed) (alone : cfg.Alone) :
    (spec cfg).Invariant fun s : State M S H W => NoNegativeWatch s ∧ NoTeardownHang s ∧ (s.Settled → OnlyCyclesLeak cfg s) ∧
      ((∀ m, ¬ OnCycle cfg m) → Reaped s ∧ WatchedBalanced s) := by
  refine ((inv wf).and emptied).mono fun s ⟨inv, emptied⟩ => ?_
  have leak : s.Settled → OnlyCyclesLeak cfg s := fun settled =>
    inv.onlyCyclesLeak wf alone settled (emptied settled.upc)
  exact ⟨inv.watched_nonneg wf, inv.clean.hung, leak, fun acyclic => OnlyCyclesLeak.reaped wf acyclic leak⟩

theorem loop_settled : (loopRun 21).Settled where
  upc := by decide
  hdone := by decide
  walkers := by decide
  tw := by decide
  pins := by decide
  quiet := (inv loop_wf _ (loop_reaches (by decide))).ledger.noref rfl
  freed := by decide

theorem loop_alone : loop.Alone := by
  unfold Config.Alone
  decide

theorem loop_acyclic (m : Fin 2) : ¬ OnCycle loop m := by
  have falls : Falls (fun m => loop.pin (loop.sb m)) Fin.val := by
    unfold Falls
    decide
  exact Acyclic.irrefl ⟨_, falls⟩

/-- The file on the loop device's own parent is no cycle. -/
theorem loop_reaped : (loopRun 21).Settled ∧ (∀ m, (loopRun 21).freed m = true) ∧ ∀ b, (loopRun 21).sbact b = false :=
  ⟨loop_settled, ((only_cycles_leak loop_wf loop_alone _ (loop_reaches (by decide))).2.2.2 loop_acyclic).1 loop_settled⟩

end LinuxTla.MntVacant
