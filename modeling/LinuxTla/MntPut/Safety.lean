import LinuxTla.MntPut.Last

/-! What `MntPut.tla` checks, for every configuration with the whole protocol in
place: any number of walkers and holders, any CPUs and budgets, either memory model. -/

namespace LinuxTla.MntPut

variable {T : Type} [DecidableEq T] {cfg : Config T}

/-- The count is never short of the references held, and nobody touches a freed mount. -/
theorem count_safe (wf : cfg.WellFormed) (fixed : cfg.Fixed) : (spec cfg).Invariant fun s =>
    Ledger cfg s ∧ DoomedIsLast cfg s ∧ NoNegative cfg s ∧ NoUAF cfg s := by
  intro s reached
  have known := base wf fixed s reached
  have ends := ending wf fixed s reached
  exact ⟨ledger_of_balanced wf known.buffer known.balance, ends.doomedIsLast wf known.control, known.sum.noNegative,
    ends.noUAF⟩

/-- A synchronous umount that succeeds leaves no reference but its own, and the
umounter is the one to clean up. -/
theorem sync_umount_clean (wf : cfg.WellFormed) (fixed : cfg.Fixed) (eager : cfg.lazy = false) :
    (spec cfg).Invariant (SyncClean cfg) := by
  intro s reached
  rintro ⟨result, -⟩
  exact (synced wf fixed eager s reached result).clean wf (control wf s reached)

/-- Nothing is leaked: once everybody is done the mount is freed, unless the umount
was refused, and cleanup_mnt() runs at most once. -/
theorem nothing_leaked (wf : cfg.WellFormed) (fixed : cfg.Fixed) :
    ((spec cfg).Invariant fun s => Quiet cfg s → s.uresult ≠ .busy → s.vis.m.freed = true) ∧
      ∀ length states, (spec cfg).Run length states → ∀ i < length, ∀ j < length,
        Cleans cfg (states i) (states (i + 1)) → Cleans cfg (states j) (states (j + 1)) → i = j := by
  refine ⟨fun s reached quiet umounted => ?_, fun length states run i first j second once again => ?_⟩
  · exact quiet.freed wf (control wf s reached) (watched wf fixed s reached) (dying s reached) umounted
  · exact cleans_once wf fixed run first second once again

section Small

/-- One umounter, one walker, two CPUs. -/
def small : Config (Fin 2) where
  taskList := [0, 1]
  umounter := 0
  walkers := {1}
  holders := ∅
  ncpu := 2
  getBudget := 1
  migrate := true
  migBudget := 1
  lazy := false
  fixMbLegit := true
  fixMbUmount := true
  fixMbPut := true
  fixRcuDelay := true
  fixPutRcu := true
  fixSyncFlag := true
  fixDoomedFlag := true
  fixSplitCount := true
  splitGetsFirst := false
  weakStores := true
  fixPutWmb := true

theorem small_wellFormed : small.WellFormed := by
  constructor <;> decide

theorem small_fixed : small.Fixed := by
  constructor <;> rfl

theorem small_umounted : ∃ s, (spec small).Reachable s ∧ s.uresult = .ok := by
  have start : (spec small).Reachable (init small) := .init rfl
  have run := start.next (.task (t := 0) (by decide) (.uLock rfl rfl ⟨rfl, rfl⟩ rfl))
  have run := run.next (.flush (t := 0) (i := 0) (e := .seq 1) (by decide) rfl (by decide))
  have run := run.next (.flush (t := 0) (i := 0) (e := .wmb) (by decide) rfl (by decide))
  have run := run.next (.task (t := 0) (by decide) (.uMb rfl rfl fun _ => rfl))
  have run := run.next (.task (t := 0) (by decide) (.uSum rfl rfl (by decide)))
  have run := run.next (.task (t := 0) (by decide) (.uSum rfl rfl (by decide)))
  have run := run.next (.task (t := 0) (by decide) (.uSum rfl rfl (by decide)))
  have run := run.next (.task (t := 0) (by decide) (.uSum rfl rfl (by decide)))
  have run := run.next (.task (t := 0) (by decide) (.uSumEnd rfl rfl (by decide)))
  have run := run.next (.task (t := 0) (by decide) (.uBusyNot rfl rfl (by decide)))
  have run := run.next (.task (t := 0) (by decide) (.uTree rfl rfl))
  exact ⟨_, run, rfl⟩

theorem small_safe : ∃ s, s.uresult = .ok ∧ Ledger small s ∧ DoomedIsLast small s ∧ NoNegative small s ∧ NoUAF small s := by
  obtain ⟨s, reached, result⟩ := small_umounted
  exact ⟨s, result, count_safe small_wellFormed small_fixed s reached⟩

theorem small_clean : ∃ s, s.uresult = .ok ∧ SyncClean small s := by
  obtain ⟨s, reached, result⟩ := small_umounted
  exact ⟨s, result, sync_umount_clean small_wellFormed small_fixed rfl s reached⟩

/-- The walker's increment escapes the sum. It finds the seqcount moved while the
umounter waits for it, and takes the reference back under the lock. -/
theorem small_freed : ∃ s, (spec small).Reachable s ∧ Quiet small s ∧ s.uresult = .ok ∧ s.pc 1 = .lost := by
  have start : (spec small).Reachable (init small) := .init rfl
  have run := start.next (.task (t := 1) (by decide) (.wStart (by decide) rfl rfl))
  have run := run.next (.task (t := 1) (by decide) (.wLookup (by decide) rfl (.inl rfl)))
  have run := run.next (.task (t := 1) (by decide) (.wL1 (by decide) rfl rfl))
  have run := run.next (.task (t := 1) (by decide) (.wL2 (by decide) rfl))
  have run := run.next (.task (t := 0) (by decide) (.uLock rfl rfl ⟨rfl, rfl⟩ rfl))
  have run := run.next (.flush (t := 0) (i := 0) (e := .seq 1) (by decide) rfl (by decide))
  have run := run.next (.flush (t := 0) (i := 0) (e := .wmb) (by decide) rfl (by decide))
  have run := run.next (.task (t := 0) (by decide) (.uMb rfl rfl fun _ => rfl))
  have run := run.next (.task (t := 0) (by decide) (.uSum rfl rfl (by decide)))
  have run := run.next (.task (t := 0) (by decide) (.uSum rfl rfl (by decide)))
  have run := run.next (.task (t := 0) (by decide) (.uSum rfl rfl (by decide)))
  have run := run.next (.task (t := 0) (by decide) (.uSum rfl rfl (by decide)))
  have run := run.next (.task (t := 0) (by decide) (.uSumEnd rfl rfl (by decide)))
  have run := run.next (.task (t := 0) (by decide) (.uBusyNot rfl rfl (by decide)))
  have run := run.next (.task (t := 0) (by decide) (.uTree rfl rfl))
  have run := run.next (.task (t := 0) (by decide) (.uUnlock rfl rfl))
  have run := run.next (.task (t := 0) (by decide) (.uNsUnlock rfl rfl rfl rfl))
  have run := run.next (.task (t := 1) (by decide) (.wMb (by decide) rfl fun _ => rfl))
  have run := run.next (.task (t := 1) (by decide) (.wL4Retry (by decide) rfl (by decide)))
  have run := run.next (.task (t := 1) (by decide) (.wLock (by decide) rfl ⟨rfl, rfl⟩))
  have run := run.next (.task (t := 1) (by decide) (.wFlagsDrop (by decide) rfl (.inl ⟨rfl, rfl⟩)))
  have run := run.next (.task (t := 0) (by decide) (.uGpWait rfl rfl rfl))
  have run := run.next (.task (t := 0) (by decide) (.uNsPut rfl rfl))
  have run := run.next (.task (t := 0) (by decide) (.putEnterSlow rfl rfl))
  have run := run.next (.task (t := 0) (by decide) (.putLock rfl ⟨rfl, rfl⟩))
  have run := run.next (.flush (t := 0) (i := 0) (e := .seq 5) (by decide) rfl (by decide))
  have run := run.next (.flush (t := 0) (i := 0) (e := .wmb) (by decide) rfl (by decide))
  have run := run.next (.task (t := 0) (by decide) (.putMb rfl fun _ => rfl))
  have run := run.next (.task (t := 0) (by decide) (.putDec rfl))
  have run := run.next (.task (t := 0) (by decide) (.putSum rfl (by decide)))
  have run := run.next (.task (t := 0) (by decide) (.putSum rfl (by decide)))
  have run := run.next (.task (t := 0) (by decide) (.putSum rfl (by decide)))
  have run := run.next (.task (t := 0) (by decide) (.putSum rfl (by decide)))
  have run := run.next (.task (t := 0) (by decide) (.putSumEnd rfl (by decide)))
  have run := run.next (.task (t := 0) (by decide) (.putCheckOther rfl (.inl (by decide))))
  have run := run.next (.task (t := 0) (by decide) (.uRet rfl rfl))
  have run := run.next (.task (t := 0) (by decide) (.putEnterSlow rfl rfl))
  have run := run.next (.task (t := 0) (by decide) (.putLock rfl ⟨rfl, rfl⟩))
  have run := run.next (.flush (t := 0) (i := 0) (e := .seq 7) (by decide) rfl (by decide))
  have run := run.next (.flush (t := 0) (i := 0) (e := .wmb) (by decide) rfl (by decide))
  have run := run.next (.task (t := 0) (by decide) (.putMb rfl fun _ => rfl))
  have run := run.next (.task (t := 0) (by decide) (.putDec rfl))
  have run := run.next (.task (t := 0) (by decide) (.putSum rfl (by decide)))
  have run := run.next (.task (t := 0) (by decide) (.putSum rfl (by decide)))
  have run := run.next (.task (t := 0) (by decide) (.putSum rfl (by decide)))
  have run := run.next (.task (t := 0) (by decide) (.putSum rfl (by decide)))
  have run := run.next (.task (t := 0) (by decide) (.putSumEnd rfl (by decide)))
  have run := run.next (.task (t := 0) (by decide) (.putCheckLast rfl (by decide) rfl))
  have run := run.next (.task (t := 0) (by decide) (.putCleanup rfl))
  have run := run.next (.rcuFree rfl rfl)
  exact ⟨_, run, ⟨by decide, by decide, rfl⟩, rfl, rfl⟩

theorem small_reaped : ∃ s, (spec small).Reachable s ∧ s.uresult = .ok ∧ s.pc 1 = .lost ∧ s.vis.m.freed = true := by
  obtain ⟨s, reached, quiet, result, missed⟩ := small_freed
  refine ⟨s, reached, result, missed, (nothing_leaked small_wellFormed small_fixed).1 s reached quiet ?_⟩
  exact fun busy => UResult.noConfusion (result.symm.trans busy)

end Small

end LinuxTla.MntPut
