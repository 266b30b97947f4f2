import LinuxTla.Userns.Release

/-! Every client holds the reference on a namespace of its own, so no live namespace
loses its range, its inode in the map, or what was delegated to it. -/

namespace LinuxTla.Userns

variable {C I R : Type} {cfg : Config C I R} {k : Kernel I R} {s s' : State C I R}

/-! ### The clients -/

/-- The requests before write_userns(). -/
def WorkerPc.early : WorkerPc → Bool
  | .lock | .slot | .range => true
  | _ => false

/-- Every client holds the only reference on its own namespace. -/
structure Held (k : Kernel I R) (cl : C → Client) (wk : C → WorkerPc) : Prop where
  alive : ∀ c n, (cl c).ns = some n → n ∈ k.nsAlive
  refs : ∀ c n, (cl c).ns = some n → k.nsRefs n = 1
  own : ∀ c d n, (cl c).ns = some n → (cl d).ns = some n → c = d
  bare : ∀ c n, (cl c).ns = some n → (wk c).early = true → k.nsRange n = none

variable {cl cl' : C → Client} {wk wk' : C → WorkerPc}

/-- A request moves on, and no namespace changes hands. -/
theorem Held.moves (held : Held k cl wk) (ns : ∀ c, (cl' c).ns = (cl c).ns)
    (pc : ∀ c, (wk' c).early = true → (wk c).early = true) : Held k cl' wk' := by
  refine ⟨fun c n => ?_, fun c n => ?_, fun c d n => ?_, fun c n has early => ?_⟩
  · rw [ns]
    exact held.alive c n
  · rw [ns]
    exact held.refs c n
  · rw [ns, ns]
    exact held.own c d n
  · rw [ns] at has
    exact held.bare c n has (pc c early)

theorem update_ns [DecidableEq C] {c : C} {pc : ClientPc} (d : C) :
    (Function.update cl c { cl c with pc := pc } d).ns = (cl d).ns := by
  by_cases same : d = c
  · subst same
    rw [Function.update_self]
  · rw [Function.update_of_ne same]

theorem update_early [DecidableEq C] {c : C} {pc : WorkerPc} (before : pc.early = true → (wk c).early = true) (d : C)
    (early : (Function.update wk c pc d).early = true) : (wk d).early = true := by
  by_cases same : d = c
  · subst same
    rw [Function.update_self] at early
    exact before early
  · rwa [Function.update_of_ne same] at early

theorem Held.created [DecidableEq I] [DecidableEq C] (held : Held k cl wk) (kernel : k.Ok cfg) {c : C} {i : I} :
    Held (k.created i) (Function.update cl c { pc := .alloc, ns := some k.nextId }) (Function.update wk c .lock) := by
  have there {d : C} (other : d ≠ c) {n : ℕ}
      (ns : (Function.update cl c { pc := .alloc, ns := some k.nextId } d).ns = some n) :
      (cl d).ns = some n ∧ n ≠ k.nextId := by
    rw [Function.update_of_ne other] at ns
    exact ⟨ns, Nat.ne_of_lt (kernel.old n (held.alive d n ns))⟩
  have here {n : ℕ} (ns : (Function.update cl c { pc := .alloc, ns := some k.nextId } c).ns = some n) :
      n = k.nextId := by
    rw [Function.update_self] at ns
    exact (Option.some.inj ns).symm
  refine ⟨fun d n ns => ?_, fun d n ns => ?_, fun d e n ns ns' => ?_, fun d n ns early => ?_⟩
  · by_cases same : d = c
    · subst same
      exact Finset.mem_insert.mpr (.inl (here ns))
    · exact Finset.mem_insert_of_mem (held.alive d n (there same ns).1)
  · by_cases same : d = c
    · subst same
      rw [here ns]
      exact Function.update_self ..
    · exact (Function.update_of_ne (there same ns).2 ..).trans (held.refs d n (there same ns).1)
  · by_cases same : d = c
    · subst same
      by_contra other
      exact (there (Ne.symm other) ns').2 (here ns)
    · obtain ⟨ns, old⟩ := there same ns
      have other : e ≠ c := by
        rintro rfl
        exact old (here ns')
      exact held.own d e n ns (there other ns').1
  · by_cases same : d = c
    · subst same
      rw [here ns]
      exact kernel.fresh _ le_rfl
    · rw [Function.update_of_ne same] at early
      exact held.bare d n (there same ns).1 early

theorem Held.dropped [DecidableEq C] (held : Held k cl wk) {c : C} {n : ℕ} (ns : (cl c).ns = some n) :
    Held (k.dropped n) (Function.update cl c { pc := .idle, ns := none }) wk := by
  have there {d : C} {m : ℕ} (has : (Function.update cl c { pc := .idle, ns := none } d).ns = some m) :
      (cl d).ns = some m ∧ m ≠ n := by
    by_cases same : d = c
    · subst same
      rw [Function.update_self] at has
      cases has
    · rw [Function.update_of_ne same] at has
      refine ⟨has, ?_⟩
      rintro rfl
      exact same (held.own d c m has ns)
  refine ⟨fun d m has => held.alive d m (there has).1, fun d m has => ?_,
    fun d e m has has' => held.own d e m (there has).1 (there has').1, fun d m has => held.bare d m (there has).1⟩
  exact (Function.update_of_ne (there has).2 ..).trans (held.refs d m (there has).1)

theorem Held.died [DecidableEq I] (held : Held k cl wk) {n : ℕ} {i : I} (unused : k.nsRefs n = 0) : Held (k.died n i) cl wk := by
  refine ⟨fun c m has => Finset.mem_erase.mpr ⟨?_, held.alive c m has⟩, held.refs, held.own, held.bare⟩
  rintro rfl
  have used := held.refs c m has
  omega

theorem Held.mapped [DecidableEq C] (held : Held k cl wk) {c : C} {n : ℕ} {r : R} (ns : (cl c).ns = some n) :
    Held (k.mapped n r) cl (Function.update wk c .push) := by
  refine ⟨held.alive, held.refs, held.own, fun d m has early => ?_⟩
  have other : d ≠ c := by
    rintro rfl
    rw [Function.update_self] at early
    cases early
  rw [Function.update_of_ne other] at early
  have apart : m ≠ n := by
    rintro rfl
    exact other (held.own d c m has ns)
  exact (Function.update_of_ne apart ..).trans (held.bare d m has early)

/-! ### Every step -/

structure Inv (cfg : Config C I R) (s : State C I R) : Prop where
  kernel : s.kernel.Ok cfg
  store : s.store.Ok cfg s.kernel
  held : Held s.kernel s.cl s.wk

theorem Held.failed [DecidableEq C] (held : Held s.kernel s.cl s.wk) (c : C) :
    Held (s.failed c).kernel (s.failed c).cl (s.failed c).wk :=
  held.moves update_ns (update_early Bool.noConfusion)

theorem ClientStep.inv [DecidableEq C] [DecidableEq I] [DecidableEq R] {c : C} (step : ClientStep cfg s c s') (inv : Inv cfg s) :
    Inv cfg s' := by
  obtain ⟨kernel, store, held⟩ := inv
  cases step with
  | create idle bound free => exact ⟨kernel.created free, store.created kernel, held.created kernel⟩
  | drop _ ns => exact ⟨⟨kernel.old, kernel.used, kernel.own, kernel.free, kernel.fresh⟩,
      ⟨store.old, store.consistent, store.registered, store.apart, store.cgroup, store.netif⟩, held.dropped ns⟩
  | wLock pc =>
    exact ⟨kernel, store, held.moves (fun _ => rfl) (update_early fun _ => by rw [pc]; rfl)⟩
  | wSlotEmpty pc =>
    exact ⟨kernel, store, held.moves (fun _ => rfl) (update_early fun _ => by rw [pc]; rfl)⟩
  | @wSlotStale n i e pc ns inode entry other =>
    refine ⟨kernel, store.releases (releases_released fun m entry' live => ?_),
      held.moves (fun _ => rfl) (update_early fun _ => by rw [pc]; rfl)⟩
    obtain rfl : e = m := Option.some.inj (entry.symm.trans entry')
    exact other.2 (kernel.own e live n (held.alive c n ns) ((store.consistent i e entry live).trans inode.symm))
  | wSlotTaken => exact ⟨kernel, store, held.failed c⟩
  | @wRange n i r pc ns inode free =>
    have alive := held.alive c n ns
    exact ⟨kernel.mapped alive, store.stored kernel alive inode free, held.mapped ns⟩
  | wRangeReap _ _ _ dead =>
    refine ⟨kernel, store.releases (releases_released fun m entry => ?_), held⟩
    obtain ⟨_, n, entry', gone⟩ := Finset.mem_filter.mp dead
    obtain rfl : n = m := Option.some.inj (entry'.symm.trans entry)
    exact gone
  | wRangeFail => exact ⟨kernel, store, held.failed c⟩
  | wPush =>
    exact ⟨kernel, ⟨store.old, store.consistent, store.registered, store.apart, store.cgroup, store.netif⟩,
      held.moves update_ns (update_early Bool.noConfusion)⟩
  | wResources _ _ _ _ _ entry => exact ⟨kernel, store.delegated entry, held⟩

theorem reported_same [DecidableEq I] (cfg : Config C I R) (s : State C I R) (i : I) : (reported cfg s i).store = s.store ∧ (reported cfg s i).cl = s.cl ∧
    (reported cfg s i).wk = s.wk := by
  unfold reported
  split
  · split <;> exact ⟨rfl, rfl, rfl⟩
  · exact ⟨rfl, rfl, rfl⟩

theorem Next.inv [DecidableEq C] [DecidableEq I] [DecidableEq R] (verify : cfg.fixNsidVerify = true) (step : Next cfg s s') (inv : Inv cfg s) : Inv cfg s' := by
  obtain ⟨kernel, store, held⟩ := inv
  cases step with
  | client _ step => exact step.inv ⟨kernel, store, held⟩
  | @nsDie n i alive unused _ inode =>
    obtain ⟨sameStore, sameCl, sameWk⟩ := reported_same cfg s i
    refine ⟨kernel.died alive inode, ?_, ?_⟩
    · dsimp only
      rw [sameStore]
      exact store.died
    · dsimp only
      rw [sameCl, sameWk]
      exact held.died unused
  | mgrTake => exact ⟨kernel, store, held⟩
  | mgrRelease => exact ⟨kernel, store.releases (releases_mgrReleased verify), held⟩
  | restart =>
    refine ⟨kernel, store.releases releases_swept, held.moves (fun c => ?_) fun _ => Bool.noConfusion⟩
    dsimp only
    split <;> rfl

theorem inv [DecidableEq C] [DecidableEq I] [DecidableEq R] (verify : cfg.fixNsidVerify = true) : (spec cfg).Invariant (Inv cfg) := by
  refine Lib.System.Invariant.of_step ?_ fun _ _ inv step => step.inv verify inv
  rintro state rfl
  refine ⟨⟨fun _ live => ?_, fun _ live => ?_, fun _ live => ?_, fun _ => id, fun _ _ => rfl⟩,
    ⟨fun _ _ entry => ?_, fun _ _ entry => ?_, fun _ _ _ ranged => ?_, fun _ _ _ _ _ range => ?_, fun _ _ entry => ?_,
      fun _ _ entry => ?_⟩,
    ⟨fun _ _ ns => ?_, fun _ _ ns => ?_, fun _ _ _ ns => ?_, fun _ _ ns => ?_⟩⟩
  · exact absurd live (Finset.notMem_empty _)
  · exact absurd live (Finset.notMem_empty _)
  · exact absurd live (Finset.notMem_empty _)
  · cases entry
  · cases entry
  · cases ranged.2
  · cases range
  · cases entry
  · cases entry
  all_goals cases ns

theorem Inv.liveRangesDisjoint (inv : Inv cfg s) : LiveRangesDisjoint s := by
  intro n live m live' other ranged same
  obtain ⟨r, range⟩ := Option.ne_none_iff_exists'.mp ranged
  obtain ⟨i, inside, inode, _⟩ := inv.kernel.used n live
  obtain ⟨j, inside', inode', _⟩ := inv.kernel.used m live'
  have first := (inv.store.registered n r i ⟨live, range⟩ inode).2.1
  have second := (inv.store.registered m r j ⟨live', same.symm.trans range⟩ inode').2.1
  obtain rfl := inv.store.apart i inside j inside' r first second
  exact other (inv.kernel.own n live m live' (inode.trans inode'.symm))

theorem Inv.managedCoversLive (inv : Inv cfg s) : ManagedCoversLive s := by
  intro n live ranged
  obtain ⟨r, range⟩ := Option.ne_none_iff_exists'.mp ranged
  obtain ⟨i, _, inode, _⟩ := inv.kernel.used n live
  exact ⟨i, (inv.store.registered n r i ⟨live, range⟩ inode).2.2, inode⟩

/-- Live namespaces keep their range, their policy and what was delegated to them. -/
theorem registry_safe [DecidableEq C] [DecidableEq I] [DecidableEq R] (verify : cfg.fixNsidVerify = true) : (spec cfg).Invariant fun s =>
    LiveRangesDisjoint s ∧ ManagedCoversLive s ∧ ResourcesOfLiveKept cfg s ∧ RegistryConsistent cfg s := by
  refine (inv verify).mono fun s inv => ⟨inv.liveRangesDisjoint, inv.managedCoversLive, ?_, ?_⟩
  · exact fun i _ n live entry => ⟨inv.store.cgroup i n entry live, inv.store.netif i n entry live⟩
  · exact fun i _ n live entry => inv.store.consistent i n entry live

section Small

/-- Two containers, two inode numbers and two ranges. -/
def small : Config (Fin 2) (Fin 2) (Fin 2) where
  clients := Finset.univ
  role _ := .nspawn
  inodes := Finset.univ
  ranges := Finset.univ
  idMax := 2
  ringCap := 1
  restartBudget := 1
  fdstorePins := true
  fixNsidVerify := true
  fixReapOnAlloc := true
  fixStartupSweep := true
  fixRingbufLock := true

/-- Both clients' namespaces live, each with its range, the first with its resources, and the
service has been restarted over them. -/
theorem small_delegated : ∃ s, (spec small).Reachable s ∧ s.kernel.nsAlive = {1, 2} ∧ s.kernel.nsRange 1 = some 0 ∧
    s.kernel.nsRange 2 = some 1 ∧ s.store.registry 0 = { id := some 1, range := some 0, cg := true, netif := true } := by
  have client {s s' : State (Fin 2) (Fin 2) (Fin 2)} (reached : (spec small).Reachable s) (c : Fin 2)
      (step : ClientStep small s c s') : (spec small).Reachable s' := reached.next (.client (Finset.mem_univ c) step)
  have run := client (.init rfl) 0 (.create (i := 0) rfl (by decide) (by decide))
  have run := client run 1 (.create (i := 1) rfl (by decide) (by decide))
  have run := client run 0 (.wLock rfl rfl)
  have run := client run 0 (.wSlotEmpty rfl rfl rfl rfl)
  have run := client run 0 (.wRange (r := 0) rfl rfl rfl (by decide))
  have run := client run 1 (.wLock rfl rfl)
  have run := client run 0 (.wPush rfl rfl rfl)
  have run := client run 1 (.wSlotEmpty rfl rfl rfl rfl)
  have run := client run 1 (.wRange (r := 1) rfl rfl rfl (by decide))
  have run := client run 0 (.wResources rfl rfl rfl rfl rfl rfl rfl)
  have run := client run 1 (.wPush rfl rfl rfl)
  have run := run.next (.restart (by decide) rfl)
  exact ⟨_, run, by decide, rfl, rfl, rfl⟩

theorem small_registry_safe : ∃ s, s.kernel.nsAlive = {1, 2} ∧ s.kernel.nsRange 1 = some 0 ∧ s.kernel.nsRange 2 = some 1 ∧
    LiveRangesDisjoint s ∧ ManagedCoversLive s ∧ ResourcesOfLiveKept small s ∧ RegistryConsistent small s := by
  obtain ⟨s, reached, alive, first, second, -⟩ := small_delegated
  exact ⟨s, alive, first, second, registry_safe rfl s reached⟩

end Small

end LinuxTla.Userns
