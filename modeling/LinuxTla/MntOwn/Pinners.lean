import LinuxTla.MntOwn.Safety

/-! Disconnecting pinners: a mount left attached to a dead parent never has a
superblock that keeps a file on a mount that is dead too, over all umount_tree()
calls of a run. -/

namespace LinuxTla.MntOwn

open Lib

variable {M S : Type} {cfg : Config M S}
  {st after last : Tables M S} {s s' : State M S} {ext hand : M → ℕ} {owe : S → ℕ} {m x y c p : M} {b t : S}

/-! ### Puts only take away -/

/-- What mntput() and the rest leave of the tree without tombstones. -/
structure Fades (st after : Tables M S) : Prop where
  attached : ∀ x, after.attached x = true → st.attached x = true
  freed : ∀ x, st.freed x = true → after.freed x = true
  pin : after.pin = st.pin

theorem Fades.refl (st : Tables M S) : Fades st st := ⟨fun _ on => on, fun _ freed => freed, rfl⟩

theorem Fades.trans (first : Fades st after) (second : Fades after last) : Fades st last :=
  ⟨fun x on => first.attached x (second.attached x on), fun x freed => second.freed x (first.freed x freed),
    second.pin.trans first.pin⟩

variable [Fintype M] [LinearOrder M]

theorem fades_put (cfg : Config M S) (st : Tables M S) (m : M) : Fades st (st.put cfg m) := by
  have detached : ∀ x, (st.detach (st.children m)).attached x = true → st.attached x = true := by
    intro x on
    rw [Tables.detach_attached] at on
    split at on
    · cases on
    · exact on
  unfold Tables.put
  dsimp only
  split
  · exact ⟨fun _ on => on, fun _ freed => freed, rfl⟩
  · split
    · exact ⟨fun _ on => on, fun _ freed => freed, rfl⟩
    · split <;> exact ⟨detached, fun _ freed => freed, rfl⟩

theorem fades_putAll (cfg : Config M S) (st : Tables M S) (ms : List M) : Fades st (st.putAll cfg ms) := by
  induction ms generalizing st with
  | nil => exact .refl st
  | cons m ms ih => exact (fades_put cfg st m).trans (ih _)

variable [Fintype S] [DecidableEq S]

theorem fades_dropSb (cfg : Config M S) (st : Tables M S) (b : S) : Fades st (st.dropSb cfg b) := by
  have active : ∀ (st : Tables M S) s a, Fades st (st.setActive s a) := fun _ _ _ =>
    ⟨fun _ on => on, fun _ freed => freed, rfl⟩
  induction st, b using Tables.dropSb.induct cfg with
  | case1 st s a zero none =>
    rw [Tables.dropSb, dif_pos zero]
    simp only [none]
    exact active st s _
  | case2 st s a zero x file cloned ih =>
    rw [Tables.dropSb, dif_pos zero]
    simp only [file, cloned, if_true]
    exact (active st s _).trans ih
  | case3 st s a zero x file direct =>
    rw [Tables.dropSb, dif_pos zero]
    simp only [file, direct]
    exact (active st s _).trans (fades_put cfg _ x)
  | case4 st s a more =>
    rw [Tables.dropSb, dif_neg more]
    exact active st s _

theorem fades_cleanup (cfg : Config M S) (st : Tables M S) (m : M) : Fades st (st.cleanup cfg m) := by
  have visit : Fades st (st.visit m) := ⟨fun _ on => on, fun _ freed => freed, rfl⟩
  have released : Fades (st.visit m) ((st.visit m).released m) := ⟨fun _ on => on, fun _ freed => freed, rfl⟩
  have free : ∀ t : Tables M S, Fades t (t.free m) := fun t => by
    refine ⟨fun x on => ?_, fun x freed => ?_, rfl⟩
    · rw [Tables.free_attached] at on
      by_cases here : x = m
      · subst here
        simp at on
      · rwa [Function.update_of_ne here] at on
    · rw [Tables.free_freed]
      by_cases here : x = m
      · subst here
        rw [Function.update_self]
      · rwa [Function.update_of_ne here]
  unfold Tables.cleanup
  split
  · exact ((visit.trans released).trans (fades_putAll cfg _ _)).trans ((fades_dropSb cfg _ _).trans (fades_put cfg _ m))
  · dsimp only
    split
    · exact (visit.trans (fades_putAll cfg _ _)).trans (free _)
    · exact (visit.trans (fades_putAll cfg _ _)).trans ((fades_dropSb cfg _ _).trans (free _))

/-! ### umount_tree() leaves no pinner connected -/

/-- A file on a mount that is on its way out. -/
def PinsDead (st : Tables M S) (c : M) : Prop :=
  ∃ x, st.pin (st.sb c) = some x ∧ st.umount x = true ∧ st.freed x = false

/-- What umount_tree() leaves of a marked tree while it takes the victims. -/
structure Marked (st after : Tables M S) : Prop where
  umount : after.umount = st.umount
  freed : after.freed = st.freed
  sb : after.sb = st.sb
  pin : after.pin = st.pin
  attached : ∀ x, after.attached x = true → st.attached x = true

omit [Fintype S] [DecidableEq S] in
theorem marked_umountOne (how : How) (marked : st.umount p = true) : Marked st (st.umountOne cfg p how) := by
  rw [umountOne_eq marked]
  split
  · refine ⟨rfl, rfl, rfl, rfl, fun x on => ?_⟩
    have on : (st.detach {p}).attached x = true := on
    rw [Tables.detach_attached] at on
    split at on
    · cases on
    · exact on
  · exact ⟨rfl, rfl, rfl, rfl, fun _ on => on⟩

omit [Fintype S] [DecidableEq S] in
/-- A victim left attached keeps no file on a dead mount. -/
theorem umountOne_attached (how : How) (pinners : cfg.fixDisconnectPinners = true) (any : cfg.pinnersAncestorOnly = false)
    (marked : st.umount p = true) (on : (st.umountOne cfg p how).attached p = true) : ¬ PinsDead st p := by
  rw [umountOne_eq marked] at on
  split at on
  · have on : (st.detach {p}).attached p = true := on
    simp at on
  · case isFalse kept =>
    rintro ⟨x, file, umounted, alive⟩
    exact kept (.inr (.inr (.inr (.inl ⟨pinners, x, file, umounted, alive, .inl any⟩))))

omit [Fintype S] [DecidableEq S] in
theorem umountEach_attached (st : Tables M S) (how : How) (pinners : cfg.fixDisconnectPinners = true)
    (any : cfg.pinnersAncestorOnly = false) (ps : List M) (marked : ∀ x ∈ ps, st.umount x = true) :
    Marked st (st.umountEach cfg how ps) ∧
      ∀ c ∈ ps, (st.umountEach cfg how ps).attached c = true → ¬ PinsDead st c := by
  induction ps generalizing st with
  | nil => exact ⟨⟨rfl, rfl, rfl, rfl, fun _ on => on⟩, nofun⟩
  | cons p ps ih =>
    have here := marked p List.mem_cons_self
    have first : Marked st (st.umountOne cfg p how) := marked_umountOne how here
    have rest : ∀ x ∈ ps, (st.umountOne cfg p how).umount x = true := fun x inside =>
      first.umount ▸ marked x (List.mem_cons_of_mem p inside)
    obtain ⟨second, others⟩ := ih (st.umountOne cfg p how) rest
    refine ⟨⟨second.umount.trans first.umount, second.freed.trans first.freed, second.sb.trans first.sb,
      second.pin.trans first.pin, fun x on => first.attached x (second.attached x on)⟩, fun c inside on => ?_⟩
    rcases List.mem_cons.mp inside with rfl | inside
    · exact umountOne_attached how pinners any here (second.attached c on)
    · have apart := others c inside on
      unfold PinsDead at apart ⊢
      rwa [first.umount, first.freed, first.sb, first.pin] at apart

/-- No mount attached to a dead parent keeps a file on a dead mount. -/
def Clear (cfg : Config M S) (st : Tables M S) : Prop :=
  ∀ c x, st.attached c = true → st.ns c = false → st.pin (cfg.sb c) = some x → st.ns x = false → st.freed x = true

omit [Fintype M] [LinearOrder M] [Fintype S] [DecidableEq S] in
theorem Clear.fades (clear : Clear cfg st) (fades : Fades st after) (ns : after.ns = st.ns) : Clear cfg after := by
  intro c x on gone file dead
  rw [ns] at gone dead
  rw [fades.pin] at file
  exact fades.freed x (clear c x (fades.attached c on) gone file dead)

/-- The rule of the series, with direct pins and without tombstones. -/
structure Config.Pinners (cfg : Config M S) : Prop where
  pinners : cfg.fixDisconnectPinners = true
  reexamine : cfg.pinnersReexamine = true
  any : cfg.pinnersAncestorOnly = false
  owns : cfg.fixDisown = false
  direct : cfg.fixInternalClone = false

omit [Fintype S] [DecidableEq S] in
theorem umountTree_pinners (rule : cfg.Pinners) (how : How) : st.umountTree cfg m how =
    { (Tables.umountEach cfg how (st.markUmount (st.subtree m)) (ordered cfg (st.subtree m))).reexamine cfg
        (st.subtree m) with
      unm := ((Tables.umountEach cfg how (st.markUmount (st.subtree m)) (ordered cfg (st.subtree m))).reexamine cfg
        (st.subtree m)).unm.reverse } := by
  unfold Tables.umountTree
  simp only [rule.pinners, rule.reexamine, rule.owns, and_self, if_true, Bool.false_eq_true, if_false]

theorem Clear.umountTree (wf : cfg.WellFormed) (rule : cfg.Pinners) (ok : Sound cfg ext hand owe none ∅ st)
    (how : How) (mounted : st.ns m = true) : Clear cfg (st.umountTree cfg m how) := by
  have after := ok.umountTree wf how (fun _ => rule.owns) mounted
  obtain ⟨marked, victims⟩ := umountEach_attached (st.markUmount (st.subtree m)) how rule.pinners rule.any
    (ordered cfg (st.subtree m)) fun x inside => by
      rw [Tables.markUmount_umount, if_pos ((Finset.mem_sort _).mp inside)]
  intro c x on gone file dead
  by_contra alive
  have alive : (st.umountTree cfg m how).freed x = false := by simpa using alive
  have umounted : ∀ y, (st.umountTree cfg m how).ns y = false → (st.umountTree cfg m how).umount y = true := by
    intro y dead
    have := after.ns y
    simp_all
  have sb : (st.umountTree cfg m how).sb c = cfg.sb c := by
    refine after.sb c ?_
    by_contra tomb
    have := (after.disowned c (by simpa using tomb)).1
    simp [rule.owns] at this
  obtain ⟨q, parent⟩ := Option.ne_none_iff_exists'.mp (after.attached c gone on)
  have linked := (after.below c q parent).2.2 (Finset.notMem_empty c)
  have live := after.not_freed (after.parent c q parent).2.2
  have above := umounted c gone
  rw [← sb] at file
  have dead := umounted x dead
  rw [linked] at above
  rw [umountTree_pinners rule] at on parent above live file alive dead linked
  generalize each : Tables.umountEach cfg how (st.markUmount (st.subtree m)) (ordered cfg (st.subtree m)) = taken
    at on parent above live file alive dead linked marked victims
  have pins : PinsDead taken c := ⟨x, file, dead, alive⟩
  change (taken.detach (taken.late cfg (st.subtree m))).attached c = true at on
  change (taken.detach (taken.late cfg (st.subtree m))).parent c = some q at parent
  rw [Tables.detach_attached] at on
  rw [Tables.detach_parent] at parent
  split at on
  · cases on
  · case isFalse kept =>
    rw [if_neg kept] at parent
    by_cases victim : c ∈ st.subtree m
    · refine victims c ((Finset.mem_sort _).mpr victim) on ?_
      unfold PinsDead at pins ⊢
      rwa [marked.umount, marked.freed, marked.sb, marked.pin] at pins
    · -- an earlier umount_tree() left it: it is looked at again
      refine kept (Finset.mem_filter.mpr ⟨Finset.mem_univ c, live, linked.trans above, on, victim, ⟨q, parent, above⟩, ?_⟩)
      exact ⟨x, file, dead, alive, .inl rule.any⟩

theorem Clear.next (wf : cfg.WellFormed) (rule : cfg.Pinners) (kept : Kept cfg s) (clear : Clear cfg s.tables)
    (step : Next cfg s s') : Clear cfg s'.tables := by
  cases step with
  | lazyUmount _ mounted _ => exact .umountTree wf rule kept.books _ mounted.2.2.2.2.1
  | syncUmount _ mounted _ _ _ _ => exact .umountTree wf rule kept.books _ mounted.2.2.2.2.1
  | detachMounts _ mounted => exact .umountTree wf rule kept.books _ mounted.2.2.2.2.1
  | leave _ => exact clear
  | putMntNs alive _ _ => exact .umountTree wf rule kept.books _ (kept.root alive)
  | @nsUnlockPut m ms pending =>
    have listed : Fades s.tables { s.tables with unm := ms } := ⟨fun _ on => on, fun _ freed => freed, rfl⟩
    exact clear.fades (listed.trans (fades_put cfg _ m)) put_ns
  | @close m _ => exact clear.fades (fades_put cfg _ m) put_ns
  | @cleanupMnt m _ => exact clear.fades (fades_cleanup cfg _ m) cleanup_ns
  | settled _ => exact clear

theorem clear (wf : cfg.WellFormed) (rule : cfg.Pinners) : (spec cfg).Invariant fun s => Clear cfg s.tables := by
  refine (kept wf fun _ => rule.owns).relative ?_ ?_
  · rintro _ ⟨pin, -, rfl⟩ c x _ gone
    cases gone
  · exact fun _ _ kept _ clear step => clear.next wf rule kept step

/-! ### What survives is kept from a cycle of pins -/

omit [Fintype S] [DecidableEq S] in
theorem subset_keptStep (c : Finset M) : c ⊆ keptStep cfg s c := Finset.subset_union_left

omit [Fintype S] [DecidableEq S] in
theorem keptStep_iterate_le {j k : ℕ} (order : j ≤ k) (c : Finset M) :
    (keptStep cfg s)^[j] c ⊆ (keptStep cfg s)^[k] c := by
  obtain ⟨d, rfl⟩ := Nat.exists_eq_add_of_le order
  rw [Nat.add_comm, Function.iterate_add_apply]
  exact Function.id_le_iterate_of_id_le (f := keptStep cfg s) subset_keptStep d _

theorem Kept.leaksAreCycles_pinners (wf : cfg.WellFormed) (rule : cfg.Pinners) (kept : Kept cfg s)
    (clear : Clear cfg s.tables) (homed : Homed cfg s) : LeaksAreCycles cfg s := by
  intro settled m alive
  have gone : ∀ x, s.tables.ns x = false := kept.left settled.ns
  let loose := (MntOwn.alive s).filter fun y => s.tables.attached y = false
  have mem_loose : ∀ y, y ∈ loose ↔ s.tables.freed y = false ∧ s.tables.attached y = false := by
    intro y
    simp [loose, MntOwn.alive]
  -- who keeps a file on a survivor is attached nowhere
  have pinner : ∀ y, 0 < pinsOn cfg s.tables y → s.tables.freed y = false → ∃ x ∈ loose, Pins s x y := by
    intro y pinned alive
    obtain ⟨x, alive', filled, pins⟩ := kept.pinner rule.direct settled homed pinned
    refine ⟨x, (mem_loose x).mpr ⟨alive', ?_⟩, pins⟩
    by_contra on
    have file := pins.1
    rw [kept.books.sb x filled] at file
    have := clear x y (by simpa using on) (gone x) file (gone y)
    simp [alive] at this
  have cycle : ∀ y ∈ loose, ∃ x ∈ loose, Pins s x y := by
    intro y inside
    obtain ⟨alive, off⟩ := (mem_loose y).mp inside
    refine pinner y ((kept.survivor settled alive).resolve_right fun owned => ?_) alive
    have := owned.1
    simp [off] at this
  obtain ⟨rank, falls, bound⟩ := wf.tree.bounded Finset.univ.toList (by simp)
  have reached : ∀ n x, rank x = n → s.tables.freed x = false → x ∈ (keptStep cfg s)^[n + 1] loose ∧ loose ≠ ∅ := by
    intro n
    induction n using Nat.strong_induction_on with
    | _ n ih =>
      intro x here alive
      have alive' : x ∈ MntOwn.alive s := by simpa [MntOwn.alive] using alive
      rcases kept.survivor settled alive with pinned | owned
      · obtain ⟨y, inside, pins⟩ := pinner x pinned alive
        refine ⟨keptStep_iterate_le (by omega : 1 ≤ n + 1) loose ?_, Finset.ne_empty_of_mem inside⟩
        exact Finset.mem_union_right _ (Finset.mem_filter.mpr ⟨alive', y, inside, .inl ⟨rule.direct, pins⟩⟩)
      · obtain ⟨q, parent, alive'', -⟩ := kept.owner owned
        have above := falls x q (kept.books.parent x q parent).1
        obtain ⟨inside, some'⟩ := ih (rank q) (by omega) q rfl alive''
        refine ⟨?_, some'⟩
        rw [Function.iterate_succ_apply']
        refine Finset.mem_union_right _ (Finset.mem_filter.mpr ⟨alive', q, ?_, .inr ⟨owned.1, parent, .inl rule.owns⟩⟩)
        exact keptStep_iterate_le (by omega) loose inside
  have alive : s.tables.freed m = false := (Finset.mem_filter.mp alive).2
  obtain ⟨inside, some'⟩ := reached (rank m) m rfl alive
  have few := bound m
  rw [Finset.length_toList, Finset.card_univ] at few
  exact ⟨loose, Finset.filter_subset _ _, ⟨some', cycle⟩, keptStep_iterate_le (by omega) loose inside⟩

/-- With the pinners disconnected only cycles of pins leak, if every superblock that keeps a file has a mount. -/
theorem pinners_safe (wf : cfg.WellFormed) (pinners : cfg.fixDisconnectPinners = true)
    (reexamine : cfg.pinnersReexamine = true) (any : cfg.pinnersAncestorOnly = false) (owns : cfg.fixDisown = false)
    (direct : cfg.fixInternalClone = false) :
    (spec cfg).Invariant fun s => NoUAF cfg s ∧ (Homed cfg s → LeaksAreCycles cfg s) := by
  have rule : cfg.Pinners := ⟨pinners, reexamine, any, owns, direct⟩
  have both := (kept wf fun _ => owns).and (clear wf rule)
  exact both.mono fun _ ⟨kept, clear⟩ => ⟨kept.noUAF wf, kept.leaksAreCycles_pinners wf rule clear⟩

/-- The layout of the report. -/
def examined : Config (Fin 3) (Fin 4) :=
  { report false with fixDisown := false, fixDisconnectPinners := true, pinnersReexamine := true }

theorem examined_wf : examined.WellFormed :=
  have wf := report_wf false
  ⟨wf.root, wf.tree, wf.null_sb, wf.null_pin, wf.null_pinner⟩

theorem examined_safe :
    (spec examined).Invariant fun s => NoUAF examined s ∧ (Homed examined s → LeaksAreCycles examined s) :=
  pinners_safe examined_wf rfl rfl rfl rfl rfl

/-- A superblock without a mount that keeps a file, under this rule. -/
def strayExamined : Config Unit (Fin 3) :=
  { stray false with fixDisown := false, fixDisconnectPinners := true, pinnersReexamine := true }

theorem strayExamined_wf : strayExamined.WellFormed :=
  have wf := stray_wf false
  ⟨wf.root, wf.tree, wf.null_sb, wf.null_pin, wf.null_pinner⟩

theorem strayExamined_umounted (how : How) :
    Tables.umountTree strayExamined (init strayExamined strayExamined.pin).tables () how =
      { torn false with unm := [()] } := by
  have only : (init strayExamined strayExamined.pin).tables.subtree () = {()} := by
    ext
    simp [mem_subtree_self]
  have listed : ordered strayExamined {()} = [()] := Finset.sort_singleton _ _
  have none : ordered strayExamined ∅ = [] := by simp [ordered]
  have gone : ((init strayExamined strayExamined.pin).tables.markUmount {()}).Disconnect strayExamined () how :=
    .inr (.inr (.inl fun _ parent => by cases parent))
  have marked : ((init strayExamined strayExamined.pin).tables.markUmount {()}).umount () = true := by simp
  have late : ∀ st : Tables Unit (Fin 3), st.late strayExamined {()} = ∅ := fun st => by
    ext
    simp [Tables.late]
  rw [umountTree_pinners ⟨rfl, rfl, rfl, rfl, rfl⟩]
  simp only [only, listed, Tables.umountEach, umountOne_eq marked, if_pos gone, Tables.reexamine, late, none]
  simp [torn, init, stray, strayExamined, Tables.list, Tables.leave, Tables.detach, Tables.markUmount]
  rfl

/-- Its file stays, and the mount with it, without any cycle. -/
theorem strayExamined_leaks : strayExamined.WellFormed ∧ strayExamined.fixDisconnectPinners = true ∧
    strayExamined.pinnersReexamine = true ∧ strayExamined.pinnersAncestorOnly = false ∧
    strayExamined.fixDisown = false ∧ strayExamined.fixInternalClone = false ∧
    ¬ (spec strayExamined).Invariant (LeaksAreCycles strayExamined) := by
  refine ⟨strayExamined_wf, rfl, rfl, rfl, rfl, rfl, fun cycles => ?_⟩
  have count : (torn false).count () = 2 := by decide
  have put : (torn false).put strayExamined () = (torn false).setCount () 1 := by
    unfold Tables.put
    simp [count]
  have dead : (spec strayExamined).Reachable ⟨{ torn false with unm := [()] }, fun _ => 0, 0, false⟩ := by
    rw [← strayExamined_umounted ⟨false, false⟩]
    exact .next (.init ⟨_, rfl, rfl⟩) (.putMntNs rfl rfl rfl)
  have settled : (spec strayExamined).Reachable ⟨(torn false).setCount () 1, fun _ => 0, 0, false⟩ := by
    rw [← put]
    exact dead.next (.nsUnlockPut rfl)
  obtain ⟨c, -, ⟨some', cycle⟩, -⟩ := cycles _ settled ⟨rfl, rfl, rfl, rfl, fun _ => rfl⟩ () (by simp [alive, torn, init])
  obtain ⟨y, inside⟩ := Finset.nonempty_iff_ne_empty.mpr some'
  obtain ⟨x, -, pins, -⟩ := cycle y inside
  simp [torn, init, stray] at pins

end LinuxTla.MntOwn
