import LinuxTla.MntVacant.Parts

/-! mntput() in `MntVacant.tla`, one part after the other. -/

namespace LinuxTla.MntVacant

open Lib

variable {M S H W : Type} [LinearOrder M] [Fintype S] [Fintype H] [Fintype W] {cfg : Config M S H} {s : State M S H W} {m x c : M}
  {w : W} {hand : M → ℕ} {busy : Option M} {loose d : Finset M}

theorem Ledger.refs_eq_zero (ledger : Ledger cfg s hand busy) (none : s.count m = 0) : refs cfg s m = 0 := by
  have least := ledger.least m
  rw [none] at least
  omega

/-- Nobody has legitimized a mount without a reference. -/
theorem Ledger.unheld (ledger : Ledger cfg s hand busy) (none : s.count m = 0) (holds : Holding (s.walker w).pc) :
    (s.walker w).tgt ≠ some m := by
  intro tgt
  have seen := wrefs_pos (Visible.of_holding holds tgt)
  have refs := ledger.refs_eq_zero none
  unfold MntVacant.refs at refs
  omega

/-! ### Freeing -/

/-- Nothing on the freed mount is out of place. -/
theorem Inv.free [Fintype M] (inv : Inv cfg s hand busy loose) (inside : m ∈ loose) :
    Inv cfg (s.free m) hand busy (loose.erase m) := by
  obtain ⟨doomed, released, called, idle, unstuck⟩ := inv.stages.left m inside
  have dead : ¬ s.Live m := fun live => by simp [live.2] at doomed
  have kids := inv.tree.childless inv.stages dead
  have stuck := inv.stages.unstuck idle
  have hashed : s.hashed m = false := by
    by_contra hashed
    simp [inv.tree.alive m (by simpa using hashed)] at doomed
  have inst : s.inst m = .none := by simp [inv.stages.inst m, place, doomed]
  have conn : s.conn m = none := by
    by_contra marked
    obtain ⟨acct, marked⟩ := Option.ne_none_iff_exists'.mp marked
    obtain live | ⟨it, member, here, -⟩ := (inv.releases.sbact m).mp (inv.releases.conn m acct marked).2
    · exact dead live
    · exact idle it member here
  exact
    { tree := { inv.tree with }
      stages := inv.stages.free inside
      releases := { inv.releases with }
      ledger := { inv.ledger with }
      walkers := inv.walkers.free (inv.stages.exists called)
      clean :=
        { inv.clean with
          warn := by simp [State.free, warnIf, inv.clean.warn, kids, stuck, hashed, inst, conn, called]
          frees := fun x => by
            have frees := inv.clean.frees x
            by_cases here : x = m
            · subst here
              simp [State.free, frees, called]
            · simp [State.free, here, frees] } }

/-! ### The decrement -/

theorem Ledger.drop (ledger : Ledger cfg s (one m) none) : Ledger cfg (s.drop m) 0 (some m) :=
  { ledger with
    least := fun x => by
      have least := ledger.least x
      have refs : refs cfg (s.drop m) x = refs cfg s x := rfl
      rw [drop_count, refs]
      simp only [Pi.zero_apply]
      omega
    exact := fun x final => by
      have exact := ledger.exact x final
      have refs : refs cfg (s.drop m) x = refs cfg s x := rfl
      rw [drop_count, refs]
      simp only [Pi.zero_apply]
      omega
    alive := fun x alive cut other => by
      have some' := ledger.alive x alive cut (by simp)
      have here : x ≠ m := fun here => other (here ▸ rfl)
      rw [drop_count, one_other here]
      simpa using some' }

theorem Inv.drop (inv : Inv cfg s (one m) none loose) : Inv cfg (s.drop m) 0 (some m) loose where
  tree := { inv.tree with covers := fun c p parent live there _ => inv.tree.covers c p parent live there (by simp) }
  stages := { inv.stages with }
  releases := { inv.releases with }
  ledger := inv.ledger.drop
  walkers := inv.walkers.drop.1
  clean := { inv.clean with }

/-- It was not the last reference, or there is nothing left to do. -/
theorem Inv.settle (inv : Inv cfg s hand (some m) loose) (tree : Tree cfg s none)
    (settled : s.doomed m = true ∨ s.vacant m = true ∧ s.hashed m = true ∨ 1 ≤ s.count m) : Inv cfg s hand none loose :=
  { inv with
    tree := tree
    ledger :=
      { inv.ledger with
        alive := fun x alive cut _ => by
          by_cases here : x = m
          · subst here
            obtain doomed | ⟨vacant, hashed⟩ | more := settled
            · simp [alive] at doomed
            · simp [cut vacant] at hashed
            · exact more
          · exact inv.ledger.alive x alive cut fun same => here (Option.some.inj same).symm } }

/-! ### The last put of a stand-in -/

theorem Ledger.die (ledger : Ledger cfg s hand (some m)) (none' : s.count m = 0) : Ledger cfg (s.die m) hand none := by
  have least := ledger.least m
  rw [none'] at least
  have parts : refs cfg s m = 0 := by omega
  unfold refs at parts
  exact
    { ledger with
      exact := fun x ends => by
        by_cases here : x = m
        · subst here
          change s.count x = (refs cfg s x + hand x : ℕ)
          omega
        · exact ledger.exact x (ends.imp_right fun ends => ends.imp_left fun doomed => (die_doomed_true.mp doomed).resolve_left here)
      final := fun x ends => by
        by_cases here : x = m
        · subst here
          change outer cfg s x = 0
          omega
        · exact ledger.final x (ends.imp_right fun doomed => (die_doomed_true.mp doomed).resolve_left here)
      unowed := fun x doomed => by
        obtain rfl | doomed := die_doomed_true.mp doomed
        · change owed s x = 0
          omega
        · exact ledger.unowed x doomed
      alive := fun x up cut _ =>
        have up := die_doomed_false.mp up
        ledger.alive x up.2 cut fun same => up.1 (Option.some.inj same).symm }

theorem Walkers.die (walkers : Walkers cfg s) (ledger : Ledger cfg s hand busy) (none' : s.count m = 0) :
    Walkers cfg (s.die m) where
  each w :=
    { walkers.each w with
      kept := fun x holds tgt => by
        obtain ⟨up, marked⟩ := (walkers.each w).kept x holds tgt
        exact ⟨die_doomed_false.mpr ⟨fun here => ledger.unheld none' holds (here ▸ tgt), up⟩, marked⟩ }
  gone := walkers.gone

/-- A stand-in off the hash without a reference is doomed, and freed by the operation unless its
release is pending. -/
theorem Inv.die (inv : Inv cfg s hand (some m) ∅) (vacant : s.vacant m = true) (alive : s.doomed m = false)
    (unhashed : s.hashed m = false) (none' : s.count m = 0) :
    Inv cfg (s.die m) hand none (if s.oldroot m then ∅ else {m}) where
  tree := inv.tree.die unhashed fun c on parent => by
    have own := (inv.tree.below c m on parent).1
    simp [vacant] at own
  stages := inv.stages.die vacant alive
  releases :=
    { inv.releases with
      sbact := fun x => by
        have own : s.Live x → x ≠ m := fun live here => by
          have own := live.1
          simp [here, vacant] at own
        rw [die_live, and_iff_right_of_imp own]
        exact inv.releases.sbact x }
  ledger := inv.ledger.die none'
  walkers := inv.walkers.die inv.ledger none'
  clean := { inv.clean with }

theorem Inv.vacantPut [Fintype M] (inv : Inv cfg s hand (some m) ∅) (vacant : s.vacant m = true) (alive : s.doomed m = false)
    (unhashed : s.hashed m = false) (none' : s.count m = 0) :
    Inv cfg (if s.oldroot m then s.die m else (s.die m).free m) hand none ∅ := by
  have died := inv.die vacant alive unhashed none'
  split at died
  · case isTrue pending =>
    rw [if_pos pending]
    exact died
  · case isFalse released =>
    rw [if_neg released]
    simpa using died.free (Finset.mem_singleton_self m)

/-! ### The children come off the hash -/

/-- The reference of a child's parent goes from the hash to the puts that are owed. -/
theorem Ledger.cut (ledger : Ledger cfg s hand busy) (tree : Tree cfg s busy) (hashed : ∀ c ∈ d, s.hashed c = true)
    {vq : Task H W → List M} (quiet : cfg.noref = true → ∀ t, vq t = [])
    (owes : ∀ x, ∑ t, (vq t).count x = owed s x + if x ∈ d ∧ cfg.noref = false ∧ s.vacant x = true then 1 else 0) :
    Ledger cfg { s.cut cfg d with vq := vq } hand busy := by
  have alive : ∀ c ∈ d, s.doomed c = false := fun c inside => tree.alive c (hashed c inside)
  have refs : ∀ x, refs cfg { s.cut cfg d with vq := vq } x = refs cfg s x := fun x => by
    have moved : ∑ t, (vq t).count x + parentRef cfg (s.cut cfg d) x = owed s x + parentRef cfg s x := by
      rw [owes, add_assoc]
      congr 1
      by_cases inside : x ∈ d <;> simp [parentRef, State.cut, inside, hashed]
    change outer cfg s x + wrefs s x + ∑ t, (vq t).count x + parentRef cfg (s.cut cfg d) x =
      outer cfg s x + wrefs s x + owed s x + parentRef cfg s x
    omega
  have final : ∀ x, (s.cut cfg d).doomed x = true → s.vacant x = true ∨ s.doomed x = true := fun x doomed =>
    ((cut_doomed_true alive).mp doomed).elim .inr fun standin => .inl standin.2.2.1
  exact
    { ledger with
      least := fun x => by rw [refs]; exact ledger.least x
      exact := fun x ends => by
        rw [refs]
        exact ledger.exact x (ends.elim .inl fun ends => ends.elim (fun doomed => (final x doomed).imp_right .inl) (.inr ∘ .inr))
      final := fun x ends => ledger.final x (ends.elim .inl (final x))
      unowed := fun x doomed => by
        change ∑ t, (vq t).count x = 0
        obtain doomed | ⟨-, mode, -, -⟩ := (cut_doomed_true alive).mp doomed
        · have outside : x ∉ d := fun inside => by simp [alive x inside] at doomed
          rw [owes, ledger.unowed x doomed, if_neg fun inside => outside inside.1]
        · simp [quiet mode]
      noref := quiet
      alive := fun x up cut other => by
        obtain ⟨up, kept⟩ := (cut_doomed_false alive).mp up
        by_cases standin : x ∈ d ∧ s.vacant x = true
        · obtain ⟨inside, vacant⟩ := standin
          have least := ledger.least x
          by_cases mode : cfg.noref = true
          · have kept := kept inside mode vacant
            simp only [State.verdict, decide_eq_false_iff_not, not_or] at kept
            change 1 ≤ s.count x
            omega
          · have held : parentRef cfg s x = 1 := if_pos ⟨by simpa using mode, vacant, hashed x inside⟩
            unfold MntVacant.refs at least
            change 1 ≤ s.count x
            omega
        · refine ledger.alive x up (fun vacant => ?_) other
          have off : (s.cut cfg d).hashed x = false := cut vacant
          exact (cut_hashed_false.mp off).resolve_left fun inside => standin ⟨inside, vacant⟩ }

theorem Walkers.cut (walkers : Walkers cfg s) (ledger : Ledger cfg s hand busy) (behind : Behind s)
    (alive : ∀ c ∈ d, s.doomed c = false) : Walkers cfg (s.cut cfg d) where
  each w :=
    { walkers.each w with
      looks := fun _ _ same => absurd same (behind w)
      found := fun _ _ same => absurd same (behind w)
      kept := fun x holds tgt => by
        obtain ⟨up, marked⟩ := (walkers.each w).kept x holds tgt
        refine ⟨(cut_doomed_false alive).mpr ⟨up, fun _ _ vacant => ?_⟩, marked⟩
        simp only [State.verdict, decide_eq_false_iff_not, not_or]
        exact ⟨by simp [marked vacant], fun none => ledger.unheld none holds tgt⟩ }
  gone := walkers.gone

theorem Inv.cut (inv : Inv cfg s hand busy ∅) (behind : Behind s) (hashed : ∀ c ∈ d, s.hashed c = true)
    (open' : ∀ c ∈ d, ∀ p, cfg.parent c = some p → s.mpgone c = true ∨ busy = some p)
    {vq : Task H W → List M} (quiet : cfg.noref = true → ∀ t, vq t = [])
    (owes : ∀ x, ∑ t, (vq t).count x = owed s x + if x ∈ d ∧ cfg.noref = false ∧ s.vacant x = true then 1 else 0) :
    Inv cfg { s.cut cfg d with vq := vq } hand busy (fallen cfg s d) := by
  have alive : ∀ c ∈ d, s.doomed c = false := fun c inside => inv.tree.alive c (hashed c inside)
  exact
    { tree := { inv.tree.cut hashed open' with }
      stages := { inv.stages.cut alive with }
      releases := { inv.releases.cut alive with }
      ledger := inv.ledger.cut inv.tree hashed quiet owes
      walkers := have kept := inv.walkers.cut inv.ledger behind alive; ⟨fun w => { kept.each w with }, kept.gone⟩
      clean := { inv.clean with } }

/-! ### The last put of a mount -/

theorem Ledger.vacate (ledger : Ledger cfg s 0 (some m)) (live : s.Live m) (none' : s.count m = 0)
    (hashed : s.hashed m = true) : Ledger cfg (s.vacate cfg m d) 0 none := by
  have refs_zero := ledger.refs_eq_zero none'
  have unowned : parentRef cfg s m = 0 := if_neg fun owned => by simp [live.1] at owned
  have others : ∀ x, x ≠ m → refs cfg (s.vacate cfg m d) x = refs cfg s x ∧ (s.vacate cfg m d).count x = s.count x :=
    fun x other => by
      have same : parentRef cfg (s.vacate cfg m d) x = parentRef cfg s x := by simp [parentRef, State.vacate, other]
      refine ⟨?_, by simp [State.vacate, other]⟩
      unfold refs
      rw [same]
      rfl
  have own : ((refs cfg (s.vacate cfg m d) m : ℕ) : ℤ) = (s.vacate cfg m d).count m := by
    have kept : parentRef cfg (s.vacate cfg m d) m = if cfg.noref then 0 else 1 := by
      cases mode : cfg.noref <;> simp [parentRef, State.vacate, hashed, mode]
    have rest : refs cfg (s.vacate cfg m d) m = refs cfg s m - parentRef cfg s m + parentRef cfg (s.vacate cfg m d) m := by
      unfold refs
      rw [Nat.add_sub_cancel]
      rfl
    rw [rest, kept, refs_zero, unowned]
    cases mode : cfg.noref <;> simp [State.vacate, mode]
  exact
    { ledger with
      least := fun x => by
        by_cases here : x = m
        · subst here
          simpa using own.le
        · rw [(others x here).1, (others x here).2]
          exact ledger.least x
      exact := fun x ends => by
        by_cases here : x = m
        · subst here
          simpa using own.symm
        · rw [(others x here).1, (others x here).2]
          exact ledger.exact x (ends.imp_left fun vacant => (vacate_vacant_true.mp vacant).resolve_left here)
      final := fun x ends => by
        by_cases here : x = m
        · subst here
          unfold refs at refs_zero
          change outer cfg s x = 0
          omega
        · exact ledger.final x (ends.imp_left fun vacant => (vacate_vacant_true.mp vacant).resolve_left here)
      alive := fun x up cut _ => by
        by_cases here : x = m
        · subst here
          have off : s.hashed x = false := cut (vacate_vacant_true.mpr (.inl rfl))
          simp [hashed] at off
        · rw [(others x here).2]
          exact ledger.alive x up (fun vacant => cut (vacate_vacant_true.mpr (.inr vacant)))
            fun same => here (Option.some.inj same).symm }

theorem Walkers.vacate (walkers : Walkers cfg s) (ledger : Ledger cfg s hand busy) (behind : Behind s)
    (none' : s.count m = 0) : Walkers cfg (s.vacate cfg m d) where
  each w :=
    { walkers.each w with
      marked := fun _ _ same => absurd same (behind w)
      kept := fun x holds tgt => by
        have other : x ≠ m := fun here => ledger.unheld none' holds (here ▸ tgt)
        obtain ⟨up, marked⟩ := (walkers.each w).kept x holds tgt
        exact ⟨up, by simpa [State.vacate, other] using marked⟩ }
  gone := walkers.gone

variable [DecidableEq H] [DecidableEq W] {task : Task H W}

/-- A mount in the hash is vacated in place. -/
theorem Inv.vacate (inv : Inv cfg s 0 (some m) loose) (behind : Behind s) (live : s.Live m) (none' : s.count m = 0)
    (hashed : s.hashed m = true) (childless : ∀ c, s.hashed c = true → cfg.parent c ≠ some m)
    (standins : ∀ c ∈ loose, cfg.noref = true ∧ s.vacant c = true) :
    Inv cfg { s.vacate cfg m loose with tw := insert ⟨m, .release, if loose = ∅ then .sb else .stuck, task⟩ s.tw } 0 none ∅ := by
  have ends : Ends cfg s m ⟨m, .release, if loose = ∅ then .sb else .stuck, task⟩ loose
      { s.vacate cfg m loose with tw := insert ⟨m, .release, if loose = ∅ then .sb else .stuck, task⟩ s.tw } :=
    { here := rfl
      step := rfl
      tw := rfl
      stuck := rfl
      others := fun x other => by simp [State.vacate, other]
      inst := by simp [State.vacate, place, live.2, hashed]
      ends := .inl ⟨rfl, by simp [State.vacate], by simp [State.vacate]⟩
      same := ⟨rfl, rfl, rfl⟩ }
  exact
    { tree := { inv.tree.vacate (d := loose) childless with }
      stages := inv.stages.close live standins ends
      releases := inv.releases.close live ends rfl rfl rfl rfl
      ledger := { inv.ledger.vacate (d := loose) live none' hashed with }
      walkers :=
        have kept := inv.walkers.vacate (d := loose) inv.ledger behind none'
        ⟨fun w => { kept.each w with }, kept.gone⟩
      clean := { inv.clean with } }

/-- A disconnected mount is doomed. -/
theorem Inv.doom (inv : Inv cfg s 0 (some m) loose) (live : s.Live m) (none' : s.count m = 0)
    (unhashed : s.hashed m = false) (childless : ∀ c, s.hashed c = true → cfg.parent c ≠ some m)
    (standins : ∀ c ∈ loose, cfg.noref = true ∧ s.vacant c = true) :
    Inv cfg { s.doom m loose with tw := insert ⟨m, .cleanup, if loose = ∅ then .sb else .stuck, task⟩ s.tw } 0 none ∅ := by
  have released : s.oldroot m = false := by
    by_contra pending
    have vacant := inv.stages.oldroot m (by simpa using pending)
    simp [live.1] at vacant
  have ends : Ends cfg s m ⟨m, .cleanup, if loose = ∅ then .sb else .stuck, task⟩ loose
      { s.doom m loose with tw := insert ⟨m, .cleanup, if loose = ∅ then .sb else .stuck, task⟩ s.tw } :=
    { here := rfl
      step := rfl
      tw := rfl
      stuck := rfl
      others := fun x other => by simp [State.doom, other]
      inst := by simp [State.doom, place]
      ends := .inr ⟨rfl, live.1, by simp [State.doom], released⟩
      same := ⟨rfl, rfl, rfl⟩ }
  exact
    { tree := { inv.tree.die unhashed childless with }
      stages := inv.stages.close live standins ends
      releases := inv.releases.close live ends rfl rfl rfl rfl
      ledger := { inv.ledger.die none' with }
      walkers := have kept := inv.walkers.die inv.ledger none'; ⟨fun w => { kept.each w with }, kept.gone⟩
      clean := { inv.clean with } }

/-! ### mntput() -/

/-- One task owes more than before. -/
theorem owed_change {vq vq' : Task H W → List M} {more : ℕ} (others : ∀ t, t ≠ task → vq' t = vq t)
    (own : (vq' task).count x = (vq task).count x + more) : ∑ t, (vq' t).count x = ∑ t, (vq t).count x + more := by
  have each : ∀ t, (vq' t).count x = (vq t).count x + if t = task then more else 0 := fun t => by
    by_cases here : t = task
    · subst here
      simp [own]
    · simp [here, others t here]
  simp [each, Finset.sum_add_distrib]

theorem owed_update (vq : Task H W → List M) (task : Task H W) (more : List M) (x : M) :
    ∑ t, (Function.update vq task (vq task ++ more) t).count x = ∑ t, (vq t).count x + more.count x :=
  owed_change (fun _ other => Function.update_of_ne other _ _) (by simp)

variable [Fintype M]

theorem Inv.lastPut (wf : cfg.WellFormed) (inv : Inv cfg s 0 (some m) ∅) (behind : Behind s) (live : s.Live m)
    (none' : s.count m = 0) : Inv cfg (s.lastPut cfg m task) 0 none ∅ := by
  have kids : ∀ c, c ∈ s.kids m ↔ s.hashed c = true ∧ cfg.parent c = some m := fun c => inv.tree.mem_kids inv.stages
  have hashed : ∀ c ∈ s.kids m, s.hashed c = true := fun c inside => ((kids c).mp inside).1
  have alive : ∀ c ∈ s.kids m, s.doomed c = false := fun c inside => inv.tree.alive c (hashed c inside)
  have own : m ∉ s.kids m := fun inside => wf.forest.irrefl (.single ((kids m).mp inside).2)
  have stuck : (if cfg.noref then ((s.kids m).filter fun c => s.vacant c = true).filter fun c => s.dead c = true else ∅) =
      fallen cfg s (s.kids m) := by
    ext c
    cases mode : cfg.noref <;> simp [fallen, mode, and_assoc]
  have standins : ∀ c ∈ fallen cfg s (s.kids m), cfg.noref = true ∧ s.vacant c = true := fun c inside => by
    obtain ⟨-, mode, vacant, -⟩ := Finset.mem_filter.mp inside
    exact ⟨mode, vacant⟩
  have connected : (s.hashed m && (s.parent m).isSome) = s.hashed m := by
    cases on : s.hashed m
    · rfl
    · simpa [inv.tree.parent m, on, Option.isSome_iff_ne_none] using inv.tree.top m on
  have cut : Inv cfg { s.cut cfg (s.kids m) with vq := Function.update s.vq task (s.vq task ++
      ordered cfg (if cfg.noref then ∅ else (s.kids m).filter fun c => s.vacant c = true)) } 0 (some m) (fallen cfg s (s.kids m)) := by
    refine inv.cut behind hashed (fun c inside p parent => .inr ?_) (fun mode t => ?_) fun x => ?_
    · rw [((kids c).mp inside).2] at parent
      exact parent
    · have quiet := inv.ledger.noref mode
      by_cases here : t = task <;> simp [here, quiet, mode, ordered]
    · rw [owed_update, count_ordered]
      cases mode : cfg.noref <;> simp [owed]
  have live' : (s.cut cfg (s.kids m)).Live m := (cut_live alive).mpr live
  have childless : ∀ c, (s.cut cfg (s.kids m)).hashed c = true → cfg.parent c ≠ some m := fun c on parent => by
    obtain ⟨outside, on⟩ := cut_hashed_true.mp on
    exact outside ((kids c).mpr ⟨on, parent⟩)
  unfold State.lastPut
  simp only [connected, stuck]
  cases on : s.hashed m
  · have off : (s.cut cfg (s.kids m)).hashed m = false := cut_hashed_false.mpr (.inr on)
    exact cut.doom live' none' off childless standins
  · have on' : (s.cut cfg (s.kids m)).hashed m = true := cut_hashed_true.mpr ⟨own, on⟩
    exact cut.vacate behind live' none' on' childless standins

/-- The put of a reference in hand. -/
theorem Inv.put (wf : cfg.WellFormed) (inv : Inv cfg s (one m) none ∅) (alive : s.doomed m = false) :
    Inv cfg (s.put cfg m task) 0 none ∅ := by
  have least := inv.ledger.least m
  rw [one_self] at least
  have dropped := inv.drop
  have behind : Behind (s.drop m) := inv.walkers.drop.2
  have tree : Tree cfg (s.drop m) none := { inv.tree with }
  have count : (s.drop m).count m = s.count m - 1 := by simp [State.drop]
  unfold State.put
  rw [if_neg (by omega)]
  split
  · case isTrue more => exact dropped.settle tree (.inr (.inr (by omega)))
  · case isFalse last =>
    have none' : (s.drop m).count m = 0 := by omega
    have inst := inv.stages.inst m
    simp only [alive, Bool.false_eq_true, if_false]
    split
    · case isTrue vacant =>
      split
      · case isTrue mode =>
        by_cases hashed : s.hashed m = true
        · have rests : (s.drop m).vacantPutNoref m = s.drop m := by simp [State.vacantPutNoref, State.drop, hashed]
          rw [rests]
          exact dropped.settle tree (.inr (.inl ⟨vacant, hashed⟩))
        · have unhashed : (s.drop m).hashed m = false := Bool.eq_false_of_not_eq_true hashed
          have inst : (s.drop m).inst m = .none := by
            change s.inst m = .none
            simp [inst, place, alive, vacant, mode, hashed]
          rw [vacantPutNoref_eq unhashed inst]
          exact dropped.vacantPut vacant alive unhashed none'
      · case isFalse mode =>
        have unhashed : (s.drop m).hashed m = false := by
          refine Bool.eq_false_of_not_eq_true fun on => ?_
          have held : parentRef cfg (s.drop m) m = 1 := if_pos ⟨by simpa using mode, vacant, on⟩
          have refs := dropped.ledger.refs_eq_zero none'
          unfold MntVacant.refs at refs
          omega
        have inst : (s.drop m).inst m = .null := by
          change s.inst m = .null
          simp [inst, place, alive, vacant, mode]
        rw [vacantPut_eq unhashed inst]
        exact dropped.vacantPut vacant alive unhashed none'
    · case isFalse own => exact dropped.lastPut wf behind ⟨Bool.eq_false_of_not_eq_true own, alive⟩ none'

end LinuxTla.MntVacant
