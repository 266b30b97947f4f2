import Mathlib.Data.Fin.VecNotation
import LinuxTla.Lib.Transition
import LinuxTla.Mount.Private
import LinuxTla.Mount.Slots

/-! bulk_make_private() and the survivors: propagation among the mounts that stay does
not change, and the slaves of the others find the nearest master that stays. -/

namespace LinuxTla.Mount

open Lib

variable {M N D S : Type} [DecidableEq M]

namespace Table

variable {L : Layout M D S} {t t' : Table M N D S} {T : List M}

/-- The mounts to make private: every mount that will be unmounted, but for those that
are private already and have no slaves. -/
structure Victims (L : Layout M D S) (t : Table M N D S) (T : List M) : Prop where
  nodup : T.Nodup
  inside : ∀ m ∈ T, m ∈ t.live L ∧ t.umount m = true
  others : ∀ m ∈ t.live L, t.umount m = true → m ∉ T → t.shared m = false ∧ t.master m = none ∧ t.slaves m = []

/-- `t'` is `t` with the victims `T` out of the propagation graph. -/
structure Spared (L : Layout M D S) (t : Table M N D S) (T : List M) (t' : Table M N D S) : Prop where
  alive : t'.alive = t.alive
  shared : t'.SharedOK L
  ring : t'.RingOK L
  slaves : t'.SlavesOK L
  alone : ∀ m ∈ T, t'.shared m = false ∧ t'.gid m = 0 ∧ t'.npeer m = m ∧ t'.master m = none ∧ t'.slaves m = []
  receivers : ∀ a ∈ t.live L, ∀ b ∈ t.live L, a ∉ T → b ∉ T → (b ∈ t'.recvSet L a ↔ b ∈ t.recvSet L a)
  orphans : ∀ x ∈ t.live L, x ∉ T → ∀ m ∈ T, t.master x = some m →
    (∃ d ∈ t.live L, d ∉ T ∧ t'.master x = some d ∧ (d ∈ t.peerGroup L m ∨ m ∈ t.recvSet L d)) ∨
      t'.master x = none ∧ ∀ d ∈ t.live L, d ∉ T → d ∉ t.peerGroup L m ∧ m ∉ t.recvSet L d
  kept : ∀ x ∈ t.live L, x ∉ T → (∀ m ∈ T, t.master x ≠ some m) → t'.master x = t.master x

omit [DecidableEq M] in
theorem Victims.doomed (victims : Victims L t T) (wf : L.WF) (quiet : t.Quiet) (sound : t.graph.Sound)
    (shared : t.SharedOK L) (unmarked : ∀ m ∈ T, t.marked m = false) : Doomed t T where
  sound := sound
  nodup := victims.nodup
  typed m mem := shared m (victims.inside m mem).1
  umount m mem := (victims.inside m mem).2
  private_ m umount out := by
    by_cases alive : t.alive m = true
    · have live := (mem_live wf).mpr alive
      obtain ⟨lone, master, slaves⟩ := victims.others m live umount out
      refine ⟨?_, master, slaves⟩
      by_contra group
      have := (shared m live).mpr group
      rw [lone] at this
      cases this
    · exact (quiet m (by simpa using alive)).1
  unmarked := unmarked

section

variable (wf : L.WF) (doomed : Doomed t T) (done : Privatised t T t') (unused : t.Idle)

include doomed done

theorem Privatised.sound : t'.graph.Sound := by
  obtain ⟨dest, owners, gone, goes⟩ := done.graph
  exact gone.sound doomed.sound

omit doomed in
theorem Privatised.alive : t'.alive = t.alive := congrArg Frame.alive done.frame

include unused

omit doomed in
theorem Privatised.idle : t'.Idle := by
  obtain ⟨dest, owners, gone, goes⟩ := done.graph
  intro y free
  rw [done.alive] at free
  obtain ⟨gid, master⟩ := unused y free
  by_cases mem : y ∈ T
  · exact ⟨(gone.isolated y mem).gid, (gone.isolated y mem).master⟩
  · refine ⟨(gone.gid y mem).trans gid, ?_⟩
    have lifted := gone.master y mem
    rw [graph_master, graph_master, master] at lifted
    exact lifted

include wf

omit done in
theorem Doomed.receives_iff {d m : M} (stays : d ∉ T) (mem : m ∈ T) :
    t.graph.Receives d m ↔ d ∈ t.peerGroup L m ∨ m ∈ t.recvSet L d := by
  have dead : ∀ y, t.alive y = false → t.gid y = 0 := fun y gone => (unused y gone).1
  have apart : m ≠ d := fun same => stays (same ▸ mem)
  rw [mem_recvSet wf doomed.sound unused, mem_peerGroup wf dead]
  constructor
  · exact fun receives => .inr ⟨apart, receives⟩
  · rintro ((rfl | ⟨group, same⟩) | ⟨-, receives⟩)
    · exact absurd mem stays
    · exact .peer group same
    · exact receives

theorem Privatised.spared (shared : t.SharedOK L) : Spared L t T t' := by
  have sound' := done.sound doomed
  have idle' := done.idle unused
  have alive := done.alive
  have live : t'.live L = t.live L := by rw [live, live, alive]
  obtain ⟨dest, owners, gone, goes⟩ := done.graph
  have typed : ∀ y, t'.alive y = true → (t'.shared y = true ↔ t'.gid y ≠ 0) := by
    intro y there
    rw [done.shared]
    split
    · rename_i mem
      have zero : t'.gid y = 0 := (gone.isolated y mem).gid
      simp [zero]
    · rename_i out
      have same : t'.gid y = t.gid y := gone.gid y out
      rw [same]
      exact shared y ((mem_live wf).mpr (alive ▸ there))
  obtain ⟨sharedOK, ringOK, slavesOK⟩ := parts_of_sound wf sound' idle' typed
  constructor
  case alive => exact alive
  case shared => exact sharedOK
  case ring => exact ringOK
  case slaves => exact slavesOK
  case alone =>
    intro m mem
    have isolated := gone.isolated m mem
    exact ⟨by rw [done.shared, if_pos mem], isolated.gid, sound'.next_isolated isolated, isolated.master, isolated.slaves⟩
  case receivers =>
    intro a _ b _ a_stays b_stays
    rw [mem_recvSet wf sound' idle', mem_recvSet wf doomed.sound unused]
    exact and_congr_right' (gone.receives_iff goes doomed.sound a_stays b_stays)
  case orphans =>
    intro x _ x_stays m mem master
    have lifted : t'.master x = dest m := by
      have lifted := gone.master x x_stays
      rw [graph_master, graph_master, master, Option.bind_some, if_pos mem] at lifted
      exact lifted
    have goes' := goes m mem
    cases leads : dest m with
    | some d =>
      rw [leads] at goes'
      obtain ⟨d_stays, group, -⟩ := gone.goes m mem d leads
      have there : t.alive d = true := by
        by_contra free
        exact group (unused d (by simpa using free)).1
      exact .inl ⟨d, (mem_live wf).mpr there, d_stays, lifted.trans leads,
        (doomed.receives_iff wf unused d_stays mem).mp goes'.receives⟩
    | none =>
      rw [leads] at goes'
      refine .inr ⟨lifted.trans leads, fun d _ d_stays => ?_⟩
      rw [← not_or, ← doomed.receives_iff wf unused d_stays mem]
      intro receives
      obtain ⟨y, impossible, -⟩ := (gone.receives_after goes doomed.sound d_stays receives).2 mem none goes'
      cases impossible
  case kept =>
    intro x _ x_stays other
    have lifted := gone.master x x_stays
    rw [graph_master, graph_master] at lifted
    cases master : t.master x with
    | none => rw [lifted, master, Option.bind_none]
    | some m => rw [lifted, master, Option.bind_some, if_neg fun mem => other m mem master]

end

/-! ### Free slots -/

omit [DecidableEq M] in
theorem Agree.victims (wf : L.WF) {u : Table M N D S} (agree : Agree t u) (victims : Victims L t T) : Victims L u T where
  nodup := victims.nodup
  inside m mem := by
    rw [agree.live, agree.umount]
    exact victims.inside m mem
  others m live := by
    rw [agree.live] at live
    have alive := (mem_live wf).mp live
    rw [agree.umount, agree.shared, agree.master m alive, agree.slaves m alive]
    exact victims.others m live

theorem Agree.spared (wf : L.WF) {u u' : Table M N D S} (agree : Agree t u) (agree' : Agree t' u') (inside : ∀ m ∈ T, m ∈ t.live L)
    (spared : Spared L u T u') : Spared L t T t' := by
  have closed' := closed_of_parts wf spared.ring spared.slaves
  have alive : t'.alive = t.alive := agree'.alive.symm.trans (spared.alive.trans agree.alive)
  have at_live {m : M} (live : m ∈ t.live L) : t.alive m = true ∧ t'.alive m = true := by
    rw [alive]
    exact ⟨(mem_live wf).mp live, (mem_live wf).mp live⟩
  constructor
  case alive => exact alive
  case shared => exact agree'.symm.sharedOK wf spared.shared
  case ring => exact agree'.symm.ringOK wf closed' spared.ring
  case slaves => exact agree'.symm.slavesOK wf closed' spared.slaves
  case alone =>
    intro m mem
    have there := (at_live (inside m mem)).2
    rw [← agree'.shared, ← agree'.gid m there, ← agree'.npeer m there, ← agree'.master m there, ← agree'.slaves m there]
    exact spared.alone m mem
  case receivers =>
    intro a a_live b b_live a_stays b_stays
    rw [← agree.recvSet wf (at_live a_live).1, ← agree'.recvSet wf (at_live a_live).2]
    exact spared.receivers a (agree.live ▸ a_live) b (agree.live ▸ b_live) a_stays b_stays
  case orphans =>
    intro x live stays m mem master
    have ways := spared.orphans x (agree.live ▸ live) stays m mem ((agree.master x (at_live live).1).trans master)
    rw [agree.live, agree'.master x (at_live live).2, agree.peerGroup wf (at_live (inside m mem)).1] at ways
    have receives {d : M} (d_live : d ∈ t.live L) : m ∈ u.recvSet L d ↔ m ∈ t.recvSet L d := by
      rw [agree.recvSet wf (at_live d_live).1]
    rcases ways with ⟨d, d_live, d_stays, leads, above⟩ | ⟨none, nobody⟩
    · exact .inl ⟨d, d_live, d_stays, leads, above.imp_right (receives d_live).mp⟩
    · refine .inr ⟨none, fun d d_live d_stays => ?_⟩
      exact (nobody d d_live d_stays).imp_right fun apart above => apart ((receives d_live).mpr above)
  case kept =>
    intro x live stays other
    rw [← agree.master x (at_live live).1] at other ⊢
    rw [← agree'.master x (at_live live).2]
    exact spared.kept x (agree.live ▸ live) stays other

/-- bulk_make_private() returns, keeps propagation among the survivors, and leaves no new mark. -/
theorem bulk_make_private_spares (wf : L.WF) (shared : t.SharedOK L) (ring : t.RingOK L) (slaves : t.SlavesOK L)
    (acyclic : t.MastersAcyclic L) (unmarked : ∀ m ∈ T, t.marked m = false) (victims : Victims L t T) :
    ∃ t', t.bulkMakePrivate L T = some t' ∧ Spared L t T t' ∧ t'.marked = t.marked := by
  have closed := closed_of_parts wf ring slaves
  have agree := agree_blank t
  have quiet := blank_quiet t
  have shared' := agree.sharedOK wf shared
  have sound := sound_of_parts wf quiet shared' (agree.ringOK wf closed ring) (agree.slavesOK wf closed slaves)
    (agree.mastersAcyclic wf closed acyclic)
  have doomed := (agree.victims wf victims).doomed wf quiet sound shared' unmarked
  obtain ⟨u', run⟩ := bulkMakePrivate_total wf (fun y gone => (quiet y gone).1.gid) doomed
  have done := bulkMakePrivate_spec wf doomed run
  have inside m mem := (victims.inside m mem).1
  obtain ⟨t', run', twin⟩ := (Twin.of_agree agree closed).bulkMakePrivate wf (fun m mem => (mem_live wf).mp (inside m mem)) run
  exact ⟨t', run', agree.spared wf twin.agree inside (done.spared wf doomed quiet.idle shared'),
    twin.agree.marked.symm.trans done.marked⟩

/-- Mount 0 will be unmounted; 1 is its peer and 2 its slave. -/
def parting : Table (Fin 3) Unit Unit Unit :=
  { (dead (plain 3) : Table (Fin 3) Unit Unit Unit) with
    alive := fun _ => true
    gid := ![1, 1, 0]
    shared := ![true, true, false]
    master := ![none, none, some 0]
    npeer := ![1, 0, 2]
    slaves := ![[2], [], []]
    umount := ![true, false, false] }

theorem parting_shared : parting.SharedOK (plain 3) := by
  unfold SharedOK
  decide

theorem parting_ring : parting.RingOK (plain 3)
  | 0, _ => ⟨by decide, _, rfl, by decide⟩
  | 1, _ => ⟨by decide, _, rfl, by decide⟩
  | 2, _ => ⟨by decide, _, rfl, by decide⟩

theorem parting_slaves : parting.SlavesOK (plain 3) := by
  have listed : ∀ m n, n ∈ parting.slaves m ↔ n ∈ parting.live (plain 3) ∧ parting.master n = some m := by decide
  have nodup : ∀ m, (parting.slaves m).Nodup := by decide
  have owner : ∀ m, parting.slaves m ≠ [] → parting.shared m = true := by decide
  have peers : ∀ m, ∀ n ∈ parting.peerGroup (plain 3) m, parting.master n = parting.master m := by decide
  have short : ∀ m, (parting.slaves m).length < 3 := by decide
  exact fun m _ => ⟨listed m, nodup m, owner m, fun _ _ => rfl, peers m,
    fun x _ _ a b c sub => absurd sub.length_le (short x).not_ge⟩

theorem parting_acyclic : parting.MastersAcyclic (plain 3) := fun _ _ =>
  Acyclic.irrefl ⟨![0, 0, 1], by unfold Falls; decide⟩

theorem bulk_make_private_spares_parting :
    ∃ t', parting.bulkMakePrivate (plain 3) [0] = some t' ∧ Spared (plain 3) parting [0] t' ∧ t'.marked = parting.marked :=
  bulk_make_private_spares (plain_wf 3) parting_shared parting_ring parting_slaves parting_acyclic (by decide)
    ⟨by decide, by decide, by decide⟩

/-- A mark on a victim makes the first pass leave it in its group. -/
theorem bulk_make_private_skips_marked :
    let t : Table (Fin 3) Unit Unit Unit := { parting with marked := ![true, false, false] }
    t.Canonical (plain 3) ∧ t.SharedOK (plain 3) ∧ t.RingOK (plain 3) ∧ t.SlavesOK (plain 3) ∧ t.MastersAcyclic (plain 3) ∧ Victims (plain 3) t [0] ∧
      ¬ ∃ t', t.bulkMakePrivate (plain 3) [0] = some t' ∧ Spared (plain 3) t [0] t' := by
  refine ⟨nofun, parting_shared, parting_ring, parting_slaves, parting_acyclic, ⟨by decide, by decide, by decide⟩, ?_⟩
  rintro ⟨t', run, spared⟩
  have stays : (t'.shared 0) = true := by
    cases run
    decide
  rw [(spared.alone 0 List.mem_cons_self).1] at stays
  cases stays

end Table

end LinuxTla.Mount
