import LinuxTla.Lib.PeerLeave

/-! Who receives from whom in a peer graph: a node, its peers, their slaves, the peers of
those and so on. It survives the nodes that leave. -/

namespace LinuxTla.Lib.PeerGraph

variable {g g' : PeerGraph α} {a b c : α}

/-- What happens on `a` reaches `b`: the two are peers, or the master of `b` receives from `a`. -/
inductive Receives (g : PeerGraph α) (a : α) : α → Prop
  | self : Receives g a a
  | peer {b : α} (shared : g.gid b ≠ 0) (same : g.gid a = g.gid b) : Receives g a b
  | slave {b c : α} (master : g.master b = some c) (above : Receives g a c) : Receives g a b

theorem Receives.peers (receives : g.Receives a b) (wf : g.Sound) (shared : g.gid b ≠ 0) (same : g.gid c = g.gid b) :
    g.Receives a c := by
  cases receives with
  | self => exact .peer (same ▸ shared) same.symm
  | peer _ same' => exact .peer (same ▸ shared) (same'.trans same.symm)
  | slave master above => exact .slave ((wf.one_master b c shared same.symm) ▸ master) above

theorem Receives.trans (first : g.Receives a b) (second : g.Receives b c) (wf : g.Sound) : g.Receives a c := by
  induction second with
  | self => exact first
  | peer shared same => exact first.peers wf (same ▸ shared) same.symm
  | slave master _ ih => exact .slave master ih

theorem Receives.master (receives : g.Receives a b) (other : g.gid b ≠ g.gid a) : ∃ c, g.master b = some c ∧ g.Receives a c := by
  cases receives with
  | self => exact absurd rfl other
  | peer _ same => exact absurd same.symm other
  | slave master above => exact ⟨_, master, above⟩

theorem Receives.level {level : α → ℕ} (receives : g.Receives a b) (levels : g.Levels level) : level a ≤ level b := by
  induction receives with
  | self => exact Nat.le_refl _
  | peer shared same => exact (levels.beside _ _ (same ▸ shared) same).le
  | slave master _ ih => exact ih.trans (levels.above _ _ master).le

theorem Goes.receives {out : List α} {d : α} (goes : g.Goes out b (some d)) : g.Receives d b := by
  generalize same : some d = e at goes
  induction goes with
  | peer shared group =>
    cases same
    exact .peer shared group
  | orphan => cases same
  | master _ here =>
    cases same
    exact .slave here .self
  | above _ here _ _ ih => exact .slave here (ih same)

namespace Withdrawn

variable [DecidableEq α] {out : List α} {dest : α → Option α} {owners : α → List α}

/-- A node that stays still reaches whoever it reached: those that stay, and the place
where the slaves of the others go. -/
theorem receives_after (gone : g.Withdrawn out dest owners g') (goes : ∀ x ∈ out, g.Goes out x (dest x)) (wf : g.Sound)
    (stays : a ∉ out) (receives : g.Receives a b) :
    (b ∉ out → g'.Receives a b) ∧ (b ∈ out → ∀ d, g.Goes out b d → ∃ y, d = some y ∧ g'.Receives a y) := by
  have beside {x : α} (far : x ∉ out) (shared : g.gid x ≠ 0) (same : g.gid a = g.gid x) : g'.Receives a x := by
    refine .peer ?_ ?_
    · rwa [gone.gid x far]
    · rwa [gone.gid a stays, gone.gid x far]
  induction receives with
  | self => exact ⟨fun _ => .self, fun left => absurd left stays⟩
  | @peer b shared same =>
    refine ⟨fun far => beside far shared same, fun _ d goes => ?_⟩
    cases goes with
    | @peer _ p _ group far => exact ⟨p, rfl, beside far (group ▸ shared) (same.trans group.symm)⟩
    | orphan alone | master alone | above alone => exact absurd (alone a shared same) stays
  | @slave b c master above ih =>
    have here {x : α} (far : x ∉ out) (master : g.master x = some c) : g'.Receives a x := by
      have lifted := gone.master x far
      rw [master, Option.bind_some] at lifted
      split at lifted
      next left =>
        obtain ⟨y, to_y, above'⟩ := ih.2 left (dest c) (goes c left)
        exact .slave (lifted.trans to_y) above'
      next left => exact .slave lifted (ih.1 left)
    refine ⟨fun far => here far master, fun _ d goes' => ?_⟩
    cases goes' with
    | @peer _ p shared group far =>
      have same := wf.one_master b p shared group.symm
      exact ⟨p, rfl, here far (same.symm.trans master)⟩
    | orphan _ top =>
      rw [top] at master
      cases master
    | @master _ x _ to_x far =>
      obtain rfl : x = c := Option.some.inj (to_x.symm.trans master)
      exact ⟨x, rfl, ih.1 far⟩
    | @above _ x _ _ to_x left rest =>
      obtain rfl : x = c := Option.some.inj (to_x.symm.trans master)
      exact ih.2 left d rest

/-- Among the nodes that stay nothing changes. -/
theorem receives_iff (gone : g.Withdrawn out dest owners g') (goes : ∀ x ∈ out, g.Goes out x (dest x)) (wf : g.Sound)
    (a_stays : a ∉ out) (b_stays : b ∉ out) : g'.Receives a b ↔ g.Receives a b := by
  refine ⟨fun receives => ?_, fun receives => (gone.receives_after goes wf a_stays receives).1 b_stays⟩
  induction receives with
  | self => exact .self
  | peer shared same =>
    obtain ⟨shared', same'⟩ := gone.same_key (same ▸ shared) same
    exact .peer (same' ▸ shared') same'
  | slave master _ ih =>
    obtain ⟨-, z, master', ⟨kept, rfl⟩ | ⟨left, to_c⟩⟩ := gone.master_cases master
    · exact .slave master' (ih kept)
    · have goes' := goes z left
      rw [to_c] at goes'
      have far := (gone.goes z left _ to_c).1
      exact .slave master' ((ih far).trans goes'.receives wf)

end Withdrawn

end LinuxTla.Lib.PeerGraph
