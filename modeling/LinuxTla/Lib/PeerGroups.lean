import LinuxTla.Lib.Lists
import LinuxTla.Lib.PeerGraph

/-! How a peer graph grows: a lone node joins a group, becomes a sibling or a slave,
or starts a group of its own. -/

namespace LinuxTla.Lib.PeerGraph

open List

variable {α : Type u} [DecidableEq α] (g : PeerGraph α)

/-- `new` beside `old`: with its master, and behind it on the list. -/
@[simps] def addBeside (old new : α) (k : ℕ) (next : α → α) : PeerGraph α where
  gid := Function.update g.gid new k
  next := next
  master := Function.update g.master new (g.master old)
  slaves y := if g.master old = some y then insertAfter (g.slaves y) old new else g.slaves y

/-- `new` becomes a peer of `old`. -/
@[simps!] def addPeer (old new : α) : PeerGraph α :=
  g.addBeside old new (g.gid old) (Function.update (Function.update g.next new (g.next old)) old new)

/-- `new` gets the master of `old`, and the group `k`. -/
@[simps!] def addSibling (old new : α) (k : ℕ) : PeerGraph α := g.addBeside old new k g.next

/-- `new` becomes a slave of `old`, with the group `k`. -/
@[simps] def addSlave (old new : α) (k : ℕ) : PeerGraph α where
  gid := Function.update g.gid new k
  next := g.next
  master := Function.update g.master new (some old)
  slaves := Function.update g.slaves old (new :: g.slaves old)

/-- `x` gets the group `k` to itself. -/
@[simps] def setGid (x : α) (k : ℕ) : PeerGraph α := { g with gid := Function.update g.gid x k }

variable {g} {old new x : α} {k : ℕ}

/-- When `new` may stand beside `old`: as its peer, or without any. -/
structure Beside (g : PeerGraph α) (old new : α) (k : ℕ) (next : α → α) : Prop where
  apart : old ≠ new
  rings : Rings next (Function.update g.gid new k)
  group : ∀ x, x ≠ new → g.gid x ≠ 0 → g.gid x = k → g.gid x = g.gid old
  peer : g.gid old ≠ 0 → k = g.gid old ∧ next new = g.next old ∧ next old = new
  others : ∀ x, x ≠ old → x ≠ new → next x = g.next x

section Beside

variable {next : α → α} {y a b c : α}

theorem Beside.segment (beside : g.Beside old new k next) (wf : g.WF) (lone : g.Isolated new)
    (sub : [a, b, c] <+ (g.addBeside old new k next).slaves y) (nonzero : Function.update g.gid new k a ≠ 0)
    (same : Function.update g.gid new k a = Function.update g.gid new k c) :
    Function.update g.gid new k b = Function.update g.gid new k a := by
  have far : ∀ {x}, x ∈ g.slaves y → x ≠ new := fun mem here => wf.toSound.not_slave lone (here ▸ mem)
  have gid_new : Function.update g.gid new k new = k := Function.update_self ..
  have gid_rest : ∀ {x}, x ∈ g.slaves y → Function.update g.gid new k x = g.gid x := fun mem => Function.update_of_ne (far mem) ..
  have old_case : [a, b, c] <+ g.slaves y → Function.update g.gid new k b = Function.update g.gid new k a := fun sub => by
    rw [gid_rest (sub.subset (by simp))] at nonzero ⊢
    rw [gid_rest (sub.subset (by simp)), gid_rest (sub.subset (by simp))] at same
    rw [gid_rest (sub.subset (by simp))]
    exact wf.segment y a b c sub nonzero same
  rw [addBeside_slaves] at sub
  split at sub
  case isFalse => exact old_case sub
  case isTrue master =>
    rcases sublist_insertAfter ((wf.mem_slaves old y).mpr master) (wf.toSound.not_slave lone) sub with
      ⟨rfl, b_mem, c_mem, sub⟩ | ⟨rfl, a_mem, c_mem, between⟩ | ⟨rfl, a_mem, b_mem, between⟩ | sub
    · rw [gid_new] at nonzero same ⊢
      rw [gid_rest c_mem] at same
      have c_old := beside.group c (far c_mem) (same ▸ nonzero) same.symm
      rw [gid_rest b_mem, wf.segment y old b c sub (by rwa [← c_old, ← same]) c_old.symm, ← c_old, same]
    · rw [gid_rest a_mem] at nonzero same ⊢
      rw [gid_rest c_mem] at same
      have a_old : g.gid old = g.gid a := by
        rcases between with rfl | sub
        · rfl
        · exact wf.segment y a old c sub nonzero same
      rw [gid_new, (beside.peer (a_old ▸ nonzero)).1, a_old]
    · rw [gid_rest a_mem] at nonzero same ⊢
      rw [gid_new] at same
      have a_old := beside.group a (far a_mem) nonzero same
      rw [gid_rest b_mem]
      rcases between with rfl | sub
      · exact a_old.symm
      · exact wf.segment y a b old sub nonzero a_old
    · exact old_case sub

theorem Beside.aligned (beside : g.Beside old new k next) (wf : g.WF) (lone : g.Isolated new)
    (pair : [a, b] <:+: (g.addBeside old new k next).slaves y) (nonzero : Function.update g.gid new k a ≠ 0)
    (same : Function.update g.gid new k a = Function.update g.gid new k b) : next a = b := by
  have far : ∀ {x}, x ∈ g.slaves y → x ≠ new := fun mem here => wf.toSound.not_slave lone (here ▸ mem)
  have gid_rest : ∀ {x}, x ∈ g.slaves y → Function.update g.gid new k x = g.gid x := fun mem => Function.update_of_ne (far mem) ..
  have old_case : [a, b] <:+: g.slaves y → a ≠ old → next a = b := fun pair a_old => by
    have a_mem := pair.subset (mem_cons_self (a := a))
    rw [gid_rest a_mem] at nonzero same
    rw [gid_rest (pair.subset (by simp))] at same
    rw [beside.others a a_old (far a_mem), wf.aligned y a b pair nonzero same]
  rw [addBeside_slaves] at pair
  split at pair
  case isFalse master =>
    exact old_case pair fun here => master ((wf.mem_slaves old y).mp (here ▸ pair.subset mem_cons_self))
  case isTrue master =>
    rcases infix_insertAfter ((wf.mem_slaves old y).mpr master) (wf.nodup y) pair with
      ⟨rfl, pair'⟩ | ⟨rfl, rfl⟩ | ⟨a_old, pair'⟩
    · have b_mem := pair'.subset (by simp : b ∈ [old, b])
      rw [Function.update_self] at nonzero same
      rw [gid_rest b_mem] at same
      have b_old := beside.group b (far b_mem) (same ▸ nonzero) same.symm
      have old_nonzero : g.gid old ≠ 0 := by rwa [← b_old, ← same]
      rw [(beside.peer old_nonzero).2.1, wf.aligned y old b pair' old_nonzero b_old.symm]
    · rw [Function.update_of_ne beside.apart] at nonzero
      exact (beside.peer nonzero).2.2
    · exact old_case pair' a_old

theorem Beside.levels (beside : g.Beside old new k next) (wf : g.WF) (lone : g.Isolated new) :
    ∃ level, (g.addBeside old new k next).Levels level := by
  obtain ⟨level, levels⟩ := wf.levels
  have joins : ∀ c, c ≠ new → Function.update g.gid new k c ≠ 0 → Function.update g.gid new k c = k → level c = level old := by
    intro c far nonzero same
    rw [Function.update_of_ne far] at nonzero same
    exact levels.beside c old nonzero (beside.group c far nonzero same)
  refine ⟨Function.update level new (level old), fun x y master => ?_, fun a b nonzero same => ?_⟩
  · rw [addBeside_master] at master
    by_cases here : x = new
    · rw [here, Function.update_self] at master
      rw [here, Function.update_self, Function.update_of_ne fun same => wf.toSound.not_master lone (same ▸ master)]
      exact levels.above old y master
    · rw [Function.update_of_ne here] at master
      rw [Function.update_of_ne here, Function.update_of_ne fun same => wf.toSound.not_master lone (same ▸ master)]
      exact levels.above x y master
  · simp only [addBeside_gid] at nonzero same
    by_cases a_new : a = new <;> by_cases b_new : b = new
    · rw [a_new, b_new]
    · rw [a_new, Function.update_self] at same nonzero
      rw [a_new, Function.update_self, Function.update_of_ne b_new, joins b b_new (same ▸ nonzero) same.symm]
    · rw [b_new, Function.update_self] at same
      rw [b_new, Function.update_self, Function.update_of_ne a_new, joins a a_new nonzero same]
    · rw [Function.update_of_ne a_new] at nonzero same
      rw [Function.update_of_ne b_new] at same
      rw [Function.update_of_ne a_new, Function.update_of_ne b_new, levels.beside a b nonzero same]

theorem Beside.one_master (beside : g.Beside old new k next) (wf : g.WF)
    (nonzero : Function.update g.gid new k a ≠ 0) (same : Function.update g.gid new k a = Function.update g.gid new k b) :
    Function.update g.master new (g.master old) a = Function.update g.master new (g.master old) b := by
  by_cases a_new : a = new <;> by_cases b_new : b = new
  · rw [a_new, b_new]
  · rw [a_new, Function.update_self, Function.update_of_ne b_new] at same
    rw [a_new, Function.update_self] at nonzero
    rw [a_new, Function.update_self, Function.update_of_ne b_new,
      wf.one_master b old (same ▸ nonzero) (beside.group b b_new (same ▸ nonzero) same.symm)]
  · rw [Function.update_of_ne a_new] at nonzero same
    rw [b_new, Function.update_self] at same
    rw [b_new, Function.update_self, Function.update_of_ne a_new,
      wf.one_master a old nonzero (beside.group a a_new nonzero same)]
  · rw [Function.update_of_ne a_new] at nonzero same
    rw [Function.update_of_ne b_new] at same
    rw [Function.update_of_ne a_new, Function.update_of_ne b_new, wf.one_master a b nonzero same]

theorem WF.addBeside (wf : g.WF) (lone : g.Isolated new) (beside : g.Beside old new k next) :
    (g.addBeside old new k next).WF := by
  have listed : ∀ {y}, g.master old = some y → old ∈ g.slaves y := fun master => (wf.mem_slaves old _).mpr master
  refine { rings := ?rings, mem_slaves := ?mem_slaves, nodup := ?nodup, owner := ?owner, one_master := ?one_master,
           segment := ?segment, aligned := ?aligned, levels := ?levels }
  case rings => exact beside.rings
  case mem_slaves =>
    intro x y
    simp only [addBeside_slaves, addBeside_master]
    by_cases here : x = new
    · subst here
      rw [Function.update_self]
      split
      · simp [mem_insertAfter (listed ‹_›), ‹g.master old = some y›]
      · simp [wf.toSound.not_slave lone, ‹¬ g.master old = some y›]
    · rw [Function.update_of_ne here]
      refine Iff.trans ?_ (wf.mem_slaves x y)
      split
      · simp [mem_insertAfter (listed ‹_›), here]
      · rfl
  case nodup =>
    intro y
    rw [addBeside_slaves]
    split
    · exact nodup_insertAfter (listed ‹_›) (wf.nodup y) (wf.toSound.not_slave lone)
    · exact wf.nodup y
  case owner =>
    intro x y master
    have from_g : ∃ z, g.master z = some y := by
      by_cases here : x = new
      · exact ⟨old, by rwa [addBeside_master, here, Function.update_self] at master⟩
      · exact ⟨x, by rwa [addBeside_master, Function.update_of_ne here] at master⟩
    obtain ⟨z, master'⟩ := from_g
    rw [addBeside_gid, Function.update_of_ne fun same => wf.toSound.not_master lone (same ▸ master')]
    exact wf.owner z y master'
  case one_master => exact fun a b nonzero same => beside.one_master wf nonzero same
  case segment => exact fun y a b c sub nonzero same => beside.segment wf lone sub nonzero same
  case aligned => exact fun y a b pair nonzero same => beside.aligned wf lone pair nonzero same
  case levels => exact beside.levels wf lone

end Beside

theorem WF.addPeer (wf : g.WF) (lone : g.Isolated new) (apart : old ≠ new) (shared : g.gid old ≠ 0) :
    (g.addPeer old new).WF :=
  wf.addBeside lone {
    apart := apart
    rings := wf.rings.insert apart lone.gid shared
    group := fun _ _ _ same => same
    peer := fun _ => ⟨rfl, by rw [Function.update_of_ne apart.symm, Function.update_self], Function.update_self ..⟩
    others := fun x h1 h2 => by rw [Function.update_of_ne h1, Function.update_of_ne h2] }

theorem WF.addSibling (wf : g.WF) (lone : g.Isolated new) (apart : old ≠ new) (alone : g.gid old = 0)
    (unused : g.Unused k) : (g.addSibling old new k).WF :=
  have out : ∀ y, y ≠ new → g.gid y ≠ 0 → g.gid y ≠ k := fun y _ nonzero same => unused (same ▸ nonzero) y same
  wf.addBeside lone {
    apart := apart
    rings := wf.rings.assign (wf.toSound.next_isolated lone) out
    group := fun x far nonzero same => absurd same (out x far nonzero)
    peer := fun nonzero => absurd alone nonzero
    others := fun _ _ _ => rfl }

theorem WF.addSlave (wf : g.WF) (lone : g.Isolated new) (apart : old ≠ new) (shared : g.gid old ≠ 0)
    (unused : g.Unused k) : (g.addSlave old new k).WF := by
  have gid_new : Function.update g.gid new k new = k := Function.update_self ..
  have gid_rest : ∀ {x}, x ≠ new → Function.update g.gid new k x = g.gid x := fun h => Function.update_of_ne h ..
  have far : ∀ {x y}, x ∈ g.slaves y → x ≠ new := fun mem here => wf.toSound.not_slave lone (here ▸ mem)
  have in_group : ∀ {a b}, Function.update g.gid new k a ≠ 0 →
      Function.update g.gid new k a = Function.update g.gid new k b → a ≠ b → a ≠ new ∧ b ≠ new ∧ g.gid a ≠ 0 ∧ g.gid a = g.gid b := by
    intro a b nonzero same other
    have a_new : a ≠ new := fun here => by
      rw [here, gid_new] at nonzero same
      rw [gid_rest (here ▸ other.symm)] at same
      exact unused.other nonzero same
    have b_new : b ≠ new := fun here => by
      rw [here, gid_new] at same
      rw [gid_rest a_new] at same nonzero
      exact unused.other (same ▸ nonzero) same.symm
    rw [gid_rest a_new, gid_rest b_new] at same
    rw [gid_rest a_new] at nonzero
    exact ⟨a_new, b_new, nonzero, same⟩
  refine { rings := ?rings, mem_slaves := ?mem_slaves, nodup := ?nodup, owner := ?owner, one_master := ?one_master,
           segment := ?segment, aligned := ?aligned, levels := ?levels }
  case rings =>
    exact wf.rings.assign (wf.toSound.next_isolated lone) fun y _ nonzero same => unused (same ▸ nonzero) y same
  case mem_slaves =>
    intro x y
    simp only [addSlave_slaves, addSlave_master, Function.update_apply]
    split_ifs with y_old x_new x_new
    · simp [x_new, y_old]
    · rw [mem_cons, y_old, wf.mem_slaves]
      simp [x_new]
    · subst x_new
      simp [wf.toSound.not_slave lone, Ne.symm y_old]
    · exact wf.mem_slaves x y
  case nodup =>
    intro y
    simp only [addSlave_slaves, Function.update_apply]
    split_ifs
    · exact nodup_cons.mpr ⟨wf.toSound.not_slave lone, wf.nodup old⟩
    · exact wf.nodup y
  case owner =>
    intro x y master
    simp only [addSlave_master, Function.update_apply] at master
    rw [addSlave_gid]
    split_ifs at master
    · cases master
      rwa [gid_rest apart]
    · rw [gid_rest fun same => wf.toSound.not_master lone (same ▸ master)]
      exact wf.owner x y master
  case one_master =>
    intro a b nonzero same
    simp only [addSlave_master]
    by_cases other : a = b
    · rw [other]
    · obtain ⟨a_new, b_new, nonzero', same'⟩ := in_group nonzero same other
      rw [Function.update_of_ne a_new, Function.update_of_ne b_new, wf.one_master a b nonzero' same']
  case segment =>
    intro y a b c sub nonzero same
    have other : a ≠ c := fun here => by
      subst here
      have := sub.nodup (by
        simp only [addSlave_slaves, Function.update_apply]
        split_ifs
        · exact nodup_cons.mpr ⟨wf.toSound.not_slave lone, wf.nodup old⟩
        · exact wf.nodup y)
      simp at this
    obtain ⟨a_new, c_new, nonzero', same'⟩ := in_group nonzero same other
    have inside : [a, b, c] <+ g.slaves y := by
      simp only [addSlave_slaves, Function.update_apply] at sub
      split_ifs at sub with here
      · rcases cons_sublist_cons'.mp sub with skip | ⟨bad, -⟩
        · rwa [here]
        · exact absurd bad a_new
      · exact sub
    simp only [addSlave_gid]
    rw [gid_rest a_new, gid_rest (far (inside.subset (by simp)))]
    exact wf.segment y a b c inside nonzero' same'
  case aligned =>
    intro y a b pair nonzero same
    rw [addSlave_next]
    by_cases other : a = b
    · subst other
      rw [addSlave_slaves] at pair
      have := pair.sublist.nodup (by
        simp only [Function.update_apply]
        split_ifs
        · exact nodup_cons.mpr ⟨wf.toSound.not_slave lone, wf.nodup old⟩
        · exact wf.nodup y)
      simp at this
    · obtain ⟨a_new, b_new, nonzero', same'⟩ := in_group nonzero same other
      refine wf.aligned y a b ?_ nonzero' same'
      simp only [addSlave_slaves, Function.update_apply] at pair
      split_ifs at pair with here
      · rcases infix_pair_cons.mp pair with ⟨bad, -⟩ | inside
        · exact absurd bad a_new
        · rwa [here]
      · exact pair
  case levels =>
    obtain ⟨level, levels⟩ := wf.levels
    refine ⟨Function.update level new (level old + 1), fun x y master => ?_, fun a b nonzero same => ?_⟩
    · simp only [addSlave_master, Function.update_apply] at master
      split_ifs at master with here
      · cases master
        rw [here, Function.update_self, Function.update_of_ne apart]
        exact Nat.lt_succ_self _
      · rw [Function.update_of_ne here, Function.update_of_ne fun same => wf.toSound.not_master lone (same ▸ master)]
        exact levels.above x y master
    · by_cases other : a = b
      · rw [other]
      · obtain ⟨a_new, b_new, nonzero', same'⟩ := in_group nonzero same other
        rw [Function.update_of_ne a_new, Function.update_of_ne b_new, levels.beside a b nonzero' same']

theorem WF.setGid (wf : g.WF) (alone : g.gid x = 0) (unused : g.Unused k) : (g.setGid x k).WF := by
  have gid_x : Function.update g.gid x k x = k := Function.update_self ..
  have gid_rest : ∀ {y}, y ≠ x → Function.update g.gid x k y = g.gid y := fun h => Function.update_of_ne h ..
  have in_group : ∀ {a b}, Function.update g.gid x k a ≠ 0 → Function.update g.gid x k a = Function.update g.gid x k b →
      a ≠ b → g.gid a ≠ 0 ∧ g.gid a = g.gid b := by
    intro a b nonzero same other
    have a_x : a ≠ x := fun here => by
      rw [here, gid_x] at nonzero same
      rw [gid_rest (here ▸ other.symm)] at same
      exact unused.other nonzero same
    have b_x : b ≠ x := fun here => by
      rw [here, gid_x] at same
      rw [gid_rest a_x] at same nonzero
      exact unused.other (same ▸ nonzero) same.symm
    rw [gid_rest a_x, gid_rest b_x] at same
    rw [gid_rest a_x] at nonzero
    exact ⟨nonzero, same⟩
  refine { rings := ?rings, mem_slaves := ?mem_slaves, nodup := ?nodup, owner := ?owner, one_master := ?one_master,
           segment := ?segment, aligned := ?aligned, levels := ?levels }
  case rings => exact wf.rings.assign (wf.rings.alone x alone) fun y _ nonzero same => unused (same ▸ nonzero) y same
  case mem_slaves => exact wf.mem_slaves
  case nodup => exact wf.nodup
  case owner =>
    intro y z master
    have owner := wf.owner y z master
    have far : z ≠ x := fun here => owner (by rw [here, alone])
    rwa [setGid_gid, gid_rest far]
  case one_master =>
    intro a b nonzero same
    by_cases other : a = b
    · rw [other]
    · obtain ⟨nonzero', same'⟩ := in_group nonzero same other
      exact wf.one_master a b nonzero' same'
  case segment =>
    intro y a b c sub nonzero same
    by_cases other : a = c
    · subst other
      have := sub.nodup (wf.nodup y)
      simp at this
    · obtain ⟨nonzero', same'⟩ := in_group nonzero same other
      have between := wf.segment y a b c sub nonzero' same'
      have b_x : b ≠ x := fun here => nonzero' (by rw [← between, here, alone])
      have a_x : a ≠ x := fun here => nonzero' (by rw [here, alone])
      simp only [setGid_gid]
      rw [gid_rest b_x, gid_rest a_x, between]
  case aligned =>
    intro y a b pair nonzero same
    by_cases other : a = b
    · subst other
      have := pair.sublist.nodup (wf.nodup y)
      simp at this
    · obtain ⟨nonzero', same'⟩ := in_group nonzero same other
      exact wf.aligned y a b pair nonzero' same'
  case levels =>
    obtain ⟨level, levels⟩ := wf.levels
    refine ⟨level, levels.above, fun a b nonzero same => ?_⟩
    by_cases other : a = b
    · rw [other]
    · obtain ⟨nonzero', same'⟩ := in_group nonzero same other
      exact levels.beside a b nonzero' same'

end LinuxTla.Lib.PeerGraph
