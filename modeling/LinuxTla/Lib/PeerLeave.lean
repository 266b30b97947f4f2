import LinuxTla.Lib.Lists
import LinuxTla.Lib.PeerGraph

/-! How a peer graph shrinks: some nodes leave their rings and lists for good, and the
slaves of each of them go to a node further up that stays. -/

namespace LinuxTla.Lib

open List

variable {α : Type u}

/-- `b` is the first node after `a` on its ring that stays. -/
inductive Skips (next : α → α) (out : α → Prop) : α → α → Prop
  | stays {a} (here : ¬ out (next a)) : Skips next out a (next a)
  | skip {a b} (gone : out (next a)) (rest : Skips next out (next a) b) : Skips next out a b

namespace Skips

variable {next : α → α} {out out' : α → Prop} {a b c : α}

theorem unique (first : Skips next out a b) (second : Skips next out a c) : b = c := by
  induction first with
  | stays here =>
    cases second with
    | stays => rfl
    | skip gone => exact absurd gone here
  | skip gone _ ih =>
    cases second with
    | stays here => exact absurd gone here
    | skip _ rest => exact ih rest

theorem kept (skips : Skips next out a b) : ¬ out b := by
  induction skips with
  | stays here => exact here
  | skip _ _ ih => exact ih

/-- One node more leaves, and it was not the one reached. -/
theorem more (skips : Skips next out a b) (grows : ∀ x, out x → out' x) (stays : ¬ out' b) : Skips next out' a b := by
  induction skips with
  | stays here => exact .stays stays
  | skip gone _ ih => exact .skip (grows _ gone) (ih stays)

/-- On from the node reached, which leaves as well. -/
theorem through (first : Skips next out a b) (grows : ∀ x, out x → out' x) (gone : out' b) (second : Skips next out' b c) :
    Skips next out' a c := by
  induction first with
  | stays here => exact .skip gone second
  | skip gone' _ ih => exact .skip (grows _ gone') (ih gone second)

end Skips

/-- The rings of `next` without the nodes that are out, which ring with themselves. -/
structure Bypass (next : α → α) (out : α → Prop) (next' : α → α) : Prop where
  stays : ∀ a, ¬ out a → Skips next out a (next' a)
  leaves : ∀ a, out a → next' a = a

theorem Bypass.nobody (next : α → α) : Bypass next (fun _ => False) next :=
  ⟨fun _ _ => .stays not_false, nofun⟩

theorem Bypass.remove [DecidableEq α] {next next' : α → α} {out : α → Prop} (bypass : Bypass next out next')
    (inj : Function.Injective next') {prev m : α} (before : next' prev = m) (inside : ¬ out m) :
    Bypass next (fun x => out x ∨ x = m) (Function.update (Function.update next' prev (next' m)) m m) := by
  constructor
  · intro a stays
    obtain ⟨a_out, a_m⟩ := not_or.mp stays
    rw [Function.update_of_ne a_m]
    by_cases here : a = prev
    · subst here
      rw [Function.update_self]
      have far : next' m ≠ m := fun same => a_m (inj (before.trans same.symm))
      have on : Skips next (fun x => out x ∨ x = m) m (next' m) :=
        (bypass.stays m inside).more (fun x gone => .inl gone) (not_or.mpr ⟨(bypass.stays m inside).kept, far⟩)
      exact (before ▸ bypass.stays a a_out).through (fun x gone => .inl gone) (.inr rfl) on
    · rw [Function.update_of_ne here]
      have far : next' a ≠ m := fun same => here (inj (same.trans before.symm))
      exact (bypass.stays a a_out).more (fun x gone => .inl gone) (not_or.mpr ⟨(bypass.stays a a_out).kept, far⟩)
  · intro a gone
    by_cases a_m : a = m
    · rw [a_m, Function.update_self]
    · have a_out := gone.resolve_right a_m
      have self := bypass.leaves a a_out
      have a_prev : a ≠ prev := fun here => a_m (by rw [← before, ← here, self])
      rw [Function.update_of_ne a_m, Function.update_of_ne a_prev, self]

namespace PeerGraph

variable {g g' : PeerGraph α}

/-- Along a slave list, the ring skips what has left between two peers. -/
theorem WF.skips (wf : g.WF) {out : α → Prop} {y a b : α} {mid : List α} (inside : a :: (mid ++ [b]) <:+: g.slaves y)
    (dropped : ∀ v ∈ mid, out v) (stays : ¬ out b) (nonzero : g.gid a ≠ 0) (same : g.gid a = g.gid b) :
    Skips g.next out a b := by
  induction mid generalizing a with
  | nil =>
    have step : g.next a = b := wf.aligned y a b inside nonzero same
    exact step ▸ .stays (step ▸ stays)
  | cons v mid ih =>
    have between : [a, v, b].Sublist (g.slaves y) := by
      refine List.Sublist.trans ?_ inside.sublist
      simp
    have group := wf.segment y a v b between nonzero same
    have pair : [a, v] <:+: g.slaves y := (prefix_append [a, v] (mid ++ [b])).isInfix.trans inside
    have step := wf.aligned y a v pair nonzero group.symm
    have rest : v :: (mid ++ [b]) <:+: g.slaves y := (suffix_cons a _).isInfix.trans inside
    exact .skip (step ▸ dropped v mem_cons_self)
      (step ▸ ih rest (fun w mem => dropped w (mem_cons_of_mem v mem)) (group ▸ nonzero) (group.trans same))

variable [DecidableEq α] {out : List α} {dest : α → Option α} {owners : α → List α}

def Above (g : PeerGraph α) (x y : α) : Prop := ∀ level, g.Levels level → level y ≤ level x

/-- `g'` is `g` without the nodes `out`; the slaves of each go to `dest`, list by list. -/
structure Withdrawn (g : PeerGraph α) (out : List α) (dest : α → Option α) (owners : α → List α) (g' : PeerGraph α) :
    Prop where
  rings : Rings g'.next g'.gid
  bypass : Bypass g.next (· ∈ out) g'.next
  gid : ∀ x, x ∉ out → g'.gid x = g.gid x
  isolated : ∀ x ∈ out, g'.Isolated x
  goes : ∀ y ∈ out, ∀ d, dest y = some d → d ∉ out ∧ g.gid d ≠ 0 ∧ g.Above y d
  master : ∀ x, x ∉ out → g'.master x = (g.master x).bind fun y => if y ∈ out then dest y else some y
  slaves : ∀ y, y ∉ out → g'.slaves y = (owners y).flatMap fun z => (g.slaves z).filter (· ∉ out)
  owners : ∀ y, y ∉ out → (owners y).Nodup ∧ ∀ z, z ∈ owners y ↔ z = y ∨ z ∈ out ∧ dest z = some y

namespace Withdrawn

variable (gone : g.Withdrawn out dest owners g')

include gone

theorem stays_of_gid {x : α} (nonzero : g'.gid x ≠ 0) : x ∉ out := fun mem => nonzero (gone.isolated x mem).gid

theorem master_cases {x y : α} (master : g'.master x = some y) :
    x ∉ out ∧ ∃ z, g.master x = some z ∧ (z ∉ out ∧ z = y ∨ z ∈ out ∧ dest z = some y) := by
  have stays : x ∉ out := fun mem => by
    rw [(gone.isolated x mem).master] at master
    cases master
  rw [gone.master x stays] at master
  obtain ⟨z, master', lifted⟩ := Option.bind_eq_some_iff.mp master
  split at lifted
  · exact ⟨stays, z, master', .inr ⟨‹_›, lifted⟩⟩
  · exact ⟨stays, z, master', .inl ⟨‹_›, Option.some.inj lifted⟩⟩

theorem mem_block {y x : α} (stays : y ∉ out) :
    x ∈ g'.slaves y ↔ x ∉ out ∧ ∃ z, x ∈ g.slaves z ∧ (z = y ∨ z ∈ out ∧ dest z = some y) := by
  rw [gone.slaves y stays, mem_flatMap]
  simp only [(gone.owners y stays).2, mem_filter, decide_eq_true_eq]
  exact ⟨fun ⟨z, owner, mem, kept⟩ => ⟨kept, z, mem, owner⟩, fun ⟨kept, z, mem, owner⟩ => ⟨z, owner, mem, kept⟩⟩

theorem same_key {a b : α} (nonzero : g'.gid a ≠ 0) (same : g'.gid a = g'.gid b) : g.gid a ≠ 0 ∧ g.gid a = g.gid b := by
  have b_nonzero : g'.gid b ≠ 0 := same ▸ nonzero
  have b_stays := gone.stays_of_gid b_nonzero
  have a_stays := gone.stays_of_gid nonzero
  rw [gone.gid a a_stays] at nonzero same
  rw [gone.gid b b_stays] at same
  exact ⟨nonzero, same⟩

omit gone in
/-- What is on the list of `z` has `z` as its master. -/
theorem block_key (wf : g.Sound) : ∀ z, ∀ x ∈ (g.slaves z).filter (· ∉ out), (g.master x).getD x = z := fun z x mem => by
  rw [(wf.mem_slaves x z).mp (mem_filter.mp mem).1]
  rfl

omit gone in
/-- Two peers come from the same list. -/
theorem same_owner (wf : g.Sound) {a b y : α} (mem : a ∈ (owners y).flatMap fun z => (g.slaves z).filter (· ∉ out))
    (nonzero : g.gid a ≠ 0) (same : g.gid a = g.gid b) : (g.master a).getD a = (g.master b).getD b := by
  obtain ⟨z, -, mem⟩ := mem_flatMap.mp mem
  rw [← wf.one_master a b nonzero same, (wf.mem_slaves a z).mp (mem_filter.mp mem).1]
  rfl

theorem sound (wf : g.Sound) : g'.Sound := by
  constructor
  case rings => exact gone.rings
  case mem_slaves =>
    intro x y
    by_cases stays : y ∈ out
    · rw [(gone.isolated y stays).slaves]
      refine ⟨nofun, fun master => ?_⟩
      obtain ⟨-, z, -, ⟨kept, rfl⟩ | ⟨left, dest⟩⟩ := gone.master_cases master
      · exact absurd stays kept
      · exact absurd stays (gone.goes z left y dest).1
    · rw [gone.mem_block stays]
      constructor
      · rintro ⟨x_stays, z, mem, rfl | ⟨left, dest⟩⟩
        · rw [gone.master x x_stays, (wf.mem_slaves x z).mp mem, Option.bind_some, if_neg stays]
        · rw [gone.master x x_stays, (wf.mem_slaves x z).mp mem, Option.bind_some, if_pos left, dest]
      · intro master
        obtain ⟨x_stays, z, master', ⟨-, same⟩ | lifted⟩ := gone.master_cases master
        · exact ⟨x_stays, z, (wf.mem_slaves x z).mpr master', .inl same⟩
        · exact ⟨x_stays, z, (wf.mem_slaves x z).mpr master', .inr lifted⟩
  case nodup =>
    intro y
    by_cases stays : y ∈ out
    · rw [(gone.isolated y stays).slaves]
      exact nodup_nil
    · rw [gone.slaves y stays, nodup_flatMap]
      refine ⟨fun z _ => (wf.nodup z).filter _, ((gone.owners y stays).1).imp fun {z w} other x in_z in_w => other ?_⟩
      rw [← block_key wf z x in_z, ← block_key wf w x in_w]
  case owner =>
    intro x y master
    obtain ⟨-, z, master', ⟨kept, rfl⟩ | ⟨left, dest⟩⟩ := gone.master_cases master
    · rw [gone.gid z kept]
      exact wf.owner x z master'
    · obtain ⟨kept, nonzero, -⟩ := gone.goes z left y dest
      rwa [gone.gid y kept]
  case one_master =>
    intro a b nonzero same
    have b_nonzero : g'.gid b ≠ 0 := same ▸ nonzero
    obtain ⟨nonzero', same'⟩ := gone.same_key nonzero same
    rw [gone.master a (gone.stays_of_gid nonzero), gone.master b (gone.stays_of_gid b_nonzero),
      wf.one_master a b nonzero' same']
  case segment =>
    intro y a b c sub nonzero same
    have stays : y ∉ out := fun mem => by
      rw [(gone.isolated y mem).slaves] at sub
      cases sub
    have b_stays := ((gone.mem_block stays).mp (sub.subset (by simp : b ∈ [a, b, c]))).1
    obtain ⟨nonzero', same'⟩ := gone.same_key nonzero same
    rw [gone.slaves y stays] at sub
    have inside := (sublist_flatMap (block_key wf) (gone.owners y stays).1 sub
      (same_owner wf (sub.subset mem_cons_self) nonzero' same')).trans filter_sublist
    rw [gone.gid b b_stays, gone.gid a (gone.stays_of_gid nonzero)]
    exact wf.segment _ a b c inside nonzero' same'
  case levels =>
    obtain ⟨level, levels⟩ := wf.levels
    refine ⟨level, fun x y master => ?_, fun a b nonzero same => ?_⟩
    · obtain ⟨-, z, master', ⟨-, rfl⟩ | ⟨left, dest⟩⟩ := gone.master_cases master
      · exact levels.above x z master'
      · exact Nat.lt_of_le_of_lt ((gone.goes z left y dest).2.2 level levels) (levels.above x z master')
    · obtain ⟨nonzero', same'⟩ := gone.same_key nonzero same
      exact levels.beside a b nonzero' same'

theorem wf (wf : g.WF) : g'.WF := by
  refine ⟨gone.sound wf.toSound, fun y a b pair nonzero same => ?_⟩
  have stays : y ∉ out := fun mem => by
    rw [(gone.isolated y mem).slaves] at pair
    simp at pair
  obtain ⟨nonzero', same'⟩ := gone.same_key nonzero same
  rw [gone.slaves y stays] at pair
  have block := infix_flatMap (block_key wf.toSound) (gone.owners y stays).1 pair 
    (same_owner wf.toSound (pair.subset mem_cons_self) nonzero' same')
  obtain ⟨mid, inside, dropped⟩ := infix_filter block
  have b_stays : b ∉ out := gone.stays_of_gid (same ▸ nonzero)
  exact (gone.bypass.stays a (gone.stays_of_gid nonzero)).unique
    (wf.skips inside (fun v mem => by simpa using dropped v mem) b_stays nonzero' same')

end Withdrawn

/-! ### Where slaves go -/

/-- The slaves of `v` go to a peer of `v` that stays, else to where the slaves of the
master go, or to the master itself when it stays. -/
inductive Goes (g : PeerGraph α) (out : List α) : α → Option α → Prop
  | peer {v p} (shared : g.gid v ≠ 0) (same : g.gid p = g.gid v) (stays : p ∉ out) : Goes g out v (some p)
  | orphan {v} (alone : ∀ p, g.gid v ≠ 0 → g.gid p = g.gid v → p ∈ out) (top : g.master v = none) : Goes g out v none
  | master {v x} (alone : ∀ p, g.gid v ≠ 0 → g.gid p = g.gid v → p ∈ out) (here : g.master v = some x) (stays : x ∉ out) :
      Goes g out v (some x)
  | above {v x d} (alone : ∀ p, g.gid v ≠ 0 → g.gid p = g.gid v → p ∈ out) (here : g.master v = some x) (gone : x ∈ out)
      (rest : Goes g out x d) : Goes g out v d

omit [DecidableEq α] in
theorem Goes.stays {v : α} {d : Option α} (goes : g.Goes out v d) (wf : g.Sound) :
    ∀ x, d = some x → x ∉ out ∧ g.gid x ≠ 0 ∧ g.Above v x := by
  induction goes with
  | peer shared same stays =>
    rintro x ⟨⟩
    exact ⟨stays, same ▸ shared, fun level levels => (levels.beside _ _ (same ▸ shared) same).le⟩
  | orphan => exact nofun
  | master _ here stays =>
    rintro x ⟨⟩
    exact ⟨stays, wf.owner _ _ here, fun level levels => (levels.above _ _ here).le⟩
  | above _ here _ _ ih =>
    intro x same
    obtain ⟨stays, nonzero, above⟩ := ih x same
    exact ⟨stays, nonzero, fun level levels => (above level levels).trans (levels.above _ _ here).le⟩

omit [DecidableEq α] in
/-- Peers send their slaves to the same places. -/
theorem Goes.peers {v w : α} {d : Option α} (goes : g.Goes out v d) (wf : g.Sound) (shared : g.gid v ≠ 0)
    (same : g.gid w = g.gid v) : g.Goes out w d := by
  have master := wf.one_master v w shared same.symm
  cases goes with
  | peer _ same' stays => exact .peer (same ▸ shared) (same'.trans same.symm) stays
  | orphan alone top =>
    exact .orphan (fun p nonzero same' => alone p shared (same'.trans same)) (master ▸ top)
  | master alone here stays =>
    exact .master (fun p nonzero same' => alone p shared (same'.trans same)) (master ▸ here) stays
  | above alone here gone rest =>
    exact .above (fun p nonzero same' => alone p shared (same'.trans same)) (master ▸ here) gone rest

/-! ### One node leaves -/

/-- `m`, which comes after `prev`, leaves, and its slaves go to the head of the list of `d`. -/
@[simps] def withdraw (g : PeerGraph α) (prev m : α) (d : Option α) : PeerGraph α where
  gid := Function.update g.gid m 0
  next := Function.update (Function.update g.next prev (g.next m)) m m
  master x := if x = m then none else if g.master x = some m then d else g.master x
  slaves x := if x = m then [] else
    if d = some x then g.slaves m ++ (g.slaves x).filter (· ≠ m) else (g.slaves x).filter (· ≠ m)

theorem WF.withdraw (wf : g.WF) {prev m : α} {d : Option α} (before : g.next prev = m)
    (goes : ∀ x, d = some x → x ≠ m ∧ g.gid x ≠ 0 ∧ g.Above m x) :
    g.Withdrawn [m] (fun _ => d) (fun x => if d = some x then [m, x] else [x]) (g.withdraw prev m d) := by
  have not_self : (g.slaves m).filter (· ≠ m) = g.slaves m := filter_eq_self.mpr fun x mem =>
    decide_eq_true fun here => wf.not_self_master ((wf.mem_slaves m m).mp (here ▸ mem))
  have only : (fun x => decide (x ∉ [m])) = fun x => decide (x ≠ m) := by
    funext x
    simp
  constructor
  case rings => exact wf.rings.remove before
  case bypass =>
    have removed := (Bypass.nobody g.next).remove wf.rings.inj before not_false
    exact ⟨fun a stays => (removed.stays a (by simpa using stays)).more (by simp)
      (by simpa using (removed.stays a (by simpa using stays)).kept), fun a gone => removed.leaves a (by simpa using gone)⟩
  case gid =>
    intro x stays
    exact Function.update_of_ne (by simpa using stays) ..
  case isolated =>
    intro x gone
    obtain rfl := mem_singleton.mp gone
    exact ⟨Function.update_self .., if_pos rfl, if_pos rfl⟩
  case goes =>
    intro y gone x dest
    obtain rfl := mem_singleton.mp gone
    obtain ⟨far, nonzero, above⟩ := goes x dest
    exact ⟨by simpa using far, nonzero, above⟩
  case master =>
    intro x stays
    rw [withdraw_master, if_neg (by simpa using stays)]
    cases g.master x with
    | none => simp
    | some y => simp [eq_comm]
  case slaves =>
    intro y stays
    rw [withdraw_slaves, if_neg (by simpa using stays), only]
    split
    · simp only [flatMap_cons, flatMap_nil, append_nil, not_self]
    · simp only [flatMap_cons, flatMap_nil, append_nil]
  case owners =>
    intro y stays
    have far : y ≠ m := by simpa using stays
    split
    · rename_i dest
      exact ⟨by simp [Ne.symm far], fun z => by simp [dest, or_comm]⟩
    · rename_i dest
      exact ⟨by simp, fun z => by simp [dest]⟩

end PeerGraph

end LinuxTla.Lib
