import Mathlib.Data.Fintype.Card
import Mathlib.Data.Set.Finite.Basic
import LinuxTla.Mount.Groups

/-! bulk_make_private(): the victims leave the propagation graph, and their slaves go
to a peer that stays or up the chain of masters. -/

namespace LinuxTla.Mount

open Lib

variable {M N D S : Type} [DecidableEq M]

namespace Table

variable {L : Layout M D S} {t u u' : Table M N D S} {s K path : List M} {m x : M} {d : Option M}

/-- What bulk_make_private() is given. -/
structure Doomed (t : Table M N D S) (s : List M) : Prop where
  sound : t.graph.Sound
  nodup : s.Nodup
  typed : ∀ m ∈ s, t.Typed m
  umount : ∀ m ∈ s, t.umount m = true
  private_ : ∀ m, t.umount m = true → m ∉ s → t.graph.Isolated m
  unmarked : ∀ m ∈ s, t.marked m = false

/-- The victims `K` are marked, out of their rings and off their lists. -/
structure Cut (t : Table M N D S) (s K : List M) (u : Table M N D S) : Prop where
  frame : u.frame = t.frame
  cand : u.cand = t.cand
  unbind : u.unbind = t.unbind
  inside : ∀ x ∈ K, x ∈ s
  marked : ∀ x, u.marked x = if x ∈ K then true else t.marked x
  shared : ∀ x, u.shared x = if x ∈ K then false else t.shared x
  gid : ∀ x, u.gid x = if x ∈ K then 0 else t.gid x
  rings : Rings u.npeer u.gid
  bypass : Bypass t.npeer (· ∈ K) u.npeer
  slaves : ∀ y, u.slaves y = (t.slaves y).filter (· ∉ K)
  master : ∀ x, x ∉ K → u.master x = t.master x

theorem Cut.start (doomed : Doomed t s) : Cut t s [] t where
  frame := rfl
  cand := rfl
  unbind := rfl
  inside := nofun
  marked x := by simp
  shared x := by simp
  gid x := by simp
  rings := doomed.sound.rings
  bypass := ⟨fun a _ => .stays (by simp), nofun⟩
  slaves y := by simp
  master _ _ := rfl

theorem Cut.marked_iff (cut : Cut t s K u) (doomed : Doomed t s) (victim : x ∈ s) : u.marked x = true ↔ x ∈ K := by
  rw [cut.marked, doomed.unmarked x victim]
  simp

structure Unhooked (u : Table M N D S) (m : M) (goal : Option M) (u' : Table M N D S) : Prop where
  frame : u'.frame = u.frame
  cand : u'.cand = u.cand
  unbind : u'.unbind = u.unbind
  marked : u'.marked = Function.update u.marked m true
  shared : u'.shared = Function.update u.shared m false
  gid : u'.gid = Function.update u.gid m 0
  slaves : u'.slaves = fun y => seqDel (u.slaves y) m
  npeer : ∃ prev, u.npeer prev = m ∧ u'.npeer = Function.update (Function.update u.npeer prev (u.npeer m)) m m
  next : u.npeer m ≠ m ∧ goal = some (u.npeer m) ∨ u.npeer m = m ∧ goal = u.master m
  master : u'.master = Function.update u.master m goal

theorem unhook_spec (wf : L.WF) (typed : u.Typed m) {next : Option M} (run : u.unhook L m = some (u', next)) :
    Unhooked u m next u' := by
  obtain ⟨⟨v, goal⟩, first, same⟩ := Option.bind_eq_some_iff.mp run
  simp only [Option.pure_def, Option.some.injEq, Prod.mk.injEq] at same
  obtain ⟨rfl, rfl⟩ := same
  split at first
  · rename_i peers
    obtain ⟨v', removed, same⟩ := Option.bind_eq_some_iff.mp first
    obtain ⟨prev, before, rfl⟩ := ringRemove_spec wf removed
    cases same
    constructor
    · simp [frame]
    · simp
    · simp
    · simp
    · simp
    · simp
    · simp
    · exact ⟨prev, before, by simp⟩
    · exact .inl ⟨peers, rfl⟩
    · simp
  · rename_i alone
    rw [not_not] at alone
    cases first
    have npeer : ∀ v : Table M N D S, v.npeer = u.npeer →
        ∃ prev, u.npeer prev = m ∧ v.npeer = Function.update (Function.update u.npeer prev (u.npeer m)) m m := fun v same =>
      ⟨m, alone, by rw [same, alone, Function.update_idem, eq_comm, Function.update_eq_self_iff, alone]⟩
    split
    · exact ⟨by simp, by simp, by simp, by simp, by simp, by simp, by simp, npeer _ (by simp), .inr ⟨alone, rfl⟩, by simp⟩
    · rename_i unshared
      have zero : u.gid m = 0 := by
        by_contra nonzero
        exact unshared (typed.mpr nonzero)
      have gid : u.gid = Function.update u.gid m 0 := zero ▸ (Function.update_eq_self m u.gid).symm
      exact ⟨by simp, by simp, by simp, by simp, by simp, by simpa using gid, by simp, npeer _ (by simp), .inr ⟨alone, rfl⟩,
        by simp⟩

theorem Cut.unhook (cut : Cut t s K u) (victim : m ∈ s) (fresh : m ∉ K) {next : Option M} (out : Unhooked u m next u') :
    Cut t s (m :: K) u' := by
  obtain ⟨prev, before, npeer⟩ := out.npeer
  constructor
  case frame => exact out.frame.trans cut.frame
  case cand => exact out.cand.trans cut.cand
  case unbind => exact out.unbind.trans cut.unbind
  case inside =>
    intro x mem
    rcases List.mem_cons.mp mem with rfl | mem
    · exact victim
    · exact cut.inside x mem
  case marked =>
    intro x
    rw [out.marked, Function.update_apply, cut.marked]
    by_cases here : x = m <;> simp [here]
  case shared =>
    intro x
    rw [out.shared, Function.update_apply, cut.shared]
    by_cases here : x = m <;> simp [here]
  case gid =>
    intro x
    rw [out.gid, Function.update_apply, cut.gid]
    by_cases here : x = m <;> simp [here]
  case rings =>
    rw [npeer, out.gid]
    exact cut.rings.remove before
  case bypass =>
    rw [npeer]
    have removed := cut.bypass.remove cut.rings.inj before fresh
    have same : (fun x => x ∈ K ∨ x = m) = fun x => x ∈ m :: K := by
      funext x
      simp [or_comm]
    rwa [same] at removed
  case slaves =>
    intro y
    simp only [out.slaves, cut.slaves, seqDel, List.filter_filter, List.mem_cons, not_or, Bool.decide_and, ne_eq]
  case master =>
    intro x out_x
    obtain ⟨far, out_x⟩ := not_or.mp (List.mem_cons.not.mp out_x)
    rw [out.master, Function.update_of_ne far, cut.master x out_x]

/-- The masters lead from `m` to `d` along `path`. -/
inductive Leads (u : Table M N D S) (d : Option M) : M → List M → Prop
  | last {m : M} (here : u.master m = d) : Leads u d m [m]
  | step {m x : M} {l : List M} (here : u.master m = some x) (more : some x ≠ d) (rest : Leads u d x l) : Leads u d m (m :: l)

omit [DecidableEq M] in
theorem Leads.unique {l l' : List M} (first : Leads u d m l) (second : Leads u d m l') : l = l' := by
  induction first generalizing l' with
  | last here =>
    cases second with
    | last => rfl
    | step here' more => exact absurd (here' ▸ here) more
  | step here more _ ih =>
    cases second with
    | last here' => exact absurd (here ▸ here') more
    | step here' _ rest =>
      rw [here] at here'
      cases here'
      rw [ih rest]

omit [DecidableEq M] in
theorem Leads.mem_leads {l : List M} (leads : Leads u d m l) (mem : x ∈ l) : ∃ l', Leads u d x l' ∧ l'.length ≤ l.length := by
  induction leads with
  | last here =>
    obtain rfl := List.mem_singleton.mp mem
    exact ⟨_, .last here, le_rfl⟩
  | step here more rest ih =>
    rcases List.mem_cons.mp mem with rfl | mem
    · exact ⟨_, .step here more rest, le_rfl⟩
    · obtain ⟨l', leads, short⟩ := ih mem
      exact ⟨l', leads, short.trans (Nat.le_succ _)⟩

omit [DecidableEq M] in
/-- A path does not come back. -/
theorem Leads.fresh {l : List M} (rest : Leads u d x l) (here : u.master m = some x) (more : some x ≠ d) : m ∉ l := fun mem => by
  obtain ⟨l', leads, short⟩ := rest.mem_leads mem
  rw [leads.unique (.step here more rest)] at short
  exact absurd short (by simp)

omit [DecidableEq M] in
theorem Leads.congr {l : List M} (leads : Leads u d m l) (same : ∀ x ∈ l, u'.master x = u.master x) : Leads u' d m l := by
  induction leads with
  | last here => exact .last ((same _ List.mem_cons_self).trans here)
  | step here more _ ih =>
    exact .step ((same _ List.mem_cons_self).trans here) more (ih fun x mem => same x (List.mem_cons_of_mem _ mem))

theorem setDestinations_spec {k : ℕ} (leads : Leads u d m path) (run : setDestinations d k u m = some u') :
    u' = { u with master := setOn u.master path d } := by
  induction k generalizing u m path with
  | zero => cases run
  | succ k ih =>
    rw [setDestinations] at run
    split at run
    · rename_i here
      rw [← Option.some.inj run, leads.unique (.last here)]
      have same : setOn u.master [m] d = u.master := by
        funext x
        by_cases at_m : x = m
        · rw [at_m, setOn_of_mem (List.mem_singleton_self m), here]
        · exact setOn_of_notMem (by simpa using at_m)
      rw [same]
    · rename_i differs
      cases leads with
      | last here => exact absurd here differs
      | @step _ x l here more rest =>
        rw [here] at run
        replace run : setDestinations d k (u.setMaster m d) x = some u' := run
        have fresh := rest.fresh here more
        have rest' : Leads (u.setMaster m d) d x l := rest.congr fun y mem => by
          have far : y ≠ m := fun same => fresh (same ▸ mem)
          rw [setMaster_master, Function.update_of_ne far]
        rw [ih rest' run]
        have same : setOn (u.setMaster m d).master l d = setOn u.master (m :: l) d := by
          funext y
          by_cases in_l : y ∈ l
          · rw [setOn_of_mem in_l, setOn_of_mem (List.mem_cons_of_mem m in_l)]
          · rw [setOn_of_notMem in_l, setMaster_master]
            by_cases at_m : y = m
            · rw [at_m, Function.update_self, setOn_of_mem List.mem_cons_self]
            · rw [Function.update_of_ne at_m, setOn_of_notMem (by simp [at_m, in_l])]
        rw [same]
        rfl

/-- The marked victims off the current path know where their slaves go. -/
def Settled (t : Table M N D S) (s K : List M) (u : Table M N D S) : Prop := ∀ x ∈ K, t.graph.Goes s x (u.master x)

/-- A trace: the path it took, all of it marked, and where it leads. -/
structure Traced (t : Table M N D S) (s K : List M) (u : Table M N D S) (m : M) (d : Option M) (u' : Table M N D S)
    (K' path : List M) : Prop where
  cut : Cut t s K' u'
  leads : Leads u' d m path
  goes : ∀ x ∈ path, t.graph.Goes s x d
  marked : ∀ x, x ∈ K' ↔ x ∈ K ∨ x ∈ path
  master : ∀ x ∈ K, u'.master x = u.master x

/-- The next stop is a peer that is still there, or the master of the whole group. -/
theorem Cut.next_marked (cut : Cut t s K u) (fresh : m ∉ K) (out : Unhooked u m (some x) u') :
    (u.npeer m = x ∧ x ∉ K ∧ x ≠ m ∧ t.gid x = t.gid m ∧ t.gid m ≠ 0) ∨
      u.npeer m = m ∧ t.master m = some x := by
  rcases out.next with ⟨peers, same⟩ | ⟨alone, same⟩
  · cases same
    have nonzero : u.gid m ≠ 0 := fun zero => peers (cut.rings.alone m zero)
    have gid := cut.rings.gid_next m
    have fresh' : u.npeer m ∉ K := fun mem => nonzero (by rw [← gid, cut.gid, if_pos mem])
    rw [cut.gid, if_neg fresh] at nonzero
    rw [cut.gid, cut.gid, if_neg fresh, if_neg fresh'] at gid
    exact .inl ⟨rfl, fresh', peers, gid, nonzero⟩
  · exact .inr ⟨alone, by rw [← cut.master m fresh, same]⟩

theorem Cut.next_victim (cut : Cut t s K u) (doomed : Doomed t s) (fresh : m ∉ K) (out : Unhooked u m (some x) u')
    (dying : t.umount x = true) : x ∈ s := by
  by_contra out_x
  have lone := doomed.private_ x dying out_x
  rcases cut.next_marked fresh out with ⟨-, -, -, same, nonzero⟩ | ⟨-, master⟩
  · exact nonzero (same ▸ lone.gid)
  · exact doomed.sound.owner m x master lone.gid

theorem Cut.peers_gone (cut : Cut t s K u) (victim : m ∈ s) (fresh : m ∉ K) (alone : u.npeer m = m) :
    ∀ p, t.gid m ≠ 0 → t.gid p = t.gid m → p ∈ s := by
  intro p nonzero same
  by_cases mem : p ∈ K
  · exact cut.inside p mem
  · have gid : u.gid m = t.gid m := by rw [cut.gid, if_neg fresh]
    have round := cut.rings.around m p (by rwa [gid]) (by rw [gid, cut.gid, if_neg mem, same])
    exact (round.self alone) ▸ victim

theorem traceTransfers_spec (wf : L.WF) (doomed : Doomed t s) {level : M → ℕ} (levels : t.graph.Levels level) {k : ℕ} :
    ∀ {u u' : Table M N D S} {K p : List M} {m : M} {d : Option M}, Cut t s K u → (∀ x ∈ K, x ∈ p ∨ t.graph.Goes s x (u.master x)) →
      (∀ x ∈ p, level m ≤ level x) → m ∈ s → m ∉ K → traceTransfers L k u m = some (u', d) →
      ∃ K' path', Traced t s K u m d u' K' path' := by
  induction k with
  | zero =>
    intro u u' K path m d _ _ _ _ _ run
    cases run
  | succ k ih =>
    intro u u' K path m d cut settled lower victim fresh run
    obtain ⟨⟨v, goal⟩, hooked, rest⟩ := Option.bind_eq_some_iff.mp run
    have typed : u.Typed m := by
      have typed := doomed.typed m victim
      rw [Typed] at typed ⊢
      rwa [cut.shared, cut.gid, if_neg fresh, if_neg fresh]
    have out := unhook_spec wf typed hooked
    have cut' := cut.unhook victim fresh out
    have at_m : v.master m = goal := by rw [out.master, Function.update_self]
    have elsewhere : ∀ x ∈ K, v.master x = u.master x := fun x mem => by
      have far : x ≠ m := fun same => fresh (same ▸ mem)
      rw [out.master, Function.update_of_ne far]
    have stops : t.graph.Goes s m goal → v = u' → d = goal → ∃ K' path', Traced t s K u m d u' K' path' := by
      rintro goes rfl rfl
      refine ⟨m :: K, [m], cut', .last at_m, ?_, ?_, elsewhere⟩
      · simpa using goes
      · simp [or_comm]
    simp only at rest
    split at rest
    · cases rest
      rcases out.next with ⟨-, same⟩ | ⟨alone, same⟩
      · cases same
      · exact stops (.orphan (cut.peers_gone victim fresh alone) ((cut.master m fresh).symm.trans same.symm)) rfl rfl
    · rename_i x
      have next := cut.next_marked fresh out
      have umount : ∀ y, v.umount y = t.umount y := fun y =>
        congrFun (congrArg Frame.umount (out.frame.trans cut.frame)) y
      split at rest
      · rename_i survives
        cases rest
        have stays : x ∉ s := fun mem => by
          rw [umount, doomed.umount x mem] at survives
          cases survives
        refine stops ?_ rfl rfl
        rcases next with ⟨-, -, -, same, nonzero⟩ | ⟨alone, master⟩
        · exact .peer nonzero same stays
        · exact .master (cut.peers_gone victim fresh alone) master stays
      · rename_i dying
        have x_victim := cut.next_victim doomed fresh out (by rw [← umount]; simpa using dying)
        split at rest
        · rename_i marked
          obtain ⟨rfl, rfl⟩ : v = u' ∧ v.master x = d := by
            cases rest
            exact ⟨rfl, rfl⟩
          have mem : x ∈ m :: K := (cut'.marked_iff doomed x_victim).mp marked
          have above : level x < level m ∧ t.master m = some x ∧ u.npeer m = m := by
            rcases next with ⟨-, fresh', other, -⟩ | ⟨alone, master⟩
            · exact absurd mem (by simp [fresh', other])
            · exact ⟨levels.above m x master, master, alone⟩
          obtain ⟨strict, master, alone⟩ := above
          have x_m : x ≠ m := fun same => lt_irrefl _ (same ▸ strict)
          have x_K : x ∈ K := (List.mem_cons.mp mem).resolve_left x_m
          have goes : t.graph.Goes s x (v.master x) := by
            rw [elsewhere x x_K]
            exact (settled x x_K).resolve_left fun on_path => absurd (lower x on_path) (by omega)
          have more : some x ≠ v.master x := fun same => (goes.stays doomed.sound x same.symm).1 x_victim
          refine ⟨m :: K, [m, x], cut', .step at_m more (.last rfl), ?_, ?_, elsewhere⟩
          · intro y mem
            rcases List.mem_cons.mp mem with rfl | mem
            · exact .above (cut.peers_gone victim fresh alone) master x_victim goes
            · exact List.mem_singleton.mp mem ▸ goes
          · intro y
            simp only [List.mem_cons, List.not_mem_nil, or_false]
            constructor
            · rintro (rfl | mem)
              · exact .inr (.inl rfl)
              · exact .inl mem
            · rintro (mem | rfl | rfl)
              · exact .inr mem
              · exact .inl rfl
              · exact .inr x_K
        · rename_i unmarked
          have fresh' : x ∉ m :: K := fun mem => unmarked ((cut'.marked_iff doomed x_victim).mpr mem)
          have low : level x ≤ level m := by
            rcases next with ⟨-, -, -, same, nonzero⟩ | ⟨-, master⟩
            · exact (levels.beside x m (fun zero => nonzero (same.symm.trans zero)) same).le
            · exact (levels.above m x master).le
          obtain ⟨K', path', traced⟩ := ih (p := m :: path) cut' (fun y mem => by
              rcases List.mem_cons.mp mem with rfl | mem
              · exact .inl List.mem_cons_self
              · rcases settled y mem with on_path | goes
                · exact .inl (List.mem_cons_of_mem m on_path)
                · exact .inr (elsewhere y mem ▸ goes))
            (fun y mem => by
              rcases List.mem_cons.mp mem with rfl | mem
              · exact low
              · exact low.trans (lower y mem))
            x_victim fresh' rest
          have goes_x := traced.goes x (by
            cases traced.leads <;> exact List.mem_cons_self)
          have goes : t.graph.Goes s m d := by
            rcases next with ⟨-, -, -, same, nonzero⟩ | ⟨alone, master⟩
            · exact goes_x.peers doomed.sound (by rw [graph_gid, same]; exact nonzero) same.symm
            · exact .above (cut.peers_gone victim fresh alone) master x_victim goes_x
          have more : some x ≠ d := fun same => (goes_x.stays doomed.sound x same.symm).1 x_victim
          refine ⟨K', m :: path', traced.cut, .step ?_ more traced.leads, ?_, ?_, ?_⟩
          · rw [traced.master m List.mem_cons_self, at_m]
          · intro y mem
            rcases List.mem_cons.mp mem with rfl | mem
            · exact goes
            · exact traced.goes y mem
          · intro y
            rw [traced.marked, List.mem_cons, List.mem_cons]
            exact or_assoc.trans or_left_comm
          · intro y mem
            rw [traced.master y (List.mem_cons_of_mem m mem), elsewhere y mem]

/-- The victims `done` are out and know where their slaves go. -/
def Handled (t : Table M N D S) (s done : List M) (u : Table M N D S) : Prop :=
  ∃ K, Cut t s K u ∧ Settled t s K u ∧ ∀ x ∈ done, x ∈ K

theorem Handled.start (doomed : Doomed t s) : Handled t s [] t := ⟨[], .start doomed, nofun, nofun⟩

/-- One victim of the first pass. -/
theorem Handled.round (wf : L.WF) (doomed : Doomed t s) {done : List M} (handled : Handled t s done u) (victim : m ∈ s)
    (round : (if u.marked m then some u else do
      let (mt1, dest) ← traceTransfers L L.fuel u m
      setDestinations dest L.fuel mt1 m) = some u') : Handled t s (done ++ [m]) u' := by
  obtain ⟨level, levels⟩ := doomed.sound.levels
  obtain ⟨K, cut, settled, covered⟩ := handled
  have covers : ∀ K' : List M, m ∈ K' → (∀ x ∈ K, x ∈ K') → ∀ x ∈ done ++ [m], x ∈ K' := fun K' here grows x mem => by
    rcases List.mem_append.mp mem with mem | mem
    · exact grows x (covered x mem)
    · exact List.mem_singleton.mp mem ▸ here
  split at round
  · rename_i marked
    cases round
    exact ⟨K, cut, settled, covers K ((cut.marked_iff doomed victim).mp marked) fun _ mem => mem⟩
  · rename_i unmarked
    obtain ⟨⟨v, d⟩, traced, set⟩ := Option.bind_eq_some_iff.mp round
    obtain ⟨K', path, trace⟩ := traceTransfers_spec wf doomed levels cut (p := []) (fun x mem => .inr (settled x mem)) nofun
      victim (fun mem => unmarked ((cut.marked_iff doomed victim).mpr mem)) traced
    have same := setDestinations_spec trace.leads set
    have on_path : ∀ x ∈ path, u'.master x = d := fun x mem => by
      rw [same]
      exact setOn_of_mem mem
    have off_path : ∀ x, x ∉ path → u'.master x = v.master x := fun x out => by
      rw [same]
      exact setOn_of_notMem out
    have start : m ∈ path := by cases trace.leads <;> exact List.mem_cons_self
    refine ⟨K', ?_, ?_, covers K' ((trace.marked m).mpr (.inr start)) fun x mem => (trace.marked x).mpr (.inl mem)⟩
    · have cut' := trace.cut
      rw [same]
      refine ⟨cut'.frame, cut'.cand, cut'.unbind, cut'.inside, cut'.marked, cut'.shared, cut'.gid, cut'.rings, cut'.bypass,
        cut'.slaves, fun x out => ?_⟩
      rw [← cut'.master x out]
      exact setOn_of_notMem fun mem => out ((trace.marked x).mpr (.inr mem))
    · intro x mem
      by_cases here : x ∈ path
      · rw [on_path x here]
        exact trace.goes x here
      · have before := ((trace.marked x).mp mem).resolve_right here
        rw [off_path x here, trace.master x before]
        exact settled x before

/-- After the first pass every victim is out and knows where its slaves go. -/
theorem bmpFirst_spec (wf : L.WF) (doomed : Doomed t s) (run : t.bmpFirst L s = some u) : Handled t s s u := by
  refine foldlM_split (P := fun done _ u => Handled t s done u) ?_ (.start doomed) run
  rintro done m rest u u' split handled round
  exact handled.round wf doomed (split ▸ List.mem_append_right done List.mem_cons_self) round

/-! ### Every walk ends -/

/-- Somebody comes before `m` on its ring. -/
theorem Cut.unhook_total (wf : L.WF) (dead : ∀ y, t.alive y = false → t.gid y = 0) (cut : Cut t s K u) (m : M) :
    ∃ v next, u.unhook L m = some (v, next) := by
  by_cases alone : u.npeer m = m
  · exact ⟨_, _, by rw [Table.unhook, if_neg (not_not_intro alone)]; rfl⟩
  · have finite : Finite M := Set.finite_univ_iff.mp ((List.finite_toSet L.mntIds).subset fun y _ => wf.mnts y)
    obtain ⟨prev, before⟩ := Finite.surjective_of_injective cut.rings.inj m
    have group : u.gid m ≠ 0 := fun zero => alone (cut.rings.alone m zero)
    have alive : u.alive prev = true := by
      have same : u.gid prev = u.gid m := by rw [← before, cut.rings.gid_next]
      rw [← same, cut.gid] at group
      split at group
      · exact absurd rfl group
      · by_contra gone
        rw [show u.alive prev = t.alive prev from congrFun (congrArg Frame.alive cut.frame) prev] at gone
        exact group (dead prev (by simpa using gone))
    have listed : prev ∈ (u.live L).filter fun x => u.npeer x = m :=
      List.mem_filter.mpr ⟨(mem_live wf).mpr alive, by simpa using before⟩
    obtain ⟨found, chosen⟩ := wf.chooseMnt_some _ (List.ne_nil_of_mem listed)
    exact ⟨_, _, by rw [Table.unhook, if_pos alone, ringRemove, chosen]; rfl⟩

theorem traceTransfers_total (wf : L.WF) (dead : ∀ y, t.alive y = false → t.gid y = 0) (doomed : Doomed t s) {k : ℕ} :
    ∀ {u : Table M N D S} {K : List M} {m : M}, Cut t s K u → m ∈ s → m ∉ K → (L.mntIds.filter (· ∉ K)).length < k →
      ∃ u' d, traceTransfers L k u m = some (u', d) := by
  induction k with
  | zero => exact fun _ _ _ small => absurd small (Nat.not_lt_zero _)
  | succ k ih =>
    intro u K m cut victim fresh room
    obtain ⟨v, next, hooked⟩ := cut.unhook_total wf dead m
    have typed : u.Typed m := by
      have typed := doomed.typed m victim
      rw [Typed] at typed ⊢
      rwa [cut.shared, cut.gid, if_neg fresh, if_neg fresh]
    have out := unhook_spec wf typed hooked
    have cut' := cut.unhook victim fresh out
    rw [traceTransfers, hooked, Option.bind_eq_bind, Option.bind_some]
    cases next with
    | none => exact ⟨_, _, rfl⟩
    | some x =>
      dsimp only
      split
      · exact ⟨_, _, rfl⟩
      · rename_i dying
        split
        · exact ⟨_, _, rfl⟩
        · rename_i unmarked
          have umount : v.umount x = t.umount x := congrFun (congrArg Frame.umount cut'.frame) x
          have x_victim := cut.next_victim doomed fresh out (by rw [← umount]; simpa using dying)
          refine ih cut' x_victim (fun mem => unmarked ((cut'.marked_iff doomed x_victim).mpr mem)) ?_
          have smaller : (L.mntIds.filter (· ∉ m :: K)).length < (L.mntIds.filter (· ∉ K)).length := by
            have again : L.mntIds.filter (· ∉ m :: K) = (L.mntIds.filter (· ∉ K)).filter (· ≠ m) := by
              simp only [List.filter_filter, List.mem_cons, not_or, Bool.decide_and, ne_eq]
            rw [again]
            refine lt_of_le_of_ne (List.length_filter_le ..) fun same => ?_
            have kept := List.length_filter_eq_length_iff.mp same m (List.mem_filter.mpr ⟨wf.mnts m, by simpa using fresh⟩)
            simp at kept
          omega

omit [DecidableEq M] in
theorem Leads.nodup (leads : Leads u d m path) : path.Nodup := by
  induction leads with
  | last => exact List.nodup_singleton _
  | step here more rest ih => exact List.nodup_cons.mpr ⟨rest.fresh here more, ih⟩

theorem setDestinations_total {k : ℕ} (leads : Leads u d m path) (room : path.length ≤ k) :
    ∃ u', setDestinations d k u m = some u' := by
  induction k generalizing u m path with
  | zero => cases leads <;> simp at room
  | succ k ih =>
    rw [setDestinations]
    split
    · exact ⟨_, rfl⟩
    · rename_i differs
      cases leads with
      | last here => exact absurd here differs
      | @step _ x l here more rest =>
        rw [here]
        have fresh := rest.fresh here more
        have rest' : Leads (u.setMaster m d) d x l := rest.congr fun y mem => by
          have far : y ≠ m := fun same => fresh (same ▸ mem)
          rw [setMaster_master, Function.update_of_ne far]
        exact ih rest' (Nat.le_of_succ_le_succ room)

theorem bulkMakePrivate_total (wf : L.WF) (dead : ∀ y, t.alive y = false → t.gid y = 0) (doomed : Doomed t s) :
    ∃ t', t.bulkMakePrivate L s = some t' := by
  obtain ⟨level, levels⟩ := doomed.sound.levels
  suffices first : ∃ u, t.bmpFirst L s = some u ∧ Handled t s s u by
    obtain ⟨u, run, -⟩ := first
    exact ⟨_, by rw [bulkMakePrivate, run]; rfl⟩
  refine foldlM_total (P := fun done _ u => Handled t s done u) ?_ (.start doomed)
  intro done m rest u split handled
  have victim : m ∈ s := split ▸ List.mem_append_right done List.mem_cons_self
  suffices total : ∃ u', (if u.marked m then some u else do
      let (mt1, dest) ← traceTransfers L L.fuel u m
      setDestinations dest L.fuel mt1 m) = some u' by
    obtain ⟨u', round⟩ := total
    exact ⟨u', round, handled.round wf doomed victim round⟩
  split
  · exact ⟨u, rfl⟩
  · rename_i unmarked
    obtain ⟨K, cut, settled, -⟩ := handled
    have fresh : m ∉ K := fun mem => unmarked ((cut.marked_iff doomed victim).mpr mem)
    obtain ⟨v, d, traced⟩ := traceTransfers_total wf dead doomed (k := L.fuel) cut victim fresh
      (Nat.lt_succ_of_le (List.length_filter_le ..))
    obtain ⟨K', path, trace⟩ := traceTransfers_spec wf doomed levels cut (p := []) (fun x mem => .inr (settled x mem)) nofun
      victim fresh traced
    obtain ⟨u', set⟩ := setDestinations_total (k := L.fuel) trace.leads
      (((List.subperm_of_subset trace.leads.nodup fun x _ => wf.mnts x).length_le).trans (Nat.le_succ _))
    exact ⟨u', by rw [traced, Option.bind_eq_bind, Option.bind_some]; exact set⟩

/-! ### The second pass -/

/-- Whose slaves `y` ends up with, once the slaves of `done` have gone. -/
def owners (dest : M → Option M) (done : List M) (y : M) : List M := (done.reverse.filter fun z => dest z = some y) ++ [y]

/-- The slaves of `z` that stay. -/
def block (t : Table M N D S) (s : List M) (z : M) : List M := (t.slaves z).filter (· ∉ s)

/-- The slaves of the victims `done` have gone. -/
structure Moved (t : Table M N D S) (s done : List M) (u v : Table M N D S) : Prop where
  frame : v.frame = u.frame
  cand : v.cand = u.cand
  unbind : v.unbind = u.unbind
  shared : v.shared = u.shared
  gid : v.gid = u.gid
  npeer : v.npeer = u.npeer
  marked : ∀ x, v.marked x = if x ∈ s ∧ x ∉ done then true else t.marked x
  gone : ∀ x ∈ done, v.slaves x = [] ∧ v.master x = none
  waiting : ∀ x ∈ s, x ∉ done → v.slaves x = block t s x ∧ v.master x = u.master x
  slaves : ∀ y, y ∉ s → v.slaves y = (owners u.master done y).flatMap (block t s)
  master : ∀ x, x ∉ s → v.master x = (t.master x).bind fun z => if z ∈ done then u.master z else some z

theorem Moved.start (cut : Cut t s K u) (all : ∀ x, x ∈ K ↔ x ∈ s) : Moved t s [] u u := by
  have same : ∀ y, u.slaves y = block t s y := fun y => by
    rw [cut.slaves, block]
    simp only [all]
  refine ⟨rfl, rfl, rfl, rfl, rfl, rfl, fun x => ?_, nofun, fun x mem _ => ⟨same x, rfl⟩, fun y out => ?_, fun x out => ?_⟩
  · rw [cut.marked]
    simp [all]
  · rw [same, owners]
    simp
  · rw [cut.master x fun mem => out ((all x).mp mem)]
    simp

theorem Moved.step (doomed : Doomed t s) (away : ∀ z ∈ s, ∀ d, u.master z = some d → d ∉ s) {done : List M} {v : Table M N D S}
    (moved : Moved t s done u v) (sub : ∀ x ∈ done, x ∈ s) (victim : m ∈ s) (fresh : m ∉ done) :
    Moved t s (done ++ [m]) u (((v.transferPropagation m (v.master m)).setMaster m none).setMarked m false) := by
  obtain ⟨at_m, dest⟩ := moved.waiting m victim fresh
  have dest_out : ∀ y, v.master m = some y → y ∉ s := fun y same => away m victim y (dest ▸ same)
  have listed : ∀ x, x ∈ v.slaves m ↔ x ∉ s ∧ t.master x = some m := fun x => by
    have listed : x ∈ t.slaves m ↔ t.master x = some m := doomed.sound.mem_slaves x m
    rw [at_m, block, List.mem_filter, decide_eq_true_eq, listed, and_comm]
  have slaves : ∀ y, y ∉ s ∨ y ≠ m ∧ y ∈ s →
      (v.transferPropagation m (v.master m)).slaves y = if v.master m = some y then v.slaves m ++ v.slaves y else v.slaves y := by
    intro y off
    have far : y ≠ m := off.elim (fun out same => out (same ▸ victim)) And.left
    simp only [transferPropagation_slaves, if_neg far]
  have inside : ∀ y, y ≠ m → y ∈ s → (v.transferPropagation m (v.master m)).slaves y = v.slaves y := fun y far mem => by
    rw [slaves y (.inr ⟨far, mem⟩), if_neg fun same => dest_out y same mem]
  have master_in : ∀ x ∈ s, x ≠ m → Function.update (setOn v.master (v.slaves m) (v.master m)) m none x = v.master x :=
    fun x mem far => by rw [Function.update_of_ne far, setOn_of_notMem fun bad => ((listed x).mp bad).1 mem]
  constructor
  case frame => simpa using moved.frame
  case cand => simpa using moved.cand
  case unbind => simpa using moved.unbind
  case shared => simpa using moved.shared
  case gid => simpa using moved.gid
  case npeer => simpa using moved.npeer
  case marked =>
    intro x
    simp only [setMarked_marked, setMaster_marked, transferPropagation_marked, Function.update_apply, List.mem_append,
      List.mem_singleton, not_or]
    by_cases here : x = m
    · simp [here, doomed.unmarked m victim]
    · simp [here, moved.marked]
  case gone =>
    intro x mem
    simp only [setMarked_slaves, setMaster_slaves, setMarked_master, setMaster_master, transferPropagation_master]
    by_cases same : x = m
    · subst same
      refine ⟨?_, Function.update_self ..⟩
      simp only [transferPropagation_slaves, if_pos]
      rw [if_neg fun bad => dest_out x bad victim]
    · have before := (List.mem_append.mp mem).resolve_right (by simpa using same)
      obtain ⟨empty, none⟩ := moved.gone x before
      exact ⟨by rw [inside x same (sub x before), empty], by rw [master_in x (sub x before) same, none]⟩
  case waiting =>
    intro x mem out
    simp only [List.mem_append, List.mem_singleton, not_or] at out
    obtain ⟨block, master⟩ := moved.waiting x mem out.1
    simp only [setMarked_slaves, setMaster_slaves, setMarked_master, setMaster_master, transferPropagation_master]
    exact ⟨by rw [inside x out.2 mem, block], by rw [master_in x mem out.2, master]⟩
  case slaves =>
    intro y out
    simp only [setMarked_slaves, setMaster_slaves]
    rw [slaves y (.inl out), moved.slaves y out, at_m, dest, owners, owners, List.reverse_append]
    simp only [List.reverse_singleton, List.singleton_append, List.filter_cons, decide_eq_true_eq]
    split <;> simp
  case master =>
    intro x out
    have far : x ≠ m := fun same => out (same ▸ victim)
    simp only [setMarked_master, setMaster_master, transferPropagation_master, Function.update_of_ne far, setOn, listed, dest,
      moved.master x out]
    cases here : t.master x with
    | none => simp
    | some z =>
      by_cases same : z = m
      · subst same
        simp [out]
      · simp [same]

/-- What bulk_make_private() leaves behind. -/
structure Privatised (t : Table M N D S) (s : List M) (t' : Table M N D S) : Prop where
  frame : t'.frame = t.frame
  cand : t'.cand = t.cand
  unbind : t'.unbind = t.unbind
  marked : t'.marked = t.marked
  shared : ∀ x, t'.shared x = if x ∈ s then false else t.shared x
  graph : ∃ dest owners, t.graph.Withdrawn s dest owners t'.graph ∧ ∀ x ∈ s, t.graph.Goes s x (dest x)

theorem bulkMakePrivate_spec (wf : L.WF) (doomed : Doomed t s) {t' : Table M N D S} (run : t.bulkMakePrivate L s = some t') :
    Privatised t s t' := by
  obtain ⟨u, first, same⟩ := Option.bind_eq_some_iff.mp run
  obtain ⟨K, cut, settled, covered⟩ := bmpFirst_spec wf doomed first
  have all : ∀ x, x ∈ K ↔ x ∈ s := fun x => ⟨cut.inside x, covered x⟩
  have goes : ∀ x ∈ s, t.graph.Goes s x (u.master x) := fun x mem => settled x ((all x).mpr mem)
  have away : ∀ z ∈ s, ∀ d, u.master z = some d → d ∉ s ∧ t.gid d ≠ 0 ∧ t.graph.Above z d := fun z mem d to_d =>
    (goes z mem).stays doomed.sound d to_d
  have moved : Moved t s s u (u.bmpSecond s) := by
    suffices go : ∀ rest done v, done ++ rest = s → Moved t s done u v →
        Moved t s s u (rest.foldl (fun mt m => ((mt.transferPropagation m (mt.master m)).setMaster m none).setMarked m false) v) from
      go s [] u rfl (.start cut all)
    intro rest
    induction rest with
    | nil =>
      intro done v split moved
      rw [List.append_nil] at split
      exact split ▸ moved
    | cons m rest ih =>
      intro done v split moved
      have fresh : m ∉ done := fun mem => by
        have nodup := doomed.nodup
        rw [← split] at nodup
        exact (List.nodup_append.mp nodup).2.2 m mem m List.mem_cons_self rfl
      exact ih (done ++ [m]) _ (by rw [← split, List.append_assoc]; rfl)
        (moved.step doomed (fun z mem d to_d => (away z mem d to_d).1)
          (fun x mem => split ▸ List.mem_append_left (m :: rest) mem) (split ▸ List.mem_append_right done List.mem_cons_self) fresh)
  cases same
  refine ⟨moved.frame.trans cut.frame, moved.cand.trans cut.cand, moved.unbind.trans cut.unbind, funext fun x => ?_, fun x => ?_,
    u.master, owners u.master s, ?_, goes⟩
  · rw [moved.marked, if_neg fun both => both.2 both.1]
  · rw [moved.shared, cut.shared]
    simp only [all]
  constructor
  case rings =>
    show Rings (u.bmpSecond s).npeer (u.bmpSecond s).gid
    rw [moved.npeer, moved.gid]
    exact cut.rings
  case bypass =>
    show Bypass t.npeer (· ∈ s) (u.bmpSecond s).npeer
    rw [moved.npeer]
    have bypass := cut.bypass
    simp only [all] at bypass
    exact bypass
  case gid =>
    intro x out
    rw [graph_gid, moved.gid, cut.gid, if_neg fun mem => out ((all x).mp mem), graph_gid]
  case isolated =>
    intro x mem
    obtain ⟨slaves, master⟩ := moved.gone x mem
    refine ⟨?_, master, slaves⟩
    rw [graph_gid, moved.gid, cut.gid, if_pos ((all x).mpr mem)]
  case goes => exact away
  case master => exact moved.master
  case slaves => exact moved.slaves
  case owners =>
    intro y out
    refine ⟨?_, fun z => ?_⟩
    · rw [owners, List.nodup_append]
      refine ⟨(List.nodup_reverse.mpr doomed.nodup).filter _, List.nodup_singleton y, fun a mem b same => ?_⟩
      rw [List.mem_singleton.mp same]
      rintro rfl
      exact out (List.mem_reverse.mp (List.mem_filter.mp mem).1)
    · rw [owners, List.mem_append, List.mem_filter, List.mem_reverse, List.mem_singleton, decide_eq_true_eq, or_comm]

end Table

end LinuxTla.Mount
