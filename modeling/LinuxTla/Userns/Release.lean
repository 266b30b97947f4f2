import LinuxTla.Userns.Model
import Mathlib.Tactic.ByContra

/-! The registry entry at the inode of a live namespace with a range is its own, and
only entries of dead namespaces are ever released. -/

namespace LinuxTla.Userns

variable {C I R : Type} {cfg : Config C I R}
  {k k' : Kernel I R} {st st' : Store I R} {s s' : State C I R}

/-- Live namespaces have an inode each, which is not free. -/
structure Kernel.Ok (cfg : Config C I R) (k : Kernel I R) : Prop where
  old : ∀ n ∈ k.nsAlive, n < k.nextId
  used : ∀ n ∈ k.nsAlive, ∃ i ∈ cfg.inodes, k.nsInode n = some i ∧ i ∉ k.freeInodes
  own : ∀ n ∈ k.nsAlive, ∀ m ∈ k.nsAlive, k.nsInode n = k.nsInode m → n = m
  free : k.freeInodes ⊆ cfg.inodes
  fresh : ∀ n, k.nextId ≤ n → k.nsRange n = none

def Kernel.Ranged (k : Kernel I R) (n : ℕ) (r : R) : Prop := n ∈ k.nsAlive ∧ k.nsRange n = some r

/-- The store is right about the live namespaces. -/
structure Store.Ok (cfg : Config C I R) (k : Kernel I R) (st : Store I R) : Prop where
  old : ∀ i n, (st.registry i).id = some n → n < k.nextId
  consistent : ∀ i n, (st.registry i).id = some n → n ∈ k.nsAlive → k.nsInode n = some i
  registered : ∀ n r i, k.Ranged n r → k.nsInode n = some i →
    (st.registry i).id = some n ∧ (st.registry i).range = some r ∧ i ∈ st.managed
  apart : ∀ i ∈ cfg.inodes, ∀ j ∈ cfg.inodes, ∀ r, (st.registry i).range = some r → (st.registry j).range = some r → i = j
  cgroup : ∀ i n, (st.registry i).id = some n → n ∈ k.nsAlive → (st.registry i).cg = true → n ∈ st.cgroups
  netif : ∀ i n, (st.registry i).id = some n → n ∈ k.nsAlive → (st.registry i).netif = true → n ∈ st.netifs

/-! ### Releasing -/

/-- Only what belongs to dead namespaces is given up. -/
structure Releases (alive : Finset ℕ) (st st' : Store I R) : Prop where
  registry : ∀ i, st'.registry i = st.registry i ∨
    st'.registry i = noEntry ∧ ∀ n, (st.registry i).id = some n → n ∉ alive
  managed : ∀ i n, (st.registry i).id = some n → n ∈ alive → i ∈ st.managed → i ∈ st'.managed
  cgroups : ∀ n ∈ alive, n ∈ st.cgroups → n ∈ st'.cgroups
  netifs : ∀ n ∈ alive, n ∈ st.netifs → n ∈ st'.netifs

theorem Releases.kept {alive : Finset ℕ} (releases : Releases alive st st') {i : I} {n : ℕ}
    (entry : (st.registry i).id = some n) (live : n ∈ alive) : st'.registry i = st.registry i := by
  obtain same | ⟨_, dead⟩ := releases.registry i
  · exact same
  · exact absurd live (dead n entry)

theorem Releases.of_id {alive : Finset ℕ} (releases : Releases alive st st') {i : I} {n : ℕ}
    (entry : (st'.registry i).id = some n) : st'.registry i = st.registry i := by
  obtain same | ⟨gone, _⟩ := releases.registry i
  · exact same
  · rw [gone] at entry
    cases entry

theorem Releases.of_range {alive : Finset ℕ} (releases : Releases alive st st') {i : I} {r : R}
    (range : (st'.registry i).range = some r) : (st.registry i).range = some r := by
  obtain same | ⟨gone, _⟩ := releases.registry i
  · rwa [← same]
  · rw [gone] at range
    cases range

theorem Store.Ok.releases (ok : st.Ok cfg k) (releases : Releases k.nsAlive st st') : st'.Ok cfg k := by
  have before {i : I} {n : ℕ} (entry : (st'.registry i).id = some n) : (st.registry i).id = some n := by
    rwa [← releases.of_id entry]
  refine ⟨fun i n entry => ok.old i n (before entry), fun i n entry => ok.consistent i n (before entry), ?_, ?_, ?_, ?_⟩
  · intro n r i ranged inode
    obtain ⟨entry, range, managed⟩ := ok.registered n r i ranged inode
    rw [releases.kept entry ranged.1]
    exact ⟨entry, range, releases.managed i n entry ranged.1 managed⟩
  · intro i inside j other r first second
    exact ok.apart i inside j other r (releases.of_range first) (releases.of_range second)
  · intro i n entry alive cg
    rw [releases.of_id entry] at cg
    exact releases.cgroups n alive (ok.cgroup i n (before entry) alive cg)
  · intro i n entry alive netif
    rw [releases.of_id entry] at netif
    exact releases.netifs n alive (ok.netif i n (before entry) alive netif)

theorem mem_staleEntries {alive : Finset ℕ} {i : I} (stale : i ∈ staleEntries cfg st alive) {n : ℕ}
    (entry : (st.registry i).id = some n) : n ∉ alive := by
  obtain ⟨_, _, m, entry', dead⟩ := Finset.mem_filter.mp stale
  rw [entry] at entry'
  cases entry'
  exact dead

theorem notMem_staleIds {alive : Finset ℕ} {n : ℕ} (live : n ∈ alive) : some n ∉ staleIds cfg st alive := by
  intro stale
  obtain ⟨i, inside, entry⟩ := Finset.mem_image.mp stale
  exact mem_staleEntries inside entry live

/-- The entry at `i` may go if its namespace is dead. -/
theorem releases_released [DecidableEq I] {alive : Finset ℕ} {i : I} (dead : ∀ n, (st.registry i).id = some n → n ∉ alive) :
    Releases alive st (st.released i) := by
  have kept (n : ℕ) (live : n ∈ alive) : (st.registry i).id ≠ some n := fun entry => dead n entry live
  refine ⟨fun j => ?_, fun j n entry live managed => ?_, fun n live there => ?_, fun n live there => ?_⟩
  · by_cases here : j = i
    · subst here
      exact .inr ⟨Function.update_self .., dead⟩
    · exact .inl (Function.update_of_ne here ..)
  · refine Finset.mem_erase.mpr ⟨?_, managed⟩
    rintro rfl
    exact dead n entry live
  · exact Finset.mem_filter.mpr ⟨there, kept n live⟩
  · exact Finset.mem_filter.mpr ⟨there, kept n live⟩

theorem releases_cleaned [DecidableEq I] {alive : Finset ℕ} {i : I} (empty : (st.registry i).id = none) :
    Releases alive st (st.cleaned i) := by
  refine ⟨fun _ => .inl rfl, fun j n entry _ managed => ?_, fun _ _ => id, fun _ _ => id⟩
  refine Finset.mem_erase.mpr ⟨?_, managed⟩
  rintro rfl
  rw [empty] at entry
  cases entry

theorem releases_mgrReleased [DecidableEq I] (verify : cfg.fixNsidVerify = true) {alive : Finset ℕ} {i : I} :
    Releases alive st (mgrReleased cfg alive st i) := by
  unfold mgrReleased
  split
  · case h_1 empty => exact releases_cleaned empty
  · case h_2 n entry =>
    split
    · exact ⟨fun _ => .inl rfl, fun _ _ _ _ => id, fun _ _ => id, fun _ _ => id⟩
    · case isFalse dead =>
      refine releases_released fun m entry' live => dead ⟨verify, ?_⟩
      rw [entry] at entry'
      cases entry'
      exact live

/-- manager_startup() -/
theorem releases_swept [DecidableEq I] {alive : Finset ℕ} : Releases alive st (swept cfg st alive) := by
  refine ⟨fun i => ?_, fun i n entry live managed => ?_, fun n live there => ?_, fun n live there => ?_⟩
  · by_cases stale : i ∈ staleEntries cfg st alive
    · exact .inr ⟨if_pos stale, fun n entry => mem_staleEntries stale entry⟩
    · exact .inl (if_neg stale)
  · refine Finset.mem_union_left _ (Finset.mem_sdiff.mpr ⟨managed, fun gone => ?_⟩)
    obtain stale | orphan := Finset.mem_union.mp gone
    · exact mem_staleEntries stale entry live
    · obtain ⟨x, inside, rfl⟩ := Finset.mem_image.mp orphan
      have empty := (Finset.mem_filter.mp inside).2
      rw [entry] at empty
      cases empty
  · exact Finset.mem_filter.mpr ⟨there, notMem_staleIds live⟩
  · exact Finset.mem_filter.mpr ⟨there, notMem_staleIds live⟩

/-! ### The kernel's steps -/

/-- The new namespace has a number of its own, and neither range nor entry yet. -/
theorem Kernel.Ok.created [DecidableEq I] (ok : k.Ok cfg) {i : I} (free : i ∈ k.freeInodes) : (k.created i).Ok cfg := by
  have other {n : ℕ} (live : n ∈ k.nsAlive) : n ≠ k.nextId := Nat.ne_of_lt (ok.old n live)
  have elsewhere {n : ℕ} (live : n ∈ k.nsAlive) : k.nsInode n ≠ some i := by
    obtain ⟨j, _, inode, used⟩ := ok.used n live
    rw [inode]
    rintro ⟨⟩
    exact used free
  refine ⟨?_, ?_, ?_, fun j inside => ok.free (Finset.mem_of_mem_erase inside), ?_⟩
  · intro n live
    obtain rfl | before := Finset.mem_insert.mp live
    · exact Nat.lt_succ_self _
    · exact Nat.lt_succ_of_lt (ok.old n before)
  · intro n live
    obtain rfl | before := Finset.mem_insert.mp live
    · exact ⟨i, ok.free free, Function.update_self .., Finset.notMem_erase i _⟩
    · obtain ⟨j, inside, inode, used⟩ := ok.used n before
      refine ⟨j, inside, ?_, fun there => used (Finset.mem_of_mem_erase there)⟩
      exact (Function.update_of_ne (other before) ..).trans inode
  · intro n live m live' same
    change Function.update k.nsInode k.nextId (some i) n = Function.update k.nsInode k.nextId (some i) m at same
    obtain rfl | before := Finset.mem_insert.mp live
    · obtain rfl | before' := Finset.mem_insert.mp live'
      · rfl
      · rw [Function.update_self, Function.update_of_ne (other before')] at same
        exact absurd same.symm (elsewhere before')
    · obtain rfl | before' := Finset.mem_insert.mp live'
      · rw [Function.update_self, Function.update_of_ne (other before)] at same
        exact absurd same (elsewhere before)
      · rw [Function.update_of_ne (other before), Function.update_of_ne (other before')] at same
        exact ok.own n before m before' same
  · exact fun n later => ok.fresh n (Nat.le_of_succ_le later)

theorem Store.Ok.created [DecidableEq I] (ok : st.Ok cfg k) (kernel : k.Ok cfg) {i : I} : st.Ok cfg (k.created i) := by
  have before {j : I} {n : ℕ} (entry : (st.registry j).id = some n) (live : n ∈ (k.created i).nsAlive) :
      n ≠ k.nextId ∧ n ∈ k.nsAlive := by
    have old := Nat.ne_of_lt (ok.old j n entry)
    exact ⟨old, (Finset.mem_insert.mp live).resolve_left old⟩
  refine ⟨fun j n entry => Nat.lt_succ_of_lt (ok.old j n entry), ?_, ?_, ok.apart, ?_, ?_⟩
  · intro j n entry live
    obtain ⟨other, live'⟩ := before entry live
    exact (Function.update_of_ne other ..).trans (ok.consistent j n entry live')
  · intro n r j ranged inode
    have other : n ≠ k.nextId := by
      rintro rfl
      have bare := (kernel.fresh _ le_rfl).symm.trans ranged.2
      cases bare
    have live := (Finset.mem_insert.mp ranged.1).resolve_left other
    exact ok.registered n r j ⟨live, ranged.2⟩ ((Function.update_of_ne other ..).symm.trans inode)
  · exact fun j n entry live => ok.cgroup j n entry (before entry live).2
  · exact fun j n entry live => ok.netif j n entry (before entry live).2

theorem Kernel.Ok.died [DecidableEq I] (ok : k.Ok cfg) {n : ℕ} {i : I} (alive : n ∈ k.nsAlive) (inode : k.nsInode n = some i) :
    (k.died n i).Ok cfg := by
  have before {m : ℕ} (live : m ∈ (k.died n i).nsAlive) : m ∈ k.nsAlive := Finset.mem_of_mem_erase live
  refine ⟨fun m live => ok.old m (before live), ?_, fun m live l live' => ok.own m (before live) l (before live'), ?_, ok.fresh⟩
  · intro m live
    obtain ⟨j, inside, inode', used⟩ := ok.used m (before live)
    refine ⟨j, inside, inode', fun there => ?_⟩
    obtain rfl | free := Finset.mem_insert.mp there
    · exact Finset.ne_of_mem_erase live (ok.own m (before live) n alive (inode'.trans inode.symm))
    · exact used free
  · intro j free
    obtain rfl | free' := Finset.mem_insert.mp free
    · obtain ⟨j', inside, inode', _⟩ := ok.used n alive
      rw [inode] at inode'
      cases inode'
      exact inside
    · exact ok.free free'

theorem Store.Ok.died [DecidableEq I] (ok : st.Ok cfg k) {n : ℕ} {i : I} : st.Ok cfg (k.died n i) := by
  have before {m : ℕ} (live : m ∈ (k.died n i).nsAlive) : m ∈ k.nsAlive := Finset.mem_of_mem_erase live
  exact ⟨ok.old, fun j m entry live => ok.consistent j m entry (before live),
    fun m r j ranged => ok.registered m r j ⟨before ranged.1, ranged.2⟩, ok.apart,
    fun j m entry live => ok.cgroup j m entry (before live), fun j m entry live => ok.netif j m entry (before live)⟩

/-! ### A range is allocated -/

theorem Kernel.Ok.mapped (ok : k.Ok cfg) {n : ℕ} {r : R} (alive : n ∈ k.nsAlive) : (k.mapped n r).Ok cfg := by
  refine ⟨ok.old, ok.used, ok.own, ok.free, fun m later => ?_⟩
  have other : m ≠ n := by
    rintro rfl
    exact absurd (ok.old m alive) (Nat.not_lt.mpr later)
  exact (Function.update_of_ne other ..).trans (ok.fresh m later)

/-- The entry that is overwritten is no live namespace's but `n`'s own, and nobody else
has the range. -/
theorem Store.Ok.stored [DecidableEq I] [DecidableEq R] (ok : st.Ok cfg k) (kernel : k.Ok cfg) {n : ℕ} {i : I} {r : R} (alive : n ∈ k.nsAlive)
    (inode : k.nsInode n = some i) (free : r ∈ st.freeRange cfg) : (st.stored i n r).Ok cfg (k.mapped n r) := by
  have here : (st.stored i n r).registry i = { id := some n, range := some r, cg := false, netif := false } :=
    Function.update_self ..
  have there {j : I} (other : j ≠ i) : (st.stored i n r).registry j = st.registry j := Function.update_of_ne other ..
  have unused := (Finset.mem_filter.mp free).2
  refine ⟨?_, ?_, ?_, ?_, ?_, ?_⟩
  · intro j m entry
    by_cases same : j = i
    · rw [same, here] at entry
      cases entry
      exact kernel.old n alive
    · rw [there same] at entry
      exact ok.old j m entry
  · intro j m entry live
    by_cases same : j = i
    · rw [same, here] at entry
      cases entry
      rw [same]
      exact inode
    · rw [there same] at entry
      exact ok.consistent j m entry live
  · intro m r' j ranged inode'
    by_cases same : m = n
    · subst same
      obtain rfl : i = j := Option.some.inj (inode.symm.trans inode')
      have range : (k.mapped m r).nsRange m = some r := Function.update_self ..
      obtain rfl : r = r' := Option.some.inj (range.symm.trans ranged.2)
      rw [here]
      exact ⟨rfl, rfl, Finset.mem_insert_self i _⟩
    · have range : k.nsRange m = some r' := (Function.update_of_ne same ..).symm.trans ranged.2
      have other : j ≠ i := by
        rintro rfl
        exact same (kernel.own m ranged.1 n alive (inode'.trans inode.symm))
      obtain ⟨entry, held, managed⟩ := ok.registered m r' j ⟨ranged.1, range⟩ inode'
      rw [there other]
      exact ⟨entry, held, Finset.mem_insert_of_mem managed⟩
  · intro j inside l inside' r' first second
    by_cases same : j = i
    · by_cases same' : l = i
      · rw [same, same']
      · rw [same, here] at first
        rw [there same'] at second
        cases first
        exact absurd second (unused l inside')
    · rw [there same] at first
      by_cases same' : l = i
      · rw [same', here] at second
        cases second
        exact absurd first (unused j inside)
      · rw [there same'] at second
        exact ok.apart j inside l inside' r' first second
  · intro j m entry live cg
    by_cases same : j = i
    · rw [same, here] at cg
      cases cg
    · rw [there same] at entry cg
      exact ok.cgroup j m entry live cg
  · intro j m entry live netif
    by_cases same : j = i
    · rw [same, here] at netif
      cases netif
    · rw [there same] at entry netif
      exact ok.netif j m entry live netif

theorem Store.Ok.delegated [DecidableEq I] (ok : st.Ok cfg k) {n : ℕ} {i : I} (entry : (st.registry i).id = some n) :
    (st.delegated i n).Ok cfg k := by
  have there {j : I} (other : j ≠ i) : (st.delegated i n).registry j = st.registry j := Function.update_of_ne other ..
  have here : (st.delegated i n).registry i = { st.registry i with cg := true, netif := true } :=
    Function.update_self ..
  have id (j : I) : ((st.delegated i n).registry j).id = (st.registry j).id := by
    by_cases same : j = i
    · rw [same, here]
    · rw [there same]
  have range (j : I) : ((st.delegated i n).registry j).range = (st.registry j).range := by
    by_cases same : j = i
    · rw [same, here]
    · rw [there same]
  refine ⟨?_, ?_, ?_, ?_, ?_, ?_⟩
  · intro j m
    rw [id]
    exact ok.old j m
  · intro j m
    rw [id]
    exact ok.consistent j m
  · intro m r j
    rw [id, range]
    exact ok.registered m r j
  · intro j inside l inside' r
    rw [range, range]
    exact ok.apart j inside l inside' r
  · intro j m entry' live cg
    by_cases same : j = i
    · rw [id, same, entry] at entry'
      cases entry'
      exact Finset.mem_insert_self n _
    · rw [there same] at entry' cg
      exact Finset.mem_insert_of_mem (ok.cgroup j m entry' live cg)
  · intro j m entry' live netif
    by_cases same : j = i
    · rw [id, same, entry] at entry'
      cases entry'
      exact Finset.mem_insert_self n _
    · rw [there same] at entry' netif
      exact Finset.mem_insert_of_mem (ok.netif j m entry' live netif)

end LinuxTla.Userns
