/-
OvsSgx.EvictionInvariant — the eviction groups under the eviction ecalls.

Every table with eviction enabled has its groups twice, in an hmap by id
and in a heap by size; every group has a heap of rules, and every rule
points back to its group. `EvictionOk` says that these agree. Between the
steps of an ecall one group may be out of order, empty or with a size that
is not up to date: that is the group `x` of `EvictionOkBut x`.

What the rest of the development sees of all this is `GroupedIn i r`: rule
`r` is in some eviction group of table `i`.
-/
import OvsSgx.EnclaveTheorems

namespace OvsSgx

open IndexedHeap (Ok Mem)

/-! ## The invariant -/

/-- The eviction groups of table `i`. -/
def Enclave.groups (s : Enclave) (i : Nat) : List EvgId :=
  (s.oftable i).evictionGroupsById.values

/-- `eviction_groups_by_size` of table `i`, with its nodes. -/
def Enclave.sizeHeap (s : Enclave) (i : Nat) : IndexedHeap.State Nat :=
  (s.oftable i).evictionGroupsBySize.state s.sizeNode

/-- The rules of group `g`, with their nodes. -/
def Enclave.rulesHeap (s : Enclave) (g : EvgId) : IndexedHeap.State Nat :=
  (s.evgRules g).state s.ruleEvgNode

/-- Rule `r` is in an eviction group of table `i`. -/
def Enclave.GroupedIn (s : Enclave) (i : Nat) (r : RuleId) : Prop :=
  ∃ g ∈ s.groups i, s.evictGroup r = some g

/-- The eviction groups of a bridge are in order, except that group `x` may be empty or
carry an old size. -/
structure EvictionOkBut (x : Option EvgId) (s : Enclave) : Prop where
  ids : ∀ i, ((s.oftable i).evictionGroupsById.entries.map Prod.fst).Nodup
  id : ∀ i, ∀ e ∈ (s.oftable i).evictionGroupsById.entries, e.1 = (s.evgId e.2).toNat
  fresh : ∀ i, ∀ g ∈ s.groups i, g < s.nextEvg
  disjoint : ∀ i j, ∀ g ∈ s.groups i, g ∈ s.groups j → i = j
  sizeOk : ∀ i, Ok (s.sizeHeap i)
  sizeMem : ∀ i g, Mem (s.sizeHeap i) g ↔ g ∈ s.groups i
  rulesOk : ∀ i, ∀ g ∈ s.groups i, Ok (s.rulesHeap g)
  rulesMem : ∀ i, ∀ g ∈ s.groups i, ∀ r, Mem (s.rulesHeap g) r ↔ s.evictGroup r = some g
  hash : ∀ i, ∀ g ∈ s.groups i, ∀ r, s.evictGroup r = some g →
    evictionGroupHashRule (s.oftable i) (s.clsRule r) = s.evgId g
  grouped : ∀ r g, s.evictGroup r = some g → r < s.nextRule ∧ ∃ i, g ∈ s.groups i
  disabled : ∀ i, (s.oftable i).evictionFields = none → s.groups i = []
  nonempty : ∀ i, ∀ g ∈ s.groups i, some g ≠ x → 0 < (s.evgRules g).n
  size : ∀ i, ∀ g ∈ s.groups i, some g ≠ x →
    (s.sizeNode g).priority >>> 16 = min UINT16_MAX (s.evgRules g).n

/-- The eviction groups of a bridge are in order. -/
def EvictionOk (s : Enclave) : Prop := EvictionOkBut none s

section Basics

variable {x : Option EvgId} {s : Enclave} {i j : Nat} {g : EvgId} {r : RuleId}

theorem mem_groups : g ∈ s.groups i ↔ ∃ h, (h, g) ∈ (s.oftable i).evictionGroupsById.entries := by
  simp [Enclave.groups, ChainMap.values]

theorem EvictionOk.but (h : EvictionOk s) (x : Option EvgId) : EvictionOkBut x s :=
  { h with
    nonempty := fun i g hg _ => h.nonempty i g hg (by simp)
    size := fun i g hg _ => h.size i g hg (by simp) }

/-- The id of a group is the hash under which it is kept. -/
theorem EvictionOkBut.mem_entries (h : EvictionOkBut x s) (hg : g ∈ s.groups i) :
    ((s.evgId g).toNat, g) ∈ (s.oftable i).evictionGroupsById.entries := by
  obtain ⟨k, hk⟩ := mem_groups.mp hg
  have := h.id i _ hk
  simp only at this
  rwa [← this]

/-- Two groups of a table with the same id are one. -/
theorem EvictionOkBut.eq_of_id (h : EvictionOkBut x s) {g' : EvgId} (hg : g ∈ s.groups i)
    (hg' : g' ∈ s.groups i) (heq : s.evgId g = s.evgId g') : g = g' := by
  have := List.inj_on_of_nodup_map (h.ids i) (h.mem_entries hg) (h.mem_entries hg')
    (by rw [heq])
  exact (Prod.mk.inj this).2

theorem EvictionOkBut.groups_nodup (h : EvictionOkBut x s) (i : Nat) : (s.groups i).Nodup := by
  have hpair := List.pairwise_map.mp (h.ids i)
  refine List.pairwise_map.mpr (hpair.imp_of_mem fun {a b} ha hb hne heq => hne ?_)
  rw [h.id i a ha, h.id i b hb, heq]

theorem EvictionOkBut.groupedIn (h : EvictionOkBut x s) (hr : s.evictGroup r = some g) :
    ∃ i, s.GroupedIn i r := by
  obtain ⟨-, i, hi⟩ := h.grouped r g hr
  exact ⟨i, g, hi, hr⟩

/-- A rule is in the groups of at most one table. -/
theorem EvictionOkBut.table_unique (h : EvictionOkBut x s) (hi : s.GroupedIn i r)
    (hj : s.GroupedIn j r) : i = j := by
  obtain ⟨g, hg, hr⟩ := hi
  obtain ⟨g', hg', hr'⟩ := hj
  rw [hr, Option.some.injEq] at hr'
  subst hr'
  exact h.disjoint i j g hg hg'

end Basics

/-! ## Sizes -/

/-- The two ways in which the code computes the size priority agree. -/
theorem removePriority_eq (n : Nat) (r : BitVec 16) : removePriority n r = addPriority n r := by
  have hsize : (BitVec.ofNat 16 (min UINT16_MAX n)).toNat = min UINT16_MAX n := by
    rw [BitVec.toNat_ofNat]
    exact Nat.mod_eq_of_lt (by simp only [UINT16_MAX]; omega)
  have hcut : ∀ p : BitVec 32, ((p.signExtend 64).setWidth 32).toNat = p.toNat := by
    intro p
    refine congrArg BitVec.toNat (BitVec.eq_of_getElem_eq fun i hi => ?_)
    have h64 : i < 64 := by omega
    simp [BitVec.getElem_signExtend, hi, h64]
  simp only [removePriority, addPriority, hcut, BitVec.toNat_or, BitVec.toNat_shiftLeft,
    BitVec.toNat_setWidth, hsize]
  have hr := r.isLt
  have hm : min UINT16_MAX n ≤ 65535 := by simp only [UINT16_MAX]; omega
  rw [Nat.mod_eq_of_lt (a := r.toNat) (by omega), Nat.mod_eq_of_lt (a := min UINT16_MAX n) (by omega),
    Nat.mod_eq_of_lt]
  rw [Nat.shiftLeft_eq]
  omega

theorem addPriority_shiftRight (n : Nat) (r : BitVec 16) :
    addPriority n r >>> 16 = min UINT16_MAX n := by
  rw [addPriority, Nat.shiftRight_or_distrib, Nat.shiftLeft_shiftRight, Nat.shiftRight_eq_div_pow,
    Nat.div_eq_of_lt r.isLt, Nat.or_zero]

/-! ## Steps of the eviction ecalls -/

section Steps

variable {x : Option EvgId} {s : Enclave} {i : Nat} {g : EvgId} {r : RuleId}

/-- What a table's groups, eviction fields and basis have in common before and after a
step that only moves its heap by size. -/
theorem setOftable_bySize (s : Enclave) (i : Nat) (heap : Heap) (j : Nat) :
    ((s.setOftable i { s.oftable i with evictionGroupsBySize := heap }).oftable j)
      = { s.oftable j with
          evictionGroupsBySize := if j = i then heap else (s.oftable j).evictionGroupsBySize } := by
  rcases eq_or_ne j i with rfl | hji
  · rw [setOftable_oftable_self, if_pos rfl]
  · rw [setOftable_oftable_ne _ _ hji, if_neg hji]

/-- A new heap by size for table `i`: the other tables do not notice that the nodes of
its groups have changed. -/
theorem EvictionOkBut.sizeHeaps (h : EvictionOkBut x s) (s' : Enclave) {heap : Heap}
    {nodes : EvgId → HeapNode} (hheap : ∀ j, s'.sizeHeap j
      = (if j = i then heap else (s.oftable j).evictionGroupsBySize).state nodes)
    (hother : ∀ j, j ≠ i → ∀ y ∈ s.groups j, nodes y = s.sizeNode y)
    (hgroups : ∀ j, j ≠ i → s'.groups j = s.groups j) (hok : Ok (heap.state nodes))
    (hmem : ∀ y, Mem (heap.state nodes) y ↔ y ∈ s'.groups i) (j : Nat) :
    Ok (s'.sizeHeap j) ∧ ∀ y, Mem (s'.sizeHeap j) y ↔ y ∈ s'.groups j := by
  rw [hheap]
  rcases eq_or_ne j i with rfl | hji
  · rw [if_pos rfl]
    exact ⟨hok, hmem⟩
  · rw [if_neg hji, hgroups j hji]
    exact ⟨(h.sizeOk j).congr fun y hy => hother j hji y ((h.sizeMem j y).mp hy), h.sizeMem j⟩

/-- `sgx_evg_group_resize` to the right size puts a group back in order. -/
theorem sgxEvgGroupResize_ok (h : EvictionOkBut (some g) s) (hg : g ∈ s.groups i) {p : Nat}
    (hpos : 0 < (s.evgRules g).n) (hp : p >>> 16 = min UINT16_MAX (s.evgRules g).n) :
    ∃ s', sgxEvgGroupResize s i p g = some s' ∧ EvictionOk s' ∧ s'.evictGroup = s.evictGroup ∧
      (∀ j, s'.groups j = s.groups j) ∧
      ∀ j, (s'.oftable j).evictionFields = (s.oftable j).evictionFields := by
  obtain ⟨heap, nodes, heq, hch⟩ := heapChangeOvs_ok (h.sizeOk i) ((h.sizeMem i g).mpr hg) p
  let s' : Enclave :=
    { s.setOftable i { s.oftable i with evictionGroupsBySize := heap } with sizeNode := nodes }
  have htbl : ∀ j, s'.oftable j = { s.oftable j with
      evictionGroupsBySize := if j = i then heap else (s.oftable j).evictionGroupsBySize } :=
    setOftable_bySize s i heap
  have hbyId : ∀ j, (s'.oftable j).evictionGroupsById = (s.oftable j).evictionGroupsById := by
    simp [htbl]
  have hgroups : ∀ j, s'.groups j = s.groups j := by simp [Enclave.groups, htbl]
  have hheap := h.sizeHeaps s' (fun j => by rw [Enclave.sizeHeap, htbl]; rfl)
    (fun j hji y hy => hch.other y fun hm => hji (h.disjoint j i y hy ((h.sizeMem i y).mp hm)))
    (fun j _ => hgroups j) hch.ok
    (fun y => by rw [hgroups]; exact (hch.mem y).trans (h.sizeMem i y))
  refine ⟨s', by simp [sgxEvgGroupResize, heq, s'], ?_, rfl, hgroups, by simp [htbl]⟩
  exact
    { ids := fun j => by rw [hbyId]; exact h.ids j
      id := fun j => by rw [hbyId]; exact h.id j
      fresh := fun j => by rw [hgroups]; exact h.fresh j
      disjoint := fun j k => by rw [hgroups, hgroups]; exact h.disjoint j k
      sizeOk := fun j => (hheap j).1
      sizeMem := fun j => (hheap j).2
      rulesOk := fun j => by rw [hgroups]; exact h.rulesOk j
      rulesMem := fun j => by rw [hgroups]; exact h.rulesMem j
      hash := fun j => by rw [hgroups, htbl]; exact h.hash j
      grouped := fun q k hq =>
        ⟨(h.grouped q k hq).1, by simpa only [hgroups] using (h.grouped q k hq).2⟩
      disabled := fun j => by rw [hgroups, htbl]; exact h.disabled j
      nonempty := fun j k hk _ => by
        rcases eq_or_ne k g with rfl | hkg
        · exact hpos
        · exact h.nonempty j k (by rwa [← hgroups]) (by simpa using hkg)
      size := fun j k hk _ => by
        rcases eq_or_ne k g with rfl | hkg
        · exact (congrArg (· >>> 16) hch.priority_self).trans hp
        · exact (congrArg (· >>> 16) (hch.priority k hkg)).trans
            (h.size j k (by rwa [← hgroups]) (by simpa using hkg)) }

/-- Rule `r` joins or leaves group `g`, whose heap of rules is replaced. -/
theorem EvictionOkBut.regroup (h : EvictionOkBut (some g) s) (hg : g ∈ s.groups i)
    {v : Option EvgId} {heap : Heap} {nodes : RuleId → HeapNode}
    (hold : ∀ k, s.evictGroup r = some k → k = g)
    (hnew : ∀ k, v = some k → k = g ∧ r < s.nextRule ∧
      evictionGroupHashRule (s.oftable i) (s.clsRule r) = s.evgId g)
    (hok : Ok (heap.state nodes))
    (hmem : ∀ y, Mem (heap.state nodes) y ↔ Function.update s.evictGroup r v y = some g)
    (hother : ∀ y, y ≠ r → s.evictGroup y ≠ some g → nodes y = s.ruleEvgNode y) :
    EvictionOkBut (some g)
      { s with
        evictGroup := Function.update s.evictGroup r v
        ruleEvgNode := nodes
        evgRules := Function.update s.evgRules g heap } := by
  -- outside of `g` the members are the same
  have hsame : ∀ k, k ≠ g → ∀ y, Function.update s.evictGroup r v y = some k ↔
      s.evictGroup y = some k := by
    intro k hk y
    rcases eq_or_ne y r with rfl | hy
    · rw [Function.update_self]
      exact ⟨fun hv => absurd (hnew k hv).1 hk, fun hv => absurd (hold k hv) hk⟩
    · rw [Function.update_of_ne hy]
  have hheap : ∀ j, ∀ k ∈ s.groups j, k ≠ g → Ok ((s.evgRules k).state nodes) := by
    intro j k hk hkg
    refine (h.rulesOk j k hk).congr fun y hy => ?_
    have hyk := (h.rulesMem j k hk y).mp hy
    refine hother y (fun hyr => hkg (hold k (hyr ▸ hyk))) fun hyg => hkg ?_
    rw [hyk, Option.some.injEq] at hyg
    exact hyg
  refine { h with
    rulesOk := fun j k hk => ?_
    rulesMem := fun j k hk y => ?_
    hash := fun j k hk y hy => ?_
    grouped := fun y k hy => ?_
    nonempty := fun j k hk hkg => ?_
    size := fun j k hk hkg => ?_ }
  · rcases eq_or_ne k g with rfl | hkg
    · simpa [Enclave.rulesHeap] using hok
    · simpa [Enclave.rulesHeap, hkg] using hheap j k hk hkg
  · rcases eq_or_ne k g with rfl | hkg
    · simpa [Enclave.rulesHeap] using hmem y
    · show Mem ((Function.update s.evgRules g heap k).state nodes) y ↔ _
      rw [Function.update_of_ne hkg]
      exact (h.rulesMem j k hk y).trans (hsame k hkg y).symm
  · rcases eq_or_ne k g with rfl | hkg
    · rcases eq_or_ne y r with rfl | hyr
      · have hij := h.disjoint i j k hg hk
        subst hij
        simp only [Function.update_self] at hy
        exact (hnew k hy).2.2
      · simp only [Function.update_of_ne hyr] at hy
        exact h.hash j k hk y hy
    · exact h.hash j k hk y ((hsame k hkg y).mp hy)
  · rcases eq_or_ne y r with rfl | hyr
    · simp only [Function.update_self] at hy
      obtain ⟨rfl, hlt, -⟩ := hnew k hy
      exact ⟨hlt, i, hg⟩
    · simp only [Function.update_of_ne hyr] at hy
      exact h.grouped y k hy
  · have hne : k ≠ g := by simpa using hkg
    simpa [hne] using h.nonempty j k hk hkg
  · have hne : k ≠ g := by simpa using hkg
    simpa [hne] using h.size j k hk hkg

/-- A rule without a group joins group `g`. -/
theorem evgInsertRule_ok (h : EvictionOkBut (some g) s) (hg : g ∈ s.groups i)
    (hr : s.evictGroup r = none) (hlt : r < s.nextRule)
    (hhash : evictionGroupHashRule (s.oftable i) (s.clsRule r) = s.evgId g) (node : HeapNode)
    (p : Nat) : EvictionOkBut (some g) (evgInsertRule s g r node p) ∧
      ((evgInsertRule s g r node p).evgRules g).n = (s.evgRules g).n + 1 := by
  have hnot : ¬ Mem ((s.evgRules g).state (Function.update s.ruleEvgNode r node)) r := by
    intro hm
    have := (h.rulesMem i g hg r).mp hm
    rw [hr] at this
    cases this
  have hok : Ok ((s.evgRules g).state (Function.update s.ruleEvgNode r node)) := by
    refine (h.rulesOk i g hg).congr fun y hy => Function.update_of_ne ?_ _ _
    rintro rfl
    exact hnot hy
  have hins := heapInsertOvs_ok hok hnot p
  constructor
  · refine h.regroup hg (by simp [hr]) (fun k hk => ?_) hins.ok (fun y => ?_) fun y hyr hyg => ?_
    · exact ⟨(Option.some.inj hk).symm, hlt, hhash⟩
    · refine (hins.mem y).trans ?_
      rcases eq_or_ne y r with rfl | hyr
      · simp
      · simp only [hyr, false_or, Function.update_of_ne hyr]
        exact h.rulesMem i g hg y
    · refine (hins.other y hyr fun hm => hyg ((h.rulesMem i g hg y).mp hm)).trans ?_
      exact Function.update_of_ne hyr _ _
  · have : (evgInsertRule s g r node p).evgRules g = (heapInsertOvs (s.evgRules g)
        (Function.update s.ruleEvgNode r node) r p).1 := Function.update_self _ _ _
    rw [this]
    exact hins.n

/-- A rule leaves its group. -/
theorem evgUnlinkRule_ok (h : EvictionOk s) (hg : g ∈ s.groups i) (hr : s.evictGroup r = some g) :
    ∃ s', evgUnlinkRule s g r = some s' ∧ EvictionOkBut (some g) s' ∧
      s'.evictGroup = Function.update s.evictGroup r none ∧ s'.oftable = s.oftable ∧
      s'.clsRules = s.clsRules := by
  have hm := (h.rulesMem i g hg r).mpr hr
  obtain ⟨heap, nodes, heq, hrem⟩ := heapRemoveOvs_ok (h.rulesOk i g hg) hm
  let s' : Enclave :=
    { s with
      evictGroup := Function.update s.evictGroup r none
      ruleEvgNode := nodes
      evgRules := Function.update s.evgRules g heap }
  refine ⟨s', by simp [evgUnlinkRule, heq, s'], ?_, rfl, rfl, rfl⟩
  refine (h.but (some g)).regroup hg (fun k hk => ?_) (by simp) hrem.ok (fun y => ?_)
    fun y hyr hyg => ?_
  · rw [hr, Option.some.injEq] at hk
    exact hk.symm
  · rw [hrem.mem]
    rcases eq_or_ne y r with rfl | hyr
    · simp
    · simp only [ne_eq, hyr, not_false_eq_true, true_and, Function.update_of_ne hyr]
      exact h.rulesMem i g hg y
  · exact hrem.other y fun hmy => hyg ((h.rulesMem i g hg y).mp hmy)

/-- The tables after a step that replaces both collections of groups of table `i`. -/
theorem setOftable_groups (s : Enclave) (i : Nat) (byId : Hmap EvgId) (heap : Heap) (j : Nat) :
    ((s.setOftable i { s.oftable i with
        evictionGroupsById := byId, evictionGroupsBySize := heap }).oftable j)
      = { s.oftable j with
          evictionGroupsById := if j = i then byId else (s.oftable j).evictionGroupsById
          evictionGroupsBySize := if j = i then heap else (s.oftable j).evictionGroupsBySize } := by
  rcases eq_or_ne j i with rfl | hji
  · rw [setOftable_oftable_self, if_pos rfl, if_pos rfl]
  · rw [setOftable_oftable_ne _ _ hji, if_neg hji, if_neg hji]

/-- What `sgx_evg_find` gives: a group with the id, maybe a new one without rules. -/
structure Found (s s' : Enclave) (i : Nat) (id : U32) (g : EvgId) : Prop where
  ok : EvictionOkBut (some g) s'
  mem : g ∈ s'.groups i
  evgId : s'.evgId g = id
  evictGroup : s'.evictGroup = s.evictGroup
  groupedIn : ∀ j q, s'.GroupedIn j q ↔ s.GroupedIn j q
  fields : ∀ j, (s'.oftable j).evictionFields = (s.oftable j).evictionFields
  hash : ∀ j rule, evictionGroupHashRule (s'.oftable j) rule
    = evictionGroupHashRule (s.oftable j) rule

/-- The bridge after `sgx_evg_find` has made a group for table `i`. -/
def newGroup (s : Enclave) (i : Nat) (id : U32) (p : Nat) : Enclave :=
  { s.setOftable i { s.oftable i with
      evictionGroupsById := hmapInsert (s.oftable i).evictionGroupsById s.nextEvg id.toNat
      evictionGroupsBySize :=
        (heapInsertOvs (s.oftable i).evictionGroupsBySize s.sizeNode s.nextEvg p).1 } with
    evgId := Function.update s.evgId s.nextEvg id
    sizeNode := (heapInsertOvs (s.oftable i).evictionGroupsBySize s.sizeNode s.nextEvg p).2
    evgRules := Function.update s.evgRules s.nextEvg heapInitOvs
    nextEvg := s.nextEvg + 1 }

section NewGroup

variable {id : U32} {p : Nat}

theorem newGroup_oftable (j : Nat) : (newGroup s i id p).oftable j = { s.oftable j with
    evictionGroupsById := if j = i
      then hmapInsert (s.oftable i).evictionGroupsById s.nextEvg id.toNat
      else (s.oftable j).evictionGroupsById
    evictionGroupsBySize := if j = i
      then (heapInsertOvs (s.oftable i).evictionGroupsBySize s.sizeNode s.nextEvg p).1
      else (s.oftable j).evictionGroupsBySize } :=
  setOftable_groups s i _ _ j

theorem mem_newGroup_entries {j : Nat} {e : Nat × EvgId} :
    e ∈ ((newGroup s i id p).oftable j).evictionGroupsById.entries ↔
      (j = i ∧ e = (id.toNat, s.nextEvg)) ∨ e ∈ (s.oftable j).evictionGroupsById.entries := by
  rw [newGroup_oftable]
  rcases eq_or_ne j i with rfl | hji
  · simp [(entries_hmapInsert_perm (s.oftable j).evictionGroupsById s.nextEvg id.toNat).mem_iff]
  · simp [hji]

theorem mem_newGroup_groups {j : Nat} {k : EvgId} :
    k ∈ (newGroup s i id p).groups j ↔ (j = i ∧ k = s.nextEvg) ∨ k ∈ s.groups j := by
  rw [mem_groups, mem_groups]
  simp only [mem_newGroup_entries, Prod.mk.injEq]
  constructor
  · rintro ⟨n, ⟨hj, -, hk⟩ | hk⟩
    · exact .inl ⟨hj, hk⟩
    · exact .inr ⟨n, hk⟩
  · rintro (⟨hj, hk⟩ | ⟨n, hk⟩)
    · exact ⟨id.toNat, .inl ⟨hj, rfl, hk⟩⟩
    · exact ⟨n, .inr hk⟩

theorem EvictionOkBut.nextEvg_not_mem (h : EvictionOkBut x s) (j : Nat) : s.nextEvg ∉ s.groups j :=
  fun hj => Nat.lt_irrefl _ (h.fresh j _ hj)

theorem EvictionOkBut.ne_nextEvg (h : EvictionOkBut x s) {j : Nat} {k : EvgId}
    (hk : k ∈ s.groups j) : k ≠ s.nextEvg :=
  ne_of_mem_of_not_mem hk (h.nextEvg_not_mem j)

/-- No rule points to a group that has not been made yet. -/
theorem EvictionOkBut.evictGroup_ne_nextEvg (h : EvictionOkBut x s) (r : RuleId) :
    s.evictGroup r ≠ some s.nextEvg := by
  intro hr
  obtain ⟨-, j, hj⟩ := h.grouped r _ hr
  exact h.nextEvg_not_mem j hj

theorem newGroup_evgRules {k : EvgId} (hk : k ≠ s.nextEvg) :
    (newGroup s i id p).evgRules k = s.evgRules k := Function.update_of_ne hk _ _

theorem newGroup_evgRules_self : (newGroup s i id p).evgRules s.nextEvg = heapInitOvs :=
  Function.update_self _ _ _

theorem newGroup_evgId {k : EvgId} (hk : k ≠ s.nextEvg) :
    (newGroup s i id p).evgId k = s.evgId k := Function.update_of_ne hk _ _

theorem newGroup_evgId_self : (newGroup s i id p).evgId s.nextEvg = id :=
  Function.update_self _ _ _

/-- The heap of rules of a new group is empty. -/
theorem newGroup_rulesHeap_self : Ok ((newGroup s i id p).rulesHeap s.nextEvg) ∧
    ∀ r, ¬ Mem ((newGroup s i id p).rulesHeap s.nextEvg) r := by
  unfold Enclave.rulesHeap
  rw [newGroup_evgRules_self]
  refine ⟨⟨fun n h1 h2 => ?_, fun n h1 h2 => ?_⟩, fun r ⟨n, h1, h2, _⟩ => ?_⟩
  all_goals have : n ≤ 0 := h2
  all_goals omega

theorem newGroup_rulesHeap {k : EvgId} (hk : k ≠ s.nextEvg) :
    (newGroup s i id p).rulesHeap k = s.rulesHeap k := by
  unfold Enclave.rulesHeap
  rw [newGroup_evgRules hk]
  rfl

theorem newGroup_ids (h : EvictionOkBut x s)
    (hnone : ∀ k, (id.toNat, k) ∉ (s.oftable i).evictionGroupsById.entries) (j : Nat) :
    (((newGroup s i id p).oftable j).evictionGroupsById.entries.map Prod.fst).Nodup := by
  rw [newGroup_oftable]
  rcases eq_or_ne j i with rfl | hji
  · have hperm := entries_hmapInsert_perm (s.oftable j).evictionGroupsById s.nextEvg id.toNat
    simp only [if_pos, (hperm.map Prod.fst).nodup_iff, List.map_cons, List.nodup_cons]
    refine ⟨fun hm => ?_, h.ids j⟩
    obtain ⟨e, he, heq⟩ := List.mem_map.mp hm
    exact hnone e.2 (heq ▸ he)
  · simpa [hji] using h.ids j

theorem newGroup_sizeInserted (h : EvictionOkBut x s) (id : U32) :
    IndexedHeap.Inserted (s.sizeHeap i)
      ((heapInsertOvs (s.oftable i).evictionGroupsBySize s.sizeNode s.nextEvg p).1.state
        (newGroup s i id p).sizeNode) s.nextEvg p :=
  heapInsertOvs_ok (h.sizeOk i) (fun hm => h.nextEvg_not_mem i ((h.sizeMem i _).mp hm)) p

theorem newGroup_sizeHeaps (h : EvictionOkBut x s) (j : Nat) :
    Ok ((newGroup s i id p).sizeHeap j) ∧
      ∀ y, Mem ((newGroup s i id p).sizeHeap j) y ↔ y ∈ (newGroup s i id p).groups j := by
  have hins := newGroup_sizeInserted (i := i) (p := p) h id
  refine h.sizeHeaps (i := i) _ (fun j => ?_) (fun j hji y hy => ?_) (fun j hji => ?_) hins.ok
    (fun y => ?_) j
  · rw [Enclave.sizeHeap, newGroup_oftable]
  · exact hins.other y (h.ne_nextEvg hy) fun hm =>
      hji (h.disjoint j i y hy ((h.sizeMem i y).mp hm))
  · simp [Enclave.groups, newGroup_oftable, hji]
  · rw [hins.mem y, h.sizeMem i y, mem_newGroup_groups]
    simp

theorem newGroup_ok (h : EvictionOk s) (hen : (s.oftable i).evictionFields ≠ none)
    (hnone : ∀ k, (id.toNat, k) ∉ (s.oftable i).evictionGroupsById.entries) :
    EvictionOkBut (some s.nextEvg) (newGroup s i id p) where
  ids := newGroup_ids h hnone
  id := by
    intro j e he
    rcases mem_newGroup_entries.mp he with ⟨-, rfl⟩ | he
    · rw [newGroup_evgId_self]
    · rw [newGroup_evgId (h.ne_nextEvg (mem_groups.mpr ⟨e.1, he⟩))]
      exact h.id j e he
  fresh := by
    intro j k hk
    rcases mem_newGroup_groups.mp hk with ⟨-, rfl⟩ | hk
    · exact Nat.lt_succ_self _
    · exact Nat.lt_succ_of_lt (h.fresh j k hk)
  disjoint := by
    intro j l k hj hl
    rcases mem_newGroup_groups.mp hj with ⟨rfl, rfl⟩ | hj
    · rcases mem_newGroup_groups.mp hl with ⟨rfl, -⟩ | hl
      · rfl
      · exact absurd hl (h.nextEvg_not_mem l)
    · rcases mem_newGroup_groups.mp hl with ⟨-, rfl⟩ | hl
      · exact absurd hj (h.nextEvg_not_mem j)
      · exact h.disjoint j l k hj hl
  sizeOk j := (newGroup_sizeHeaps h j).1
  sizeMem j := (newGroup_sizeHeaps h j).2
  rulesOk := by
    intro j k hk
    rcases mem_newGroup_groups.mp hk with ⟨-, rfl⟩ | hk
    · exact newGroup_rulesHeap_self.1
    · rw [newGroup_rulesHeap (h.ne_nextEvg hk)]
      exact h.rulesOk j k hk
  rulesMem := by
    intro j k hk r
    rcases mem_newGroup_groups.mp hk with ⟨-, rfl⟩ | hk
    · exact iff_of_false (newGroup_rulesHeap_self.2 r) (h.evictGroup_ne_nextEvg r)
    · rw [newGroup_rulesHeap (h.ne_nextEvg hk)]
      exact h.rulesMem j k hk r
  hash := by
    intro j k hk r hr
    rcases mem_newGroup_groups.mp hk with ⟨-, rfl⟩ | hk
    · exact absurd hr (h.evictGroup_ne_nextEvg r)
    · rw [newGroup_oftable, newGroup_evgId (h.ne_nextEvg hk)]
      exact h.hash j k hk r hr
  grouped := by
    intro r k hr
    obtain ⟨hlt, j, hj⟩ := h.grouped r k hr
    exact ⟨hlt, j, mem_newGroup_groups.mpr (.inr hj)⟩
  disabled := by
    intro j hj
    rw [newGroup_oftable] at hj
    have hji : j ≠ i := fun hji => hen (hji ▸ hj)
    simpa [Enclave.groups, newGroup_oftable, hji] using h.disabled j hj
  nonempty := by
    intro j k hk hkg
    rcases mem_newGroup_groups.mp hk with ⟨-, rfl⟩ | hk
    · exact absurd rfl hkg
    · rw [newGroup_evgRules (h.ne_nextEvg hk)]
      exact h.nonempty j k hk (by simp)
  size := by
    intro j k hk hkg
    rcases mem_newGroup_groups.mp hk with ⟨-, rfl⟩ | hk
    · exact absurd rfl hkg
    · rw [newGroup_evgRules (h.ne_nextEvg hk), ← h.size j k hk (by simp)]
      exact congrArg (· >>> 16) ((newGroup_sizeInserted h id).priority k (h.ne_nextEvg hk))

end NewGroup

theorem sgxEvgFind_ok (h : EvictionOk s) (hen : (s.oftable i).evictionFields ≠ none) (id : U32)
    (p : Nat) : Found s (sgxEvgFind s i id p).1 i id (sgxEvgFind s i id p).2 := by
  cases hw : ((s.oftable i).evictionGroupsById.withHash id.toNat).head? with
  | some g =>
    have heq : sgxEvgFind s i id p = (s, g) := by simp [sgxEvgFind, hw]
    have he := ChainMap.mem_withHash.mp (List.mem_of_mem_head? (Option.mem_def.mpr hw))
    rw [heq]
    refine ⟨h.but _, mem_groups.mpr ⟨_, he⟩, ?_, rfl, fun _ _ => Iff.rfl, fun _ => rfl,
      fun _ _ => rfl⟩
    exact BitVec.eq_of_toNat_eq (h.id i _ he).symm
  | none =>
    have heq : sgxEvgFind s i id p = (newGroup s i id p, s.nextEvg) := by
      simp [sgxEvgFind, hw, newGroup]
    have hnone : ∀ k, (id.toNat, k) ∉ (s.oftable i).evictionGroupsById.entries := by
      intro k hk
      have := ChainMap.mem_withHash.mpr hk
      rw [List.head?_eq_none_iff.mp hw] at this
      cases this
    rw [heq]
    refine ⟨newGroup_ok h hen hnone, mem_newGroup_groups.mpr (.inl ⟨rfl, rfl⟩),
      newGroup_evgId_self, rfl, fun j q => ⟨?_, ?_⟩, fun j => by rw [newGroup_oftable],
      fun j rule => by rw [newGroup_oftable]; rfl⟩
    · rintro ⟨k, hk, hq⟩
      rcases mem_newGroup_groups.mp hk with ⟨-, rfl⟩ | hk
      · exact absurd hq (h.evictGroup_ne_nextEvg q)
      · exact ⟨k, hk, hq⟩
    · rintro ⟨k, hk, hq⟩
      exact ⟨k, mem_newGroup_groups.mpr (.inr hk), hq⟩

/-! ## Destroying a group -/

theorem popAll_of_mem {n : Nat} {array : Nat → Nat} {q : RuleId} :
    ∀ {groups : RuleId → Option EvgId}, (groups q = none ∨ ∃ k, 1 ≤ k ∧ k ≤ n ∧ array k = q) →
      popAll n array groups q = none := by
  induction n with
  | zero =>
    rintro groups (hq | ⟨k, h1, h2, -⟩)
    · exact hq
    · omega
  | succ n ih =>
    intro groups hq
    refine ih ?_
    rcases eq_or_ne (array (n + 1)) q with hlast | hlast
    · exact .inl (by rw [← hlast, Function.update_self])
    · rcases hq with hq | ⟨k, h1, h2, hk⟩
      · exact .inl (by rw [Function.update_of_ne hlast.symm, hq])
      · have hkn : k ≠ n + 1 := fun hkn => hlast (hkn ▸ hk)
        exact .inr ⟨k, h1, by omega, hk⟩

theorem popAll_of_not_mem {n : Nat} {array : Nat → Nat} {q : RuleId} :
    ∀ {groups : RuleId → Option EvgId}, (¬ ∃ k, 1 ≤ k ∧ k ≤ n ∧ array k = q) →
      popAll n array groups q = groups q := by
  induction n with
  | zero => exact fun _ => rfl
  | succ n ih =>
    intro groups hq
    have hlast : q ≠ array (n + 1) := fun heq => hq ⟨n + 1, by omega, by omega, heq.symm⟩
    exact (ih fun ⟨k, h1, h2, hk⟩ => hq ⟨k, h1, by omega, hk⟩).trans
      (Function.update_of_ne hlast _ _)

/-- Popping the rules of a group clears the group pointer of just these. -/
theorem EvictionOkBut.popAll (h : EvictionOkBut x s) (hg : g ∈ s.groups i) (q : RuleId) :
    OvsSgx.popAll (s.evgRules g).n (s.evgRules g).array s.evictGroup q
      = if s.evictGroup q = some g then none else s.evictGroup q := by
  have hmem := h.rulesMem i g hg q
  split
  · rename_i hq
    exact popAll_of_mem (.inr (hmem.mpr hq))
  · rename_i hq
    exact popAll_of_not_mem fun hm => hq (hmem.mp hm)

/-- What `sgx_evg_destroy` does. -/
structure Destroyed (s s' : Enclave) (g : EvgId) : Prop where
  ok : EvictionOk s'
  groups : ∀ j k, k ∈ s'.groups j ↔ k ∈ s.groups j ∧ k ≠ g
  evictGroup : ∀ q, s'.evictGroup q = if s.evictGroup q = some g then none else s.evictGroup q
  fields : ∀ j, (s'.oftable j).evictionFields = (s.oftable j).evictionFields

theorem Destroyed.evictGroup_iff {s' : Enclave} (h : Destroyed s s' g) {q : RuleId} {k : EvgId} :
    s'.evictGroup q = some k ↔ s.evictGroup q = some k ∧ k ≠ g := by
  rw [h.evictGroup]
  split
  · rename_i hq
    simp only [hq, Option.some.injEq, reduceCtorEq, false_iff, not_and, not_not]
    exact fun heq => heq.symm
  · rename_i hq
    refine ⟨fun hk => ⟨hk, ?_⟩, fun hk => hk.1⟩
    rintro rfl
    exact hq hk

theorem Destroyed.groupedIn {s' : Enclave} (h : Destroyed s s' g) {j : Nat} {q : RuleId} :
    s'.GroupedIn j q ↔ s.GroupedIn j q ∧ s.evictGroup q ≠ some g := by
  constructor
  · rintro ⟨k, hk, hq⟩
    obtain ⟨hq, hkg⟩ := h.evictGroup_iff.mp hq
    refine ⟨⟨k, ((h.groups j k).mp hk).1, hq⟩, fun hg => hkg ?_⟩
    rw [hq, Option.some.injEq] at hg
    exact hg
  · rintro ⟨⟨k, hk, hq⟩, hqg⟩
    have hkg : k ≠ g := fun hkg => hqg (hkg ▸ hq)
    exact ⟨k, (h.groups j k).mpr ⟨hk, hkg⟩, h.evictGroup_iff.mpr ⟨hq, hkg⟩⟩

/-- The bridge without group `g` of table `i`; `heap` and `nodes` are what is left of the
heap by size. -/
def dropGroup (s : Enclave) (i : Nat) (g : EvgId) (heap : Heap) (nodes : EvgId → HeapNode) :
    Enclave :=
  { s.setOftable i { s.oftable i with
      evictionGroupsById := hmapRemove (s.oftable i).evictionGroupsById g (s.evgId g).toNat
      evictionGroupsBySize := heap } with
    evictGroup := OvsSgx.popAll (s.evgRules g).n (s.evgRules g).array s.evictGroup
    evgRules := Function.update s.evgRules g { s.evgRules g with n := 0 }
    sizeNode := nodes }

section DropGroup

variable {heap : Heap} {nodes : EvgId → HeapNode}

theorem dropGroup_oftable (j : Nat) : (dropGroup s i g heap nodes).oftable j = { s.oftable j with
    evictionGroupsById := if j = i
      then hmapRemove (s.oftable i).evictionGroupsById g (s.evgId g).toNat
      else (s.oftable j).evictionGroupsById
    evictionGroupsBySize := if j = i then heap else (s.oftable j).evictionGroupsBySize } :=
  setOftable_groups s i _ _ j

theorem dropGroup_entries (h : EvictionOkBut x s) (hg : g ∈ s.groups i) (j : Nat) :
    ((dropGroup s i g heap nodes).oftable j).evictionGroupsById.entries
      = (s.oftable j).evictionGroupsById.entries.erase ((s.evgId g).toNat, g) := by
  rw [dropGroup_oftable]
  rcases eq_or_ne j i with rfl | hji
  · simp only [if_pos]
    exact ChainMap.entries_erase (h.mem_entries hg)
  · have hnot : ((s.evgId g).toNat, g) ∉ (s.oftable j).evictionGroupsById.entries := fun he =>
      hji (h.disjoint j i g (mem_groups.mpr ⟨_, he⟩) hg)
    simp [hji, List.erase_of_not_mem hnot]

theorem mem_dropGroup_groups (h : EvictionOkBut x s) (hg : g ∈ s.groups i) {j : Nat} {k : EvgId} :
    k ∈ (dropGroup s i g heap nodes).groups j ↔ k ∈ s.groups j ∧ k ≠ g := by
  rw [mem_groups, mem_groups]
  simp only [dropGroup_entries h hg, ((h.ids j).of_map _).mem_erase_iff]
  constructor
  · rintro ⟨n, hne, hn⟩
    refine ⟨⟨n, hn⟩, ?_⟩
    rintro rfl
    have hid := h.id j _ hn
    exact hne (Prod.ext hid rfl)
  · rintro ⟨⟨n, hn⟩, hkg⟩
    exact ⟨n, fun heq => hkg (Prod.mk.inj heq).2, hn⟩

theorem dropGroup_rulesHeap {k : EvgId} (hk : k ≠ g) :
    (dropGroup s i g heap nodes).rulesHeap k = s.rulesHeap k := by
  have : (dropGroup s i g heap nodes).evgRules k = s.evgRules k := Function.update_of_ne hk _ _
  unfold Enclave.rulesHeap
  rw [this]
  rfl

theorem dropGroup_ok (h : EvictionOkBut (some g) s) (hg : g ∈ s.groups i)
    (hrem : IndexedHeap.Removed (s.sizeHeap i) (heap.state nodes) g) :
    Destroyed s (dropGroup s i g heap nodes) g := by
  have hgroups : ∀ {j k}, k ∈ (dropGroup s i g heap nodes).groups j ↔ k ∈ s.groups j ∧ k ≠ g :=
    mem_dropGroup_groups h hg
  have hsub : ∀ j, ∀ e ∈ ((dropGroup s i g heap nodes).oftable j).evictionGroupsById.entries,
      e ∈ (s.oftable j).evictionGroupsById.entries := fun j e he => by
    rw [dropGroup_entries h hg] at he
    exact List.mem_of_mem_erase he
  have hpop : ∀ q, (dropGroup s i g heap nodes).evictGroup q
      = if s.evictGroup q = some g then none else s.evictGroup q := h.popAll hg
  have hiff : ∀ {q k}, k ≠ g → ((dropGroup s i g heap nodes).evictGroup q = some k ↔
      s.evictGroup q = some k) := by
    intro q k hk
    rw [hpop]
    split
    · rename_i hq
      simp [hq, hk.symm]
    · rfl
  have hne : ∀ {q k}, (dropGroup s i g heap nodes).evictGroup q = some k → k ≠ g := by
    intro q k hq hk
    rw [hpop, hk] at hq
    split at hq
    · cases hq
    · rename_i hng
      exact hng hq
  have hheap := h.sizeHeaps (i := i) (dropGroup s i g heap nodes)
    (fun j => by rw [Enclave.sizeHeap, dropGroup_oftable]; rfl)
    (fun j hji y hy => hrem.other y fun hm => hji (h.disjoint j i y hy ((h.sizeMem i y).mp hm)))
    (fun j hji => by simp [Enclave.groups, dropGroup_oftable, hji]) hrem.ok
    (fun y => (hrem.mem y).trans (by rw [h.sizeMem i y, hgroups, and_comm]))
  refine ⟨?_, fun j k => hgroups, hpop, fun j => by rw [dropGroup_oftable]⟩
  exact
    { ids := fun j => by
        rw [dropGroup_entries h hg]
        exact (h.ids j).sublist (List.erase_sublist.map _)
      id := fun j e he => h.id j e (hsub j e he)
      fresh := fun j k hk => h.fresh j k (hgroups.mp hk).1
      disjoint := fun j l k hj hl => h.disjoint j l k (hgroups.mp hj).1 (hgroups.mp hl).1
      sizeOk := fun j => (hheap j).1
      sizeMem := fun j => (hheap j).2
      rulesOk := fun j k hk => by
        rw [dropGroup_rulesHeap (hgroups.mp hk).2]
        exact h.rulesOk j k (hgroups.mp hk).1
      rulesMem := fun j k hk r => by
        rw [dropGroup_rulesHeap (hgroups.mp hk).2, hiff (hgroups.mp hk).2]
        exact h.rulesMem j k (hgroups.mp hk).1 r
      hash := fun j k hk r hr => by
        rw [dropGroup_oftable]
        exact h.hash j k (hgroups.mp hk).1 r ((hiff (hne hr)).mp hr)
      grouped := fun r k hr => by
        obtain ⟨hlt, j, hj⟩ := h.grouped r k ((hiff (hne hr)).mp hr)
        exact ⟨hlt, j, hgroups.mpr ⟨hj, hne hr⟩⟩
      disabled := fun j hj => by
        rw [dropGroup_oftable] at hj
        refine List.eq_nil_iff_forall_not_mem.mpr fun k hk => ?_
        have := (hgroups.mp hk).1
        rw [h.disabled j hj] at this
        cases this
      nonempty := fun j k hk _ => by
        obtain ⟨hk, hkg⟩ := hgroups.mp hk
        have : (dropGroup s i g heap nodes).evgRules k = s.evgRules k :=
          Function.update_of_ne hkg _ _
        rw [this]
        exact h.nonempty j k hk (by simpa using hkg)
      size := fun j k hk _ => by
        obtain ⟨hk, hkg⟩ := hgroups.mp hk
        have : (dropGroup s i g heap nodes).evgRules k = s.evgRules k :=
          Function.update_of_ne hkg _ _
        rw [this, ← h.size j k hk (by simpa using hkg)]
        exact congrArg (· >>> 16) (hrem.priority k) }

end DropGroup

/-- `sgx_evg_destroy` of a group of the table. -/
theorem sgxEvgDestroy_ok (h : EvictionOkBut (some g) s) (hg : g ∈ s.groups i) :
    ∃ s', sgxEvgDestroy s i g = some s' ∧ Destroyed s s' g := by
  obtain ⟨heap, nodes, heq, hrem⟩ := heapRemoveOvs_ok (h.sizeOk i) ((h.sizeMem i g).mpr hg)
  refine ⟨dropGroup s i g heap nodes, ?_, dropGroup_ok h hg hrem⟩
  simp only [sgxEvgDestroy, if_pos (h.mem_entries hg), heq]
  rfl

end Steps

end OvsSgx
