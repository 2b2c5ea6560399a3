/-
OvsSgx.EvictionTheorems — what the eviction ecalls do.

One specification for each ecall, in terms of `GroupedIn`: adding puts one
rule into the groups of its table, removing takes one out, disabling takes
out all rules of the table, and choosing names a rule of the table that is
in a group. Under the invariant each of them returns.
-/
import OvsSgx.EvictionInvariant
import OvsSgx.EnclaveRuns

namespace OvsSgx

open IndexedHeap (Ok Mem)

/-- The effect of an eviction ecall: the rules stay as they are, the groups are in order,
and `G` says which rules are now in the groups of which table. -/
structure Regrouped (s s' : Enclave) (G : Nat → RuleId → Prop) : Prop where
  ok : EvictionOk s'
  same : SameRules s s'
  groupedIn : ∀ j q, s'.GroupedIn j q ↔ G j q

/-- Eviction is enabled for the same tables, on the same fields. -/
def SameFields (s s' : Enclave) : Prop :=
  ∀ j, (s'.oftable j).evictionFields = (s.oftable j).evictionFields

section Ecalls

variable {s : Enclave} {i : Nat} {a : UtAddr} {r : RuleId} {g : EvgId}

theorem EvictionOkBut.nRandom {x : Option EvgId} (h : EvictionOkBut x s) (n : Nat) :
    EvictionOkBut x { s with nRandom := n } :=
  { h with }

theorem isEvictionFieldsEnabled_iff :
    ecallIsEvictionFieldsEnabled s i = true ↔ (s.oftable i).evictionFields ≠ none := by
  rw [ecallIsEvictionFieldsEnabled, Option.isSome_iff_ne_none]

/-- The steps of `ecall_evg_add_rule`. -/
theorem ecallEvgAddRule_eq (hlook : sgxRuleFromUtCr s a = some r)
    (hen : (s.oftable i).evictionFields ≠ none) {p q : Nat} {node : HeapNode} {s1 s2 : Enclave}
    (h1 : sgxEvgFind s i (evictionGroupHashRule (s.oftable i) (s.clsRule r)) p = (s1, g))
    (h2 : evgInsertRule s1 g r node q = s2) :
    ecallEvgAddRule s i a p q node
      = sgxEvgGroupResize { s2 with nRandom := s2.nRandom + 1 } i
          (addPriority (s2.evgRules g).n (s2.random s2.nRandom)) g := by
  have henb : ecallIsEvictionFieldsEnabled s i = true := isEvictionFieldsEnabled_iff.mpr hen
  simp only [ecallEvgAddRule, hlook, henb, h1, h2, randomUint16, heapCountOvs, Option.bind_eq_bind,
    Option.bind_some, Bool.not_true, Bool.false_eq_true, if_false]

/-- `ecall_evg_add_rule` of a rule without a group, to a table with eviction. -/
theorem ecallEvgAddRule_ok (h : EvictionOk s) (hlook : sgxRuleFromUtCr s a = some r)
    (hen : (s.oftable i).evictionFields ≠ none) (hr : s.evictGroup r = none)
    (hlt : r < s.nextRule) (p q : Nat) (node : HeapNode) :
    ∃ s', ecallEvgAddRule s i a p q node = some s' ∧ SameFields s s' ∧
      Regrouped s s' fun j y => s.GroupedIn j y ∨ (j = i ∧ y = r) := by
  have hfound := sgxEvgFind_ok h hen (evictionGroupHashRule (s.oftable i) (s.clsRule r)) p
  have hsame := sgxEvgFind_sameRules s i (evictionGroupHashRule (s.oftable i) (s.clsRule r)) p
  generalize h1 : sgxEvgFind s i (evictionGroupHashRule (s.oftable i) (s.clsRule r)) p = sg
    at hfound hsame
  obtain ⟨s1, g⟩ := sg
  dsimp only at hfound hsame
  have hr1 : s1.evictGroup r = none := by rw [hfound.evictGroup, hr]
  have hhash : evictionGroupHashRule (s1.oftable i) (s1.clsRule r) = s1.evgId g := by
    rw [hfound.hash, hfound.evgId, hsame.clsRule]
  obtain ⟨hok2, hn2⟩ := evgInsertRule_ok hfound.ok hfound.mem hr1 (by rwa [hsame.nextRule])
    hhash node q
  have hev2 : (evgInsertRule s1 g r node q).evictGroup
      = Function.update s1.evictGroup r (some g) := rfl
  have hgroups2 : ∀ j, (evgInsertRule s1 g r node q).groups j = s1.groups j := fun _ => rfl
  have hfields2 : SameFields s1 (evgInsertRule s1 g r node q) := fun _ => rfl
  generalize h2 : evgInsertRule s1 g r node q = s2 at hok2 hn2 hev2 hgroups2 hfields2
  obtain ⟨s', hs', hok', hgroup', hgroups', hfields'⟩ :=
    sgxEvgGroupResize_ok (hok2.nRandom (s2.nRandom + 1))
      (show g ∈ s2.groups i by rw [hgroups2]; exact hfound.mem)
      (show 0 < (s2.evgRules g).n by rw [hn2]; omega)
      (addPriority_shiftRight (s2.evgRules g).n (s2.random s2.nRandom))
  have hcall : ecallEvgAddRule s i a p q node = some s' :=
    (ecallEvgAddRule_eq hlook hen h1 h2).trans hs'
  refine ⟨s', hcall, fun j => ((hfields' j).trans (hfields2 j)).trans (hfound.fields j),
    hok', ecallEvgAddRule_sameRules hcall, fun j y => ?_⟩
  have hev : s'.evictGroup = Function.update s.evictGroup r (some g) := by
    rw [hgroup', ← hfound.evictGroup]
    exact hev2
  have hgr : ∀ k, k ∈ s'.groups j ↔ k ∈ s1.groups j := fun k => by
    rw [hgroups' j, ← hgroups2]
    rfl
  rw [← hfound.groupedIn]
  unfold Enclave.GroupedIn
  simp only [hgr, hev, hfound.evictGroup]
  rcases eq_or_ne y r with rfl | hy
  · simp only [Function.update_self, Option.some.injEq, hr, reduceCtorEq, and_false, exists_false,
      false_or, and_true]
    constructor
    · rintro ⟨k, hk, rfl⟩
      exact hfound.ok.disjoint j i _ hk hfound.mem
    · rintro rfl
      exact ⟨g, hfound.mem, rfl⟩
  · simp [hy]

/-- `ecall_evg_remove_rule` of a rule whose group, if any, is one of the table. -/
theorem ecallEvgRemoveRule_ok (h : EvictionOk s) (hlook : sgxRuleFromUtCr s a = some r)
    (hr : ∀ k, s.evictGroup r = some k → k ∈ s.groups i) :
    ∃ s', ecallEvgRemoveRule s i a = some s' ∧ SameFields s s' ∧
      Regrouped s s' fun j y => s.GroupedIn j y ∧ y ≠ r := by
  cases hg : s.evictGroup r with
  | none =>
    have hcall : ecallEvgRemoveRule s i a = some s := by simp [ecallEvgRemoveRule, hlook, hg]
    refine ⟨s, hcall, fun _ => rfl, h, SameRules.refl s, fun j y => ⟨fun hy => ⟨hy, ?_⟩, And.left⟩⟩
    rintro rfl
    obtain ⟨k, -, hk⟩ := hy
    rw [hg] at hk
    cases hk
  | some g =>
    have hmem := hr g hg
    obtain ⟨s1, hs1, hok1, hev1, htbl1, -⟩ := evgUnlinkRule_ok h hmem hg
    have hgroups1 : ∀ j, s1.groups j = s.groups j := fun j => by simp [Enclave.groups, htbl1]
    have hmem1 : g ∈ s1.groups i := by rw [hgroups1]; exact hmem
    have hgrouped1 : ∀ j y, s1.GroupedIn j y ↔ s.GroupedIn j y ∧ y ≠ r := by
      intro j y
      unfold Enclave.GroupedIn
      simp only [hgroups1, hev1]
      rcases eq_or_ne y r with rfl | hy
      · simp
      · simp [hy]
    by_cases hn : (s1.evgRules g).n = 0
    · obtain ⟨s', hs', hdes⟩ := sgxEvgDestroy_ok hok1 hmem1
      have hcall : ecallEvgRemoveRule s i a = some s' := by
        simp [ecallEvgRemoveRule, hlook, hg, hs1, heapCountOvs, hn, hs']
      refine ⟨s', hcall, fun j => (hdes.fields j).trans (by rw [htbl1]), hdes.ok,
        ecallEvgRemoveRule_sameRules hcall, fun j y => ?_⟩
      rw [hdes.groupedIn, hgrouped1, and_iff_left]
      -- an empty group has no members
      intro hy
      obtain ⟨k, h1, h2, -⟩ := (hok1.rulesMem i g hmem1 y).mpr hy
      have : k ≤ (s1.evgRules g).n := h2
      omega
    · obtain ⟨s', hs', hok', hev', hgroups', hfields'⟩ :=
        sgxEvgGroupResize_ok (hok1.nRandom (s1.nRandom + 1)) hmem1 (Nat.pos_of_ne_zero hn)
          (addPriority_shiftRight (s1.evgRules g).n (s1.random s1.nRandom))
      have hcall : ecallEvgRemoveRule s i a = some s' := by
        simp only [ecallEvgRemoveRule, hlook, hg, hs1, heapCountOvs, if_neg hn, randomUint16,
          removePriority_eq, Option.bind_eq_bind, Option.bind_some]
        exact hs'
      refine ⟨s', hcall, fun j => (hfields' j).trans (congrArg _ (congrFun htbl1 j)), hok',
        ecallEvgRemoveRule_sameRules hcall, fun j y => ?_⟩
      rw [← hgrouped1]
      unfold Enclave.GroupedIn
      rw [hgroups', hev']
      rfl

/-- `ecall_choose_rule_to_evict` finds nothing exactly if no rule in the groups of the
table is evictable. -/
theorem ecallChooseRuleToEvict_eq_none (h : EvictionOk s)
    (hen : (s.oftable i).evictionFields ≠ none) :
    ecallChooseRuleToEvict s i = none ↔ ∀ r, s.GroupedIn i r → s.evictable r = false := by
  have henb : ecallIsEvictionFieldsEnabled s i = true := isEvictionFieldsEnabled_iff.mpr hen
  simp only [ecallChooseRuleToEvict, henb, Bool.not_true, Bool.false_eq_true, if_false,
    Option.map_eq_none_iff, List.findSome?_eq_none_iff, List.find?_eq_none, Bool.not_eq_true]
  constructor
  · rintro hall r ⟨g, hg, hr⟩
    exact hall g ((mem_heapForEach (h.sizeOk i).idx).mpr ((h.sizeMem i g).mpr hg)) r
      ((mem_heapForEach (h.rulesOk i g hg).idx).mpr ((h.rulesMem i g hg r).mpr hr))
  · intro hall g hg r hr
    have hg := (h.sizeMem i g).mp ((mem_heapForEach (h.sizeOk i).idx).mp hg)
    have hr := (h.rulesMem i g hg r).mp ((mem_heapForEach (h.rulesOk i g hg).idx).mp hr)
    exact hall r ⟨g, hg, hr⟩

/-- What `ecall_choose_rule_to_evict` finds is in a group of the table and evictable. -/
theorem ecallChooseRuleToEvict_some (h : EvictionOk s) (hs : ecallChooseRuleToEvict s i = some a) :
    ∃ r, s.oClsRule r = a ∧ s.GroupedIn i r ∧ s.evictable r = true := by
  unfold ecallChooseRuleToEvict at hs
  split at hs
  · cases hs
  · obtain ⟨r, hr, rfl⟩ := Option.map_eq_some_iff.mp hs
    obtain ⟨g, hg, hr⟩ := List.exists_of_findSome?_eq_some hr
    have hg := (h.sizeMem i g).mp ((mem_heapForEach (h.sizeOk i).idx).mp hg)
    have hmem := (mem_heapForEach (h.rulesOk i g hg).idx).mp (List.mem_of_find?_eq_some hr)
    exact ⟨r, rfl, ⟨g, hg, (h.rulesMem i g hg r).mp hmem⟩, by simpa using List.find?_some hr⟩

/-! ## Enabling and disabling -/

/-- The loop of `ecall_oftable_disable_eviction`. -/
theorem foldlM_sgxEvgDestroy_ok {l : List EvgId} : ∀ {s : Enclave}, EvictionOk s →
    (∀ g ∈ l, g ∈ s.groups i) → l.Nodup →
    ∃ s', l.foldlM (fun s g => sgxEvgDestroy s i g) s = some s' ∧ EvictionOk s' ∧
      SameFields s s' ∧ (∀ j k, k ∈ s'.groups j ↔ k ∈ s.groups j ∧ k ∉ l) ∧
      ∀ q k, s'.evictGroup q = some k ↔ s.evictGroup q = some k ∧ k ∉ l := by
  induction l with
  | nil => exact fun {s} h _ _ => ⟨s, rfl, h, fun _ => rfl, by simp, by simp⟩
  | cons g l ih =>
    intro s h hmem hnodup
    obtain ⟨hgl, hnodup⟩ := List.nodup_cons.mp hnodup
    obtain ⟨s1, hs1, hdes⟩ := sgxEvgDestroy_ok (h.but (some g)) (hmem g (List.mem_cons_self ..))
    have hmem1 : ∀ k ∈ l, k ∈ s1.groups i := fun k hk =>
      (hdes.groups i k).mpr ⟨hmem k (List.mem_cons_of_mem _ hk), ne_of_mem_of_not_mem hk hgl⟩
    obtain ⟨s', hs', hok, hfields, hgroups, hev⟩ := ih hdes.ok hmem1 hnodup
    refine ⟨s', ?_, hok, fun j => (hfields j).trans (hdes.fields j), fun j k => ?_, fun q k => ?_⟩
    · rw [List.foldlM_cons, hs1]
      exact hs'
    · rw [hgroups, hdes.groups]
      simp [and_assoc]
    · rw [hev, hdes.evictGroup_iff]
      simp [and_assoc]

/-- A table without groups can be set up anew. -/
theorem resetTable_ok (h : EvictionOk s) (hempty : s.groups i = []) (tbl : Oftable)
    (hid : tbl.evictionGroupsById.entries = []) (hheap : tbl.evictionGroupsBySize.n = 0) :
    EvictionOk (s.setOftable i tbl) ∧
      ∀ j q, (s.setOftable i tbl).GroupedIn j q ↔ s.GroupedIn j q := by
  let s' := s.setOftable i tbl
  have hself : s'.oftable i = tbl := setOftable_oftable_self s i tbl
  have hother : ∀ {j}, j ≠ i → s'.oftable j = s.oftable j := fun hji =>
    setOftable_oftable_ne s tbl hji
  have hgroups : ∀ j, s'.groups j = s.groups j := by
    intro j
    rcases eq_or_ne j i with rfl | hji
    · rw [hempty, Enclave.groups, hself, ChainMap.values, hid]
      rfl
    · rw [Enclave.groups, hother hji]
      rfl
  have hmem : ∀ j k, k ∈ s.groups j → j ≠ i := by
    rintro j k hk rfl
    rw [hempty] at hk
    cases hk
  refine ⟨?_, fun j q => by simp only [Enclave.GroupedIn]; rw [hgroups]; rfl⟩
  refine
    { ids := fun j => ?_
      id := fun j e he => ?_
      fresh := fun j => by rw [hgroups]; exact h.fresh j
      disjoint := fun j l => by rw [hgroups, hgroups]; exact h.disjoint j l
      sizeOk := fun j => ?_
      sizeMem := fun j y => ?_
      rulesOk := fun j => by rw [hgroups]; exact h.rulesOk j
      rulesMem := fun j => by rw [hgroups]; exact h.rulesMem j
      hash := fun j k hk q hq => ?_
      grouped := fun q k hq => ?_
      disabled := fun j hj => ?_
      nonempty := fun j => by rw [hgroups]; exact h.nonempty j
      size := fun j => by rw [hgroups]; exact h.size j }
  · rcases eq_or_ne j i with rfl | hji
    · rw [hself, hid]
      exact List.nodup_nil
    · rw [hother hji]
      exact h.ids j
  · rcases eq_or_ne j i with rfl | hji
    · rw [hself, hid] at he
      cases he
    · rw [hother hji] at he
      exact h.id j e he
  · rcases eq_or_ne j i with rfl | hji
    · have hn : (s'.sizeHeap j).n = 0 := by rw [Enclave.sizeHeap, hself]; exact hheap
      refine ⟨fun n h1 h2 => ?_, fun n h1 h2 => ?_⟩
      all_goals rw [hn] at h2
      all_goals omega
    · have := h.sizeOk j
      rw [Enclave.sizeHeap, ← hother hji] at this
      exact this
  · rw [hgroups]
    rcases eq_or_ne j i with rfl | hji
    · have hn : (s'.sizeHeap j).n = 0 := by rw [Enclave.sizeHeap, hself]; exact hheap
      rw [hempty]
      refine iff_of_false ?_ (by simp)
      rintro ⟨n, h1, h2, -⟩
      rw [hn] at h2
      omega
    · have := h.sizeMem j y
      rw [Enclave.sizeHeap, ← hother hji] at this
      exact this
  · rw [hgroups] at hk
    rw [hother (hmem j k hk)]
    exact h.hash j k hk q hq
  · obtain ⟨hlt, j, hj⟩ := h.grouped q k hq
    exact ⟨hlt, j, by rw [hgroups]; exact hj⟩
  · rw [hgroups]
    rcases eq_or_ne j i with rfl | hji
    · exact hempty
    · rw [hother hji] at hj
      exact h.disabled j hj

theorem EvictionOk.empty_of_groups (h : EvictionOk s) (hempty : s.groups i = []) :
    (s.oftable i).evictionGroupsById.entries = [] ∧ (s.oftable i).evictionGroupsBySize.n = 0 := by
  refine ⟨List.map_eq_nil_iff.mp hempty, ?_⟩
  by_contra hn
  have := (h.sizeMem i _).mp ⟨1, le_refl _, Nat.pos_of_ne_zero hn, rfl⟩
  rw [hempty] at this
  cases this

/-- `ecall_oftable_disable_eviction`: no rule is in a group of the table any more. -/
theorem ecallOftableDisableEviction_ok (h : EvictionOk s) :
    ∃ s', ecallOftableDisableEviction s i = some s' ∧
      (∀ j, (s'.oftable j).evictionFields
        = if j = i then none else (s.oftable j).evictionFields) ∧
      s'.groups i = [] ∧ Regrouped s s' fun j y => s.GroupedIn j y ∧ j ≠ i := by
  cases hf : (s.oftable i).evictionFields with
  | none =>
    have hcall : ecallOftableDisableEviction s i = some s := by
      simp [ecallOftableDisableEviction, ecallIsEvictionFieldsEnabled, hf]
    have hempty := h.disabled i hf
    refine ⟨s, hcall, fun j => ?_, hempty, h, SameRules.refl s, fun j y => ⟨fun hy => ⟨hy, ?_⟩,
      And.left⟩⟩
    · split
      · rename_i hji
        rw [hji, hf]
      · rfl
    · rintro rfl
      obtain ⟨k, hk, -⟩ := hy
      rw [hempty] at hk
      cases hk
  | some fields =>
    obtain ⟨s1, hs1, hok1, hfields1, hgroups1, hev1⟩ :=
      foldlM_sgxEvgDestroy_ok h (fun g hg => hg) (h.groups_nodup i)
    have hempty1 : s1.groups i = [] := List.eq_nil_iff_forall_not_mem.mpr fun k hk =>
      ((hgroups1 i k).mp hk).2 ((hgroups1 i k).mp hk).1
    obtain ⟨hid, hheap⟩ := hok1.empty_of_groups hempty1
    let tbl : Oftable := { s1.oftable i with evictionFields := none }
    obtain ⟨hok', hgrouped'⟩ := resetTable_ok hok1 hempty1 tbl hid hheap
    have hcall : ecallOftableDisableEviction s i = some (s1.setOftable i tbl) := by
      have hs1' : (s.oftable i).evictionGroupsById.values.foldlM
          (fun s g => sgxEvgDestroy s i g) s = some s1 := hs1
      simp [ecallOftableDisableEviction, ecallIsEvictionFieldsEnabled, hf, hs1', tbl]
    refine ⟨_, hcall, fun j => ?_, ?_, hok', ecallOftableDisableEviction_sameRules hcall,
      fun j y => ?_⟩
    · split
      · rename_i hji
        rw [hji, setOftable_oftable_self]
      · rename_i hji
        rw [setOftable_oftable_ne _ _ hji]
        exact hfields1 j
    · rw [Enclave.groups, setOftable_oftable_self]
      exact hempty1
    · rw [hgrouped']
      unfold Enclave.GroupedIn
      simp only [hgroups1, hev1]
      constructor
      · rintro ⟨k, ⟨hk, hki⟩, hq, -⟩
        refine ⟨⟨k, hk, hq⟩, ?_⟩
        rintro rfl
        exact hki hk
      · rintro ⟨⟨k, hk, hq⟩, hji⟩
        have hki : k ∉ s.groups i := fun hki => hji (h.disjoint j i k hk hki)
        exact ⟨k, ⟨hk, hki⟩, hq, hki⟩

/-- `ecall_oftable_enable_eviction`: nothing changes for the same fields, otherwise the
table starts without groups. -/
theorem ecallOftableEnableEviction_ok (h : EvictionOk s) (fields : List MfSubfield) (v : U32) :
    ∃ s' b, ecallOftableEnableEviction s i fields v = some (s', b) ∧
      Regrouped s s' fun j y => s.GroupedIn j y ∧ (b = true ∨ j ≠ i) := by
  by_cases hsame : (s.oftable i).evictionFields = some fields
  · refine ⟨s, true, by simp [ecallOftableEnableEviction, hsame], h, SameRules.refl s, by simp⟩
  · obtain ⟨s1, hs1, -, hempty1, hre⟩ := ecallOftableDisableEviction_ok (i := i) h
    let tbl : Oftable := { s1.oftable i with
      evictionFields := some fields
      evictionGroupIdBasis := v
      evictionGroupsById := hmapInit
      evictionGroupsBySize := heapInitOvs }
    obtain ⟨hok', hgrouped'⟩ := resetTable_ok hre.ok hempty1 tbl entries_hmapInit rfl
    have hcall : ecallOftableEnableEviction s i fields v = some (s1.setOftable i tbl, false) := by
      simp [ecallOftableEnableEviction, hsame, hs1, tbl]
    refine ⟨_, false, hcall, hok', ecallOftableEnableEviction_sameRules hcall, fun j y => ?_⟩
    rw [hgrouped', hre.groupedIn]
    simp

end Ecalls

end OvsSgx
