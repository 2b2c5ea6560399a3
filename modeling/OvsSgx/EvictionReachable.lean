/-
OvsSgx.EvictionReachable — the eviction groups in every reachable state.

The runs here are those of the optimized build: rules come into a table by
`ecall_add_flow` and leave it together with their eviction group. A rule is
put into a group by hand only if it is installed, has none, and its table
has eviction enabled, and it is taken out of its group with the number of
the table that the group belongs to. In all states that such runs lead to,
the groups of every table are in order: `GroupsOk`. With the number of
another table `ecall_evg_remove_rule` changes the heap of that table in
place of its own, and the order is lost.
-/
import OvsSgx.AddFlowTheorems
import OvsSgx.OfprotoEvictTheorems
import OvsSgx.OftableTheorems

namespace OvsSgx

open IndexedHeap (Ok Mem)

/-! ## Runs -/

/-- What the caller promises in a run with eviction. The two ecalls of the plain build
that touch a classifier alone do not occur. -/
def GroupsAllowed (s : Enclave) : Call → Prop
  | .clsRuleInit a _ _ => s.NewAddr a
  | .clsRuleDestroy a => s.Live a ∧ ∀ i, ¬ s.Installed i a
  | .oftableClassifierReplace _ _ => False
  | .clsRemove _ _ => False
  | .addFlow args => s.NewAddr args.cr
  | .deleteFlows l => s.AllInstalled l
  | .oftableRemoveRules l => s.AllInstalled l
  | .evgAddRule i a _ _ _ => s.Installed i a ∧ ecallIsEvictionFieldsEnabled s i = true ∧
      ∀ r, sgxRuleFromUtCr s a = some r → s.evictGroup r = none
  | .evgRemoveRule i a => ∀ r g, sgxRuleFromUtCr s a = some r → s.evictGroup r = some g →
      g ∈ s.groups i
  | _ => True

/-- The states of a bridge that runs with eviction lead to. -/
inductive GroupsReachable : Enclave → Prop where
  | init (nTables : Nat) (random : Nat → BitVec 16) :
      GroupsReachable (ecallOfprotoInitTables nTables random)
  | step {s s' : Enclave} (c : Call) :
      GroupsReachable s → GroupsAllowed s c → exec s c = some s' → GroupsReachable s'

theorem GroupsReachable.after {s : Enclave} (h : GroupsReachable s) {c : Call}
    (hc : GroupsAllowed s c) : GroupsReachable (s.after c) := by
  unfold Enclave.after
  cases hs : exec s c with
  | none => exact h
  | some s' => exact h.step c hc hs

/-! ## The invariant along a run -/

section Step

variable {P : Match → Prop} {s s' : Enclave}

theorem ecallOfprotoInitTables_bridge (P : Match → Prop) (nTables : Nat)
    (random : Nat → BitVec 16) : BridgeOk P (ecallOfprotoInitTables nTables random) := by
  have hno : ∀ i g, g ∉ (ecallOfprotoInitTables nTables random).groups i := by
    simp [Enclave.groups, ecallOfprotoInitTables, oftableInit, ChainMap.values, hmapInit]
  have hempty : ∀ i, ((ecallOfprotoInitTables nTables random).sizeHeap i).n = 0 := fun _ => rfl
  have hnone : ∀ r, (ecallOfprotoInitTables nTables random).evictGroup r = none := fun _ => rfl
  refine ⟨ecallOfprotoInitTables_ok P nTables random, ?_, fun i r hr => ?_, fun r hr => ?_⟩
  · exact
      { ids := fun i => by simp [ecallOfprotoInitTables, oftableInit, hmapInit]
        id := fun i e he => absurd he (by simp [ecallOfprotoInitTables, oftableInit, hmapInit])
        fresh := fun i g hg => absurd hg (hno i g)
        disjoint := fun i j g hg => absurd hg (hno i g)
        sizeOk := fun i => ⟨fun k h1 h2 => absurd h2 (by rw [hempty]; omega),
          fun k h1 h2 => absurd h2 (by rw [hempty]; omega)⟩
        sizeMem := fun i g => iff_of_false (by
          rintro ⟨k, h1, h2, -⟩
          rw [hempty] at h2
          omega) (hno i g)
        rulesOk := fun i g hg => absurd hg (hno i g)
        rulesMem := fun i g hg => absurd hg (hno i g)
        hash := fun i g hg => absurd hg (hno i g)
        grouped := fun r g hr => absurd hr (by simp [hnone])
        disabled := fun i _ => List.eq_nil_iff_forall_not_mem.mpr (hno i)
        nonempty := fun i g hg => absurd hg (hno i g)
        size := fun i g hg => absurd hg (hno i g) }
  · obtain ⟨g, hg, -⟩ := hr
    exact absurd hg (hno i g)
  · exact absurd hr (by simp [Enclave.LiveRule, ChainMap.values, ecallOfprotoInitTables, hmapInit])

/-- `ecall_evg_remove_rule` for the table of the rule's group. -/
theorem ecallEvgRemoveRule_bridge (h : BridgeOk P s) {i : Nat} {a : UtAddr}
    (hown : ∀ r g, sgxRuleFromUtCr s a = some r → s.evictGroup r = some g → g ∈ s.groups i)
    (hs : ecallEvgRemoveRule s i a = some s') : BridgeOk P s' := by
  cases hlook : sgxRuleFromUtCr s a with
  | none => simp [ecallEvgRemoveRule, hlook] at hs
  | some r =>
    obtain ⟨s1, h1, -, hre⟩ := ecallEvgRemoveRule_ok h.eviction hlook (hown r · hlook)
    rw [hs, Option.some.injEq] at h1
    subst h1
    exact hre.bridge h fun j q hq => h.installed j q hq.1

/-- Changing only the limit or the flags of a table keeps the invariant. -/
theorem setOftable_bridge (h : BridgeOk P s) {i : Nat} {tbl : Oftable}
    (hcls : tbl.cls = (s.oftable i).cls) (hgroups : SameGroups s (s.setOftable i tbl)) :
    BridgeOk P (s.setOftable i tbl) := by
  have hok := sameClassifiers_ok h.toEnclaveOk i hcls
  refine ⟨hok, hgroups.ok h.eviction, fun j q hq => ?_, h.allEvictable⟩
  have hmem := h.installed j q ((hgroups.groupedIn j q).mp hq)
  rcases eq_or_ne j i with rfl | hji
  · rw [Enclave.rules, setOftable_oftable_self, hcls]
    exact hmem
  · rw [Enclave.rules, setOftable_oftable_ne _ _ hji]
    exact hmem

/-- One allowed call keeps the invariant. -/
theorem exec_bridge {c : Call} (h : BridgeOk (fun _ => True) s) (hc : GroupsAllowed s c)
    (hs : exec s c = some s') : BridgeOk (fun _ => True) s' := by
  cases c with
  | clsRuleInit a m p =>
    cases hs
    exact ecallClsRuleInit_bridge h hc trivial p
  | clsRuleDestroy a =>
    obtain ⟨⟨r, hr, rfl⟩, hnot⟩ := hc
    simp only [exec, ecallClsRuleDestroy_eq h.shadows hr, Option.some.injEq] at hs
    rw [← hs]
    exact destroy_bridge h hr (not_mem_rules hr rfl hnot)
  | oftableClassifierReplace i a => exact hc.elim
  | clsRemove i a => exact hc.elim
  | addFlow args =>
    obtain ⟨⟨s1, out⟩, h1, rfl⟩ := Option.map_eq_some_iff.mp hs
    exact ecallAddFlow_bridge h hc trivial h1
  | deleteFlows l =>
    obtain ⟨s1, d, T, h1, hcl, -⟩ := ecallDeleteFlows_bridge h hc
    simp only [exec, h1, Option.map_some, Option.some.injEq] at hs
    exact hs ▸ hcl.ok
  | oftableRemoveRules l =>
    obtain ⟨s1, T, h1, hdes, -⟩ := ecallOftableRemoveRules_bridge h hc
    simp only [exec, h1, Option.map_some, Option.some.injEq] at hs
    exact hs ▸ hdes.ok
  | ofprotoFlush bufSize =>
    obtain ⟨f, h1, rfl⟩ := Option.map_eq_some_iff.mp hs
    obtain ⟨f', T, h2, hcl⟩ := foldlM_flushTable_bridge (f := ⟨s, [], 0⟩) h
    rw [ecallOfprotoFlush, h2, Option.some.injEq] at h1
    exact h1 ▸ hcl.ok
  | evgAddRule i a p q node =>
    obtain ⟨ha, hen, hfree⟩ := hc
    obtain ⟨r, hlook, -, hlive, hr⟩ := ha.lookup h.shadows
    obtain ⟨s1, h1, -, hre⟩ := ecallEvgAddRule_ok h.eviction hlook
      (isEvictionFieldsEnabled_iff.mp hen) (hfree r hlook) (h.shadows.rule_lt hlive) p q node
    simp only [exec, h1, Option.some.injEq] at hs
    subst hs
    refine hre.bridge h fun j y hy => ?_
    rcases hy with hy | ⟨rfl, rfl⟩
    · exact h.installed j y hy
    · exact hr
  | evgRemoveRule i a => exact ecallEvgRemoveRule_bridge h hc hs
  | oftableEnableEviction i fields v =>
    obtain ⟨s1, b, h1, hre⟩ := ecallOftableEnableEviction_ok (i := i) h.eviction fields v
    simp only [exec, h1, Option.map_some, Option.some.injEq] at hs
    subst hs
    exact hre.bridge h fun j q hq => h.installed j q hq.1
  | oftableDisableEviction i =>
    obtain ⟨s1, h1, -, -, hre⟩ := ecallOftableDisableEviction_ok (i := i) h.eviction
    simp only [exec, h1, Option.some.injEq] at hs
    subst hs
    exact hre.bridge h fun j q hq => h.installed j q hq.1
  | ofprotoEvict n start bufSize =>
    obtain ⟨res, h1, rfl⟩ := Option.map_eq_some_iff.mp hs
    rcases ecallOfprotoEvict_spec h n start bufSize with ⟨hnone, -⟩ | ⟨s1, out, T, h2, hok, -⟩
    · rw [hnone] at h1
      cases h1
    · rw [h2, Option.some.injEq] at h1
      exact h1 ▸ hok
  | oftableMflowsSet i v =>
    cases hs
    exact setOftable_bridge h rfl (sameGroups_setOftable s i _ rfl rfl rfl rfl)
  | oftableSetReadonly i =>
    cases hs
    exact setOftable_bridge h rfl (sameGroups_setOftable s i _ rfl rfl rfl rfl)

theorem GroupsReachable.bridge (h : GroupsReachable s) : BridgeOk (fun _ => True) s := by
  induction h with
  | init nTables random => exact ecallOfprotoInitTables_bridge _ nTables random
  | step c _ hc hs ih => exact exec_bridge ih hc hs

end Step

/-! ## The groups of a reachable bridge -/

/-- The eviction groups of a bridge: which rules they hold, how they are kept by id and by
size, and that both kinds of heap are heaps. -/
structure GroupsOk (s : Enclave) : Prop where
  /-- A rule with a group is installed in the table of that group, eviction is enabled
  there, and the rule is on the heap of no other group of any table. -/
  member : ∀ r g, s.evictGroup r = some g → ∃ i, (s.oftable i).evictionFields ≠ none ∧
    g ∈ s.groups i ∧ r ∈ s.rules i ∧
    ∀ j, ∀ k ∈ s.groups j, Mem (s.rulesHeap k) r ↔ k = g
  /-- The heap of a group holds each installed rule that points to it once, and no other. -/
  rules : ∀ i, ∀ g ∈ s.groups i, (heapForEach (s.evgRules g) s.ruleEvgNode).Perm
    ((s.rules i).filter fun r => s.evictGroup r = some g)
  nonempty : ∀ i, ∀ g ∈ s.groups i, ∃ r ∈ s.rules i, s.evictGroup r = some g
  byId : ∀ i, (s.groups i).Nodup
  bySize : ∀ i, (heapForEach (s.oftable i).evictionGroupsBySize s.sizeNode).Perm (s.groups i)
  share : ∀ i, ∀ r ∈ s.rules i, ∀ q ∈ s.rules i, ∀ g k, s.evictGroup r = some g →
    s.evictGroup q = some k → (g = k ↔ evictionGroupHashRule (s.oftable i) (s.clsRule r)
      = evictionGroupHashRule (s.oftable i) (s.clsRule q))
  size : ∀ i, ∀ g ∈ s.groups i, (s.sizeNode g).priority >>> 16
    = min 65535 ((s.rules i).countP fun r => s.evictGroup r = some g)
  sizeHeap : ∀ i, Ok (s.sizeHeap i)
  rulesHeap : ∀ i, ∀ g ∈ s.groups i, Ok (s.rulesHeap g)
  disabled : ∀ i, (s.oftable i).evictionFields = none →
    s.groups i = [] ∧ ∀ r ∈ s.rules i, s.evictGroup r = none

section Groups

variable {P : Match → Prop} {s : Enclave} {i : Nat} {g : EvgId}

theorem heapForEach_nodup {h : Heap} {nodes : Nat → HeapNode}
    (hidx : IndexedHeap.Idx (h.state nodes)) : (heapForEach h nodes).Nodup :=
  IndexedHeap.forEach_nodup hidx

/-- The heap of a group, as a list. -/
theorem BridgeOk.rules_perm (h : BridgeOk P s) (hg : g ∈ s.groups i) :
    (heapForEach (s.evgRules g) s.ruleEvgNode).Perm
      ((s.rules i).filter fun r => s.evictGroup r = some g) := by
  have hidx := (h.eviction.rulesOk i g hg).idx
  refine (List.perm_ext_iff_of_nodup (heapForEach_nodup hidx)
    ((h.toEnclaveOk.rules_nodup i).filter _)).mpr fun r => ?_
  rw [mem_heapForEach hidx, List.mem_filter, decide_eq_true_iff]
  have hmem := h.eviction.rulesMem i g hg r
  exact ⟨fun hr => ⟨h.installed i r ⟨g, hg, hmem.mp hr⟩, hmem.mp hr⟩, fun hr => hmem.mpr hr.2⟩

/-- The number of rules on the heap of a group. -/
theorem BridgeOk.rules_count (h : BridgeOk P s) (hg : g ∈ s.groups i) :
    (s.evgRules g).n = (s.rules i).countP fun r => s.evictGroup r = some g := by
  have hlen := (h.rules_perm hg).length_eq
  rw [← List.countP_eq_length_filter] at hlen
  rw [← hlen]
  exact (IndexedHeap.forEach_length (h.eviction.rulesOk i g hg).idx).symm

theorem BridgeOk.bySize_perm (h : BridgeOk P s) (i : Nat) :
    (heapForEach (s.oftable i).evictionGroupsBySize s.sizeNode).Perm (s.groups i) := by
  have hidx := (h.eviction.sizeOk i).idx
  refine (List.perm_ext_iff_of_nodup (heapForEach_nodup hidx) (h.eviction.groups_nodup i)).mpr
    fun g => ?_
  rw [mem_heapForEach hidx]
  exact h.eviction.sizeMem i g

theorem BridgeOk.groupsOk (h : BridgeOk P s) : GroupsOk s where
  member r g hr := by
    obtain ⟨-, i, hg⟩ := h.eviction.grouped r g hr
    refine ⟨i, fun hnone => ?_, hg, h.installed i r ⟨g, hg, hr⟩, fun j k hk => ?_⟩
    · rw [h.eviction.disabled i hnone] at hg
      cases hg
    · rw [h.eviction.rulesMem j k hk r, hr, Option.some.injEq, eq_comm]
  rules i g hg := h.rules_perm hg
  nonempty i g hg := by
    have hpos := h.eviction.nonempty i g hg (by simp)
    rw [h.rules_count hg, List.countP_pos_iff] at hpos
    obtain ⟨r, hr, hgr⟩ := hpos
    exact ⟨r, hr, of_decide_eq_true hgr⟩
  byId i := h.eviction.groups_nodup i
  bySize i := h.bySize_perm i
  share i r hr q hq g k hg hk := by
    have hgi := h.group_mem hr hg
    have hki := h.group_mem hq hk
    rw [h.eviction.hash i g hgi r hg, h.eviction.hash i k hki q hk]
    exact ⟨fun heq => heq ▸ rfl, h.eviction.eq_of_id hgi hki⟩
  size i g hg := by
    rw [h.eviction.size i g hg (by simp), h.rules_count hg]
    rfl
  sizeHeap i := h.eviction.sizeOk i
  rulesHeap i g hg := h.eviction.rulesOk i g hg
  disabled i hnone := by
    have hempty := h.eviction.disabled i hnone
    refine ⟨hempty, fun r hr => ?_⟩
    cases hg : s.evictGroup r with
    | none => rfl
    | some g =>
      have := h.group_mem hr hg
      rw [hempty] at this
      cases this

/-- In every state that a run with eviction reaches, the eviction groups are in order. -/
theorem groupsReachable_groupsOk (h : GroupsReachable s) : GroupsOk s :=
  h.bridge.groupsOk

end Groups

/-- The tunnel id, whose low half is the first word of the flow. -/
def tunIdSubfield : MfSubfield := ⟨⟨.tunId, 8, .none⟩, 0, 64⟩

/-- A bridge with eviction by tunnel id and three expiring rules, the first two for the
same id. -/
def evictingBridge : Enclave :=
  ((((ecallOfprotoInitTables 1 fun _ => 5#16).after
    (.oftableEnableEviction 0 [tunIdSubfield] 9#32)).after
    (.addFlow { sampleFlow 1#64 (matchFirstWord 7#32) 1 with hasTimeout := true })).after
    (.addFlow { sampleFlow 2#64 (matchFirstWord 7#32) 2 with hasTimeout := true })).after
    (.addFlow { sampleFlow 3#64 (matchFirstWord 8#32) 1 with hasTimeout := true })

theorem evictingBridge_reachable : GroupsReachable evictingBridge := by
  have h1 := (GroupsReachable.init 1 fun _ => 5#16).after
    (c := .oftableEnableEviction 0 [tunIdSubfield] 9#32) trivial
  have h2 := h1.after
    (c := .addFlow { sampleFlow 1#64 (matchFirstWord 7#32) 1 with hasTimeout := true })
    (show Enclave.NewAddr _ 1#64 by decide +kernel)
  have h3 := h2.after
    (c := .addFlow { sampleFlow 2#64 (matchFirstWord 7#32) 2 with hasTimeout := true })
    (show Enclave.NewAddr _ 2#64 by decide +kernel)
  exact h3.after
    (c := .addFlow { sampleFlow 3#64 (matchFirstWord 8#32) 1 with hasTimeout := true })
    (show Enclave.NewAddr _ 3#64 by decide +kernel)

theorem evictingBridge_groupsOk :
    GroupsReachable evictingBridge ∧ [0, 1, 2].map evictingBridge.evictGroup
      = [some 0, some 0, some 1] ∧ GroupsOk evictingBridge :=
  ⟨evictingBridge_reachable, by decide +kernel, groupsReachable_groupsOk evictingBridge_reachable⟩

/-- A bridge with two tables, and four expiring rules of the first one in two groups of the same
size. -/
def twoGroupsBridge : Enclave :=
  (((((ecallOfprotoInitTables 2 fun _ => 5#16).after
    (.oftableEnableEviction 0 [tunIdSubfield] 9#32)).after
    (.addFlow { sampleFlow 1#64 (matchFirstWord 7#32) 1 with hasTimeout := true })).after
    (.addFlow { sampleFlow 2#64 (matchFirstWord 7#32) 2 with hasTimeout := true })).after
    (.addFlow { sampleFlow 3#64 (matchFirstWord 8#32) 1 with hasTimeout := true })).after
    (.addFlow { sampleFlow 4#64 (matchFirstWord 8#32) 2 with hasTimeout := true })

theorem twoGroupsBridge_reachable : GroupsReachable twoGroupsBridge := by
  have h1 := (GroupsReachable.init 2 fun _ => 5#16).after
    (c := .oftableEnableEviction 0 [tunIdSubfield] 9#32) trivial
  have h2 := h1.after
    (c := .addFlow { sampleFlow 1#64 (matchFirstWord 7#32) 1 with hasTimeout := true })
    (show Enclave.NewAddr _ 1#64 by decide +kernel)
  have h3 := h2.after
    (c := .addFlow { sampleFlow 2#64 (matchFirstWord 7#32) 2 with hasTimeout := true })
    (show Enclave.NewAddr _ 2#64 by decide +kernel)
  have h4 := h3.after
    (c := .addFlow { sampleFlow 3#64 (matchFirstWord 8#32) 1 with hasTimeout := true })
    (show Enclave.NewAddr _ 3#64 by decide +kernel)
  exact h4.after
    (c := .addFlow { sampleFlow 4#64 (matchFirstWord 8#32) 2 with hasTimeout := true })
    (show Enclave.NewAddr _ 4#64 by decide +kernel)

/-- The first rule is taken out of its group with the number of the other table: its group is
smaller then, and still above the other one on the heap by size. -/
theorem twoGroupsBridge_wrong_table :
    GroupsReachable twoGroupsBridge ∧
      ∃ s', exec twoGroupsBridge (.evgRemoveRule 1 1#64) = some s' ∧ ¬ GroupsOk s' := by
  refine ⟨twoGroupsBridge_reachable, ?_⟩
  have hafter : (exec twoGroupsBridge (.evgRemoveRule 1 1#64)).map (fun s =>
      ((s.sizeHeap 0).n, IndexedHeap.prio (s.sizeHeap 0) 2, IndexedHeap.prio (s.sizeHeap 0) 1))
      = some (2, 0x20005, 0x10005) := by
    decide +kernel
  obtain ⟨s', hs, heq⟩ := Option.map_eq_some_iff.mp hafter
  simp only [Prod.mk.injEq] at heq
  obtain ⟨hn, hchild, hroot⟩ := heq
  refine ⟨s', hs, fun hok => ?_⟩
  have horder := (hok.sizeHeap 0).order 2 (by omega) (by omega)
  rw [hchild, hroot] at horder
  omega

end OvsSgx
