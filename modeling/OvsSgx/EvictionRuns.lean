/-
OvsSgx.EvictionRuns — runs of ecalls on a bridge with eviction groups.

`BridgeOk` joins the invariant of the rules with that of the eviction
groups: a rule in an eviction group of a table is installed there. A rule
must therefore leave its classifier and its group together, which is what
the optimized ecalls do. Each lemma also says that the call returns.
-/
import OvsSgx.EvictionTheorems

namespace OvsSgx

/-! ## Ecalls that leave the groups alone -/

/-- `s'` has the same eviction groups as `s`. -/
structure SameGroups (s s' : Enclave) : Prop where
  evictGroup : s'.evictGroup = s.evictGroup
  ruleEvgNode : s'.ruleEvgNode = s.ruleEvgNode
  evgRules : s'.evgRules = s.evgRules
  sizeNode : s'.sizeNode = s.sizeNode
  evgId : s'.evgId = s.evgId
  nextEvg : s'.nextEvg = s.nextEvg
  nextRule : s'.nextRule = s.nextRule
  ruleMatch : ∀ r, (s'.clsRule r).match = (s.clsRule r).match
  byId : ∀ j, (s'.oftable j).evictionGroupsById = (s.oftable j).evictionGroupsById
  bySize : ∀ j, (s'.oftable j).evictionGroupsBySize = (s.oftable j).evictionGroupsBySize
  fields : ∀ j, (s'.oftable j).evictionFields = (s.oftable j).evictionFields
  basis : ∀ j, (s'.oftable j).evictionGroupIdBasis = (s.oftable j).evictionGroupIdBasis

section SameGroups

variable {s s' : Enclave}

theorem SameGroups.groups (h : SameGroups s s') (j : Nat) : s'.groups j = s.groups j := by
  rw [Enclave.groups, h.byId, Enclave.groups]

theorem SameGroups.groupedIn (h : SameGroups s s') (j : Nat) (q : RuleId) :
    s'.GroupedIn j q ↔ s.GroupedIn j q := by
  simp only [Enclave.GroupedIn, h.groups, h.evictGroup]

theorem SameGroups.ok (h : SameGroups s s') (hs : EvictionOk s) : EvictionOk s' where
  ids j := by rw [h.byId]; exact hs.ids j
  id j := by rw [h.byId, h.evgId]; exact hs.id j
  fresh j := by rw [h.groups, h.nextEvg]; exact hs.fresh j
  disjoint j l := by rw [h.groups, h.groups]; exact hs.disjoint j l
  sizeOk j := by rw [Enclave.sizeHeap, h.bySize, h.sizeNode]; exact hs.sizeOk j
  sizeMem j y := by rw [Enclave.sizeHeap, h.bySize, h.sizeNode, h.groups]; exact hs.sizeMem j y
  rulesOk j k := by
    rw [Enclave.rulesHeap, h.evgRules, h.ruleEvgNode, h.groups]; exact hs.rulesOk j k
  rulesMem j k := by
    rw [Enclave.rulesHeap, h.evgRules, h.ruleEvgNode, h.groups, h.evictGroup]
    exact hs.rulesMem j k
  hash j k := by
    rw [h.groups, h.evictGroup, h.evgId]
    intro hk q hq
    rw [← hs.hash j k hk q hq, evictionGroupHashRule, h.fields, h.basis, h.ruleMatch]
    rfl
  grouped q k := by
    rw [h.evictGroup, h.nextRule]
    simp only [h.groups]
    exact hs.grouped q k
  disabled j := by rw [h.fields, h.groups]; exact hs.disabled j
  nonempty j k := by rw [h.groups, h.evgRules]; exact hs.nonempty j k
  size j k := by rw [h.groups, h.evgRules, h.sizeNode]; exact hs.size j k

/-- Writing a table back with the same eviction data keeps the groups. -/
theorem sameGroups_setOftable (s : Enclave) (i : Nat) (tbl : Oftable)
    (hid : tbl.evictionGroupsById = (s.oftable i).evictionGroupsById)
    (hsize : tbl.evictionGroupsBySize = (s.oftable i).evictionGroupsBySize)
    (hf : tbl.evictionFields = (s.oftable i).evictionFields)
    (hb : tbl.evictionGroupIdBasis = (s.oftable i).evictionGroupIdBasis) :
    SameGroups s (s.setOftable i tbl) := by
  have hupd : ∀ {β : Type} (g : Oftable → β), g tbl = g (s.oftable i) →
      ∀ j, g ((s.setOftable i tbl).oftable j) = g (s.oftable j) := by
    intro β g hg j
    rcases eq_or_ne j i with rfl | hji
    · rw [setOftable_oftable_self]
      exact hg
    · rw [setOftable_oftable_ne _ _ hji]
  exact ⟨rfl, rfl, rfl, rfl, rfl, rfl, rfl, fun _ => rfl, hupd Oftable.evictionGroupsById hid,
    hupd Oftable.evictionGroupsBySize hsize, hupd Oftable.evictionFields hf,
    hupd Oftable.evictionGroupIdBasis hb⟩

/-- Initialising a rule: the new shadow is in no group. -/
theorem ecallClsRuleInit_groups (h : EvictionOk s) (a : UtAddr) (m : Match) (p : Nat) :
    EvictionOk (ecallClsRuleInit s a m p) ∧
      (ecallClsRuleInit s a m p).evictGroup = s.evictGroup ∧
      (ecallClsRuleInit s a m p).groups = s.groups := by
  have hnew : s.evictGroup s.nextRule = none := by
    cases hr : s.evictGroup s.nextRule with
    | none => rfl
    | some g => exact absurd (h.grouped _ g hr).1 (Nat.lt_irrefl _)
  have hev : (ecallClsRuleInit s a m p).evictGroup = s.evictGroup := by
    show Function.update s.evictGroup s.nextRule none = s.evictGroup
    rw [← hnew, Function.update_eq_self]
  have hheap : ∀ j, ∀ k ∈ s.groups j, IndexedHeap.Ok ((ecallClsRuleInit s a m p).rulesHeap k) := by
    intro j k hk
    refine (h.rulesOk j k hk).congr fun y hy => Function.update_of_ne ?_ _ _
    rintro rfl
    have := (h.rulesMem j k hk _).mp hy
    rw [hnew] at this
    cases this
  refine ⟨?_, hev, rfl⟩
  exact
    { h with
      rulesOk := hheap
      rulesMem := fun j k hk q => by rw [hev]; exact h.rulesMem j k hk q
      hash := fun j k hk q hq => by
        rw [hev] at hq
        rw [ecallClsRuleInit_clsRule (Nat.ne_of_lt (h.grouped q k hq).1)]
        exact h.hash j k hk q hq
      grouped := fun q k hq => by
        rw [hev] at hq
        exact ⟨Nat.lt_succ_of_lt (h.grouped q k hq).1, (h.grouped q k hq).2⟩ }

end SameGroups

/-! ## The joint invariant -/

/-- The invariant of a bridge with its eviction groups. -/
structure BridgeOk (P : Match → Prop) (s : Enclave) : Prop extends EnclaveOk P s where
  eviction : EvictionOk s
  installed : ∀ i r, s.GroupedIn i r → r ∈ s.rules i
  allEvictable : ∀ r, s.LiveRule r → s.evictable r = true

/-- Moving rules between groups keeps the invariant if all that are then in a group are
installed. -/
theorem Regrouped.bridge {P : Match → Prop} {s s' : Enclave} {G : Nat → RuleId → Prop}
    (hre : Regrouped s s' G) (h : BridgeOk P s) (hG : ∀ j q, G j q → q ∈ s.rules j) :
    BridgeOk P s' := by
  refine ⟨hre.same.ok h.toEnclaveOk, hre.ok, fun j q hq => ?_, fun q hq => ?_⟩
  · rw [hre.same.rules]
    exact hG j q ((hre.groupedIn j q).mp hq)
  · rw [hre.same.evictable]
    exact h.allEvictable q (hre.same.liveRule.mp hq)

/-- `s'` is `s` without the rules of `T` in its tables and groups; their shadows are
still there. -/
structure Cleared (P : Match → Prop) (s s' : Enclave) (T : List RuleId) : Prop where
  ok : BridgeOk P s'
  rules : ∀ j, s'.rules j = (s.rules j).filter (· ∉ T)
  groupedIn : ∀ j q, s'.GroupedIn j q ↔ s.GroupedIn j q ∧ q ∉ T
  nTables : s'.nTables = s.nTables
  clsRules : s'.clsRules = s.clsRules
  clsRule : s'.clsRule = s.clsRule
  oClsRule : s'.oClsRule = s.oClsRule
  evictable : s'.evictable = s.evictable
  nextRule : s'.nextRule = s.nextRule
  flags : ∀ j, (s'.oftable j).flags = (s.oftable j).flags
  maxFlows : ∀ j, (s'.oftable j).maxFlows = (s.oftable j).maxFlows
  fields : SameFields s s'

section Bridge

variable {P : Match → Prop} {s s' s'' : Enclave} {i : Nat} {a : UtAddr} {r : RuleId}
  {T T' : List RuleId}

theorem Cleared.refl (h : BridgeOk P s) : Cleared P s s [] :=
  ⟨h, by simp, by simp, rfl, rfl, rfl, rfl, rfl, rfl, fun _ => rfl, fun _ => rfl, fun _ => rfl⟩

theorem Cleared.trans (h : Cleared P s s' T) (h' : Cleared P s' s'' T') :
    Cleared P s s'' (T ++ T') where
  ok := h'.ok
  rules j := by
    rw [h'.rules, h.rules, List.filter_filter]
    refine List.filter_congr fun q _ => ?_
    simp [Bool.and_comm]
  groupedIn j q := by rw [h'.groupedIn, h.groupedIn]; simp [and_assoc]
  nTables := h'.nTables.trans h.nTables
  clsRules := h'.clsRules.trans h.clsRules
  clsRule := h'.clsRule.trans h.clsRule
  oClsRule := h'.oClsRule.trans h.oClsRule
  evictable := h'.evictable.trans h.evictable
  nextRule := h'.nextRule.trans h.nextRule
  flags j := (h'.flags j).trans (h.flags j)
  maxFlows j := (h'.maxFlows j).trans (h.maxFlows j)
  fields j := (h'.fields j).trans (h.fields j)

theorem Cleared.mem_rules (h : Cleared P s s' T) {j : Nat} {q : RuleId} :
    q ∈ s'.rules j ↔ q ∈ s.rules j ∧ q ∉ T := by
  rw [h.rules, List.mem_filter]
  simp

theorem Cleared.lookup (h : Cleared P s s' T) (b : UtAddr) :
    sgxRuleFromUtCr s' b = sgxRuleFromUtCr s b := by
  unfold sgxRuleFromUtCr
  rw [h.clsRules]

theorem Cleared.liveRule (h : Cleared P s s' T) {q : RuleId} : s'.LiveRule q ↔ s.LiveRule q := by
  unfold Enclave.LiveRule
  rw [h.clsRules]

/-- The group of an installed rule is one of its own table. -/
theorem BridgeOk.group_mem (h : BridgeOk P s) (hr : r ∈ s.rules i) {k : EvgId}
    (hk : s.evictGroup r = some k) : k ∈ s.groups i := by
  obtain ⟨-, j, hj⟩ := h.eviction.grouped r k hk
  have hji := h.disjoint j i r (h.installed j r ⟨k, hj, hk⟩) hr
  exact hji ▸ hj

/-- A rule of table `i` is in a group of that table or in none. -/
theorem BridgeOk.groupedIn_iff (h : BridgeOk P s) (hr : r ∈ s.rules i) :
    s.GroupedIn i r ↔ (s.evictGroup r).isSome := by
  constructor
  · rintro ⟨k, -, hk⟩
    simp [hk]
  · intro hsome
    obtain ⟨k, hk⟩ := Option.isSome_iff_exists.mp hsome
    exact ⟨k, h.group_mem hr hk, hk⟩

/-- An installed rule leaves its table and its group. -/
theorem takeOut (h : BridgeOk P s) (hlook : sgxRuleFromUtCr s a = some r) (hr : r ∈ s.rules i) :
    ∃ s1 s', ecallClsRemove s i a = some s1 ∧ ecallEvgRemoveRule s1 i a = some s' ∧
      Cleared P s s' [r] := by
  have hlive := h.shadows.live_of_lookup hlook
  have hsame : ecallClsRemove s i a = ecallClsRemove s i (s.oClsRule r) := by
    simp only [ecallClsRemove, hlook, h.shadows.lookup_self hlive]
  obtain ⟨cls', hs1, hrules1, hok1⟩ := ecallClsRemove_ok h.toEnclaveOk hr
  have hg1 : SameGroups s (s.setOftable i { s.oftable i with cls := cls' }) :=
    sameGroups_setOftable s i _ rfl rfl rfl rfl
  obtain ⟨q, hq, hun, -⟩ := ecallClsRemove_uninstalled h.toEnclaveOk hs1
  rw [h.shadows.lookup_self hlive, Option.some.injEq] at hq
  subst hq
  generalize s.setOftable i { s.oftable i with cls := cls' } = s1 at hs1 hok1 hg1 hun
  have hgroup : ∀ k, s1.evictGroup r = some k → k ∈ s1.groups i := by
    intro k hk
    rw [hg1.evictGroup] at hk
    rw [hg1.groups]
    exact h.group_mem hr hk
  obtain ⟨s', hs', hfields, hre⟩ :=
    ecallEvgRemoveRule_ok (hg1.ok h.eviction) ((hun.lookup a).trans hlook) hgroup
  have hun' := hun.sameRules hre.same
  have hgrouped : ∀ j q, s'.GroupedIn j q ↔ s.GroupedIn j q ∧ q ≠ r := fun j q => by
    rw [hre.groupedIn, hg1.groupedIn]
  refine ⟨s1, s', hsame.trans hs1, hs', ⟨hre.same.ok hok1, hre.ok, fun j q hq => ?_, fun q hq => ?_⟩,
    fun j => ?_, fun j q => by rw [hgrouped]; simp, hun'.nTables, hun'.clsRules, hun'.clsRule,
    hun'.oClsRule, hun'.evictable, hun'.nextRule, hun'.flags, hun'.maxFlows,
    fun j => (hfields j).trans (hg1.fields j)⟩
  · obtain ⟨hq, hqr⟩ := (hgrouped j q).mp hq
    exact (hun'.mem_rules h.toEnclaveOk).mpr ⟨h.installed j q hq, hqr⟩
  · rw [hun'.evictable]
    exact h.allEvictable q (hun'.liveRule.mp hq)
  · rw [hun'.rules]
    split
    · rename_i hji
      subst hji
      rw [(h.toEnclaveOk.rules_nodup j).erase_eq_filter]
      refine List.filter_congr fun q _ => ?_
      by_cases hqr : q = r <;> simp [hqr]
    · rename_i hji
      refine (List.filter_eq_self.mpr fun q hq => ?_).symm
      have : q ≠ r := fun hqr => hji (h.disjoint j i r (hqr ▸ hq) hr)
      simpa using this

/-- A rule that is installed nowhere can be destroyed. -/
theorem destroy_bridge (h : BridgeOk P s) (hr : s.LiveRule r) (hnot : ∀ i, r ∉ s.rules i) :
    BridgeOk P { s with clsRules := hmapRemove s.clsRules r (addrHash (s.oClsRule r)) } := by
  have hg : SameGroups s
      { s with clsRules := hmapRemove s.clsRules r (addrHash (s.oClsRule r)) } :=
    ⟨rfl, rfl, rfl, rfl, rfl, rfl, rfl, fun _ => rfl, fun _ => rfl, fun _ => rfl, fun _ => rfl,
      fun _ => rfl⟩
  exact ⟨destroy_ok h.toEnclaveOk hr hnot, hg.ok h.eviction, h.installed,
    fun q hq => h.allEvictable q ((destroy_liveRule h.shadows hr).mp hq).2⟩

/-! ## Lists of rules -/

/-- What `ecall_delete_flows` reports of rule `r`. -/
def deletedFlow (s : Enclave) (i : Nat) (r : RuleId) : DeletedFlow :=
  ⟨decide (UINT16_MAX < (s.clsRule r).priority),
    clsRuleHash (s.clsRule r) (BitVec.ofNat 32 i), (s.clsRule r).priority,
    minimatchExpand (s.clsRule r).match⟩

theorem deleteFlow_ok (h : BridgeOk P s) (hlook : sgxRuleFromUtCr s a = some r)
    (hr : r ∈ s.rules i) :
    ∃ s', deleteFlow s i a = some (s', deletedFlow s i r) ∧ Cleared P s s' [r] := by
  have hself := h.shadows.lookup_self (h.shadows.live_of_lookup hlook)
  obtain ⟨s1, s', h1, h2, hcl⟩ := takeOut h hself hr
  refine ⟨s', ?_, hcl⟩
  simp [deleteFlow, hlook, hself, ecallCrPriority, ecallMinimatchExpand, ecallClsRuleHash, h1, h2,
    deletedFlow]

/-- After some rules have been taken out, the other installed rules are still installed. -/
theorem Cleared.installed_of_ne (h : Cleared P s s' [r]) {j : Nat} {b : UtAddr}
    (hb : s.Installed j b) (hne : b ≠ s.oClsRule r) : s'.Installed j b := by
  obtain ⟨q, hlive, rfl, hq⟩ := hb
  refine ⟨q, h.liveRule.mpr hlive, by rw [h.oClsRule], h.mem_rules.mpr ⟨hq, ?_⟩⟩
  simp only [List.mem_singleton]
  rintro rfl
  exact hne rfl

theorem ecallDeleteFlows_bridge {l : List (Nat × UtAddr)} : ∀ {s : Enclave}, BridgeOk P s →
    s.AllInstalled l → ∃ s' d T, ecallDeleteFlows s l = some (s', d) ∧ Cleared P s s' T ∧
      T.map s.oClsRule = l.map Prod.snd ∧ ∀ r ∈ T, ∃ i, r ∈ s.rules i := by
  induction l with
  | nil => exact fun {s} h _ => ⟨s, [], [], rfl, Cleared.refl h, rfl, by simp⟩
  | cons e l ih =>
    intro s h hl
    obtain ⟨i, a⟩ := e
    obtain ⟨hall, hnodup⟩ := hl
    obtain ⟨hnew, hnodup⟩ := List.nodup_cons.mp hnodup
    obtain ⟨r, hlook, hra, -, hr⟩ :=
      (hall (i, a) (List.mem_cons_self ..)).lookup h.shadows
    obtain ⟨s1, h1, hcl1⟩ := deleteFlow_ok h hlook hr
    have hrest : s1.AllInstalled l := by
      refine ⟨fun e he => hcl1.installed_of_ne (hall e (List.mem_cons_of_mem _ he)) ?_, hnodup⟩
      rw [hra]
      rintro rfl
      exact hnew (List.mem_map.mpr ⟨e, he, rfl⟩)
    obtain ⟨s2, d, T, h2, hcl2, hT, hmem⟩ := ih hcl1.ok hrest
    refine ⟨s2, deletedFlow s i r :: d, [r] ++ T, ?_, hcl1.trans hcl2, ?_, fun q hq => ?_⟩
    · simp [ecallDeleteFlows, h1, h2]
    · simp [hra, ← hT, hcl1.oClsRule]
    · rcases List.mem_append.mp hq with hq | hq
      · rw [List.mem_singleton.mp hq]
        exact ⟨i, hr⟩
      · obtain ⟨j, hj⟩ := hmem q hq
        exact ⟨j, (hcl1.mem_rules.mp hj).1⟩

/-- `s'` is `s` without the rules of `T`, in its tables and groups and as shadows. -/
structure Purged (P : Match → Prop) (s s' : Enclave) (T : List RuleId) : Prop where
  ok : BridgeOk P s'
  rules : ∀ j, s'.rules j = (s.rules j).filter (· ∉ T)
  groupedIn : ∀ j q, s'.GroupedIn j q ↔ s.GroupedIn j q ∧ q ∉ T
  liveRule : ∀ q, s'.LiveRule q ↔ s.LiveRule q ∧ q ∉ T
  nTables : s'.nTables = s.nTables
  clsRule : s'.clsRule = s.clsRule
  oClsRule : s'.oClsRule = s.oClsRule
  maxFlows : ∀ j, (s'.oftable j).maxFlows = (s.oftable j).maxFlows
  fields : SameFields s s'

theorem Purged.refl (h : BridgeOk P s) : Purged P s s [] :=
  ⟨h, by simp, by simp, by simp, rfl, rfl, rfl, fun _ => rfl, fun _ => rfl⟩

theorem Purged.trans (h : Purged P s s' T) (h' : Purged P s' s'' T') :
    Purged P s s'' (T ++ T') where
  ok := h'.ok
  rules j := by
    rw [h'.rules, h.rules, List.filter_filter]
    refine List.filter_congr fun q _ => ?_
    simp [Bool.and_comm]
  groupedIn j q := by rw [h'.groupedIn, h.groupedIn]; simp [and_assoc]
  liveRule q := by rw [h'.liveRule, h.liveRule]; simp [and_assoc]
  nTables := h'.nTables.trans h.nTables
  clsRule := h'.clsRule.trans h.clsRule
  oClsRule := h'.oClsRule.trans h.oClsRule
  maxFlows j := (h'.maxFlows j).trans (h.maxFlows j)
  fields j := (h'.fields j).trans (h.fields j)

/-- The shadow `r` is that of a rule hidden from controllers. -/
def Enclave.hidden (s : Enclave) (r : RuleId) : Bool := decide (UINT16_MAX < (s.clsRule r).priority)

/-- Like `deleteFlow_ok`, but the shadow goes too. -/
theorem removeRule_bridge (h : BridgeOk P s) (hlook : sgxRuleFromUtCr s a = some r)
    (hr : r ∈ s.rules i) :
    ∃ s', removeRule s i a = some (s', s.hidden r) ∧ Purged P s s' [r] := by
  obtain ⟨s1, s2, h1, h2, hcl⟩ := takeOut h hlook hr
  have hlive : s2.LiveRule r := hcl.liveRule.mpr (h.shadows.live_of_lookup hlook)
  have hlook2 : sgxRuleFromUtCr s2 a = some r := (hcl.lookup a).trans hlook
  have hdes : ecallClsRuleDestroy s2 a = ecallClsRuleDestroy s2 (s2.oClsRule r) := by
    simp only [ecallClsRuleDestroy, hlook2, hcl.ok.shadows.lookup_self hlive]
  rw [ecallClsRuleDestroy_eq hcl.ok.shadows hlive] at hdes
  refine ⟨_, ?_, destroy_bridge hcl.ok hlive fun j hj => ?_, hcl.rules, hcl.groupedIn, fun q => ?_,
    hcl.nTables, hcl.clsRule, hcl.oClsRule, hcl.maxFlows, hcl.fields⟩
  · simp [removeRule, ecallCrPriority, hlook, h1, h2, hdes, Enclave.hidden]
  · exact (hcl.mem_rules.mp hj).2 (List.mem_singleton.mpr rfl)
  · rw [destroy_liveRule hcl.ok.shadows hlive, hcl.liveRule, List.mem_singleton]
    exact and_comm

/-- After some rules have been destroyed, the other installed rules are still installed. -/
theorem Purged.installed_of_ne (h : Purged P s s' [r]) {j : Nat} {b : UtAddr}
    (hb : s.Installed j b) (hne : b ≠ s.oClsRule r) : s'.Installed j b := by
  obtain ⟨q, hlive, rfl, hq⟩ := hb
  have hqr : q ∉ [r] := by
    rw [List.mem_singleton]
    rintro rfl
    exact hne rfl
  refine ⟨q, (h.liveRule q).mpr ⟨hlive, hqr⟩, by rw [h.oClsRule], ?_⟩
  rw [h.rules, List.mem_filter]
  exact ⟨hq, by simpa using hqr⟩

theorem ecallOftableRemoveRules_bridge {l : List (Nat × UtAddr)} : ∀ {s : Enclave}, BridgeOk P s →
    s.AllInstalled l → ∃ s' T, ecallOftableRemoveRules s l = some (s', T.map s.hidden) ∧
      Purged P s s' T ∧ T.map s.oClsRule = l.map Prod.snd ∧ ∀ r ∈ T, s.LiveRule r := by
  induction l with
  | nil => exact fun {s} h _ => ⟨s, [], rfl, Purged.refl h, rfl, by simp⟩
  | cons e l ih =>
    intro s h hl
    obtain ⟨i, a⟩ := e
    obtain ⟨hall, hnodup⟩ := hl
    obtain ⟨hnew, hnodup⟩ := List.nodup_cons.mp hnodup
    obtain ⟨r, hlook, hra, -, hr⟩ :=
      (hall (i, a) (List.mem_cons_self ..)).lookup h.shadows
    obtain ⟨s1, h1, hd1⟩ := removeRule_bridge h hlook hr
    have hrest : s1.AllInstalled l := by
      refine ⟨fun e he => hd1.installed_of_ne (hall e (List.mem_cons_of_mem _ he)) ?_, hnodup⟩
      rw [hra]
      rintro rfl
      exact hnew (List.mem_map.mpr ⟨e, he, rfl⟩)
    obtain ⟨s2, T, h2, hd2, hT, hlive⟩ := ih hd1.ok hrest
    have hhidden : s1.hidden = s.hidden := by
      funext q
      rw [Enclave.hidden, hd1.clsRule, Enclave.hidden]
    refine ⟨s2, [r] ++ T, ?_, hd1.trans hd2, ?_, fun q hq => ?_⟩
    · simp [ecallOftableRemoveRules, h1, h2, hhidden]
    · simp [hra, ← hT, hd1.oClsRule]
    · rcases List.mem_cons.mp hq with rfl | hq
      · exact h.shadows.live_of_lookup hlook
      · exact ((hd1.liveRule q).mp (hlive q hq)).1

/-! ## The flush -/

/-- The entry that `ecall_ofproto_flush` writes for rule `r` of table `i`. -/
def flushEntry (s : Enclave) (i : Nat) (r : RuleId) : UtAddr × U32 :=
  (s.oClsRule r, clsRuleHash (s.clsRule r) (BitVec.ofNat 32 i))

/-- One round of the flush: count, and take the rule out if there is room. -/
theorem flushRule_bridge {f : Flushed} (bufSize : Nat) (h : BridgeOk P f.state)
    (hr : r ∈ f.state.rules i) :
    (bufSize ≤ f.out.length ∧
      flushRule i bufSize f r = some ⟨f.state, f.out, f.count + 1⟩) ∨
    (f.out.length < bufSize ∧ ∃ s', Cleared P f.state s' [r] ∧
      flushRule i bufSize f r
        = some ⟨s', f.out ++ [flushEntry f.state i r], f.count + 1⟩) := by
  by_cases hfull : bufSize ≤ f.out.length
  · exact .inl ⟨hfull, by simp [flushRule, hfull]⟩
  · have hself := h.shadows.lookup_self (h.live i r hr)
    obtain ⟨s1, s', h1, h2, hcl⟩ := takeOut h hself hr
    refine .inr ⟨Nat.lt_of_not_le hfull, s', hcl, ?_⟩
    simp [flushRule, hfull, ecallClsRuleHash, hself, h1, h2, flushEntry]

/-- The cursor moves on to the rule behind the current one. -/
theorem clsCursorNext_eq (h : EnclaveOk P s) {kept l : List RuleId}
    (hrules : s.rules i = kept ++ r :: l) :
    clsCursorNext s.clsRule (s.oftable i).cls none r = l.head? := by
  have hnot : r ∉ kept := by
    have hnodup := h.rules_nodup i
    rw [hrules] at hnodup
    intro hk
    exact (List.nodup_append.mp hnodup).2.2 r hk r (List.mem_cons_self ..) rfl
  unfold clsCursorNext
  rw [clsCursorRules_none (h.cls i), show (s.oftable i).cls.rules = kept ++ r :: l from hrules,
    (RankedList.takeWhile_ne_split l hnot).2]

theorem flushEntry_congr (h : Cleared P s s' T) : flushEntry s' i = flushEntry s i := by
  funext q
  simp only [flushEntry, h.oClsRule, h.clsRule]

/-- The cursor loop over the rules `l` that are left to visit; rules are only left behind
(`kept`) once the buffer is full. -/
theorem flushLoop_bridge {bufSize : Nat} {l : List RuleId} : ∀ (f : Flushed) (kept : List RuleId),
    BridgeOk P f.state → f.state.rules i = kept ++ l → (kept = [] ∨ bufSize ≤ f.out.length) →
    ∃ s', Cleared P f.state s' (l.take (bufSize - f.out.length)) ∧
      flushLoop i bufSize l.length f l.head? = some ⟨s',
        f.out ++ (l.take (bufSize - f.out.length)).map (flushEntry f.state i),
        f.count + l.length⟩ := by
  induction l with
  | nil =>
    intro f kept h _ _
    refine ⟨f.state, ?_, ?_⟩
    · simpa using Cleared.refl h
    · simp [flushLoop]
  | cons r l ih =>
    intro f kept h hrules hkept
    have hnext := clsCursorNext_eq h.toEnclaveOk hrules
    have hnodup := h.toEnclaveOk.rules_nodup i
    rcases flushRule_bridge (r := r) bufSize h (by rw [hrules]; simp) with
      ⟨hfull, hbody⟩ | ⟨hroom, s1, hcl1, hbody⟩
    · obtain ⟨s', hcl, hloop⟩ := ih ⟨f.state, f.out, f.count + 1⟩ (kept ++ [r]) h
        (by simpa using hrules) (.inr hfull)
      have hzero : bufSize - f.out.length = 0 := by omega
      simp only [hzero, List.take_zero, List.map_nil, List.append_nil] at hcl hloop ⊢
      refine ⟨s', hcl, ?_⟩
      simp only [List.length_cons, List.head?_cons, flushLoop, hnext, hbody, Option.bind_eq_bind,
        Option.bind_some, hloop]
      congr 2
      omega
    · have hk : kept = [] := hkept.resolve_right (by omega)
      subst hk
      have hrules1 : s1.rules i = [] ++ l := by
        rw [hcl1.rules, hrules]
        rw [hrules] at hnodup
        have hrl : r ∉ l := (List.nodup_cons.mp hnodup).1
        simp only [List.nil_append, List.mem_singleton, List.filter_cons, not_true, decide_false,
          Bool.false_eq_true, if_false]
        refine List.filter_eq_self.mpr fun q hq => ?_
        simpa using ne_of_mem_of_not_mem hq hrl
      obtain ⟨s', hcl, hloop⟩ := ih ⟨s1, f.out ++ [flushEntry f.state i r], f.count + 1⟩ []
        hcl1.ok hrules1 (.inl rfl)
      have hsucc : bufSize - f.out.length = (bufSize - (f.out.length + 1)) + 1 := by omega
      simp only [List.length_append, List.length_singleton, flushEntry_congr hcl1] at hcl hloop
      refine ⟨s', ?_, ?_⟩
      · rw [hsucc, List.take_succ_cons]
        exact hcl1.trans hcl
      · simp only [List.length_cons, List.head?_cons, flushLoop, hnext, hbody, Option.bind_eq_bind,
          Option.bind_some, hloop, hsucc, List.take_succ_cons, List.map_cons, List.append_assoc,
          List.cons_append, List.nil_append]
        congr 2
        omega

/-- The rules that the flush visits in table `i`. -/
def flushableRules (s : Enclave) (i : Nat) : List RuleId :=
  if (s.oftable i).flags.hidden then [] else s.rules i

theorem flushTable_bridge {f : Flushed} (bufSize : Nat) (h : BridgeOk P f.state) (i : Nat) :
    ∃ s', Cleared P f.state s' ((flushableRules f.state i).take (bufSize - f.out.length)) ∧
      flushTable bufSize f i = some ⟨s',
        f.out ++ ((flushableRules f.state i).take (bufSize - f.out.length)).map
          (flushEntry f.state i),
        f.count + (flushableRules f.state i).length⟩ := by
  unfold flushTable flushableRules
  split
  · refine ⟨f.state, ?_, ?_⟩
    · simpa using Cleared.refl h
    · simp
  · obtain ⟨s', hcl, hloop⟩ := flushLoop_bridge (l := f.state.rules i) f [] h rfl (.inl rfl)
    refine ⟨s', hcl, ?_⟩
    have hcur : clsCursorRules f.state.clsRule (f.state.oftable i).cls none = f.state.rules i :=
      clsCursorRules_none (h.cls i)
    simp only [clsCursorFirst, hcur]
    exact hloop

/-- The loop of `ecall_ofproto_flush` over the tables. -/
theorem foldlM_flushTable_bridge {bufSize : Nat} {l : List Nat} : ∀ {f : Flushed},
    BridgeOk P f.state → ∃ f' T, l.foldlM (flushTable bufSize) f = some f' ∧
      Cleared P f.state f'.state T := by
  induction l with
  | nil => exact fun {f} h => ⟨f, [], rfl, Cleared.refl h⟩
  | cons i l ih =>
    intro f h
    obtain ⟨s1, hcl1, h1⟩ := flushTable_bridge bufSize h i
    obtain ⟨f', T, h2, hcl2⟩ := ih (f := ⟨s1, _, _⟩) hcl1.ok
    refine ⟨f', _, ?_, hcl1.trans hcl2⟩
    rw [List.foldlM_cons, h1]
    exact h2

end Bridge

end OvsSgx
