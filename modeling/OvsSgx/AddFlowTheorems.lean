/-
OvsSgx.AddFlowTheorems — `ecall_add_flow` on a bridge with eviction groups.

The ecall works in stages: make the shadow, put it into the classifier in
place of a victim, take the victim out of its group, put the new rule into
one, and evict a rule if the table has grown beyond its limit. Each stage
returns, and each lemma says which rules are then installed and which are
in eviction groups.
-/
import OvsSgx.EvictionRuns

namespace OvsSgx

variable {P : Match → Prop} {s s' : Enclave} {i : Nat} {r : RuleId}

/-! ## The new rule -/

/-- A new rule joins the bridge without being installed. -/
theorem ecallClsRuleInit_bridge (h : BridgeOk P s) {a : UtAddr} (hnew : s.NewAddr a) {m : Match}
    (hm : P m) (p : Nat) : BridgeOk P (ecallClsRuleInit s a m p) := by
  obtain ⟨hok, hev, hgroups⟩ := ecallClsRuleInit_groups h.eviction a m p
  refine ⟨ecallClsRuleInit_ok h.toEnclaveOk hnew hm, hok, fun j q hq => ?_, fun q hq => ?_⟩
  · refine h.installed j q ?_
    simpa only [Enclave.GroupedIn, hev, hgroups] using hq
  · show Function.update (Function.update s.evictable s.nextRule false) s.nextRule true q = true
    rcases ecallClsRuleInit_liveRule.mp hq with rfl | hq
    · rw [Function.update_self]
    · have hne : q ≠ s.nextRule := Nat.ne_of_lt (h.shadows.rule_lt hq)
      rw [Function.update_of_ne hne, Function.update_of_ne hne]
      exact h.allEvictable q hq

/-! ## Into the classifier -/

/-- `s'` is `s` with rule `r` installed in table `i` in place of the victim, and in an
eviction group if `b` holds. -/
structure Placed (P : Match → Prop) (s s' : Enclave) (i : Nat) (r : RuleId) (b : Prop) : Prop where
  ok : BridgeOk P s'
  nTables : s'.nTables = s.nTables
  rules : ∀ j q, q ∈ s'.rules j ↔ (j = i ∧ q = r) ∨ (q ∈ s.rules j ∧ replaceVictim s i r ≠ some q)
  count : ecallOftableClsCount s' i
    = ecallOftableClsCount s i + if (replaceVictim s i r).isSome then 0 else 1
  groupedIn : ∀ j q, s'.GroupedIn j q ↔
    (s.GroupedIn j q ∧ replaceVictim s i r ≠ some q) ∨ (b ∧ j = i ∧ q = r)
  store : ∀ q, (s'.clsRule q).match = (s.clsRule q).match ∧
    (s'.clsRule q).priority = (s.clsRule q).priority
  clsRules : s'.clsRules = s.clsRules
  oClsRule : s'.oClsRule = s.oClsRule
  flags : ∀ j, (s'.oftable j).flags = (s.oftable j).flags
  maxFlows : ∀ j, (s'.oftable j).maxFlows = (s.oftable j).maxFlows
  fields : SameFields s s'

/-- The victim is the rule of the table with the same match and priority. -/
theorem replaceVictim_eq_some (h : EnclaveOk P s) (hnot : r ∉ s.rules i) {v : RuleId} :
    replaceVictim s i r = some v ↔ v ∈ s.rules i ∧ (s.clsRule v).match = (s.clsRule r).match ∧
      (s.clsRule v).priority = (s.clsRule r).priority := by
  have hspec := replaceState_spec h hnot
  constructor
  · intro hv
    obtain ⟨hmem, hprio, hmatch, -⟩ := hspec.replaced v hv
    exact ⟨hmem, hmatch, hprio⟩
  · rintro ⟨hmem, hmatch, hprio⟩
    cases hv : replaceVictim s i r with
    | none => exact absurd hprio ((hspec.added hv).2 v hmem hmatch)
    | some o =>
      obtain ⟨homem, hoprio, homatch, -⟩ := hspec.replaced o hv
      rw [(h.cls i).eq_of_match homem hmem (homatch.trans hmatch.symm) (hoprio.trans hprio.symm)]

/-- The victim is a rule of the table. -/
theorem replaceVictim_mem (h : EnclaveOk P s) (hnot : r ∉ s.rules i) {v : RuleId}
    (hv : replaceVictim s i r = some v) : v ∈ s.rules i :=
  ((replaceState_spec h hnot).replaced v hv).1

theorem replaceState_sameGroups (h : EnclaveOk P s) (hnot : r ∉ s.rules i) :
    SameGroups s (replaceState s i r) := by
  obtain ⟨h1, h2, h3, h4, h5, h6, h7, -, h9, h10, h11, h12⟩ := sameGroups_setOftable s i
    { s.oftable i with cls := (classifierReplace s.clsRule (s.oftable i).cls r).1 } rfl rfl rfl rfl
  exact ⟨h1, h2, h3, h4, h5, h6, h7, fun q => ((replaceState_spec h hnot).store q).1, h9, h10, h11,
    h12⟩

theorem replaceState_tables (s : Enclave) (i : Nat) (r : RuleId) (j : Nat) :
    ((replaceState s i r).oftable j).flags = (s.oftable j).flags ∧
      ((replaceState s i r).oftable j).maxFlows = (s.oftable j).maxFlows := by
  show ((s.setOftable i _).oftable j).flags = _ ∧ ((s.setOftable i _).oftable j).maxFlows = _
  rcases eq_or_ne j i with rfl | hji
  · simp [setOftable_oftable_self]
  · simp [setOftable_oftable_ne _ _ hji]

theorem replaceState_count (h : EnclaveOk P s) (hnot : r ∉ s.rules i) :
    ecallOftableClsCount (replaceState s i r) i
      = ecallOftableClsCount s i + if (replaceVictim s i r).isSome then 0 else 1 := by
  have hspec := replaceState_spec h hnot
  have hcls : ((replaceState s i r).oftable i).cls
      = (classifierReplace s.clsRule (s.oftable i).cls r).1 := by
    show ((s.setOftable i _).oftable i).cls = _
    rw [setOftable_oftable_self]
  simp only [ecallOftableClsCount, classifierCount, hcls, hspec.ok.nRules, (h.cls i).nRules]
  cases hv : replaceVictim s i r with
  | none => simp [(hspec.added hv).1.length_eq]
  | some v =>
    obtain ⟨hmem, -, -, hperm⟩ := hspec.replaced v hv
    have hpos := List.length_pos_of_mem hmem
    simp only [hperm.length_eq, List.length_cons, List.length_erase_of_mem hmem, Option.isSome_some,
      if_true]
    omega

/-- Into the classifier, and the victim out of its group. -/
theorem evgRemoveVictim_bridge (h : BridgeOk P s) (hlive : s.LiveRule r)
    (hnot : ∀ j, r ∉ s.rules j) :
    ∃ s', evgRemoveVictim (replaceState s i r) i ((replaceVictim s i r).map s.oClsRule) = some s' ∧
      Placed P s s' i r False := by
  have hok1 := replaceState_ok (i := i) h.toEnclaveOk hlive hnot
  have hg1 := replaceState_sameGroups (i := i) h.toEnclaveOk (hnot i)
  have hrules1 : ∀ j q, q ∈ (replaceState s i r).rules j ↔
      (j = i ∧ q = r) ∨ (q ∈ s.rules j ∧ replaceVictim s i r ≠ some q) := by
    intro j q
    rcases eq_or_ne j i with rfl | hji
    · rw [mem_replaceState_rules h.toEnclaveOk (hnot j)]
      simp
    · rw [replaceState_rules, if_neg hji]
      simp only [hji, false_and, false_or]
      refine ⟨fun hq => ⟨hq, fun hv => hji ?_⟩, And.left⟩
      exact h.disjoint j i q hq (replaceVictim_mem h.toEnclaveOk (hnot i) hv)
  -- the groups of `s2` without the victim
  have hplaced : ∀ s2, SameRules (replaceState s i r) s2 → SameFields (replaceState s i r) s2 →
      EvictionOk s2 →
      (∀ j q, s2.GroupedIn j q ↔ s.GroupedIn j q ∧ replaceVictim s i r ≠ some q) →
      Placed P s s2 i r False := by
    intro s2 hsame hfields hev hgrouped
    have hrules2 : ∀ j q, q ∈ s2.rules j ↔
        (j = i ∧ q = r) ∨ (q ∈ s.rules j ∧ replaceVictim s i r ≠ some q) := fun j q => by
      rw [hsame.rules]
      exact hrules1 j q
    refine ⟨⟨hsame.ok hok1, hev, fun j q hq => ?_, fun q hq => ?_⟩, hsame.nTables, hrules2, ?_,
      fun j q => by simp [hgrouped], fun q => ?_, hsame.clsRules, hsame.oClsRule,
      fun j => (hsame.flags j).trans (replaceState_tables s i r j).1,
      fun j => (hsame.maxFlows j).trans (replaceState_tables s i r j).2,
      fun j => (hfields j).trans (hg1.fields j)⟩
    · obtain ⟨hq, hv⟩ := (hgrouped j q).mp hq
      exact (hrules2 j q).mpr (.inr ⟨h.installed j q hq, hv⟩)
    · rw [hsame.evictable]
      exact h.allEvictable q (hsame.liveRule.mp hq)
    · simp only [ecallOftableClsCount, hsame.cls i]
      exact replaceState_count h.toEnclaveOk (hnot i)
    · rw [hsame.clsRule]
      exact (replaceState_spec h.toEnclaveOk (hnot i)).store q
  cases hv : replaceVictim s i r with
  | none =>
    refine ⟨_, rfl, hplaced _ (SameRules.refl _) (fun _ => rfl) (hg1.ok h.eviction) fun j q => ?_⟩
    rw [hg1.groupedIn, hv]
    simp
  | some v =>
    have hmem := replaceVictim_mem h.toEnclaveOk (hnot i) hv
    have hlook : sgxRuleFromUtCr (replaceState s i r) (s.oClsRule v) = some v :=
      h.shadows.lookup_self (h.live i v hmem)
    have hgroup : ∀ k, (replaceState s i r).evictGroup v = some k →
        k ∈ (replaceState s i r).groups i := by
      intro k hk
      rw [hg1.evictGroup] at hk
      rw [hg1.groups]
      exact h.group_mem hmem hk
    obtain ⟨s2, hs2, hfields, hre⟩ := ecallEvgRemoveRule_ok (hg1.ok h.eviction) hlook hgroup
    refine ⟨s2, hs2, hplaced s2 hre.same hfields hre.ok fun j q => ?_⟩
    rw [hre.groupedIn, hg1.groupedIn, hv]
    simp [eq_comm]

/-- The new rule joins an eviction group if its table has them and it expires. -/
theorem evgAddFlow_bridge (args : AddFlowArgs) (h : BridgeOk P s)
    (hplaced : Placed P s s' args.tableId r False) (hlook : sgxRuleFromUtCr s args.cr = some r)
    (hnot : ∀ j, r ∉ s.rules j) :
    ∃ s'', evgAddFlow s' args = some s'' ∧ Placed P s s'' args.tableId r
      (ecallIsEvictionFieldsEnabled s args.tableId && args.hasTimeout) := by
  have hen : ecallIsEvictionFieldsEnabled s' args.tableId
      = ecallIsEvictionFieldsEnabled s args.tableId := by
    simp only [ecallIsEvictionFieldsEnabled, hplaced.fields args.tableId]
  unfold evgAddFlow
  rw [hen]
  by_cases hb : (ecallIsEvictionFieldsEnabled s args.tableId && args.hasTimeout) = true
  · rw [if_pos hb]
    have hlook' : sgxRuleFromUtCr s' args.cr = some r := by
      rw [← hlook]
      unfold sgxRuleFromUtCr
      rw [hplaced.clsRules]
    have hr : s'.evictGroup r = none := by
      cases hg : s'.evictGroup r with
      | none => rfl
      | some g =>
        obtain ⟨j, hj⟩ := hplaced.ok.eviction.groupedIn hg
        rcases (hplaced.groupedIn j r).mp hj with ⟨hj, -⟩ | ⟨hf, -⟩
        · exact absurd (h.installed j r hj) (hnot j)
        · exact hf.elim
    have hfields' : (s'.oftable args.tableId).evictionFields ≠ none :=
      isEvictionFieldsEnabled_iff.mp (hen.trans (Bool.and_eq_true _ _ ▸ hb).1)
    obtain ⟨s'', hs'', hfields, hre⟩ := ecallEvgAddRule_ok hplaced.ok.eviction hlook' hfields' hr
      (hplaced.ok.shadows.rule_lt (hplaced.ok.shadows.live_of_lookup hlook'))
      args.evictionGroupPriority args.evictionRulePriority args.evictionNode
    refine ⟨s'', hs'', hre.bridge hplaced.ok fun j q hq => ?_,
      hre.same.nTables.trans hplaced.nTables,
      fun j q => by rw [hre.same.rules]; exact hplaced.rules j q, ?_, fun j q => ?_,
      fun q => by rw [hre.same.clsRule]; exact hplaced.store q,
      hre.same.clsRules.trans hplaced.clsRules, hre.same.oClsRule.trans hplaced.oClsRule,
      fun j => (hre.same.flags j).trans (hplaced.flags j),
      fun j => (hre.same.maxFlows j).trans (hplaced.maxFlows j),
      fun j => (hfields j).trans (hplaced.fields j)⟩
    · rcases hq with hq | ⟨rfl, rfl⟩
      · exact hplaced.ok.installed j q hq
      · exact (hplaced.rules _ _).mpr (.inl ⟨rfl, rfl⟩)
    · rw [← hplaced.count]
      simp only [ecallOftableClsCount, hre.same.cls]
    · rw [hre.groupedIn, hplaced.groupedIn]
      simp [hb]
  · rw [if_neg hb]
    refine ⟨s', rfl, { hplaced with groupedIn := fun j q => ?_ }⟩
    rw [hplaced.groupedIn]
    simp [hb]

/-! ## Eviction from an over-full table -/

/-- `ecall_choose_rule_to_evict_p` finds nothing exactly when the replacer is the only rule
in the groups of the table, and otherwise another rule of these. -/
theorem ecallChooseRuleToEvictP_cases (h : BridgeOk P s) {cr : UtAddr}
    (hlook : sgxRuleFromUtCr s cr = some r) :
    (ecallChooseRuleToEvictP s i cr = some none ∧ ∀ q, s.GroupedIn i q → q = r) ∨
    ∃ q, ecallChooseRuleToEvictP s i cr = some (some (s.oClsRule q)) ∧ s.GroupedIn i q ∧
      q ≠ r := by
  let s1 : Enclave := { s with evictable := Function.update s.evictable r false }
  have hok1 : EvictionOk s1 := { h.eviction with }
  have hcall : ecallChooseRuleToEvictP s i cr = some (ecallChooseRuleToEvict s1 i) := by
    simp [ecallChooseRuleToEvictP, hlook, s1]
  rw [hcall]
  cases hc : ecallChooseRuleToEvict s1 i with
  | none =>
    refine .inl ⟨rfl, fun q hq => ?_⟩
    have hen : (s1.oftable i).evictionFields ≠ none := by
      intro hnone
      obtain ⟨g, hg, -⟩ := hq
      rw [h.eviction.disabled i hnone] at hg
      cases hg
    by_contra hqr
    have := (ecallChooseRuleToEvict_eq_none hok1 hen).mp hc q hq
    have hev := h.allEvictable q (h.live i q (h.installed i q hq))
    simp only [s1, Function.update_of_ne hqr, hev, Bool.true_eq_false] at this
  | some a =>
    obtain ⟨q, rfl, hq, hev⟩ := ecallChooseRuleToEvict_some hok1 hc
    refine .inr ⟨q, rfl, hq, ?_⟩
    rintro rfl
    simp [s1] at hev

/-- The eviction in `ecall_add_flow`. -/
theorem evictForFlow_bridge (h : BridgeOk P s) {cr : UtAddr}
    (hlook : sgxRuleFromUtCr s cr = some r) (out : AddFlowOut) :
    (ecallOftableClsCount s i ≤ ecallOftableMflows s i ∧
      evictForFlow s i cr out = some (s, out)) ∨
    (ecallOftableMflows s i < ecallOftableClsCount s i ∧ (∀ q, s.GroupedIn i q → q = r) ∧
      evictForFlow s i cr out = some (s, { out with tableOverflow := true, evict := none })) ∨
    (ecallOftableMflows s i < ecallOftableClsCount s i ∧
      ∃ s' q, s.GroupedIn i q ∧ q ≠ r ∧ Cleared P s s' [q] ∧
        evictForFlow s i cr out = some (s', { out with
          tableOverflow := true
          evict := some (s.oClsRule q)
          evictRuleHash := clsRuleHash (s.clsRule q) (BitVec.ofNat 32 i) })) := by
  by_cases hle : ecallOftableClsCount s i ≤ ecallOftableMflows s i
  · exact .inl ⟨hle, by simp [evictForFlow, hle]⟩
  · refine .inr ?_
    have hlt := Nat.lt_of_not_le hle
    rcases ecallChooseRuleToEvictP_cases (i := i) h hlook with ⟨hc, hall⟩ | ⟨q, hc, hq, hqr⟩
    · exact .inl ⟨hlt, hall, by simp [evictForFlow, hle, hc]⟩
    · have hmem := h.installed i q hq
      have hself := h.shadows.lookup_self (h.live i q hmem)
      obtain ⟨s1, s', h1, h2, hcl⟩ := takeOut h hself hmem
      refine .inr ⟨hlt, s', q, hq, hqr, hcl, ?_⟩
      have hhash : ecallClsRuleHash s' (s.oClsRule q) i
          = some (clsRuleHash (s.clsRule q) (BitVec.ofNat 32 i)) := by
        simp [ecallClsRuleHash, hcl.lookup, hself, hcl.clsRule]
      simp [evictForFlow, hle, hc, h1, h2, hhash]

/-! ## All stages -/

/-- `ecall_add_flow` from the classifier on, in a table that is not read-only: the rule is
placed, and one rule may be evicted. -/
theorem installFlow_bridge {args : AddFlowArgs} (h : BridgeOk P s)
    (hlook : sgxRuleFromUtCr s args.cr = some r) (hnot : ∀ j, r ∉ s.rules j)
    (hro : ecallOftableIsReadonly s args.tableId = false) (out : AddFlowOut) :
    ∃ s3 s' out3 vid vidMask,
      Placed P s s3 args.tableId r
        (ecallIsEvictionFieldsEnabled s args.tableId && args.hasTimeout) ∧
      evictForFlow s3 args.tableId args.cr
        { out with victim := (replaceVictim s args.tableId r).map s.oClsRule } = some (s', out3) ∧
      BridgeOk P s' ∧ s'.clsRules = s.clsRules ∧
      installFlow s args out = some (s', { out3 with vid := vid, vidMask := vidMask }) := by
  have hlive := h.shadows.live_of_lookup hlook
  obtain ⟨s2, h2, hplaced2⟩ := evgRemoveVictim_bridge (i := args.tableId) h hlive hnot
  obtain ⟨s3, h3, hplaced⟩ := evgAddFlow_bridge args h hplaced2 hlook hnot
  have hlookup : ∀ t : Enclave, t.clsRules = s.clsRules → sgxRuleFromUtCr t args.cr = some r := by
    intro t ht
    rw [← hlook]
    unfold sgxRuleFromUtCr
    rw [ht]
  have hlook3 := hlookup s3 hplaced.clsRules
  have hro3 : ecallOftableIsReadonly s3 args.tableId = false := by
    simp only [ecallOftableIsReadonly, hplaced.flags]
    exact hro
  -- whatever the eviction does, the shadow of the new rule stays
  have hfin : ∀ s' out3, BridgeOk P s' → s'.clsRules = s.clsRules →
      evictForFlow s3 args.tableId args.cr
        { out with victim := (replaceVictim s args.tableId r).map s.oClsRule } = some (s', out3) →
      installFlow s args out = some (s', { out3 with
        vid := miniflowGetVid (s'.clsRule r).match.flow
        vidMask := minimaskGetVidMask (s'.clsRule r).match.mask }) := by
    intro s' out3 _ hcls hev
    have hlook' := hlookup s' hcls
    simp only [installFlow, ecallOftableClassifierReplace_eq hlook, h2, h3, hro3, Bool.and_false,
      Bool.false_eq_true, if_false, hev, ecallMiniflowGetVid, ecallMinimaskGetVidMask, hlook',
      Option.bind_eq_bind, Option.bind_some]
    rfl
  rcases evictForFlow_bridge (i := args.tableId) hplaced.ok hlook3
      { out with victim := (replaceVictim s args.tableId r).map s.oClsRule } with
    ⟨-, hev⟩ | ⟨-, -, hev⟩ | ⟨-, s', q, -, -, hcl, hev⟩
  · exact ⟨s3, s3, _, _, _, hplaced, hev, hplaced.ok, hplaced.clsRules,
      hfin _ _ hplaced.ok hplaced.clsRules hev⟩
  · exact ⟨s3, s3, _, _, _, hplaced, hev, hplaced.ok, hplaced.clsRules,
      hfin _ _ hplaced.ok hplaced.clsRules hev⟩
  · exact ⟨s3, s', _, _, _, hplaced, hev, hcl.ok, hcl.clsRules.trans hplaced.clsRules,
      hfin _ _ hcl.ok (hcl.clsRules.trans hplaced.clsRules) hev⟩

/-- Making a shadow and destroying it at once leaves the rules and the groups as they
were. -/
theorem initDestroy_bridge (h : BridgeOk P s) {a : UtAddr} (hnew : s.NewAddr a) {m : Match}
    (hm : P m) (p : Nat) :
    ∃ s', ecallClsRuleDestroy (ecallClsRuleInit s a m p) a = some s' ∧ BridgeOk P s' ∧
      s'.nTables = s.nTables ∧ s'.oftable = s.oftable ∧ s'.evictGroup = s.evictGroup ∧
      (∀ q, s'.LiveRule q ↔ s.LiveRule q) ∧ ∀ q, s.LiveRule q → s'.oClsRule q = s.oClsRule q := by
  have hok := ecallClsRuleInit_bridge h hnew hm p
  have hlook := ecallClsRuleInit_lookup (m := m) (p := p) h.shadows hnew
  have hlive := hok.shadows.live_of_lookup hlook
  have hdes := ecallClsRuleDestroy_eq hok.shadows hlive
  rw [ecallClsRuleInit_oClsRule_self] at hdes
  have hold : ∀ q, s.LiveRule q → q ≠ s.nextRule := fun q hq => Nat.ne_of_lt (h.shadows.rule_lt hq)
  have hok' := destroy_bridge hok hlive fun j => h.toEnclaveOk.nextRule_not_mem j
  have hlr := fun q => destroy_liveRule (q := q) hok.shadows hlive
  rw [ecallClsRuleInit_oClsRule_self] at hok' hlr
  refine ⟨_, hdes, hok', rfl, rfl, (ecallClsRuleInit_groups h.eviction a m p).2.1, fun q => ?_,
    fun q hq => ecallClsRuleInit_oClsRule (m := m) (p := p) (hold q hq)⟩
  rw [hlr, ecallClsRuleInit_liveRule]
  constructor
  · rintro ⟨hne, hq | hq⟩
    · exact absurd hq hne
    · exact hq
  · exact fun hq => ⟨hold q hq, .inr hq⟩

/-! ## The outcome -/

/-- Rule `v` of table `i` has match `m` and priority `p`. -/
def IsVictim (s : Enclave) (i : Nat) (m : Match) (p : Nat) (v : RuleId) : Prop :=
  v ∈ s.rules i ∧ (s.clsRule v).match = minimatchInit m ∧ (s.clsRule v).priority = p

/-- What `ecall_add_flow` has done when it did not refuse the flow: the new rule is in
the table, and out of it are the victim `V` and the evicted rule `E`. -/
structure FlowAdded (P : Match → Prop) (s : Enclave) (args : AddFlowArgs) (s' : Enclave)
    (out : AddFlowOut) (V E : Option RuleId) : Prop where
  ok : BridgeOk P s'
  nTables : s'.nTables = s.nTables
  victim : ∀ v, V = some v ↔ IsVictim s args.tableId args.match args.priority v
  rules : ∀ j q, q ∈ s'.rules j ↔
    (j = args.tableId ∧ q = s.nextRule) ∨ (q ∈ s.rules j ∧ V ≠ some q ∧ E ≠ some q)
  groupedIn : ∀ j q, s'.GroupedIn j q ↔ (s.GroupedIn j q ∧ V ≠ some q ∧ E ≠ some q) ∨
    ((ecallIsEvictionFieldsEnabled s args.tableId && args.hasTimeout) = true ∧
      j = args.tableId ∧ q = s.nextRule)
  evicted : ∀ e, E = some e → s.GroupedIn args.tableId e ∧ V ≠ some e
  notEvicted : E = none ↔
    ecallOftableClsCount s args.tableId + (if V.isSome then 0 else 1)
      ≤ ecallOftableMflows s args.tableId ∨ ∀ q, s.GroupedIn args.tableId q → V = some q
  newRule : (s'.clsRule s.nextRule).match = minimatchInit args.match ∧
    (s'.clsRule s.nextRule).priority = args.priority
  store : ∀ q, s.LiveRule q → (s'.clsRule q).match = (s.clsRule q).match ∧
    (s'.clsRule q).priority = (s.clsRule q).priority
  clsRules : s'.clsRules = (ecallClsRuleInit s args.cr args.match args.priority).clsRules
  oClsRule : s'.oClsRule = (ecallClsRuleInit s args.cr args.match args.priority).oClsRule
  fields : SameFields s s'
  outVictim : out.victim = V.map s.oClsRule
  outEvict : out.evict = E.map s.oClsRule
  overflow : E ≠ none → out.tableOverflow = true
  accepted : out.isReadOnly = false ∧ out.isDeletionPending = false ∧
    out.isRuleOverlapping = false ∧ out.isRuleModifiable = true

/-- The new rule displaces the victim. -/
theorem init_replaceVictim (h : BridgeOk P s) {cr : UtAddr} (hnew : s.NewAddr cr) {m : Match}
    (hm : P m) {p : Nat} {v : RuleId} :
    replaceVictim (ecallClsRuleInit s cr m p) i s.nextRule = some v ↔ IsVictim s i m p v := by
  have hnot : s.nextRule ∉ (ecallClsRuleInit s cr m p).rules i := h.toEnclaveOk.nextRule_not_mem i
  rw [replaceVictim_eq_some (ecallClsRuleInit_bridge h hnew hm p).toEnclaveOk hnot,
    ecallClsRuleInit_clsRule_self]
  have hrules : (ecallClsRuleInit s cr m p).rules i = s.rules i := rfl
  rw [hrules]
  constructor
  · rintro ⟨hv, hmatch, hprio⟩
    have hne : v ≠ s.nextRule := ne_of_mem_of_not_mem hv hnot
    rw [ecallClsRuleInit_clsRule hne] at hmatch hprio
    exact ⟨hv, hmatch, hprio⟩
  · rintro ⟨hv, hmatch, hprio⟩
    have hne : v ≠ s.nextRule := ne_of_mem_of_not_mem hv hnot
    rw [ecallClsRuleInit_clsRule hne]
    exact ⟨hv, hmatch, hprio⟩

/-- The new rule is in the table in place of the victim `V`, and nothing has been evicted. -/
structure FlowPlaced (P : Match → Prop) (s : Enclave) (args : AddFlowArgs) (s' : Enclave)
    (V : Option RuleId) : Prop where
  ok : BridgeOk P s'
  nTables : s'.nTables = s.nTables
  victim : ∀ v, V = some v ↔ IsVictim s args.tableId args.match args.priority v
  rules : ∀ j q, q ∈ s'.rules j ↔
    (j = args.tableId ∧ q = s.nextRule) ∨ (q ∈ s.rules j ∧ V ≠ some q)
  groupedIn : ∀ j q, s'.GroupedIn j q ↔ (s.GroupedIn j q ∧ V ≠ some q) ∨
    ((ecallIsEvictionFieldsEnabled s args.tableId && args.hasTimeout) = true ∧
      j = args.tableId ∧ q = s.nextRule)
  count : ecallOftableClsCount s' args.tableId
    = ecallOftableClsCount s args.tableId + if V.isSome then 0 else 1
  maxFlows : ecallOftableMflows s' args.tableId = ecallOftableMflows s args.tableId
  newRule : (s'.clsRule s.nextRule).match = minimatchInit args.match ∧
    (s'.clsRule s.nextRule).priority = args.priority
  store : ∀ q, s.LiveRule q → (s'.clsRule q).match = (s.clsRule q).match ∧
    (s'.clsRule q).priority = (s.clsRule q).priority
  clsRules : s'.clsRules = (ecallClsRuleInit s args.cr args.match args.priority).clsRules
  oClsRule : s'.oClsRule = (ecallClsRuleInit s args.cr args.match args.priority).oClsRule
  fields : SameFields s s'

/-- The members of the old rules stay what they were. -/
theorem ecallClsRuleInit_old (h : ShadowsOk s) {q : RuleId} (hq : s.LiveRule q) (a : UtAddr)
    (m : Match) (p : Nat) : (ecallClsRuleInit s a m p).clsRule q = s.clsRule q ∧
      (ecallClsRuleInit s a m p).oClsRule q = s.oClsRule q := by
  have hne : q ≠ s.nextRule := Nat.ne_of_lt (h.rule_lt hq)
  exact ⟨ecallClsRuleInit_clsRule hne, ecallClsRuleInit_oClsRule hne⟩

theorem Placed.flowPlaced {args : AddFlowArgs} {s3 : Enclave} (h : BridgeOk P s)
    (hnew : s.NewAddr args.cr) (hm : P args.match)
    (hplaced : Placed P (ecallClsRuleInit s args.cr args.match args.priority) s3 args.tableId
      s.nextRule (ecallIsEvictionFieldsEnabled s args.tableId && args.hasTimeout)) :
    FlowPlaced P s args s3 (replaceVictim
      (ecallClsRuleInit s args.cr args.match args.priority) args.tableId s.nextRule) where
  ok := hplaced.ok
  nTables := hplaced.nTables
  victim v := init_replaceVictim h hnew hm
  rules := hplaced.rules
  groupedIn j q := by
    obtain ⟨-, hev, hgroups⟩ :=
      ecallClsRuleInit_groups h.eviction args.cr args.match args.priority
    have hinit : (ecallClsRuleInit s args.cr args.match args.priority).GroupedIn j q ↔
        s.GroupedIn j q := by
      simp only [Enclave.GroupedIn, hev, hgroups]
    rw [hplaced.groupedIn, hinit]
  count := hplaced.count
  maxFlows := hplaced.maxFlows args.tableId
  newRule := by
    rw [(hplaced.store _).1, (hplaced.store _).2, ecallClsRuleInit_clsRule_self]
    exact ⟨rfl, rfl⟩
  store q hq := by
    rw [(hplaced.store q).1, (hplaced.store q).2, (ecallClsRuleInit_old h.shadows hq _ _ _).1]
    exact ⟨rfl, rfl⟩
  clsRules := hplaced.clsRules
  oClsRule := hplaced.oClsRule
  fields := hplaced.fields

section Limit

variable {args : AddFlowArgs} {out : AddFlowOut} {V : Option RuleId} {s3 s4 : Enclave} {q : RuleId}

/-- A rule in a group, other than the new one, was in that group before. -/
theorem FlowPlaced.groupedIn_old (hp : FlowPlaced P s args s3 V) (hq : q ≠ s.nextRule) :
    s3.GroupedIn args.tableId q ↔ s.GroupedIn args.tableId q ∧ V ≠ some q := by
  rw [hp.groupedIn]
  simp [hq]

/-- The table is within its limit, or there is no rule to evict. -/
theorem FlowPlaced.added_none (hp : FlowPlaced P s args s3 V)
    (hstop : ecallOftableClsCount s3 args.tableId ≤ ecallOftableMflows s3 args.tableId ∨
      ∀ q, s.GroupedIn args.tableId q → V = some q)
    (hvictim : out.victim = V.map s.oClsRule) (hevict : out.evict = none)
    (haccepted : out.isReadOnly = false ∧ out.isDeletionPending = false ∧
      out.isRuleOverlapping = false ∧ out.isRuleModifiable = true) :
    FlowAdded P s args s3 out V none where
  ok := hp.ok
  nTables := hp.nTables
  victim := hp.victim
  rules j q := by simp [hp.rules]
  groupedIn j q := by simp [hp.groupedIn]
  evicted := by simp
  notEvicted := by
    rw [hp.count, hp.maxFlows] at hstop
    exact iff_of_true rfl hstop
  newRule := hp.newRule
  store := hp.store
  clsRules := hp.clsRules
  oClsRule := hp.oClsRule
  fields := hp.fields
  outVictim := hvictim
  outEvict := hevict
  overflow := by simp
  accepted := haccepted

/-- The table is beyond its limit, and rule `q` is taken out. -/
theorem FlowPlaced.added_some (h : BridgeOk P s) (hp : FlowPlaced P s args s3 V)
    (hover : ecallOftableMflows s3 args.tableId < ecallOftableClsCount s3 args.tableId)
    (hq : s3.GroupedIn args.tableId q) (hqr : q ≠ s.nextRule) (hcl : Cleared P s3 s4 [q])
    (hvictim : out.victim = V.map s.oClsRule) (hevict : out.evict = some (s3.oClsRule q))
    (hoverflow : out.tableOverflow = true)
    (haccepted : out.isReadOnly = false ∧ out.isDeletionPending = false ∧
      out.isRuleOverlapping = false ∧ out.isRuleModifiable = true) :
    FlowAdded P s args s4 out V (some q) := by
  obtain ⟨hqs, hqv⟩ := (hp.groupedIn_old hqr).mp hq
  have hlive : s.LiveRule q := h.live _ q (h.installed _ q hqs)
  exact
    { ok := hcl.ok
      nTables := hcl.nTables.trans hp.nTables
      victim := hp.victim
      rules := fun j x => by
        rw [hcl.mem_rules, hp.rules, List.mem_singleton]
        constructor
        · rintro ⟨hx | ⟨hx, hxv⟩, hxq⟩
          · exact .inl hx
          · exact .inr ⟨hx, hxv, fun heq => hxq (Option.some.inj heq).symm⟩
        · rintro (⟨rfl, rfl⟩ | ⟨hx, hxv, hxq⟩)
          · exact ⟨.inl ⟨rfl, rfl⟩, Ne.symm hqr⟩
          · exact ⟨.inr ⟨hx, hxv⟩, fun heq => hxq (heq ▸ rfl)⟩
      groupedIn := fun j x => by
        rw [hcl.groupedIn, hp.groupedIn, List.mem_singleton]
        constructor
        · rintro ⟨⟨hx, hxv⟩ | hx, hxq⟩
          · exact .inl ⟨hx, hxv, fun heq => hxq (Option.some.inj heq).symm⟩
          · exact .inr hx
        · rintro (⟨hx, hxv, hxq⟩ | ⟨hb, rfl, rfl⟩)
          · exact ⟨.inl ⟨hx, hxv⟩, fun heq => hxq (heq ▸ rfl)⟩
          · exact ⟨.inr ⟨hb, rfl, rfl⟩, Ne.symm hqr⟩
      evicted := fun e he => by
        cases he
        exact ⟨hqs, hqv⟩
      notEvicted := by
        rw [hp.count, hp.maxFlows] at hover
        refine iff_of_false (by simp) ?_
        rintro (hle | hall)
        · omega
        · exact hqv (hall q hqs)
      newRule := by
        rw [hcl.clsRule]
        exact hp.newRule
      store := fun x hx => by
        rw [hcl.clsRule]
        exact hp.store x hx
      clsRules := hcl.clsRules.trans hp.clsRules
      oClsRule := hcl.oClsRule.trans hp.oClsRule
      fields := fun j => (hcl.fields j).trans (hp.fields j)
      outVictim := hvictim
      outEvict := by
        rw [hevict, hp.oClsRule, (ecallClsRuleInit_old h.shadows hlive _ _ _).2]
        rfl
      overflow := fun _ => hoverflow
      accepted := haccepted }

end Limit

/-- The outcome of `installFlow` on the new shadow. -/
theorem installFlow_added {args : AddFlowArgs} (h : BridgeOk P s) (hnew : s.NewAddr args.cr)
    (hm : P args.match) (hro : ecallOftableIsReadonly s args.tableId = false) :
    ∃ s' out V E, installFlow (ecallClsRuleInit s args.cr args.match args.priority) args
        AddFlowOut.init = some (s', out) ∧ FlowAdded P s args s' out V E := by
  have h1 := ecallClsRuleInit_bridge h hnew hm args.priority
  have hlook := ecallClsRuleInit_lookup (m := args.match) (p := args.priority) h.shadows hnew
  have hnot : ∀ j, s.nextRule ∉ s.rules j := fun j => h.toEnclaveOk.nextRule_not_mem j
  obtain ⟨s3, s', out3, vid, vidMask, hplaced, hevict, -, -, hinst⟩ :=
    installFlow_bridge h1 hlook hnot hro AddFlowOut.init
  have hp := hplaced.flowPlaced h hnew hm
  generalize replaceVictim (ecallClsRuleInit s args.cr args.match args.priority) args.tableId
    s.nextRule = V at hp hevict
  have hvictim : V.map (ecallClsRuleInit s args.cr args.match args.priority).oClsRule
      = V.map s.oClsRule := by
    cases V with
    | none => rfl
    | some v =>
      have hlive := h.live _ v ((hp.victim v).mp rfl).1
      simp only [Option.map_some, (ecallClsRuleInit_old h.shadows hlive _ _ _).2]
  have hlook3 : sgxRuleFromUtCr s3 args.cr = some s.nextRule := by
    rw [← hlook]
    unfold sgxRuleFromUtCr
    rw [hp.clsRules]
  have hev := evictForFlow_bridge (i := args.tableId) hp.ok hlook3
    { AddFlowOut.init with victim := V.map (ecallClsRuleInit s args.cr args.match
        args.priority).oClsRule }
  rw [hevict, hvictim] at hev
  rcases hev with ⟨hle, hev⟩ | ⟨hlt, hall, hev⟩ | ⟨hlt, s4, q, hq, hqr, hcl, hev⟩
  · obtain ⟨rfl, rfl⟩ := Prod.mk.inj (Option.some.inj hev)
    exact ⟨s', _, V, none, hinst, hp.added_none (.inl hle) rfl rfl ⟨rfl, rfl, rfl, rfl⟩⟩
  · obtain ⟨rfl, rfl⟩ := Prod.mk.inj (Option.some.inj hev)
    refine ⟨s', _, V, none, hinst, hp.added_none (.inr fun q hq => ?_) rfl rfl
      ⟨rfl, rfl, rfl, rfl⟩⟩
    -- only the new rule is in a group
    have hne : q ≠ s.nextRule := ne_of_mem_of_not_mem (h.installed _ q hq) (hnot _)
    by_contra hv
    exact hne (hall q ((hp.groupedIn_old hne).mpr ⟨hq, hv⟩))
  · obtain ⟨rfl, rfl⟩ := Prod.mk.inj (Option.some.inj hev)
    exact ⟨s', _, V, some q, hinst,
      hp.added_some h hlt hq hqr hcl rfl rfl rfl ⟨rfl, rfl, rfl, rfl⟩⟩

/-- `ecall_add_flow` keeps the invariant. -/
theorem ecallAddFlow_bridge {args : AddFlowArgs} {out : AddFlowOut} (h : BridgeOk P s)
    (hnew : s.NewAddr args.cr) (hm : P args.match) (hs : ecallAddFlow s args = some (s', out)) :
    BridgeOk P s' := by
  rcases ecallAddFlow_cases hs with ⟨-, rfl, -⟩ | ⟨-, hdes, -⟩ | ⟨hnot, hinst⟩
  · exact h
  · obtain ⟨s1, h1, hok, -⟩ := initDestroy_bridge h hnew hm args.priority
    rw [hdes, Option.some.injEq] at h1
    exact h1 ▸ hok
  · obtain ⟨s1, out1, V, E, h1, hadded⟩ :=
      installFlow_added h hnew hm (FlowRefused.readonly hnot)
    rw [hinst, Option.some.injEq, Prod.mk.injEq] at h1
    exact h1.1 ▸ hadded.ok

end OvsSgx
