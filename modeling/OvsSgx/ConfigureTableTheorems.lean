/-
OvsSgx.ConfigureTableTheorems — both builds configure a table alike.

Enabling eviction on new fields empties the groups of the table; then each
build puts the installed rules with a timeout into groups, one after the
other or from two pages. The bridges that result have the same configuration
and the same rules in groups. A direct call without the optimization
transfers one field only, so the builds differ for two fields or more.
-/
import OvsSgx.ConfigureTable
import OvsSgx.CollectRulesTheorems

namespace OvsSgx

open BufferedRead

/-! ## Adding rules to groups -/

section Adding

variable {P : Match → Prop} {s s' s1 : Enclave} {i : Nat} {T : List RuleId} {r : RuleId}

theorem SameFields.trans {s'' : Enclave} (h : SameFields s s') (h' : SameFields s' s'') :
    SameFields s s'' :=
  fun j => (h' j).trans (h j)

theorem EvictionOk.evictGroup_eq_none (h : EvictionOk s) :
    s.evictGroup r = none ↔ ∀ j, ¬ s.GroupedIn j r := by
  constructor
  · rintro hnone j ⟨g, -, hg⟩
    rw [hnone] at hg
    cases hg
  · intro hno
    cases hg : s.evictGroup r with
    | none => rfl
    | some g =>
      obtain ⟨-, j, hj⟩ := h.grouped r g hg
      exact absurd ⟨g, hj, hg⟩ (hno j)

/-- The rules `T` have been added to the groups of table `i`, nothing else has changed. -/
structure Joined (s s' : Enclave) (i : Nat) (T : List RuleId) : Prop where
  fields : SameFields s s'
  regrouped : Regrouped s s' fun j y => s.GroupedIn j y ∨ (j = i ∧ y ∈ T)

theorem Joined.refl (h : EvictionOk s) (i : Nat) : Joined s s i [] :=
  ⟨fun _ => rfl, h, SameRules.refl s, by simp⟩

/-- One more rule, before the others. -/
theorem Joined.cons (h : Joined s s1 i [r]) (h' : Joined s1 s' i T) : Joined s s' i (r :: T) := by
  refine ⟨h.fields.trans h'.fields, h'.regrouped.ok,
    h.regrouped.same.trans h'.regrouped.same, fun j y => ?_⟩
  rw [h'.regrouped.groupedIn, h.regrouped.groupedIn, List.mem_singleton, List.mem_cons]
  tauto

/-- Rules without a group that are found and all different. -/
structure Joinable (s : Enclave) (T : List RuleId) : Prop where
  ok : EvictionOk s
  shadows : ShadowsOk s
  live : ∀ r ∈ T, s.LiveRule r
  free : ∀ r ∈ T, s.evictGroup r = none
  nodup : T.Nodup

theorem Joinable.tail (h : Joinable s (r :: T)) : Joinable s T :=
  ⟨h.ok, h.shadows, fun q hq => h.live q (List.mem_cons_of_mem r hq),
    fun q hq => h.free q (List.mem_cons_of_mem r hq), (List.nodup_cons.mp h.nodup).2⟩

theorem Joinable.sublist {T' : List RuleId} (h : Joinable s T) (hT : T'.Sublist T) :
    Joinable s T' :=
  ⟨h.ok, h.shadows, fun q hq => h.live q (hT.subset hq), fun q hq => h.free q (hT.subset hq),
    h.nodup.sublist hT⟩

/-- Adding the first rule leaves the others as they were. -/
theorem Joinable.join (h : Joinable s (r :: T)) (hen : (s.oftable i).evictionFields ≠ none)
    (p q : Nat) (node : HeapNode) :
    ∃ s1, ecallEvgAddRule s i (s.oClsRule r) p q node = some s1 ∧ Joined s s1 i [r] ∧
      Joinable s1 T := by
  have hr := h.live r (by simp)
  obtain ⟨s1, hs1, hfields, hre⟩ := ecallEvgAddRule_ok h.ok (h.shadows.lookup_self hr) hen
    (h.free r (by simp)) (h.shadows.rule_lt hr) p q node
  have hjoined : Joined s s1 i [r] := by
    refine ⟨hfields, hre.ok, hre.same, fun j y => ?_⟩
    rw [hre.groupedIn, List.mem_singleton]
  refine ⟨s1, hs1, hjoined, hre.ok, hre.same.shadows h.shadows, fun y hy => ?_, fun y hy => ?_,
    (List.nodup_cons.mp h.nodup).2⟩
  · exact hre.same.liveRule.mpr (h.live y (List.mem_cons_of_mem r hy))
  · rw [hre.ok.evictGroup_eq_none]
    intro j hj
    rcases (hre.groupedIn j y).mp hj with hold | ⟨-, rfl⟩
    · exact (h.ok.evictGroup_eq_none.mp (h.free y (List.mem_cons_of_mem r hy))) j hold
    · exact (List.nodup_cons.mp h.nodup).1 hy

/-- `ecall_eviction_group_add_rules`, one entry per rule. -/
theorem ecallEvictionGroupAddRules_joined (priority : Nat) (data : UtAddr → Nat × HeapNode) :
    ∀ (T : List RuleId) (s : Enclave), Joinable s T → (s.oftable i).evictionFields ≠ none →
      ∃ s', ecallEvictionGroupAddRules s i priority
          ((T.map s.oClsRule).map fun a => (a, data a)) = some s' ∧ Joined s s' i T := by
  intro T
  induction T with
  | nil =>
    intro s h _
    exact ⟨s, rfl, Joined.refl h.ok i⟩
  | cons r T ih =>
    intro s h hen
    obtain ⟨s1, hs1, hjoined, h1⟩ :=
      h.join hen priority (data (s.oClsRule r)).1 (data (s.oClsRule r)).2
    have hen1 : (s1.oftable i).evictionFields ≠ none := by rw [hjoined.fields i]; exact hen
    obtain ⟨s', hs', hjoined'⟩ := ih s1 h1 hen1
    rw [hjoined.regrouped.same.oClsRule] at hs'
    refine ⟨s', ?_, hjoined.cons hjoined'⟩
    simpa [ecallEvictionGroupAddRules, hs1] using hs'

theorem evictionGroupAddRule_skip {o : Ofproto} {a : UtAddr}
    (h : (o.rule a).mayExpire = false) : evictionGroupAddRule o a = some o := by
  simp [evictionGroupAddRule, h]

theorem evictionGroupAddRule_expiring {o : Ofproto} {a : UtAddr}
    (hen : ecallIsEvictionFieldsEnabled o.enclave (o.rule a).tableId = true)
    (h : (o.rule a).mayExpire = true) :
    evictionGroupAddRule o a =
      (ecallEvgAddRule o.enclave (o.rule a).tableId a (evictionGroupPriority o 0).1
        (o.rule a).evictionPriority (o.rule a).evgNode).map fun s =>
          { (evictionGroupPriority o 0).2 with enclave := s } := by
  simp [evictionGroupAddRule, evictionGroupPriority, hen, h, Option.map_eq_bind]

/-- `eviction_group_add_rule` on one rule after the other. -/
theorem evictionGroupAddRule_joined :
    ∀ (T : List RuleId) (o : Ofproto), Joinable o.enclave T →
      (o.enclave.oftable i).evictionFields ≠ none →
      (∀ r ∈ T, (o.rule (o.enclave.oClsRule r)).tableId = i) →
      ∃ o', (T.map o.enclave.oClsRule).foldlM evictionGroupAddRule o = some o' ∧
        Joined o.enclave o'.enclave i
          (T.filter fun r => (o.rule (o.enclave.oClsRule r)).mayExpire) := by
  intro T
  induction T with
  | nil =>
    intro o h _ _
    exact ⟨o, rfl, Joined.refl h.ok i⟩
  | cons r T ih =>
    intro o h hen hid
    have hidT : ∀ q ∈ T, (o.rule (o.enclave.oClsRule q)).tableId = i := fun q hq =>
      hid q (List.mem_cons_of_mem r hq)
    rw [List.map_cons, List.foldlM_cons, Option.bind_eq_bind]
    cases hexp : (o.rule (o.enclave.oClsRule r)).mayExpire with
    | false =>
      rw [evictionGroupAddRule_skip hexp, Option.bind_some,
        List.filter_cons_of_neg (by simp [hexp])]
      exact ih o h.tail hen hidT
    | true =>
      have hidr := hid r (by simp)
      have henb := isEvictionFieldsEnabled_iff.mpr hen
      rw [evictionGroupAddRule_expiring (by rw [hidr]; exact henb) hexp, hidr]
      obtain ⟨s1, hs1, hjoined, h1⟩ := h.join hen (evictionGroupPriority o 0).1
        (o.rule (o.enclave.oClsRule r)).evictionPriority (o.rule (o.enclave.oClsRule r)).evgNode
      have hen1 : (s1.oftable i).evictionFields ≠ none := by rw [hjoined.fields i]; exact hen
      have haddr := hjoined.regrouped.same.oClsRule
      obtain ⟨o', ho', hjoined'⟩ := ih { (evictionGroupPriority o 0).2 with enclave := s1 } h1
        hen1 (by rw [haddr]; exact hidT)
      refine ⟨o', ?_, ?_⟩
      · rw [hs1, Option.map_some, Option.bind_some, ← haddr]
        exact ho'
      · simp only [List.filter_cons, hexp, if_true]
        rw [← haddr]
        exact hjoined.cons hjoined'

end Adding

/-! ## Enabling eviction on new fields -/

section Enabling

variable {P : Match → Prop} {s : Enclave} {o : Ofproto} {t : Transport} {i : Nat}
  {fields : List MfSubfield} {v : U32}

/-- The state after `ecall_oftable_enable_eviction` on new fields: eviction is enabled and no
rule of the table is in a group. -/
structure Emptied (s s1 : Enclave) (i : Nat) (fields : List MfSubfield) : Prop where
  fields : (s1.oftable i).evictionFields = some fields
  same : SameRules s s1
  groupedIn : ∀ j y, s1.GroupedIn j y ↔ s.GroupedIn j y ∧ j ≠ i
  rules : clsCursorRules s1.clsRule (s1.oftable i).cls none = s.rules i
  joinable : Joinable s1 (s.rules i)

theorem ecallOftableEnableEviction_emptied (h : BridgeOk P s)
    (hnew : (s.oftable i).evictionFields ≠ some fields) :
    ∃ s1, ecallOftableEnableEviction s i fields v = some (s1, false) ∧ Emptied s s1 i fields := by
  obtain ⟨s1, b, hs1, hre⟩ := ecallOftableEnableEviction_ok (i := i) h.eviction fields v
  have hcall := hs1
  unfold ecallOftableEnableEviction at hcall
  rw [if_neg hnew] at hcall
  obtain ⟨s0, -, hcall⟩ := Option.bind_eq_some_iff.mp hcall
  cases hcall
  have hok := hre.same.ok h.toEnclaveOk
  refine ⟨_, hs1, by rw [setOftable_oftable_self], hre.same, fun j y => ?_, ?_, hre.ok, hok.shadows,
    fun r hr => ?_, fun r hr => ?_, (h.cls i).toTablesOk.rules_nodup⟩
  · rw [hre.groupedIn]
    simp
  · rw [clsCursorRules_none (hok.cls i)]
    exact hre.same.rules i
  · exact hre.same.liveRule.mpr (h.live i r hr)
  · rw [hre.ok.evictGroup_eq_none]
    intro j hj
    obtain ⟨hgrouped, hne⟩ := (hre.groupedIn j r).mp hj
    exact hne.elim (by simp) fun hji => hji (h.disjoint j i r (h.installed j r hgrouped) hr)

/-- The rules that the optimized build gets, in one page or two. -/
theorem evictionRules_eq {s1 : Enclave} (h : Emptied s s1 i fields) :
    ∃ p, ecallOftableGetClsRules s1 i 0 evictionBufferSize = some p ∧
      evictionRules s1 i p = some ((s.rules i).map s1.oClsRule) := by
  have hscan : ∀ start cap, ecallOftableGetClsRules s1 i start cap =
      some ⟨(s.rules i).length, (((s.rules i).drop start).take cap).map s1.oClsRule⟩ := by
    intro start cap
    unfold ecallOftableGetClsRules
    rw [h.rules]
    exact PagedScan.scan_eq fun r _ => rfl
  refine ⟨_, hscan 0 evictionBufferSize, ?_⟩
  unfold evictionRules
  dsimp only
  split
  · rename_i hlen
    simp only [List.length_map, List.length_take, List.drop_zero] at hlen
    rw [List.drop_zero, List.take_of_length_le (by omega)]
  · rename_i hlen
    simp only [List.length_map, List.length_take, List.drop_zero] at hlen ⊢
    have hmin : min evictionBufferSize (s.rules i).length = evictionBufferSize := by omega
    rw [hscan, hmin, Option.bind_eq_bind, Option.bind_some]
    exact PagedScan.readFirst_pages s1.oClsRule evictionBufferSize (s.rules i)

/-- The installed rules of table `i` with a timeout. -/
def Ofproto.expiring (o : Ofproto) (i : Nat) : List RuleId :=
  (o.enclave.rules i).filter fun r => (o.rule (o.enclave.oClsRule r)).mayExpire

theorem expiringEntries_eq (s1 : Enclave) (h : s1.oClsRule = o.enclave.oClsRule) :
    expiringEntries o ((o.enclave.rules i).map s1.oClsRule) =
      ((o.expiring i).map s1.oClsRule).map fun a =>
        (a, (o.rule a).evictionPriority, (o.rule a).evgNode) := by
  unfold expiringEntries Ofproto.expiring
  rw [h, List.filter_map]
  rfl

/-- The optimized build puts the rules with a timeout into groups. -/
theorem oftableEnableEvictionOptimized_joined {s1 : Enclave}
    (hs1 : ecallOftableEnableEviction o.enclave i fields v = some (s1, false))
    (he : Emptied o.enclave s1 i fields) :
    ∃ o', oftableEnableEvictionOptimized o i fields v = some o' ∧
      Joined s1 o'.enclave i (o.expiring i) := by
  have hen : (s1.oftable i).evictionFields ≠ none := by rw [he.fields]; exact Option.some_ne_none _
  obtain ⟨p, hp, hrules⟩ := evictionRules_eq he
  obtain ⟨s', hs', hjoined⟩ := ecallEvictionGroupAddRules_joined (i := i)
    (evictionGroupPriority o 0).1 (fun a => ((o.rule a).evictionPriority, (o.rule a).evgNode))
    (o.expiring i) s1 (he.joinable.sublist List.filter_sublist) hen
  refine ⟨{ (evictionGroupPriority o 0).2 with enclave := s' }, ?_, hjoined⟩
  have henb : ecallIsEvictionFieldsEnabled s1 i = true := isEvictionFieldsEnabled_iff.mpr hen
  have hcall : ecallGetClsRulesAndEnableEviction o.enclave i evictionBufferSize fields v =
      some (s1, false, true, p) := by
    simp [ecallGetClsRulesAndEnableEviction, hs1, henb, hp]
  have hentries := expiringEntries_eq (i := i) s1 he.same.oClsRule
  have hs2 : ecallEvictionGroupAddRules s1 i (evictionGroupPriority o 0).1
      (expiringEntries { (evictionGroupPriority o 0).2 with enclave := s1 }
        ((o.enclave.rules i).map s1.oClsRule)) = some s' := by
    rw [← hs', ← hentries]
    rfl
  unfold oftableEnableEvictionOptimized
  simp only [hcall, Option.bind_eq_bind, Option.bind_some, Bool.not_true, Bool.or_self,
    Bool.false_eq_true, if_false, hrules]
  exact Option.bind_eq_some_iff.mpr ⟨s', hs2, rfl⟩

/-- So does the other build, one rule after the other. -/
theorem oftableEnableEviction_joined (h : Sane o) {s1 : Enclave}
    (hs1 : ecallOftableEnableEviction o.enclave i fields v = some (s1, false))
    (he : Emptied o.enclave s1 i fields) (ht : deliverFields t fields = some fields) :
    ∃ o', oftableEnableEviction t o i fields v = some o' ∧
      Joined s1 o'.enclave i (o.expiring i) := by
  have hen : (s1.oftable i).evictionFields ≠ none := by rw [he.fields]; exact Option.some_ne_none _
  have haddr := he.same.oClsRule
  have hid : ∀ r ∈ o.enclave.rules i, (o.rule (s1.oClsRule r)).tableId = i := by
    intro r hr
    rw [haddr]
    exact (h.tableId i _ (h.enclave.toEnclaveOk.installed_self hr)).2
  obtain ⟨o', ho', hjoined⟩ := evictionGroupAddRule_joined (i := i) (o.enclave.rules i)
    { o with enclave := s1 } he.joinable hen hid
  have hrules : [i].flatMap (fun j => clsCursorRules s1.clsRule (s1.oftable j).cls none) =
      o.enclave.rules i := by
    rw [List.flatMap_singleton]
    exact he.rules
  have hcount : ecallOftableEnableEvictionC s1 i = (o.enclave.rules i).length := by
    rw [ecallOftableEnableEvictionC, ecallOftableEnableEvictionR, readTables_null, hrules]
  refine ⟨o', ?_, ?_⟩
  · unfold oftableEnableEviction
    simp only [ht, hs1, Option.bind_eq_bind, Option.bind_some, Bool.false_or, hcount]
    split
    · rename_i hzero
      rw [List.length_eq_zero_iff.mp (beq_iff_eq.mp hzero)] at ho'
      exact ho'
    · rw [ecallOftableEnableEvictionR, ← hrules, filled_readTables (by decide), hrules,
        Option.bind_some]
      exact ho'
  · unfold Ofproto.expiring
    rw [← haddr]
    exact hjoined

end Enabling

/-! ## Both builds -/

/-- Two enclaves with the same configuration of the tables, the same classifiers and the same
rules in eviction groups. -/
structure Alike (s s' : Enclave) : Prop where
  flags : ∀ j, (s'.oftable j).flags = (s.oftable j).flags
  maxFlows : ∀ j, (s'.oftable j).maxFlows = (s.oftable j).maxFlows
  fields : ∀ j, (s'.oftable j).evictionFields = (s.oftable j).evictionFields
  cls : ∀ j, (s'.oftable j).cls = (s.oftable j).cls
  clsRule : s'.clsRule = s.clsRule
  groupedIn : ∀ j r, s'.GroupedIn j r ↔ s.GroupedIn j r

/-- Two bridges with the same configuration. -/
structure SameConfiguration (b b' : ConfiguredBridge) : Prop where
  name : b'.name = b.name
  state : b'.state = b.state
  enclave : Alike b.ofproto.enclave b'.ofproto.enclave

/-- Both builds return, with the same configuration, and if the fields are new, the rules in
the groups of the table are the installed ones with a timeout. -/
def ConfigureAgrees (t : Transport) (b : ConfiguredBridge) (i : Nat) (st : TableSettings)
    (v : U32) : Prop :=
  ∃ b1 b2, configureTableOptimized b i st v = some b1 ∧ configureTable t b i st v = some b2 ∧
    SameConfiguration b1 b2 ∧
    ∀ fields, st.groups = some fields → (b.oftable i).flags.readonly = false →
      (b.oftable i).evictionFields ≠ some fields →
      ∀ r, b1.ofproto.enclave.GroupedIn i r ↔ r ∈ b.ofproto.expiring i

section Agreement

variable {t : Transport} {b : ConfiguredBridge} {i : Nat} {st : TableSettings} {v : U32}
  {fields : List MfSubfield}

theorem Alike.refl (s : Enclave) : Alike s s :=
  ⟨fun _ => rfl, fun _ => rfl, fun _ => rfl, fun _ => rfl, rfl, fun _ _ => Iff.rfl⟩

/-- The same rules have been added to the groups of the same table. -/
theorem Joined.alike {s s1 s2 : Enclave} {T : List RuleId} (h1 : Joined s s1 i T)
    (h2 : Joined s s2 i T) : Alike s1 s2 where
  flags j := (h2.regrouped.same.flags j).trans (h1.regrouped.same.flags j).symm
  maxFlows j := (h2.regrouped.same.maxFlows j).trans (h1.regrouped.same.maxFlows j).symm
  fields j := (h2.fields j).trans (h1.fields j).symm
  cls j := (h2.regrouped.same.cls j).trans (h1.regrouped.same.cls j).symm
  clsRule := h2.regrouped.same.clsRule.trans h1.regrouped.same.clsRule.symm
  groupedIn j r := (h2.regrouped.groupedIn j r).trans (h1.regrouped.groupedIn j r).symm

theorem mflowsSet_groupedIn (s : Enclave) (i m j : Nat) (r : RuleId) :
    (ecallOftableMflowsSet s i m).GroupedIn j r ↔ s.GroupedIn j r :=
  (sameGroups_setOftable s i { s.oftable i with maxFlows := m } rfl rfl rfl rfl).groupedIn j r

/-- Setting the limit changes nothing else. -/
theorem Alike.mflowsSet {s s' : Enclave} (h : Alike s s') (m : Nat) :
    Alike (ecallOftableMflowsSet s i m) (ecallOftableMflowsSet s' i m) := by
  have hupd : ∀ {β : Type} (f : Oftable → β), (∀ j, f (s'.oftable j) = f (s.oftable j)) →
      (∀ tbl, f { tbl with maxFlows := m } = f tbl) → ∀ j,
        f ((ecallOftableMflowsSet s' i m).oftable j) =
          f ((ecallOftableMflowsSet s i m).oftable j) := by
    intro β f hf hset j
    unfold ecallOftableMflowsSet
    rcases eq_or_ne j i with rfl | hji
    · rw [setOftable_oftable_self, setOftable_oftable_self, hset, hset, hf]
    · rw [setOftable_oftable_ne _ _ hji, setOftable_oftable_ne _ _ hji, hf]
  refine ⟨hupd Oftable.flags h.flags fun _ => rfl, fun j => ?_,
    hupd Oftable.evictionFields h.fields fun _ => rfl, hupd Oftable.cls h.cls fun _ => rfl,
    h.clsRule, fun j r => ?_⟩
  · unfold ecallOftableMflowsSet
    rcases eq_or_ne j i with rfl | hji
    · rw [setOftable_oftable_self, setOftable_oftable_self]
    · rw [setOftable_oftable_ne _ _ hji, setOftable_oftable_ne _ _ hji, h.maxFlows]
  · rw [mflowsSet_groupedIn, mflowsSet_groupedIn, h.groupedIn]

theorem Alike.needToEvict {s s' : Enclave} (h : Alike s s') :
    ecallNeedToEvict s' i = ecallNeedToEvict s i := by
  unfold ecallNeedToEvict ecallIsEvictionFieldsEnabled ecallOftableMflows ecallOftableClsCount
  rw [h.fields, h.maxFlows, h.cls]

/-- The end of both builds. -/
def ConfiguredBridge.finish (b : ConfiguredBridge) (o : Ofproto) (i maxFlows : Nat) :
    ConfiguredBridge :=
  let s := ecallOftableMflowsSet o.enclave i maxFlows
  { b with ofproto := { o with enclave := s } }.scheduleEviction (ecallNeedToEvict s i)

theorem scheduleEviction_ofproto (b : ConfiguredBridge) (need : Bool) :
    (b.scheduleEviction need).ofproto = b.ofproto ∧ (b.scheduleEviction need).name = b.name := by
  unfold ConfiguredBridge.scheduleEviction
  split
  · split <;> exact ⟨rfl, rfl⟩
  · exact ⟨rfl, rfl⟩

theorem scheduleEviction_state {b b' : ConfiguredBridge} (h : b'.state = b.state) (need : Bool) :
    (b'.scheduleEviction need).state = (b.scheduleEviction need).state := by
  unfold ConfiguredBridge.scheduleEviction
  rw [h]
  split
  · split <;> simp_all
  · exact h

theorem finish_enclave (b : ConfiguredBridge) (o : Ofproto) (i m : Nat) :
    (b.finish o i m).ofproto.enclave = ecallOftableMflowsSet o.enclave i m := by
  unfold ConfiguredBridge.finish
  rw [(scheduleEviction_ofproto _ _).1]

/-- From states that are alike both builds end alike. -/
theorem finish_same {o o' : Ofproto} (m : Nat) (h : Alike o.enclave o'.enclave) :
    SameConfiguration (b.finish o i m) (b.finish o' i m) := by
  refine ⟨?_, ?_, ?_⟩
  · unfold ConfiguredBridge.finish
    rw [(scheduleEviction_ofproto _ _).2, (scheduleEviction_ofproto _ _).2]
  · unfold ConfiguredBridge.finish
    dsimp only
    rw [(h.mflowsSet m).needToEvict]
    apply scheduleEviction_state
    rfl
  · rw [finish_enclave, finish_enclave]
    exact h.mflowsSet m

/-! ### The two functions -/

theorem configureTableOptimized_some (hi : i < b.ofproto.nTables)
    (hro : (b.oftable i).flags.readonly = false) (hgroups : st.groups = some fields) :
    configureTableOptimized b i st v =
      (oftableEnableEvictionOptimized b.ofproto i fields v).map fun o =>
        (b.setName i st.name).finish o i st.maxFlows := by
  have hconf : ecallOftableConfigure b i st.name st.maxFlows (some fields) =
      some (b.setName i st.name, false, false) := by
    unfold ecallOftableConfigure
    dsimp only
    rw [if_neg (by rw [ecallOftableIsReadonly]; exact (Bool.eq_false_iff.mp hro)),
      if_pos Option.isSome_some]
  unfold configureTableOptimized
  rw [if_pos hi, hgroups, hconf, Option.map_eq_bind]
  rfl

theorem configureTable_eq (hi : i < b.ofproto.nTables)
    (hro : (b.oftable i).flags.readonly = false) :
    configureTable t b i st v =
      (configureEviction t b.ofproto i st v).map fun o =>
        (b.setName i st.name).finish o i st.maxFlows := by
  unfold configureTable
  rw [if_pos hi]
  dsimp only
  rw [if_neg (by rw [ecallOftableIsReadonly]; exact (Bool.eq_false_iff.mp hro)),
    Option.map_eq_bind]
  simp only [Bool.and_comm]
  rfl

theorem deliverFields_eq (t : Transport) (fields : List MfSubfield) :
    deliverFields t fields =
      if t = .hotcall ∨ fields.length ≤ 1 then some fields else none := by
  cases t <;> simp [deliverFields]

/-- A read-only table gets its name, in both builds. -/
theorem configureAgrees_readonly (hi : i < b.ofproto.nTables)
    (hro : (b.oftable i).flags.readonly = true) : ConfigureAgrees t b i st v := by
  have hread : ecallOftableIsReadonly (b.setName i st.name).ofproto.enclave i = true := hro
  refine ⟨b.setName i st.name, b.setName i st.name, ?_, ?_, ⟨rfl, rfl, Alike.refl _⟩,
    fun fields _ hw => ?_⟩
  · unfold configureTableOptimized ecallOftableConfigure
    rw [if_pos hi]
    dsimp only
    rw [if_pos hread]
    rfl
  · unfold configureTable
    rw [if_pos hi]
    dsimp only
    rw [if_pos hread]
  · rw [hro] at hw
    cases hw

/-- Without groups both builds disable eviction. -/
theorem configureAgrees_disable (h : Sane b.ofproto) (hi : i < b.ofproto.nTables)
    (hro : (b.oftable i).flags.readonly = false) (hgroups : st.groups = none) :
    ConfigureAgrees t b i st v := by
  obtain ⟨s, hs, -⟩ := ecallOftableDisableEviction_ok (i := i) h.enclave.eviction
  have hsgx : configureEviction t b.ofproto i st v = some { b.ofproto with enclave := s } := by
    simp [configureEviction, hgroups, hs]
  refine ⟨_, _, ?_, by rw [configureTable_eq hi hro, hsgx, Option.map_some],
    ⟨rfl, rfl, Alike.refl _⟩, fun fields hf => ?_⟩
  · have hread : ¬ ecallOftableIsReadonly (b.setName i st.name).ofproto.enclave i = true := by
      rw [Bool.not_eq_true]
      exact hro
    have hs' : ecallOftableDisableEviction (b.setName i st.name).ofproto.enclave i = some s := hs
    unfold configureTableOptimized ecallOftableConfigure
    rw [if_pos hi, hgroups]
    dsimp only
    rw [if_neg hread, if_neg (by simp), hs']
    rfl
  · rw [hgroups] at hf
    cases hf

/-- With groups both builds enable eviction, if the fields arrive. -/
theorem configureAgrees_enable (h : Sane b.ofproto) (hi : i < b.ofproto.nTables)
    (hro : (b.oftable i).flags.readonly = false) (hgroups : st.groups = some fields)
    (ht : deliverFields t fields = some fields) : ConfigureAgrees t b i st v := by
  have hsgx : configureEviction t b.ofproto i st v =
      oftableEnableEviction t b.ofproto i fields v := by
    simp [configureEviction, hgroups]
  by_cases hsame : (b.oftable i).evictionFields = some fields
  · have hcall : ecallOftableEnableEviction b.ofproto.enclave i fields v =
        some (b.ofproto.enclave, true) := if_pos hsame
    have hopt : oftableEnableEvictionOptimized b.ofproto i fields v = some b.ofproto := by
      simp [oftableEnableEvictionOptimized, ecallGetClsRulesAndEnableEviction, hcall]
    have hplain : oftableEnableEviction t b.ofproto i fields v = some b.ofproto := by
      simp [oftableEnableEviction, ht, hcall]
    refine ⟨_, _, by rw [configureTableOptimized_some hi hro hgroups, hopt, Option.map_some],
      by rw [configureTable_eq hi hro, hsgx, hplain, Option.map_some],
      finish_same _ (Alike.refl _), fun fields' hf _ hne => ?_⟩
    rw [hgroups, Option.some.injEq] at hf
    subst hf
    exact absurd hsame hne
  · obtain ⟨s1, hs1, he⟩ := ecallOftableEnableEviction_emptied (v := v) h.enclave hsame
    obtain ⟨o1, ho1, hj1⟩ := oftableEnableEvictionOptimized_joined hs1 he
    obtain ⟨o2, ho2, hj2⟩ := oftableEnableEviction_joined h hs1 he ht
    refine ⟨_, _, by rw [configureTableOptimized_some hi hro hgroups, ho1, Option.map_some],
      by rw [configureTable_eq hi hro, hsgx, ho2, Option.map_some],
      finish_same _ (hj1.alike hj2), fun fields' _ _ _ r => ?_⟩
    rw [finish_enclave, mflowsSet_groupedIn, hj1.regrouped.groupedIn, he.groupedIn]
    simp

/-- The builds agree exactly when the table is read-only or all fields reach the enclave: with
hotcalls always, with direct calls if there is at most one. -/
theorem configureAgrees_iff (h : Sane b.ofproto) (hi : i < b.ofproto.nTables) :
    ConfigureAgrees t b i st v ↔
      t = .hotcall ∨ (b.oftable i).flags.readonly = true ∨
        ∀ fields, st.groups = some fields → fields.length ≤ 1 := by
  cases hro : (b.oftable i).flags.readonly with
  | true => exact iff_of_true (configureAgrees_readonly hi hro) (.inr (.inl rfl))
  | false =>
    cases hgroups : st.groups with
    | none =>
      refine iff_of_true (configureAgrees_disable h hi hro hgroups) (.inr (.inr fun fields hf => ?_))
      cases hf
    | some fields =>
      have ht := deliverFields_eq t fields
      constructor
      · rintro ⟨b1, b2, -, hb2, -⟩
        rw [configureTable_eq hi hro] at hb2
        by_contra hno
        simp only [Bool.false_eq_true, false_or, Option.some.injEq, forall_eq', not_or] at hno
        rw [if_neg (by simp [hno.1, hno.2])] at ht
        simp [configureEviction, hgroups, oftableEnableEviction, ht] at hb2
      · intro hok
        simp only [Bool.false_eq_true, false_or, Option.some.injEq, forall_eq'] at hok
        rw [if_pos hok] at ht
        exact configureAgrees_enable h hi hro hgroups ht

/-! ### A table with one flow -/

/-- A bridge with a flow that expires, in normal operation. -/
def oneFlowBridge : ConfiguredBridge := ⟨oneFlow, 0, fun _ => none, .openflow⟩

/-- No name, no flows, and two fields. -/
def twoFields : TableSettings := ⟨none, 0, some [tunIdSubfield, tunIdSubfield]⟩

theorem oneFlow_sane : Sane oneFlow := oneFlow_reachable.sane fun _ _ hc => hc

/-- With hotcalls both fields arrive. -/
theorem twoFields_agree :
    Sane oneFlow ∧ 0 < oneFlow.nTables ∧
      ConfigureAgrees .hotcall oneFlowBridge 0 twoFields 3#32 :=
  ⟨oneFlow_sane, by decide +kernel,
    (configureAgrees_iff (b := oneFlowBridge) oneFlow_sane (by decide +kernel)).mpr (.inl rfl)⟩

/-- With direct calls the build without the optimization reads beyond the one that arrives. -/
theorem twoFields_not_agree :
    ¬ ∀ t b i st v, Sane b.ofproto → i < b.ofproto.nTables → ConfigureAgrees t b i st v := by
  intro hall
  obtain ⟨b1, b2, -, hb2, -⟩ :=
    hall .ecall oneFlowBridge 0 twoFields 3#32 oneFlow_sane (by decide +kernel)
  have hnone : (configureTable .ecall oneFlowBridge 0 twoFields 3#32).isNone = true := by
    decide +kernel
  rw [hb2] at hnone
  cases hnone

end Agreement

end OvsSgx
