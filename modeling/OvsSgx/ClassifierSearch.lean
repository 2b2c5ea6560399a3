/-
OvsSgx.ClassifierSearch — the searches that ask for one priority.

`classifier_find_rule_exactly` looks for the rule with given criteria and
priority, `classifier_rule_overlaps` for one of the same priority that some
packet could match as well. Both compare compressed flows and leave their
loops early, at the maximum of a subtable and at the first rule of a list
below the priority. Under the representation invariant neither misses
anything.
-/
import OvsSgx.FlowStatsTheorems
import OvsSgx.MatchingTables

namespace OvsSgx

open RankedList

/-! ## Compressed flows under a mask -/

theorem miniflowEqualInMinimask_iff {a b : Miniflow} {mask : Minimask} :
    miniflowEqualInMinimask a b mask = true ↔ ∀ o, miniflowGet a o &&& miniflowGet mask.masks o =
      miniflowGet b o &&& miniflowGet mask.masks o := by
  have hpairs := forall_pairs (m := mask.masks)
    (P := fun o v => (miniflowGet a o ^^^ miniflowGet b o) &&& v = 0#32) (by simp)
  have hall : miniflowEqualInMinimask a b mask = true ↔
      ∀ p ∈ mask.masks.pairs, (miniflowGet a p.1 ^^^ miniflowGet b p.1) &&& p.2 = 0#32 := by
    simp [miniflowEqualInMinimask, Miniflow.pairs, List.all_eq_true]
  rw [hall, hpairs]
  exact forall_congr' fun o => xor_and_eq_zero_iff _ _ _

/-- The combined mask has the common ones of the two masks. -/
theorem miniflowGet_minimaskCombine (a b : Minimask) (o : Nat) :
    miniflowGet (minimaskCombine a b).masks o = miniflowGet a.masks o &&& miniflowGet b.masks o := by
  have hpairs : (minimaskCombine a b).masks.pairs = (combineOffsets a.masks b.masks).map fun o =>
      (o, miniflowGet a.masks o &&& miniflowGet b.masks o) := by
    show (miniOffsets (miniMap (combineOffsets a.masks b.masks))).zip
      ((combineOffsets a.masks b.masks).map _) = _
    rw [miniOffsets_combineOffsets]
    exact List.map_prod_left_eq_zip.symm
  by_cases ho : o ∈ combineOffsets a.masks b.masks
  · refine miniflowGet_of_mem ?_
    rw [hpairs]
    exact List.mem_map.mpr ⟨o, ho, rfl⟩
  · rw [miniflowGet_of_notMem (by
      show o ∉ miniOffsets (miniMap (combineOffsets a.masks b.masks))
      rwa [miniOffsets_combineOffsets])]
    by_contra hne
    refine ho (List.mem_filter.mpr ⟨?_, by simpa using fun h => hne h.symm⟩)
    have ha : o ∈ miniOffsets a.masks.map := by
      by_contra hn
      exact hne (by rw [miniflowGet_of_notMem hn]; simp)
    have hb : o ∈ miniOffsets b.masks.map := by
      by_contra hn
      exact hne (by rw [miniflowGet_of_notMem hn]; simp)
    rw [mem_miniOffsets] at ha hb ⊢
    simp only [BitVec.getLsbD_and, Bool.and_eq_true]
    obtain ha | ha := ha
    · obtain hb | hb := hb
      · exact Or.inl ⟨ha.1, ha.2, hb.2⟩
      · omega
    · obtain hb | hb := hb
      · omega
      · exact Or.inr ⟨ha.1, ha.2.1, ha.2.2, hb.2.2⟩

/-- Compressing a match loses nothing. -/
theorem minimatchExpand_minimatchInit (m : Match) : minimatchExpand (minimatchInit m) = m := by
  have hexpand : ∀ f : Flow, miniflowExpand (miniflowInit f) = f := by
    intro f
    funext k
    rw [miniflowExpand_apply, miniflowGet_miniflowInit]
    simp [Flow.u32, k.isLt]
  simp [minimatchExpand, minimatchInit, minimaskExpand, minimaskInit, hexpand]

/-- Two words that agree where both masks have ones can be merged. -/
theorem merge_word {x y m n : U32} (h : x &&& (m &&& n) = y &&& (m &&& n)) :
    (x &&& m ||| y &&& n) &&& m = x &&& m ∧ (x &&& m ||| y &&& n) &&& n = y &&& n := by
  have hbit : ∀ i, (x.getLsbD i && (m.getLsbD i && n.getLsbD i)) =
      (y.getLsbD i && (m.getLsbD i && n.getLsbD i)) := by
    intro i
    have := congrArg (fun w => w.getLsbD i) h
    simpa only [BitVec.getLsbD_and] using this
  constructor
  · refine BitVec.eq_of_getLsbD_eq fun i _ => ?_
    have := hbit i
    simp only [BitVec.getLsbD_and, BitVec.getLsbD_or]
    revert this
    cases x.getLsbD i <;> cases y.getLsbD i <;> cases m.getLsbD i <;> cases n.getLsbD i <;> simp
  · refine BitVec.eq_of_getLsbD_eq fun i _ => ?_
    have := hbit i
    simp only [BitVec.getLsbD_and, BitVec.getLsbD_or]
    revert this
    cases x.getLsbD i <;> cases y.getLsbD i <;> cases m.getLsbD i <;> cases n.getLsbD i <;> simp

/-- The packets that two rules have in common are those that agree with both, so there is one
as soon as the two flows agree where both masks have ones. -/
theorem exists_matches_iff {a b : ClsRule} :
    (∃ f, a.Matches f ∧ b.Matches f) ↔ miniflowEqualInMinimask a.match.flow b.match.flow
      (minimaskCombine a.match.mask b.match.mask) = true := by
  rw [miniflowEqualInMinimask_iff]
  constructor
  · intro h o
    obtain ⟨f, ha, hb⟩ := h
    have ha := ClsRule.matches_iff.mp ha o
    have hb := ClsRule.matches_iff.mp hb o
    rw [miniflowGet_minimaskCombine]
    calc miniflowGet a.match.flow o &&&
          (miniflowGet a.match.mask.masks o &&& miniflowGet b.match.mask.masks o)
        = miniflowGet a.match.flow o &&& miniflowGet a.match.mask.masks o &&&
          miniflowGet b.match.mask.masks o := by ac_rfl
      _ = f.u32 o &&& miniflowGet b.match.mask.masks o &&& miniflowGet a.match.mask.masks o := by
        rw [ha]
        ac_rfl
      _ = miniflowGet b.match.flow o &&&
          (miniflowGet a.match.mask.masks o &&& miniflowGet b.match.mask.masks o) := by
        rw [← hb]
        ac_rfl
  · intro h
    have hword : ∀ o, _ := fun o => merge_word (miniflowGet_minimaskCombine _ _ o ▸ h o)
    refine ⟨fun k => miniflowGet a.match.flow k &&& miniflowGet a.match.mask.masks k |||
      miniflowGet b.match.flow k &&& miniflowGet b.match.mask.masks k, fun k => ?_, fun k => ?_⟩
    · simp only [minimatchExpand, minimaskExpand, miniflowExpand_apply]
      exact (hword k).1
    · simp only [minimatchExpand, minimaskExpand, miniflowExpand_apply]
      exact (hword k).2

/-! ## The exact search -/

section Search

variable {R : RuleStore} {cls : Classifier} {target : ClsRule} {r : RuleId}

/-- Under the invariant a chain is visited as a whole. -/
theorem forEachRuleInList_eq {mask : Minimask} {e : Nat × RuleChain} (h : ChainOk R mask e) :
    forEachRuleInList R e.2 = e.2.rules :=
  reachableInList_eq _ _ h.sorted

/-- What the search finds has the criteria and the priority. -/
theorem classifierFindRuleExactly_some (h : ClassifierOk R cls)
    (hr : classifierFindRuleExactly R cls target = some r) :
    (R r).match = target.match ∧ (R r).priority = target.priority := by
  unfold classifierFindRuleExactly at hr
  obtain ⟨t, ht, hr⟩ := Option.bind_eq_some_iff.mp hr
  obtain ⟨htmem, htmask⟩ := findTable_some h.toTablesOk ht
  split at hr
  · cases hr
  · obtain ⟨c, hc, hr⟩ := Option.bind_eq_some_iff.mp hr
    obtain ⟨q, hq, hr⟩ := Option.bind_eq_some_iff.mp hr
    split at hr
    · rename_i hprio
      cases hr
      obtain ⟨hentry, hflow⟩ := findEqual_some hc
      have hchain := (h.table t htmem).chains.chain _ hentry
      have hmem : r ∈ c.rules := by
        have := List.mem_of_find?_eq_some hq
        rwa [forEachRuleInList_eq hchain] at this
      have hin := hchain.ruleIn r hmem
      exact ⟨Minimatch.ext_iff'.mpr ⟨hin.flow.trans hflow, hin.mask.trans htmask⟩, hprio.symm⟩
    · cases hr

/-- The search finds an installed rule with the criteria and the priority. -/
theorem classifierFindRuleExactly_of_mem (h : ClassifierOk R cls) (hr : r ∈ cls.rules)
    (hmatch : (R r).match = target.match) (hprio : (R r).priority = target.priority) :
    classifierFindRuleExactly R cls target = some r := by
  obtain ⟨t, ht, hrt⟩ := h.mem_rules.mp hr
  have hmask : (cls.table t).mask = target.match.mask := by
    rw [← hmatch]
    exact (h.rule_mask ht hrt).symm
  have hfind : findTable cls target.match.mask = some t := by
    rw [← hmask]
    exact findTable_of_mem h.toTablesOk ht
  have hmax : ¬ (cls.table t).maxPriority < target.priority := by
    have := (h.table t ht).max.le r hrt
    omega
  obtain ⟨e, he, hre, hin⟩ := (h.table t ht).chains.mem_rule hrt
  have hchain := (h.table t ht).chains.chain e he
  have hflow : (R e.2.head).match.flow = target.match.flow := by
    rw [← hin.flow, hmatch]
  have hhash : (miniflowHashInMinimask target.match.flow target.match.mask 0#32).toNat = e.1 := by
    rw [← hmatch, ← hin.hash_eq, hin.hash]
  have hequal := findEqual_eq_some (cls.table t) (h.table t ht).chains he hhash
  rw [hflow] at hequal
  have hscan : (forEachRuleInList R e.2).find? (fun q => decide ((R q).priority ≤ target.priority)) =
      some r := by
    rw [forEachRuleInList_eq hchain, ← hprio]
    exact find?_rank_le hchain.sorted hre
  unfold classifierFindRuleExactly
  rw [hfind, Option.bind_eq_bind, Option.bind_some, if_neg hmax, hequal, Option.bind_eq_bind,
    Option.bind_some, hscan, Option.bind_some, if_pos hprio.symm]

/-- The exact search: the installed rule with the criteria and the priority. -/
theorem classifierFindRuleExactly_iff (h : ClassifierOk R cls) :
    classifierFindRuleExactly R cls target = some r ↔
      r ∈ cls.rules ∧ (R r).match = target.match ∧ (R r).priority = target.priority := by
  constructor
  · intro hr
    exact ⟨classifierFindRuleExactly_mem h hr, classifierFindRuleExactly_some h hr⟩
  · intro hr
    exact classifierFindRuleExactly_of_mem h hr.1 hr.2.1 hr.2.2

/-! ## Overlap -/

/-- The loop over one chain. -/
theorem overlapsInList_iff {mask m : Minimask} {e : Nat × RuleChain} (h : ChainOk R m e) :
    overlapsInList R target mask e.2 = true ↔ ∃ q ∈ e.2.rules,
      (R q).priority = target.priority ∧
        miniflowEqualInMinimask target.match.flow (R q).match.flow mask = true := by
  unfold overlapsInList
  rw [forEachRuleInList_eq h, List.any_eq_true]
  constructor
  · intro hq
    obtain ⟨q, hmem, hq⟩ := hq
    simp only [Bool.and_eq_true, beq_iff_eq] at hq
    exact ⟨q, (List.takeWhile_sublist _).subset hmem, hq⟩
  · intro hq
    obtain ⟨q, hmem, hprio, hflow⟩ := hq
    have hsorted : Ranked (fun q => (R q).priority) e.2.rules := h.sorted.imp Nat.le_of_lt
    exact ⟨q, hsorted.mem_takeWhile hmem (Nat.le_of_eq hprio.symm), by simp [hprio, hflow]⟩

/-- Overlap: an installed rule of the same priority and a packet that matches both. -/
theorem classifierRuleOverlaps_iff (h : ClassifierOk R cls) :
    classifierRuleOverlaps R cls target = true ↔ ∃ q ∈ cls.rules,
      (R q).priority = target.priority ∧ ∃ f, target.Matches f ∧ (R q).Matches f := by
  have hcommon : ∀ t ∈ cls.tablesPriority, ∀ q ∈ chainRules (cls.table t).rules,
      ((∃ f, target.Matches f ∧ (R q).Matches f) ↔ miniflowEqualInMinimask target.match.flow
        (R q).match.flow (minimaskCombine target.match.mask (cls.table t).mask) = true) := by
    intro t ht q hq
    rw [exists_matches_iff, h.rule_mask ht hq]
  unfold classifierRuleOverlaps
  rw [List.any_eq_true]
  constructor
  · intro hov
    obtain ⟨t, ht, hov⟩ := hov
    have ht := (List.takeWhile_sublist _).subset ht
    obtain ⟨c, hc, hov⟩ := List.any_eq_true.mp hov
    obtain ⟨e, he, rfl⟩ := List.mem_map.mp hc
    obtain ⟨q, hq, hprio, hflow⟩ :=
      (overlapsInList_iff ((h.table t ht).chains.chain e he)).mp hov
    have hqt : q ∈ chainRules (cls.table t).rules := mem_chainRules.mpr ⟨e, he, hq⟩
    exact ⟨q, h.mem_rules.mpr ⟨t, ht, hqt⟩, hprio, (hcommon t ht q hqt).mpr hflow⟩
  · intro hov
    obtain ⟨q, hq, hprio, hf⟩ := hov
    obtain ⟨t, ht, hqt⟩ := h.mem_rules.mp hq
    obtain ⟨e, he, hqe⟩ := mem_chainRules.mp hqt
    have hle : target.priority ≤ (cls.table t).maxPriority := by
      rw [← hprio]
      exact (h.table t ht).max.le q hqt
    refine ⟨t, h.ranked.mem_takeWhile ht hle, List.any_eq_true.mpr
      ⟨e.2, List.mem_map.mpr ⟨e, he, rfl⟩, ?_⟩⟩
    exact (overlapsInList_iff ((h.table t ht).chains.chain e he)).mpr
      ⟨q, hqe, hprio, (hcommon t ht q hqt).mp hf⟩

end Search

/-! ## The ecalls -/

/-- `classifier_find_match_exactly`. -/
def classifierFindMatchExactly (R : RuleStore) (cls : Classifier) (target : Match)
    (priority : Nat) : Option RuleId :=
  classifierFindRuleExactly R cls (clsRuleInit target priority)

/-- `ecall_oftable_cls_find_match_exactly`. -/
def ecallOftableClsFindMatchExactly (s : Enclave) (i : Nat) (target : Match) (priority : Nat) :
    Option UtAddr :=
  (classifierFindMatchExactly s.clsRule (s.oftable i).cls target priority).map s.oClsRule

/-- The expanded match of a rule and its priority are the given ones. -/
def Enclave.Exact (s : Enclave) (m : Match) (priority : Nat) (r : RuleId) : Prop :=
  minimatchExpand (s.clsRule r).match = m ∧ (s.clsRule r).priority = priority

/-- One rule for each of the tables that have one with this match and priority, in the
order of the tables. -/
structure ExactEntries (s : Enclave) (tables : List Nat) (m : Match) (priority : Nat)
    (found : List (Nat × RuleId)) : Prop where
  order : (found.map Prod.fst).Sublist tables
  sound : ∀ e ∈ found, e.2 ∈ s.rules e.1 ∧ s.Exact m priority e.2
  complete : ∀ j ∈ tables, ∀ r ∈ s.rules j, s.Exact m priority r → (j, r) ∈ found

section Ecalls

variable {P : Match → Prop} {s : Enclave} {m : Match} {priority : Nat} {r : RuleId}

theorem Enclave.exact_iff : s.Exact m priority r ↔
    (s.clsRule r).match = (clsRuleInit m priority).match ∧
      (s.clsRule r).priority = (clsRuleInit m priority).priority := by
  refine and_congr ?_ Iff.rfl
  constructor
  · intro h
    exact minimatchExpand_injective (h.trans (minimatchExpand_minimatchInit m).symm)
  · intro h
    rw [h]
    exact minimatchExpand_minimatchInit m

theorem EnclaveOk.findMatchExactly_iff (h : EnclaveOk P s) (i : Nat) :
    classifierFindMatchExactly s.clsRule (s.oftable i).cls m priority = some r ↔
      r ∈ s.rules i ∧ s.Exact m priority r :=
  (classifierFindRuleExactly_iff (h.cls i)).trans (and_congr Iff.rfl Enclave.exact_iff.symm)

/-- The exact search of one table. -/
theorem EnclaveOk.findMatch_some (h : EnclaveOk P s) (i : Nat) (a : UtAddr) :
    ecallOftableClsFindMatchExactly s i m priority = some a ↔
      ∃ r ∈ s.rules i, s.Exact m priority r ∧ s.oClsRule r = a := by
  unfold ecallOftableClsFindMatchExactly
  rw [Option.map_eq_some_iff]
  refine exists_congr fun r => ?_
  rw [h.findMatchExactly_iff, and_assoc]

theorem EnclaveOk.findMatch_none (h : EnclaveOk P s) (i : Nat) :
    ecallOftableClsFindMatchExactly s i m priority = none ↔
      ∀ r ∈ s.rules i, ¬ s.Exact m priority r := by
  unfold ecallOftableClsFindMatchExactly
  rw [Option.map_eq_none_iff, Option.eq_none_iff_forall_ne_some]
  refine forall_congr' fun r => ?_
  rw [ne_eq, h.findMatchExactly_iff, not_and]

/-- The tables in which the loop of `ecall_collect_rules_strict` finds a rule, each with it. -/
def strictFound (s : Enclave) (tables : List Nat) (m : Match) (priority : Nat) :
    List (Nat × RuleId) :=
  tables.filterMap fun j =>
    (classifierFindMatchExactly s.clsRule (s.oftable j).cls m priority).map (Prod.mk j)

theorem strictFound_snd (tables : List Nat) :
    (strictFound s tables m priority).map Prod.snd = tables.filterMap fun j =>
      classifierFindMatchExactly s.clsRule (s.oftable j).cls m priority := by
  unfold strictFound
  rw [List.map_filterMap]
  refine List.filterMap_congr fun j _ => ?_
  rw [Option.map_map]
  exact Option.map_id'

theorem strictFound_order (tables : List Nat) :
    ((strictFound s tables m priority).map Prod.fst).Sublist tables := by
  induction tables with
  | nil => exact List.Sublist.refl _
  | cons j tables ih =>
    unfold strictFound at ih ⊢
    cases hj : classifierFindMatchExactly s.clsRule (s.oftable j).cls m priority with
    | none =>
      rw [List.filterMap_cons_none (by rw [hj]; rfl)]
      exact ih.cons j
    | some r =>
      rw [List.filterMap_cons_some (b := (j, r)) (by rw [hj]; rfl), List.map_cons]
      exact ih.cons_cons j

theorem EnclaveOk.strictFound_exact (h : EnclaveOk P s) (tables : List Nat) :
    ExactEntries s tables m priority (strictFound s tables m priority) where
  order := strictFound_order tables
  sound := by
    intro e he
    obtain ⟨j, -, hj⟩ := List.mem_filterMap.mp he
    obtain ⟨r, hr, rfl⟩ := Option.map_eq_some_iff.mp hj
    exact (h.findMatchExactly_iff j).mp hr
  complete := by
    intro j hj r hr hexact
    refine List.mem_filterMap.mpr ⟨j, hj, ?_⟩
    rw [(h.findMatchExactly_iff j).mpr ⟨hr, hexact⟩]
    rfl

/-- A buffer that holds as many entries as are found is enough. -/
theorem EnclaveOk.collectRulesStrict (h : EnclaveOk P s) (nTables i bufferSize : Nat)
    (hroom : (strictFound s (matchingTables s nTables i) m priority).length ≤ bufferSize) :
    ecallCollectRulesStrict s i nTables m priority bufferSize =
      some ((strictFound s (matchingTables s nTables i) m priority).map fun e =>
        collectedEntry s i e.2) := by
  have hfound : strictMatches s nTables i m priority =
      (strictFound s (matchingTables s nTables i) m priority).map Prod.snd :=
    (strictFound_snd _).symm
  unfold ecallCollectRulesStrict
  rw [collectStrict_fold h.shadows bufferSize _ [] (fun r hr => strictMatches_live h hr) (by
    rw [hfound, List.length_map, List.length_nil, Nat.zero_add]
    exact hroom), List.nil_append, hfound, List.map_map]
  rfl

end Ecalls

/-- The exact search of one table and of all matching ones. -/
theorem exactSearch {P : Match → Prop} {s : Enclave} (h : Reachable P s) (m : Match)
    (priority : Nat) :
    (∀ i a, ecallOftableClsFindMatchExactly s i m priority = some a ↔
      ∃ r ∈ s.rules i, s.Exact m priority r ∧ s.oClsRule r = a) ∧
    (∀ i, ecallOftableClsFindMatchExactly s i m priority = none ↔
      ∀ r ∈ s.rules i, ¬ s.Exact m priority r) ∧
    ∀ nTables i, (matchingTables s nTables i).Pairwise (· < ·) ∧
      ∃ found, ExactEntries s (matchingTables s nTables i) m priority found ∧
        found.length ≤ (matchingTables s nTables i).length ∧
        ∀ bufferSize, found.length ≤ bufferSize →
          ∃ entries, ecallCollectRulesStrict s i nTables m priority bufferSize = some entries ∧
            entries.map CollectedRule.cr = found.map fun e => s.oClsRule e.2 := by
  refine ⟨h.ok.findMatch_some, h.ok.findMatch_none, fun nTables i => ⟨matchingTables_sorted _ _ _,
    strictFound s (matchingTables s nTables i) m priority, h.ok.strictFound_exact _, ?_,
    fun bufferSize hroom => ⟨_, h.ok.collectRulesStrict nTables i bufferSize hroom, ?_⟩⟩⟩
  · exact List.length_filterMap_le _ _
  · rw [List.map_map]
    rfl

/-- The rule for the first word 7 of priority 20 is at address 1. -/
theorem sampleBridge_exactSearch :
    ecallOftableClsFindMatchExactly sampleBridge 0 (matchFirstWord 7#32) 20 = some 1#64 ∧
      ∃ r ∈ sampleBridge.rules 0, sampleBridge.Exact (matchFirstWord 7#32) 20 r ∧
        sampleBridge.oClsRule r = 1#64 := by
  have hfound : ecallOftableClsFindMatchExactly sampleBridge 0 (matchFirstWord 7#32) 20 =
      some 1#64 := by decide +kernel
  exact ⟨hfound, ((exactSearch sampleBridge_reachable _ 20).1 0 1#64).mp hfound⟩

/-- For a rule that has been initialised, installed or not. -/
theorem ecallCrRuleOverlaps_iff {P : Match → Prop} {s : Enclave} (h : Reachable P s) {r : RuleId}
    (hr : s.LiveRule r) (i : Nat) :
    ∃ overlaps, ecallCrRuleOverlaps s i (s.oClsRule r) = some overlaps ∧
      (overlaps = true ↔ ∃ q ∈ s.rules i, (s.clsRule q).priority = (s.clsRule r).priority ∧
        ∃ f, (s.clsRule r).Matches f ∧ (s.clsRule q).Matches f) := by
  refine ⟨_, ?_, classifierRuleOverlaps_iff (h.ok.cls i)⟩
  unfold ecallCrRuleOverlaps
  rw [h.ok.shadows.lookup_self hr]
  rfl

/-- The sample bridge with a third rule that is not installed, for the first word 7 and with
the priority of the rule for every flow. -/
def overlappingBridge : Enclave :=
  sampleBridge.after (.clsRuleInit 3#64 (matchFirstWord 7#32) 10)

/-- The two have the flows with the first word 7 in common. -/
theorem overlappingBridge_overlaps :
    ∃ q ∈ overlappingBridge.rules 0,
      (overlappingBridge.clsRule q).priority = (overlappingBridge.clsRule 2).priority ∧
        ∃ f, (overlappingBridge.clsRule 2).Matches f ∧ (overlappingBridge.clsRule q).Matches f := by
  have hreach : Reachable ZeroMatch overlappingBridge :=
    sampleBridge_reachable.after (c := .clsRuleInit 3#64 (matchFirstWord 7#32) 10)
      ⟨by decide +kernel, by decide +kernel⟩
  have hlive : overlappingBridge.LiveRule 2 := by
    unfold Enclave.LiveRule
    decide +kernel
  have hcall : ecallCrRuleOverlaps overlappingBridge 0 (overlappingBridge.oClsRule 2) = some true := by
    decide +kernel
  obtain ⟨overlaps, hover, hiff⟩ := ecallCrRuleOverlaps_iff hreach hlive 0
  rw [hcall, Option.some.injEq] at hover
  exact hiff.mp hover.symm

end OvsSgx
