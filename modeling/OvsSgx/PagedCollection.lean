/-
OvsSgx.PagedCollection — pages of rules are exact.

Three ecalls walk over the rules of a request with a cursor, skip the first
`start_index` of them, and fill a buffer. A cursor with a target visits
exactly the rules that `cls_rule_is_loose_match` accepts: whether a rule
matches depends on its mask, which is that of its subtable, and on its flow,
which is that of the head of its list. Two pages, the second one starting
where the first one ended, therefore list each of these rules once.
-/
import OvsSgx.FlowStats
import OvsSgx.ConfigureTable
import OvsSgx.CollectRulesTheorems

namespace OvsSgx

/-! ## Loose matches -/

section Loose

variable {R : RuleStore} {cls : Classifier} {criteria : Minimatch}

theorem miniOffsets_catchall {mask : Minimask} (h : minimaskIsCatchall mask = true) (o : Nat) :
    o ∉ miniOffsets mask.masks.map := by
  have hor : mask.masks.map 0 ||| mask.masks.map 1 = 0#32 := by
    simpa [minimaskIsCatchall] using h
  have hbit : ∀ k, ((mask.masks.map 0).getLsbD k || (mask.masks.map 1).getLsbD k) = false := by
    intro k
    rw [← BitVec.getLsbD_or, hor]
    exact BitVec.getLsbD_zero
  rw [mem_miniOffsets]
  rintro (⟨-, h0⟩ | ⟨-, -, h1⟩)
  · have := hbit o
    simp [h0] at this
  · have := hbit (o - 32)
    simp [h1] at this

/-- Every rule matches criteria that match every packet. -/
theorem looseMatch_catchall (h : minimaskIsCatchall criteria.mask = true) (rule : ClsRule) :
    clsRuleIsLooseMatch rule criteria = true := by
  have hnone := miniOffsets_catchall h
  have hnil : miniOffsets criteria.mask.masks.map = [] :=
    List.eq_nil_iff_forall_not_mem.mpr hnone
  have hextra : minimaskHasExtra rule.match.mask criteria.mask = false := by
    refine List.any_eq_false.mpr fun o _ => ?_
    simp [miniflowGet_of_notMem (hnone o)]
  simp [clsRuleIsLooseMatch, hextra, miniflowEqualInMinimask, hnil]

/-- Selecting lists by a test that all their members pass or fail together. -/
theorem flatMap_filter_eq {f : RuleChain → List RuleId} {p : RuleChain → Bool} {q : RuleId → Bool}
    {l : List RuleChain} (h : ∀ c ∈ l, ∀ r ∈ f c, q r = p c) :
    (l.filter p).flatMap f = (l.flatMap f).filter q := by
  induction l with
  | nil => rfl
  | cons c l ih =>
    have hrest := ih fun d hd => h d (List.mem_cons_of_mem c hd)
    have hc : (f c).filter q = if p c then f c else [] := by
      split
      · rename_i hp
        exact List.filter_eq_self.mpr fun r hr => (h c (by simp) r hr).trans hp
      · rename_i hp
        exact List.filter_eq_nil_iff.mpr fun r hr => by rw [h c (by simp) r hr]; exact hp
    rw [List.flatMap_cons, List.filter_append, hc, ← hrest]
    split
    · rename_i hp
      rw [List.filter_cons_of_pos hp, List.flatMap_cons]
    · rename_i hp
      rw [List.filter_cons_of_neg hp, List.nil_append]

/-- In one subtable a cursor with a target visits the rules that match it loosely. -/
theorem tableRules_loose {tbl : ClsTable} (h : ChainsOk R tbl.mask tbl.rules) (p : Nat)
    (m : Match) : ClsCursor.tableRules R tbl (some (clsRuleInit m p)) =
      (chainRules tbl.rules).filter fun r => clsRuleIsLooseMatch (R r) (minimatchInit m) := by
  have hmember : ∀ c ∈ tbl.rules.values, ∀ r ∈ c.rules,
      (R r).match.mask = tbl.mask ∧ (R r).match.flow = (R c.head).match.flow := by
    intro c hc r hr
    obtain ⟨e, he, rfl⟩ := List.mem_map.mp hc
    have hin := (h.chain e he).ruleIn r hr
    exact ⟨hin.mask, hin.flow⟩
  unfold ClsCursor.tableRules chainRules OvsSgx.searchTable
  dsimp only
  split
  · rename_i hextra
    refine (List.filter_eq_nil_iff.mpr fun r hr => ?_).symm
    obtain ⟨c, hc, hrc⟩ := List.mem_flatMap.mp hr
    have hextra' : minimaskHasExtra tbl.mask (minimatchInit m).mask = true := hextra
    simp [clsRuleIsLooseMatch, (hmember c hc r hrc).1, hextra']
  · rename_i hextra
    refine flatMap_filter_eq fun c hc r hrc => ?_
    obtain ⟨hmask, hflow⟩ := hmember c hc r hrc
    have hextra' : minimaskHasExtra tbl.mask (minimatchInit m).mask = false :=
      Bool.eq_false_of_not_eq_true hextra
    simp [clsRuleIsLooseMatch, hmask, hflow, hextra', ruleMatches, clsRuleInit]

/-- A cursor visits the rules that match its target loosely. -/
theorem clsCursorRules_loose (h : ClassifierOk R cls) (m : Match) (p : Nat) :
    clsCursorRules R cls (some (clsRuleInit m p)) =
      cls.rules.filter fun r => clsRuleIsLooseMatch (R r) (minimatchInit m) := by
  by_cases hall : minimaskIsCatchall (minimatchInit m).mask = true
  · have hinit : clsCursorInit (some (clsRuleInit m p)) = clsCursorInit none := by
      have : clsRuleIsCatchall (clsRuleInit m p) = true := hall
      simp [clsCursorInit, this]
    have hcur : clsCursorRules R cls (some (clsRuleInit m p)) = clsCursorRules R cls none := by
      unfold clsCursorRules
      rw [hinit]
    rw [hcur, clsCursorRules_none h]
    exact (List.filter_eq_self.mpr fun r _ => looseMatch_catchall hall (R r)).symm
  · have hinit : clsCursorInit (some (clsRuleInit m p)) = some (clsRuleInit m p) := by
      have : clsRuleIsCatchall (clsRuleInit m p) = false := by
        simpa [clsRuleIsCatchall, clsRuleInit] using hall
      simp [clsCursorInit, this]
    rw [← ClsCursor.positions_map _ h, hinit, Classifier.rules, List.filter_flatMap]
    simp only [ClsCursor.positions, List.map_flatMap, List.map_map, Function.comp_def,
      List.map_id']
    refine List.flatMap_congr fun t ht => ?_
    exact tableRules_loose (h.table t (h.mem_values.mp ht)).chains p m

end Loose

/-! ## The ecalls with their cursors -/

/-- `ecall_collect_rules_loose`, with a cursor. -/
def ClsCursor.ecallCollectRulesLoose (s : Enclave) (i nTables startIndex : Nat) (m : Match)
    (bufferSize : Nat) : Option (PagedScan.Page CollectedRule) :=
  forEachMatchingRule s nTables i m
    (PagedScan.step (collectedRule s i) startIndex bufferSize) ⟨0, []⟩

/-- `ecall_oftable_get_cls_rules`, with a cursor and the `end_index` -1. -/
def ClsCursor.ecallOftableGetClsRules (s : Enclave) (i startIndex bufSize : Nat) :
    Option (PagedScan.Page UtAddr) :=
  ClsCursor.forEach s.clsRule (s.oftable i).cls none
    (PagedScan.step (fun r => some (s.oClsRule r)) startIndex bufSize) ⟨0, []⟩

section Ecalls

variable {P : Match → Prop} {s : Enclave} {i nTables : Nat} {m : Match}

/-- The loops over tables and rules are one loop over `looseMatches`. -/
theorem forEachMatchingRule_eq {σ : Type} (h : EnclaveOk P s) (body : σ → RuleId → Option σ)
    (st : σ) :
    forEachMatchingRule s nTables i m body st = (looseMatches s nTables i m).foldlM body st := by
  unfold forEachMatchingRule looseMatches
  induction matchingTables s nTables i generalizing st with
  | nil => rfl
  | cons j l ih =>
    rw [List.foldlM_cons, List.flatMap_cons, List.foldlM_append, ClsCursor.forEach_eq body (h.cls j)]
    exact congrArg _ (funext ih)

/-- The pages that `collect_rules_loose` reads. -/
theorem ecallCollectRulesLoose_cursor (h : EnclaveOk P s) (startIndex bufferSize : Nat) :
    ClsCursor.ecallCollectRulesLoose s i nTables startIndex m bufferSize =
      ecallCollectRulesLoose s i nTables startIndex m bufferSize :=
  forEachMatchingRule_eq h _ _

/-- The pages that `oftable_enable_eviction` reads. -/
theorem ecallOftableGetClsRules_cursor (h : EnclaveOk P s) (startIndex bufSize : Nat) :
    ClsCursor.ecallOftableGetClsRules s i startIndex bufSize =
      ecallOftableGetClsRules s i startIndex bufSize :=
  ClsCursor.forEach_eq _ (h.cls i) _

/-- What the ecall writes for rule `r`. -/
def statsEntry (s : Enclave) (r : RuleId) : StatsRule :=
  ⟨s.oClsRule r, minimatchExpand (s.clsRule r).match, (s.clsRule r).priority⟩

/-- The rules a request finds that are not hidden. -/
def visibleMatches (s : Enclave) (nTables i : Nat) (m : Match) : List RuleId :=
  (looseMatches s nTables i m).filter fun r => (s.clsRule r).priority ≤ UINT16_MAX

theorem foldlM_statsStep {l : List RuleId} {start cap : Nat} (p : PagedScan.Page StatsRule)
    (h : ∀ r ∈ l, sgxRuleFromUtCr s (s.oClsRule r) = some r) :
    l.foldlM (statsStep s start cap) p =
      (l.filter fun r => (s.clsRule r).priority ≤ UINT16_MAX).foldlM
        (PagedScan.step (statsRule s) start cap) p := by
  induction l generalizing p with
  | nil => rfl
  | cons r l ih =>
    have hrest := fun p => ih p fun q hq => h q (List.mem_cons_of_mem r hq)
    have hlook := h r (by simp)
    rw [List.foldlM_cons]
    by_cases hvis : (s.clsRule r).priority ≤ UINT16_MAX
    · rw [List.filter_cons_of_pos (by simpa using hvis), List.foldlM_cons]
      have hstep : statsStep s start cap p r = PagedScan.step (statsRule s) start cap p r := by
        simp [statsStep, ecallCrPriority, hlook, Nat.not_lt.mpr hvis]
      rw [hstep]
      exact congrArg _ (funext hrest)
    · rw [List.filter_cons_of_neg (by simpa using hvis)]
      have hstep : statsStep s start cap p r = some p := by
        simp [statsStep, ecallCrPriority, hlook, Nat.lt_of_not_le hvis]
      rw [hstep]
      exact hrest p

/-- The statistics ecall returns one page of the visible matches. -/
theorem ecallCollectRulesLooseStatsRequest_eq (h : EnclaveOk P s) (start cap : Nat) :
    ecallCollectRulesLooseStatsRequest s i nTables start cap m =
      some ⟨(visibleMatches s nTables i m).length,
        (((visibleMatches s nTables i m).drop start).take cap).map (statsEntry s)⟩ := by
  have hlook : ∀ r ∈ looseMatches s nTables i m, sgxRuleFromUtCr s (s.oClsRule r) = some r :=
    fun r hr => h.shadows.lookup_self (looseMatches_live h hr)
  unfold ecallCollectRulesLooseStatsRequest
  rw [forEachMatchingRule_eq h, foldlM_statsStep _ hlook]
  refine PagedScan.scan_eq fun r hr => ?_
  have := hlook r (List.mem_filter.mp hr).1
  simp [statsRule, ecallCrPriority, ecallMinimatchExpand, this, statsEntry]

end Ecalls

/-! ## Two pages -/

/-- A page of `b` entries and one for the others list the rules with property `Q`, each of them
once. A call takes where to start and the size of its buffer. -/
structure PagesExact {β : Type} (call : Nat → Nat → Option (PagedScan.Page β)) (b : Nat)
    (entry : RuleId → β) (addr : β → UtAddr) (Q : RuleId → Prop) (p p' : PagedScan.Page β)
    (l : List RuleId) : Prop where
  first : call 0 b = some p
  second : call p.out.length (p.count - p.out.length) = some p'
  listed : p.out ++ p'.out = l.map entry
  once : l.Nodup ∧ ((p.out ++ p'.out).map addr).Nodup
  exact : ∀ r, r ∈ l ↔ Q r
  total : p.count = l.length
  fits : p.out.length ≤ b ∧ p'.out.length ≤ p.count - p.out.length

section Pages

variable {P : Match → Prop} {s : Enclave} {i nTables : Nat} {m : Match}

/-- A call that returns a page of a list without duplicates. -/
theorem pagesExact_of_scan {β : Type} {call : Nat → Nat → Option (PagedScan.Page β)}
    (entry : RuleId → β) (addr : β → UtAddr) {Q : RuleId → Prop} {l : List RuleId} (b : Nat)
    (hcall : ∀ start cap, call start cap = some ⟨l.length, ((l.drop start).take cap).map entry⟩)
    (hnodup : l.Nodup) (haddr : ∀ r ∈ l, ∀ q ∈ l, addr (entry r) = addr (entry q) → r = q)
    (hQ : ∀ r, r ∈ l ↔ Q r) : ∃ p p', PagesExact call b entry addr Q p p' l := by
  have hlen : ((l.take b).map entry).length = min b l.length := by simp
  have hrest : (l.drop (min b l.length)).take (l.length - min b l.length) = l.drop b := by
    rw [List.take_of_length_le (by simp)]
    rcases Nat.le_total b l.length with hb | hb
    · rw [Nat.min_eq_left hb]
    · rw [Nat.min_eq_right hb, List.drop_length, List.drop_of_length_le hb]
  have hsecond : call (min b l.length) (l.length - min b l.length)
      = some ⟨l.length, (l.drop b).map entry⟩ := by
    rw [hcall, hrest]
  have happ : (l.take b).map entry ++ (l.drop b).map entry = l.map entry := by
    rw [← List.map_append, List.take_append_drop]
  refine ⟨⟨l.length, (l.take b).map entry⟩, ⟨l.length, (l.drop b).map entry⟩, hcall 0 b, ?_, happ,
    ⟨hnodup, ?_⟩, hQ, rfl, ?_, ?_⟩
  · rw [hlen]
    exact hsecond
  · rw [happ, List.map_map]
    exact hnodup.map_on fun r hr q hq hrq => haddr r hr q hq hrq
  · rw [hlen]
    exact Nat.min_le_left b l.length
  · rw [hlen, List.length_map, List.length_drop]
    dsimp only
    omega

theorem matchingTables_nodup (s : Enclave) (nTables i : Nat) :
    (matchingTables s nTables i).Nodup := by
  unfold matchingTables
  split
  · exact List.nodup_range.filter _
  · split
    · exact List.nodup_singleton i
    · exact List.nodup_nil

/-- A rule of a matching table that matches loosely. -/
def LooselyMatches (s : Enclave) (nTables i : Nat) (m : Match) (r : RuleId) : Prop :=
  ∃ j ∈ matchingTables s nTables i, r ∈ s.rules j ∧
    clsRuleIsLooseMatch (s.clsRule r) (minimatchInit m) = true

theorem mem_looseMatches (h : EnclaveOk P s) (r : RuleId) :
    r ∈ looseMatches s nTables i m ↔ LooselyMatches s nTables i m r := by
  unfold looseMatches LooselyMatches
  rw [List.mem_flatMap]
  refine exists_congr fun j => and_congr_right fun _ => ?_
  rw [clsCursorRules_loose (h.cls j), List.mem_filter]
  rfl

theorem looseMatches_nodup (h : EnclaveOk P s) : (looseMatches s nTables i m).Nodup := by
  refine List.nodup_flatMap.mpr ⟨fun j _ => ?_, ?_⟩
  · rw [clsCursorRules_loose (h.cls j)]
    exact (h.rules_nodup j).filter _
  · refine (matchingTables_nodup s nTables i).imp fun {j k} hjk r hr hr' => ?_
    exact hjk (h.disjoint j k r (clsCursorRules_subset _ _ _ hr) (clsCursorRules_subset _ _ _ hr'))

/-- Live rules have different addresses. -/
theorem oClsRule_injective (h : EnclaveOk P s) {r q : RuleId} (hr : s.LiveRule r)
    (hq : s.LiveRule q) (hrq : s.oClsRule r = s.oClsRule q) : r = q :=
  h.shadows.inj hr hq (congrArg addrHash hrq)

/-- The three collections of the optimized build. -/
theorem pagedCollection_ok (h : EnclaveOk P s) (b : Nat) :
    (∃ p p' l, PagesExact (fun start cap => ClsCursor.ecallCollectRulesLoose s i nTables start m cap)
      b (collectedEntry s i) CollectedRule.cr (LooselyMatches s nTables i m) p p' l) ∧
    (∃ p p' l, PagesExact
      (fun start cap => ecallCollectRulesLooseStatsRequest s i nTables start cap m)
      b (statsEntry s) StatsRule.cr
      (fun r => LooselyMatches s nTables i m r ∧ (s.clsRule r).priority ≤ UINT16_MAX) p p' l) ∧
    ∃ p p' l, PagesExact (ClsCursor.ecallOftableGetClsRules s i) b s.oClsRule id
      (fun r => r ∈ s.rules i) p p' l := by
  have hlive : ∀ r ∈ looseMatches s nTables i m, s.LiveRule r := fun r hr =>
    looseMatches_live h hr
  have hvis : visibleMatches s nTables i m ⊆ looseMatches s nTables i m :=
    List.filter_subset_self _
  refine ⟨?_, ?_, ?_⟩
  · have hcall : ∀ start cap, ClsCursor.ecallCollectRulesLoose s i nTables start m cap =
        some ⟨(looseMatches s nTables i m).length,
          (((looseMatches s nTables i m).drop start).take cap).map (collectedEntry s i)⟩ := by
      intro start cap
      rw [ecallCollectRulesLoose_cursor h]
      exact PagedScan.scan_eq fun r hr => collectedRule_live h.shadows (hlive r hr)
    obtain ⟨p, p', hp⟩ := pagesExact_of_scan (collectedEntry s i) CollectedRule.cr b hcall
      (looseMatches_nodup h)
      (fun r hr q hq => oClsRule_injective h (hlive r hr) (hlive q hq)) (mem_looseMatches h)
    exact ⟨p, p', _, hp⟩
  · have hmem : ∀ r, r ∈ visibleMatches s nTables i m ↔
        LooselyMatches s nTables i m r ∧ (s.clsRule r).priority ≤ UINT16_MAX := by
      intro r
      rw [visibleMatches, List.mem_filter, mem_looseMatches h, decide_eq_true_eq]
    obtain ⟨p, p', hp⟩ := pagesExact_of_scan (statsEntry s) StatsRule.cr b
      (fun start cap => ecallCollectRulesLooseStatsRequest_eq h start cap)
      ((looseMatches_nodup h).filter _)
      (fun r hr q hq => oClsRule_injective h (hlive r (hvis hr)) (hlive q (hvis hq))) hmem
    exact ⟨p, p', _, hp⟩
  · have hcall : ∀ start cap, ClsCursor.ecallOftableGetClsRules s i start cap =
        some ⟨(s.rules i).length, (((s.rules i).drop start).take cap).map s.oClsRule⟩ := by
      intro start cap
      rw [ecallOftableGetClsRules_cursor h, ecallOftableGetClsRules, clsCursorRules_none (h.cls i)]
      exact PagedScan.scan_eq fun _ _ => rfl
    obtain ⟨p, p', hp⟩ := pagesExact_of_scan s.oClsRule id b hcall (h.rules_nodup i)
      (fun r hr q hq => oClsRule_injective h (h.live i r hr) (h.live i q hq)) (fun r => Iff.rfl)
    exact ⟨p, p', _, hp⟩

end Pages

/-- In every state of a run, and for every request and page size, the pages are exact. -/
theorem pagedCollection_exact {P : Match → Prop} {s : Enclave} (h : Reachable P s)
    (nTables i b : Nat) (m : Match) :
    (∃ p p' l, PagesExact (fun start cap => ClsCursor.ecallCollectRulesLoose s i nTables start m cap)
      b (collectedEntry s i) CollectedRule.cr (LooselyMatches s nTables i m) p p' l) ∧
    (∃ p p' l, PagesExact
      (fun start cap => ecallCollectRulesLooseStatsRequest s i nTables start cap m)
      b (statsEntry s) StatsRule.cr
      (fun r => LooselyMatches s nTables i m r ∧ (s.clsRule r).priority ≤ UINT16_MAX) p p' l) ∧
    ∃ p p' l, PagesExact (ClsCursor.ecallOftableGetClsRules s i) b s.oClsRule id
      (fun r => r ∈ s.rules i) p p' l :=
  pagedCollection_ok h.ok b

/-- Two rules in pages of one: the request for the first word 7 matches one of them. -/
theorem sampleBridge_pages :
    ((ClsCursor.ecallCollectRulesLoose sampleBridge 0xff 1 0 (matchFirstWord 7#32) 1).map
      fun p => (p.count, p.out.map CollectedRule.cr)) = some (1, [1#64]) ∧
    ((ClsCursor.ecallOftableGetClsRules sampleBridge 0 1 1).map fun p => (p.count, p.out.length))
      = some (2, 1) ∧
    ∃ p p' l, PagesExact (fun start cap => ClsCursor.ecallCollectRulesLoose sampleBridge 0xff 1 start
        (matchFirstWord 7#32) cap) 1 (collectedEntry sampleBridge 0xff) CollectedRule.cr
      (LooselyMatches sampleBridge 1 0xff (matchFirstWord 7#32)) p p' l :=
  ⟨by decide +kernel, by decide +kernel,
    (pagedCollection_exact sampleBridge_reachable 1 0xff 1 (matchFirstWord 7#32)).1⟩

end OvsSgx
