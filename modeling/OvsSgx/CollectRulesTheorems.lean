/-
OvsSgx.CollectRulesTheorems — requests that meet a pending operation.

The three variants of `ofproto.c` walk over the same candidates, the rules
that match. A pending rule among them stops the walk with `OFPROTO_POSTPONE`.
The loose requests return that error before they change anything. The strict
ones never see it, since `collect_rules_strict` returns 0 after its label
`exit`, and go on with the rules before the pending one.
-/
import OvsSgx.CollectRules
import OvsSgx.OfprotoRuns

namespace OvsSgx

open BufferedRead

/-! ## The matching rules are installed -/

section Matches

variable {P : Match → Prop} {s : Enclave} {nTables i priority : Nat} {m : Match} {r : RuleId}

theorem reachableInList_subset (R : RuleStore) : ∀ (q : RuleId) (l : List RuleId),
    reachableInList R q l ⊆ q :: l
  | _, [] => by simp [reachableInList]
  | q, t :: rest => by
    unfold reachableInList
    split
    · exact List.cons_subset_cons q (reachableInList_subset R t rest)
    · simp

theorem searchTable_subset (R : RuleStore) (tbl : ClsTable) (target : Option ClsRule) :
    searchTable R tbl target ⊆ tbl.rules.values := by
  unfold searchTable
  split
  · simp
  · split
    · simp
    · exact List.filter_subset_self _

theorem clsCursorRules_subset (R : RuleStore) (cls : Classifier) (target : Option ClsRule) :
    clsCursorRules R cls target ⊆ cls.rules := by
  intro r hr
  obtain ⟨t, ht, hr⟩ := List.mem_flatMap.mp hr
  obtain ⟨c, hc, hr⟩ := List.mem_flatMap.mp hr
  exact List.mem_flatMap.mpr ⟨t, ht, List.mem_flatMap.mpr
    ⟨c, searchTable_subset R _ _ hc, reachableInList_subset R _ _ hr⟩⟩

theorem classifierFindRuleExactly_mem {R : RuleStore} {cls : Classifier} {target : ClsRule}
    (h : ClassifierOk R cls) (hr : classifierFindRuleExactly R cls target = some r) :
    r ∈ cls.rules := by
  unfold classifierFindRuleExactly at hr
  obtain ⟨t, ht, hr⟩ := Option.bind_eq_some_iff.mp hr
  split at hr
  · cases hr
  · obtain ⟨c, hc, hr⟩ := Option.bind_eq_some_iff.mp hr
    obtain ⟨q, hq, hr⟩ := Option.bind_eq_some_iff.mp hr
    split at hr
    · cases hr
      have hmem := (h.mem_values (t := t)).mpr (findTable_some h.toTablesOk ht).1
      refine List.mem_flatMap.mpr ⟨t, hmem, List.mem_flatMap.mpr ⟨c, ?_, ?_⟩⟩
      · exact List.mem_map.mpr ⟨_, (findEqual_some hc).1, rfl⟩
      · exact reachableInList_subset R _ _ (List.mem_of_find?_eq_some hq)
    · cases hr

theorem looseMatches_live (h : EnclaveOk P s) (hr : r ∈ looseMatches s nTables i m) :
    s.LiveRule r := by
  obtain ⟨j, -, hr⟩ := List.mem_flatMap.mp hr
  exact h.live j r (clsCursorRules_subset _ _ _ hr)

theorem strictMatches_live (h : EnclaveOk P s) (hr : r ∈ strictMatches s nTables i m priority) :
    s.LiveRule r := by
  obtain ⟨j, -, hr⟩ := List.mem_filterMap.mp hr
  exact h.live j r (classifierFindRuleExactly_mem (h.cls j) hr)

end Matches

/-! ## The buffers hold the matching rules -/

section Buffers

variable {s : Enclave} {T : List RuleId} {i : Nat}

/-- The entry that the optimized ecalls write for a live rule. -/
def collectedEntry (s : Enclave) (i : Nat) (r : RuleId) : CollectedRule :=
  ⟨s.oClsRule r, decide (UINT16_MAX < (s.clsRule r).priority), !ecallOftableIsReadonly s i⟩

theorem ecallCrPriority_live (h : ShadowsOk s) {r : RuleId} (hr : s.LiveRule r) :
    ecallCrPriority s (s.oClsRule r) = some (s.clsRule r).priority := by
  simp [ecallCrPriority, h.lookup_self hr]

theorem collectedRule_live (h : ShadowsOk s) {r : RuleId} (hr : s.LiveRule r) :
    collectedRule s i r = some (collectedEntry s i r) := by
  simp [collectedRule, ecallCrPriority_live h hr, collectedEntry]

/-- One page or two: every matching rule is in the buffers. -/
theorem loosePages_eq {nTables : Nat} {m : Match} (h : ShadowsOk s)
    (hT : ∀ r ∈ looseMatches s nTables i m, s.LiveRule r) :
    loosePages s i nTables m = some ((looseMatches s nTables i m).map (collectedEntry s i)) :=
  PagedScan.pages_eq fun r hr => collectedRule_live h (hT r hr)

theorem collectStrictStep_live {bufferSize : Nat} {entries : List CollectedRule} {r : RuleId}
    (h : ShadowsOk s) (hr : s.LiveRule r) (hlen : entries.length < bufferSize) :
    collectStrictStep s i bufferSize entries r = some (entries ++ [collectedEntry s i r]) := by
  unfold collectStrictStep
  rw [if_pos hlen, collectedRule_live h hr]
  rfl

/-- The loop of `ecall_collect_rules_strict` with a buffer that is large enough. -/
theorem collectStrict_fold (h : ShadowsOk s) (bufferSize : Nat) :
    ∀ (T : List RuleId) (entries : List CollectedRule), (∀ r ∈ T, s.LiveRule r) →
      entries.length + T.length ≤ bufferSize →
      T.foldlM (collectStrictStep s i bufferSize) entries =
        some (entries ++ T.map (collectedEntry s i)) := by
  intro T
  induction T with
  | nil =>
    intro entries _ _
    simp
  | cons r T ih =>
    intro entries hT hlen
    rw [List.length_cons] at hlen
    rw [List.foldlM_cons, collectStrictStep_live h (hT r (by simp)) (by omega),
      Option.bind_eq_bind, Option.bind_some,
      ih _ (fun q hq => hT q (List.mem_cons_of_mem r hq)) (by simp; omega)]
    simp

theorem matchingTables_length (nTables : Nat) :
    (matchingTables s nTables i).length ≤ strictBufferSize nTables i := by
  unfold matchingTables strictBufferSize
  split
  · exact (List.length_filter_le _ _).trans (by simp)
  · split <;> simp

theorem ecallCollectRulesStrict_eq {nTables priority : Nat} {m : Match} (h : ShadowsOk s)
    (hT : ∀ r ∈ strictMatches s nTables i m priority, s.LiveRule r) :
    ecallCollectRulesStrict s i nTables m priority (strictBufferSize nTables i) =
      some ((strictMatches s nTables i m priority).map (collectedEntry s i)) := by
  have hlen : (strictMatches s nTables i m priority).length ≤ strictBufferSize nTables i :=
    (List.length_filterMap_le _ _).trans (matchingTables_length nTables)
  unfold ecallCollectRulesStrict
  rw [collectStrict_fold h _ _ _ hT (by simpa using hlen)]
  simp

end Buffers

/-! ## The candidates -/

section Candidates

variable {P : Match → Prop} {o : Ofproto} {i priority : Nat} {m : Match}

/-- A matching rule as the walk over the candidates sees it. -/
def candidateOf (s : Enclave) (r : RuleId) : Candidate :=
  ⟨s.oClsRule r, some (decide (UINT16_MAX < (s.clsRule r).priority))⟩

theorem ofprotoRuleIsHidden_live (h : ShadowsOk o.enclave) {r : RuleId}
    (hr : o.enclave.LiveRule r) :
    ofprotoRuleIsHidden o (o.enclave.oClsRule r) =
      some (decide (UINT16_MAX < (o.enclave.clsRule r).priority)) := by
  simp [ofprotoRuleIsHidden, ecallCrPriority_live h hr]

/-- The candidates of the builds that ask for each rule. -/
theorem candidates_eq (h : ShadowsOk o.enclave) {T : List RuleId}
    (hT : ∀ r ∈ T, o.enclave.LiveRule r) :
    o.candidates (T.map o.enclave.oClsRule) = (T.map (candidateOf o.enclave), []) := by
  unfold Ofproto.candidates
  rw [List.map_map]
  congr 1
  refine List.map_congr_left fun r hr => ?_
  simp only [Function.comp_apply, candidateOf, ofprotoRuleIsHidden_live h (hT r hr)]

/-- The candidates of the optimized build. -/
theorem candidatesOf_eq (s : Enclave) (T : List RuleId) :
    (candidatesOf (T.map (collectedEntry s i))).1 = T.map (candidateOf s) := by
  unfold candidatesOf
  rw [List.map_map]
  rfl

/-- The candidates from a count and a buffer of that size. -/
theorem counted_eq (h : ShadowsOk o.enclave) {tables : List Nat} {found : Nat → List RuleId}
    (hT : ∀ r ∈ tables.flatMap found, o.enclave.LiveRule r) {n : Nat}
    (hn : n = (tables.flatMap found).length) :
    (if n = 0 then some ([], [])
      else ((readTables o.enclave BUF n tables found).filled n).bind fun buf =>
        some (o.candidates buf)) =
      some ((tables.flatMap found).map (candidateOf o.enclave), []) := by
  subst hn
  split
  · rename_i hnil
    rw [List.length_eq_zero_iff.mp hnil]
    rfl
  · rw [filled_readTables (by decide), Option.bind_some, candidates_eq h hT]

/-- What `ecall_collect_rules_strict_r` finds table by table. -/
theorem strictMatches_eq (s : Enclave) (nTables : Nat) :
    strictMatches s nTables i m priority = (matchingTables s nTables i).flatMap fun j =>
      (classifierFindRuleExactly s.clsRule (s.oftable j).cls (clsRuleInit m priority)).toList :=
  List.filterMap_eq_flatMap_toList _ _

/-- Every build walks over the rules that match. -/
theorem looseCandidates_eq (b : Build) (h : EnclaveOk P o.enclave) :
    ∃ modifiable, looseCandidates b o i m =
      some ((looseMatches o.enclave o.nTables i m).map (candidateOf o.enclave), modifiable) := by
  have hT : ∀ r ∈ looseMatches o.enclave o.nTables i m, o.enclave.LiveRule r := fun r hr =>
    looseMatches_live h hr
  cases b with
  | plain => exact ⟨[], congrArg some (candidates_eq h.shadows hT)⟩
  | sgx =>
    refine ⟨[], counted_eq h.shadows hT ?_⟩
    rw [ecallCollectRulesLooseC, ecallCollectRulesLooseR, readTables_null]
  | optimized =>
    unfold looseCandidates
    rw [loosePages_eq h.shadows hT, ← candidatesOf_eq]
    exact ⟨_, rfl⟩

theorem strictCandidates_eq (b : Build) (h : EnclaveOk P o.enclave) :
    ∃ modifiable, strictCandidates b o i m priority =
      some ((strictMatches o.enclave o.nTables i m priority).map (candidateOf o.enclave),
        modifiable) := by
  have hT : ∀ r ∈ strictMatches o.enclave o.nTables i m priority, o.enclave.LiveRule r :=
    fun r hr => strictMatches_live h hr
  cases b with
  | plain => exact ⟨[], congrArg some (candidates_eq h.shadows hT)⟩
  | sgx =>
    rw [strictMatches_eq] at hT ⊢
    refine ⟨[], counted_eq h.shadows hT ?_⟩
    rw [ecallCollectRulesStrictC, ecallCollectRulesStrictR, readTables_null]
  | optimized =>
    unfold strictCandidates
    rw [ecallCollectRulesStrict_eq h.shadows hT, ← candidatesOf_eq]
    exact ⟨_, rfl⟩

end Candidates

/-! ## Requests and pending operations -/

section Requests

variable {A : Type} {outputTo : A → BitVec 16 → Bool} {P : Match → Prop} {b : Build}
  {s : FlowState A} {fm : FlowModRequest A} {cmd : FlowModCommand}

/-- The rules that match a request. -/
def requestMatches (s : FlowState A) (fm : FlowModRequest A) (cmd : FlowModCommand) :
    List RuleId :=
  let o := s.ofproto
  if cmd.isStrict then strictMatches o.enclave o.nTables fm.tableId fm.match fm.priority
  else looseMatches o.enclave o.nTables fm.tableId fm.match

/-- The port by which a request selects rules. -/
def requestPort (fm : FlowModRequest A) : FlowModCommand → BitVec 16
  | .modify | .modifyStrict => OFPP_ANY
  | .delete | .deleteStrict => fm.outPort

/-- The request selects the rule at address `a`: it matches, is not hidden and passes the
filters for the port and the cookie. -/
def Selects (outputTo : A → BitVec 16 → Bool) (s : FlowState A) (fm : FlowModRequest A)
    (cmd : FlowModCommand) (a : UtAddr) : Prop :=
  ∃ r ∈ requestMatches s fm cmd, s.ofproto.enclave.oClsRule r = a ∧
    (s.ofproto.enclave.clsRule r).priority ≤ UINT16_MAX ∧
    ofprotoRuleHasOutPort outputTo s a (requestPort fm cmd) = true ∧
    cookieMatches s a fm.cookie fm.cookieMask = true

/-- If a rule that the request selects has a pending operation, the handler returns
`OFPROTO_POSTPONE` and does nothing else. -/
def PendingPostpones (outputTo : A → BitVec 16 → Bool) (b : Build) (s : FlowState A)
    (fm : FlowModRequest A) (cmd : FlowModCommand) : Prop :=
  ∀ a, Selects outputTo s fm cmd a → (s.ofproto.rule a).pending.isSome = true →
    flowModHandler outputTo b s fm cmd = some (.returned (some .postpone))

/-- A pending candidate ends the walk with the error. -/
theorem collectLoop_pending (outputTo : A → BitVec 16 → Bool) (cookie cookieMask : BitVec 64)
    (outPort : BitVec 16) :
    ∀ (T : List RuleId) (rules : List UtAddr),
      (∃ r ∈ T, (s.ofproto.rule (s.ofproto.enclave.oClsRule r)).pending.isSome = true) →
      ∃ rules', collectLoop outputTo s cookie cookieMask outPort
        (T.map (candidateOf s.ofproto.enclave)) rules = some (some .postpone, rules') := by
  intro T
  induction T with
  | nil => simp
  | cons r T ih =>
    rintro rules ⟨q, hq, hpend⟩
    rw [List.map_cons, collectLoop]
    by_cases hr : (s.ofproto.rule (s.ofproto.enclave.oClsRule r)).pending.isSome = true
    · exact ⟨rules, if_pos hr⟩
    · have hT : q ∈ T := by
        rcases List.mem_cons.mp hq with rfl | hT
        · exact absurd hpend hr
        · exact hT
      rw [candidateOf, if_neg hr, Option.bind_eq_bind, Option.bind_some]
      split
      · exact ih _ ⟨q, hT, hpend⟩
      · exact ih _ ⟨q, hT, hpend⟩

/-- A request with an invalid table id matches no rule. -/
theorem checkTableId_of_mem {r : RuleId} (hr : r ∈ requestMatches s fm cmd) :
    checkTableId s.ofproto fm.tableId = none := by
  by_contra hbad
  have hvalid : ¬ (fm.tableId = 0xff ∨ fm.tableId < s.ofproto.nTables) := by
    intro hok
    exact hbad (if_pos hok)
  have hnone : matchingTables s.ofproto.enclave s.ofproto.nTables fm.tableId = [] := by
    unfold matchingTables
    rw [if_neg fun h => hvalid (.inl h), if_neg fun h => hvalid (.inr h)]
  simp [requestMatches, strictMatches, looseMatches, hnone] at hr

/-- The collection of a loose request that meets a pending rule. -/
theorem collectRulesLoose_pending (outputTo : A → BitVec 16 → Bool) (b : Build)
    (outPort : BitVec 16) (h : EnclaveOk P s.ofproto.enclave)
    (htable : checkTableId s.ofproto fm.tableId = none)
    (hpend : ∃ r ∈ looseMatches s.ofproto.enclave s.ofproto.nTables fm.tableId fm.match,
      (s.ofproto.rule (s.ofproto.enclave.oClsRule r)).pending.isSome = true) :
    ∃ rules modifiable, collectRulesLoose outputTo b s fm.tableId fm.match fm.cookie
      fm.cookieMask outPort = some ⟨some .postpone, rules, modifiable⟩ := by
  obtain ⟨modifiable, hcand⟩ := looseCandidates_eq (i := fm.tableId) (m := fm.match) b h
  obtain ⟨rules, hloop⟩ := collectLoop_pending outputTo fm.cookie fm.cookieMask outPort _ []
    hpend
  refine ⟨rules, modifiable, ?_⟩
  simp [collectRulesLoose, htable, hcand, hloop]

/-- The collection of a strict request returns no error of its walk. -/
theorem collectRulesStrict_error {outPort : BitVec 16} {c : Collected}
    (htable : checkTableId s.ofproto fm.tableId = none)
    (hc : collectRulesStrict outputTo b s fm.tableId fm.match fm.priority fm.cookie
      fm.cookieMask outPort = some c) : c.error = none := by
  unfold collectRulesStrict at hc
  rw [htable] at hc
  obtain ⟨⟨candidates, modifiable⟩, -, hc⟩ := Option.bind_eq_some_iff.mp hc
  obtain ⟨⟨error, rules⟩, -, hc⟩ := Option.bind_eq_some_iff.mp hc
  cases hc
  rfl

theorem modifyFlowsAdd_ne (error : Ofperr) : modifyFlowsAdd fm ≠ .returned (some error) := by
  unfold modifyFlowsAdd
  split <;> simp

/-- A strict request with a valid table id returns no error. -/
theorem strict_returns_no_error (hstrict : cmd.isStrict = true) (error : Ofperr)
    (htable : checkTableId s.ofproto fm.tableId = none) :
    flowModHandler outputTo b s fm cmd ≠ some (.returned (some error)) := by
  intro hs
  cases cmd with
  | modify => cases hstrict
  | delete => cases hstrict
  | modifyStrict =>
    obtain ⟨c, hc, hs⟩ := Option.bind_eq_some_iff.mp hs
    rw [collectRulesStrict_error htable hc] at hs
    simp only [Option.isSome_none, Bool.false_eq_true, if_false] at hs
    split at hs
    · exact modifyFlowsAdd_ne error (Option.some.inj hs)
    · split at hs <;> cases hs
  | deleteStrict =>
    obtain ⟨c, hc, hs⟩ := Option.bind_eq_some_iff.mp hs
    rw [collectRulesStrict_error htable hc] at hs
    simp only [Option.isSome_none, Bool.false_eq_true, if_false] at hs
    split at hs <;> cases hs

/-- A loose request that meets a pending rule returns the error. -/
theorem loose_postpones (hloose : cmd.isStrict = false) (h : EnclaveOk P s.ofproto.enclave)
    {r : RuleId} (hr : r ∈ requestMatches s fm cmd)
    (hpend : (s.ofproto.rule (s.ofproto.enclave.oClsRule r)).pending.isSome = true) :
    flowModHandler outputTo b s fm cmd = some (.returned (some .postpone)) := by
  have htable := checkTableId_of_mem hr
  rw [requestMatches, hloose] at hr
  obtain ⟨rules, modifiable, hc⟩ := collectRulesLoose_pending outputTo b (requestPort fm cmd) h
    htable ⟨r, hr, hpend⟩
  cases cmd with
  | modify =>
    change modifyFlowsLoose outputTo b s fm = _
    simp only [requestPort] at hc
    simp [modifyFlowsLoose, hc]
  | delete =>
    change deleteFlowsLoose outputTo b s fm = _
    simp only [requestPort] at hc
    simp [deleteFlowsLoose, hc]
  | modifyStrict => cases hloose
  | deleteStrict => cases hloose

/-- In every build a request that selects a pending rule is postponed if and only if it is a
loose one: the others are safe only where no rule that they select is pending. -/
theorem pendingPostpones_iff (h : EnclaveOk P s.ofproto.enclave) :
    PendingPostpones outputTo b s fm cmd ↔
      cmd.isStrict = false ∨
        ∀ a, Selects outputTo s fm cmd a → (s.ofproto.rule a).pending = none := by
  constructor
  · intro hall
    by_cases hstrict : cmd.isStrict = true
    · refine .inr fun a ha => ?_
      by_contra hpend
      have hpostponed := hall a ha (Option.isSome_iff_ne_none.mpr hpend)
      obtain ⟨r, hr, -⟩ := ha
      exact strict_returns_no_error hstrict .postpone (checkTableId_of_mem hr) hpostponed
    · exact .inl (Bool.eq_false_of_not_eq_true hstrict)
  · rintro (hloose | hnone) a ha hpend
    · obtain ⟨r, hr, rfl, -⟩ := ha
      exact loose_postpones hloose h hr hpend
    · rw [hnone a ha] at hpend
      cases hpend

/-! ## Two deletions -/

/-- A bridge with one flow whose operation is deferred, the provider being clogged. -/
def deferredFlow : Ofproto :=
  (newBridge.after (.clog true)).after (.addFlow (expiringFlow 7#32 1) (ruleAt 1#64) none)

theorem deferredFlow_ok : EnclaveOk (fun _ => True) deferredFlow.enclave := by
  have h0 : OfprotoReachable (fun o c => c.Allowed o) newBridge :=
    newBridge_reachable fun _ _ _ _ => ⟨rfl, trivial⟩
  have h1 := h0.after (c := .clog true) trivial
  have h2 : OfprotoReachable (fun o c => c.Allowed o) deferredFlow :=
    h1.after (show Enclave.NewAddr _ 1#64 by decide +kernel)
  exact (h2.sane fun _ _ hc => hc).enclave.toEnclaveOk

/-- Rules without cookies whose actions are not looked at. -/
def deferredState : FlowState Unit := ⟨deferredFlow, fun _ => 0#64, fun _ => ()⟩

/-- A request about the flow, for every port and every cookie. -/
def flowRequest : FlowModRequest Unit :=
  { expiringFlow 7#32 1 with
    cookie := 0#64, cookieMask := 0#64, newCookie := 0#64, outPort := OFPP_ANY, ofpacts := () }

theorem deferredFlow_selected (cmd : FlowModCommand) :
    Selects (fun _ _ => false) deferredState flowRequest cmd 1#64 := by
  refine ⟨0, ?_, by decide +kernel, by decide +kernel, ?_, by decide +kernel⟩
  · cases cmd <;> decide +kernel
  · cases cmd <;> decide +kernel

/-- A loose deletion of the flow is postponed. -/
theorem looseDeletion_postponed :
    Selects (fun _ _ => false) deferredState flowRequest .delete 1#64 ∧
      (deferredFlow.rule 1#64).pending = some 0 ∧
      PendingPostpones (fun _ _ => false) .optimized deferredState flowRequest .delete :=
  ⟨deferredFlow_selected .delete, by decide +kernel,
    (pendingPostpones_iff deferredFlow_ok).mpr (.inl rfl)⟩

/-- A strict deletion of the flow does nothing and returns 0. -/
theorem strictDeletion_lost :
    ¬ ∀ (b : Build) (s : FlowState Unit) (fm : FlowModRequest Unit) (cmd : FlowModCommand),
      EnclaveOk (fun _ => True) s.ofproto.enclave →
      PendingPostpones (fun _ _ => false) b s fm cmd := by
  intro hall
  have hpost := hall .optimized deferredState flowRequest .deleteStrict deferredFlow_ok 1#64
    (deferredFlow_selected .deleteStrict) (by decide +kernel)
  have hlost : flowModHandler (fun _ _ => false) .optimized deferredState flowRequest
      .deleteStrict = some (.returned none) := by decide +kernel
  rw [hlost] at hpost
  cases hpost

end Requests

end OvsSgx
