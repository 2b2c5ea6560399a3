/-
OvsSgx.AddFlowPostcondition — `ecall_add_flow`, as its caller sees it.

A flow that is not refused displaces the rule with its match and priority,
and another rule is evicted if the table has then grown beyond its limit
and has one to evict. The statement says what becomes of these three rules
and that every other rule keeps its table and the very group it is in.
-/
import OvsSgx.EvictionReachable

namespace OvsSgx

variable {P : Match → Prop} {s s' : Enclave} {i : Nat} {a : UtAddr} {q : RuleId}

/-! ## Groups of other rules -/

theorem sgxEvgGroupResize_evictGroup {p : Nat} {g : EvgId}
    (h : sgxEvgGroupResize s i p g = some s') : s'.evictGroup = s.evictGroup := by
  simp only [sgxEvgGroupResize, Option.bind_eq_bind, Option.bind_eq_some_iff] at h
  obtain ⟨⟨heap, nodes⟩, -, h⟩ := h
  cases h
  rfl

theorem sgxEvgFind_evictGroup (s : Enclave) (i : Nat) (id : U32) (p : Nat) :
    (sgxEvgFind s i id p).1.evictGroup = s.evictGroup := by
  unfold sgxEvgFind
  split <;> rfl

/-- Destroying a group without rules takes no rule out of a group. -/
theorem sgxEvgDestroy_evictGroup {g : EvgId} (hn : (s.evgRules g).n = 0)
    (h : sgxEvgDestroy s i g = some s') : s'.evictGroup = s.evictGroup := by
  simp only [sgxEvgDestroy, hn, popAll] at h
  split at h
  · simp only [Option.bind_eq_bind, Option.bind_eq_some_iff] at h
    obtain ⟨⟨heap, nodes⟩, -, h⟩ := h
    cases h
    rfl
  · cases h

/-- `ecall_evg_remove_rule` changes the group of no other rule. -/
theorem ecallEvgRemoveRule_evictGroup (h : ecallEvgRemoveRule s i a = some s')
    (hq : sgxRuleFromUtCr s a ≠ some q) : s'.evictGroup q = s.evictGroup q := by
  simp only [ecallEvgRemoveRule, Option.bind_eq_bind, Option.bind_eq_some_iff] at h
  obtain ⟨r, hlook, h⟩ := h
  have hqr : q ≠ r := fun heq => hq (heq ▸ hlook)
  cases hg : s.evictGroup r with
  | none =>
    rw [hg] at h
    cases h
    rfl
  | some g =>
    simp only [hg, Option.bind_eq_some_iff] at h
    obtain ⟨s1, h1, h⟩ := h
    have hunlink : s1.evictGroup q = s.evictGroup q := by
      simp only [evgUnlinkRule, Option.bind_eq_bind, Option.bind_eq_some_iff] at h1
      obtain ⟨⟨heap, nodes⟩, -, h1⟩ := h1
      cases h1
      exact Function.update_of_ne hqr _ _
    split at h
    · rename_i hempty
      rw [sgxEvgDestroy_evictGroup hempty h, hunlink]
    · rw [sgxEvgGroupResize_evictGroup h]
      exact hunlink

/-- `ecall_evg_add_rule` changes the group of no other rule. -/
theorem ecallEvgAddRule_evictGroup {p p' : Nat} {node : HeapNode}
    (h : ecallEvgAddRule s i a p p' node = some s') (hq : sgxRuleFromUtCr s a ≠ some q) :
    s'.evictGroup q = s.evictGroup q := by
  simp only [ecallEvgAddRule, Option.bind_eq_bind, Option.bind_eq_some_iff] at h
  obtain ⟨r, hlook, h⟩ := h
  have hqr : q ≠ r := fun heq => hq (heq ▸ hlook)
  split at h
  · cases h
  · rw [sgxEvgGroupResize_evictGroup h, ← sgxEvgFind_evictGroup s i
      (evictionGroupHashRule (s.oftable i) (s.clsRule r)) p]
    exact Function.update_of_ne hqr _ _

theorem evgRemoveVictim_evictGroup {v : Option UtAddr} (h : evgRemoveVictim s i v = some s')
    (hq : ∀ b, v = some b → sgxRuleFromUtCr s b ≠ some q) : s'.evictGroup q = s.evictGroup q := by
  cases v with
  | none =>
    cases h
    rfl
  | some b => exact ecallEvgRemoveRule_evictGroup h (hq b rfl)

theorem evgAddFlow_evictGroup {args : AddFlowArgs} (h : evgAddFlow s args = some s')
    (hq : sgxRuleFromUtCr s args.cr ≠ some q) : s'.evictGroup q = s.evictGroup q := by
  unfold evgAddFlow at h
  split at h
  · exact ecallEvgAddRule_evictGroup h hq
  · cases h
    rfl

/-! ## The end of the call -/

/-- The limit is exceeded, or no rule is evicted. -/
theorem evictForFlow_overflow (h : EnclaveOk P s) {cr : UtAddr} {out out' : AddFlowOut}
    (hout : out.tableOverflow = false) (hnone : out.evict = none)
    (hs : evictForFlow s i cr out = some (s', out')) :
    (out'.tableOverflow = true ↔ ecallOftableMflows s i < ecallOftableClsCount s i) ∧
      (out'.evict ≠ none → out'.tableOverflow = true) ∧
      ∀ q, (∀ e, out'.evict = some e → sgxRuleFromUtCr s e ≠ some q) →
        s'.evictGroup q = s.evictGroup q := by
  rcases evictForFlow_cases h hs with
    ⟨hle, rfl, rfl⟩ | ⟨hlt, -, rfl, rfl⟩ | ⟨hlt, e, r, s1, hash, -, -, h1, h2, -, -, rfl⟩
  · exact ⟨by simp [hout, Nat.not_lt.mpr hle], by simp [hnone], fun _ _ => rfl⟩
  · exact ⟨by simp [hlt], by simp, fun _ _ => rfl⟩
  · refine ⟨by simp [hlt], by simp, fun q hq => ?_⟩
    have hremove : s1.evictGroup = s.evictGroup ∧ s1.clsRules = s.clsRules := by
      simp only [ecallClsRemove, Option.bind_eq_bind, Option.bind_eq_some_iff] at h1
      obtain ⟨_, -, _, -, h1⟩ := h1
      cases h1
      exact ⟨rfl, rfl⟩
    have hlook : sgxRuleFromUtCr s1 e = sgxRuleFromUtCr s e := by
      simp only [sgxRuleFromUtCr, hremove.2]
    rw [ecallEvgRemoveRule_evictGroup h2 (hlook ▸ hq e rfl), hremove.1]

/-- The shadows of the old rules are found as before. -/
theorem ecallClsRuleInit_lookup_old (h : BridgeOk P s) {a : UtAddr} (hnew : s.NewAddr a) {m : Match}
    (hm : P m) (p : Nat) (hq : s.LiveRule q) :
    sgxRuleFromUtCr (ecallClsRuleInit s a m p) (s.oClsRule q) = some q := by
  have hok := (ecallClsRuleInit_bridge h hnew hm p).shadows
  have hself := hok.lookup_self (ecallClsRuleInit_liveRule.mpr (.inr hq))
  rwa [ecallClsRuleInit_oClsRule (Nat.ne_of_lt (h.shadows.rule_lt hq))] at hself

/-- Placing the new rule leaves the groups of the rules alone, but for the victim. -/
theorem placeFlow_evictGroup {args : AddFlowArgs} {s2 s3 : Enclave} {V : Option RuleId}
    (h : BridgeOk P s) (hnew : s.NewAddr args.cr) (hm : P args.match)
    (hlive : ∀ v, V = some v → s.LiveRule v)
    (h2 : evgRemoveVictim (replaceState (ecallClsRuleInit s args.cr args.match args.priority)
      args.tableId s.nextRule) args.tableId (V.map (ecallClsRuleInit s args.cr args.match
        args.priority).oClsRule) = some s2)
    (h3 : evgAddFlow s2 args = some s3) (hq : q ≠ s.nextRule) (hqV : V ≠ some q) :
    s3.evictGroup q = s.evictGroup q := by
  have hinit : (replaceState (ecallClsRuleInit s args.cr args.match args.priority) args.tableId
      s.nextRule).evictGroup q = s.evictGroup q := Function.update_of_ne hq _ _
  have hvictim : s2.evictGroup q = s.evictGroup q := by
    refine (evgRemoveVictim_evictGroup h2 fun b hb hbq => ?_).trans hinit
    obtain ⟨v, hv, rfl⟩ := Option.map_eq_some_iff.mp hb
    have hvne : v ≠ s.nextRule := Nat.ne_of_lt (h.shadows.rule_lt (hlive v hv))
    rw [ecallClsRuleInit_oClsRule hvne] at hbq
    have hfound := ecallClsRuleInit_lookup_old h hnew hm args.priority (hlive v hv)
    exact hqV (hv.trans (hfound.symm.trans hbq))
  refine (evgAddFlow_evictGroup h3 fun hbq => ?_).trans hvictim
  have hlook := ecallClsRuleInit_lookup (m := args.match) (p := args.priority) h.shadows hnew
  have hlook2 : sgxRuleFromUtCr s2 args.cr
      = sgxRuleFromUtCr (ecallClsRuleInit s args.cr args.match args.priority) args.cr :=
    ((evgRemoveVictim_sameRules h2).lookup args.cr).trans rfl
  rw [hlook2, hlook, Option.some.injEq] at hbq
  exact hq hbq.symm

/-- The overflow flag, and the groups of the rules that are not concerned. -/
theorem installFlow_post {args : AddFlowArgs} {out : AddFlowOut} {V E : Option RuleId}
    (h : BridgeOk P s) (hnew : s.NewAddr args.cr) (hm : P args.match)
    (hro : ecallOftableIsReadonly s args.tableId = false)
    (hs : installFlow (ecallClsRuleInit s args.cr args.match args.priority) args AddFlowOut.init
      = some (s', out)) (hadd : FlowAdded P s args s' out V E) :
    (out.tableOverflow = true ↔ ecallOftableMflows s args.tableId
      < ecallOftableClsCount s args.tableId + if V.isSome then 0 else 1) ∧
    ∀ q, q ≠ s.nextRule → V ≠ some q → E ≠ some q → s'.evictGroup q = s.evictGroup q := by
  have hlook := ecallClsRuleInit_lookup (m := args.match) (p := args.priority) h.shadows hnew
  have hok1 := (ecallClsRuleInit_bridge h hnew hm args.priority).toEnclaveOk
  have hnot : ∀ j, s.nextRule ∉ (ecallClsRuleInit s args.cr args.match args.priority).rules j :=
    fun j => h.toEnclaveOk.nextRule_not_mem j
  have hV : replaceVictim (ecallClsRuleInit s args.cr args.match args.priority) args.tableId
      s.nextRule = V := by
    ext v
    rw [init_replaceVictim h hnew hm, ← hadd.victim v]
  have hcount := replaceState_count hok1 (hnot args.tableId)
  obtain ⟨s2, s3, h2, h3, hcases⟩ := installFlow_cases hlook hs
  rw [hV] at h2 hcount hcases
  have hsame := (evgRemoveVictim_sameRules h2).trans (evgAddFlow_sameRules h3)
  have hmax : ecallOftableMflows s3 args.tableId = ecallOftableMflows s args.tableId :=
    (hsame.maxFlows _).trans (replaceState_tables _ _ _ _).2
  have hcount3 : ecallOftableClsCount s3 args.tableId
      = ecallOftableClsCount s args.tableId + if V.isSome then 0 else 1 := by
    simp only [ecallOftableClsCount, hsame.cls] at hcount ⊢
    exact hcount
  have hreadonly : ecallOftableIsReadonly s3 args.tableId = false := by
    simp only [ecallOftableIsReadonly, hsame.flags, (replaceState_tables _ _ _ _).1]
    exact hro
  have hlive : ∀ q, V = some q → s.LiveRule q := fun q hq =>
    h.live _ q ((hadd.victim q).mp hq).1
  rcases hcases with ⟨-, hro3, -, -⟩ | ⟨-, out3, vid, vidMask, h4, rfl⟩
  · rw [hreadonly] at hro3
    cases hro3
  · have hok3 : EnclaveOk P s3 := hsame.ok (replaceState_ok hok1
      (hok1.shadows.live_of_lookup hlook) hnot)
    obtain ⟨hover, -, hframe⟩ := evictForFlow_overflow hok3 rfl rfl h4
    rw [hmax, hcount3] at hover
    refine ⟨hover, fun q hq hqV hqE => ?_⟩
    rw [hframe q fun e he hlook' => ?_, placeFlow_evictGroup h hnew hm hlive h2 h3 hq hqV]
    -- the rule that is evicted is found under the address that is returned
    have hE : E.map s.oClsRule = some e := hadd.outEvict.symm.trans he
    obtain ⟨r, hr, rfl⟩ := Option.map_eq_some_iff.mp hE
    have hrlive := h.live _ r (h.installed _ r (hadd.evicted r hr).1)
    have hlook3 : sgxRuleFromUtCr s3 (s.oClsRule r)
        = sgxRuleFromUtCr (ecallClsRuleInit s args.cr args.match args.priority) (s.oClsRule r) :=
      (hsame.lookup _).trans rfl
    rw [hlook3, ecallClsRuleInit_lookup_old h hnew hm args.priority hrlive] at hlook'
    exact hqE (hr.trans hlook')

/-! ## The postcondition -/

/-- What `ecall_add_flow` has done with a flow that it did not refuse. The new rule is
`s.nextRule`, `V` is the victim and `E` the evicted rule. -/
structure AddFlowPost (s : Enclave) (args : AddFlowArgs) (s' : Enclave) (out : AddFlowOut)
    (V E : Option RuleId) : Prop where
  newRule : s'.oClsRule s.nextRule = args.cr ∧
    (s'.clsRule s.nextRule).match = minimatchInit args.match ∧
    (s'.clsRule s.nextRule).priority = args.priority
  victim : ∀ v, V = some v ↔ IsVictim s args.tableId args.match args.priority v
  outVictim : out.victim = V.map s.oClsRule
  outEvict : out.evict = E.map s.oClsRule
  rules : ∀ j q, q ∈ s'.rules j ↔
    (j = args.tableId ∧ q = s.nextRule) ∨ (q ∈ s.rules j ∧ V ≠ some q ∧ E ≠ some q)
  overflow : out.tableOverflow = true ↔ ecallOftableMflows s args.tableId
    < ecallOftableClsCount s args.tableId + if V.isSome then 0 else 1
  evicted : ∀ e, E = some e → out.tableOverflow = true ∧ s.GroupedIn args.tableId e ∧
    e ≠ s.nextRule ∧ V ≠ some e
  notEvicted : E = none → out.tableOverflow = true → ∀ q, s.GroupedIn args.tableId q → V = some q
  left : ∀ q, V = some q ∨ E = some q → s'.evictGroup q = none
  grouped : (s'.evictGroup s.nextRule).isSome = true ↔
    ecallIsEvictionFieldsEnabled s args.tableId = true ∧ args.hasTimeout = true
  others : ∀ q, q ≠ s.nextRule → V ≠ some q → E ≠ some q → s'.evictGroup q = s.evictGroup q

theorem addFlowPost_of_added {args : AddFlowArgs} {out : AddFlowOut} {V E : Option RuleId}
    (h : BridgeOk P s) (hnew : s.NewAddr args.cr) (hm : P args.match)
    (hro : ecallOftableIsReadonly s args.tableId = false)
    (hs : installFlow (ecallClsRuleInit s args.cr args.match args.priority) args AddFlowOut.init
      = some (s', out)) (hadd : FlowAdded P s args s' out V E) :
    AddFlowPost s args s' out V E := by
  obtain ⟨hover, hothers⟩ := installFlow_post h hnew hm hro hs hadd
  have hold : ∀ q, V = some q ∨ E = some q → ∃ j, q ∈ s.rules j := by
    rintro q (hq | hq)
    · exact ⟨_, ((hadd.victim q).mp hq).1⟩
    · exact ⟨_, h.installed _ q (hadd.evicted q hq).1⟩
  have hne : ∀ q, V = some q ∨ E = some q → q ≠ s.nextRule := by
    intro q hq heq
    obtain ⟨j, hj⟩ := hold q hq
    exact h.toEnclaveOk.nextRule_not_mem j (heq ▸ hj)
  have hgrouped : ∀ q, (s'.evictGroup q).isSome = true ↔ ∃ j, s'.GroupedIn j q := by
    intro q
    rw [Option.isSome_iff_exists]
    constructor
    · rintro ⟨g, hg⟩
      exact hadd.ok.eviction.groupedIn hg
    · rintro ⟨j, g, -, hg⟩
      exact ⟨g, hg⟩
  refine ⟨⟨?_, hadd.newRule⟩, hadd.victim, hadd.outVictim, hadd.outEvict, hadd.rules, hover,
    fun e he => ⟨hadd.overflow (by simp [he]), (hadd.evicted e he).1, hne e (.inr he),
      (hadd.evicted e he).2⟩, fun hE htrue => ?_, fun q hq => ?_, ?_, hothers⟩
  · rw [hadd.oClsRule, ecallClsRuleInit_oClsRule_self]
  · rcases hadd.notEvicted.mp hE with hle | hall
    · exact absurd (hover.mp htrue) (Nat.not_lt.mpr hle)
    · exact hall
  · rw [← Option.not_isSome_iff_eq_none, hgrouped]
    rintro ⟨j, hj⟩
    rcases (hadd.groupedIn j q).mp hj with ⟨-, hqV, hqE⟩ | ⟨-, -, heq⟩
    · exact hq.elim hqV hqE
    · exact hne q hq heq
  · rw [hgrouped, ← Bool.and_eq_true]
    constructor
    · rintro ⟨j, hj⟩
      rcases (hadd.groupedIn j _).mp hj with ⟨hin, -⟩ | ⟨hb, -⟩
      · exact absurd (h.installed j _ hin) (h.toEnclaveOk.nextRule_not_mem j)
      · exact hb
    · exact fun hb => ⟨args.tableId, (hadd.groupedIn _ _).mpr (.inr ⟨hb, rfl, rfl⟩)⟩

/-- A flow that takes none of the early exits is added. -/
theorem ecallAddFlow_postcondition (h : GroupsReachable s) {args : AddFlowArgs}
    (hnew : s.NewAddr args.cr) (hro : ecallOftableIsReadonly s args.tableId = false)
    (hpending : anyPendingEqual (ecallClsRuleInit s args.cr args.match args.priority) args.cr
      args.pendingDeletions = some false)
    (hoverlap : flowOverlaps (ecallClsRuleInit s args.cr args.match args.priority) args
      = some false) :
    ∃ s' out V E, ecallAddFlow s args = some (s', out) ∧ AddFlowPost s args s' out V E := by
  obtain ⟨s', out, V, E, hs, hadd⟩ := installFlow_added h.bridge hnew trivial hro
  refine ⟨s', out, V, E, ?_, addFlowPost_of_added h.bridge hnew trivial hro hs hadd⟩
  simp [ecallAddFlow, hro, hpending, hoverlap, hs]

/-- The bridge with three expiring rules, of which it may keep two. -/
def fullBridge : Enclave := evictingBridge.after (.oftableMflowsSet 0 2)

/-- A flow with the match and priority of the second rule. -/
def replacingFlow : AddFlowArgs :=
  { sampleFlow 4#64 (matchFirstWord 7#32) 2 with hasTimeout := true }

/-- It displaces the second rule, and another one is evicted. -/
theorem fullBridge_addFlow :
    ((ecallAddFlow fullBridge replacingFlow).map fun r => (r.2.victim, r.2.evict.isSome))
        = some (some 2#64, true) ∧
      ∃ s' out V E, ecallAddFlow fullBridge replacingFlow = some (s', out) ∧
        AddFlowPost fullBridge replacingFlow s' out V E :=
  ⟨by decide +kernel, ecallAddFlow_postcondition
    (evictingBridge_reachable.after (c := .oftableMflowsSet 0 2) trivial) (by decide +kernel)
    (by decide +kernel) (by decide +kernel) (by decide +kernel)⟩

end OvsSgx
