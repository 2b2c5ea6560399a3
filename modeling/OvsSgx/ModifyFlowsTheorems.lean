/-
OvsSgx.ModifyFlowsTheorems — modifications and read-only tables.

A request for one table modifies a rule if and only if that table is not
read-only. A request for all tables goes by the flags that the enclave finds
at index 255, behind the tables of the bridge, for all of its rules.
-/
import OvsSgx.ModifyFlows
import OvsSgx.PagedCollection

namespace OvsSgx

/-! ## What is to happen -/

section Property

variable {A : Type} [DecidableEq A] (outputTo : A → BitVec 16 → Bool) (s : FlowState A)
  (fm : FlowModRequest A) (strict : Bool)

/-- The command of the request. -/
def modifyCommand : FlowModCommand := if strict then .modifyStrict else .modify

/-- The request is to modify the rule at `a`. A strict request modifies a rule only if it
selects no other one. -/
def ToModify (a : UtAddr) : Prop :=
  Selects outputTo s fm (modifyCommand strict) a ∧
    (strict = true → ∀ b, Selects outputTo s fm (modifyCommand strict) b → b = a)

/-- The rules to be modified that are allowed to change get the cookie and the actions of the
request, no other rule changes, and `OFPERR_OFPBRC_EPERM` is returned if and only if there are
rules to be modified and none of them is allowed to change. -/
def ChangesExactly (allowed : UtAddr → Bool) : Prop :=
  ∃ s' outcome, handleModify outputTo s fm strict = some (s', outcome) ∧
    (∀ a, ToModify outputTo s fm strict a → allowed a = true →
      s'.flowCookie a = fm.cookieFor (s.flowCookie a) ∧ s'.ofpacts a = fm.ofpacts) ∧
    (∀ a, ¬ (ToModify outputTo s fm strict a ∧ allowed a = true) →
      s'.flowCookie a = s.flowCookie a ∧ s'.ofpacts a = s.ofpacts a) ∧
    (outcome = .returned (some .eperm) ↔ (∃ a, ToModify outputTo s fm strict a) ∧
      ∀ a, ToModify outputTo s fm strict a → allowed a = false)

/-- A rule is changed exactly when its own table is not read-only. -/
def ModifyRespects : Prop := ChangesExactly outputTo s fm strict (ruleIsModifiable s.ofproto)

/-- The flags at the table id of the request are those of the tables of its rules. -/
def FlagsAgree : Prop :=
  ∀ a, ToModify outputTo s fm strict a →
    ruleIsModifiable s.ofproto a = !ecallOftableIsReadonly s.ofproto.enclave fm.tableId

/-- The flags at the table id of the request allow the change, but it has no effect on the rules
in read-only tables, and there are others. -/
def NoEffect : Prop :=
  ecallOftableIsReadonly s.ofproto.enclave fm.tableId = false ∧
    (∃ a, ToModify outputTo s fm strict a ∧ ruleIsModifiable s.ofproto a = true) ∧
    ∀ a, ToModify outputTo s fm strict a → ruleIsModifiable s.ofproto a = false →
      fm.cookieFor (s.flowCookie a) = s.flowCookie a ∧ fm.ofpacts = s.ofpacts a

end Property

/-! ## The loop over the rules -/

/-- Group `g` of the bridge has operations that modify live rules, and is not submitted yet. -/
structure Modifying (g : GroupId) (s : Enclave) (o : Ofproto) : Prop where
  enclave : o.enclave = s
  fresh : g ∉ o.pending
  ops : ∀ k ∈ (o.group g).ops, k < o.nextOp ∧ (o.op k).type = .modify ∧ s.Live (o.op k).rule

section Loop

variable {A : Type} [DecidableEq A] {g : GroupId} {e : Enclave} {o : Ofproto} {a : UtAddr}

/-- A new operation of the group. -/
theorem addOperation_modifying (h : Modifying g e o) (hlive : e.Live a) :
    Modifying g e (o.addOperation g a .modify 0#32) := by
  refine ⟨h.enclave, h.fresh, fun k hk => ?_⟩
  have hops : k ∈ (o.group g).ops ++ [o.nextOp] := by
    simpa [Ofproto.addOperation] using hk
  rcases List.mem_append.mp hops with hk | hk
  · obtain ⟨hlt, htype, hrule⟩ := h.ops k hk
    have hne : k ≠ o.nextOp := Nat.ne_of_lt hlt
    simp only [Ofproto.addOperation, Function.update_of_ne hne]
    exact ⟨Nat.lt_succ_of_lt hlt, htype, hrule⟩
  · rw [List.mem_singleton.mp hk]
    simp only [Ofproto.addOperation, Function.update_self]
    exact ⟨Nat.lt_succ_self _, trivial, hlive⟩

/-- Its completion, before the group is submitted. -/
theorem ofoperationComplete_modifying (h : Modifying g e o) (hlive : e.Live a) :
    ∃ o', ofoperationComplete (o.addOperation g a .modify 0#32) o.nextOp none = some o' ∧
      Modifying g e o' ∧ o'.rule = (o.addOperation g a .modify 0#32).rule := by
  have hadd := addOperation_modifying h hlive
  have hop : (o.addOperation g a .modify 0#32).op o.nextOp = ⟨g, a, .modify, 0#32, none, none⟩ := by
    simp [Ofproto.addOperation]
  have hgroup : (o.addOperation g a .modify 0#32).group g
      = ⟨(o.group g).ops ++ [o.nextOp], (o.group g).nRunning + 1⟩ := by
    simp [Ofproto.addOperation]
  have hpend : ((o.addOperation g a .modify 0#32).rule a).pending = some o.nextOp := by
    simp [Ofproto.addOperation, Ofproto.setPending]
  generalize o.addOperation g a .modify 0#32 = o1 at hadd hop hgroup hpend
  simp only [ofoperationComplete, hop, hpend, hgroup, Nat.succ_pos, true_or, and_self,
    if_true, hadd.fresh, and_false, if_false]
  refine ⟨_, rfl, ⟨hadd.enclave, hadd.fresh, fun k hk => ?_⟩, rfl⟩
  have hk' : k ∈ (o1.group g).ops := by
    rw [hgroup]
    simpa using hk
  obtain ⟨hlt, htype, hrule⟩ := hadd.ops k hk'
  by_cases hkn : k = o.nextOp
  · subst hkn
    rw [hop] at hrule
    simpa using ⟨hlt, hrule⟩
  · simpa [Function.update_of_ne hkn] using ⟨hlt, htype, hrule⟩

/-- One modifiable rule. -/
theorem modifyRule_ok (fm : FlowModRequest A) {s : FlowState A} (h : Modifying g e s.ofproto)
    (hlive : e.Live a) (hpend : (s.ofproto.rule a).pending = none) :
    ∃ o', modifyRule g fm s a = some ⟨o', Function.update s.flowCookie a
        (fm.cookieFor (s.flowCookie a)), Function.update s.ofpacts a fm.ofpacts⟩ ∧
      Modifying g e o' ∧ ∀ b, b ≠ a → o'.rule b = s.ofproto.rule b := by
  have hcreate : ofoperationCreate s.ofproto g a .modify none
      = some (s.ofproto.addOperation g a .modify 0#32, s.ofproto.nextOp) := by
    simp [ofoperationCreate, hpend]
  have hrule : ∀ b, b ≠ a → (s.ofproto.addOperation g a .modify 0#32).rule b = s.ofproto.rule b := by
    intro b hb
    simp [Ofproto.addOperation, Ofproto.setPending, hb]
  obtain ⟨o', hcomplete, hmod, hr⟩ := ofoperationComplete_modifying h hlive
  have hadd := addOperation_modifying h hlive
  have hpending : ((s.ofproto.addOperation g a .modify 0#32).rule a).pending
      = some s.ofproto.nextOp := by
    simp [Ofproto.addOperation, Ofproto.setPending]
  simp only [modifyRule, hcreate, Option.bind_eq_bind, Option.bind_some]
  split
  · rename_i heq
    refine ⟨o', ?_, hmod, fun b hb => by rw [hr, hrule b hb]⟩
    rw [hcomplete, heq, Function.update_eq_self]
    rfl
  · simp only [completeOperation, hpending, Option.bind_eq_bind, Option.bind_some]
    split
    · exact ⟨_, rfl, ⟨hadd.enclave, hadd.fresh, hadd.ops⟩, hrule⟩
    · refine ⟨o', ?_, hmod, fun b hb => by rw [hr, hrule b hb]⟩
      rw [hcomplete]
      rfl

/-- The loop where the array allows every change. -/
theorem modifyLoop_true (fm : FlowModRequest A) {modifiable : List Bool}
    (hm : ∀ m ∈ modifiable, m = true) {rules : List UtAddr} :
    ∀ (i : Nat) (s : FlowState A) (error : Option Ofperr), Modifying g e s.ofproto →
    i + rules.length ≤ modifiable.length → rules.Nodup →
    (∀ a ∈ rules, e.Live a ∧ (s.ofproto.rule a).pending = none) →
    ∃ s', modifyLoop g fm modifiable i rules s error
        = some (s', if rules = [] then error else none) ∧ Modifying g e s'.ofproto ∧
      (∀ a ∈ rules, s'.flowCookie a = fm.cookieFor (s.flowCookie a) ∧ s'.ofpacts a = fm.ofpacts) ∧
      ∀ a ∉ rules, s'.flowCookie a = s.flowCookie a ∧ s'.ofpacts a = s.ofpacts a := by
  induction rules with
  | nil => exact fun i s error h _ _ _ => ⟨s, rfl, h, by simp, fun _ _ => ⟨rfl, rfl⟩⟩
  | cons a rest ih =>
    intro i s error h hlen hnodup hrules
    rw [List.length_cons] at hlen
    have hlt : i < modifiable.length := by omega
    obtain ⟨ha, hnodup⟩ := List.nodup_cons.mp hnodup
    obtain ⟨hlive, hpend⟩ := hrules a (by simp)
    obtain ⟨o', hs1, h1, hrule⟩ := modifyRule_ok fm h hlive hpend
    have hrest : ∀ b ∈ rest, e.Live b ∧ (o'.rule b).pending = none := by
      intro b hb
      obtain ⟨hb1, hb2⟩ := hrules b (List.mem_cons_of_mem a hb)
      have hba : b ≠ a := ne_of_mem_of_not_mem hb ha
      exact ⟨hb1, by rw [hrule b hba, hb2]⟩
    obtain ⟨s', hs', hmod, hin, hout⟩ := ih (i + 1) ⟨o', Function.update s.flowCookie a
      (fm.cookieFor (s.flowCookie a)), Function.update s.ofpacts a fm.ofpacts⟩ none h1 (by omega)
      hnodup hrest
    dsimp only at hin hout
    refine ⟨s', ?_, hmod, fun b hb => ?_, fun b hb => ?_⟩
    · have hval : modifiable[i]? = some true := by
        rw [List.getElem?_eq_getElem hlt, hm _ (List.getElem_mem hlt)]
      simp [modifyLoop, hval, hs1, hs']
    · rcases List.mem_cons.mp hb with rfl | hb
      · obtain ⟨h1, h2⟩ := hout b ha
        rw [h1, h2]
        simp
      · obtain ⟨h1, h2⟩ := hin b hb
        have hba : b ≠ a := ne_of_mem_of_not_mem hb ha
        rw [h1, h2]
        simp [hba]
    · rw [List.mem_cons, not_or] at hb
      obtain ⟨h1, h2⟩ := hout b hb.2
      rw [h1, h2]
      simp [hb.1]

/-- The loop where the array allows no change. -/
theorem modifyLoop_false (g : GroupId) (fm : FlowModRequest A) {modifiable : List Bool}
    (hm : ∀ m ∈ modifiable, m = false) {rules : List UtAddr} (s : FlowState A)
    (error : Option Ofperr) : ∀ {i : Nat}, i + rules.length ≤ modifiable.length →
    modifyLoop g fm modifiable i rules s error = some (s, error) := by
  induction rules with
  | nil => exact fun {i} _ => rfl
  | cons a rest ih =>
    intro i hlen
    rw [List.length_cons] at hlen
    have hlt : i < modifiable.length := by omega
    have hval : modifiable[i]? = some false := by
      rw [List.getElem?_eq_getElem hlt, hm _ (List.getElem_mem hlt)]
    have hrest := ih (i := i + 1) (by omega)
    simp [modifyLoop, hval, hrest]

/-- The operations of a group that only modifies rules can be completed. -/
theorem foldlM_completeOp_modify (h : ShadowsOk e) : ∀ (l : List OpId) {o : Ofproto},
    o.enclave = e → (∀ k ∈ l, (o.op k).type = .modify ∧ e.Live (o.op k).rule) →
    ∃ o', l.foldlM (completeOp false) o = some o'
  | [], o, _, _ => ⟨o, rfl⟩
  | k :: l, o, henc, hops => by
      obtain ⟨htype, r, hr, hra⟩ := hops k (by simp)
      have hhidden : ∃ b, operationIsHidden false o (o.op k) = some b := by
        unfold operationIsHidden
        split
        · exact ⟨false, rfl⟩
        · rw [← hra, ← henc]
          rw [← henc] at h hr
          exact ⟨_, ofprotoRuleIsHidden_live h hr⟩
      obtain ⟨b, hb⟩ := hhidden
      have hstep : completeOp false o k
          = some (ofoperationDestroy (o.setPending (o.op k).rule none) k) := by
        simp [completeOp, hb, commitOperation, htype]
      obtain ⟨o', hs⟩ := foldlM_completeOp_modify h l
        (o := ofoperationDestroy (o.setPending (o.op k).rule none) k) henc
        fun j hj => hops j (List.mem_cons_of_mem k hj)
      exact ⟨o', by rw [List.foldlM_cons, hstep]; exact hs⟩

theorem ofopgroupSubmit_modifying (h : Modifying g e o) (hok : ShadowsOk e) :
    ∃ o', ofopgroupSubmit o g false = some o' := by
  unfold ofopgroupSubmit
  split
  · obtain ⟨o', hs⟩ := foldlM_completeOp_modify hok (o.group g).ops h.enclave
      fun k hk => (h.ops k hk).2
    exact ⟨{ o' with pending := o'.pending.erase g }, by simp [ofopgroupComplete, hs]⟩
  · exact ⟨_, rfl⟩

/-- `modify_flows__` with an array that has the same value for all rules. -/
theorem modifyFlows_eq {s : FlowState A} (fm : FlowModRequest A) (h : Sane s.ofproto)
    {rules : List UtAddr} {modifiable : List Bool} {m : Bool} (hm : ∀ x ∈ modifiable, x = m)
    (hlen : rules.length ≤ modifiable.length) (hnodup : rules.Nodup) (hne : rules ≠ [])
    (hrules : ∀ a ∈ rules, s.ofproto.enclave.Live a ∧ (s.ofproto.rule a).pending = none) :
    ∃ s', modifyFlows s fm rules modifiable = some (s', if m then none else some .eperm) ∧
      (∀ a, a ∈ rules ∧ m = true →
        s'.flowCookie a = fm.cookieFor (s.flowCookie a) ∧ s'.ofpacts a = fm.ofpacts) ∧
      ∀ a, ¬ (a ∈ rules ∧ m = true) →
        s'.flowCookie a = s.flowCookie a ∧ s'.ofpacts a = s.ofpacts a := by
  have hnew : Modifying s.ofproto.nextGroup s.ofproto.enclave (ofopgroupCreate s.ofproto).1 := by
    refine ⟨rfl, fun hg => Nat.lt_irrefl _ (h.groups _ hg), fun k hk => ?_⟩
    simp [ofopgroupCreate] at hk
  have hlen' : 0 + rules.length ≤ modifiable.length := by omega
  cases m with
  | true =>
    obtain ⟨s1, hs1, hmod, hin, hout⟩ := modifyLoop_true fm hm 0
      { s with ofproto := (ofopgroupCreate s.ofproto).1 } (some .eperm) hnew hlen' hnodup hrules
    obtain ⟨o', hsub⟩ := ofopgroupSubmit_modifying hmod h.enclave.shadows
    refine ⟨{ s1 with ofproto := o' }, ?_, fun a ha => hin a ha.1, fun a ha => hout a ?_⟩
    · rw [if_neg hne] at hs1
      simp only [modifyFlows]
      rw [show (ofopgroupCreate s.ofproto).2 = s.ofproto.nextGroup from rfl, hs1]
      simp [hsub]
    · simpa using ha
  | false =>
    have hs1 := modifyLoop_false s.ofproto.nextGroup fm hm
      { s with ofproto := (ofopgroupCreate s.ofproto).1 } (some .eperm) hlen'
    obtain ⟨o', hsub⟩ := ofopgroupSubmit_modifying hnew h.enclave.shadows
    refine ⟨{ s with ofproto := o' }, ?_, fun a ha => by simp at ha, fun a _ => ⟨rfl, rfl⟩⟩
    simp only [modifyFlows]
    rw [show (ofopgroupCreate s.ofproto).2 = s.ofproto.nextGroup from rfl, hs1]
    simp [hsub]

end Loop

/-! ## The collections -/

section Collections

variable {A : Type} {outputTo : A → BitVec 16 → Bool} {P : Match → Prop} {s : FlowState A}
  {fm : FlowModRequest A} {strict : Bool}

/-- Rule `r`, one of those that match, passes the tests of the walk over the candidates. -/
def isSelected (outputTo : A → BitVec 16 → Bool) (s : FlowState A) (fm : FlowModRequest A)
    (r : RuleId) : Bool :=
  decide ((s.ofproto.enclave.clsRule r).priority ≤ UINT16_MAX) &&
    ofprotoRuleHasOutPort outputTo s (s.ofproto.enclave.oClsRule r) OFPP_ANY &&
    cookieMatches s (s.ofproto.enclave.oClsRule r) fm.cookie fm.cookieMask

/-- The rules that the request selects, in the order of the walk. -/
def selectedRules (outputTo : A → BitVec 16 → Bool) (s : FlowState A) (fm : FlowModRequest A)
    (strict : Bool) : List UtAddr :=
  ((requestMatches s fm (modifyCommand strict)).filter (isSelected outputTo s fm)).map
    s.ofproto.enclave.oClsRule

theorem mem_selectedRules (a : UtAddr) :
    a ∈ selectedRules outputTo s fm strict ↔ Selects outputTo s fm (modifyCommand strict) a := by
  have hport : requestPort fm (modifyCommand strict) = OFPP_ANY := by
    cases strict <;> rfl
  simp only [selectedRules, isSelected, Selects, hport, List.mem_map, List.mem_filter,
    Bool.and_eq_true, decide_eq_true_eq]
  constructor
  · rintro ⟨r, ⟨hr, ⟨hp, ho⟩, hc⟩, rfl⟩
    exact ⟨r, hr, rfl, hp, ho, hc⟩
  · rintro ⟨r, hr, rfl, hp, ho, hc⟩
    exact ⟨r, ⟨hr, ⟨hp, ho⟩, hc⟩, rfl⟩

/-- The walk over candidates none of which is pending. -/
theorem collectLoop_ok (outputTo : A → BitVec 16 → Bool) (fm : FlowModRequest A) :
    ∀ (T : List RuleId) (rules : List UtAddr),
    (∀ r ∈ T, (s.ofproto.rule (s.ofproto.enclave.oClsRule r)).pending = none) →
    collectLoop outputTo s fm.cookie fm.cookieMask OFPP_ANY (T.map (candidateOf s.ofproto.enclave))
      rules = some (none, rules ++ (T.filter (isSelected outputTo s fm)).map
        s.ofproto.enclave.oClsRule)
  | [], rules, _ => by simp [collectLoop]
  | r :: T, rules, hpend => by
      have hr : (s.ofproto.rule (s.ofproto.enclave.oClsRule r)).pending.isSome = false := by
        simp [hpend r (by simp)]
      have hrest := fun rules => collectLoop_ok outputTo fm T rules
        fun q hq => hpend q (List.mem_cons_of_mem r hq)
      have hvis : (!decide (UINT16_MAX < (s.ofproto.enclave.clsRule r).priority))
          = decide ((s.ofproto.enclave.clsRule r).priority ≤ UINT16_MAX) := by
        by_cases hle : (s.ofproto.enclave.clsRule r).priority ≤ UINT16_MAX
        · simp [hle, Nat.not_lt.mpr hle]
        · simp [hle, Nat.lt_of_not_le hle]
      rw [List.map_cons, collectLoop, candidateOf, if_neg (by simp [hr]), Option.bind_eq_bind,
        Option.bind_some, hvis]
      by_cases hsel : isSelected outputTo s fm r = true
      · rw [List.filter_cons_of_pos hsel]
        unfold isSelected at hsel
        rw [if_pos hsel, hrest]
        simp
      · rw [List.filter_cons_of_neg hsel]
        unfold isSelected at hsel
        rw [if_neg hsel, hrest]

/-- The candidates of the optimized build, with the array. -/
theorem candidatesOf_map (e : Enclave) (i : Nat) (T : List RuleId) :
    candidatesOf (T.map (collectedEntry e i))
      = (T.map (candidateOf e), T.map fun _ => !ecallOftableIsReadonly e i) := by
  simp [candidatesOf, candidateOf, collectedEntry, Function.comp_def]

/-- What the collection of a request hands on if none of its rules is pending: the array has one
entry for each rule that was found, all of them with the flag of the table in the request. -/
theorem collected_eq (outputTo : A → BitVec 16 → Bool) (h : EnclaveOk P s.ofproto.enclave)
    (htable : checkTableId s.ofproto fm.tableId = none)
    (hpend : ∀ r ∈ requestMatches s fm (modifyCommand strict),
      (s.ofproto.rule (s.ofproto.enclave.oClsRule r)).pending = none) :
    (if strict then collectRulesStrict outputTo .optimized s fm.tableId fm.match fm.priority
        fm.cookie fm.cookieMask OFPP_ANY
      else collectRulesLoose outputTo .optimized s fm.tableId fm.match fm.cookie fm.cookieMask
        OFPP_ANY) =
      some ⟨none, selectedRules outputTo s fm strict,
        (requestMatches s fm (modifyCommand strict)).map fun _ =>
          !ecallOftableIsReadonly s.ofproto.enclave fm.tableId⟩ := by
  have hloop := collectLoop_ok outputTo fm _ [] hpend
  rw [List.nil_append] at hloop
  unfold selectedRules
  cases strict with
  | true =>
    have hT : ∀ r ∈ strictMatches s.ofproto.enclave s.ofproto.nTables fm.tableId fm.match
        fm.priority, s.ofproto.enclave.LiveRule r := fun r hr => strictMatches_live h hr
    simp only [requestMatches, modifyCommand, FlowModCommand.isStrict, if_true] at hloop ⊢
    simp only [collectRulesStrict, htable, strictCandidates, ecallCollectRulesStrict_eq h.shadows hT,
      candidatesOf_map, Option.bind_eq_bind, Option.bind_some, Option.pure_def, hloop]
  | false =>
    have hT : ∀ r ∈ looseMatches s.ofproto.enclave s.ofproto.nTables fm.tableId fm.match,
        s.ofproto.enclave.LiveRule r := fun r hr => looseMatches_live h hr
    simp only [requestMatches, modifyCommand, FlowModCommand.isStrict, Bool.false_eq_true,
      if_false] at hloop ⊢
    simp only [collectRulesLoose, htable, looseCandidates, loosePages_eq h.shadows hT,
      candidatesOf_map, Option.bind_eq_bind, Option.bind_some, Option.pure_def, hloop]

theorem strictMatches_nodup {e : Enclave} (h : EnclaveOk P e) (nTables i : Nat) (m : Match)
    (priority : Nat) : (strictMatches e nTables i m priority).Nodup := by
  refine List.Nodup.filterMap (fun j k r hr hr' => ?_) (matchingTables_nodup e nTables i)
  exact h.disjoint j k r (classifierFindRuleExactly_mem (h.cls j) hr)
    (classifierFindRuleExactly_mem (h.cls k) hr')

theorem requestMatches_live (h : EnclaveOk P s.ofproto.enclave) {cmd : FlowModCommand} {r : RuleId}
    (hr : r ∈ requestMatches s fm cmd) : s.ofproto.enclave.LiveRule r := by
  unfold requestMatches at hr
  split at hr
  · exact strictMatches_live h hr
  · exact looseMatches_live h hr

theorem requestMatches_nodup (h : EnclaveOk P s.ofproto.enclave) (cmd : FlowModCommand) :
    (requestMatches s fm cmd).Nodup := by
  unfold requestMatches
  split
  · exact strictMatches_nodup h _ _ _ _
  · exact looseMatches_nodup h

theorem selectedRules_nodup (fm : FlowModRequest A) (strict : Bool)
    (outputTo : A → BitVec 16 → Bool) (h : EnclaveOk P s.ofproto.enclave) :
    (selectedRules outputTo s fm strict).Nodup := by
  refine ((requestMatches_nodup h _).filter _).map_on fun r hr q hq hrq => ?_
  exact oClsRule_injective h (requestMatches_live h (List.mem_of_mem_filter hr))
    (requestMatches_live h (List.mem_of_mem_filter hq)) hrq

/-- A request for one table selects rules of that table only. -/
theorem requestMatches_installed (h : EnclaveOk P s.ofproto.enclave) {cmd : FlowModCommand}
    {r : RuleId} (hr : r ∈ requestMatches s fm cmd) (hone : fm.tableId ≠ 0xff) :
    r ∈ s.ofproto.enclave.rules fm.tableId := by
  have htable : ∀ j ∈ matchingTables s.ofproto.enclave s.ofproto.nTables fm.tableId,
      j = fm.tableId := by
    intro j hj
    rw [matchingTables, if_neg hone] at hj
    split at hj
    · exact List.mem_singleton.mp hj
    · cases hj
  unfold requestMatches at hr
  split at hr
  · obtain ⟨j, hj, hr⟩ := List.mem_filterMap.mp hr
    rw [← htable j hj]
    exact classifierFindRuleExactly_mem (h.cls j) hr
  · obtain ⟨j, hj, hr⟩ := List.mem_flatMap.mp hr
    rw [← htable j hj]
    exact clsCursorRules_subset _ _ _ hr

/-- The rules that the request is to modify, in the order of the walk. -/
def rulesToModify (outputTo : A → BitVec 16 → Bool) (s : FlowState A) (fm : FlowModRequest A)
    (strict : Bool) : List UtAddr :=
  let rules := selectedRules outputTo s fm strict
  if strict = true ∧ rules.length ≠ 1 then [] else rules

theorem mem_rulesToModify (h : EnclaveOk P s.ofproto.enclave) (a : UtAddr) :
    a ∈ rulesToModify outputTo s fm strict ↔ ToModify outputTo s fm strict a := by
  have hnodup := selectedRules_nodup fm strict outputTo h
  simp only [rulesToModify, ToModify, ← mem_selectedRules]
  generalize selectedRules outputTo s fm strict = rules at hnodup
  cases strict with
  | false => simp
  | true =>
    match rules, hnodup with
    | [], _ => simp
    | [b], _ =>
      simp only [List.length_singleton, ne_eq, not_true_eq_false, and_false, if_false,
        List.mem_singleton, forall_eq, true_implies]
      exact ⟨fun hab => ⟨hab, hab.symm⟩, fun hab => hab.1⟩
    | b :: c :: rest, hnodup =>
      -- Two rules that differ: neither is the only one.
      have hbc : b ≠ c := fun hbc => (List.nodup_cons.mp hnodup).1 (by simp [hbc])
      have hlen : (b :: c :: rest).length ≠ 1 := by simp
      rw [if_pos ⟨rfl, hlen⟩]
      refine iff_of_false List.not_mem_nil fun honly => hbc ?_
      rw [honly.2 rfl b (by simp), honly.2 rfl c (by simp)]

/-- A request for one table finds the flags of that table. -/
theorem flagsAgree_of_table (h : Sane s.ofproto) (hone : fm.tableId ≠ 0xff) :
    FlagsAgree outputTo s fm strict := by
  have hok := h.enclave.toEnclaveOk
  intro a ha
  obtain ⟨r, hr, rfl, -⟩ := ha.1
  have hr := requestMatches_installed hok hr hone
  have htable := (h.tableId fm.tableId _ ⟨r, hok.live _ r hr, rfl, hr⟩).2
  rw [ruleIsModifiable, htable]

end Collections

/-! ## The handlers -/

section Handlers

variable {A : Type} [DecidableEq A] {outputTo : A → BitVec 16 → Bool} {s : FlowState A}
  {fm : FlowModRequest A} {strict : Bool}

theorem modifyFlowsAdd_cases {A : Type} (fm : FlowModRequest A) :
    modifyFlowsAdd fm = .returned none ∨ modifyFlowsAdd fm = .addFlow := by
  unfold modifyFlowsAdd
  split <;> simp

/-- The handlers decide by what the collection hands on. -/
theorem handleModify_eq {rules : List UtAddr} {modifiable : List Bool}
    (hc : (if strict then collectRulesStrict outputTo .optimized s fm.tableId fm.match fm.priority
        fm.cookie fm.cookieMask OFPP_ANY
      else collectRulesLoose outputTo .optimized s fm.tableId fm.match fm.cookie fm.cookieMask
        OFPP_ANY) = some ⟨none, rules, modifiable⟩) :
    handleModify outputTo s fm strict =
      if rules = [] then
        some (s, if modifyFlowsAdd fm = .addFlow then .addFlow else .returned none)
      else if strict = true ∧ rules.length ≠ 1 then some (s, .returned none)
      else (modifyFlows s fm rules modifiable).map fun r => (r.1, .returned r.2) := by
  have hmap : ∀ x : Option (FlowState A × Option Ofperr),
      (x.bind fun r => some (r.1, ModifyOutcome.returned r.2))
        = x.map fun r => (r.1, .returned r.2) := by
    intro x
    cases x <;> rfl
  cases strict with
  | true =>
    rw [if_pos rfl] at hc
    simp only [handleModify, modifyFlowStrict, hc, Option.bind_eq_bind, Option.bind_some,
      Option.isSome_none, Bool.false_eq_true, if_false, if_true, List.isEmpty_iff, true_and,
      Option.pure_def]
    by_cases hnil : rules = []
    · rw [if_pos hnil, if_pos hnil]
      rcases modifyFlowsAdd_cases fm with hadd | hadd <;> simp [hadd]
    · rw [if_neg hnil, if_neg hnil]
      by_cases hone : rules.length = 1
      · simp only [hone, if_true, ne_eq, not_true_eq_false, if_false, Option.bind_some, hmap]
      · simp only [hone, if_false, ne_eq, not_false_eq_true, if_true, Option.bind_some]
  | false =>
    rw [if_neg Bool.false_ne_true] at hc
    simp only [handleModify, modifyFlowsLoose, hc, Option.bind_eq_bind, Option.bind_some,
      Option.isSome_none, Bool.false_eq_true, if_false, List.isEmpty_iff, false_and,
      Option.pure_def]
    by_cases hnil : rules = []
    · rw [if_pos hnil, if_pos hnil]
      rcases modifyFlowsAdd_cases fm with hadd | hadd <;> simp [hadd]
    · simp only [hnil, if_false, Option.bind_some, hmap]

/-- A handler that ends before `modify_flows__`, if there is no rule to be modified. -/
theorem changesExactly_of_nil {allowed : UtAddr → Bool} {outcome : ModifyOutcome}
    (hnone : ∀ a, ¬ ToModify outputTo s fm strict a) (hne : outcome ≠ .returned (some .eperm))
    (hs : handleModify outputTo s fm strict = some (s, outcome)) :
    ChangesExactly outputTo s fm strict allowed :=
  ⟨s, outcome, hs, fun a ha => absurd ha (hnone a), fun _ _ => ⟨rfl, rfl⟩, by simp [hne, hnone]⟩

/-- A handler that gets as far as `modify_flows__`. -/
theorem changesExactly_of_modifyFlows (h : Sane s.ofproto)
    (hpend : ∀ a ∈ selectedRules outputTo s fm strict, s.ofproto.enclave.Live a ∧
      (s.ofproto.rule a).pending = none)
    (hnil : selectedRules outputTo s fm strict ≠ [])
    (hone : ¬ (strict = true ∧ (selectedRules outputTo s fm strict).length ≠ 1))
    {modifiable : List Bool} {m : Bool} (hm : ∀ x ∈ modifiable, x = m)
    (hlen : (selectedRules outputTo s fm strict).length ≤ modifiable.length)
    (hs : handleModify outputTo s fm strict =
      (modifyFlows s fm (selectedRules outputTo s fm strict) modifiable).map
        fun r => (r.1, .returned r.2)) :
    ChangesExactly outputTo s fm strict fun _ => m := by
  have hok := h.enclave.toEnclaveOk
  have hmem : ∀ a, ToModify outputTo s fm strict a ↔ a ∈ selectedRules outputTo s fm strict := by
    intro a
    rw [← mem_rulesToModify hok, rulesToModify, if_neg hone]
  obtain ⟨s', hs', hin, hout⟩ := modifyFlows_eq fm h hm hlen
    (selectedRules_nodup fm strict outputTo hok) hnil hpend
  rw [hs'] at hs
  simp only [ChangesExactly, hmem]
  refine ⟨s', _, hs, fun a ha hm => hin a ⟨ha, hm⟩, hout, ?_⟩
  obtain ⟨a, ha⟩ := List.exists_mem_of_ne_nil _ hnil
  cases m with
  | true => simp
  | false => simpa using ⟨a, ha⟩

/-- What the handlers do if no rule that matches is pending: they go by the flags at the table id
of the request. -/
theorem handleModify_changes (outputTo : A → BitVec 16 → Bool) (fm : FlowModRequest A)
    (strict : Bool) (h : Sane s.ofproto)
    (hpend : ∀ r ∈ requestMatches s fm (modifyCommand strict),
      (s.ofproto.rule (s.ofproto.enclave.oClsRule r)).pending = none) :
    ChangesExactly outputTo s fm strict
      fun _ => !ecallOftableIsReadonly s.ofproto.enclave fm.tableId := by
  have hok := h.enclave.toEnclaveOk
  have hempty : rulesToModify outputTo s fm strict = [] → ∀ a, ¬ ToModify outputTo s fm strict a := by
    intro hnil a ha
    rw [← mem_rulesToModify hok, hnil] at ha
    cases ha
  cases htable : checkTableId s.ofproto fm.tableId with
  | some error =>
    have hmatches : requestMatches s fm (modifyCommand strict) = [] := by
      refine List.eq_nil_iff_forall_not_mem.mpr fun r hr => ?_
      rw [checkTableId_of_mem hr] at htable
      cases htable
    have hbad : error = .badTableId := by
      unfold checkTableId at htable
      split at htable
      · cases htable
      · exact (Option.some.inj htable).symm
    subst hbad
    have hs : handleModify outputTo s fm strict = some (s, .returned (some .badTableId)) := by
      cases strict <;>
        simp [handleModify, modifyFlowStrict, modifyFlowsLoose, collectRulesStrict,
          collectRulesLoose, htable]
    refine changesExactly_of_nil (hempty ?_) (by simp) hs
    simp [rulesToModify, selectedRules, hmatches]
  | none =>
    have hs := handleModify_eq (collected_eq outputTo hok htable hpend)
    have hsel : ∀ a ∈ selectedRules outputTo s fm strict, s.ofproto.enclave.Live a ∧
        (s.ofproto.rule a).pending = none := by
      intro a ha
      obtain ⟨r, hr, rfl⟩ := List.mem_map.mp ha
      have hr := List.mem_of_mem_filter hr
      exact ⟨⟨r, requestMatches_live hok hr, rfl⟩, hpend r hr⟩
    by_cases hnil : selectedRules outputTo s fm strict = []
    · rw [if_pos hnil] at hs
      refine changesExactly_of_nil (hempty (by simp [rulesToModify, hnil])) ?_ hs
      split <;> simp
    · rw [if_neg hnil] at hs
      by_cases hmany : strict = true ∧ (selectedRules outputTo s fm strict).length ≠ 1
      · rw [if_pos hmany] at hs
        exact changesExactly_of_nil (hempty (if_pos hmany)) (by simp) hs
      · rw [if_neg hmany] at hs
        have hlen : (selectedRules outputTo s fm strict).length
            ≤ (requestMatches s fm (modifyCommand strict)).length := by
          rw [selectedRules, List.length_map]
          exact List.length_filter_le _ _
        exact changesExactly_of_modifyFlows h hsel hnil hmany (by simp)
          (by rw [List.length_map]; exact hlen) hs

theorem ChangesExactly.congr {allowed allowed' : UtAddr → Bool}
    (hs : ChangesExactly outputTo s fm strict allowed)
    (heq : ∀ a, ToModify outputTo s fm strict a → allowed a = allowed' a) :
    ChangesExactly outputTo s fm strict allowed' := by
  obtain ⟨s', outcome, hs, hin, hout, heperm⟩ := hs
  refine ⟨s', outcome, hs, fun a ha hall => ?_, fun a hno => ?_, ?_⟩
  · rw [← heq a ha] at hall
    exact hin a ha hall
  · refine hout a fun hall => hno ⟨hall.1, ?_⟩
    rw [← heq a hall.1, hall.2]
  · rw [heperm]
    refine and_congr_right fun _ => forall₂_congr fun a ha => ?_
    rw [heq a ha]

/-- If the rules change both by the flags at one index and by those of their own tables, the two
agree or make no difference. -/
theorem flags_of_changesExactly
    (hs : ChangesExactly outputTo s fm strict
      fun _ => !ecallOftableIsReadonly s.ofproto.enclave fm.tableId)
    (hrespects : ModifyRespects outputTo s fm strict) :
    FlagsAgree outputTo s fm strict ∨ NoEffect outputTo s fm strict := by
  obtain ⟨s', outcome, hs, hin, -, heperm⟩ := hs
  obtain ⟨s'', outcome', hs', -, hout', heperm'⟩ := hrespects
  obtain ⟨rfl, rfl⟩ : s' = s'' ∧ outcome = outcome' := by
    simpa using hs.symm.trans hs'
  rw [heperm] at heperm'
  cases hm : ecallOftableIsReadonly s.ofproto.enclave fm.tableId with
  | true =>
    refine .inl fun a ha => ?_
    rw [(heperm'.mp ⟨⟨a, ha⟩, fun _ _ => by simp [hm]⟩).2 a ha, hm]
    rfl
  | false =>
    by_cases hsome : ∃ a, ToModify outputTo s fm strict a ∧ ruleIsModifiable s.ofproto a = true
    · refine .inr ⟨hm, hsome, fun a ha hreadonly => ?_⟩
      obtain ⟨h1, h2⟩ := hin a ha (by simp [hm])
      obtain ⟨h1', h2'⟩ := hout' a fun hall => by simp [hreadonly] at hall
      exact ⟨h1.symm.trans h1', h2.symm.trans h2'⟩
    · refine .inl fun a ha => ?_
      have hnone : ∀ b, ToModify outputTo s fm strict b → ruleIsModifiable s.ofproto b = false :=
        fun b hb => Bool.eq_false_of_not_eq_true fun hmod => hsome ⟨b, hb, hmod⟩
      have hfalse := (heperm'.mpr ⟨⟨a, ha⟩, hnone⟩).2 a ha
      simp [hm] at hfalse

theorem changesExactly_of_noEffect
    (hs : ChangesExactly outputTo s fm strict
      fun _ => !ecallOftableIsReadonly s.ofproto.enclave fm.tableId)
    (hnoeffect : NoEffect outputTo s fm strict) : ModifyRespects outputTo s fm strict := by
  obtain ⟨s', outcome, hs, hin, hout, heperm⟩ := hs
  obtain ⟨hm, ⟨b, hb, hmod⟩, hsame⟩ := hnoeffect
  simp only [hm, Bool.not_false, and_true, Bool.true_eq_false, imp_false] at hin hout heperm
  refine ⟨s', outcome, hs, fun a ha _ => hin a ha trivial, fun a hno => ?_, ?_⟩
  · by_cases ha : ToModify outputTo s fm strict a
    · have hreadonly : ruleIsModifiable s.ofproto a = false :=
        Bool.eq_false_of_not_eq_true fun hmod => hno ⟨ha, hmod⟩
      obtain ⟨h1, h2⟩ := hin a ha trivial
      obtain ⟨h1', h2'⟩ := hsame a ha hreadonly
      exact ⟨h1.trans h1', h2.trans h2'⟩
    · exact hout a ha
  · refine iff_of_false (fun he => (heperm.mp he).2 b hb) fun hall => ?_
    rw [hall.2 b hb] at hmod
    cases hmod

/-- If no rule that the request matches has a pending operation, it respects read-only tables if
and only if the flags that the enclave looks at are those of the tables of the rules, or make no
difference; those of one table are. -/
theorem modifyRespects_iff (outputTo : A → BitVec 16 → Bool) (fm : FlowModRequest A)
    (strict : Bool) (h : Sane s.ofproto)
    (hpend : ∀ r ∈ requestMatches s fm (modifyCommand strict),
      (s.ofproto.rule (s.ofproto.enclave.oClsRule r)).pending = none) :
    (ModifyRespects outputTo s fm strict ↔
      FlagsAgree outputTo s fm strict ∨ NoEffect outputTo s fm strict) ∧
    (fm.tableId ≠ 0xff → FlagsAgree outputTo s fm strict) := by
  refine ⟨⟨fun hrespects => ?_, fun hflags => ?_⟩, flagsAgree_of_table h⟩
  · exact flags_of_changesExactly (handleModify_changes outputTo fm strict h hpend) hrespects
  · rcases hflags with hagree | hnoeffect
    · exact (handleModify_changes outputTo fm strict h hpend).congr fun a ha => (hagree a ha).symm
    · exact changesExactly_of_noEffect (handleModify_changes outputTo fm strict h hpend) hnoeffect

end Handlers

/-! ## A read-only table -/

/-- The bridge with one flow, with these flags of its table. -/
def flaggedBridge (flags : OftableFlags) : Ofproto :=
  let s := oneFlow.enclave
  { oneFlow with enclave := s.setOftable 0 { s.oftable 0 with flags := flags } }

def flaggedFlow (flags : OftableFlags) : FlowState Unit :=
  ⟨flaggedBridge flags, fun _ => 0#64, fun _ => ()⟩

/-- A request that gives the flow the cookie 5. -/
def cookieChange (tableId : Nat) : FlowModRequest Unit :=
  { expiringFlow 7#32 1 with
    tableId := tableId, cookie := 0#64, cookieMask := 0#64, newCookie := 5#64,
    outPort := OFPP_ANY, ofpacts := () }

theorem flaggedBridge_sane (flags : OftableFlags) : Sane (flaggedBridge flags) := by
  have h := oneFlow_reachable.sane fun _ _ hc => hc
  have hrules : ∀ i, (flaggedBridge flags).enclave.rules i = oneFlow.enclave.rules i := by
    intro i
    unfold Enclave.rules flaggedBridge
    rcases eq_or_ne i 0 with rfl | hi
    · rw [setOftable_oftable_self]
    · rw [setOftable_oftable_ne _ _ hi]
  have hinst : ∀ i a, (flaggedBridge flags).enclave.Installed i a → oneFlow.enclave.Installed i a := by
    rintro i a ⟨r, hr, ha, hmem⟩
    rw [hrules] at hmem
    exact ⟨r, hr, ha, hmem⟩
  have hops : SameOps oneFlow (flaggedBridge flags) :=
    ⟨rfl, rfl, Nat.le_refl _, Nat.le_refl _, fun _ _ => rfl, fun _ _ => rfl⟩
  have hok : BridgeOk (fun _ => True) (flaggedBridge flags).enclave :=
    setOftable_bridge h.enclave rfl (sameGroups_setOftable _ 0 _ rfl rfl rfl rfl)
  refine h.keep hops hok rfl (fun i a ha => h.tableId i a (hinst i a ha)) h.expirable h.onList ?_
  intro a ha
  obtain ⟨hlive, hno, hlist⟩ := h.inFlight.victim a ha
  exact ⟨hlive, fun i hi => hno i (hinst i a hi), hlist⟩

/-- The request for the table of the flow. -/
theorem cookieChange_table :
    selectedRules (fun _ _ => false) (flaggedFlow ⟨false, true⟩) (cookieChange 0) false = [1#64] ∧
      ModifyRespects (fun _ _ => false) (flaggedFlow ⟨false, true⟩) (cookieChange 0) false := by
  have h : Sane (flaggedFlow ⟨false, true⟩).ofproto := flaggedBridge_sane _
  refine ⟨by decide +kernel, ?_⟩
  obtain ⟨hiff, hone⟩ := modifyRespects_iff (fun _ _ => false) (cookieChange 0) false h
    (by decide +kernel)
  exact hiff.mpr (.inl (hone (by decide)))

/-- The request for all tables changes the flow although its table is read-only. -/
theorem cookieChange_all :
    ¬ ∀ (s : FlowState Unit) (fm : FlowModRequest Unit) (strict : Bool), Sane s.ofproto →
      (∀ r ∈ requestMatches s fm (modifyCommand strict),
        (s.ofproto.rule (s.ofproto.enclave.oClsRule r)).pending = none) →
      ModifyRespects (fun _ _ => false) s fm strict := by
  intro hall
  obtain ⟨s', outcome, hs, -, hout, -⟩ := hall (flaggedFlow ⟨false, true⟩) (cookieChange 0xff) false
    (flaggedBridge_sane _) (by decide +kernel)
  have hcookie : (handleModify (fun _ _ => false) (flaggedFlow ⟨false, true⟩) (cookieChange 0xff)
      false).map (fun res => res.1.flowCookie 1#64) = some 5#64 := by decide +kernel
  have hreadonly : ruleIsModifiable (flaggedFlow ⟨false, true⟩).ofproto 1#64 = false := by
    decide +kernel
  have hsame := (hout 1#64 fun hmod => by simp [hreadonly] at hmod).1
  rw [hs, Option.map_some, Option.some.injEq, hsame] at hcookie
  cases hcookie

end OvsSgx
