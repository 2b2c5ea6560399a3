/-
OvsSgx.RevalidationTheorems — which flows a change of a table revalidates.

While `ecall_oftable_update_taggable` is run after each change of a table,
the subtables it has recorded are those of the table, and every rule has the
tag of its own match. If a change does not ask for a revalidation of all
flows, then it leaves the recorded subtables in place and the changed rule
is in the one that is not a catch-all. The tag of that rule is the one that
`tag_the_flow` has put on a flow if the rule matches what was looked up, and
what was looked up agrees with the flow on the mask of the subtable.
-/
import OvsSgx.Revalidation

namespace OvsSgx

/-! ## The recorded subtables -/

/-- The only subtable that is not a catch-all. -/
structure OnlyOther (cls : Classifier) (t : TableId) : Prop where
  mem : t ∈ cls.tables.values
  mask : clsTableIsCatchall (cls.table t) = false
  only : ∀ u ∈ cls.tables.values, clsTableIsCatchall (cls.table u) = false → u = t

/-- What `other` is after the `switch`. -/
theorem taggableTables_other {cls : Classifier} {t : TableId}
    (h : (taggableTables cls).2 = some t) : OnlyOther cls t := by
  unfold taggableTables at h
  split at h
  · rename_i hcount
    have hlen : hmapCount cls.tables = cls.tables.values.length := by
      rw [hmapCount, ChainMap.count_eq_length, ChainMap.values, List.length_map]
    rw [hlen] at hcount
    rcases hcount with hone | htwo
    · obtain ⟨u, hu⟩ := List.length_eq_one_iff.mp hone
      rw [hu] at h
      cases hc : clsTableIsCatchall (cls.table u) with
      | true => simp [taggableStep, hc] at h
      | false =>
        obtain rfl : u = t := by simpa [taggableStep, hc] using h
        exact ⟨by simp [hu], hc, by simp [hu]⟩
    · obtain ⟨u, v, huv⟩ := List.length_eq_two.mp htwo
      rw [huv] at h
      cases hcu : clsTableIsCatchall (cls.table u) with
      | true =>
        cases hcv : clsTableIsCatchall (cls.table v) with
        | true => simp [taggableStep, hcu, hcv] at h
        | false =>
          obtain rfl : v = t := by simpa [taggableStep, hcu, hcv] using h
          exact ⟨by simp [huv], hcv, by simp [huv, hcu]⟩
      | false =>
        cases hcv : clsTableIsCatchall (cls.table v) with
        | true =>
          obtain rfl : u = t := by simpa [taggableStep, hcu, hcv] using h
          exact ⟨by simp [huv], hcu, by simp [huv, hcv]⟩
        | false => simp [taggableStep, hcu, hcv] at h
  · cases h

section Update

variable {s : TaggedBridge} {i j : Nat}

theorem ecallOftableUpdateTaggable_basis :
    ((ecallOftableUpdateTaggable s i).1.dpif j).basis = (s.dpif j).basis := by
  by_cases h : j = i
  · subst h
    simp only [ecallOftableUpdateTaggable]
    split <;> simp
  · rw [ecallOftableUpdateTaggable_ne h]

end Update

/-! ## `rule_invalidate` -/

section Invalidate

variable {s : TaggedDpif} {i j : Nat} {a : UtAddr}

/-- Either all flows are to be revalidated, or those with the tag of the rule. -/
theorem ruleInvalidate_cases (s : TaggedDpif) (i : Nat) (a : UtAddr) :
    (ruleInvalidate s i a).needRevalidate = true ∨
    (s.bridge.Recorded i ∧ (∃ t, (s.bridge.dpif i).otherTable = some t) ∧ s.tag a ≠ 0#32 ∧
      (ruleInvalidate s i a).revalidateSet = s.tag a :: s.revalidateSet) := by
  simp only [ruleInvalidate]
  split
  · exact .inl rfl
  · rename_i hneed
    split
    · rename_i htag
      refine .inr ?_
      simp only [Bool.or_eq_true, bne_iff_ne, ne_eq, not_or, not_not] at hneed
      obtain ⟨hsame, hrec⟩ := ecallOftableUpdateTaggable_recorded.2 hneed.2
      rw [hsame] at htag
      simp only [ecallOftableIsOtherTable, Bool.and_eq_true, bne_iff_ne, ne_eq] at htag
      refine ⟨hrec, ?_, htag.2, rfl⟩
      rw [← Option.isSome_iff_exists]
      by_contra hnone
      exact htag.1 (by simp [hnone])
    · exact .inl rfl

/-- What `rule_invalidate` does to the bridge. -/
theorem ruleInvalidate_bridge (s : TaggedDpif) (i : Nat) (a : UtAddr) :
    (ruleInvalidate s i a).bridge = (ecallOftableUpdateTaggable s.bridge i).1 ∧
      (ruleInvalidate s i a).tag = s.tag := by
  simp only [ruleInvalidate]
  split
  · exact ⟨rfl, rfl⟩
  · split <;> exact ⟨rfl, rfl⟩

/-- What `rule_invalidate` for table `i` leaves alone. -/
structure Invalidated (i : Nat) (s s' : TaggedDpif) : Prop where
  enclave : s'.bridge.enclave = s.bridge.enclave
  tag : s'.tag = s.tag
  basis : ∀ j, (s'.bridge.dpif j).basis = (s.bridge.dpif j).basis
  dpif : ∀ j, j ≠ i → s'.bridge.dpif j = s.bridge.dpif j

theorem Invalidated.refl (i : Nat) (s : TaggedDpif) : Invalidated i s s :=
  ⟨rfl, rfl, fun _ => rfl, fun _ _ => rfl⟩

theorem Invalidated.trans {s s' s'' : TaggedDpif} (h : Invalidated i s s')
    (h' : Invalidated i s' s'') : Invalidated i s s'' :=
  ⟨h'.enclave.trans h.enclave, h'.tag.trans h.tag, fun j => (h'.basis j).trans (h.basis j),
    fun j hj => (h'.dpif j hj).trans (h.dpif j hj)⟩

theorem Invalidated.recorded {s s' : TaggedDpif} (h : Invalidated j s s') (hij : i ≠ j) :
    s'.bridge.Recorded i ↔ s.bridge.Recorded i := by
  rw [TaggedBridge.Recorded, TaggedBridge.Recorded, h.enclave, h.dpif i hij]

theorem ruleInvalidate_invalidated (s : TaggedDpif) (i : Nat) (a : UtAddr) :
    Invalidated i s (ruleInvalidate s i a) ∧ (ruleInvalidate s i a).bridge.Recorded i := by
  obtain ⟨hbridge, htag⟩ := ruleInvalidate_bridge s i a
  rw [hbridge]
  refine ⟨⟨?_, htag, fun j => ?_, fun j hj => ?_⟩, ecallOftableUpdateTaggable_recorded.1⟩
  · rw [hbridge, ecallOftableUpdateTaggable_enclave]
  · rw [hbridge, ecallOftableUpdateTaggable_basis]
  · rw [hbridge, ecallOftableUpdateTaggable_ne hj]

/-- After `rule_invalidate` for some rules the subtables are recorded. -/
theorem invalidateAll_invalidated (rules : List UtAddr) : ∀ s : TaggedDpif,
    Invalidated i s (invalidateAll s i rules) ∧
      (rules ≠ [] ∨ s.bridge.Recorded i → (invalidateAll s i rules).bridge.Recorded i) := by
  induction rules with
  | nil =>
    intro s
    exact ⟨Invalidated.refl i s, fun h => h.resolve_left (by simp)⟩
  | cons a rules ih =>
    intro s
    obtain ⟨h1, hrec⟩ := ruleInvalidate_invalidated s i a
    obtain ⟨h2, hrest⟩ := ih (ruleInvalidate s i a)
    exact ⟨h1.trans h2, fun _ => hrest (.inr hrec)⟩

end Invalidate

/-! ## Rules that are added -/

/-- Rule `r` has been added in state `s'`, with a displaced rule that had its match. -/
structure RuleAdded (s s' : Enclave) (new : AddedRule) (r : RuleId) : Prop where
  lookup : sgxRuleFromUtCr s' new.rule = some r
  addr : s'.oClsRule r = new.rule
  rules : ∀ q ∈ s'.rules new.table, q = r ∨ q ∈ s.rules new.table
  victim : ∀ v, new.victim = some v → ∃ q ∈ s.rules new.table, s.oClsRule q = v ∧
    (s.clsRule q).match = (s'.clsRule r).match
  whole : new.evict = none → r ∈ s'.rules new.table ∧ ∀ q ∈ s.rules new.table,
    q ∈ s'.rules new.table ∨ (s.clsRule q).match = (s'.clsRule r).match

section Added

variable {P : Match → Prop} {s s' s'' : Enclave} {new : AddedRule} {r q : RuleId} {i : Nat}
  {c : Call}

theorem RuleAdded.sameRules (h : RuleAdded s s' new r) (h' : SameRules s' s'') :
    RuleAdded s s'' new r := by
  refine ⟨(h'.lookup _).trans h.lookup, ?_, fun q hq => ?_, fun v hv => ?_, fun hw => ?_⟩
  · rw [h'.oClsRule]
    exact h.addr
  · rw [h'.rules] at hq
    exact h.rules q hq
  · rw [h'.clsRule]
    exact h.victim v hv
  · rw [h'.clsRule, h'.rules]
    exact h.whole hw

/-- Another rule has been evicted. -/
theorem RuleAdded.evicted (h : RuleAdded s s' new r) (hok : EnclaveOk P s')
    (hu : Uninstalled s' s'' new.table q) (e : UtAddr) :
    RuleAdded s s'' { new with evict := some e } r := by
  refine ⟨(hu.lookup _).trans h.lookup, ?_, fun q hq => ?_, fun v hv => ?_, by simp⟩
  · rw [hu.oClsRule]
    exact h.addr
  · exact h.rules q ((hu.mem_rules hok).mp hq).1
  · rw [hu.clsRule]
    exact h.victim v hv

theorem replaceState_ruleAdded (h : EnclaveOk P s) (hlive : s.LiveRule r)
    (hnot : ∀ j, r ∉ s.rules j) :
    RuleAdded s (replaceState s i r)
      ⟨i, s.oClsRule r, (replaceVictim s i r).map s.oClsRule, none⟩ r := by
  have hspec := replaceState_spec h (hnot i)
  have hmem := fun q => mem_replaceState_rules h (hnot i) (q := q)
  have hmatch : ∀ v, replaceVictim s i r = some v →
      v ∈ s.rules i ∧ (s.clsRule v).match = ((replaceState s i r).clsRule r).match := by
    intro v hv
    obtain ⟨hmem, -, heq, -⟩ := hspec.replaced v hv
    exact ⟨hmem, heq.trans (hspec.store r).1.symm⟩
  refine ⟨h.shadows.lookup_self hlive, rfl, fun q hq => ?_, fun v hv => ?_, fun _ => ⟨?_, ?_⟩⟩
  · exact ((hmem q).mp hq).imp_right And.left
  · obtain ⟨q, hq, rfl⟩ := Option.map_eq_some_iff.mp hv
    exact ⟨q, (hmatch q hq).1, rfl, (hmatch q hq).2⟩
  · exact (hmem r).mpr (.inl rfl)
  · intro q hq
    by_cases hv : replaceVictim s i r = some q
    · exact .inr (hmatch q hv).2
    · exact .inl ((hmem q).mpr (.inr ⟨hq, hv⟩))

/-- The rule has been initialised in the same call. -/
theorem RuleAdded.of_init {a : UtAddr} {m : Match} {p : Nat} (hok : EnclaveOk P s)
    (h : RuleAdded (ecallClsRuleInit s a m p) s' new r) : RuleAdded s s' new r := by
  have hold : ∀ q ∈ s.rules new.table, (ecallClsRuleInit s a m p).clsRule q = s.clsRule q ∧
      (ecallClsRuleInit s a m p).oClsRule q = s.oClsRule q := by
    intro q hq
    have hne : q ≠ s.nextRule := fun heq => hok.nextRule_not_mem new.table (heq ▸ hq)
    exact ⟨ecallClsRuleInit_clsRule hne, ecallClsRuleInit_oClsRule hne⟩
  refine ⟨h.lookup, h.addr, h.rules, fun v hv => ?_, fun hw => ⟨(h.whole hw).1, fun q hq => ?_⟩⟩
  · obtain ⟨q, hq, haddr, heq⟩ := h.victim v hv
    rw [(hold q hq).1] at heq
    rw [(hold q hq).2] at haddr
    exact ⟨q, hq, haddr, heq⟩
  · rw [← (hold q hq).1]
    exact (h.whole hw).2 q hq

theorem installFlow_ruleAdded {args : AddFlowArgs} {out : AddFlowOut} (h : EnclaveOk P s)
    (hlook : sgxRuleFromUtCr s args.cr = some r) (haddr : s.oClsRule r = args.cr)
    (hnot : ∀ j, r ∉ s.rules j) (hs : installFlow s args AddFlowOut.init = some (s', out)) :
    RuleAdded s s' ⟨args.tableId, args.cr, out.victim, out.evict⟩ r := by
  obtain ⟨s2, s3, h2, h3, hcases⟩ := installFlow_cases hlook hs
  have hlive := h.shadows.live_of_lookup hlook
  have hsame := (evgRemoveVictim_sameRules h2).trans (evgAddFlow_sameRules h3)
  have hadd := (replaceState_ruleAdded (i := args.tableId) h hlive hnot).sameRules hsame
  rw [haddr] at hadd
  have hok := hsame.ok (replaceState_ok (i := args.tableId) h hlive hnot)
  rcases hcases with ⟨-, -, rfl, rfl⟩ | ⟨-, out3, -, -, h4, rfl⟩
  · exact hadd
  · rcases evictForFlow_cases hok h4 with
      ⟨-, rfl, rfl⟩ | ⟨-, -, rfl, rfl⟩ | ⟨-, e, q, -, -, -, -, -, -, hu, -, rfl⟩
    · exact hadd
    · exact hadd
    · exact hadd.evicted hok hu e

/-- What a call that adds a rule does. -/
theorem addedRule_spec (h : EnclaveOk P s) (hc : Allowed P s c) (hnew : addedRule s c = some new)
    (hs : exec s c = some s') : ∃ r, RuleAdded s s' new r := by
  cases c with
  | oftableClassifierReplace i a =>
    obtain ⟨⟨r, hr, rfl⟩, hnot⟩ := hc
    have hcall := ecallOftableClassifierReplace_eq (i := i) (h.shadows.lookup_self hr)
    simp only [exec, hcall, Option.map_some, Option.some.injEq] at hs
    simp only [addedRule, hcall, Option.bind_eq_bind, Option.bind_some, Option.pure_def,
      Option.some.injEq] at hnew
    rw [← hs, ← hnew]
    exact ⟨r, replaceState_ruleAdded h hr fun j hj => hnot j ⟨r, hr, rfl, hj⟩⟩
  | addFlow args =>
    obtain ⟨⟨s1, out⟩, h1, rfl⟩ := Option.map_eq_some_iff.mp hs
    simp only [addedRule, h1, Option.bind_eq_bind, Option.bind_some] at hnew
    split at hnew
    · cases hnew
    · rename_i hgood
      cases hnew
      rcases ecallAddFlow_cases h1 with ⟨-, -, rfl⟩ | ⟨-, -, rfl | rfl⟩ | ⟨-, hinst⟩
      · simp at hgood
      · simp at hgood
      · simp at hgood
      · have hinit := ecallClsRuleInit_ok (p := args.priority) h hc.1 hc.2
        have hlook := ecallClsRuleInit_lookup (m := args.match) (p := args.priority) h.shadows hc.1
        exact ⟨s.nextRule, (installFlow_ruleAdded hinit hlook ecallClsRuleInit_oClsRule_self
          (fun j => h.nextRule_not_mem j) hinst).of_init h⟩
  | _ => cases hnew

/-- No installed rule lies at the address of the new one. -/
theorem addedRule_fresh (hc : Allowed P s c) (hnew : addedRule s c = some new) (j : Nat) :
    ¬ s.Installed j new.rule := by
  cases c with
  | oftableClassifierReplace i a =>
    simp only [addedRule, Option.bind_eq_bind, Option.bind_eq_some_iff] at hnew
    obtain ⟨res, -, hnew⟩ := hnew
    cases hnew
    exact hc.2 j
  | addFlow args =>
    simp only [addedRule, Option.bind_eq_bind, Option.bind_eq_some_iff] at hnew
    obtain ⟨res, -, hnew⟩ := hnew
    split at hnew
    · cases hnew
    · cases hnew
      rintro ⟨r, hr, haddr, -⟩
      exact hc.1 _ ⟨r, hr, haddr⟩ rfl
  | _ => cases hnew

/-- Only the table of the new rule changes. -/
theorem addedRule_leavesAlone (hnew : addedRule s c = some new) (hi : i ≠ new.table) :
    c.LeavesAlone i := by
  cases c with
  | oftableClassifierReplace j a =>
    simp only [addedRule, Option.bind_eq_bind, Option.bind_eq_some_iff] at hnew
    obtain ⟨res, -, hnew⟩ := hnew
    cases hnew
    exact ⟨by simpa [Call.changed] using hi, by simp⟩
  | addFlow args =>
    simp only [addedRule, Option.bind_eq_bind, Option.bind_eq_some_iff] at hnew
    obtain ⟨res, -, hnew⟩ := hnew
    split at hnew
    · cases hnew
    · cases hnew
      exact ⟨by simpa [Call.changed] using hi, by simp⟩
  | _ => cases hnew

end Added

/-! ## The invariant -/

section Invariant

variable {tagCreate : U32 → TagType} {i : Nat} {s s' : TaggedDpif}

/-- The tag of a rule with match `m`. -/
def matchTag (tagCreate : U32 → TagType) (basis : U32) (m : Minimatch) : TagType :=
  tagOfHash tagCreate (if minimaskIsCatchall m.mask then 0#32
    else flowHashInMinimask (miniflowExpand m.flow) m.mask basis)

/-- The rules of table `i` have the tags of their matches. -/
structure RulesTagged (tagCreate : U32 → TagType) (i : Nat) (s : TaggedDpif) : Prop where
  enclave : EnclaveOk ZeroMatch s.bridge.enclave
  tag : ∀ r ∈ s.bridge.enclave.rules i, s.tag (s.bridge.enclave.oClsRule r)
    = matchTag tagCreate (s.bridge.dpif i).basis (s.bridge.enclave.clsRule r).match

/-- The invariant: besides, the subtables of the table are recorded. -/
structure TagsOk (tagCreate : U32 → TagType) (i : Nat) (s : TaggedDpif) : Prop
    extends RulesTagged tagCreate i s where
  recorded : s.bridge.Recorded i

theorem RulesTagged.invalidated {j : Nat} (h : RulesTagged tagCreate i s)
    (hinv : Invalidated j s s') : RulesTagged tagCreate i s' := by
  refine ⟨?_, ?_⟩
  · rw [hinv.enclave]
    exact h.enclave
  · rw [hinv.enclave, hinv.tag, hinv.basis]
    exact h.tag

/-- A rule that has been there before keeps its tag over a call. -/
theorem RulesTagged.kept (h : RulesTagged tagCreate i s) {e : Enclave}
    (hkept : Kept s.bridge.enclave e) {r : RuleId} (hr : r ∈ s.bridge.enclave.rules i) :
    e.oClsRule r = s.bridge.enclave.oClsRule r ∧ s.tag (s.bridge.enclave.oClsRule r)
      = matchTag tagCreate (s.bridge.dpif i).basis (e.clsRule r).match := by
  obtain ⟨hmatch, -, haddr⟩ := hkept.rule r (h.enclave.shadows.rule_lt (h.enclave.live i r hr))
  rw [hmatch]
  exact ⟨haddr, h.tag r hr⟩

/-- The rules of the table are among those that it had. -/
theorem RulesTagged.fewer (h : RulesTagged tagCreate i s) {e : Enclave}
    (hok : EnclaveOk ZeroMatch e) (hkept : Kept s.bridge.enclave e)
    (hrules : e.rules i ⊆ s.bridge.enclave.rules i) : RulesTagged tagCreate i (s.withEnclave e) := by
  refine ⟨hok, fun r hr => ?_⟩
  obtain ⟨haddr, htag⟩ := h.kept hkept (hrules hr)
  show s.tag (e.oClsRule r) = _
  rw [haddr]
  exact htag

/-- A table that keeps its classifier keeps its record. -/
theorem TagsOk.recorded_frame (h : TagsOk tagCreate i s) {e : Enclave}
    (hframe : TableFrame i s.bridge.enclave e) : (s.withEnclave e).bridge.Recorded i := by
  show taggableTables (e.oftable i).cls = _
  rw [hframe.cls]
  exact h.recorded

/-- The tag given to a new rule is that of its match. -/
theorem constructedTag_eq (new : AddedRule) {e : Enclave} {r : RuleId} {tag : TagType}
    (h : RulesTagged tagCreate new.table s) (hi : new.table ≠ 0)
    (hadd : RuleAdded s.bridge.enclave e new r)
    (htag : constructedTag tagCreate (s.withEnclave e) new.table new.rule new.victim = some tag) :
    tag = matchTag tagCreate (s.bridge.dpif new.table).basis (e.clsRule r).match := by
  cases hv : new.victim with
  | some v =>
    rw [hv] at htag
    cases htag
    obtain ⟨q, hq, haddr, hmatch⟩ := hadd.victim v hv
    have htagq := h.tag q hq
    rw [haddr, hmatch] at htagq
    exact htagq
  | none =>
    rw [hv] at htag
    have hlook : sgxRuleFromUtCr (s.withEnclave e).bridge.enclave new.rule = some r := hadd.lookup
    simp only [constructedTag, if_neg hi, ecallMiniflowExpandAndTag, ecallRuleCalculateTag, hlook,
      Option.bind_eq_bind, Option.bind_some] at htag
    unfold matchTag
    split at htag <;> simp_all [TaggedDpif.withEnclave]

/-- The state in which `rule_construct` has given the new rule its tag. -/
theorem construct_rulesTagged {c : Call} {e : Enclave} {new : AddedRule} {tag : TagType}
    (hi : i ≠ 0) (h : RulesTagged tagCreate i s) (hc : Allowed ZeroMatch s.bridge.enclave c)
    (hnew : addedRule s.bridge.enclave c = some new) (he : exec s.bridge.enclave c = some e)
    (htag : constructedTag tagCreate (s.withEnclave e) new.table new.rule new.victim = some tag) :
    RulesTagged tagCreate i
      { s.withEnclave e with tag := Function.update s.tag new.rule tag } := by
  have hkept := exec_kept h.enclave hc he
  obtain ⟨r, hadd⟩ := addedRule_spec h.enclave hc hnew he
  -- the other rules lie elsewhere, so their tags are what they were
  have hold : ∀ q ∈ s.bridge.enclave.rules i, Function.update s.tag new.rule tag (e.oClsRule q)
      = matchTag tagCreate (s.bridge.dpif i).basis (e.clsRule q).match := by
    intro q hq
    obtain ⟨haddr, hq'⟩ := h.kept hkept hq
    rw [haddr, ← hq']
    refine Function.update_of_ne (fun heq => ?_) ..
    exact addedRule_fresh hc hnew i ⟨q, h.enclave.live i q hq, heq, hq⟩
  refine ⟨exec_ok h.enclave hc he, fun q hq => ?_⟩
  by_cases htable : i = new.table
  · subst htable
    rcases hadd.rules q hq with rfl | hq
    · show Function.update s.tag new.rule tag (e.oClsRule q) = _
      rw [hadd.addr, Function.update_self]
      exact constructedTag_eq (s := s) new h hi hadd htag
    · exact hold q hq
  · obtain ⟨hchanged, hflush⟩ := addedRule_leavesAlone hnew htable
    have hq' : q ∈ e.rules i := hq
    rw [(exec_frame h.enclave hc he hchanged hflush).rules] at hq'
    exact hold q hq'

/-- One step keeps the invariant. -/
theorem tagStep_ok {c : TagStep} (hi : i ≠ 0) (h : TagsOk tagCreate i s) (hc : c.Invalidates i s)
    (hs : c.run tagCreate s = some s') : TagsOk tagCreate i s' := by
  cases c with
  | call c =>
    obtain ⟨e, he, rfl⟩ := Option.map_eq_some_iff.mp hs
    have hframe := exec_frame h.enclave hc.1 he hc.2.1 hc.2.2
    exact ⟨h.fewer (exec_ok h.enclave hc.1 he) (exec_kept h.enclave hc.1 he)
      (fun _ hr => hframe.rules ▸ hr), h.recorded_frame hframe⟩
  | add c =>
    simp only [TagStep.run, ruleConstruct, Option.bind_eq_bind, Option.bind_eq_some_iff] at hs
    obtain ⟨new, hnew, e, he, s1, ⟨tag, htag, h1⟩, h2⟩ := hs
    cases h1
    cases h2
    have htagged := construct_rulesTagged hi h.toRulesTagged hc hnew he htag
    obtain ⟨hinv1, hrec1⟩ := ruleInvalidate_invalidated _ new.table new.rule
    obtain ⟨hinv2, hrec2⟩ := invalidateAll_invalidated new.evict.toList _
    refine ⟨htagged.invalidated (hinv1.trans hinv2), ?_⟩
    by_cases htable : i = new.table
    · subst htable
      exact hrec2 (.inr hrec1)
    · obtain ⟨hchanged, hflush⟩ := addedRule_leavesAlone hnew htable
      have hframe := exec_frame h.enclave hc he hchanged hflush
      exact ((hinv1.trans hinv2).recorded htable).mpr (h.recorded_frame hframe)
  | remove c j rules =>
    simp only [TagStep.run, Option.bind_eq_bind, Option.bind_eq_some_iff] at hs
    obtain ⟨e, he, h1⟩ := hs
    cases h1
    obtain ⟨hallowed, hcond⟩ := hc
    have hok := exec_ok h.enclave hallowed he
    have hkept := exec_kept h.enclave hallowed he
    obtain ⟨hinv, hrec⟩ := invalidateAll_invalidated (i := j) rules (s.withEnclave e)
    split at hcond
    · rename_i hji
      subst hji
      have hafter : s.bridge.enclave.after c = e := by simp [Enclave.after, he]
      rw [hafter] at hcond
      exact ⟨(h.fewer hok hkept hcond.2).invalidated hinv, hrec (.inl hcond.1)⟩
    · rename_i hji
      have hframe := exec_frame h.enclave hallowed he hcond.1 hcond.2
      exact ⟨(h.fewer hok hkept fun _ hr => hframe.rules ▸ hr).invalidated hinv,
        (hinv.recorded (Ne.symm hji)).mpr (h.recorded_frame hframe)⟩
  | typeRun =>
    cases hs
    exact ⟨⟨h.enclave, h.tag⟩, h.recorded⟩

/-- The invariant holds in every state of a run. -/
theorem TagReachable.tagsOk (hi : i ≠ 0) (h : TagReachable tagCreate i s) :
    TagsOk tagCreate i s := by
  induction h with
  | init nTables random basis tag =>
    have hcls : ((ecallOfprotoInitTables nTables random).oftable i).cls = classifierInit := rfl
    refine ⟨⟨ecallOfprotoInitTables_ok _ _ _, fun r hr => ?_⟩, ?_⟩
    · have hr' : r ∈ ((ecallOfprotoInitTables nTables random).oftable i).cls.rules := hr
      rw [hcls, (classifierInit_ok (R := fun _ => clsRuleInit matchCatchall 0)).2] at hr'
      cases hr'
    · show taggableTables ((ecallOfprotoInitTables nTables random).oftable i).cls = _
      rw [hcls]
      rfl
  | step c _ hc hs ih => exact tagStep_ok hi ih hc hs

end Invariant

/-! ## What a changed rule has to do with a flow -/

section Matching

variable {s e : Enclave} {i : Nat} {flow : Flow} {wc : Option FlowWildcards}

/-- Two tables with the same matching rules, no two of them of one priority. -/
theorem clsLookup_eq (hs : EnclaveOk ZeroMatch s) (he : EnclaveOk ZeroMatch e)
    (hsame : ∀ q, q ∈ e.rules i ∧ (e.clsRule q).Matches flow ↔
      q ∈ s.rules i ∧ (s.clsRule q).Matches flow)
    (hrule : ∀ q ∈ s.rules i, (e.clsRule q).priority = (s.clsRule q).priority ∧
      e.oClsRule q = s.oClsRule q)
    (hdistinct : ∀ q ∈ s.rules i, ∀ p ∈ s.rules i, (s.clsRule q).Matches flow →
      (s.clsRule p).Matches flow → (s.clsRule q).priority = (s.clsRule p).priority → q = p) :
    (ecallOftableClsLookup e i flow wc).1 = (ecallOftableClsLookup s i flow wc).1 := by
  obtain ⟨hnone, hsome⟩ := hs.clsLookup i flow wc
  obtain ⟨hnone', hsome'⟩ := he.clsLookup i flow wc
  cases hfound : (ecallOftableClsLookup s i flow wc).1 with
  | none =>
    rw [hnone']
    intro q hq hmatch
    obtain ⟨hq', hmatch'⟩ := (hsame q).mp ⟨hq, hmatch⟩
    exact hnone.mp hfound q hq' hmatch'
  | some a =>
    obtain ⟨q, hq, -, rfl, hqm, hqbest⟩ := hsome a hfound
    cases hfound' : (ecallOftableClsLookup e i flow wc).1 with
    | none =>
      obtain ⟨hq', hqm'⟩ := (hsame q).mpr ⟨hq, hqm⟩
      exact absurd hqm' (hnone'.mp hfound' q hq')
    | some b =>
      obtain ⟨p, hp', -, rfl, hpm', hpbest⟩ := hsome' b hfound'
      obtain ⟨hp, hpm⟩ := (hsame p).mp ⟨hp', hpm'⟩
      obtain ⟨hq', hqm'⟩ := (hsame q).mpr ⟨hq, hqm⟩
      -- each of the two is the best of its table
      have hle := hqbest p hp hpm
      have hge := hpbest q hq' hqm'
      rw [(hrule q hq).1, (hrule p hp).1] at hge
      rw [hdistinct q hq p hp hqm hpm (Nat.le_antisymm hge hle), (hrule p hp).2]

/-- A rule that is no catch-all is in the only subtable that is none. -/
theorem OnlyOther.rule_mask {R : RuleStore} {cls : Classifier} {t : TableId} {r : RuleId}
    (h : OnlyOther cls t) (hcls : TablesOk R cls) (hr : r ∈ cls.rules)
    (hmask : minimaskIsCatchall (R r).match.mask = false) :
    (R r).match.mask = (cls.table t).mask := by
  obtain ⟨u, hu, hru⟩ := Classifier.mem_rules.mp hr
  have hsub := hcls.rule_mask (hcls.mem_values.mp hu) hru
  rw [hsub]
  rw [hsub] at hmask
  rw [h.only u hu hmask]

/-- A rule with a tag is no catch-all. -/
theorem matchTag_ne_zero {tagCreate : U32 → TagType} {basis : U32} {m : Minimatch}
    (h : matchTag tagCreate basis m ≠ 0#32) : minimaskIsCatchall m.mask = false := by
  by_contra hc
  exact h (by simp [matchTag, tagOfHash, hc])

/-- The tag of a rule that matches a flow is that of the flow under the mask of the rule. -/
theorem matchTag_of_matches {tagCreate : U32 → TagType} {basis : U32} {rule : ClsRule}
    (hmask : minimaskIsCatchall rule.match.mask = false) (h : rule.Matches flow) :
    matchTag tagCreate basis rule.match
      = tagOfHash tagCreate (flowHashInMinimask flow rule.match.mask basis) := by
  have hhash : flowHashInMinimask (miniflowExpand rule.match.flow) rule.match.mask basis
      = flowHashInMinimask flow rule.match.mask basis := by
    refine flowHashInMinimask_congr basis fun o => ?_
    rw [u32_miniflowExpand]
    exact ClsRule.matches_iff.mp h o
  simp [matchTag, hmask, hhash]

end Matching

/-! ## One change -/

/-- The flow that `rule_dpif_lookup__` looks up. -/
def lookedUp (frag : FragHandling) (flow : Flow) : Flow :=
  if flowIsFrag flow && frag == .normal then ofpcNormalFlow flow else flow

/-- The flows with the tag that `tag_the_flow` has put on the flow are revalidated, or all. -/
def Revalidates (tagCreate : U32 → TagType) (s s' : TaggedDpif) (i : Nat) (flow : Flow)
    (found : Option UtAddr) : Prop :=
  s'.needRevalidate = true ∨ ∃ tag, s'.revalidateSet = tag :: s.revalidateSet ∧
    tagTheFlow tagCreate s i flow found = some tag

/-- The rule at `a` matches the flow. -/
def Enclave.MatchedBy (s : Enclave) (a : UtAddr) (flow : Flow) : Prop :=
  ∃ r, s.LiveRule r ∧ s.oClsRule r = a ∧ (s.clsRule r).Matches flow

/-- The flow is tagged as its lookup went: the rule found has a tag, or the flow and what is looked
up agree on the mask of the subtable that is recorded as the other one. -/
def TagFits (frag : FragHandling) (s : TaggedDpif) (i : Nat) (flow : Flow)
    (found : Option UtAddr) : Prop :=
  (∃ a, found = some a ∧ s.tag a ≠ 0#32) ∨ ∀ t, (s.bridge.dpif i).otherTable = some t →
    AgreeOn (minimaskExpand ((s.bridge.enclave.oftable i).cls.table t).mask).masks flow
      (lookedUp frag flow)

/-- No two rules of table `i` that match the flow have the same priority. -/
def DistinctPriorities (s : Enclave) (i : Nat) (flow : Flow) : Prop :=
  ∀ q ∈ s.rules i, ∀ p ∈ s.rules i, (s.clsRule q).Matches flow → (s.clsRule p).Matches flow →
    (s.clsRule q).priority = (s.clsRule p).priority → q = p

/-- Table `i` in enclave `e` differs from that in `s` by rule `r`, and by rules with its match. -/
structure TableChanged (s e : Enclave) (i : Nat) (r : RuleId) : Prop where
  ok : EnclaveOk ZeroMatch e
  kept : Kept s e
  mem : r ∈ e.rules i ∨ r ∈ s.rules i
  gone : ∀ q ∈ s.rules i, q ∈ e.rules i ∨ (e.clsRule q).match = (e.clsRule r).match
  new : ∀ q ∈ e.rules i, q ∈ s.rules i ∨ q = r

section Change

variable {tagCreate : U32 → TagType} {i : Nat} {s s' : TaggedDpif} {e : Enclave} {r : RuleId}
  {frag : FragHandling} {dropFragsRule a : UtAddr} {flow : Flow} {wc : Option FlowWildcards}

/-- A lookup whose answer changes has looked into the table. -/
theorem ruleDpifLookup_ne
    (h : ruleDpifLookup frag dropFragsRule s flow wc i
      ≠ ruleDpifLookup frag dropFragsRule s' flow wc i) :
    i < N_TABLES ∧ ∀ s'' : TaggedDpif, ruleDpifLookup frag dropFragsRule s'' flow wc i
      = (ecallOftableClsLookup s''.bridge.enclave i (lookedUp frag flow) (wc.map fragWildcards)).1 := by
  unfold ruleDpifLookup at h ⊢
  by_cases hi : N_TABLES ≤ i
  · simp [hi] at h
  · refine ⟨Nat.lt_of_not_le hi, fun s'' => ?_⟩
    unfold lookedUp
    by_cases hnormal : (flowIsFrag flow && frag == .normal) = true
    · simp [hi, hnormal]
    · by_cases hdrop : (flowIsFrag flow && frag == .drop) = true
      · simp [hi, hnormal, hdrop] at h
      · simp [hi, hnormal, hdrop]

/-- If the changed rule does not match and no two matching rules have one priority, the lookup has
the same answer. -/
theorem TableChanged.lookup_eq (hok : EnclaveOk ZeroMatch s.bridge.enclave)
    (h : TableChanged s.bridge.enclave e i r) (hno : ¬ (e.clsRule r).Matches flow)
    (hdistinct : DistinctPriorities s.bridge.enclave i flow) :
    (ecallOftableClsLookup e i flow wc).1
      = (ecallOftableClsLookup s.bridge.enclave i flow wc).1 := by
  have hrule := fun q (hq : q ∈ s.bridge.enclave.rules i) =>
    h.kept.rule q (hok.shadows.rule_lt (hok.live i q hq))
  have hmatches : ∀ q ∈ s.bridge.enclave.rules i,
      (e.clsRule q).Matches flow ↔ (s.bridge.enclave.clsRule q).Matches flow := by
    intro q hq
    unfold ClsRule.Matches
    rw [(hrule q hq).1]
  refine clsLookup_eq hok h.ok (fun q => ⟨fun hq => ?_, fun hq => ?_⟩)
    (fun q hq => (hrule q hq).2) hdistinct
  · rcases h.new q hq.1 with hq' | rfl
    · exact ⟨hq', (hmatches q hq').mp hq.2⟩
    · exact absurd hq.2 hno
  · have hm := (hmatches q hq.1).mpr hq.2
    rcases h.gone q hq.1 with hq' | heq
    · exact ⟨hq', hm⟩
    · unfold ClsRule.Matches at hm hno
      rw [heq] at hm
      exact absurd hm hno

/-- The table before and after a change for which not all flows are revalidated: the changed rule
is in the other subtable. -/
theorem TableChanged.rule_mask (h : TagsOk tagCreate i s)
    (hch : TableChanged s.bridge.enclave e i r) {t : TableId}
    (hother : (s.bridge.dpif i).otherTable = some t)
    (hrec : (s.withEnclave e).bridge.Recorded i)
    (hmask : minimaskIsCatchall (e.clsRule r).match.mask = false) :
    (e.clsRule r).match.mask = ((s.bridge.enclave.oftable i).cls.table t).mask := by
  have hold : OnlyOther (s.bridge.enclave.oftable i).cls t := by
    refine taggableTables_other ?_
    rw [h.recorded]
    exact hother
  have hnew : OnlyOther (e.oftable i).cls t := by
    refine taggableTables_other ?_
    have hrec' : taggableTables (e.oftable i).cls = _ := hrec
    rw [hrec']
    exact hother
  rcases hch.mem with hr | hr
  · have hcls := (h.enclave.cls i).toTablesOk
    rw [hnew.rule_mask (hch.ok.cls i).toTablesOk hr hmask]
    exact (hch.kept.cls i).mask t (hcls.fresh t (hcls.mem_values.mp hold.mem))
  · have hmatch := (hch.kept.rule r (h.enclave.shadows.rule_lt (h.enclave.live i r hr))).1
    rw [hmatch] at hmask ⊢
    exact hold.rule_mask (h.enclave.cls i).toTablesOk hr hmask

/-- The hash under a mask of two flows that agree on it. -/
theorem AgreeOn.hash {mask : Minimask} {f g : Flow} (h : AgreeOn (minimaskExpand mask).masks f g)
    (basis : U32) : flowHashInMinimask f mask basis = flowHashInMinimask g mask basis := by
  refine flowHashInMinimask_congr basis fun o => ?_
  by_cases ho : o < FLOW_U32S
  · have hk := h ⟨o, ho⟩
    simp only [minimaskExpand, miniflowExpand_apply] at hk
    simpa [Flow.u32, ho] using hk
  · rw [miniflowGet_of_ge (m := mask.masks) (by omega)]
    simp

/-- The tag on the flow, if the flow is tagged as its lookup went. -/
theorem tagTheFlow_eq (h : TagsOk tagCreate i s) (hi : 0 < i ∧ i < N_TABLES) {t : TableId}
    (hother : (s.bridge.dpif i).otherTable = some t)
    (hfits : TagFits frag s i flow
      (ecallOftableClsLookup s.bridge.enclave i (lookedUp frag flow) wc).1) :
    tagTheFlow tagCreate s i flow
        (ecallOftableClsLookup s.bridge.enclave i (lookedUp frag flow) wc).1
      = some (tagOfHash tagCreate (flowHashInMinimask (lookedUp frag flow)
        ((s.bridge.enclave.oftable i).cls.table t).mask (s.bridge.dpif i).basis)) := by
  have honly : OnlyOther (s.bridge.enclave.oftable i).cls t := by
    refine taggableTables_other ?_
    rw [h.recorded]
    exact hother
  have hmask : minimaskIsCatchall ((s.bridge.enclave.oftable i).cls.table t).mask = false :=
    honly.mask
  have htagged : 0 < i ∧ i < N_TABLES ∧ ecallOftableIsOtherTable s.bridge i ≠ 0 := by
    simp [hi, ecallOftableIsOtherTable, hother]
  have hhashed : ecallRuleCalculateTagS s.bridge i flow = some (flowHashInMinimask flow
      ((s.bridge.enclave.oftable i).cls.table t).mask (s.bridge.dpif i).basis) := by
    simp [ecallRuleCalculateTagS, hother, honly.mem, hmask]
  -- a rule with a tag that is found matches what was looked up, and its mask is the subtable's
  have hown : ∀ a, (ecallOftableClsLookup s.bridge.enclave i (lookedUp frag flow) wc).1 = some a →
      s.tag a ≠ 0#32 → s.tag a = tagOfHash tagCreate (flowHashInMinimask (lookedUp frag flow)
        ((s.bridge.enclave.oftable i).cls.table t).mask (s.bridge.dpif i).basis) := by
    intro a hfound htag
    obtain ⟨q, hq, -, rfl, hmatch, -⟩ := (h.enclave.clsLookup i _ wc).2 a hfound
    rw [h.tag q hq] at htag ⊢
    have hqmask := matchTag_ne_zero htag
    rw [matchTag_of_matches hqmask hmatch,
      honly.rule_mask (h.enclave.cls i).toTablesOk hq hqmask]
  rw [tagTheFlow, if_pos htagged, hhashed, Option.map_some]
  cases hfound : (ecallOftableClsLookup s.bridge.enclave i (lookedUp frag flow) wc).1 with
  | none =>
    rw [hfound] at hfits
    obtain ⟨a, hnone, -⟩ | hagree := hfits
    · cases hnone
    · simp only [(hagree t hother).hash]
  | some a =>
    by_cases htag : s.tag a ≠ 0#32
    · simp only [if_pos htag]
      rw [hown a hfound htag]
    · rw [hfound] at hfits
      obtain ⟨b, hb, hnz⟩ | hagree := hfits
      · cases hb
        exact absurd hnz htag
      · simp only [if_neg htag, (hagree t hother).hash]

/-- A change of a table that is invalidated under the tag of the changed rule. -/
theorem TableChanged.revalidates (h : TagsOk tagCreate i s) (hi : 0 < i)
    (hch : TableChanged s.bridge.enclave e i r) (s1 : TaggedDpif)
    (hbridge : s1.bridge = (s.withEnclave e).bridge) (hset : s1.revalidateSet = s.revalidateSet)
    (htag : s1.tag a = matchTag tagCreate (s.bridge.dpif i).basis (e.clsRule r).match)
    (hmatches : (e.clsRule r).Matches (lookedUp frag flow) ∨
      DistinctPriorities s.bridge.enclave i (lookedUp frag flow))
    (hfits : TagFits frag s i flow (ruleDpifLookup frag dropFragsRule s flow wc i))
    (hne : ruleDpifLookup frag dropFragsRule s flow wc i
      ≠ ruleDpifLookup frag dropFragsRule (ruleInvalidate s1 i a) flow wc i) :
    Revalidates tagCreate s (ruleInvalidate s1 i a) i flow
      (ruleDpifLookup frag dropFragsRule s flow wc i) := by
  obtain ⟨hlt, hlookup⟩ := ruleDpifLookup_ne hne
  rcases ruleInvalidate_cases s1 i a with hneed | ⟨hrec, ⟨t, hother⟩, hnz, hadd⟩
  · exact .inl hneed
  · rw [hbridge] at hrec hother
    rw [htag] at hnz hadd
    have hmask := matchTag_ne_zero hnz
    have hrmask := hch.rule_mask h hother hrec hmask
    refine .inr ⟨_, by rw [hadd, hset], ?_⟩
    rw [hlookup] at hfits ⊢
    rw [tagTheFlow_eq h ⟨hi, hlt⟩ hother hfits, ← hrmask]
    rcases hmatches with hm | hdistinct
    · rw [matchTag_of_matches hmask hm]
    · by_cases hm : (e.clsRule r).Matches (lookedUp frag flow)
      · rw [matchTag_of_matches hmask hm]
      · -- then the answer has not changed
        refine absurd ?_ hne
        rw [hlookup, hlookup, (ruleInvalidate_invalidated s1 i a).1.enclave, hbridge]
        exact (hch.lookup_eq h.enclave hm hdistinct).symm

/-- The rule that a step adds or removes matches the flow. -/
def TagStep.RuleMatches (a : UtAddr) (s : TaggedDpif) (flow : Flow) : TagStep → Prop
  | .add c => (s.bridge.enclave.after c).MatchedBy a flow
  | .remove _ _ _ => s.bridge.enclave.MatchedBy a flow
  | _ => False

/-- A step that adds a rule. -/
theorem add_tableChanged {c : Call} {new : AddedRule} (hok : EnclaveOk ZeroMatch s.bridge.enclave)
    (hc : Allowed ZeroMatch s.bridge.enclave c) (hevict : new.evict = none)
    (he : exec s.bridge.enclave c = some e) (hadd : RuleAdded s.bridge.enclave e new r) :
    TableChanged s.bridge.enclave e new.table r := by
  have hkept := exec_kept hok hc he
  obtain ⟨hmem, hgone⟩ := hadd.whole hevict
  refine ⟨exec_ok hok hc he, hkept, .inl hmem, fun q hq => ?_, fun q hq => (hadd.rules q hq).symm⟩
  refine (hgone q hq).imp_right fun heq => ?_
  rw [(hkept.rule q (hok.shadows.rule_lt (hok.live _ q hq))).1]
  exact heq

/-- A step that removes a rule. -/
theorem remove_tableChanged {c : Call} (hok : EnclaveOk ZeroMatch s.bridge.enclave)
    (hc : Allowed ZeroMatch s.bridge.enclave c) (he : exec s.bridge.enclave c = some e)
    (hr : r ∈ s.bridge.enclave.rules i)
    (hrules : ∀ q, q ∈ e.rules i ↔ q ∈ s.bridge.enclave.rules i ∧ q ≠ r) :
    TableChanged s.bridge.enclave e i r := by
  refine ⟨exec_ok hok hc he, exec_kept hok hc he, .inr hr, fun q hq => ?_, fun q hq => ?_⟩
  · by_cases hqr : q = r
    · exact .inr (by rw [hqr])
    · exact .inl ((hrules q).mpr ⟨hq, hqr⟩)
  · exact .inl ((hrules q).mp hq).1

/-- The address of a rule says which rule it is. -/
theorem Enclave.MatchedBy.matches {s : Enclave} (h : s.MatchedBy a flow) (hok : ShadowsOk s)
    (hr : sgxRuleFromUtCr s a = some r) : (s.clsRule r).Matches flow := by
  obtain ⟨q, hq, haddr, hm⟩ := h
  have hlook := hok.lookup_self hq
  rw [haddr, hr, Option.some.injEq] at hlook
  exact hlook ▸ hm

/-- In every state in which the subtables have been recorded after each change: if one rule is
added or removed and a lookup changes, the flow is revalidated, provided that the rule matches what
was looked up (or no two matching rules have one priority) and the flow is tagged as its lookup
went. -/
theorem ruleInvalidate_sound (hi : 0 < i) (h : TagReachable tagCreate i s) {c : TagStep}
    (hc : c.Changes i a s) (hs : c.run tagCreate s = some s')
    (hmatches : c.RuleMatches a s (lookedUp frag flow) ∨
      DistinctPriorities s.bridge.enclave i (lookedUp frag flow))
    (hfits : TagFits frag s i flow (ruleDpifLookup frag dropFragsRule s flow wc i))
    (hne : ruleDpifLookup frag dropFragsRule s flow wc i
      ≠ ruleDpifLookup frag dropFragsRule s' flow wc i) :
    Revalidates tagCreate s s' i flow (ruleDpifLookup frag dropFragsRule s flow wc i) := by
  have htags := h.tagsOk (Nat.ne_of_gt hi)
  have hok := htags.enclave
  cases c with
  | add c =>
    obtain ⟨hallowed, victim, hnew⟩ := hc
    simp only [TagStep.run, hnew, Option.bind_eq_bind, Option.bind_some,
      Option.bind_eq_some_iff] at hs
    obtain ⟨e, he, s2, hconstruct, h2⟩ := hs
    obtain ⟨tag, htag, h1⟩ := Option.bind_eq_some_iff.mp hconstruct
    let s1 : TaggedDpif := { s.withEnclave e with tag := Function.update s.tag a tag }
    have hs' : s' = ruleInvalidate s1 i a :=
      (Option.some.inj h2).symm.trans (Option.some.inj h1).symm
    subst hs'
    obtain ⟨r, hadd⟩ := addedRule_spec hok hallowed hnew he
    have hch : TableChanged s.bridge.enclave e i r := add_tableChanged hok hallowed rfl he hadd
    have htag' : s1.tag a = matchTag tagCreate (s.bridge.dpif i).basis (e.clsRule r).match := by
      rw [show s1.tag a = tag from Function.update_self ..]
      exact constructedTag_eq ⟨i, a, victim, none⟩ htags.toRulesTagged (Nat.ne_of_gt hi) hadd htag
    refine hch.revalidates htags hi s1 rfl rfl htag' ?_ hfits hne
    refine hmatches.imp_left fun hm => ?_
    have hm' : (s.bridge.enclave.after c).MatchedBy a (lookedUp frag flow) := hm
    rw [show s.bridge.enclave.after c = e by simp [Enclave.after, he]] at hm'
    exact hm'.matches hch.ok.shadows hadd.lookup
  | remove c j rules =>
    obtain ⟨hallowed, rfl, rfl, r, hr, haddr, hrules⟩ := hc
    simp only [TagStep.run, Option.bind_eq_bind, Option.bind_eq_some_iff] at hs
    obtain ⟨e, he, h1⟩ := hs
    have hs' : s' = ruleInvalidate (s.withEnclave e) j a := (Option.some.inj h1).symm
    subst hs'
    rw [show s.bridge.enclave.after c = e by simp [Enclave.after, he]] at hrules
    have hch := remove_tableChanged hok hallowed he hr hrules
    have hmatch := (hch.kept.rule r (hok.shadows.rule_lt (hok.live j r hr))).1
    have htag' : (s.withEnclave e).tag a
        = matchTag tagCreate (s.bridge.dpif j).basis (e.clsRule r).match := by
      rw [show (s.withEnclave e).tag a = s.tag a from rfl, ← haddr, htags.tag r hr, hmatch]
    refine hch.revalidates htags hi (s.withEnclave e) rfl rfl htag' ?_ hfits hne
    refine hmatches.imp_left fun hm => ?_
    have hm' : s.bridge.enclave.MatchedBy a (lookedUp frag flow) := hm
    have hlook := hok.shadows.lookup_self (hok.live j r hr)
    rw [haddr] at hlook
    unfold ClsRule.Matches
    rw [hmatch]
    exact hm'.matches hok.shadows hlook
  | call c => exact hc.elim
  | typeRun => exact hc.elim

end Change

/-! ## Fragments and ties -/

/-- A tag with two bits, as `tag_create_deterministic` makes it of a seed. -/
def twoBits (seed : U32) : TagType :=
  let x := seed.toNat % 32
  let y := seed.toNat / 32 % 31
  1#32 <<< x ||| 1#32 <<< (if x ≤ y then y + 1 else y)

/-- The state after a step, unchanged if the step is undefined. -/
def TaggedDpif.after (s : TaggedDpif) (c : TagStep) : TaggedDpif := (c.run twoBits s).getD s

theorem TagReachable.after {s : TaggedDpif} {i : Nat} {c : TagStep}
    (h : TagReachable twoBits i s) (hc : c.Invalidates i s) : TagReachable twoBits i (s.after c) := by
  unfold TaggedDpif.after
  cases hs : c.run twoBits s with
  | none => exact h
  | some s' => exact h.step c hc hs

theorem run_after {s : TaggedDpif} {c : TagStep} (h : (c.run twoBits s).isSome) :
    c.run twoBits s = some (s.after c) := by
  obtain ⟨s', hs⟩ := Option.isSome_iff_exists.mp h
  rw [TaggedDpif.after, hs, Option.getD_some]

/-- A flow with a transport source port, and fragment flags. -/
def portFlow (port frag : U32) (k : Fin FLOW_U32S) : U32 :=
  if k.val = 36 then port <<< 16 else if k.val = 44 then frag <<< 8 else 0#32

/-- The match on a transport source port. -/
def matchPort (port : U32) : Match := ⟨portFlow port 0#32, ⟨portFlow 0xffff#32 0#32⟩⟩

/-- The step that adds a flow to table 1. -/
def addToSecond (a : UtAddr) (m : Match) (priority : Nat) : TagStep :=
  .add (.addFlow { sampleFlow a m priority with tableId := 1 })

/-- A bridge with two empty tables. -/
def emptyTables : TaggedDpif :=
  ⟨⟨ecallOfprotoInitTables 2 fun _ => 5#16, sgxTableDpifInit fun _ => 3#32⟩, fun _ => 0#32, false, []⟩

/-- There is a rule for port 5 in table 1, and nothing to revalidate. -/
def portBridge : TaggedDpif :=
  (emptyTables.after (addToSecond 1#64 (matchPort 5#32) 1)).after .typeRun

theorem portBridge_reachable : TagReachable twoBits 1 portBridge := by
  have h0 : TagReachable twoBits 1 emptyTables := .init ..
  have h1 := h0.after (c := addToSecond 1#64 (matchPort 5#32) 1)
    ⟨show Enclave.NewAddr _ 1#64 by decide +kernel, show ZeroMatch _ by decide +kernel⟩
  exact h1.after trivial

/-- When a rule for port 9 is added, the flows to port 9 are revalidated, by their tag. -/
theorem portBridge_revalidates :
    (portBridge.after (addToSecond 2#64 (matchPort 9#32) 1)).needRevalidate = false ∧
      Revalidates twoBits portBridge (portBridge.after (addToSecond 2#64 (matchPort 9#32) 1)) 1
        (portFlow 9#32 0#32)
        (ruleDpifLookup .normal 99#64 portBridge (portFlow 9#32 0#32) none 1) := by
  have hchanges : (addToSecond 2#64 (matchPort 9#32) 1).Changes 1 2#64 portBridge :=
    ⟨⟨show Enclave.NewAddr _ 2#64 by decide +kernel, show ZeroMatch _ by decide +kernel⟩, none,
      by decide +kernel⟩
  have hmatches : (addToSecond 2#64 (matchPort 9#32) 1).RuleMatches 2#64 portBridge
      (lookedUp .normal (portFlow 9#32 0#32)) :=
    ⟨1, show _ ∈ _ by decide +kernel, by decide +kernel, show ∀ k, _ = _ by decide +kernel⟩
  have hfits : TagFits .normal portBridge 1 (portFlow 9#32 0#32)
      (ruleDpifLookup .normal 99#64 portBridge (portFlow 9#32 0#32) none 1) := by
    refine .inr fun t _ k => ?_
    rw [show lookedUp .normal (portFlow 9#32 0#32) = portFlow 9#32 0#32 from if_neg (by decide)]
  exact ⟨by decide +kernel, ruleInvalidate_sound Nat.one_pos portBridge_reachable hchanges
    (run_after (by decide +kernel)) (.inl hmatches) hfits (by decide +kernel)⟩

/-- A rule for every flow and one for port 5 have the same priority. -/
def tiedBridge : TaggedDpif :=
  ((emptyTables.after (addToSecond 1#64 matchCatchall 1)).after
    (addToSecond 2#64 (matchPort 5#32) 1)).after .typeRun

theorem tiedBridge_reachable : TagReachable twoBits 1 tiedBridge := by
  have h0 : TagReachable twoBits 1 emptyTables := .init ..
  have h1 := h0.after (c := addToSecond 1#64 matchCatchall 1)
    ⟨show Enclave.NewAddr _ 1#64 by decide +kernel, show ZeroMatch _ by decide +kernel⟩
  have h2 := h1.after (c := addToSecond 2#64 (matchPort 5#32) 1)
    ⟨show Enclave.NewAddr _ 2#64 by decide +kernel, show ZeroMatch _ by decide +kernel⟩
  exact h2.after trivial

/-- If not all flows are revalidated, the tag is the last one added. -/
theorem Revalidates.head {tagCreate : U32 → TagType} {s s' : TaggedDpif} {i : Nat} {flow : Flow}
    {found : Option UtAddr} (h : Revalidates tagCreate s s' i flow found)
    (hneed : s'.needRevalidate = false) :
    tagTheFlow tagCreate s i flow found = s'.revalidateSet.head? := by
  rcases h with hall | ⟨tag, hset, htag⟩
  · rw [hneed] at hall
    cases hall
  · rw [hset, htag, List.head?_cons]

/-- The first fragment of a flow from port 7 is looked up without its port and tagged with it, so a
rule that it starts to match does not revalidate it. And a rule that a flow does not match can
decide which of two rules of one priority is found first. -/
theorem fragment_not_revalidated :
    ¬ (∀ s s' c a frag dropFragsRule flow wc, TagReachable twoBits 1 s → TagStep.Changes 1 a s c →
      c.run twoBits s = some s' → DistinctPriorities s.bridge.enclave 1 (lookedUp frag flow) →
      ruleDpifLookup frag dropFragsRule s flow wc 1
        ≠ ruleDpifLookup frag dropFragsRule s' flow wc 1 →
      Revalidates twoBits s s' 1 flow (ruleDpifLookup frag dropFragsRule s flow wc 1)) ∧
    ¬ (∀ s s' c a frag dropFragsRule flow wc, TagReachable twoBits 1 s → TagStep.Changes 1 a s c →
      c.run twoBits s = some s' → flowIsFrag flow = false →
      ruleDpifLookup frag dropFragsRule s flow wc 1
        ≠ ruleDpifLookup frag dropFragsRule s' flow wc 1 →
      Revalidates twoBits s s' 1 flow (ruleDpifLookup frag dropFragsRule s flow wc 1)) := by
  refine ⟨fun hall => ?_, fun hall => ?_⟩
  · have hdistinct : DistinctPriorities portBridge.bridge.enclave 1
        (lookedUp .normal (portFlow 7#32 1#32)) := by
      have hrules : portBridge.bridge.enclave.rules 1 = [0] := by decide +kernel
      intro q hq p hp _ _ _
      rw [hrules, List.mem_singleton] at hq hp
      rw [hq, hp]
    have hval := hall portBridge (portBridge.after (addToSecond 2#64 (matchPort 0#32) 1))
      (addToSecond 2#64 (matchPort 0#32) 1) 2#64 .normal 99#64 (portFlow 7#32 1#32) none
      portBridge_reachable
      ⟨⟨show Enclave.NewAddr _ 2#64 by decide +kernel, show ZeroMatch _ by decide +kernel⟩, none,
        by decide +kernel⟩
      (run_after (by decide +kernel)) hdistinct (by decide +kernel)
    exact absurd (hval.head (by decide +kernel)) (by decide +kernel)
  · have hval := hall tiedBridge (tiedBridge.after (addToSecond 3#64 (matchPort 9#32) 4))
      (addToSecond 3#64 (matchPort 9#32) 4) 3#64 .normal 99#64 (portFlow 5#32 0#32) none
      tiedBridge_reachable
      ⟨⟨show Enclave.NewAddr _ 3#64 by decide +kernel, show ZeroMatch _ by decide +kernel⟩, none,
        by decide +kernel⟩
      (run_after (by decide +kernel)) (by decide +kernel) (by decide +kernel)
    exact absurd (hval.head (by decide +kernel)) (by decide +kernel)

end OvsSgx
