/-
OvsSgx.ClassifierLookup — what `classifier_lookup` returns and what it reads.

Two results. Under the invariant, the lookup is the specification "a
matching rule of maximal priority, or none if nothing matches". And
without any invariant, the wildcard mask that a lookup leaves behind covers
every bit its answer depended on.
-/
import OvsSgx.ClassifierTheorems

namespace OvsSgx

open RankedList

variable {R : RuleStore} {cls : Classifier}

/-- The flow of a match has no bit outside its mask. -/
def ZeroWildcards (m : Minimatch) : Prop :=
  ∀ o, miniflowGet m.flow o &&& miniflowGet m.mask.masks o = miniflowGet m.flow o

/-- A flow matches a rule if the two agree wherever the rule's mask has a one. -/
def ClsRule.Matches (rule : ClsRule) (f : Flow) : Prop :=
  ∀ k, f k &&& (minimatchExpand rule.match).wc.masks k
    = (minimatchExpand rule.match).flow k &&& (minimatchExpand rule.match).wc.masks k

/-- Two flows agree on every bit of a mask. -/
def AgreeOn (mask : Flow) (f g : Flow) : Prop := ∀ k, f k &&& mask k = g k &&& mask k

/-! ## One subtable -/

theorem ClsRule.matches_iff {rule : ClsRule} {f : Flow} :
    rule.Matches f ↔ ∀ o, miniflowGet rule.match.flow o &&& miniflowGet rule.match.mask.masks o
      = f.u32 o &&& miniflowGet rule.match.mask.masks o := by
  constructor
  · intro h o
    by_cases ho : o < FLOW_U32S
    · have := h ⟨o, ho⟩
      simp only [minimatchExpand, minimaskExpand, miniflowExpand_apply] at this
      rw [← this]
      simp [Flow.u32, ho]
    · rw [miniflowGet_of_ge (m := rule.match.mask.masks) (by omega)]
      simp
  · intro h k
    have := h k.val
    simp only [minimatchExpand, minimaskExpand, miniflowExpand_apply]
    rw [this]
    simp [Flow.u32, k.isLt]

theorem equalFlow_iff_matches {rule : ClsRule} {f : Flow} :
    miniflowEqualFlowInMinimask rule.match.flow f rule.match.mask = true ↔ rule.Matches f := by
  rw [miniflowEqualFlowInMinimask_iff, ClsRule.matches_iff]
  exact forall_congr' fun o => xor_and_eq_zero_iff _ _ _

/-- Two rules without bits outside their common mask that match one flow
have the same flow. -/
theorem flow_eq_of_matches {a b : ClsRule} {f : Flow} (ha : ZeroWildcards a.match)
    (hb : ZeroWildcards b.match) (hmask : a.match.mask = b.match.mask)
    (hma : a.Matches f) (hmb : b.Matches f) : a.match.flow = b.match.flow := by
  refine miniflow_ext fun o => ?_
  rw [← ha o, ← hb o, ClsRule.matches_iff.mp hma o, ClsRule.matches_iff.mp hmb o, hmask]

/-- Rules of one list match the same flows. -/
theorem RuleIn.matches_iff {mask : Minimask} {flow : Miniflow} {hash : Nat} {r s : RuleId}
    (hr : RuleIn R mask flow hash r) (hs : RuleIn R mask flow hash s) {f : Flow} :
    (R r).Matches f ↔ (R s).Matches f := by
  rw [ClsRule.matches_iff, ClsRule.matches_iff, hr.flow, hr.mask, hs.flow, hs.mask]

section Table

variable {tbl : ClsTable} {f : Flow}

theorem findMatch_some (h : TableOk R tbl)
    (hzero : ∀ r ∈ chainRules tbl.rules, ZeroWildcards (R r).match) {r : RuleId}
    (hf : findMatch R tbl f = some r) :
    r ∈ chainRules tbl.rules ∧ (R r).Matches f ∧
      ∀ s ∈ chainRules tbl.rules, (R s).Matches f → (R s).priority ≤ (R r).priority := by
  unfold findMatch at hf
  obtain ⟨c, hc, rfl⟩ := Option.map_eq_some_iff.mp hf
  have hentry := ChainMap.mem_withHash.mp (List.mem_of_find?_eq_some hc)
  have hhead := (h.chains.chain _ hentry).head_ruleIn
  have hmatch := List.find?_some hc
  have hmatch' : (R c.head).Matches f := by
    rw [← hhead.mask] at hmatch
    exact equalFlow_iff_matches.mp hmatch
  refine ⟨mem_chainRules.mpr ⟨_, hentry, by simp [RuleChain.rules]⟩, hmatch', fun s hs hsm => ?_⟩
  obtain ⟨e, he, hse, hsin⟩ := h.chains.mem_rule hs
  have hehead := (h.chains.chain e he).head_ruleIn
  have hem : (R e.2.head).Matches f := (hsin.matches_iff hehead).mp hsm
  have hflow : (R e.2.head).match.flow = (R c.head).match.flow :=
    flow_eq_of_matches (hzero _ (mem_chainRules.mpr ⟨e, he, by simp [RuleChain.rules]⟩))
      (hzero _ (mem_chainRules.mpr ⟨_, hentry, by simp [RuleChain.rules]⟩))
      (hehead.mask.trans hhead.mask.symm) hem hmatch'
  have hec : e.2 = c := h.chains.eq_of_flow (List.mem_map.mpr ⟨e, he, rfl⟩)
    (List.mem_map.mpr ⟨_, hentry, rfl⟩) hflow
  rw [← hec]
  rcases List.mem_cons.mp hse with hsh | hsr
  · rw [hsh]
  · exact Nat.le_of_lt ((List.pairwise_cons.mp (h.chains.chain e he).sorted).1 s hsr)

theorem findMatch_none (h : TableOk R tbl) (hf : findMatch R tbl f = none) :
    ∀ s ∈ chainRules tbl.rules, ¬ (R s).Matches f := by
  intro s hs hsm
  obtain ⟨e, he, hse, hsin⟩ := h.chains.mem_rule hs
  have hehead := (h.chains.chain e he).head_ruleIn
  have hem : (R e.2.head).Matches f := (hsin.matches_iff hehead).mp hsm
  have hhash : (flowHashInMinimask f tbl.mask 0#32).toNat = e.1 := by
    have heq : miniflowHashInMinimask (R e.2.head).match.flow tbl.mask 0#32
        = flowHashInMinimask f tbl.mask 0#32 := hashInMinimask_congr fun o => by
      have := ClsRule.matches_iff.mp hem o
      rwa [hehead.mask] at this
    rw [← hehead.hash, hehead.hash_eq, hehead.mask, heq]
  unfold findMatch at hf
  rw [Option.map_eq_none_iff] at hf
  have := List.find?_eq_none.mp hf e.2 (by rw [hhash]; exact ChainMap.mem_withHash.mpr he)
  rw [← hehead.mask] at this
  exact this (equalFlow_iff_matches.mpr hem)

theorem findMatch_eq_none (h : TableOk R tbl)
    (hzero : ∀ r ∈ chainRules tbl.rules, ZeroWildcards (R r).match) :
    findMatch R tbl f = none ↔ ∀ s ∈ chainRules tbl.rules, ¬ (R s).Matches f := by
  refine ⟨findMatch_none h, fun hno => ?_⟩
  cases hf : findMatch R tbl f with
  | none => rfl
  | some r =>
    obtain ⟨h1, h2, -⟩ := findMatch_some h hzero hf
    exact absurd h2 (hno r h1)

end Table

/-! ## The whole classifier -/

section Lookup

variable (h : ClassifierOk R cls) (hzero : ∀ r ∈ cls.rules, ZeroWildcards (R r).match)

include h hzero

theorem zero_of_table {t : TableId} (ht : t ∈ cls.tablesPriority) :
    ∀ r ∈ chainRules (cls.table t).rules, ZeroWildcards (R r).match :=
  fun r hr => hzero r (h.mem_rules.mpr ⟨t, ht, hr⟩)

/-- The lookup finds nothing exactly when no installed rule matches. -/
theorem classifierLookup_eq_none (f : Flow) (wc : Option FlowWildcards) :
    (classifierLookup R cls f wc).1 = none ↔ ∀ r ∈ cls.rules, ¬ (R r).Matches f := by
  unfold classifierLookup
  rw [search_eq_none]
  constructor
  · intro hno r hr
    obtain ⟨t, ht, hrt⟩ := h.mem_rules.mp hr
    exact (findMatch_eq_none (h.table t ht) (zero_of_table h hzero ht)).mp (hno t ht) r hrt
  · intro hno t ht
    exact (findMatch_eq_none (h.table t ht) (zero_of_table h hzero ht)).mpr fun r hr =>
      hno r (h.mem_rules.mpr ⟨t, ht, hr⟩)

/-- What the lookup finds is installed, matches, and no matching installed
rule has a higher priority. -/
theorem classifierLookup_some {f : Flow} {wc : Option FlowWildcards} {r : RuleId}
    (hr : (classifierLookup R cls f wc).1 = some r) :
    r ∈ cls.rules ∧ (R r).Matches f ∧
      ∀ s ∈ cls.rules, (R s).Matches f → (R s).priority ≤ (R r).priority := by
  have hbound : ∀ t ∈ cls.tablesPriority, ∀ s, findMatch R (cls.table t) f = some s →
      (R s).priority ≤ (cls.table t).maxPriority := fun t ht s hs =>
    (h.table t ht).max.le s (findMatch_some (h.table t ht) (zero_of_table h hzero ht) hs).1
  obtain ⟨⟨t, ht, hrt⟩, hbest⟩ := search_sound h.ranked hbound hr
  obtain ⟨h1, h2, -⟩ := findMatch_some (h.table t ht) (zero_of_table h hzero ht) hrt
  refine ⟨h.mem_rules.mpr ⟨t, ht, h1⟩, h2, fun s hs hsm => ?_⟩
  obtain ⟨u, hu, hsu⟩ := h.mem_rules.mp hs
  cases hf : findMatch R (cls.table u) f with
  | none => exact absurd hsm (findMatch_none (h.table u hu) hf s hsu)
  | some b =>
    exact ((findMatch_some (h.table u hu) (zero_of_table h hzero hu) hf).2.2 s hsu hsm).trans
      (hbest u hu b hf)

end Lookup

/-! ## What the lookup depends on -/

/-- `find_match` reads a flow under the subtable's mask only. -/
theorem findMatch_congr {tbl : ClsTable} {f g : Flow}
    (h : AgreeOn (minimaskExpand tbl.mask).masks f g) :
    findMatch R tbl g = findMatch R tbl f := by
  have hu : ∀ o, f.u32 o &&& miniflowGet tbl.mask.masks o
      = g.u32 o &&& miniflowGet tbl.mask.masks o := by
    intro o
    by_cases ho : o < FLOW_U32S
    · have := h ⟨o, ho⟩
      simp only [minimaskExpand, miniflowExpand_apply] at this
      simp [Flow.u32, ho, this]
    · rw [miniflowGet_of_ge (by omega)]
      simp
  have hhash := flowHashInMinimask_congr 0#32 hu
  have heq : ∀ a : Miniflow, miniflowEqualFlowInMinimask a g tbl.mask
      = miniflowEqualFlowInMinimask a f tbl.mask := by
    intro a
    rw [Bool.eq_iff_iff, miniflowEqualFlowInMinimask_iff, miniflowEqualFlowInMinimask_iff]
    refine forall_congr' fun o => ?_
    rw [xor_and_eq_zero_iff, xor_and_eq_zero_iff, hu o]
  unfold findMatch
  rw [← hhash]
  simp only [heq]

/-- Agreement on a mask includes agreement on each smaller mask. -/
theorem AgreeOn.mono {m m' f g : Flow} (h : AgreeOn m f g) (hle : ∀ k, m' k &&& m k = m' k) :
    AgreeOn m' f g := by
  intro k
  calc f k &&& m' k = m' k &&& (f k &&& m k) := by
        rw [← hle k]; ac_rfl
    _ = m' k &&& (g k &&& m k) := by rw [h k]
    _ = g k &&& m' k := by
        conv_rhs => rw [← hle k]
        ac_rfl

theorem and_or_self (a b : U32) : a &&& (a ||| b) = a := by
  refine BitVec.eq_of_getLsbD_eq fun i _ => ?_
  simp only [BitVec.getLsbD_and, BitVec.getLsbD_or]
  cases a.getLsbD i <;> simp

/-- Folding masks into `wc` keeps the bits of `wc` and adds those of each mask. -/
theorem fold_masks_le (table : TableId → ClsTable) : ∀ (l : List TableId) (wc : FlowWildcards),
    ∃ wc', l.foldl (fun (w : Option FlowWildcards) t =>
        w.map (flowWildcardsFoldMinimask · (table t).mask)) (some wc) = some wc' ∧
      (∀ k, wc.masks k &&& wc'.masks k = wc.masks k) ∧
      ∀ t ∈ l, ∀ k, (minimaskExpand (table t).mask).masks k &&& wc'.masks k
        = (minimaskExpand (table t).mask).masks k
  | [], wc => ⟨wc, rfl, fun k => BitVec.and_self, by simp⟩
  | t :: l, wc => by
      obtain ⟨wc', h1, h2, h3⟩ := fold_masks_le table l (flowWildcardsFoldMinimask wc (table t).mask)
      have hfold : ∀ k, (flowWildcardsFoldMinimask wc (table t).mask).masks k
          = wc.masks k ||| (minimaskExpand (table t).mask).masks k := by
        intro k
        simp only [flowWildcardsFoldMinimask, minimaskExpand, flowUnionWithMiniflow_apply,
          miniflowExpand_apply]
      have hstep : ∀ (a : U32) k, a &&& (flowWildcardsFoldMinimask wc (table t).mask).masks k = a →
          a &&& wc'.masks k = a := by
        intro a k ha
        calc a &&& wc'.masks k
            = a &&& ((flowWildcardsFoldMinimask wc (table t).mask).masks k &&& wc'.masks k) := by
              rw [← BitVec.and_assoc, ha]
          _ = a := by rw [h2 k, ha]
      refine ⟨wc', h1, fun k => hstep _ k ?_, fun u hu k => ?_⟩
      · rw [hfold k]
        exact and_or_self _ _
      · rcases List.mem_cons.mp hu with rfl | hu
        · refine hstep _ k ?_
          rw [hfold k, BitVec.or_comm]
          exact and_or_self _ _
        · exact h3 u hu k

/-- Two flows that agree on the wildcard mask a lookup leaves behind get the
same answer and leave the same mask. -/
theorem classifierLookup_congr {f g : Flow} {wc wc' : FlowWildcards}
    (hwc : (classifierLookup R cls f (some wc)).2 = some wc')
    (h : AgreeOn wc'.masks f g) :
    classifierLookup R cls g (some wc) = classifierLookup R cls f (some wc) := by
  unfold classifierLookup at hwc ⊢
  rw [search_state] at hwc
  obtain ⟨w, h1, -, h3⟩ := fold_masks_le cls.table
    (visited (fun t => (cls.table t).maxPriority) (fun r => (R r).priority)
      (fun t => findMatch R (cls.table t) f) cls.tablesPriority) wc
  rw [h1, Option.some.injEq] at hwc
  subst hwc
  exact search_congr fun t ht => findMatch_congr (h.mono (h3 t ht))

end OvsSgx
