/-
OvsSgx.OftableTheorems — the tables of a reachable bridge.

What holds of the classifier of every table in every reachable state: its
representation, what a lookup answers, and which bits of the packet the
answer depends on.
-/
import OvsSgx.EnclaveRuns

namespace OvsSgx

open RankedList

/-- The flow of a match has no bit outside its mask. -/
def ZeroMatch (m : Match) : Prop := ∀ k, m.flow k &&& m.wc.masks k = m.flow k

instance (m : Match) : Decidable (ZeroMatch m) :=
  inferInstanceAs (Decidable (∀ k : Fin FLOW_U32S, m.flow k &&& m.wc.masks k = m.flow k))

theorem zeroWildcards_init {m : Match} (h : ZeroMatch m) : ZeroWildcards (minimatchInit m) := by
  intro o
  simp only [minimatchInit, minimaskInit, miniflowGet_miniflowInit]
  unfold Flow.u32
  split
  · exact h _
  · simp

theorem EnclaveOk.zeroWildcards {s : Enclave} (h : EnclaveOk ZeroMatch s) {i : Nat} {r : RuleId}
    (hr : r ∈ s.rules i) : ZeroWildcards (s.clsRule r).match := by
  obtain ⟨m, hm, heq⟩ := h.built r (h.live i r hr)
  rw [heq]
  exact zeroWildcards_init hm

/-! ## A small reachable bridge -/

/-- A match on the first word of the flow. -/
def matchFirstWord (value : U32) : Match :=
  ⟨fun k => if k = 0 then value else 0#32, ⟨fun k => if k = 0 then 0xffffffff#32 else 0#32⟩⟩

/-- A flow to be added to table 0, without timeout. -/
def sampleFlow (cr : UtAddr) (m : Match) (priority : Nat) : AddFlowArgs :=
  ⟨0, cr, m, priority, false, 0, 0, ⟨0, 0⟩, [], false⟩

/-- A bridge with one table and two rules in it: at address 1 one for flows whose
first word is 7, at address 2 one of lower priority for every flow. -/
def sampleBridge : Enclave :=
  ((ecallOfprotoInitTables 1 fun _ => 0#16).after
    (.addFlow (sampleFlow 1#64 (matchFirstWord 7#32) 20))).after
    (.addFlow (sampleFlow 2#64 matchCatchall 10))

theorem sampleBridge_reachable : Reachable ZeroMatch sampleBridge := by
  have h1 := (Reachable.init (P := ZeroMatch) 1 fun _ => 0#16).after
    (c := .addFlow (sampleFlow 1#64 (matchFirstWord 7#32) 20))
    ⟨by decide +kernel, by decide +kernel⟩
  exact h1.after (c := .addFlow (sampleFlow 2#64 matchCatchall 10))
    ⟨by decide +kernel, by decide +kernel⟩

/-! ## Representation -/

/-- The representation of a classifier: the counters, the masks of the subtables, the
equal-flow lists, the cached maxima and the order of `tables_priority`. -/
structure Representation (R : RuleStore) (cls : Classifier) : Prop where
  nRules : cls.nRules = cls.rules.length ∧ cls.rules.Nodup
  nTableRules : ∀ t ∈ cls.tables.values, 0 < (cls.table t).nTableRules ∧
    (cls.table t).nTableRules = (chainRules (cls.table t).rules).length
  masks : ∀ t ∈ cls.tables.values, ∀ u ∈ cls.tables.values,
    (cls.table t).mask = (cls.table u).mask → t = u
  ruleMask : ∀ t ∈ cls.tables.values, ∀ r ∈ chainRules (cls.table t).rules,
    (R r).match.mask = (cls.table t).mask
  heads : ∀ t ∈ cls.tables.values, (cls.table t).rules.values.Pairwise fun c d =>
    ∃ o, miniflowGet (R c.head).match.flow o &&& miniflowGet (cls.table t).mask.masks o
      ≠ miniflowGet (R d.head).match.flow o &&& miniflowGet (cls.table t).mask.masks o
  lists : ∀ t ∈ cls.tables.values, ∀ c ∈ (cls.table t).rules.values,
    (∀ r ∈ c.rules, (R r).match.flow = (R c.head).match.flow) ∧
    c.rules.Pairwise fun a b => (R b).priority < (R a).priority
  maxPriority : ∀ t ∈ cls.tables.values,
    (∃ r ∈ chainRules (cls.table t).rules, (R r).priority = (cls.table t).maxPriority) ∧
    ∀ r ∈ chainRules (cls.table t).rules, (R r).priority ≤ (cls.table t).maxPriority
  maxCount : ∀ t ∈ cls.tables.values, (cls.table t).maxCount
    = (chainRules (cls.table t).rules).countP fun r => (R r).priority = (cls.table t).maxPriority
  tablesPriority : cls.tablesPriority.Perm cls.tables.values ∧ cls.tablesPriority.Nodup
  ranked : cls.tablesPriority.Pairwise fun t u =>
    (cls.table u).maxPriority ≤ (cls.table t).maxPriority

section Representation

variable {R : RuleStore} {cls : Classifier} {tbl : ClsTable}

/-- The heads of a subtable differ under its mask. -/
theorem ChainsOk.heads_differ {mask : Minimask} {rules : Hmap RuleChain}
    (h : ChainsOk R mask rules) (hzero : ∀ r ∈ chainRules rules, ZeroWildcards (R r).match) :
    rules.values.Pairwise fun c d =>
      ∃ o, miniflowGet (R c.head).match.flow o &&& miniflowGet mask.masks o
        ≠ miniflowGet (R d.head).match.flow o &&& miniflowGet mask.masks o := by
  have hmasked : ∀ c ∈ rules.values, ∀ o,
      miniflowGet (R c.head).match.flow o &&& miniflowGet mask.masks o
        = miniflowGet (R c.head).match.flow o := by
    intro c hc o
    obtain ⟨e, he, rfl⟩ := List.mem_map.mp hc
    have hin := (h.chain e he).head_ruleIn
    rw [← hin.mask]
    exact hzero _ (mem_chainRules.mpr ⟨e, he, by simp [RuleChain.rules]⟩) o
  refine (List.pairwise_map.mp h.distinct).imp_of_mem fun {c d} hc hd hne => ?_
  by_contra hall
  refine hne (miniflow_ext fun o => ?_)
  have := not_exists.mp hall o
  rw [not_ne_iff, hmasked c hc, hmasked d hd] at this
  exact this

/-- Some rule of a subtable has its `max_priority`. -/
theorem TableOk.max_attained (h : TableOk R tbl) (hpos : 0 < tbl.nTableRules) :
    ∃ r ∈ chainRules tbl.rules, (R r).priority = tbl.maxPriority := by
  rw [h.count] at hpos
  rcases h.max.attained with hzero | hcount
  · obtain ⟨r, hr⟩ := List.exists_mem_of_length_pos hpos
    have := h.max.le r hr
    exact ⟨r, hr, by omega⟩
  · rw [h.max.count, List.countP_pos_iff] at hcount
    obtain ⟨r, hr, heq⟩ := hcount
    exact ⟨r, hr, of_decide_eq_true heq⟩

theorem ClassifierOk.representation (h : ClassifierOk R cls)
    (hzero : ∀ r ∈ cls.rules, ZeroWildcards (R r).match) : Representation R cls := by
  have hmem : ∀ t ∈ cls.tables.values, t ∈ cls.tablesPriority := fun t ht => h.perm.mem_iff.mp ht
  refine ⟨⟨h.nRules, h.toTablesOk.rules_nodup⟩, fun t ht => ?_, fun t ht u hu => ?_,
    fun t ht r hr => ?_, fun t ht => ?_, fun t ht c hc => ?_, fun t ht => ?_, fun t ht => ?_,
    ⟨h.perm.symm, h.nodup⟩, h.ranked⟩
  · exact ⟨h.positive t (hmem t ht), (h.table t (hmem t ht)).count⟩
  · exact h.masks t (hmem t ht) u (hmem u hu)
  · exact h.toTablesOk.rule_mask (hmem t ht) hr
  · exact (h.table t (hmem t ht)).chains.heads_differ (zero_of_table h hzero (hmem t ht))
  · obtain ⟨e, he, rfl⟩ := List.mem_map.mp hc
    have hchain := (h.table t (hmem t ht)).chains.chain e he
    exact ⟨fun r hr => (hchain.ruleIn r hr).flow, hchain.sorted⟩
  · exact ⟨(h.table t (hmem t ht)).max_attained (h.positive t (hmem t ht)),
      (h.table t (hmem t ht)).max.le⟩
  · exact (h.table t (hmem t ht)).max.count

/-- Every table of every reachable bridge has a well-formed classifier. -/
theorem oftable_representation {s : Enclave} (h : Reachable ZeroMatch s) (i : Nat) :
    Representation s.clsRule (s.oftable i).cls :=
  (h.ok.cls i).representation fun _ hr => h.ok.zeroWildcards hr

theorem sampleBridge_representation :
    Reachable ZeroMatch sampleBridge ∧ ecallOftableClsCount sampleBridge 0 = 2 ∧
      Representation sampleBridge.clsRule (sampleBridge.oftable 0).cls :=
  ⟨sampleBridge_reachable, by decide +kernel, oftable_representation sampleBridge_reachable 0⟩

end Representation

/-! ## Lookup -/

/-- What a lookup finds in a bridge that keeps the invariant. -/
theorem EnclaveOk.clsLookup {s : Enclave} (h : EnclaveOk ZeroMatch s) (i : Nat) (flow : Flow)
    (wc : Option FlowWildcards) :
    ((ecallOftableClsLookup s i flow wc).1 = none ↔
      ∀ r ∈ s.rules i, ¬ (s.clsRule r).Matches flow) ∧
    ∀ a, (ecallOftableClsLookup s i flow wc).1 = some a →
      ∃ r ∈ s.rules i, s.LiveRule r ∧ s.oClsRule r = a ∧ (s.clsRule r).Matches flow ∧
        ∀ q ∈ s.rules i, (s.clsRule q).Matches flow →
          (s.clsRule q).priority ≤ (s.clsRule r).priority := by
  have hcls := h.cls i
  have hzero : ∀ r ∈ (s.oftable i).cls.rules, ZeroWildcards (s.clsRule r).match :=
    fun _ hr => h.zeroWildcards hr
  have hfst : (ecallOftableClsLookup s i flow wc).1
      = (classifierLookup s.clsRule (s.oftable i).cls flow wc).1.map s.oClsRule := rfl
  rw [hfst]
  constructor
  · rw [Option.map_eq_none_iff]
    exact classifierLookup_eq_none hcls hzero flow wc
  · intro a ha
    obtain ⟨r, hr, rfl⟩ := Option.map_eq_some_iff.mp ha
    obtain ⟨hmem, hmatch, hbest⟩ := classifierLookup_some hcls hzero hr
    exact ⟨r, hmem, h.live i r hmem, rfl, hmatch, hbest⟩

/-- In every reachable bridge, `ecall_oftable_cls_lookup` finds nothing exactly when no
installed rule matches, and otherwise the address of an installed rule that matches
with the highest priority of all those. -/
theorem ecallOftableClsLookup_correct {s : Enclave} (h : Reachable ZeroMatch s) (i : Nat) (flow : Flow)
    (wc : Option FlowWildcards) :
    ((ecallOftableClsLookup s i flow wc).1 = none ↔
      ∀ r ∈ s.rules i, ¬ (s.clsRule r).Matches flow) ∧
    ∀ a, (ecallOftableClsLookup s i flow wc).1 = some a →
      ∃ r ∈ s.rules i, s.LiveRule r ∧ s.oClsRule r = a ∧ (s.clsRule r).Matches flow ∧
        ∀ q ∈ s.rules i, (s.clsRule q).Matches flow →
          (s.clsRule q).priority ≤ (s.clsRule r).priority :=
  h.ok.clsLookup i flow wc

/-- The more specific of the two rules of the sample bridge wins. -/
theorem sampleBridge_lookup :
    Reachable ZeroMatch sampleBridge ∧
      (ecallOftableClsLookup sampleBridge 0 (fun _ => 7#32) none).1 = some 1#64 ∧
      ∃ r ∈ sampleBridge.rules 0, sampleBridge.LiveRule r ∧ sampleBridge.oClsRule r = 1#64 ∧
        (sampleBridge.clsRule r).Matches (fun _ => 7#32) ∧
        ∀ q ∈ sampleBridge.rules 0, (sampleBridge.clsRule q).Matches (fun _ => 7#32) →
          (sampleBridge.clsRule q).priority ≤ (sampleBridge.clsRule r).priority := by
  have hfound : (ecallOftableClsLookup sampleBridge 0 (fun _ => 7#32) none).1 = some 1#64 := by
    decide +kernel
  exact ⟨sampleBridge_reachable, hfound,
    (ecallOftableClsLookup_correct sampleBridge_reachable 0 (fun _ => 7#32) none).2 _ hfound⟩

/-- A flow that agrees with `f` on the mask that the lookup of `f` leaves behind is
answered alike and leaves the same mask, in any state of any table. -/
theorem ecallOftableClsLookup_megaflow {s : Enclave} {i : Nat} {f g : Flow}
    {wc wc' : FlowWildcards} (hwc : (ecallOftableClsLookup s i f (some wc)).2 = some wc')
    (h : AgreeOn wc'.masks f g) :
    ecallOftableClsLookup s i g (some wc) = ecallOftableClsLookup s i f (some wc) := by
  have := @classifierLookup_congr s.clsRule (s.oftable i).cls f g wc wc' hwc h
  simp only [ecallOftableClsLookup, this]

/-- In the sample bridge only the first word is looked at when it is 7. -/
theorem sampleBridge_megaflow :
    AgreeOn (matchFirstWord 7#32).wc.masks (fun _ => 7#32) (matchFirstWord 7#32).flow ∧
    ecallOftableClsLookup sampleBridge 0 (matchFirstWord 7#32).flow (some ⟨fun _ => 0#32⟩)
      = ecallOftableClsLookup sampleBridge 0 (fun _ => 7#32) (some ⟨fun _ => 0#32⟩) := by
  have hagree : AgreeOn (matchFirstWord 7#32).wc.masks (fun _ => 7#32)
      (matchFirstWord 7#32).flow := by
    unfold AgreeOn
    decide +kernel
  have hinj : Function.Injective fun w : FlowWildcards => List.ofFn w.masks := by
    rintro ⟨a⟩ ⟨b⟩ hab
    exact congrArg _ (List.ofFn_injective hab)
  have hwc : (ecallOftableClsLookup sampleBridge 0 (fun _ => 7#32) (some ⟨fun _ => 0#32⟩)).2
      = some (matchFirstWord 7#32).wc := Option.map_injective hinj (by decide +kernel)
  exact ⟨hagree, ecallOftableClsLookup_megaflow hwc hagree⟩

end OvsSgx
