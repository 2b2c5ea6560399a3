/-
OvsSgx.FlowCompression — the compressed forms lose nothing.

`FlowTheorems` states the operations on compressed flows through
`miniflowGet`. Here they are stated on the expanded flows, word by word, and
the round trip of a match is taken through the enclave: initialised with a
rule, found again by the rule's address, and expanded.

Which words a compressed flow stores plays no role in any of the
statements: a word can be in the mask and not in the flow, or in one of the
two flows only.
-/
import OvsSgx.ClassifierSearch

namespace OvsSgx

/-- `ecall_minimatch_expand_and_get_priority`. -/
def ecallMinimatchExpandAndGetPriority (s : Enclave) (a : UtAddr) : Option (Match × Nat) := do
  let m ← ecallMinimatchExpand s a
  let priority ← ecallCrPriority s a
  return (m, priority)

/-! ## Word by word -/

/-- Two flows agree on the bits that a mask has. -/
def Flow.AgreeUnder (f g : Flow) (wc : FlowWildcards) : Prop :=
  ∀ k, f k &&& wc.masks k = g k &&& wc.masks k

instance (f g : Flow) (wc : FlowWildcards) : Decidable (f.AgreeUnder g wc) :=
  inferInstanceAs (Decidable (∀ k, f k &&& wc.masks k = g k &&& wc.masks k))

section Words

variable {a b : Miniflow} {mask mask' : Minimask} {f : Flow} {basis : U32}

theorem u32_apply (f : Flow) (k : Fin FLOW_U32S) : f.u32 k.val = f k := by
  simp [Flow.u32, k.isLt]

/-- The words beyond the end of a flow are zero, so it is enough to look at the others. -/
theorem forall_words {P : U32 → U32 → U32 → Prop} (hzero : P 0#32 0#32 0#32) (f g h : Flow) :
    (∀ o, P (f.u32 o) (g.u32 o) (h.u32 o)) ↔ ∀ k, P (f k) (g k) (h k) := by
  constructor
  · intro hall k
    simpa only [u32_apply] using hall k.val
  · intro hall o
    by_cases ho : o < FLOW_U32S
    · simpa only [Flow.u32, dif_pos ho] using hall ⟨o, ho⟩
    · simpa only [Flow.u32, dif_neg ho] using hzero

theorem agreeUnder_iff {f g : Flow} {wc : FlowWildcards} : f.AgreeUnder g wc ↔
    ∀ o, f.u32 o &&& wc.masks.u32 o = g.u32 o &&& wc.masks.u32 o :=
  (forall_words (P := fun x y m => x &&& m = y &&& m) rfl f g wc.masks).symm

theorem miniflowEqual_words : miniflowEqual a b = true ↔
    ∀ k, miniflowExpand a k = miniflowExpand b k := by
  rw [miniflowEqual_iff]
  constructor
  · intro hab k
    rw [hab]
  · intro hall
    refine miniflow_ext fun o => ?_
    have hexpand : miniflowExpand a = miniflowExpand b := funext hall
    rw [← u32_miniflowExpand, ← u32_miniflowExpand, hexpand]

/-- The word map of `a | b` misses only words that are zero in both masks. -/
theorem minimaskHasExtra_iff : minimaskHasExtra mask mask' = true ↔
    ∃ o, miniflowGet mask.masks o &&& miniflowGet mask'.masks o ≠ miniflowGet mask'.masks o := by
  unfold minimaskHasExtra
  rw [List.any_eq_true]
  constructor
  · rintro ⟨o, -, ho⟩
    exact ⟨o, by simpa using ho⟩
  · rintro ⟨o, ho⟩
    refine ⟨o, ?_, by simpa using ho⟩
    have hmem : o ∈ miniOffsets mask'.masks.map := by
      rw [mem_miniOffsets_iff]
      intro hzero
      exact ho (by simp [hzero])
    rw [mem_miniOffsets] at hmem ⊢
    simp only [BitVec.getLsbD_or, Bool.or_eq_true]
    exact hmem.imp (fun h => ⟨h.1, .inr h.2⟩) (fun h => ⟨h.1, h.2.1, .inr h.2.2⟩)

theorem minimaskHasExtra_words : minimaskHasExtra mask mask' = true ↔
    ∃ k, (minimaskExpand mask).masks k &&& (minimaskExpand mask').masks k
      ≠ (minimaskExpand mask').masks k := by
  have hwords := forall_words (P := fun x y _ => x &&& y = y) rfl (miniflowExpand mask.masks)
    (miniflowExpand mask'.masks) (fun _ => 0#32)
  simp only [u32_miniflowExpand] at hwords
  rw [minimaskHasExtra_iff, ← not_iff_not, not_exists, not_exists]
  simpa only [ne_eq, not_not, minimaskExpand] using hwords

theorem minimaskCombine_words (k : Fin FLOW_U32S) :
    (minimaskExpand (minimaskCombine mask mask')).masks k
      = (minimaskExpand mask).masks k &&& (minimaskExpand mask').masks k := by
  simp only [minimaskExpand, miniflowExpand_apply, miniflowGet_minimaskCombine]

theorem miniflowEqualInMinimask_words : miniflowEqualInMinimask a b mask = true ↔
    (miniflowExpand a).AgreeUnder (miniflowExpand b) (minimaskExpand mask) := by
  rw [miniflowEqualInMinimask_iff, agreeUnder_iff]
  simp only [minimaskExpand, u32_miniflowExpand]

theorem miniflowEqualFlowInMinimask_words : miniflowEqualFlowInMinimask a f mask = true ↔
    (miniflowExpand a).AgreeUnder f (minimaskExpand mask) := by
  rw [miniflowEqualFlowInMinimask_iff, agreeUnder_iff]
  simp only [minimaskExpand, u32_miniflowExpand, xor_and_eq_zero_iff]

theorem hashInMinimask_words (h : (miniflowExpand a).AgreeUnder f (minimaskExpand mask)) :
    miniflowHashInMinimask a mask basis = flowHashInMinimask f mask basis := by
  rw [agreeUnder_iff] at h
  simp only [minimaskExpand, u32_miniflowExpand] at h
  exact hashInMinimask_congr h

end Words

/-! ## The round trip through a shadow -/

section RoundTrip

variable {s : Enclave} {a : UtAddr} {m : Match} {p : Nat}

theorem expandAndGetPriority_init (h : ShadowsOk s) (hnew : s.NewAddr a) :
    ecallMinimatchExpandAndGetPriority (ecallClsRuleInit s a m p) a = some (m, p) := by
  have hfound := ecallClsRuleInit_lookup (m := m) (p := p) h hnew
  have hshadow := ecallClsRuleInit_clsRule_self (s := s) (a := a) (m := m) (p := p)
  simp [ecallMinimatchExpandAndGetPriority, ecallMinimatchExpand, ecallCrPriority, hfound, hshadow,
    clsRuleInit, minimatchExpand_minimatchInit]

/-- A match and its priority come back as they were, and what the classifier asks of compressed
flows and masks is what the expanded ones answer word by word. -/
theorem compression_faithful (h : GroupsReachable s) (hnew : s.NewAddr a) (m : Match) (p : Nat) :
    ecallMinimatchExpandAndGetPriority (ecallClsRuleInit s a m p) a = some (m, p) ∧
    (∀ f g : Miniflow, miniflowEqual f g = true ↔
      ∀ k, miniflowExpand f k = miniflowExpand g k) ∧
    (∀ wc wc' : Minimask, minimaskHasExtra wc wc' = true ↔
      ∃ k, (minimaskExpand wc).masks k &&& (minimaskExpand wc').masks k
        ≠ (minimaskExpand wc').masks k) ∧
    (∀ (wc wc' : Minimask) k, (minimaskExpand (minimaskCombine wc wc')).masks k
      = (minimaskExpand wc).masks k &&& (minimaskExpand wc').masks k) ∧
    (∀ (f g : Miniflow) (wc : Minimask), miniflowEqualInMinimask f g wc = true ↔
      (miniflowExpand f).AgreeUnder (miniflowExpand g) (minimaskExpand wc)) ∧
    (∀ (f : Miniflow) (packet : Flow) (wc : Minimask),
      miniflowEqualFlowInMinimask f packet wc = true ↔
        (miniflowExpand f).AgreeUnder packet (minimaskExpand wc)) ∧
    (∀ (f : Miniflow) (packet : Flow) (wc : Minimask) (basis : U32),
      (miniflowExpand f).AgreeUnder packet (minimaskExpand wc) →
        miniflowHashInMinimask f wc basis = flowHashInMinimask packet wc basis) :=
  ⟨expandAndGetPriority_init h.bridge.shadows hnew, fun _ _ => miniflowEqual_words,
    fun _ _ => minimaskHasExtra_words, fun _ _ k => minimaskCombine_words k,
    fun _ _ _ => miniflowEqualInMinimask_words, fun _ _ _ => miniflowEqualFlowInMinimask_words,
    fun _ _ _ _ hagree => hashInMinimask_words hagree⟩

theorem evictingBridge_compression :
    evictingBridge.NewAddr 4#64 ∧ ecallMinimatchExpandAndGetPriority
      (ecallClsRuleInit evictingBridge 4#64 (matchFirstWord 9#32) 5) 4#64
        = some (matchFirstWord 9#32, 5) :=
  ⟨by decide +kernel, (compression_faithful evictingBridge_reachable (by decide +kernel) _ _).1⟩

end RoundTrip

end OvsSgx
