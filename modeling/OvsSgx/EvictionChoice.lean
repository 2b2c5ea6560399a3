/-
OvsSgx.EvictionChoice — which rule an eviction takes.

`ecall_choose_rule_to_evict` walks over the heap of groups and, in each
group, over the heap of rules, and takes the first evictable rule. No rule
of a bridge has lost its flag between two calls, so that is the root of the
root. `ecall_choose_rule_to_evict_p` takes the flag away from one rule for
the time of the walk, which then passes by that rule, and by a whole group if
there is nothing else in it.
-/
import OvsSgx.EvictionReachable

namespace OvsSgx

/-! ## Searching with fewer candidates -/

section Searches

variable {α γ : Type} {p q : α → Bool} {a : α}

theorem find?_of_imp {l : List α} (hpq : ∀ x, q x = true → p x = true)
    (h : l.find? p = some a) (ha : q a = true) : l.find? q = some a := by
  induction l with
  | nil => cases h
  | cons x l ih =>
    by_cases hp : p x = true
    · rw [List.find?_cons_of_pos hp] at h
      cases h
      exact List.find?_cons_of_pos ha
    · rw [List.find?_cons_of_neg hp] at h
      rw [List.find?_cons_of_neg fun hq => hp (hpq x hq)]
      exact ih h

/-- The first hit of a nested search stays the first one among fewer candidates. -/
theorem findSome?_of_imp {l : List γ} {m : γ → List α} (hpq : ∀ x, q x = true → p x = true)
    (h : (l.findSome? fun g => (m g).find? p) = some a) (ha : q a = true) :
    (l.findSome? fun g => (m g).find? q) = some a := by
  induction l with
  | nil => cases h
  | cons g l ih =>
    rw [List.findSome?_cons] at h ⊢
    cases hg : (m g).find? p with
    | some x =>
      rw [hg, Option.some.injEq] at h
      subst h
      rw [find?_of_imp hpq hg ha]
    | none =>
      rw [hg] at h
      have hq : (m g).find? q = none := by
        rw [List.find?_eq_none] at hg ⊢
        exact fun x hx hqx => hg x hx (hpq x hqx)
      rw [hq]
      exact ih h

end Searches

/-! ## The choice with an immune rule -/

/-- `sgx_cls_rule->evictable = evictable`. -/
def Enclave.setEvictable (s : Enclave) (r : RuleId) (evictable : Bool) : Enclave :=
  { s with evictable := Function.update s.evictable r evictable }

/-- `ecall_choose_rule_to_evict_p`, with the flag of the replacer taken away and put back. -/
def immuneChoice (s : Enclave) (i : Nat) (replacer : UtAddr) :
    Option (Enclave × Option UtAddr) := do
  let r ← sgxRuleFromUtCr s replacer
  let wasEvictable := s.evictable r
  let s := s.setEvictable r false
  let utCr := ecallChooseRuleToEvict s i
  return (s.setEvictable r wasEvictable, utCr)

/-- Rule `r` is one of greatest priority in a group of greatest size priority. -/
def Enclave.TopChoice (s : Enclave) (i : Nat) (r : RuleId) : Prop :=
  ∃ g ∈ s.groups i, s.evictGroup r = some g ∧
    (∀ g' ∈ s.groups i, (s.sizeNode g').priority ≤ (s.sizeNode g).priority) ∧
    ∀ q, s.evictGroup q = some g → (s.ruleEvgNode q).priority ≤ (s.ruleEvgNode r).priority

section Choice

variable {P : Match → Prop} {s : Enclave} {i : Nat} {a : UtAddr} {r : RuleId}

theorem setEvictable_restore : (s.setEvictable r false).setEvictable r (s.evictable r) = s := by
  simp [Enclave.setEvictable]

/-- The flags are as before, and the choice is that of `ecallChooseRuleToEvictP`. -/
theorem immuneChoice_eq :
    immuneChoice s i a = (ecallChooseRuleToEvictP s i a).map fun choice => (s, choice) := by
  unfold immuneChoice ecallChooseRuleToEvictP
  cases hr : sgxRuleFromUtCr s a with
  | none => rfl
  | some r =>
    simp only [Option.bind_eq_bind, Option.bind_some, setEvictable_restore]
    rfl

theorem BridgeOk.grouped_evictable (h : BridgeOk P s) (hr : s.GroupedIn i r) :
    s.evictable r = true :=
  h.allEvictable r (h.live i r (h.installed i r hr))

theorem BridgeOk.not_grouped_of_disabled (h : BridgeOk P s)
    (hdis : (s.oftable i).evictionFields = none) : ¬ s.GroupedIn i r := by
  intro hr
  obtain ⟨g, hg, -⟩ := hr
  rw [h.eviction.disabled i hdis] at hg
  cases hg

/-- Nothing is chosen exactly if no rule of the table is in a group. -/
theorem BridgeOk.choose_none (h : BridgeOk P s) :
    ecallChooseRuleToEvict s i = none ↔ ∀ r, ¬ s.GroupedIn i r := by
  by_cases hdis : (s.oftable i).evictionFields = none
  · have hnone : ecallChooseRuleToEvict s i = none := by
      simp [ecallChooseRuleToEvict, ecallIsEvictionFieldsEnabled, hdis]
    exact iff_of_true hnone fun r => h.not_grouped_of_disabled hdis
  · rw [ecallChooseRuleToEvict_eq_none h.eviction hdis]
    constructor
    · intro hall r hr
      have := hall r hr
      rw [h.grouped_evictable hr] at this
      cases this
    · intro hno r hr
      exact absurd hr (hno r)

/-- The walk over the groups starts with a group of greatest size priority. -/
theorem EvictionOk.groups_head (h : EvictionOk s) (hne : s.groups i ≠ []) :
    ∃ g l, heapForEach (s.oftable i).evictionGroupsBySize s.sizeNode = g :: l ∧ g ∈ s.groups i ∧
      ∀ g' ∈ s.groups i, (s.sizeNode g').priority ≤ (s.sizeNode g).priority := by
  have hn : 0 < (s.oftable i).evictionGroupsBySize.n := by
    obtain ⟨g, hg⟩ := List.exists_mem_of_ne_nil _ hne
    obtain ⟨k, h1, h2, -⟩ := (h.sizeMem i g).mpr hg
    exact Nat.lt_of_lt_of_le h1 h2
  obtain ⟨g, l, hwalk, hg, hmax⟩ := heapForEach_head (h.sizeOk i) hn
  exact ⟨g, l, hwalk, (h.sizeMem i g).mp hg, fun g' hg' => hmax g' ((h.sizeMem i g').mpr hg')⟩

/-- The walk over a group starts with a rule of greatest priority. -/
theorem EvictionOk.rules_head (h : EvictionOk s) {g : EvgId} (hg : g ∈ s.groups i) :
    ∃ r l, heapForEach (s.evgRules g) s.ruleEvgNode = r :: l ∧ s.evictGroup r = some g ∧
      ∀ q, s.evictGroup q = some g → (s.ruleEvgNode q).priority ≤ (s.ruleEvgNode r).priority := by
  obtain ⟨r, l, hwalk, hr, hmax⟩ :=
    heapForEach_head (h.rulesOk i g hg) (h.nonempty i g hg (by simp))
  exact ⟨r, l, hwalk, (h.rulesMem i g hg r).mp hr, fun q hq =>
    hmax q ((h.rulesMem i g hg q).mpr hq)⟩

/-- What is chosen is the root of the root. -/
theorem BridgeOk.choose_top (h : BridgeOk P s) (hs : ecallChooseRuleToEvict s i = some a) :
    ∃ r, s.oClsRule r = a ∧ s.TopChoice i r := by
  obtain ⟨q, -, hq, -⟩ := ecallChooseRuleToEvict_some h.eviction hs
  obtain ⟨g0, hg0, -⟩ := hq
  obtain ⟨g, gs, hgroups, hg, hsize⟩ := h.eviction.groups_head (List.ne_nil_of_mem hg0)
  obtain ⟨r, rs, hrules, hr, hprio⟩ := h.eviction.rules_head hg
  have hev := h.grouped_evictable ⟨g, hg, hr⟩
  refine ⟨r, ?_, g, hg, hr, hsize, hprio⟩
  unfold ecallChooseRuleToEvict at hs
  split at hs
  · cases hs
  · rw [hgroups, List.findSome?_cons, hrules, List.find?_cons_of_pos hev] at hs
    simpa using hs

/-- Another rule than the immune one is chosen as before. -/
theorem BridgeOk.immune_same (h : BridgeOk P s) {b : UtAddr} (hr : s.LiveRule r)
    (hb : ecallChooseRuleToEvict s i = some b) (hne : b ≠ s.oClsRule r) :
    ecallChooseRuleToEvictP s i (s.oClsRule r) = some (some b) := by
  have hlook := h.shadows.lookup_self hr
  unfold ecallChooseRuleToEvictP
  rw [hlook, Option.bind_eq_bind, Option.bind_some]
  unfold ecallChooseRuleToEvict at hb ⊢
  split at hb
  · cases hb
  · rename_i hen
    obtain ⟨q, hq, rfl⟩ := Option.map_eq_some_iff.mp hb
    have hqr : q ≠ r := by
      intro heq
      exact hne (by rw [heq])
    have hev : s.evictable q = true := by
      obtain ⟨g, -, hg⟩ := List.exists_of_findSome?_eq_some hq
      exact List.find?_some hg
    have hfewer : ∀ x, Function.update s.evictable r false x = true → s.evictable x = true := by
      intro x hx
      by_cases hxr : x = r
      · subst hxr
        simp at hx
      · rwa [Function.update_of_ne hxr] at hx
    have hsame := findSome?_of_imp hfewer hq (by rw [Function.update_of_ne hqr]; exact hev)
    show some (if (!ecallIsEvictionFieldsEnabled s i) = true then none else _) = _
    rw [if_neg hen]
    exact congrArg (fun c => some (Option.map s.oClsRule c)) hsame

/-- With an immune rule, nothing is chosen exactly if no other rule is in a group, and
otherwise another one. -/
theorem BridgeOk.immune_cases (h : BridgeOk P s) (hr : s.LiveRule r) :
    ∃ choice, ecallChooseRuleToEvictP s i (s.oClsRule r) = some choice ∧
      (choice = none ↔ ∀ q, s.GroupedIn i q → q = r) ∧
      ∀ b, choice = some b → b ≠ s.oClsRule r ∧
        ∃ q, s.GroupedIn i q ∧ q ≠ r ∧ s.oClsRule q = b := by
  obtain hnone | hsome := ecallChooseRuleToEvictP_cases (i := i) h (h.shadows.lookup_self hr)
  · obtain ⟨hcall, hall⟩ := hnone
    exact ⟨none, hcall, iff_of_true rfl hall, fun b hb => absurd hb (by simp)⟩
  · obtain ⟨q, hcall, hq, hqr⟩ := hsome
    have hlive := h.live i q (h.installed i q hq)
    refine ⟨some (s.oClsRule q), hcall, iff_of_false (by simp) fun hall => hqr (hall q hq), ?_⟩
    intro b hb
    cases hb
    exact ⟨fun haddr => hqr (h.shadows.inj hlive hr (congrArg addrHash haddr)), q, hq, hqr, rfl⟩

end Choice

/-- The choice of the rule to evict, with and without an immune rule. -/
theorem chooseRuleToEvict_choice {s : Enclave} (h : GroupsReachable s) (i : Nat) :
    (ecallChooseRuleToEvict s i = none ↔
      (s.oftable i).evictionFields = none ∨ ∀ r, ¬ s.GroupedIn i r) ∧
    (∀ a, ecallChooseRuleToEvict s i = some a → ∃ r, s.oClsRule r = a ∧ s.TopChoice i r) ∧
    ∀ r, s.LiveRule r → ∃ s' choice, immuneChoice s i (s.oClsRule r) = some (s', choice) ∧
      (choice = none ↔ ∀ q, s.GroupedIn i q → q = r) ∧
      (∀ b, choice = some b → b ≠ s.oClsRule r ∧
        ∃ q, s.GroupedIn i q ∧ q ≠ r ∧ s.oClsRule q = b) ∧
      (∀ b, ecallChooseRuleToEvict s i = some b → b ≠ s.oClsRule r → choice = some b) ∧
      s'.evictable = s.evictable := by
  have hb := h.bridge
  refine ⟨hb.choose_none.trans ⟨Or.inr, ?_⟩, fun a => hb.choose_top, fun r hr => ?_⟩
  · intro hno
    obtain hdis | hno := hno
    · exact fun r => hb.not_grouped_of_disabled hdis
    · exact hno
  · obtain ⟨choice, hcall, hnone, hsome⟩ := hb.immune_cases (i := i) hr
    refine ⟨s, choice, by rw [immuneChoice_eq, hcall]; rfl, hnone, hsome, fun b hbc hne => ?_, rfl⟩
    have := hb.immune_same hr hbc hne
    rw [hcall] at this
    exact Option.some.inj this

/-- Rules 0 and 1 are in one group and rule 2 in another: a choice for which the rule that is
chosen otherwise is immune. -/
theorem evictingBridge_choice :
    ∃ s' choice, immuneChoice evictingBridge 0 (evictingBridge.oClsRule 0) = some (s', choice) ∧
      choice ≠ none ∧ s'.evictable = evictingBridge.evictable := by
  have hlive : evictingBridge.LiveRule 0 := by
    unfold Enclave.LiveRule
    decide +kernel
  obtain ⟨s', choice, hcall, hnone, -, -, hflags⟩ :=
    (chooseRuleToEvict_choice evictingBridge_reachable 0).2.2 0 hlive
  refine ⟨s', choice, hcall, fun hc => ?_, hflags⟩
  have hgrouped : evictingBridge.GroupedIn 0 1 := by
    unfold Enclave.GroupedIn
    decide +kernel
  exact absurd (hnone.mp hc 1 hgrouped) (by decide)

end OvsSgx
