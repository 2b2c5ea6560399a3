/-
OvsSgx.EnclaveTheorems — the shadow map and the classifiers under the ecalls.

`ShadowsOk` says that `SGX_hmap_table` maps each live address to its own
shadow, which needs the live addresses to differ in their low 32 bits;
`EnclaveOk` adds the classifier invariant of every table and that an
installed rule is live. The eviction ecalls touch none of this
(`SameRules`), so the invariant needs no knowledge of eviction groups.
-/
import OvsSgx.Enclave
import OvsSgx.ClassifierTheorems

namespace OvsSgx

/-! ## Definitions -/

/-- Shadow `r` is in `SGX_hmap_table`. -/
def Enclave.LiveRule (s : Enclave) (r : RuleId) : Prop := r ∈ s.clsRules.values

/-- The untrusted rule at address `a` has been initialised and not destroyed. -/
def Enclave.Live (s : Enclave) (a : UtAddr) : Prop := ∃ r, s.LiveRule r ∧ s.oClsRule r = a

/-- The rules installed in table `i`. -/
def Enclave.rules (s : Enclave) (i : Nat) : List RuleId := (s.oftable i).cls.rules

/-- The untrusted rule at address `a` is installed in table `i`. -/
def Enclave.Installed (s : Enclave) (i : Nat) (a : UtAddr) : Prop :=
  ∃ r, s.LiveRule r ∧ s.oClsRule r = a ∧ r ∈ s.rules i

instance (s : Enclave) (a : UtAddr) : Decidable (s.Live a) :=
  inferInstanceAs (Decidable (∃ r ∈ s.clsRules.values, s.oClsRule r = a))

instance (s : Enclave) (i : Nat) (a : UtAddr) : Decidable (s.Installed i a) :=
  inferInstanceAs (Decidable (∃ r ∈ s.clsRules.values, s.oClsRule r = a ∧ r ∈ s.rules i))

/-- The invariant of the shadow map. -/
structure ShadowsOk (s : Enclave) : Prop where
  hash : ∀ e ∈ s.clsRules.entries, e.1 = addrHash (s.oClsRule e.2)
  fresh : ∀ e ∈ s.clsRules.entries, e.2 < s.nextRule
  nodup : (s.clsRules.entries.map Prod.fst).Nodup

/-- The invariant of the rules of a bridge, all of them built from matches with the
property `P`. -/
structure EnclaveOk (P : Match → Prop) (s : Enclave) : Prop where
  shadows : ShadowsOk s
  cls : ∀ i, ClassifierOk s.clsRule (s.oftable i).cls
  live : ∀ i, ∀ r ∈ s.rules i, s.LiveRule r
  disjoint : ∀ i j r, r ∈ s.rules i → r ∈ s.rules j → i = j
  built : ∀ r, s.LiveRule r → ∃ m, P m ∧ (s.clsRule r).match = minimatchInit m

variable {P : Match → Prop}

/-! ## The shadow map -/

section Shadows

variable {s : Enclave}

theorem liveRule_iff {r : RuleId} : s.LiveRule r ↔ ∃ h, (h, r) ∈ s.clsRules.entries := by
  unfold Enclave.LiveRule ChainMap.values
  constructor
  · intro h
    obtain ⟨e, he, rfl⟩ := List.mem_map.mp h
    exact ⟨e.1, he⟩
  · rintro ⟨h, he⟩
    exact List.mem_map.mpr ⟨_, he, rfl⟩

theorem ShadowsOk.mem_entries (h : ShadowsOk s) {r : RuleId} (hr : s.LiveRule r) :
    (addrHash (s.oClsRule r), r) ∈ s.clsRules.entries := by
  obtain ⟨k, he⟩ := liveRule_iff.mp hr
  have := h.hash _ he
  simp only at this
  rwa [← this]

theorem ShadowsOk.rule_lt (h : ShadowsOk s) {r : RuleId} (hr : s.LiveRule r) : r < s.nextRule :=
  h.fresh _ (h.mem_entries hr)

/-- The lookup by low 32 bits finds the only entry with these bits. -/
theorem ShadowsOk.lookup (h : ShadowsOk s) {a : UtAddr} {r : RuleId} :
    sgxRuleFromUtCr s a = some r ↔ (addrHash a, r) ∈ s.clsRules.entries := by
  unfold sgxRuleFromUtCr
  constructor
  · intro hh
    exact ChainMap.mem_withHash.mp (List.mem_of_mem_head? (by rw [hh]; rfl))
  · intro he
    cases hw : s.clsRules.withHash (addrHash a) with
    | nil =>
      have := ChainMap.mem_withHash.mpr he
      rw [hw] at this
      exact absurd this (by simp)
    | cons q l =>
      have hq : (addrHash a, q) ∈ s.clsRules.entries := ChainMap.mem_withHash.mp (by rw [hw]; simp)
      have := List.inj_on_of_nodup_map h.nodup he hq rfl
      simp only [Prod.mk.injEq, true_and] at this
      rw [List.head?_cons, this]

/-- The shadow of a live rule is found by its own address. -/
theorem ShadowsOk.lookup_self (h : ShadowsOk s) {r : RuleId} (hr : s.LiveRule r) :
    sgxRuleFromUtCr s (s.oClsRule r) = some r :=
  h.lookup.mpr (h.mem_entries hr)

theorem ShadowsOk.live_of_lookup (h : ShadowsOk s) {a : UtAddr} {r : RuleId}
    (hr : sgxRuleFromUtCr s a = some r) : s.LiveRule r :=
  liveRule_iff.mpr ⟨_, h.lookup.mp hr⟩

/-- Two live rules with the same low 32 bits are one. -/
theorem ShadowsOk.inj (h : ShadowsOk s) {r q : RuleId} (hr : s.LiveRule r) (hq : s.LiveRule q)
    (heq : addrHash (s.oClsRule r) = addrHash (s.oClsRule q)) : r = q := by
  have h1 := h.lookup_self hr
  rw [h.lookup, heq, ← h.lookup, h.lookup_self hq] at h1
  exact (Option.some.injEq _ _ ▸ h1).symm

/-- The address of an installed rule finds that rule. -/
theorem Enclave.Installed.lookup (h : ShadowsOk s) {i : Nat} {a : UtAddr} (ha : s.Installed i a) :
    ∃ r, sgxRuleFromUtCr s a = some r ∧ s.oClsRule r = a ∧ s.LiveRule r ∧ r ∈ s.rules i := by
  obtain ⟨r, hlive, rfl, hr⟩ := ha
  exact ⟨r, h.lookup_self hlive, rfl, hlive, hr⟩

theorem Enclave.Live.lookup (h : ShadowsOk s) {a : UtAddr} (ha : s.Live a) :
    ∃ r, sgxRuleFromUtCr s a = some r ∧ s.oClsRule r = a ∧ s.LiveRule r := by
  obtain ⟨r, hlive, rfl⟩ := ha
  exact ⟨r, h.lookup_self hlive, rfl, hlive⟩

end Shadows

/-! ## Initialisation and destruction of a rule -/

section Init

variable {s : Enclave} {a : UtAddr} {m : Match} {p : Nat}

theorem ecallClsRuleInit_clsRule {r : RuleId} (hr : r ≠ s.nextRule) :
    (ecallClsRuleInit s a m p).clsRule r = s.clsRule r := by
  simp [ecallClsRuleInit, nodeInsert, hr]

theorem ecallClsRuleInit_clsRule_self :
    (ecallClsRuleInit s a m p).clsRule s.nextRule = clsRuleInit m p := by
  simp [ecallClsRuleInit, nodeInsert]

theorem ecallClsRuleInit_oClsRule {r : RuleId} (hr : r ≠ s.nextRule) :
    (ecallClsRuleInit s a m p).oClsRule r = s.oClsRule r := by
  simp [ecallClsRuleInit, nodeInsert, hr]

theorem ecallClsRuleInit_oClsRule_self :
    (ecallClsRuleInit s a m p).oClsRule s.nextRule = a := by
  simp [ecallClsRuleInit, nodeInsert]

theorem ecallClsRuleInit_oftable : (ecallClsRuleInit s a m p).oftable = s.oftable := rfl

theorem ecallClsRuleInit_entries :
    (ecallClsRuleInit s a m p).clsRules.entries.Perm
      ((addrHash a, s.nextRule) :: s.clsRules.entries) :=
  entries_hmapInsert_perm _ _ _

theorem ecallClsRuleInit_liveRule {r : RuleId} :
    (ecallClsRuleInit s a m p).LiveRule r ↔ r = s.nextRule ∨ s.LiveRule r := by
  have := (ecallClsRuleInit_entries (s := s) (a := a) (m := m) (p := p)).map Prod.snd
  unfold Enclave.LiveRule ChainMap.values
  rw [this.mem_iff, List.map_cons, List.mem_cons]

/-- A new address keeps the shadow map in order. -/
theorem ecallClsRuleInit_shadows (h : ShadowsOk s)
    (hnew : ∀ b, s.Live b → addrHash b ≠ addrHash a) : ShadowsOk (ecallClsRuleInit s a m p) := by
  have hent := ecallClsRuleInit_entries (s := s) (a := a) (m := m) (p := p)
  have hold : ∀ e ∈ s.clsRules.entries, e.2 ≠ s.nextRule := fun e he => Nat.ne_of_lt (h.fresh e he)
  refine ⟨fun e he => ?_, fun e he => ?_, ?_⟩
  · rcases List.mem_cons.mp (hent.mem_iff.mp he) with rfl | he
    · rw [ecallClsRuleInit_oClsRule_self]
    · rw [ecallClsRuleInit_oClsRule (hold e he)]
      exact h.hash e he
  · show e.2 < s.nextRule + 1
    rcases List.mem_cons.mp (hent.mem_iff.mp he) with rfl | he
    · exact Nat.lt_succ_self _
    · exact Nat.lt_succ_of_lt (h.fresh e he)
  · rw [(hent.map _).nodup_iff, List.map_cons, List.nodup_cons]
    refine ⟨fun hmem => ?_, h.nodup⟩
    obtain ⟨e, he, heq⟩ := List.mem_map.mp hmem
    refine hnew (s.oClsRule e.2) ⟨e.2, liveRule_iff.mpr ⟨e.1, he⟩, rfl⟩ ?_
    rw [← h.hash e he, heq]

theorem ecallClsRuleInit_lookup (h : ShadowsOk s)
    (hnew : ∀ b, s.Live b → addrHash b ≠ addrHash a) :
    sgxRuleFromUtCr (ecallClsRuleInit s a m p) a = some s.nextRule := by
  rw [(ecallClsRuleInit_shadows h hnew).lookup]
  exact ecallClsRuleInit_entries.mem_iff.mpr (by simp)

theorem EnclaveOk.nextRule_not_mem (h : EnclaveOk P s) (i : Nat) : s.nextRule ∉ s.rules i :=
  fun hm => Nat.lt_irrefl _ (h.shadows.rule_lt (h.live i _ hm))

theorem ecallClsRuleInit_ok (h : EnclaveOk P s) (hnew : ∀ b, s.Live b → addrHash b ≠ addrHash a)
    (hm : P m) : EnclaveOk P (ecallClsRuleInit s a m p) := by
  refine ⟨ecallClsRuleInit_shadows h.shadows hnew, fun i => ?_, fun i r hr => ?_,
    fun i j r hi hj => h.disjoint i j r hi hj, fun r hr => ?_⟩
  · exact (h.cls i).congr fun r hr => ecallClsRuleInit_clsRule
      (ne_of_mem_of_not_mem hr (h.nextRule_not_mem i))
  · exact ecallClsRuleInit_liveRule.mpr (.inr (h.live i r hr))
  · rcases ecallClsRuleInit_liveRule.mp hr with rfl | hr
    · rw [ecallClsRuleInit_clsRule_self]
      exact ⟨m, hm, rfl⟩
    · rw [ecallClsRuleInit_clsRule (Nat.ne_of_lt (h.shadows.rule_lt hr))]
      exact h.built r hr

end Init

section Destroy

variable {s : Enclave} {r : RuleId}

/-- Destroying a live rule unlinks its own shadow. -/
theorem ecallClsRuleDestroy_eq (h : ShadowsOk s) (hr : s.LiveRule r) :
    ecallClsRuleDestroy s (s.oClsRule r)
      = some { s with clsRules := hmapRemove s.clsRules r (addrHash (s.oClsRule r)) } := by
  have := h.lookup_self hr
  simp [ecallClsRuleDestroy, nodeDelete, this]

theorem destroy_entries (h : ShadowsOk s) (hr : s.LiveRule r) :
    (hmapRemove s.clsRules r (addrHash (s.oClsRule r))).entries
      = s.clsRules.entries.erase (addrHash (s.oClsRule r), r) :=
  ChainMap.entries_erase (h.mem_entries hr)

theorem ShadowsOk.entries_nodup (h : ShadowsOk s) : s.clsRules.entries.Nodup :=
  h.nodup.of_map _

theorem destroy_liveRule (h : ShadowsOk s) (hr : s.LiveRule r) {q : RuleId} :
    Enclave.LiveRule { s with clsRules := hmapRemove s.clsRules r (addrHash (s.oClsRule r)) } q ↔
      q ≠ r ∧ s.LiveRule q := by
  rw [liveRule_iff]
  simp only [destroy_entries h hr, h.entries_nodup.mem_erase_iff]
  constructor
  · rintro ⟨k, hne, he⟩
    refine ⟨?_, liveRule_iff.mpr ⟨k, he⟩⟩
    rintro rfl
    have := h.hash _ he
    simp only at this
    exact hne (by rw [this])
  · rintro ⟨hne, hq⟩
    refine ⟨_, fun heq => hne ?_, h.mem_entries hq⟩
    exact (Prod.mk.inj heq).2

theorem destroy_shadows (h : ShadowsOk s) (hr : s.LiveRule r) :
    ShadowsOk { s with clsRules := hmapRemove s.clsRules r (addrHash (s.oClsRule r)) } := by
  have hsub : ∀ e ∈ (hmapRemove s.clsRules r (addrHash (s.oClsRule r))).entries,
      e ∈ s.clsRules.entries := fun e he => by
    rw [destroy_entries h hr] at he
    exact List.mem_of_mem_erase he
  refine ⟨fun e he => h.hash e (hsub e he), fun e he => h.fresh e (hsub e he), ?_⟩
  show ((hmapRemove s.clsRules r (addrHash (s.oClsRule r))).entries.map Prod.fst).Nodup
  rw [destroy_entries h hr]
  exact h.nodup.sublist (List.erase_sublist.map _)

theorem destroy_ok (h : EnclaveOk P s) (hr : s.LiveRule r) (hnot : ∀ i, r ∉ s.rules i) :
    EnclaveOk P { s with clsRules := hmapRemove s.clsRules r (addrHash (s.oClsRule r)) } := by
  refine ⟨destroy_shadows h.shadows hr, h.cls, fun i q hq => ?_, h.disjoint, fun q hq => ?_⟩
  · exact (destroy_liveRule h.shadows hr).mpr ⟨ne_of_mem_of_not_mem hq (hnot i), h.live i q hq⟩
  · exact h.built q ((destroy_liveRule h.shadows hr).mp hq).2

end Destroy

/-! ## Replacement and removal in a classifier -/

section Cls

variable {s : Enclave} {i : Nat} {r : RuleId}

theorem setOftable_oftable_self (s : Enclave) (i : Nat) (tbl : Oftable) :
    (s.setOftable i tbl).oftable i = tbl := Function.update_self _ _ _

theorem setOftable_oftable_ne (s : Enclave) {i j : Nat} (tbl : Oftable) (h : j ≠ i) :
    (s.setOftable i tbl).oftable j = s.oftable j := Function.update_of_ne h _ _

theorem setOftable_rules (s : Enclave) (i : Nat) (cls : Classifier) (j : Nat) :
    (s.setOftable i { s.oftable i with cls := cls }).rules j
      = if j = i then cls.rules else s.rules j := by
  unfold Enclave.rules
  split
  · rename_i h; subst h; rw [setOftable_oftable_self]
  · rename_i h; rw [setOftable_oftable_ne _ _ h]

/-- Removing an installed rule: the call returns, and only the rules of table `i`
change, by just that rule. -/
theorem ecallClsRemove_ok (h : EnclaveOk P s) (hr : r ∈ s.rules i) :
    ∃ cls', ecallClsRemove s i (s.oClsRule r)
        = some (s.setOftable i { s.oftable i with cls := cls' }) ∧
      cls'.rules = (s.rules i).erase r ∧
      EnclaveOk P (s.setOftable i { s.oftable i with cls := cls' }) := by
  obtain ⟨cls', hrem, hok, hrules⟩ := classifierRemove_ok (h.cls i) hr
  have hlook := h.shadows.lookup_self (h.live i r hr)
  have hsub : ∀ j, ∀ q ∈ (s.setOftable i { s.oftable i with cls := cls' }).rules j,
      q ∈ s.rules j := by
    intro j q hq
    rw [setOftable_rules] at hq
    split at hq
    · rename_i hji
      subst hji
      rw [hrules] at hq
      exact List.mem_of_mem_erase hq
    · exact hq
  refine ⟨cls', by simp [ecallClsRemove, hlook, hrem], hrules,
    ⟨h.shadows.hash, h.shadows.fresh, h.shadows.nodup⟩, fun j => ?_,
    fun j q hq => h.live j q (hsub j q hq),
    fun j k q hj hk => h.disjoint j k q (hsub j q hj) (hsub k q hk), h.built⟩
  by_cases hji : j = i
  · subst hji
    rw [setOftable_oftable_self]
    exact hok
  · rw [setOftable_oftable_ne _ _ hji]
    exact h.cls j

/-- A removal that returns has removed an installed rule. -/
theorem ecallClsRemove_some (h : EnclaveOk P s) {a : UtAddr} {s' : Enclave}
    (hs : ecallClsRemove s i a = some s') :
    ∃ r cls', sgxRuleFromUtCr s a = some r ∧ r ∈ s.rules i ∧
      s' = s.setOftable i { s.oftable i with cls := cls' } ∧
      cls'.rules = (s.rules i).erase r ∧ EnclaveOk P s' := by
  have hs0 := hs
  simp only [ecallClsRemove, Option.bind_eq_bind, Option.bind_eq_some_iff] at hs0
  obtain ⟨r, hlook, cls0, hrem, -⟩ := hs0
  have hr := classifierRemove_some (h.cls i) hrem
  have hlive := h.shadows.live_of_lookup hlook
  have hsame : ecallClsRemove s i a = ecallClsRemove s i (s.oClsRule r) := by
    simp only [ecallClsRemove, hlook, h.shadows.lookup_self hlive]
  obtain ⟨cls', heq, hrules, hok⟩ := ecallClsRemove_ok h hr
  rw [hsame, heq, Option.some.injEq] at hs
  subst hs
  exact ⟨r, cls', hlook, hr, rfl, hrules, hok⟩

/-- The state after `ecall_oftable_classifier_replace`. -/
def replaceState (s : Enclave) (i : Nat) (r : RuleId) : Enclave :=
  { s.setOftable i { s.oftable i with cls := (classifierReplace s.clsRule (s.oftable i).cls r).1 }
    with clsRule := (classifierReplace s.clsRule (s.oftable i).cls r).2.1 }

/-- The rule that `ecall_oftable_classifier_replace` displaces. -/
def replaceVictim (s : Enclave) (i : Nat) (r : RuleId) : Option RuleId :=
  (classifierReplace s.clsRule (s.oftable i).cls r).2.2

theorem ecallOftableClassifierReplace_eq {a : UtAddr} (hlook : sgxRuleFromUtCr s a = some r) :
    ecallOftableClassifierReplace s i a
      = some (replaceState s i r, (replaceVictim s i r).map s.oClsRule) := by
  simp [ecallOftableClassifierReplace, hlook, replaceState, replaceVictim]

theorem replaceState_rules (s : Enclave) (i : Nat) (r : RuleId) (j : Nat) :
    (replaceState s i r).rules j
      = if j = i then (classifierReplace s.clsRule (s.oftable i).cls r).1.rules else s.rules j :=
  setOftable_rules s i _ j

/-- What installing a live rule that is installed nowhere does. -/
theorem replaceState_spec (h : EnclaveOk P s) (hnot : r ∉ s.rules i) :
    Replaced s.clsRule (replaceState s i r).clsRule (s.oftable i).cls
      (classifierReplace s.clsRule (s.oftable i).cls r).1 r (replaceVictim s i r) :=
  classifierReplace_ok (h.cls i) hnot

theorem mem_replaceState_rules (h : EnclaveOk P s) (hnot : r ∉ s.rules i) {q : RuleId} :
    q ∈ (replaceState s i r).rules i ↔
      q = r ∨ (q ∈ s.rules i ∧ replaceVictim s i r ≠ some q) := by
  have hspec := replaceState_spec h hnot
  rw [replaceState_rules, if_pos rfl]
  cases hv : replaceVictim s i r with
  | none =>
    rw [(hspec.added hv).1.mem_iff, List.mem_cons]
    simp [Enclave.rules]
  | some o =>
    obtain ⟨-, -, -, hperm⟩ := hspec.replaced o hv
    rw [hperm.mem_iff, List.mem_cons, (h.cls i).toTablesOk.rules_nodup.mem_erase_iff]
    simp only [Enclave.rules, ne_eq, Option.some.injEq]
    constructor
    · rintro (h1 | ⟨h1, h2⟩)
      · exact .inl h1
      · exact .inr ⟨h2, fun heq => h1 heq.symm⟩
    · rintro (h1 | ⟨h1, h2⟩)
      · exact .inl h1
      · exact .inr ⟨fun heq => h2 heq.symm, h1⟩

theorem replaceState_ok (h : EnclaveOk P s) (hlive : s.LiveRule r) (hnot : ∀ j, r ∉ s.rules j) :
    EnclaveOk P (replaceState s i r) := by
  have hspec := replaceState_spec h (hnot i)
  have hmem : ∀ j q, q ∈ (replaceState s i r).rules j → (q = r ∧ j = i) ∨ q ∈ s.rules j := by
    intro j q hq
    by_cases hji : j = i
    · subst hji
      rcases (mem_replaceState_rules h (hnot j)).mp hq with rfl | h1
      · exact .inl ⟨rfl, rfl⟩
      · exact .inr h1.1
    · rw [replaceState_rules, if_neg hji] at hq
      exact .inr hq
  refine ⟨⟨h.shadows.hash, h.shadows.fresh, h.shadows.nodup⟩, fun j => ?_, fun j q hq => ?_,
    fun j k q hj hk => ?_, fun q hq => ?_⟩
  · by_cases hji : j = i
    · subst hji
      show ClassifierOk _ ((s.setOftable j _).oftable j).cls
      rw [setOftable_oftable_self]
      exact hspec.ok
    · show ClassifierOk _ ((s.setOftable i _).oftable j).cls
      rw [setOftable_oftable_ne _ _ hji]
      exact (h.cls j).congr fun q hq => hspec.frame q (ne_of_mem_of_not_mem hq (hnot j))
  · rcases hmem j q hq with ⟨rfl, rfl⟩ | hq
    · exact hlive
    · exact h.live j q hq
  · rcases hmem j q hj with ⟨hq, hji⟩ | hj'
    · rcases hmem k q hk with ⟨-, hki⟩ | hk'
      · exact hji.trans hki.symm
      · exact absurd (hq ▸ hk') (hnot k)
    · rcases hmem k q hk with ⟨hq, -⟩ | hk'
      · exact absurd (hq ▸ hj') (hnot j)
      · exact h.disjoint j k q hj' hk'
  · rw [show (replaceState s i r).clsRule = (classifierReplace s.clsRule (s.oftable i).cls r).2.1
      from rfl]
    have := (hspec.store q).1
    rw [show ((classifierReplace s.clsRule (s.oftable i).cls r).2.1 q).match
      = (s.clsRule q).match from this]
    exact h.built q hq

end Cls

/-! ## Eviction ecalls leave the rules alone -/

/-- `s'` differs from `s` at most in the eviction groups and random numbers. -/
structure SameRules (s s' : Enclave) : Prop where
  nTables : s'.nTables = s.nTables
  clsRules : s'.clsRules = s.clsRules
  clsRule : s'.clsRule = s.clsRule
  oClsRule : s'.oClsRule = s.oClsRule
  evictable : s'.evictable = s.evictable
  nextRule : s'.nextRule = s.nextRule
  cls : ∀ i, (s'.oftable i).cls = (s.oftable i).cls
  flags : ∀ i, (s'.oftable i).flags = (s.oftable i).flags
  maxFlows : ∀ i, (s'.oftable i).maxFlows = (s.oftable i).maxFlows

theorem SameRules.refl (s : Enclave) : SameRules s s :=
  ⟨rfl, rfl, rfl, rfl, rfl, rfl, fun _ => rfl, fun _ => rfl, fun _ => rfl⟩

theorem SameRules.trans {s s' s'' : Enclave} (h : SameRules s s') (h' : SameRules s' s'') :
    SameRules s s'' :=
  ⟨h'.nTables.trans h.nTables, h'.clsRules.trans h.clsRules, h'.clsRule.trans h.clsRule,
    h'.oClsRule.trans h.oClsRule, h'.evictable.trans h.evictable, h'.nextRule.trans h.nextRule,
    fun i => (h'.cls i).trans (h.cls i), fun i => (h'.flags i).trans (h.flags i),
    fun i => (h'.maxFlows i).trans (h.maxFlows i)⟩

section Frame

variable {s s' : Enclave}

theorem SameRules.rules (h : SameRules s s') (i : Nat) : s'.rules i = s.rules i := by
  unfold Enclave.rules
  rw [h.cls i]

theorem SameRules.lookup (h : SameRules s s') (a : UtAddr) :
    sgxRuleFromUtCr s' a = sgxRuleFromUtCr s a := by
  unfold sgxRuleFromUtCr
  rw [h.clsRules]

theorem SameRules.liveRule (h : SameRules s s') {r : RuleId} : s'.LiveRule r ↔ s.LiveRule r := by
  unfold Enclave.LiveRule
  rw [h.clsRules]

theorem SameRules.shadows (h : SameRules s s') (hs : ShadowsOk s) : ShadowsOk s' :=
  ⟨by rw [h.clsRules, h.oClsRule]; exact hs.hash, by rw [h.clsRules, h.nextRule]; exact hs.fresh,
    by rw [h.clsRules]; exact hs.nodup⟩

theorem SameRules.ok (h : SameRules s s') (hs : EnclaveOk P s) : EnclaveOk P s' :=
  ⟨h.shadows hs.shadows, fun i => by rw [h.cls i, h.clsRule]; exact hs.cls i,
    fun i r hr => h.liveRule.mpr (hs.live i r (by rw [← h.rules i]; exact hr)),
    fun i j r hi hj => hs.disjoint i j r (by rw [← h.rules i]; exact hi)
      (by rw [← h.rules j]; exact hj),
    fun r hr => by rw [h.clsRule]; exact hs.built r (h.liveRule.mp hr)⟩

/-- Writing a table back with the same classifier, flags and limit, and with any
eviction data, keeps the rules. -/
theorem sameRules_setOftable (s : Enclave) (i : Nat) (tbl : Oftable)
    (hc : tbl.cls = (s.oftable i).cls) (hf : tbl.flags = (s.oftable i).flags)
    (hm : tbl.maxFlows = (s.oftable i).maxFlows) : SameRules s (s.setOftable i tbl) := by
  have hupd : ∀ {β : Type} (g : Oftable → β), g tbl = g (s.oftable i) →
      ∀ j, g ((s.setOftable i tbl).oftable j) = g (s.oftable j) := by
    intro β g hg j
    by_cases hji : j = i
    · subst hji; rw [setOftable_oftable_self]; exact hg
    · rw [setOftable_oftable_ne _ _ hji]
  exact ⟨rfl, rfl, rfl, rfl, rfl, rfl, hupd Oftable.cls hc, hupd Oftable.flags hf,
    hupd Oftable.maxFlows hm⟩

theorem sgxEvgGroupResize_sameRules {i p : Nat} {g : EvgId}
    (h : sgxEvgGroupResize s i p g = some s') : SameRules s s' := by
  simp only [sgxEvgGroupResize, Option.bind_eq_bind, Option.bind_eq_some_iff] at h
  obtain ⟨⟨heap, nodes⟩, -, h⟩ := h
  cases h
  obtain ⟨h1, h2, h3, h4, h5, h6, h7, h8, h9⟩ := sameRules_setOftable s i
    { s.oftable i with evictionGroupsBySize := heap } rfl rfl rfl
  exact ⟨h1, h2, h3, h4, h5, h6, h7, h8, h9⟩

theorem sgxEvgFind_sameRules (s : Enclave) (i : Nat) (id : U32) (p : Nat) :
    SameRules s (sgxEvgFind s i id p).1 := by
  unfold sgxEvgFind
  split
  · exact SameRules.refl s
  · obtain ⟨h1, h2, h3, h4, h5, h6, h7, h8, h9⟩ := sameRules_setOftable s i
      { s.oftable i with
        evictionGroupsById := hmapInsert (s.oftable i).evictionGroupsById s.nextEvg id.toNat
        evictionGroupsBySize := (heapInsertOvs (s.oftable i).evictionGroupsBySize s.sizeNode
          s.nextEvg p).1 } rfl rfl rfl
    exact ⟨h1, h2, h3, h4, h5, h6, h7, h8, h9⟩

theorem evgInsertRule_sameRules (s : Enclave) (g : EvgId) (r : RuleId) (node : HeapNode) (p : Nat) :
    SameRules s (evgInsertRule s g r node p) :=
  ⟨rfl, rfl, rfl, rfl, rfl, rfl, fun _ => rfl, fun _ => rfl, fun _ => rfl⟩

theorem randomUint16_sameRules (s : Enclave) : SameRules s (randomUint16 s).2 :=
  ⟨rfl, rfl, rfl, rfl, rfl, rfl, fun _ => rfl, fun _ => rfl, fun _ => rfl⟩

theorem evgUnlinkRule_sameRules {g : EvgId} {r : RuleId} (h : evgUnlinkRule s g r = some s') :
    SameRules s s' := by
  simp only [evgUnlinkRule, Option.bind_eq_bind, Option.bind_eq_some_iff] at h
  obtain ⟨hn, -, h⟩ := h
  cases h
  exact ⟨rfl, rfl, rfl, rfl, rfl, rfl, fun _ => rfl, fun _ => rfl, fun _ => rfl⟩

theorem ecallEvgAddRule_sameRules {i : Nat} {a : UtAddr} {p q : Nat} {node : HeapNode}
    (h : ecallEvgAddRule s i a p q node = some s') : SameRules s s' := by
  simp only [ecallEvgAddRule, Option.bind_eq_bind, Option.bind_eq_some_iff] at h
  obtain ⟨r, -, h⟩ := h
  split at h
  · exact absurd h (by simp)
  · have hfind := sgxEvgFind_sameRules s i (evictionGroupHashRule (s.oftable i) (s.clsRule r)) p
    exact hfind.trans (((evgInsertRule_sameRules ..).trans (randomUint16_sameRules _)).trans
      (sgxEvgGroupResize_sameRules h))

theorem sgxEvgDestroy_sameRules {i : Nat} {g : EvgId} (h : sgxEvgDestroy s i g = some s') :
    SameRules s s' := by
  simp only [sgxEvgDestroy, Option.bind_eq_bind] at h
  split at h
  · rw [Option.bind_eq_some_iff] at h
    obtain ⟨⟨heap, nodes⟩, -, h⟩ := h
    cases h
    obtain ⟨h1, h2, h3, h4, h5, h6, h7, h8, h9⟩ := sameRules_setOftable s i
      { s.oftable i with
        evictionGroupsById := hmapRemove (s.oftable i).evictionGroupsById g (s.evgId g).toNat
        evictionGroupsBySize := heap } rfl rfl rfl
    exact ⟨h1, h2, h3, h4, h5, h6, h7, h8, h9⟩
  · exact absurd h (by simp)

theorem ecallEvgRemoveRule_sameRules {i : Nat} {a : UtAddr}
    (h : ecallEvgRemoveRule s i a = some s') : SameRules s s' := by
  simp only [ecallEvgRemoveRule, Option.bind_eq_bind, Option.bind_eq_some_iff] at h
  obtain ⟨r, -, h⟩ := h
  split at h
  · cases h
    exact SameRules.refl s
  · rw [Option.bind_eq_some_iff] at h
    obtain ⟨s1, h1, h⟩ := h
    refine (evgUnlinkRule_sameRules h1).trans ?_
    split at h
    · exact sgxEvgDestroy_sameRules h
    · exact (randomUint16_sameRules s1).trans (sgxEvgGroupResize_sameRules h)

theorem foldlM_destroy_sameRules {i : Nat} : ∀ (l : List EvgId) {s s' : Enclave},
    l.foldlM (fun s g => sgxEvgDestroy s i g) s = some s' → SameRules s s'
  | [], s, s', h => by cases h; exact SameRules.refl s
  | g :: l, s, s', h => by
      rw [List.foldlM_cons, Option.bind_eq_bind, Option.bind_eq_some_iff] at h
      obtain ⟨s1, h1, h2⟩ := h
      exact (sgxEvgDestroy_sameRules h1).trans (foldlM_destroy_sameRules l h2)

theorem ecallOftableDisableEviction_sameRules {i : Nat}
    (h : ecallOftableDisableEviction s i = some s') : SameRules s s' := by
  unfold ecallOftableDisableEviction at h
  split at h
  · cases h
    exact SameRules.refl s
  · rw [Option.bind_eq_bind, Option.bind_eq_some_iff] at h
    obtain ⟨s1, h1, h2⟩ := h
    cases h2
    exact (foldlM_destroy_sameRules _ h1).trans (sameRules_setOftable s1 i _ rfl rfl rfl)

theorem ecallOftableEnableEviction_sameRules {i : Nat} {fields : List MfSubfield} {v : U32}
    {b : Bool} (h : ecallOftableEnableEviction s i fields v = some (s', b)) : SameRules s s' := by
  unfold ecallOftableEnableEviction at h
  split at h
  · cases h
    exact SameRules.refl s
  · rw [Option.bind_eq_bind, Option.bind_eq_some_iff] at h
    obtain ⟨s1, h1, h2⟩ := h
    cases h2
    exact (ecallOftableDisableEviction_sameRules h1).trans (sameRules_setOftable s1 i _ rfl rfl rfl)

end Frame

end OvsSgx
