/-
OvsSgx.EnclaveRuns — runs of ecalls on one bridge.

`Call` is one ecall with its arguments, `exec` its effect on the state and
`Allowed` what the caller promises: a rule is initialised at an address
whose low 32 bits no live rule has, only live rules that are installed
nowhere are inserted, and only installed rules are removed. `Reachable` is
every state that a new bridge gets to by allowed calls, and `EnclaveOk`
holds in all of them.
-/
import OvsSgx.EnclaveTheorems
import OvsSgx.ClassifierLookup

namespace OvsSgx

/-! ## Calls -/

/-- An ecall that changes the state of a bridge. -/
inductive Call where
  | clsRuleInit (a : UtAddr) (m : Match) (priority : Nat)
  | clsRuleDestroy (a : UtAddr)
  | oftableClassifierReplace (i : Nat) (a : UtAddr)
  | clsRemove (i : Nat) (a : UtAddr)
  | addFlow (args : AddFlowArgs)
  | deleteFlows (rules : List (Nat × UtAddr))
  | oftableRemoveRules (rules : List (Nat × UtAddr))
  | ofprotoFlush (bufSize : Nat)
  | evgAddRule (i : Nat) (a : UtAddr) (priority rulePriority : Nat) (node : HeapNode)
  | evgRemoveRule (i : Nat) (a : UtAddr)
  | oftableEnableEviction (i : Nat) (fields : List MfSubfield) (randomV : U32)
  | oftableDisableEviction (i : Nat)
  | ofprotoEvict (ofprotoNTables startIndex bufSize : Nat)
  | oftableMflowsSet (i value : Nat)
  | oftableSetReadonly (i : Nat)

/-- The state after a call, `none` if the call is undefined. -/
def exec (s : Enclave) : Call → Option Enclave
  | .clsRuleInit a m p => some (ecallClsRuleInit s a m p)
  | .clsRuleDestroy a => ecallClsRuleDestroy s a
  | .oftableClassifierReplace i a => (ecallOftableClassifierReplace s i a).map Prod.fst
  | .clsRemove i a => ecallClsRemove s i a
  | .addFlow args => (ecallAddFlow s args).map Prod.fst
  | .deleteFlows l => (ecallDeleteFlows s l).map Prod.fst
  | .oftableRemoveRules l => (ecallOftableRemoveRules s l).map Prod.fst
  | .ofprotoFlush bufSize => (ecallOfprotoFlush s bufSize).map Flushed.state
  | .evgAddRule i a p q node => ecallEvgAddRule s i a p q node
  | .evgRemoveRule i a => ecallEvgRemoveRule s i a
  | .oftableEnableEviction i fields v => (ecallOftableEnableEviction s i fields v).map Prod.fst
  | .oftableDisableEviction i => ecallOftableDisableEviction s i
  | .ofprotoEvict n start bufSize => (ecallOfprotoEvict s n start bufSize).map EvictResult.state
  | .oftableMflowsSet i v => some (ecallOftableMflowsSet s i v)
  | .oftableSetReadonly i => some (ecallOftableSetReadonly s i)

/-- No live rule has the low 32 bits of `a`. -/
def Enclave.NewAddr (s : Enclave) (a : UtAddr) : Prop := ∀ b, s.Live b → addrHash b ≠ addrHash a

instance (s : Enclave) (a : UtAddr) : Decidable (s.NewAddr a) :=
  decidable_of_iff (∀ r ∈ s.clsRules.values, addrHash (s.oClsRule r) ≠ addrHash a)
    ⟨fun h _ ⟨r, hr, hb⟩ => hb ▸ h r hr, fun h r hr => h _ ⟨r, hr, rfl⟩⟩

/-- The rules of a list are installed in the tables given with them, each named once. -/
def Enclave.AllInstalled (s : Enclave) (l : List (Nat × UtAddr)) : Prop :=
  (∀ e ∈ l, s.Installed e.1 e.2) ∧ (l.map Prod.snd).Nodup

/-- What the caller of an ecall promises; `P` is about the matches. -/
def Allowed (P : Match → Prop) (s : Enclave) : Call → Prop
  | .clsRuleInit a m _ => s.NewAddr a ∧ P m
  | .clsRuleDestroy a => s.Live a ∧ ∀ i, ¬ s.Installed i a
  | .oftableClassifierReplace _ a => s.Live a ∧ ∀ i, ¬ s.Installed i a
  | .clsRemove i a => s.Installed i a
  | .addFlow args => s.NewAddr args.cr ∧ P args.match
  | .deleteFlows l => s.AllInstalled l
  | .oftableRemoveRules l => s.AllInstalled l
  | _ => True

/-- The states of a bridge that allowed calls lead to. -/
inductive Reachable (P : Match → Prop) : Enclave → Prop where
  | init (nTables : Nat) (random : Nat → BitVec 16) :
      Reachable P (ecallOfprotoInitTables nTables random)
  | step {s s' : Enclave} (c : Call) :
      Reachable P s → Allowed P s c → exec s c = some s' → Reachable P s'

variable {P : Match → Prop}

/-- The state after a call, unchanged if the call is undefined. -/
def Enclave.after (s : Enclave) (c : Call) : Enclave := (exec s c).getD s

theorem Reachable.after {s : Enclave} (h : Reachable P s) {c : Call}
    (hc : Allowed P s c) : Reachable P (s.after c) := by
  unfold Enclave.after
  cases hs : exec s c with
  | none => exact h
  | some s' => exact h.step c hc hs

/-! ## Taking rules out -/

/-- `s'` is `s` without rule `r` in table `i`; only eviction data may differ besides. -/
structure Uninstalled (s s' : Enclave) (i : Nat) (r : RuleId) : Prop where
  mem : r ∈ s.rules i
  rules : ∀ j, s'.rules j = if j = i then (s.rules i).erase r else s.rules j
  nTables : s'.nTables = s.nTables
  clsRules : s'.clsRules = s.clsRules
  clsRule : s'.clsRule = s.clsRule
  oClsRule : s'.oClsRule = s.oClsRule
  evictable : s'.evictable = s.evictable
  nextRule : s'.nextRule = s.nextRule
  flags : ∀ j, (s'.oftable j).flags = (s.oftable j).flags
  maxFlows : ∀ j, (s'.oftable j).maxFlows = (s.oftable j).maxFlows

section Remove

variable {s s' s'' : Enclave} {i : Nat} {a : UtAddr} {r : RuleId}

theorem Uninstalled.sameRules (h : Uninstalled s s' i r) (h' : SameRules s' s'') :
    Uninstalled s s'' i r :=
  ⟨h.mem, fun j => (h'.rules j).trans (h.rules j), h'.nTables.trans h.nTables,
    h'.clsRules.trans h.clsRules, h'.clsRule.trans h.clsRule, h'.oClsRule.trans h.oClsRule,
    h'.evictable.trans h.evictable, h'.nextRule.trans h.nextRule,
    fun j => (h'.flags j).trans (h.flags j), fun j => (h'.maxFlows j).trans (h.maxFlows j)⟩

theorem Uninstalled.lookup (h : Uninstalled s s' i r) (b : UtAddr) :
    sgxRuleFromUtCr s' b = sgxRuleFromUtCr s b := by
  unfold sgxRuleFromUtCr
  rw [h.clsRules]

theorem Uninstalled.liveRule (h : Uninstalled s s' i r) {q : RuleId} :
    s'.LiveRule q ↔ s.LiveRule q := by
  unfold Enclave.LiveRule
  rw [h.clsRules]

theorem EnclaveOk.rules_nodup (h : EnclaveOk P s) (i : Nat) : (s.rules i).Nodup :=
  (h.cls i).toTablesOk.rules_nodup

theorem Uninstalled.mem_rules (h : Uninstalled s s' i r) (hok : EnclaveOk P s) {j : Nat}
    {q : RuleId} : q ∈ s'.rules j ↔ q ∈ s.rules j ∧ q ≠ r := by
  rw [h.rules j]
  split
  · rename_i hji
    subst hji
    rw [(hok.rules_nodup j).mem_erase_iff]
    exact And.comm
  · rename_i hji
    refine ⟨fun hq => ⟨hq, ?_⟩, fun hq => hq.1⟩
    rintro rfl
    exact hji (hok.disjoint _ _ _ hq h.mem)

/-- What `ecall_cls_remove` does when it returns. -/
theorem ecallClsRemove_uninstalled (h : EnclaveOk P s) (hs : ecallClsRemove s i a = some s') :
    ∃ r, sgxRuleFromUtCr s a = some r ∧ Uninstalled s s' i r ∧ EnclaveOk P s' := by
  obtain ⟨r, cls', hlook, hr, rfl, hrules, hok⟩ := ecallClsRemove_some h hs
  have hupd : ∀ {β : Type} (g : Oftable → β),
      g { s.oftable i with cls := cls' } = g (s.oftable i) → ∀ j,
      g ((s.setOftable i { s.oftable i with cls := cls' }).oftable j) = g (s.oftable j) := by
    intro β g hg j
    by_cases hji : j = i
    · subst hji; rw [setOftable_oftable_self]; exact hg
    · rw [setOftable_oftable_ne _ _ hji]
  refine ⟨r, hlook, ⟨hr, fun j => ?_, rfl, rfl, rfl, rfl, rfl, rfl, hupd Oftable.flags rfl,
    hupd Oftable.maxFlows rfl⟩, hok⟩
  rw [setOftable_rules, hrules]

/-- Out of the classifier and out of its eviction group. -/
theorem clsRemove_evgRemove (h : EnclaveOk P s) {b : UtAddr} (h1 : ecallClsRemove s i a = some s')
    (h2 : ecallEvgRemoveRule s' i b = some s'') :
    ∃ r, sgxRuleFromUtCr s a = some r ∧ Uninstalled s s'' i r ∧ EnclaveOk P s'' := by
  obtain ⟨r, hlook, hun, hok⟩ := ecallClsRemove_uninstalled h h1
  have hsame := ecallEvgRemoveRule_sameRules h2
  exact ⟨r, hlook, hun.sameRules hsame, hsame.ok hok⟩

theorem deleteFlow_uninstalled (h : EnclaveOk P s) {d : DeletedFlow}
    (hs : deleteFlow s i a = some (s', d)) :
    ∃ r, sgxRuleFromUtCr s a = some r ∧ Uninstalled s s' i r ∧ EnclaveOk P s' := by
  simp only [deleteFlow, Option.bind_eq_bind, Option.bind_eq_some_iff] at hs
  obtain ⟨r, hlook, _, _, _, _, _, _, s1, h1, s2, h2, h3⟩ := hs
  cases h3
  obtain ⟨q, hq, hun, hok⟩ := clsRemove_evgRemove h h1 h2
  rw [h.shadows.lookup_self (h.shadows.live_of_lookup hlook), Option.some.injEq] at hq
  exact ⟨r, hlook, hq ▸ hun, hok⟩

theorem ecallDeleteFlows_ok : ∀ {l : List (Nat × UtAddr)} {s s' : Enclave} {d : List DeletedFlow},
    EnclaveOk P s → ecallDeleteFlows s l = some (s', d) → EnclaveOk P s'
  | [], s, s', d, h, hs => by cases hs; exact h
  | (i, a) :: rest, s, s', d, h, hs => by
      simp only [ecallDeleteFlows, Option.bind_eq_bind, Option.bind_eq_some_iff] at hs
      obtain ⟨⟨s1, d1⟩, h1, ⟨s2, d2⟩, h2, h3⟩ := hs
      cases h3
      obtain ⟨-, -, -, hok⟩ := deleteFlow_uninstalled h h1
      exact ecallDeleteFlows_ok hok h2

/-- `ecall_oftable_remove_rules` also destroys the shadow. -/
theorem removeRule_spec (h : EnclaveOk P s) {b : Bool} (hs : removeRule s i a = some (s', b)) :
    ∃ r s1, sgxRuleFromUtCr s a = some r ∧ Uninstalled s s1 i r ∧ EnclaveOk P s1 ∧
      s' = { s1 with clsRules := hmapRemove s1.clsRules r (addrHash (s1.oClsRule r)) } ∧
      EnclaveOk P s' := by
  simp only [removeRule, Option.bind_eq_bind, Option.bind_eq_some_iff] at hs
  obtain ⟨_, _, s1, h1, s2, h2, s3, h3, h4⟩ := hs
  cases h4
  obtain ⟨r, hlook, hun, hok⟩ := clsRemove_evgRemove h h1 h2
  have hlive : s2.LiveRule r := hun.liveRule.mpr (h.shadows.live_of_lookup hlook)
  have hsame : ecallClsRuleDestroy s2 a = ecallClsRuleDestroy s2 (s2.oClsRule r) := by
    simp only [ecallClsRuleDestroy, hun.lookup a, hlook, hok.shadows.lookup_self hlive]
  rw [hsame, ecallClsRuleDestroy_eq hok.shadows hlive, Option.some.injEq] at h3
  subst h3
  refine ⟨r, s2, hlook, hun, hok, rfl, destroy_ok hok hlive fun j hj => ?_⟩
  exact ((hun.mem_rules h).mp hj).2 rfl

theorem ecallOftableRemoveRules_ok : ∀ {l : List (Nat × UtAddr)} {s s' : Enclave} {d : List Bool},
    EnclaveOk P s → ecallOftableRemoveRules s l = some (s', d) → EnclaveOk P s'
  | [], s, s', d, h, hs => by cases hs; exact h
  | (i, a) :: rest, s, s', d, h, hs => by
      simp only [ecallOftableRemoveRules, Option.bind_eq_bind, Option.bind_eq_some_iff] at hs
      obtain ⟨⟨s1, d1⟩, h1, ⟨s2, d2⟩, h2, h3⟩ := hs
      cases h3
      obtain ⟨-, -, -, -, -, -, hok⟩ := removeRule_spec h h1
      exact ecallOftableRemoveRules_ok hok h2

end Remove

/-! ## The flush -/

section Flush

variable {bufSize i : Nat}

/-- The body of the flush loop: with a full buffer it only counts. -/
theorem flushRule_cases {f f' : Flushed} {r : RuleId} (h : EnclaveOk P f.state)
    (hs : flushRule i bufSize f r = some f') :
    f'.count = f.count + 1 ∧ EnclaveOk P f'.state ∧
      ((bufSize ≤ f.out.length ∧ f'.state = f.state ∧ f'.out = f.out) ∨
        (f.out.length < bufSize ∧
          ∃ q, sgxRuleFromUtCr f.state (f.state.oClsRule r) = some q ∧
            Uninstalled f.state f'.state i q ∧
            f'.out = f.out ++
              [(f.state.oClsRule r, clsRuleHash (f.state.clsRule q) (BitVec.ofNat 32 i))])) := by
  unfold flushRule at hs
  split at hs
  · rename_i hfull
    cases hs
    exact ⟨rfl, h, .inl ⟨hfull, rfl, rfl⟩⟩
  · rename_i hroom
    simp only [Option.bind_eq_bind, Option.bind_eq_some_iff] at hs
    obtain ⟨hash, hhash, s1, h1, s2, h2, h3⟩ := hs
    cases h3
    obtain ⟨q, hlook, hun, hok⟩ := clsRemove_evgRemove h h1 h2
    refine ⟨rfl, hok, .inr ⟨Nat.lt_of_not_le hroom, q, hlook, hun, ?_⟩⟩
    simp only [ecallClsRuleHash, hlook, Option.bind_eq_bind, Option.bind_some] at hhash
    cases hhash
    rfl

theorem flushLoop_ok : ∀ (fuel : Nat) {f f' : Flushed} {next : Option RuleId},
    EnclaveOk P f.state → flushLoop i bufSize fuel f next = some f' → EnclaveOk P f'.state
  | 0, f, f', none, h, hs => by cases hs; exact h
  | _ + 1, f, f', none, h, hs => by cases hs; exact h
  | 0, f, f', some r, h, hs => by cases hs
  | fuel + 1, f, f', some r, h, hs => by
      simp only [flushLoop, Option.bind_eq_bind, Option.bind_eq_some_iff] at hs
      obtain ⟨f1, h1, h2⟩ := hs
      exact flushLoop_ok fuel (flushRule_cases h h1).2.1 h2

theorem flushTable_ok {f f' : Flushed} (h : EnclaveOk P f.state)
    (hs : flushTable bufSize f i = some f') : EnclaveOk P f'.state := by
  unfold flushTable at hs
  split at hs
  · cases hs
    exact h
  · exact flushLoop_ok _ h hs

theorem foldlM_flushTable_ok : ∀ {l : List Nat} {f f' : Flushed}, EnclaveOk P f.state →
    l.foldlM (flushTable bufSize) f = some f' → EnclaveOk P f'.state
  | [], f, f', h, hs => by cases hs; exact h
  | i :: l, f, f', h, hs => by
      rw [List.foldlM_cons, Option.bind_eq_bind, Option.bind_eq_some_iff] at hs
      obtain ⟨f1, h1, h2⟩ := hs
      exact foldlM_flushTable_ok (flushTable_ok h h1) h2

end Flush

/-! ## Adding a flow -/

section AddFlow

variable {s s' : Enclave} {out out' : AddFlowOut}

/-- The eviction in `ecall_add_flow`: none needed, none possible, or one rule taken out. -/
theorem evictForFlow_cases (h : EnclaveOk P s) {i : Nat} {cr : UtAddr}
    (hs : evictForFlow s i cr out = some (s', out')) :
    (ecallOftableClsCount s i ≤ ecallOftableMflows s i ∧ s' = s ∧ out' = out) ∨
    (ecallOftableMflows s i < ecallOftableClsCount s i ∧
      ecallChooseRuleToEvictP s i cr = some none ∧ s' = s ∧
      out' = { out with tableOverflow := true, evict := none }) ∨
    (ecallOftableMflows s i < ecallOftableClsCount s i ∧
      ∃ e r s1 hash, ecallChooseRuleToEvictP s i cr = some (some e) ∧
        sgxRuleFromUtCr s e = some r ∧ ecallClsRemove s i e = some s1 ∧
        ecallEvgRemoveRule s1 i e = some s' ∧ Uninstalled s s' i r ∧ EnclaveOk P s' ∧
        out' = { out with tableOverflow := true, evict := some e, evictRuleHash := hash }) := by
  unfold evictForFlow at hs
  split at hs
  · rename_i hle
    cases hs
    exact .inl ⟨hle, rfl, rfl⟩
  · rename_i hlt
    refine .inr ?_
    simp only [Option.bind_eq_bind, Option.bind_eq_some_iff] at hs
    obtain ⟨evict, hchoose, hs⟩ := hs
    cases evict with
    | none =>
      cases hs
      exact .inl ⟨Nat.lt_of_not_le hlt, hchoose, rfl, rfl⟩
    | some e =>
      simp only [Option.bind_eq_some_iff] at hs
      obtain ⟨s1, h1, s2, h2, hash, -, h3⟩ := hs
      cases h3
      obtain ⟨r, hlook, hun, hok⟩ := clsRemove_evgRemove h h1 h2
      exact .inr ⟨Nat.lt_of_not_le hlt, e, r, s1, hash, hchoose, hlook, h1, h2, hun, hok, rfl⟩

theorem evgRemoveVictim_sameRules {i : Nat} {v : Option UtAddr}
    (h : evgRemoveVictim s i v = some s') : SameRules s s' := by
  cases v with
  | none => cases h; exact SameRules.refl s
  | some v => exact ecallEvgRemoveRule_sameRules h

theorem evgAddFlow_sameRules {args : AddFlowArgs} (h : evgAddFlow s args = some s') :
    SameRules s s' := by
  unfold evgAddFlow at h
  split at h
  · exact ecallEvgAddRule_sameRules h
  · cases h
    exact SameRules.refl s

/-- The stages of `ecall_add_flow` after its early exits. -/
theorem installFlow_cases {args : AddFlowArgs} {r : RuleId}
    (hlook : sgxRuleFromUtCr s args.cr = some r) (hs : installFlow s args out = some (s', out')) :
    ∃ s2 s3, evgRemoveVictim (replaceState s args.tableId r) args.tableId
        ((replaceVictim s args.tableId r).map s.oClsRule) = some s2 ∧
      evgAddFlow s2 args = some s3 ∧
      (((replaceVictim s args.tableId r).isSome ∧ ecallOftableIsReadonly s3 args.tableId ∧
        s' = s3 ∧ out' = { out with
          victim := (replaceVictim s args.tableId r).map s.oClsRule, isRuleModifiable := false }) ∨
      (((replaceVictim s args.tableId r).isSome && ecallOftableIsReadonly s3 args.tableId) = false ∧
        ∃ out3 vid vidMask, evictForFlow s3 args.tableId args.cr
            { out with victim := (replaceVictim s args.tableId r).map s.oClsRule }
          = some (s', out3) ∧ out' = { out3 with vid := vid, vidMask := vidMask })) := by
  simp only [installFlow, ecallOftableClassifierReplace_eq hlook, Option.bind_eq_bind,
    Option.bind_some, Option.bind_eq_some_iff] at hs
  obtain ⟨s2, h2, s3, h3, hs⟩ := hs
  refine ⟨s2, s3, h2, h3, ?_⟩
  split at hs
  · rename_i hro
    rw [Bool.and_eq_true, Option.isSome_map] at hro
    cases hs
    exact .inl ⟨hro.1, hro.2, rfl, rfl⟩
  · rename_i hro
    rw [Bool.not_eq_true, Option.isSome_map] at hro
    simp only [Option.bind_eq_some_iff] at hs
    obtain ⟨⟨s4, out4⟩, h4, vid, -, vidMask, -, h5⟩ := hs
    cases h5
    exact .inr ⟨hro, out4, vid, vidMask, h4, rfl⟩

theorem installFlow_ok {args : AddFlowArgs} {r : RuleId} (h : EnclaveOk P s)
    (hlook : sgxRuleFromUtCr s args.cr = some r) (hnot : ∀ j, r ∉ s.rules j)
    (hs : installFlow s args out = some (s', out')) : EnclaveOk P s' := by
  obtain ⟨s2, s3, h2, h3, hcases⟩ := installFlow_cases hlook hs
  have hok1 : EnclaveOk P (replaceState s args.tableId r) :=
    replaceState_ok h (h.shadows.live_of_lookup hlook) hnot
  have hok3 : EnclaveOk P s3 :=
    ((evgRemoveVictim_sameRules h2).trans (evgAddFlow_sameRules h3)).ok hok1
  rcases hcases with ⟨-, -, rfl, -⟩ | ⟨-, out3, -, -, h4, -⟩
  · exact hok3
  · rcases evictForFlow_cases hok3 h4 with
      ⟨-, rfl, -⟩ | ⟨-, -, rfl, -⟩ | ⟨-, -, -, -, -, -, -, -, -, -, hok, -⟩
    · exact hok3
    · exact hok3
    · exact hok

/-- Initialising a rule and destroying it at once, as the early exits of
`ecall_add_flow` do, keeps the invariant. -/
theorem initDestroy_ok (h : EnclaveOk P s) {a : UtAddr} {m : Match} {p : Nat} (hnew : s.NewAddr a)
    (hm : P m) (hs : ecallClsRuleDestroy (ecallClsRuleInit s a m p) a = some s') :
    EnclaveOk P s' := by
  have hok := ecallClsRuleInit_ok (p := p) h hnew hm
  have hlook := ecallClsRuleInit_lookup (m := m) (p := p) h.shadows hnew
  have hlive := hok.shadows.live_of_lookup hlook
  have hdes := ecallClsRuleDestroy_eq hok.shadows hlive
  rw [ecallClsRuleInit_oClsRule_self] at hdes
  rw [hdes, Option.some.injEq] at hs
  rw [← hs, ← ecallClsRuleInit_oClsRule_self (s := s) (a := a) (m := m) (p := p)]
  have := destroy_ok hok hlive fun j => h.nextRule_not_mem j
  rw [ecallClsRuleInit_oClsRule_self] at this ⊢
  exact this

/-- `ecall_add_flow` refuses a flow: the table is read-only, a rule with the same match and
priority is being deleted, or the flow overlaps another and must not. -/
def FlowRefused (s : Enclave) (args : AddFlowArgs) : Prop :=
  let s1 := ecallClsRuleInit s args.cr args.match args.priority
  ecallOftableIsReadonly s args.tableId = true ∨
    anyPendingEqual s1 args.cr args.pendingDeletions = some true ∨
    flowOverlaps s1 args = some true

/-- The four ways `ecall_add_flow` ends. -/
theorem ecallAddFlow_cases {args : AddFlowArgs} (hs : ecallAddFlow s args = some (s', out)) :
    (FlowRefused s args ∧ s' = s ∧ out = { AddFlowOut.init with isReadOnly := true }) ∨
    (FlowRefused s args ∧
      ecallClsRuleDestroy (ecallClsRuleInit s args.cr args.match args.priority) args.cr = some s' ∧
      (out = { AddFlowOut.init with isDeletionPending := true } ∨
        out = { AddFlowOut.init with isRuleOverlapping := true })) ∨
    (¬ FlowRefused s args ∧
      installFlow (ecallClsRuleInit s args.cr args.match args.priority) args AddFlowOut.init
        = some (s', out)) := by
  unfold ecallAddFlow at hs
  split at hs
  · rename_i hro
    cases hs
    exact .inl ⟨.inl hro, rfl, rfl⟩
  · rename_i hro
    refine .inr ?_
    simp only [Option.bind_eq_bind, Option.bind_eq_some_iff] at hs
    obtain ⟨pending, hpend, hs⟩ := hs
    split at hs
    · rename_i hb
      obtain ⟨s1, h1, h2⟩ := Option.bind_eq_some_iff.mp hs
      cases h2
      exact .inl ⟨.inr (.inl (hb ▸ hpend)), h1, .inl rfl⟩
    · rename_i hb
      obtain ⟨overlaps, hover, hs⟩ := Option.bind_eq_some_iff.mp hs
      split at hs
      · rename_i hb'
        obtain ⟨s1, h1, h2⟩ := Option.bind_eq_some_iff.mp hs
        cases h2
        exact .inl ⟨.inr (.inr (hb' ▸ hover)), h1, .inr rfl⟩
      · rename_i hb'
        refine .inr ⟨?_, hs⟩
        rintro (h1 | h1 | h1)
        · exact hro h1
        · rw [hpend, Option.some.injEq] at h1
          exact hb h1
        · rw [hover, Option.some.injEq] at h1
          exact hb' h1

theorem FlowRefused.readonly {args : AddFlowArgs} (h : ¬ FlowRefused s args) :
    ecallOftableIsReadonly s args.tableId = false :=
  Bool.eq_false_iff.mpr fun hro => h (.inl hro)

theorem ecallAddFlow_ok {args : AddFlowArgs} (h : EnclaveOk P s) (hnew : s.NewAddr args.cr)
    (hm : P args.match) (hs : ecallAddFlow s args = some (s', out)) : EnclaveOk P s' := by
  rcases ecallAddFlow_cases hs with ⟨-, rfl, -⟩ | ⟨-, hdes, -⟩ | ⟨-, hinst⟩
  · exact h
  · exact initDestroy_ok h hnew hm hdes
  · exact installFlow_ok (ecallClsRuleInit_ok h hnew hm)
      (ecallClsRuleInit_lookup h.shadows hnew) (fun j => h.nextRule_not_mem j) hinst

end AddFlow

/-! ## The selection of rules to evict -/

theorem evictLoop_sameRules {i capacity : Nat} : ∀ (fuel : Nat) {s s' : Enclave}
    {out out' : List EvictEntry}, evictLoop i capacity fuel s out = some (s', out') → SameRules s s'
  | 0, s, s', out, out', h => by cases h; exact SameRules.refl s
  | fuel + 1, s, s', out, out', h => by
      simp only [evictLoop] at h
      split at h
      · cases h
        exact SameRules.refl s
      · split at h
        · cases h
        · simp only [Option.bind_eq_bind, Option.bind_eq_some_iff] at h
          obtain ⟨_, -, _, -, _, -, s1, h1, h2⟩ := h
          exact (ecallEvgRemoveRule_sameRules h1).trans (evictLoop_sameRules fuel h2)

theorem evictTable_sameRules {capacity i : Nat} {so so' : Enclave × List EvictEntry}
    (h : evictTable capacity so i = some so') : SameRules so.1 so'.1 := by
  unfold evictTable at h
  split at h
  · cases h
    exact SameRules.refl _
  · exact evictLoop_sameRules _ h

theorem foldlM_evictTable_sameRules {capacity : Nat} : ∀ {l : List Nat}
    {so so' : Enclave × List EvictEntry}, l.foldlM (evictTable capacity) so = some so' →
    SameRules so.1 so'.1
  | [], so, so', h => by cases h; exact SameRules.refl _
  | i :: l, so, so', h => by
      rw [List.foldlM_cons, Option.bind_eq_bind, Option.bind_eq_some_iff] at h
      obtain ⟨so1, h1, h2⟩ := h
      exact (evictTable_sameRules h1).trans (foldlM_evictTable_sameRules h2)

theorem foldlM_reinsertRule_sameRules : ∀ {l : List EvictEntry} {s s' : Enclave},
    l.foldlM reinsertRule s = some s' → SameRules s s'
  | [], s, s', h => by cases h; exact SameRules.refl _
  | e :: l, s, s', h => by
      rw [List.foldlM_cons, Option.bind_eq_bind, Option.bind_eq_some_iff] at h
      obtain ⟨s1, h1, h2⟩ := h
      simp only [reinsertRule, Option.bind_eq_bind, Option.bind_eq_some_iff] at h1
      obtain ⟨r, -, h1⟩ := h1
      exact (ecallEvgAddRule_sameRules h1).trans (foldlM_reinsertRule_sameRules h2)

/-- `ecall_ofproto_evict` only selects: every rule stays installed. -/
theorem ecallOfprotoEvict_sameRules {s : Enclave} {n start bufSize : Nat} {res : EvictResult}
    (h : ecallOfprotoEvict s n start bufSize = some res) : SameRules s res.state := by
  simp only [ecallOfprotoEvict, Option.bind_eq_bind, Option.bind_eq_some_iff] at h
  obtain ⟨⟨s1, out⟩, h1, s2, h2, h3⟩ := h
  cases h3
  exact (foldlM_evictTable_sameRules h1).trans (foldlM_reinsertRule_sameRules h2)

/-! ## Every reachable state -/

theorem ecallOfprotoInitTables_ok (P : Match → Prop) (nTables : Nat) (random : Nat → BitVec 16) :
    EnclaveOk P (ecallOfprotoInitTables nTables random) := by
  have hno : ∀ i, (ecallOfprotoInitTables nTables random).rules i = [] := fun _ => rfl
  refine ⟨⟨?_, ?_, ?_⟩, fun i => classifierInit_ok.1, fun i r hr => ?_, fun i j r hr => ?_,
    fun r hr => ?_⟩
  · exact fun e he => absurd he (by simp [ecallOfprotoInitTables, hmapInit])
  · exact fun e he => absurd he (by simp [ecallOfprotoInitTables, hmapInit])
  · simp [ecallOfprotoInitTables, hmapInit]
  · rw [hno] at hr
    exact absurd hr List.not_mem_nil
  · rw [hno] at hr
    exact absurd hr List.not_mem_nil
  · exact absurd hr (by simp [Enclave.LiveRule, ChainMap.values, ecallOfprotoInitTables, hmapInit])

section Step

variable {s s' : Enclave}

/-- A rule that is live but whose address is installed nowhere is in no table. -/
theorem not_mem_rules {a : UtAddr} {r : RuleId} (hr : s.LiveRule r)
    (ha : s.oClsRule r = a) (hnot : ∀ i, ¬ s.Installed i a) (i : Nat) : r ∉ s.rules i :=
  fun hmem => hnot i ⟨r, hr, ha, hmem⟩

/-- Changing only the limit or the flags of a table keeps the invariant. -/
theorem sameClassifiers_ok (h : EnclaveOk P s) (i : Nat) {tbl : Oftable}
    (htbl : tbl.cls = (s.oftable i).cls) : EnclaveOk P (s.setOftable i tbl) := by
  have hcls : ∀ j, ((s.setOftable i tbl).oftable j).cls = (s.oftable j).cls := by
    intro j
    by_cases hji : j = i
    · subst hji; rw [setOftable_oftable_self]; exact htbl
    · rw [setOftable_oftable_ne _ _ hji]
  have hrules : ∀ j, (s.setOftable i tbl).rules j = s.rules j := fun j =>
    congrArg Classifier.rules (hcls j)
  refine ⟨⟨h.shadows.hash, h.shadows.fresh, h.shadows.nodup⟩, fun j => ?_, fun j r hr => ?_,
    fun j k r hj hk => ?_, h.built⟩
  · rw [hcls j]
    exact h.cls j
  · rw [hrules j] at hr
    exact h.live j r hr
  · rw [hrules] at hj hk
    exact h.disjoint j k r hj hk

/-- One allowed call keeps the invariant. -/
theorem exec_ok {c : Call} (h : EnclaveOk P s) (hc : Allowed P s c) (hs : exec s c = some s') :
    EnclaveOk P s' := by
  cases c with
  | clsRuleInit a m p =>
    cases hs
    exact ecallClsRuleInit_ok h hc.1 hc.2
  | clsRuleDestroy a =>
    obtain ⟨⟨r, hr, rfl⟩, hnot⟩ := hc
    simp only [exec, ecallClsRuleDestroy_eq h.shadows hr, Option.some.injEq] at hs
    rw [← hs]
    exact destroy_ok h hr (not_mem_rules hr rfl hnot)
  | oftableClassifierReplace i a =>
    obtain ⟨⟨r, hr, rfl⟩, hnot⟩ := hc
    simp only [exec, ecallOftableClassifierReplace_eq (h.shadows.lookup_self hr), Option.map_some,
      Option.some.injEq] at hs
    rw [← hs]
    exact replaceState_ok h hr (not_mem_rules hr rfl hnot)
  | clsRemove i a =>
    obtain ⟨-, -, -, hok⟩ := ecallClsRemove_uninstalled h hs
    exact hok
  | addFlow args =>
    obtain ⟨⟨s1, out⟩, h1, rfl⟩ := Option.map_eq_some_iff.mp hs
    exact ecallAddFlow_ok h hc.1 hc.2 h1
  | deleteFlows l =>
    obtain ⟨⟨s1, d⟩, h1, rfl⟩ := Option.map_eq_some_iff.mp hs
    exact ecallDeleteFlows_ok h h1
  | oftableRemoveRules l =>
    obtain ⟨⟨s1, d⟩, h1, rfl⟩ := Option.map_eq_some_iff.mp hs
    exact ecallOftableRemoveRules_ok h h1
  | ofprotoFlush bufSize =>
    obtain ⟨f, h1, rfl⟩ := Option.map_eq_some_iff.mp hs
    exact foldlM_flushTable_ok (f := ⟨s, [], 0⟩) h h1
  | evgAddRule i a p q node => exact (ecallEvgAddRule_sameRules hs).ok h
  | evgRemoveRule i a => exact (ecallEvgRemoveRule_sameRules hs).ok h
  | oftableEnableEviction i fields v =>
    obtain ⟨⟨s1, b⟩, h1, rfl⟩ := Option.map_eq_some_iff.mp hs
    exact (ecallOftableEnableEviction_sameRules h1).ok h
  | oftableDisableEviction i => exact (ecallOftableDisableEviction_sameRules hs).ok h
  | ofprotoEvict n start bufSize =>
    obtain ⟨res, h1, rfl⟩ := Option.map_eq_some_iff.mp hs
    exact (ecallOfprotoEvict_sameRules h1).ok h
  | oftableMflowsSet i v =>
    cases hs
    exact sameClassifiers_ok h i rfl
  | oftableSetReadonly i =>
    cases hs
    exact sameClassifiers_ok h i rfl

theorem Reachable.ok (h : Reachable P s) : EnclaveOk P s := by
  induction h with
  | init nTables random => exact ecallOfprotoInitTables_ok P nTables random
  | step c _ hc hs ih => exact exec_ok ih hc hs

end Step

end OvsSgx
