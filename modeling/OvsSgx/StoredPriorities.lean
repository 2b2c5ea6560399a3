/-
OvsSgx.StoredPriorities — the eviction priorities that the enclave stores.

The enclave keeps a copy of the eviction priority of each rule in a group, in
the heap node of its shadow. The copy is written when a rule joins a group.
All other ecalls leave the copies alone, and take rules out of groups at
most. What is true of the copies with which rules join is then true of all
copies.
-/
import OvsSgx.EvictDryRun
import OvsSgx.UnsubmittedGroups

namespace OvsSgx

/-- What `Q` says of addresses and priorities holds of the rules in groups and of the priorities
stored for them. -/
def Enclave.Stores (s : Enclave) (Q : UtAddr → Nat → Prop) : Prop :=
  ∀ r, s.evictGroup r ≠ none → Q (s.oClsRule r) (s.ruleEvgNode r).priority

/-! ## Ecalls by which no rule joins a group -/

/-- From `s` to `s'` no rule has joined a group, and the copies are the same. -/
structure NoneJoins (s s' : Enclave) : Prop where
  group : ∀ r, s'.evictGroup r ≠ none → s.evictGroup r ≠ none
  priority : ∀ r, (s'.ruleEvgNode r).priority = (s.ruleEvgNode r).priority
  oClsRule : s'.oClsRule = s.oClsRule

section NoneJoins

variable {s s' s'' : Enclave} {i : Nat} {a : UtAddr} {g : EvgId} {r : RuleId}
  {Q : UtAddr → Nat → Prop}

theorem NoneJoins.refl (s : Enclave) : NoneJoins s s := ⟨fun _ h => h, fun _ => rfl, rfl⟩

theorem NoneJoins.trans (h : NoneJoins s s') (h' : NoneJoins s' s'') : NoneJoins s s'' :=
  ⟨fun r hr => h.group r (h'.group r hr), fun r => (h'.priority r).trans (h.priority r),
    h'.oClsRule.trans h.oClsRule⟩

theorem NoneJoins.stores (h : NoneJoins s s') (hst : s.Stores Q) : s'.Stores Q := by
  intro r hr
  rw [h.oClsRule, h.priority]
  exact hst r (h.group r hr)

/-- The members of the shadows that count here are the same. -/
theorem NoneJoins.of_eq (hgroup : s'.evictGroup = s.evictGroup)
    (hnode : s'.ruleEvgNode = s.ruleEvgNode) (haddr : s'.oClsRule = s.oClsRule) : NoneJoins s s' :=
  ⟨fun r hr => by rwa [hgroup] at hr, fun r => by rw [hnode], haddr⟩

theorem OnlyShadows.noneJoins (h : OnlyShadows s s') : NoneJoins s s' := by
  unfold OnlyShadows at h
  rw [h]
  exact NoneJoins.of_eq rfl rfl rfl

theorem ecallClsRemove_noneJoins (hs : ecallClsRemove s i a = some s') : NoneJoins s s' := by
  simp only [ecallClsRemove, Option.bind_eq_bind, Option.bind_eq_some_iff] at hs
  obtain ⟨r, -, cls, -, hs⟩ := hs
  cases hs
  exact NoneJoins.of_eq rfl rfl rfl

theorem ecallOftableClassifierReplace_noneJoins {v : Option UtAddr}
    (hs : ecallOftableClassifierReplace s i a = some (s', v)) :
    NoneJoins s s' ∧ s'.clsRules = s.clsRules := by
  simp only [ecallOftableClassifierReplace, Option.bind_eq_bind, Option.bind_eq_some_iff] at hs
  obtain ⟨r, -, hs⟩ := hs
  cases hs
  exact ⟨NoneJoins.of_eq rfl rfl rfl, rfl⟩

theorem popAll_ne_none {array : Nat → Nat} {n : Nat} : ∀ {groups : RuleId → Option EvgId},
    popAll n array groups r ≠ none → groups r ≠ none := by
  induction n with
  | zero => exact fun h => h
  | succ n ih =>
    intro groups h hnone
    refine ih h ?_
    rw [Function.update_apply, hnone, ite_self]

theorem sgxEvgDestroy_noneJoins (hs : sgxEvgDestroy s i g = some s') : NoneJoins s s' := by
  have hprio := (sgxEvgDestroy_nodes hs).priority
  simp only [sgxEvgDestroy] at hs
  split at hs
  · simp only [Option.bind_eq_bind, Option.bind_eq_some_iff] at hs
    obtain ⟨⟨heap, nodes⟩, -, hs⟩ := hs
    cases hs
    exact ⟨fun r => popAll_ne_none, hprio, rfl⟩
  · cases hs

theorem sgxEvgGroupResize_noneJoins {p : Nat} (hs : sgxEvgGroupResize s i p g = some s') :
    NoneJoins s s' := by
  simp only [sgxEvgGroupResize, Option.bind_eq_bind, Option.bind_eq_some_iff] at hs
  obtain ⟨⟨heap, nodes⟩, -, hs⟩ := hs
  cases hs
  exact NoneJoins.of_eq rfl rfl rfl

theorem evgUnlinkRule_noneJoins (hs : evgUnlinkRule s g r = some s') : NoneJoins s s' := by
  have hprio := (evgUnlinkRule_nodes hs).priority
  simp only [evgUnlinkRule, Option.bind_eq_bind, Option.bind_eq_some_iff] at hs
  obtain ⟨⟨heap, nodes⟩, -, hs⟩ := hs
  cases hs
  refine ⟨fun q hq hnone => hq ?_, hprio, rfl⟩
  simp only [Function.update_apply, hnone, ite_self]

theorem ecallEvgRemoveRule_noneJoins (hs : ecallEvgRemoveRule s i a = some s') :
    NoneJoins s s' := by
  simp only [ecallEvgRemoveRule, Option.bind_eq_bind, Option.bind_eq_some_iff] at hs
  obtain ⟨q, -, hs⟩ := hs
  cases hq : s.evictGroup q with
  | none =>
    rw [hq] at hs
    cases hs
    exact NoneJoins.refl s
  | some g =>
    simp only [hq, Option.bind_eq_some_iff] at hs
    obtain ⟨s1, h1, hs⟩ := hs
    refine (evgUnlinkRule_noneJoins h1).trans ?_
    split at hs
    · exact sgxEvgDestroy_noneJoins hs
    · have hrandom : NoneJoins s1 (randomUint16 s1).2 := NoneJoins.of_eq rfl rfl rfl
      exact hrandom.trans (sgxEvgGroupResize_noneJoins hs)

/-- No rule joins in a loop if none joins in a round. -/
theorem foldlM_noneJoins {α β : Type} (enclave : β → Enclave) {f : β → α → Option β}
    (hf : ∀ b a b', f b a = some b' → NoneJoins (enclave b) (enclave b')) {l : List α} :
    ∀ {b b' : β}, l.foldlM f b = some b' → NoneJoins (enclave b) (enclave b') := by
  induction l with
  | nil =>
    intro b b' hs
    cases hs
    exact NoneJoins.refl _
  | cons a l ih =>
    intro b b' hs
    rw [List.foldlM_cons, Option.bind_eq_bind, Option.bind_eq_some_iff] at hs
    obtain ⟨b1, h1, h2⟩ := hs
    exact (hf b a b1 h1).trans (ih h2)

theorem ecallOftableDisableEviction_noneJoins (hs : ecallOftableDisableEviction s i = some s') :
    NoneJoins s s' := by
  unfold ecallOftableDisableEviction at hs
  split at hs
  · cases hs
    exact NoneJoins.refl s
  · obtain ⟨s1, h1, hs⟩ := Option.bind_eq_some_iff.mp hs
    have hall := foldlM_noneJoins id (fun _ _ _ => sgxEvgDestroy_noneJoins) h1
    cases hs
    exact hall.trans (NoneJoins.of_eq rfl rfl rfl)

theorem ecallOftableEnableEviction_noneJoins {fields : List MfSubfield} {v : U32} {b : Bool}
    (hs : ecallOftableEnableEviction s i fields v = some (s', b)) : NoneJoins s s' := by
  unfold ecallOftableEnableEviction at hs
  split at hs
  · cases hs
    exact NoneJoins.refl s
  · obtain ⟨s1, h1, hs⟩ := Option.bind_eq_some_iff.mp hs
    have hdis := ecallOftableDisableEviction_noneJoins h1
    cases hs
    exact hdis.trans (NoneJoins.of_eq rfl rfl rfl)

/-! ## Lists of rules -/

theorem removeRule_noneJoins {b : Bool} (hs : removeRule s i a = some (s', b)) :
    NoneJoins s s' := by
  simp only [removeRule, Option.bind_eq_bind, Option.bind_eq_some_iff] at hs
  obtain ⟨_, -, s1, h1, s2, h2, s3, h3, hs⟩ := hs
  cases hs
  exact ((ecallClsRemove_noneJoins h1).trans (ecallEvgRemoveRule_noneJoins h2)).trans
    (ecallClsRuleDestroy_onlyShadows h3).noneJoins

theorem ecallOftableRemoveRules_noneJoins : ∀ {l : List (Nat × UtAddr)} {s s' : Enclave}
    {hidden : List Bool}, ecallOftableRemoveRules s l = some (s', hidden) → NoneJoins s s'
  | [], s, s', hidden, hs => by
      cases hs
      exact NoneJoins.refl s
  | (i, a) :: rest, s, s', hidden, hs => by
      simp only [ecallOftableRemoveRules, Option.bind_eq_bind, Option.bind_eq_some_iff] at hs
      obtain ⟨⟨s1, b⟩, h1, ⟨s2, out⟩, h2, hs⟩ := hs
      cases hs
      exact (removeRule_noneJoins h1).trans (ecallOftableRemoveRules_noneJoins h2)

theorem ecallDeleteFlows_noneJoins : ∀ {l : List (Nat × UtAddr)} {s s' : Enclave}
    {d : List DeletedFlow}, ecallDeleteFlows s l = some (s', d) → NoneJoins s s'
  | [], s, s', d, hs => by
      cases hs
      exact NoneJoins.refl s
  | (i, a) :: rest, s, s', d, hs => by
      simp only [ecallDeleteFlows, deleteFlow, Option.bind_eq_bind, Option.bind_eq_some_iff] at hs
      obtain ⟨⟨s1, d1⟩, ⟨_, -, _, -, _, -, _, -, s2, h2, s3, h3, h1⟩, ⟨s4, out⟩, h4, hs⟩ := hs
      cases h1
      cases hs
      exact ((ecallClsRemove_noneJoins h2).trans (ecallEvgRemoveRule_noneJoins h3)).trans
        (ecallDeleteFlows_noneJoins h4)

theorem flushRule_noneJoins {bufSize : Nat} {f f' : Flushed}
    (hs : flushRule i bufSize f r = some f') : NoneJoins f.state f'.state := by
  unfold flushRule at hs
  split at hs
  · cases hs
    exact NoneJoins.refl _
  · simp only [Option.bind_eq_bind, Option.bind_eq_some_iff] at hs
    obtain ⟨_, -, s1, h1, s2, h2, hs⟩ := hs
    cases hs
    exact (ecallClsRemove_noneJoins h1).trans (ecallEvgRemoveRule_noneJoins h2)

theorem flushLoop_noneJoins {bufSize : Nat} : ∀ {fuel : Nat} {f f' : Flushed} {q : Option RuleId},
    flushLoop i bufSize fuel f q = some f' → NoneJoins f.state f'.state
  | _, f, f', none, hs => by
      rw [flushLoop] at hs
      cases hs
      exact NoneJoins.refl _
  | 0, f, f', some r, hs => by cases hs
  | fuel + 1, f, f', some r, hs => by
      simp only [flushLoop, Option.bind_eq_bind, Option.bind_eq_some_iff] at hs
      obtain ⟨f1, h1, h2⟩ := hs
      exact (flushRule_noneJoins h1).trans (flushLoop_noneJoins h2)

theorem flushTable_noneJoins {bufSize : Nat} {f f' : Flushed}
    (hs : flushTable bufSize f i = some f') : NoneJoins f.state f'.state := by
  unfold flushTable at hs
  split at hs
  · cases hs
    exact NoneJoins.refl _
  · exact flushLoop_noneJoins hs

theorem ecallOfprotoFlush_noneJoins {bufSize : Nat} {f : Flushed}
    (hs : ecallOfprotoFlush s bufSize = some f) : NoneJoins s f.state :=
  foldlM_noneJoins Flushed.state (fun _ _ _ => flushTable_noneJoins) hs

theorem flushPages_noneJoins {entries : List (UtAddr × U32)} {n : Nat}
    (hs : flushPages s = some (s', entries, n)) : NoneJoins s s' := by
  obtain ⟨f, h1, hs⟩ := Option.bind_eq_some_iff.mp hs
  have hfirst := ecallOfprotoFlush_noneJoins h1
  split at hs
  · cases hs
    exact hfirst
  · obtain ⟨f', h2, hs⟩ := Option.bind_eq_some_iff.mp hs
    cases hs
    exact hfirst.trans (ecallOfprotoFlush_noneJoins h2)

/-- The selection of `ecall_ofproto_evict` takes rules out of their groups and puts them back. -/
theorem ecallOfprotoEvict_noneJoins {P : Match → Prop} (h : BridgeOk P s) {n start bufSize : Nat}
    {res : EvictResult} (hs : ecallOfprotoEvict s n start bufSize = some res) :
    NoneJoins s res.state := by
  obtain ⟨hnone, -⟩ | ⟨s1, out, T, h1, hok, hre, -⟩ := ecallOfprotoEvict_spec h n start bufSize
  · rw [hnone] at hs
    cases hs
  · have hprio := (ecallOfprotoEvict_nodes hs).priority
    rw [h1, Option.some.injEq] at hs
    subst hs
    refine ⟨fun r hr => ?_, hprio, hre.same.oClsRule⟩
    obtain ⟨g, hg⟩ := Option.ne_none_iff_exists'.mp hr
    obtain ⟨j, hj⟩ := hok.eviction.groupedIn hg
    obtain ⟨k, -, hk⟩ := (hre.groupedIn j r).mp hj
    simp [hk]

theorem evictPages_noneJoins {P : Match → Prop} (h : BridgeOk P s) {n total : Nat}
    {entries : List (UtAddr × U32)} (hs : evictPages s n = some (s', entries, total)) :
    NoneJoins s s' := by
  obtain ⟨res, h1, hs⟩ := Option.bind_eq_some_iff.mp hs
  have hfirst := ecallOfprotoEvict_noneJoins h h1
  dsimp only at hs
  split at hs
  · cases hs
    exact hfirst
  · split at hs
    · cases hs
    · obtain ⟨res', h2, hs⟩ := Option.bind_eq_some_iff.mp hs
      cases hs
      obtain ⟨hnone, -⟩ | ⟨s1, out, T, h3, hok, -⟩ := ecallOfprotoEvict_spec h n 0 defaultBufferSize
      · rw [hnone] at h1
        cases h1
      · rw [h1, Option.some.injEq] at h3
        subst h3
        exact hfirst.trans (ecallOfprotoEvict_noneJoins hok h2)

end NoneJoins

/-! ## A rule that joins a group -/

section Joins

variable {s s' : Enclave} {a : UtAddr} {Q : UtAddr → Nat → Prop}

/-- The shadow that is found for `a` is that of `a`. -/
def Enclave.Addressed (s : Enclave) (a : UtAddr) : Prop :=
  ∀ r, sgxRuleFromUtCr s a = some r → s.oClsRule r = a

theorem ShadowsOk.addressed (h : ShadowsOk s) (ha : s.Live a) : s.Addressed a := by
  obtain ⟨q, hq, rfl⟩ := ha
  intro r hr
  rw [h.lookup_self hq, Option.some.injEq] at hr
  rw [hr]

theorem Enclave.Addressed.congr (h : s.Addressed a) (hcls : s'.clsRules = s.clsRules)
    (haddr : s'.oClsRule = s.oClsRule) : s'.Addressed a := by
  intro r hr
  unfold sgxRuleFromUtCr at hr
  rw [hcls] at hr
  rw [haddr]
  exact h r hr

/-- The rule joins with the priority that is passed. -/
theorem ecallEvgAddRule_stores (hst : s.Stores Q) (ha : s.Addressed a) {i p q : Nat}
    {node : HeapNode} (hq : Q a q) (hs : ecallEvgAddRule s i a p q node = some s') :
    s'.Stores Q := by
  simp only [ecallEvgAddRule, Option.bind_eq_bind, Option.bind_eq_some_iff] at hs
  obtain ⟨r, hlook, hs⟩ := hs
  split at hs
  · cases hs
  · have hfind : NoneJoins s (sgxEvgFind s i (evictionGroupHashRule (s.oftable i) (s.clsRule r)) p).1 := by
      unfold sgxEvgFind
      split
      · exact NoneJoins.refl s
      · exact NoneJoins.of_eq rfl rfl rfl
    generalize sgxEvgFind s i (evictionGroupHashRule (s.oftable i) (s.clsRule r)) p = sg at hs hfind
    obtain ⟨s1, g⟩ := sg
    dsimp only at hs hfind
    have hins : (evgInsertRule s1 g r node q).Stores Q := by
      intro x hx
      have hprio := IndexedHeap.insert_priority
        (s := (s1.evgRules g).state (Function.update s1.ruleEvgNode r node)) r x q
      have haddr : (evgInsertRule s1 g r node q).oClsRule = s1.oClsRule := rfl
      rw [haddr, hfind.oClsRule]
      rcases eq_or_ne x r with rfl | hxr
      · rw [if_pos rfl] at hprio
        rw [ha x hlook]
        exact (congrArg (Q a) hprio).mpr hq
      · rw [if_neg hxr] at hprio
        have hold : Q (s.oClsRule x) (s1.ruleEvgNode x).priority := by
          rw [hfind.priority]
          refine hst x (hfind.group x ?_)
          have hgroup : (evgInsertRule s1 g r node q).evictGroup x = s1.evictGroup x :=
            Function.update_of_ne hxr _ _
          rwa [hgroup] at hx
        have hnode : ((Function.update s1.ruleEvgNode r node) x).priority
            = (s1.ruleEvgNode x).priority := by rw [Function.update_of_ne hxr]
        exact (congrArg (Q (s.oClsRule x)) (hprio.trans hnode)).mpr hold
    have hrandom : NoneJoins (evgInsertRule s1 g r node q)
        (randomUint16 (evgInsertRule s1 g r node q)).2 := NoneJoins.of_eq rfl rfl rfl
    exact (hrandom.trans (sgxEvgGroupResize_noneJoins hs)).stores hins

/-! ## Adding a flow -/

/-- A new shadow is in no group. -/
theorem ecallClsRuleInit_stores (hst : s.Stores Q) (a : UtAddr) (m : Match) (p : Nat) :
    (ecallClsRuleInit s a m p).Stores Q := by
  intro r hr
  have hgroup : (ecallClsRuleInit s a m p).evictGroup =
      Function.update s.evictGroup s.nextRule none := rfl
  have hne : r ≠ s.nextRule := by
    rintro rfl
    exact hr (by rw [hgroup, Function.update_self])
  have haddr : (ecallClsRuleInit s a m p).oClsRule r = s.oClsRule r := ecallClsRuleInit_oClsRule hne
  have hnode : (ecallClsRuleInit s a m p).ruleEvgNode r = s.ruleEvgNode r :=
    Function.update_of_ne hne _ _
  rw [haddr, hnode]
  refine hst r ?_
  rwa [hgroup, Function.update_of_ne hne] at hr

theorem evictForFlow_noneJoins {i : Nat} {cr : UtAddr} {out out' : AddFlowOut}
    (hs : evictForFlow s i cr out = some (s', out')) : NoneJoins s s' := by
  unfold evictForFlow at hs
  split at hs
  · cases hs
    exact NoneJoins.refl s
  · obtain ⟨evict, -, hs⟩ := Option.bind_eq_some_iff.mp hs
    cases evict with
    | none =>
      cases hs
      exact NoneJoins.refl s
    | some e =>
      simp only [Option.bind_eq_bind, Option.bind_eq_some_iff] at hs
      obtain ⟨s1, h1, s2, h2, _, -, hs⟩ := hs
      cases hs
      exact (ecallClsRemove_noneJoins h1).trans (ecallEvgRemoveRule_noneJoins h2)

theorem evgRemoveVictim_noneJoins {i : Nat} {v : Option UtAddr}
    (hs : evgRemoveVictim s i v = some s') : NoneJoins s s' ∧ s'.clsRules = s.clsRules := by
  cases v with
  | none =>
    cases hs
    exact ⟨NoneJoins.refl s, rfl⟩
  | some v => exact ⟨ecallEvgRemoveRule_noneJoins hs, (ecallEvgRemoveRule_sameRules hs).clsRules⟩

theorem installFlow_stores {args : AddFlowArgs} {r : RuleId} {out out' : AddFlowOut}
    (hst : s.Stores Q) (hlook : sgxRuleFromUtCr s args.cr = some r) (ha : s.oClsRule r = args.cr)
    (hq : args.hasTimeout = true → Q args.cr args.evictionRulePriority)
    (hs : installFlow s args out = some (s', out')) : s'.Stores Q := by
  obtain ⟨s2, s3, h2, h3, hcases⟩ := installFlow_cases hlook hs
  have hj1 : NoneJoins s (replaceState s args.tableId r) := NoneJoins.of_eq rfl rfl rfl
  obtain ⟨hj2, hcls2⟩ := evgRemoveVictim_noneJoins h2
  have ha0 : s.Addressed args.cr := by
    intro q hq
    rw [hlook, Option.some.injEq] at hq
    rw [← hq, ha]
  have hst2 : s2.Stores Q := (hj1.trans hj2).stores hst
  have hst3 : s3.Stores Q := by
    unfold evgAddFlow at h3
    split at h3
    · rename_i hb
      exact ecallEvgAddRule_stores hst2 (ha0.congr hcls2 (hj1.trans hj2).oClsRule)
        (hq (Bool.and_eq_true_iff.mp hb).2) h3
    · cases h3
      exact hst2
  obtain ⟨-, -, rfl, -⟩ | ⟨-, out3, -, -, h4, -⟩ := hcases
  · exact hst3
  · exact (evictForFlow_noneJoins h4).stores hst3

theorem ecallAddFlow_stores {args : AddFlowArgs} {out : AddFlowOut} (h : ShadowsOk s)
    (hnew : s.NewAddr args.cr) (hst : s.Stores Q)
    (hq : args.hasTimeout = true → Q args.cr args.evictionRulePriority)
    (hs : ecallAddFlow s args = some (s', out)) : s'.Stores Q := by
  have hinit := ecallClsRuleInit_stores hst args.cr args.match args.priority
  obtain ⟨-, rfl, -⟩ | ⟨-, hdes, -⟩ | ⟨-, hinst⟩ := ecallAddFlow_cases hs
  · exact hst
  · exact (ecallClsRuleDestroy_onlyShadows hdes).noneJoins.stores hinit
  · exact installFlow_stores hinit (ecallClsRuleInit_lookup h hnew) ecallClsRuleInit_oClsRule_self
      hq hinst

end Joins

end OvsSgx
