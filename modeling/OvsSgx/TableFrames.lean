/-
OvsSgx.TableFrames — what an ecall leaves as it is.

A call that does not change a table leaves its classifier and the matches,
priorities and addresses of its rules, and so every lookup in it. And no
call at all changes the match of a rule that exists or the mask of a
subtable that exists.
-/
import OvsSgx.EnclaveRuns

namespace OvsSgx

open RankedList

/-! ## What a lookup in a table depends on -/

/-- Table `i` has the same classifier in both states, with the same matches, priorities and
addresses of its rules. -/
structure TableFrame (i : Nat) (s s' : Enclave) : Prop where
  cls : (s'.oftable i).cls = (s.oftable i).cls
  rule : ∀ r ∈ s.rules i, (s'.clsRule r).match = (s.clsRule r).match ∧
    (s'.clsRule r).priority = (s.clsRule r).priority ∧ s'.oClsRule r = s.oClsRule r

theorem TableFrame.refl (i : Nat) (s : Enclave) : TableFrame i s s :=
  ⟨rfl, fun _ _ => ⟨rfl, rfl, rfl⟩⟩

theorem TableFrame.rules {i : Nat} {s s' : Enclave} (h : TableFrame i s s') :
    s'.rules i = s.rules i :=
  congrArg Classifier.rules h.cls

theorem TableFrame.trans {i : Nat} {s s' s'' : Enclave} (h : TableFrame i s s')
    (h' : TableFrame i s' s'') : TableFrame i s s'' := by
  refine ⟨h'.cls.trans h.cls, fun r hr => ?_⟩
  obtain ⟨h1, h2, h3⟩ := h.rule r hr
  obtain ⟨h1', h2', h3'⟩ := h'.rule r (h.rules ▸ hr)
  exact ⟨h1'.trans h1, h2'.trans h2, h3'.trans h3⟩

theorem SameRules.tableFrame {s s' : Enclave} (h : SameRules s s') (i : Nat) :
    TableFrame i s s' :=
  ⟨h.cls i, fun r _ => by simp [h.clsRule, h.oClsRule]⟩

/-- `find_match` reads of a rule its match only. -/
theorem findMatch_store_congr {R R' : RuleStore} {tbl : ClsTable} (flow : Flow)
    (h : ∀ r ∈ chainRules tbl.rules, (R' r).match = (R r).match) :
    findMatch R' tbl flow = findMatch R tbl flow := by
  unfold findMatch
  refine congrArg _ (List.find?_congr fun c hc => ?_)
  have hhead : c.head ∈ chainRules tbl.rules :=
    mem_chainRules.mpr ⟨_, ChainMap.mem_withHash.mp hc, by simp [RuleChain.rules]⟩
  rw [h _ hhead]

theorem findMatch_mem {R : RuleStore} {tbl : ClsTable} {flow : Flow} {r : RuleId}
    (h : findMatch R tbl flow = some r) : r ∈ chainRules tbl.rules := by
  obtain ⟨c, hc, rfl⟩ := Option.map_eq_some_iff.mp h
  exact mem_chainRules.mpr
    ⟨_, ChainMap.mem_withHash.mp (List.mem_of_find?_eq_some hc), by simp [RuleChain.rules]⟩

/-- What a lookup finds is in the table. -/
theorem classifierLookup_mem {R : RuleStore} {cls : Classifier} (h : ClassifierOk R cls)
    {flow : Flow} {wc : Option FlowWildcards} {r : RuleId}
    (hr : (classifierLookup R cls flow wc).1 = some r) : r ∈ cls.rules := by
  have hbound : ∀ t ∈ cls.tablesPriority, ∀ q, findMatch R (cls.table t) flow = some q →
      (R q).priority ≤ (cls.table t).maxPriority := fun t ht q hq =>
    (h.table t ht).max.le q (findMatch_mem hq)
  obtain ⟨⟨t, ht, hrt⟩, -⟩ := search_sound h.ranked hbound hr
  exact h.mem_rules.mpr ⟨t, ht, findMatch_mem hrt⟩

/-- A lookup in a table that has kept its rules has the same answer. -/
theorem TableFrame.lookup {P : Match → Prop} {i : Nat} {s s' : Enclave} (h : TableFrame i s s')
    (hok : EnclaveOk P s) (flow : Flow) (wc : Option FlowWildcards) :
    (ecallOftableClsLookup s' i flow wc).1 = (ecallOftableClsLookup s i flow wc).1 := by
  have hmem : ∀ t ∈ (s.oftable i).cls.tablesPriority,
      ∀ r ∈ chainRules ((s.oftable i).cls.table t).rules, r ∈ s.rules i := fun t ht r hr =>
    (hok.cls i).mem_rules.mpr ⟨t, ht, hr⟩
  have hprobe : ∀ t ∈ (s.oftable i).cls.tablesPriority,
      findMatch s'.clsRule ((s.oftable i).cls.table t) flow
        = findMatch s.clsRule ((s.oftable i).cls.table t) flow := fun t ht =>
    findMatch_store_congr flow fun r hr => (h.rule r (hmem t ht r hr)).1
  have hsame : (classifierLookup s'.clsRule (s'.oftable i).cls flow wc).1
      = (classifierLookup s.clsRule (s.oftable i).cls flow wc).1 := by
    unfold classifierLookup
    rw [h.cls, search_congr fun t ht => hprobe t (visited_subset _ ht)]
    exact search_fst_congr (fun t ht r hr => (h.rule r (hmem t ht r (findMatch_mem hr))).2.1) wc wc
  simp only [ecallOftableClsLookup, hsame]
  cases hr : (classifierLookup s.clsRule (s.oftable i).cls flow wc).1 with
  | none => rfl
  | some r => simp [(h.rule r (classifierLookup_mem (hok.cls i) hr)).2.2]

/-! ## The calls that leave a table alone -/

/-- The tables that a call changes without dropping the whole cache. -/
def Call.changed : Call → List Nat
  | .oftableClassifierReplace i _ => [i]
  | .clsRemove i _ => [i]
  | .addFlow args => [args.tableId]
  | .deleteFlows l => l.map Prod.fst
  | .oftableRemoveRules l => l.map Prod.fst
  | _ => []

section Frame

variable {P : Match → Prop} {s s' : Enclave} {i j : Nat}

theorem ecallClsRemove_frame {a : UtAddr} (hij : i ≠ j) (hs : ecallClsRemove s j a = some s') :
    TableFrame i s s' := by
  simp only [ecallClsRemove, Option.bind_eq_bind, Option.bind_eq_some_iff] at hs
  obtain ⟨r, -, cls, -, h3⟩ := hs
  cases h3
  exact ⟨by rw [setOftable_oftable_ne _ _ hij], fun _ _ => ⟨rfl, rfl, rfl⟩⟩

theorem nodeDelete_frame {a : UtAddr} (hs : nodeDelete s a = some s') : TableFrame i s s' := by
  simp only [nodeDelete, Option.bind_eq_bind, Option.bind_eq_some_iff] at hs
  obtain ⟨r, -, h2⟩ := hs
  cases h2
  exact ⟨rfl, fun _ _ => ⟨rfl, rfl, rfl⟩⟩

theorem ecallClsRuleDestroy_frame {a : UtAddr} (hs : ecallClsRuleDestroy s a = some s') :
    TableFrame i s s' := by
  simp only [ecallClsRuleDestroy, Option.bind_eq_bind, Option.bind_eq_some_iff] at hs
  obtain ⟨r, -, h2⟩ := hs
  exact nodeDelete_frame h2

theorem ecallClsRuleInit_frame (h : EnclaveOk P s) (a : UtAddr) (m : Match) (p : Nat) :
    TableFrame i s (ecallClsRuleInit s a m p) := by
  refine ⟨by rw [ecallClsRuleInit_oftable], fun r hr => ?_⟩
  have hne : r ≠ s.nextRule := fun heq => h.nextRule_not_mem i (heq ▸ hr)
  rw [ecallClsRuleInit_clsRule hne, ecallClsRuleInit_oClsRule hne]
  exact ⟨rfl, rfl, rfl⟩

/-- The only thing that `classifier_replace` writes to a rule is a hash. -/
theorem classifierReplace_store (R : RuleStore) (cls : Classifier) (r : RuleId) :
    (classifierReplace R cls r).2.1 = setRuleHash R r := by
  simp only [classifierReplace]
  split <;> rfl

theorem replaceState_frame (hij : i ≠ j) (r : RuleId) : TableFrame i s (replaceState s j r) := by
  refine ⟨?_, fun q _ => ?_⟩
  · simp only [replaceState]
    rw [setOftable_oftable_ne _ _ hij]
  · have hstore : (replaceState s j r).clsRule = setRuleHash s.clsRule r :=
      classifierReplace_store _ _ r
    obtain ⟨h1, h2⟩ := setRuleHash_match (R := s.clsRule) r q
    rw [hstore]
    exact ⟨h1, h2, rfl⟩

theorem deleteFlow_frame {a : UtAddr} {d : DeletedFlow} (hij : i ≠ j)
    (hs : deleteFlow s j a = some (s', d)) : TableFrame i s s' := by
  simp only [deleteFlow, Option.bind_eq_bind, Option.bind_eq_some_iff] at hs
  obtain ⟨_, _, _, _, _, _, _, _, s1, h1, s2, h2, h3⟩ := hs
  cases h3
  exact (ecallClsRemove_frame hij h1).trans ((ecallEvgRemoveRule_sameRules h2).tableFrame i)

theorem ecallDeleteFlows_frame : ∀ {l : List (Nat × UtAddr)} {s s' : Enclave}
    {d : List DeletedFlow}, i ∉ l.map Prod.fst → ecallDeleteFlows s l = some (s', d) →
    TableFrame i s s'
  | [], s, s', d, _, hs => by cases hs; exact TableFrame.refl i s
  | (j, a) :: rest, s, s', d, hi, hs => by
      simp only [ecallDeleteFlows, Option.bind_eq_bind, Option.bind_eq_some_iff] at hs
      obtain ⟨⟨s1, d1⟩, h1, ⟨s2, d2⟩, h2, h3⟩ := hs
      cases h3
      simp only [List.map_cons, List.mem_cons, not_or] at hi
      exact (deleteFlow_frame hi.1 h1).trans (ecallDeleteFlows_frame hi.2 h2)

theorem removeRule_frame {a : UtAddr} {b : Bool} (hij : i ≠ j)
    (hs : removeRule s j a = some (s', b)) : TableFrame i s s' := by
  simp only [removeRule, Option.bind_eq_bind, Option.bind_eq_some_iff] at hs
  obtain ⟨_, _, s1, h1, s2, h2, s3, h3, h4⟩ := hs
  cases h4
  exact ((ecallClsRemove_frame hij h1).trans
    ((ecallEvgRemoveRule_sameRules h2).tableFrame i)).trans (ecallClsRuleDestroy_frame h3)

theorem ecallOftableRemoveRules_frame : ∀ {l : List (Nat × UtAddr)} {s s' : Enclave}
    {d : List Bool}, i ∉ l.map Prod.fst → ecallOftableRemoveRules s l = some (s', d) →
    TableFrame i s s'
  | [], s, s', d, _, hs => by cases hs; exact TableFrame.refl i s
  | (j, a) :: rest, s, s', d, hi, hs => by
      simp only [ecallOftableRemoveRules, Option.bind_eq_bind, Option.bind_eq_some_iff] at hs
      obtain ⟨⟨s1, d1⟩, h1, ⟨s2, d2⟩, h2, h3⟩ := hs
      cases h3
      simp only [List.map_cons, List.mem_cons, not_or] at hi
      exact (removeRule_frame hi.1 h1).trans (ecallOftableRemoveRules_frame hi.2 h2)

theorem evictForFlow_frame {cr : UtAddr} {out out' : AddFlowOut} (hij : i ≠ j)
    (hs : evictForFlow s j cr out = some (s', out')) : TableFrame i s s' := by
  unfold evictForFlow at hs
  split at hs
  · cases hs
    exact TableFrame.refl i s
  · simp only [Option.bind_eq_bind, Option.bind_eq_some_iff] at hs
    obtain ⟨evict, -, hs⟩ := hs
    cases evict with
    | none =>
      cases hs
      exact TableFrame.refl i s
    | some e =>
      simp only [Option.bind_eq_some_iff] at hs
      obtain ⟨s1, h1, s2, h2, hash, -, h3⟩ := hs
      cases h3
      exact (ecallClsRemove_frame hij h1).trans ((ecallEvgRemoveRule_sameRules h2).tableFrame i)

theorem installFlow_frame {args : AddFlowArgs} {r : RuleId} {out out' : AddFlowOut}
    (hij : i ≠ args.tableId) (hlook : sgxRuleFromUtCr s args.cr = some r)
    (hs : installFlow s args out = some (s', out')) : TableFrame i s s' := by
  obtain ⟨s2, s3, h2, h3, hcases⟩ := installFlow_cases hlook hs
  have hframe : TableFrame i s s3 := (replaceState_frame hij r).trans
    (((evgRemoveVictim_sameRules h2).trans (evgAddFlow_sameRules h3)).tableFrame i)
  rcases hcases with ⟨-, -, rfl, -⟩ | ⟨-, out3, -, -, h4, -⟩
  · exact hframe
  · exact hframe.trans (evictForFlow_frame hij h4)

theorem ecallAddFlow_frame {args : AddFlowArgs} {out : AddFlowOut} (h : EnclaveOk P s)
    (hnew : s.NewAddr args.cr) (hij : i ≠ args.tableId)
    (hs : ecallAddFlow s args = some (s', out)) : TableFrame i s s' := by
  have hinit := ecallClsRuleInit_frame (i := i) h args.cr args.match args.priority
  rcases ecallAddFlow_cases hs with ⟨-, rfl, -⟩ | ⟨-, hdes, -⟩ | ⟨-, hinst⟩
  · exact TableFrame.refl i s'
  · exact hinit.trans (ecallClsRuleDestroy_frame hdes)
  · exact hinit.trans (installFlow_frame hij (ecallClsRuleInit_lookup h.shadows hnew) hinst)

theorem setOftable_frame {tbl : Oftable} (htbl : tbl.cls = (s.oftable j).cls) :
    TableFrame i s (s.setOftable j tbl) := by
  refine ⟨?_, fun _ _ => ⟨rfl, rfl, rfl⟩⟩
  by_cases hij : i = j
  · subst hij
    rw [setOftable_oftable_self, htbl]
  · rw [setOftable_oftable_ne _ _ hij]

/-- A call leaves the tables alone that it does not change. -/
theorem exec_frame {c : Call} (h : EnclaveOk P s) (hc : Allowed P s c) (hs : exec s c = some s')
    (hi : i ∉ c.changed) (hflush : ∀ n, c ≠ .ofprotoFlush n) : TableFrame i s s' := by
  cases c with
  | clsRuleInit a m p =>
    cases hs
    exact ecallClsRuleInit_frame h a m p
  | clsRuleDestroy a => exact ecallClsRuleDestroy_frame hs
  | oftableClassifierReplace j a =>
    obtain ⟨⟨r, hr, rfl⟩, -⟩ := hc
    simp only [exec, ecallOftableClassifierReplace_eq (h.shadows.lookup_self hr), Option.map_some,
      Option.some.injEq] at hs
    rw [← hs]
    exact replaceState_frame (by simpa [Call.changed] using hi) r
  | clsRemove j a => exact ecallClsRemove_frame (by simpa [Call.changed] using hi) hs
  | addFlow args =>
    obtain ⟨⟨s1, out⟩, h1, rfl⟩ := Option.map_eq_some_iff.mp hs
    exact ecallAddFlow_frame h hc.1 (by simpa [Call.changed] using hi) h1
  | deleteFlows l =>
    obtain ⟨⟨s1, d⟩, h1, rfl⟩ := Option.map_eq_some_iff.mp hs
    exact ecallDeleteFlows_frame hi h1
  | oftableRemoveRules l =>
    obtain ⟨⟨s1, d⟩, h1, rfl⟩ := Option.map_eq_some_iff.mp hs
    exact ecallOftableRemoveRules_frame hi h1
  | ofprotoFlush n => exact absurd rfl (hflush n)
  | evgAddRule j a p q node => exact (ecallEvgAddRule_sameRules hs).tableFrame i
  | evgRemoveRule j a => exact (ecallEvgRemoveRule_sameRules hs).tableFrame i
  | oftableEnableEviction j fields v =>
    obtain ⟨⟨s1, b⟩, h1, rfl⟩ := Option.map_eq_some_iff.mp hs
    exact (ecallOftableEnableEviction_sameRules h1).tableFrame i
  | oftableDisableEviction j => exact (ecallOftableDisableEviction_sameRules hs).tableFrame i
  | ofprotoEvict n start bufSize =>
    obtain ⟨res, h1, rfl⟩ := Option.map_eq_some_iff.mp hs
    exact (ecallOfprotoEvict_sameRules h1).tableFrame i
  | oftableMflowsSet j v =>
    cases hs
    exact setOftable_frame rfl
  | oftableSetReadonly j =>
    cases hs
    exact setOftable_frame rfl

end Frame

/-! ## Subtables -/

/-- The subtables of `cls'` are those of `cls`, except that some may have gone and that new ones
have new addresses; none has another mask than before. -/
structure SubtablesKept (cls cls' : Classifier) : Prop where
  next : cls.nextTable ≤ cls'.nextTable
  mask : ∀ t < cls.nextTable, (cls'.table t).mask = (cls.table t).mask
  mem : ∀ t ∈ cls'.tables.values, t ∈ cls.tables.values ∨ cls.nextTable ≤ t

section Subtables

variable {cls cls' cls'' : Classifier}

theorem SubtablesKept.refl (cls : Classifier) : SubtablesKept cls cls :=
  ⟨le_rfl, fun _ _ => rfl, fun _ ht => .inl ht⟩

theorem SubtablesKept.trans (h : SubtablesKept cls cls') (h' : SubtablesKept cls' cls'') :
    SubtablesKept cls cls'' := by
  refine ⟨h.next.trans h'.next, fun t ht => ?_, fun t ht => ?_⟩
  · exact (h'.mask t (ht.trans_le h.next)).trans (h.mask t ht)
  · rcases h'.mem t ht with ht | ht
    · exact h.mem t ht
    · exact .inr (h.next.trans ht)

/-- Writing a subtable back with the same mask. -/
theorem subtablesKept_setTable (cls : Classifier) (t : TableId) (tbl : ClsTable)
    (h : tbl.mask = (cls.table t).mask) : SubtablesKept cls (cls.setTable t tbl) := by
  refine ⟨le_rfl, fun u _ => ?_, fun _ hu => .inl hu⟩
  by_cases hu : u = t
  · subst hu
    simp [Classifier.setTable, h]
  · simp [Classifier.setTable, hu]

theorem updateTablesAfterInsertion_kept (cls : Classifier) (t : TableId) (p : Nat) :
    SubtablesKept cls (updateTablesAfterInsertion cls t p) := by
  unfold updateTablesAfterInsertion
  dsimp only
  split
  · exact subtablesKept_setTable cls t _ rfl
  · split
    · have h := subtablesKept_setTable cls t
        { cls.table t with maxPriority := p, maxCount := 1 } rfl
      exact ⟨h.next, h.mask, h.mem⟩
    · exact SubtablesKept.refl cls

theorem updateTablesAfterRemoval_kept (R : RuleStore) (cls : Classifier) (t : TableId) (p : Nat) :
    SubtablesKept cls (updateTablesAfterRemoval R cls t p) := by
  unfold updateTablesAfterRemoval
  dsimp only
  split
  · split
    · have h := subtablesKept_setTable cls t
        { cls.table t with
          maxPriority := (recomputeMax R (cls.table t).rules).1
          maxCount := (recomputeMax R (cls.table t).rules).2 } rfl
      exact ⟨h.next, h.mask, h.mem⟩
    · exact subtablesKept_setTable cls t _ rfl
  · exact SubtablesKept.refl cls

theorem insertRule_kept (R : RuleStore) (cls : Classifier) (t : TableId) (r : RuleId) :
    SubtablesKept cls (insertRule R cls t r).1 := by
  have hset := subtablesKept_setTable cls t
    { cls.table t with rules := (linkRule R (cls.table t) r).1 } rfl
  unfold insertRule
  dsimp only
  split
  · exact hset.trans (updateTablesAfterInsertion_kept _ t _)
  · exact hset

theorem countRule_kept (cls : Classifier) (t : TableId) : SubtablesKept cls (countRule cls t) := by
  have h := subtablesKept_setTable cls t
    { cls.table t with nTableRules := (cls.table t).nTableRules + 1 } rfl
  exact ⟨h.next, h.mask, h.mem⟩

theorem findOrInsertTable_kept (cls : Classifier) (mask : Minimask) :
    SubtablesKept cls (findOrInsertTable cls mask).1 := by
  unfold findOrInsertTable
  split
  · exact SubtablesKept.refl cls
  · refine ⟨Nat.le_succ _, fun t ht => ?_, fun t ht => ?_⟩
    · simp [insertTable, Function.update_of_ne (Nat.ne_of_lt ht)]
    · have hperm := values_hmapInsert_perm cls.tables cls.nextTable (tableHash mask)
      rcases List.mem_cons.mp (hperm.mem_iff.mp ht) with rfl | ht
      · exact .inr le_rfl
      · exact .inl ht

theorem classifierReplace_kept (R : RuleStore) (cls : Classifier) (r : RuleId) :
    SubtablesKept cls (classifierReplace R cls r).1 := by
  have hfind := findOrInsertTable_kept cls (R r).match.mask
  have hins := hfind.trans (insertRule_kept (setRuleHash R r)
    (findOrInsertTable cls (R r).match.mask).1 (findOrInsertTable cls (R r).match.mask).2 r)
  unfold classifierReplace
  dsimp only
  split
  · exact hins.trans (countRule_kept _ _)
  · exact hins

theorem destroyTable_kept (cls : Classifier) (t : TableId) :
    SubtablesKept cls (destroyTable cls t) := by
  refine ⟨le_rfl, fun _ _ => rfl, fun u hu => .inl ?_⟩
  unfold destroyTable hmapRemove at hu
  exact (ChainMap.values_erase_sublist _ _).subset hu

theorem classifierRemove_kept {R : RuleStore} {r : RuleId}
    (h : classifierRemove R cls r = some cls') : SubtablesKept cls cls' := by
  simp only [classifierRemove, Option.bind_eq_bind, Option.bind_eq_some_iff] at h
  obtain ⟨t, -, rules, -, h⟩ := h
  cases h
  have hset := subtablesKept_setTable cls t { cls.table t with
    rules := rules, nTableRules := (cls.table t).nTableRules - 1 } rfl
  refine hset.trans ?_
  split
  · have h := destroyTable_kept (cls.setTable t { cls.table t with
      rules := rules, nTableRules := (cls.table t).nTableRules - 1 }) t
    exact ⟨h.next, h.mask, h.mem⟩
  · have h := updateTablesAfterRemoval_kept R (cls.setTable t { cls.table t with
      rules := rules, nTableRules := (cls.table t).nTableRules - 1 }) t (R r).priority
    exact ⟨h.next, h.mask, h.mem⟩

theorem classifierRemove_nextTable {R : RuleStore} {cls cls' : Classifier} {r : RuleId}
    (h : classifierRemove R cls r = some cls') : cls'.nextTable = cls.nextTable := by
  simp only [classifierRemove, Option.bind_eq_bind, Option.bind_eq_some_iff] at h
  obtain ⟨t, -, rules, -, h⟩ := h
  cases h
  dsimp only
  split
  · rfl
  · unfold updateTablesAfterRemoval
    dsimp only
    split
    · split <;> rfl
    · rfl

/-- As long as no subtable is new, the rules that are left stay in their subtables. -/
theorem SubtablesKept.findTable {R R' : RuleStore} {q : RuleId} (hkept : SubtablesKept cls cls')
    (hok : ClassifierOk R cls) (hok' : ClassifierOk R' cls')
    (hnext : cls'.nextTable = cls.nextTable) (hq : q ∈ cls'.rules) :
    findTable cls' (R' q).match.mask = findTable cls (R' q).match.mask := by
  obtain ⟨t, ht, hqt⟩ := hok'.mem_rules.mp hq
  have hold : t ∈ cls.tables.values := by
    rcases hkept.mem t (hok'.mem_values.mpr ht) with hold | hnew
    · exact hold
    · have := hok'.fresh t ht
      rw [hnext] at this
      exact absurd this (Nat.not_lt.mpr hnew)
  have hold' := hok.mem_values.mp hold
  rw [hok'.rule_mask ht hqt, findTable_of_mem hok'.toTablesOk ht,
    hkept.mask t (hok.fresh t hold'), findTable_of_mem hok.toTablesOk hold']

end Subtables

/-! ## Rules and subtables over a call -/

/-- Rules that exist have kept their matches, priorities and addresses, and subtables that exist
their masks. -/
structure Kept (s s' : Enclave) : Prop where
  nextRule : s.nextRule ≤ s'.nextRule
  rule : ∀ r < s.nextRule, (s'.clsRule r).match = (s.clsRule r).match ∧
    (s'.clsRule r).priority = (s.clsRule r).priority ∧ s'.oClsRule r = s.oClsRule r
  cls : ∀ i, SubtablesKept (s.oftable i).cls (s'.oftable i).cls

/-- Rules have been taken out: no subtable is new. -/
structure Shrunk (s s' : Enclave) : Prop extends Kept s s' where
  noNew : ∀ i, (s'.oftable i).cls.nextTable = (s.oftable i).cls.nextTable

section Calls

variable {P : Match → Prop} {s s' s'' : Enclave} {i : Nat} {a : UtAddr}

theorem Kept.refl (s : Enclave) : Kept s s :=
  ⟨le_rfl, fun _ _ => ⟨rfl, rfl, rfl⟩, fun _ => SubtablesKept.refl _⟩

theorem Kept.trans (h : Kept s s') (h' : Kept s' s'') : Kept s s'' := by
  refine ⟨h.nextRule.trans h'.nextRule, fun r hr => ?_, fun i => (h.cls i).trans (h'.cls i)⟩
  obtain ⟨h1, h2, h3⟩ := h.rule r hr
  obtain ⟨h1', h2', h3'⟩ := h'.rule r (hr.trans_le h.nextRule)
  exact ⟨h1'.trans h1, h2'.trans h2, h3'.trans h3⟩

theorem Shrunk.refl (s : Enclave) : Shrunk s s := ⟨Kept.refl s, fun _ => rfl⟩

theorem Shrunk.trans (h : Shrunk s s') (h' : Shrunk s' s'') : Shrunk s s'' :=
  ⟨h.toKept.trans h'.toKept, fun i => (h'.noNew i).trans (h.noNew i)⟩

theorem SameRules.shrunk (h : SameRules s s') : Shrunk s s' := by
  refine ⟨⟨h.nextRule.ge, fun r _ => by simp [h.clsRule, h.oClsRule], fun i => ?_⟩, fun i => ?_⟩
  · rw [h.cls i]
    exact SubtablesKept.refl _
  · rw [h.cls i]

theorem SameRules.kept (h : SameRules s s') : Kept s s' := h.shrunk.toKept

/-- Writing back one table whose subtables are kept. -/
theorem setOftable_kept (s : Enclave) (i : Nat) (tbl : Oftable)
    (h : SubtablesKept (s.oftable i).cls tbl.cls) : Kept s (s.setOftable i tbl) := by
  refine ⟨le_rfl, fun _ _ => ⟨rfl, rfl, rfl⟩, fun j => ?_⟩
  by_cases hji : j = i
  · subst hji
    rw [setOftable_oftable_self]
    exact h
  · rw [setOftable_oftable_ne _ _ hji]
    exact SubtablesKept.refl _

theorem ecallClsRemove_shrunk (hs : ecallClsRemove s i a = some s') : Shrunk s s' := by
  simp only [ecallClsRemove, Option.bind_eq_bind, Option.bind_eq_some_iff] at hs
  obtain ⟨r, -, cls, hrem, h3⟩ := hs
  cases h3
  refine ⟨setOftable_kept s i _ (classifierRemove_kept hrem), fun j => ?_⟩
  rcases eq_or_ne j i with rfl | hji
  · rw [setOftable_oftable_self]
    exact classifierRemove_nextTable hrem
  · rw [setOftable_oftable_ne _ _ hji]

theorem replaceState_kept (s : Enclave) (i : Nat) (r : RuleId) : Kept s (replaceState s i r) := by
  have hset := setOftable_kept s i { s.oftable i with
    cls := (classifierReplace s.clsRule (s.oftable i).cls r).1 }
    (classifierReplace_kept s.clsRule (s.oftable i).cls r)
  refine ⟨hset.nextRule, fun q _ => ?_, hset.cls⟩
  have hstore : (replaceState s i r).clsRule = setRuleHash s.clsRule r :=
    classifierReplace_store _ _ r
  obtain ⟨h1, h2⟩ := setRuleHash_match (R := s.clsRule) r q
  rw [hstore]
  exact ⟨h1, h2, rfl⟩

theorem ecallClsRuleDestroy_shrunk (hs : ecallClsRuleDestroy s a = some s') : Shrunk s s' := by
  simp only [ecallClsRuleDestroy, nodeDelete, Option.bind_eq_bind, Option.bind_eq_some_iff] at hs
  obtain ⟨r, -, q, -, h3⟩ := hs
  cases h3
  exact ⟨⟨le_rfl, fun _ _ => ⟨rfl, rfl, rfl⟩, fun _ => SubtablesKept.refl _⟩, fun _ => rfl⟩

theorem ecallClsRuleInit_kept (s : Enclave) (a : UtAddr) (m : Match) (p : Nat) :
    Kept s (ecallClsRuleInit s a m p) := by
  refine ⟨Nat.le_succ _, fun r hr => ?_, fun _ => SubtablesKept.refl _⟩
  rw [ecallClsRuleInit_clsRule (Nat.ne_of_lt hr), ecallClsRuleInit_oClsRule (Nat.ne_of_lt hr)]
  exact ⟨rfl, rfl, rfl⟩

theorem clsRemove_evgRemove_shrunk {b : UtAddr} (h1 : ecallClsRemove s i a = some s')
    (h2 : ecallEvgRemoveRule s' i b = some s'') : Shrunk s s'' :=
  (ecallClsRemove_shrunk h1).trans (ecallEvgRemoveRule_sameRules h2).shrunk

theorem ecallDeleteFlows_shrunk : ∀ {l : List (Nat × UtAddr)} {s s' : Enclave}
    {d : List DeletedFlow}, ecallDeleteFlows s l = some (s', d) → Shrunk s s'
  | [], s, s', d, hs => by cases hs; exact Shrunk.refl s
  | (i, a) :: rest, s, s', d, hs => by
      simp only [ecallDeleteFlows, deleteFlow, Option.bind_eq_bind, Option.bind_eq_some_iff] at hs
      obtain ⟨⟨s1, d1⟩, ⟨_, _, _, _, _, _, _, _, s2, h1, s3, h2, h3⟩, ⟨s4, d2⟩, h4, h5⟩ := hs
      cases h3
      cases h5
      exact (clsRemove_evgRemove_shrunk h1 h2).trans (ecallDeleteFlows_shrunk h4)

theorem ecallOftableRemoveRules_shrunk : ∀ {l : List (Nat × UtAddr)} {s s' : Enclave}
    {d : List Bool}, ecallOftableRemoveRules s l = some (s', d) → Shrunk s s'
  | [], s, s', d, hs => by cases hs; exact Shrunk.refl s
  | (i, a) :: rest, s, s', d, hs => by
      simp only [ecallOftableRemoveRules, removeRule, Option.bind_eq_bind,
        Option.bind_eq_some_iff] at hs
      obtain ⟨⟨s1, d1⟩, ⟨_, _, s2, h1, s3, h2, s4, h3, h4⟩, ⟨s5, d2⟩, h5, h6⟩ := hs
      cases h4
      cases h6
      exact ((clsRemove_evgRemove_shrunk h1 h2).trans (ecallClsRuleDestroy_shrunk h3)).trans
        (ecallOftableRemoveRules_shrunk h5)

theorem flushRule_shrunk {bufSize : Nat} {f f' : Flushed} {r : RuleId}
    (hs : flushRule i bufSize f r = some f') : Shrunk f.state f'.state := by
  unfold flushRule at hs
  split at hs
  · cases hs
    exact Shrunk.refl _
  · simp only [Option.bind_eq_bind, Option.bind_eq_some_iff] at hs
    obtain ⟨hash, -, s1, h1, s2, h2, h3⟩ := hs
    cases h3
    exact clsRemove_evgRemove_shrunk h1 h2

theorem flushLoop_shrunk {bufSize : Nat} : ∀ (fuel : Nat) {f f' : Flushed} {next : Option RuleId},
    flushLoop i bufSize fuel f next = some f' → Shrunk f.state f'.state
  | 0, f, f', none, hs => by cases hs; exact Shrunk.refl _
  | _ + 1, f, f', none, hs => by cases hs; exact Shrunk.refl _
  | 0, f, f', some r, hs => by cases hs
  | fuel + 1, f, f', some r, hs => by
      simp only [flushLoop, Option.bind_eq_bind, Option.bind_eq_some_iff] at hs
      obtain ⟨f1, h1, h2⟩ := hs
      exact (flushRule_shrunk h1).trans (flushLoop_shrunk fuel h2)

theorem foldlM_flushTable_shrunk {bufSize : Nat} : ∀ {l : List Nat} {f f' : Flushed},
    l.foldlM (flushTable bufSize) f = some f' → Shrunk f.state f'.state
  | [], f, f', hs => by cases hs; exact Shrunk.refl _
  | i :: l, f, f', hs => by
      rw [List.foldlM_cons, Option.bind_eq_bind, Option.bind_eq_some_iff] at hs
      obtain ⟨f1, h1, h2⟩ := hs
      refine Shrunk.trans ?_ (foldlM_flushTable_shrunk h2)
      unfold flushTable at h1
      split at h1
      · cases h1
        exact Shrunk.refl _
      · exact flushLoop_shrunk _ h1

theorem evictForFlow_shrunk {cr : UtAddr} {out out' : AddFlowOut}
    (hs : evictForFlow s i cr out = some (s', out')) : Shrunk s s' := by
  unfold evictForFlow at hs
  split at hs
  · cases hs
    exact Shrunk.refl s
  · simp only [Option.bind_eq_bind, Option.bind_eq_some_iff] at hs
    obtain ⟨evict, -, hs⟩ := hs
    cases evict with
    | none =>
      cases hs
      exact Shrunk.refl s
    | some e =>
      simp only [Option.bind_eq_some_iff] at hs
      obtain ⟨s1, h1, s2, h2, hash, -, h3⟩ := hs
      cases h3
      exact clsRemove_evgRemove_shrunk h1 h2

theorem installFlow_kept {args : AddFlowArgs} {r : RuleId} {out out' : AddFlowOut}
    (hlook : sgxRuleFromUtCr s args.cr = some r)
    (hs : installFlow s args out = some (s', out')) : Kept s s' := by
  obtain ⟨s2, s3, h2, h3, hcases⟩ := installFlow_cases hlook hs
  have hkept : Kept s s3 := (replaceState_kept s args.tableId r).trans
    ((evgRemoveVictim_sameRules h2).trans (evgAddFlow_sameRules h3)).kept
  rcases hcases with ⟨-, -, rfl, -⟩ | ⟨-, out3, -, -, h4, -⟩
  · exact hkept
  · exact hkept.trans (evictForFlow_shrunk h4).toKept

theorem ecallAddFlow_kept {args : AddFlowArgs} {out : AddFlowOut} (h : EnclaveOk P s)
    (hnew : s.NewAddr args.cr) (hs : ecallAddFlow s args = some (s', out)) : Kept s s' := by
  have hinit := ecallClsRuleInit_kept s args.cr args.match args.priority
  rcases ecallAddFlow_cases hs with ⟨-, rfl, -⟩ | ⟨-, hdes, -⟩ | ⟨-, hinst⟩
  · exact Kept.refl s'
  · exact hinit.trans (ecallClsRuleDestroy_shrunk hdes).toKept
  · exact hinit.trans (installFlow_kept (ecallClsRuleInit_lookup h.shadows hnew) hinst)

/-- No call changes the match of a rule or the mask of a subtable. -/
theorem exec_kept {c : Call} (h : EnclaveOk P s) (hc : Allowed P s c) (hs : exec s c = some s') :
    Kept s s' := by
  cases c with
  | clsRuleInit a m p =>
    cases hs
    exact ecallClsRuleInit_kept s a m p
  | clsRuleDestroy a => exact (ecallClsRuleDestroy_shrunk hs).toKept
  | oftableClassifierReplace j a =>
    obtain ⟨⟨r, hr, rfl⟩, -⟩ := hc
    simp only [exec, ecallOftableClassifierReplace_eq (h.shadows.lookup_self hr), Option.map_some,
      Option.some.injEq] at hs
    rw [← hs]
    exact replaceState_kept s j r
  | clsRemove j a => exact (ecallClsRemove_shrunk hs).toKept
  | addFlow args =>
    obtain ⟨⟨s1, out⟩, h1, rfl⟩ := Option.map_eq_some_iff.mp hs
    exact ecallAddFlow_kept h hc.1 h1
  | deleteFlows l =>
    obtain ⟨⟨s1, d⟩, h1, rfl⟩ := Option.map_eq_some_iff.mp hs
    exact (ecallDeleteFlows_shrunk h1).toKept
  | oftableRemoveRules l =>
    obtain ⟨⟨s1, d⟩, h1, rfl⟩ := Option.map_eq_some_iff.mp hs
    exact (ecallOftableRemoveRules_shrunk h1).toKept
  | ofprotoFlush n =>
    obtain ⟨f, h1, rfl⟩ := Option.map_eq_some_iff.mp hs
    exact (foldlM_flushTable_shrunk (f := ⟨s, [], 0⟩) h1).toKept
  | evgAddRule j a p q node => exact (ecallEvgAddRule_sameRules hs).kept
  | evgRemoveRule j a => exact (ecallEvgRemoveRule_sameRules hs).kept
  | oftableEnableEviction j fields v =>
    obtain ⟨⟨s1, b⟩, h1, rfl⟩ := Option.map_eq_some_iff.mp hs
    exact (ecallOftableEnableEviction_sameRules h1).kept
  | oftableDisableEviction j => exact (ecallOftableDisableEviction_sameRules hs).kept
  | ofprotoEvict n start bufSize =>
    obtain ⟨res, h1, rfl⟩ := Option.map_eq_some_iff.mp hs
    exact (ecallOfprotoEvict_sameRules h1).kept
  | oftableMflowsSet j v =>
    cases hs
    exact setOftable_kept s j _ (SubtablesKept.refl _)
  | oftableSetReadonly j =>
    cases hs
    exact setOftable_kept s j _ (SubtablesKept.refl _)

end Calls

end OvsSgx
