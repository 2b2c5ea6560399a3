/-
OvsSgx.ClassifierTheorems — insertion and removal keep the invariant.

Each of `classifier_replace` and `classifier_remove` is described by one
structure that says everything a caller can rely on: the invariant holds
again, which rules are installed afterwards, and (for a removal) that the
iteration order loses just the removed rule.
-/
import OvsSgx.ClassifierInvariant

namespace OvsSgx

open RankedList

variable {R : RuleStore} {cls : Classifier}

/-! ## Finding the subtable of a mask -/

theorem TablesOk.mem_values (h : TablesOk R cls) {t : TableId} :
    t ∈ cls.tables.values ↔ t ∈ cls.tablesPriority := h.perm.mem_iff

theorem findTable_some (h : TablesOk R cls) {mask : Minimask} {t : TableId}
    (hf : findTable cls mask = some t) :
    t ∈ cls.tablesPriority ∧ (cls.table t).mask = mask := by
  unfold findTable at hf
  have hmask := List.find?_some hf
  rw [minimaskEqual_iff] at hmask
  obtain ⟨hash, he⟩ := ChainMap.mem_entries_of_inBucket (List.mem_of_find?_eq_some hf)
  exact ⟨h.mem_values.mp (List.mem_map.mpr ⟨_, he, rfl⟩), hmask.symm⟩

theorem findTable_none (h : TablesOk R cls) {mask : Minimask} (hf : findTable cls mask = none) :
    ∀ t ∈ cls.tablesPriority, (cls.table t).mask ≠ mask := by
  rintro t ht rfl
  obtain ⟨e, he, rfl⟩ := List.mem_map.mp (h.mem_values.mpr ht)
  have hb := ChainMap.mem_inBucket_of_mem he
  rw [h.hash e he] at hb
  unfold findTable at hf
  have := List.find?_eq_none.mp hf e.2 hb
  simp [minimaskEqual_iff] at this

theorem findTable_of_mem (h : TablesOk R cls) {t : TableId} (ht : t ∈ cls.tablesPriority) :
    findTable cls (cls.table t).mask = some t := by
  cases hf : findTable cls (cls.table t).mask with
  | none => exact absurd rfl (findTable_none h hf t ht)
  | some u =>
    obtain ⟨hu, hmask⟩ := findTable_some h hf
    rw [h.masks u hu t ht hmask]

/-! ## The rules of a classifier -/

theorem Classifier.mem_rules {r : RuleId} :
    r ∈ cls.rules ↔ ∃ t ∈ cls.tables.values, r ∈ chainRules (cls.table t).rules :=
  List.mem_flatMap

theorem TablesOk.mem_rules (h : TablesOk R cls) {r : RuleId} :
    r ∈ cls.rules ↔ ∃ t ∈ cls.tablesPriority, r ∈ chainRules (cls.table t).rules := by
  rw [Classifier.mem_rules]
  simp only [h.mem_values]

/-- A rule sits in the subtable of its mask. -/
theorem TablesOk.rule_mask (h : TablesOk R cls) {t : TableId} (ht : t ∈ cls.tablesPriority)
    {r : RuleId} (hr : r ∈ chainRules (cls.table t).rules) :
    (R r).match.mask = (cls.table t).mask := by
  obtain ⟨e, he, -, hin⟩ := (h.table t ht).chains.mem_rule hr
  exact hin.mask

theorem TablesOk.rules_nodup (h : TablesOk R cls) : cls.rules.Nodup := by
  unfold Classifier.rules
  rw [List.nodup_flatMap]
  constructor
  · exact fun t ht => (h.table t (h.mem_values.mp ht)).chains.nodup
  · refine (h.perm.nodup_iff.mpr h.nodup).imp_of_mem fun {t u} ht hu hne => ?_
    intro r hr hr'
    refine hne (h.masks t (h.mem_values.mp ht) u (h.mem_values.mp hu) ?_)
    rw [← h.rule_mask (h.mem_values.mp ht) hr, ← h.rule_mask (h.mem_values.mp hu) hr']

/-- The iteration order around subtable `t`, whatever that subtable holds. -/
theorem TablesOk.rules_around (h : TablesOk R cls) {t : TableId} (ht : t ∈ cls.tablesPriority) :
    ∃ X Y, (∀ r ∈ X ++ Y, ∃ u ∈ cls.tablesPriority, u ≠ t ∧ r ∈ chainRules (cls.table u).rules) ∧
      ∀ tbl : ClsTable, (cls.tables.values.flatMap fun u =>
        chainRules (Function.update cls.table t tbl u).rules) = X ++ (chainRules tbl.rules ++ Y) := by
  obtain ⟨A, B, hsplit⟩ := List.append_of_mem (h.mem_values.mpr ht)
  have hnd := h.perm.nodup_iff.mpr h.nodup
  rw [hsplit] at hnd
  have htA : t ∉ A := fun hA => (List.nodup_append.mp hnd).2.2 t hA t (by simp) rfl
  have htB : t ∉ B := (List.nodup_cons.mp (List.nodup_append.mp hnd).2.1).1
  refine ⟨A.flatMap fun u => chainRules (cls.table u).rules,
    B.flatMap fun u => chainRules (cls.table u).rules, ?_, fun tbl => ?_⟩
  · intro r hr
    have hmem : ∀ u ∈ A ++ B, u ∈ cls.tablesPriority := fun u hu => h.mem_values.mp (by
      rw [hsplit]
      rcases List.mem_append.mp hu with hu | hu
      · exact List.mem_append_left _ hu
      · exact List.mem_append_right _ (List.mem_cons_of_mem _ hu))
    rcases List.mem_append.mp hr with hr | hr
    · obtain ⟨u, hu, hru⟩ := List.mem_flatMap.mp hr
      exact ⟨u, hmem u (List.mem_append_left _ hu), ne_of_mem_of_not_mem hu htA, hru⟩
    · obtain ⟨u, hu, hru⟩ := List.mem_flatMap.mp hr
      exact ⟨u, hmem u (List.mem_append_right _ hu), ne_of_mem_of_not_mem hu htB, hru⟩
  · have hoff : ∀ l : List TableId, t ∉ l →
        (l.flatMap fun u => chainRules (Function.update cls.table t tbl u).rules)
          = l.flatMap fun u => chainRules (cls.table u).rules := fun l hl =>
      List.flatMap_congr fun u hu => by
        rw [Function.update_of_ne (ne_of_mem_of_not_mem hu hl)]
    rw [hsplit, List.flatMap_append, List.flatMap_cons, hoff A htA, hoff B htB,
      Function.update_self]

/-! ## Changing the store or one subtable -/

theorem RuleIn.congr {R' : RuleStore} {mask : Minimask} {flow : Miniflow} {hash : Nat} {r : RuleId}
    (h : RuleIn R mask flow hash r) (hr : R' r = R r) : RuleIn R' mask flow hash r := by
  obtain ⟨h1, h2, h3, h4⟩ := h
  exact ⟨by rw [hr]; exact h1, by rw [hr]; exact h2, by rw [hr]; exact h3, by rw [hr]; exact h4⟩

theorem ChainsOk.congr {R' : RuleStore} {mask : Minimask} {rules : Hmap RuleChain}
    (h : ChainsOk R mask rules) (hR : ∀ r ∈ chainRules rules, R' r = R r) :
    ChainsOk R' mask rules := by
  have hchain : ∀ e ∈ rules.entries, ∀ r ∈ e.2.rules, R' r = R r := fun e he r hr =>
    hR r (mem_chainRules.mpr ⟨e, he, hr⟩)
  refine ⟨fun e he => ?_, ?_⟩
  · have hhead := hchain e he e.2.head (by simp [RuleChain.rules])
    refine ⟨(h.chain e he).sorted.imp_of_mem fun {a b} ha hb hab => ?_, fun r hr => ?_⟩
    · rw [hchain e he a ha, hchain e he b hb]
      exact hab
    · rw [hhead]
      exact ((h.chain e he).ruleIn r hr).congr (hchain e he r hr)
  · have : rules.values.map (fun c => (R' c.head).match.flow)
        = rules.values.map (fun c => (R c.head).match.flow) :=
      List.map_congr_left fun c hc => by
        obtain ⟨e, he, rfl⟩ := List.mem_map.mp hc
        rw [hchain e he e.2.head (by simp [RuleChain.rules])]
    rw [this]
    exact h.distinct

theorem MaxCount.congr {f g : RuleId → Nat} {l : List RuleId} {m c : Nat}
    (h : MaxCount f l m c) (hfg : ∀ r ∈ l, g r = f r) : MaxCount g l m c :=
  ⟨fun r hr => by rw [hfg r hr]; exact h.le r hr,
    h.count.trans (List.countP_congr fun r hr => by rw [hfg r hr]), h.attained⟩

theorem TableOk.congr {R' : RuleStore} {tbl : ClsTable} (h : TableOk R tbl)
    (hR : ∀ r ∈ chainRules tbl.rules, R' r = R r) : TableOk R' tbl :=
  ⟨h.chains.congr hR, h.count, MaxCount.congr h.max fun r hr => by rw [hR r hr]⟩

/-- The invariant only reads the installed rules. -/
theorem TablesOk.congr {R' : RuleStore} (h : TablesOk R cls)
    (hR : ∀ r ∈ cls.rules, R' r = R r) : TablesOk R' cls :=
  ⟨h.perm, h.nodup, h.hash, h.masks,
    fun t ht => (h.table t ht).congr fun r hr => hR r (h.mem_rules.mpr ⟨t, ht, hr⟩),
    h.ranked, h.fresh, h.nRules⟩

theorem ClassifierOk.congr {R' : RuleStore} (h : ClassifierOk R cls)
    (hR : ∀ r ∈ cls.rules, R' r = R r) : ClassifierOk R' cls :=
  ⟨h.toTablesOk.congr hR, h.positive⟩

/-- Putting subtable `tbl`, with the same mask, in the place of `t`. -/
theorem TablesOk.update (h : TablesOk R cls) {t : TableId} (ht : t ∈ cls.tablesPriority)
    {tbl : ClsTable} (hmask : tbl.mask = (cls.table t).mask) (htbl : TableOk R tbl)
    {order : List TableId} (hperm : order.Perm cls.tablesPriority)
    (hranked : Ranked (fun u => (Function.update cls.table t tbl u).maxPriority) order)
    {n : Nat} (hn : n = (cls.tables.values.flatMap fun u =>
      chainRules (Function.update cls.table t tbl u).rules).length) :
    TablesOk R { cls with table := Function.update cls.table t tbl
                          tablesPriority := order, nRules := n } := by
  have hmask' : ∀ u, (Function.update cls.table t tbl u).mask = (cls.table u).mask := by
    intro u
    by_cases hu : u = t
    · subst hu; rw [Function.update_self]; exact hmask
    · rw [Function.update_of_ne hu]
  refine ⟨h.perm.trans hperm.symm, hperm.nodup_iff.mpr h.nodup, fun e he => ?_,
    fun u hu v hv huv => ?_, fun u hu => ?_, hranked, fun u hu => h.fresh u (hperm.mem_iff.mp hu),
    hn⟩
  · simp only [hmask']
    exact h.hash e he
  · simp only [hmask'] at huv
    exact h.masks u (hperm.mem_iff.mp hu) v (hperm.mem_iff.mp hv) huv
  · by_cases hut : u = t
    · subst hut; simp only [Function.update_self]; exact htbl
    · simp only [Function.update_of_ne hut]
      exact h.table u (hperm.mem_iff.mp hu)

/-! ## The place of a subtable in `tables_priority` -/

theorem ranked_congr {f g : TableId → Nat} {l : List TableId} (h : Ranked f l)
    (hfg : ∀ t ∈ l, g t = f t) : Ranked g l :=
  List.Pairwise.imp_of_mem (fun ha hb hab => by rw [hfg _ ha, hfg _ hb]; exact hab) h

/-- Where `t` stands in the list, with what the order says about the others. -/
theorem TablesOk.order_around (h : TablesOk R cls) {t : TableId} (ht : t ∈ cls.tablesPriority) :
    ∃ pre post, cls.tablesPriority = pre ++ t :: post ∧ t ∉ pre ∧ t ∉ post ∧
      (∀ u ∈ pre, (cls.table t).maxPriority ≤ (cls.table u).maxPriority) ∧
      (∀ u ∈ post, (cls.table u).maxPriority ≤ (cls.table t).maxPriority) ∧
      Ranked (fun u => (cls.table u).maxPriority) (pre ++ post) := by
  obtain ⟨pre, post, hsplit⟩ := List.append_of_mem ht
  have hnd := h.nodup
  have hr := h.ranked
  rw [hsplit] at hnd
  unfold Ranked at hr
  rw [hsplit] at hr
  obtain ⟨h1, h2, h3⟩ := List.pairwise_append.mp hr
  obtain ⟨h4, h5⟩ := List.pairwise_cons.mp h2
  refine ⟨pre, post, hsplit, fun hp => (List.nodup_append.mp hnd).2.2 t hp t (by simp) rfl,
    (List.nodup_cons.mp (List.nodup_append.mp hnd).2.1).1,
    fun u hu => h3 u hu t (by simp), h4, ?_⟩
  exact List.pairwise_append.mpr ⟨h1, h5, fun a ha b hb => h3 a ha b (List.mem_cons_of_mem _ hb)⟩

section Order

variable {t : TableId} {tbl : ClsTable}

theorem ranked_update_off {l : List TableId} (hl : t ∉ l)
    (h : Ranked (fun u => (cls.table u).maxPriority) l) :
    Ranked (fun u => (Function.update cls.table t tbl u).maxPriority) l :=
  ranked_congr h fun u hu => by rw [Function.update_of_ne (ne_of_mem_of_not_mem hu hl)]

/-- The list stays in order when the maximum of `t` does not change. -/
theorem TablesOk.ranked_same (h : TablesOk R cls) (hp : tbl.maxPriority = (cls.table t).maxPriority) :
    Ranked (fun u => (Function.update cls.table t tbl u).maxPriority) cls.tablesPriority :=
  ranked_congr h.ranked fun u _ => by
    by_cases hu : u = t
    · subst hu; rw [Function.update_self]; exact hp
    · rw [Function.update_of_ne hu]

theorem TablesOk.raise_ok (h : TablesOk R cls) (ht : t ∈ cls.tablesPriority)
    (hp : (cls.table t).maxPriority ≤ tbl.maxPriority) :
    (raise (fun u => (Function.update cls.table t tbl u).maxPriority)
        cls.tablesPriority t).Perm cls.tablesPriority ∧
      Ranked (fun u => (Function.update cls.table t tbl u).maxPriority)
        (raise (fun u => (Function.update cls.table t tbl u).maxPriority) cls.tablesPriority t) := by
  obtain ⟨pre, post, hsplit, hpre, hpost, -, hle, hothers⟩ := h.order_around ht
  have hnot : t ∉ pre ++ post := by simp [hpre, hpost]
  rw [hsplit]
  refine ⟨raise_perm hpre, raise_ranked hpre (ranked_update_off hnot hothers) fun u hu => ?_⟩
  rw [Function.update_self, Function.update_of_ne (ne_of_mem_of_not_mem hu hpost)]
  exact (hle u hu).trans hp

theorem TablesOk.lower_ok (h : TablesOk R cls) (ht : t ∈ cls.tablesPriority)
    (hp : tbl.maxPriority ≤ (cls.table t).maxPriority) :
    (lower (fun u => (Function.update cls.table t tbl u).maxPriority)
        cls.tablesPriority t).Perm cls.tablesPriority ∧
      Ranked (fun u => (Function.update cls.table t tbl u).maxPriority)
        (lower (fun u => (Function.update cls.table t tbl u).maxPriority) cls.tablesPriority t) := by
  obtain ⟨pre, post, hsplit, hpre, hpost, hge, -, hothers⟩ := h.order_around ht
  have hnot : t ∉ pre ++ post := by simp [hpre, hpost]
  rw [hsplit]
  refine ⟨lower_perm hpre, lower_ranked hpre (ranked_update_off hnot hothers) fun u hu => ?_⟩
  rw [Function.update_self, Function.update_of_ne (ne_of_mem_of_not_mem hu hpre)]
  exact hp.trans (hge u hu)

end Order

/-! ## Insertion -/

/-- What `classifier_replace` does. -/
structure Replaced (R R' : RuleStore) (cls cls' : Classifier) (rule : RuleId)
    (old : Option RuleId) : Prop where
  ok : ClassifierOk R' cls'
  added : old = none → cls'.rules.Perm (rule :: cls.rules) ∧
    ∀ r ∈ cls.rules, (R r).match = (R rule).match → (R r).priority ≠ (R rule).priority
  replaced : ∀ o, old = some o → o ∈ cls.rules ∧ (R o).priority = (R rule).priority ∧
    (R o).match = (R rule).match ∧ cls'.rules.Perm (rule :: cls.rules.erase o)
  store : ∀ r, (R' r).match = (R r).match ∧ (R' r).priority = (R r).priority
  frame : ∀ r, r ≠ rule → R' r = R r

theorem setRuleHash_frame {rule r : RuleId} (h : r ≠ rule) : setRuleHash R rule r = R r :=
  Function.update_of_ne h _ _

theorem setRuleHash_match (rule r : RuleId) :
    (setRuleHash R rule r).match = (R r).match ∧
      (setRuleHash R rule r).priority = (R r).priority := by
  by_cases h : r = rule
  · subst h; simp [setRuleHash]
  · rw [setRuleHash_frame h]; exact ⟨rfl, rfl⟩

theorem Minimatch.ext_iff' {a b : Minimatch} : a = b ↔ a.flow = b.flow ∧ a.mask = b.mask := by
  cases a; cases b; simp

/-- No two rules of a classifier have the same match and priority. -/
theorem ClassifierOk.eq_of_match {r q : RuleId} (h : ClassifierOk R cls) (hr : r ∈ cls.rules)
    (hq : q ∈ cls.rules) (hmatch : (R r).match = (R q).match)
    (hprio : (R r).priority = (R q).priority) : r = q := by
  obtain ⟨t, ht, hrt⟩ := h.toTablesOk.mem_rules.mp hr
  obtain ⟨u, hu, hqu⟩ := h.toTablesOk.mem_rules.mp hq
  have htu : t = u := by
    refine h.masks t ht u hu ?_
    rw [← h.toTablesOk.rule_mask ht hrt, ← h.toTablesOk.rule_mask hu hqu, hmatch]
  subst htu
  have hchains := (h.table t ht).chains
  obtain ⟨e, he, hre⟩ := mem_chainRules.mp hrt
  obtain ⟨f, hf, hqf⟩ := mem_chainRules.mp hqu
  have hchain : e.2 = f.2 := by
    refine List.inj_on_of_nodup_map hchains.distinct (List.mem_map_of_mem he)
      (List.mem_map_of_mem hf) ?_
    rw [← ((hchains.chain e he).ruleIn r hre).flow, ← ((hchains.chain f hf).ruleIn q hqf).flow,
      hmatch]
  have hnodup : (e.2.rules.map fun r => (R r).priority).Nodup :=
    List.pairwise_map.mpr ((hchains.chain e he).sorted.imp fun hlt => Nat.ne_of_gt hlt)
  exact List.inj_on_of_nodup_map hnodup hre (hchain ▸ hqf) hprio

/-- A new, empty subtable at the back of the list. -/
theorem insertTable_ok (h : TablesOk R cls) {mask : Minimask}
    (hnew : ∀ t ∈ cls.tablesPriority, (cls.table t).mask ≠ mask) :
    TablesOk R (insertTable cls mask).1 ∧
      (insertTable cls mask).2 ∈ (insertTable cls mask).1.tablesPriority ∧
      ((insertTable cls mask).1.table (insertTable cls mask).2).mask = mask ∧
      (insertTable cls mask).1.rules.Perm cls.rules ∧
      (∀ t ∈ cls.tablesPriority, (insertTable cls mask).1.table t = cls.table t) ∧
      (insertTable cls mask).1.tablesPriority = cls.tablesPriority ++ [(insertTable cls mask).2] := by
  have hfresh : cls.nextTable ∉ cls.tablesPriority := fun hm => Nat.lt_irrefl _ (h.fresh _ hm)
  have hsame : ∀ t ∈ cls.tablesPriority, (insertTable cls mask).1.table t = cls.table t :=
    fun t ht => Function.update_of_ne (ne_of_mem_of_not_mem ht hfresh) _ _
  have hzero : (insertTable cls mask).1.table cls.nextTable = ClsTable.zero mask :=
    Function.update_self _ _ _
  have hent := entries_hmapInsert_perm cls.tables cls.nextTable (tableHash mask)
  have hval := values_hmapInsert_perm cls.tables cls.nextTable (tableHash mask)
  have hrules : (insertTable cls mask).1.rules.Perm cls.rules := by
    refine (hval.flatMap_right _).trans ?_
    rw [List.flatMap_cons]
    have h0 : chainRules ((insertTable cls mask).1.table cls.nextTable).rules = [] := by
      rw [hzero]; simp [ClsTable.zero, chainRules]
    have h1 : (cls.tables.values.flatMap fun t =>
        chainRules ((insertTable cls mask).1.table t).rules) = cls.rules :=
      List.flatMap_congr fun t ht => by rw [hsame t (h.mem_values.mp ht)]
    show (chainRules ((insertTable cls mask).1.table cls.nextTable).rules ++
      (cls.tables.values.flatMap fun t => chainRules ((insertTable cls mask).1.table t).rules)).Perm _
    rw [h0, h1, List.nil_append]
  have hmem : ∀ t ∈ cls.tablesPriority ++ [cls.nextTable],
      t ∈ cls.tablesPriority ∨ t = cls.nextTable := by
    intro t ht
    simpa using ht
  refine ⟨⟨?_, ?_, fun e he => ?_, fun t ht u hu htu => ?_, fun t ht => ?_, ?_, fun t ht => ?_, ?_⟩,
    by simp [insertTable], by rw [show (insertTable cls mask).2 = cls.nextTable from rfl, hzero]; rfl,
    hrules, hsame, rfl⟩
  · refine hval.trans ((h.perm.cons _).trans ?_)
    exact (List.perm_append_singleton _ _).symm
  · exact List.nodup_append.mpr ⟨h.nodup, by simp, fun a ha b hb => by
      rw [List.mem_singleton.mp hb]; exact ne_of_mem_of_not_mem ha hfresh⟩
  · rcases List.mem_cons.mp (hent.mem_iff.mp he) with rfl | he
    · show tableHash mask = tableHash ((insertTable cls mask).1.table cls.nextTable).mask
      rw [hzero]; rfl
    · rw [hsame _ (h.mem_values.mp (List.mem_map.mpr ⟨e, he, rfl⟩))]
      exact h.hash e he
  · rcases hmem t ht with ht | rfl
    · rcases hmem u hu with hu | rfl
      · rw [hsame t ht, hsame u hu] at htu
        exact h.masks t ht u hu htu
      · rw [hsame t ht, hzero] at htu
        exact absurd htu (hnew t ht)
    · rcases hmem u hu with hu | rfl
      · rw [hsame u hu, hzero] at htu
        exact absurd htu.symm (hnew u hu)
      · rfl
  · rcases hmem t ht with ht | rfl
    · rw [hsame t ht]
      exact h.table t ht
    · rw [hzero]
      exact ⟨⟨by simp [ClsTable.zero], by simp [ClsTable.zero]⟩, by simp [ClsTable.zero, chainRules],
        by simpa [ClsTable.zero, chainRules] using maxCount_nil⟩
  · refine List.pairwise_append.mpr ⟨?_, by simp, fun a _ b hb => ?_⟩
    · exact ranked_congr h.ranked fun t ht => by rw [hsame t ht]
    · rw [List.mem_singleton.mp hb]
      show ((insertTable cls mask).1.table cls.nextTable).maxPriority ≤ _
      rw [hzero]
      exact Nat.zero_le _
  · show t < cls.nextTable + 1
    rcases hmem t ht with ht | rfl
    · exact Nat.lt_succ_of_lt (h.fresh t ht)
    · exact Nat.lt_succ_self _
  · rw [hrules.length_eq]
    exact h.nRules

/-- The subtable after a rule has been linked and counted. -/
def grownTable (tbl : ClsTable) (rules : Hmap RuleChain) (p : Nat) : ClsTable :=
  ⟨rules, tbl.mask, tbl.nTableRules + 1, (bump (tbl.maxPriority, tbl.maxCount) p).1,
    (bump (tbl.maxPriority, tbl.maxCount) p).2⟩

theorem bump_fst_of_not_lt {m c p : Nat} (h : ¬ m < p) : (bump (m, c) p).1 = m := by
  unfold bump
  split
  · rfl
  · rfl

theorem le_bump_fst (m c p : Nat) : m ≤ (bump (m, c) p).1 := by
  by_cases h : m < p
  · have hne : p ≠ m := by omega
    simp only [bump, if_neg hne, if_pos h]
    omega
  · rw [bump_fst_of_not_lt h]

/-- The classifier after a rule has been linked and counted: one subtable is
replaced, and it moves only if its maximum grew. -/
theorem countRule_update_eq (cls : Classifier) (t : TableId) (rules : Hmap RuleChain) (p : Nat) :
    countRule (updateTablesAfterInsertion
        (cls.setTable t { cls.table t with rules := rules }) t p) t =
      { cls with
          table := Function.update cls.table t (grownTable (cls.table t) rules p)
          nRules := cls.nRules + 1
          tablesPriority :=
            if (cls.table t).maxPriority < p then
              raise (fun u => (Function.update cls.table t
                (grownTable (cls.table t) rules p) u).maxPriority) cls.tablesPriority t
            else cls.tablesPriority } := by
  unfold updateTablesAfterInsertion
  simp only [Classifier.setTable, Function.update_self]
  by_cases h1 : p = (cls.table t).maxPriority
  · simp [countRule, grownTable, bump, h1]
  · rw [if_neg h1]
    by_cases h2 : (cls.table t).maxPriority < p
    · have hrank : (fun u => (Function.update cls.table t
            (grownTable (cls.table t) rules p) u).maxPriority)
          = fun u => (Function.update cls.table t
            { cls.table t with rules := rules, maxPriority := p, maxCount := 1 } u).maxPriority := by
        funext u
        by_cases hu : u = t
        · subst hu
          simp [grownTable, bump, h1, h2]
        · simp [Function.update_of_ne hu]
      simp only [if_pos h2, hrank, moveEarlier, countRule, Function.update_idem,
        Function.update_self]
      simp [grownTable, bump, h1, h2]
    · simp [countRule, grownTable, bump, h1, h2]

section Insert

variable {t : TableId} {rule : RuleId} {rules' : Hmap RuleChain}

/-- The rules of the classifier are those of subtable `t` and others, whose
masks differ from that of `t`. -/
theorem TablesOk.rules_of_table (h : TablesOk R cls) (ht : t ∈ cls.tablesPriority) :
    ∃ X Y, cls.rules = X ++ (chainRules (cls.table t).rules ++ Y) ∧
      (∀ r ∈ X ++ Y, (R r).match.mask ≠ (cls.table t).mask) ∧
      ∀ tbl : ClsTable, (cls.tables.values.flatMap fun u =>
        chainRules (Function.update cls.table t tbl u).rules) = X ++ (chainRules tbl.rules ++ Y) := by
  obtain ⟨X, Y, hXY, hup⟩ := h.rules_around ht
  refine ⟨X, Y, ?_, fun r hr heq => ?_, hup⟩
  · have := hup (cls.table t)
    rwa [Function.update_eq_self] at this
  · obtain ⟨u, hu, hne, hru⟩ := hXY r hr
    exact hne (h.masks u hu t ht ((h.rule_mask hu hru).symm.trans heq))

/-- Linking a rule that replaces no other. -/
theorem insertRule_added_ok (h : TablesOk R cls)
    (hpos : ∀ u ∈ cls.tablesPriority, u ≠ t → 0 < (cls.table u).nTableRules)
    (ht : t ∈ cls.tablesPriority)
    (hlink : Linked R (cls.table t).mask rule (cls.table t).rules rules' none) :
    ClassifierOk R (countRule (updateTablesAfterInsertion
        (cls.setTable t { cls.table t with rules := rules' }) t (R rule).priority) t) ∧
      (countRule (updateTablesAfterInsertion
        (cls.setTable t { cls.table t with rules := rules' }) t (R rule).priority) t).rules.Perm
          (rule :: cls.rules) := by
  have htbl := h.table t ht
  obtain ⟨hperm, -⟩ := hlink.added rfl
  obtain ⟨X, Y, hcls, -, hup⟩ := h.rules_of_table ht
  rw [countRule_update_eq]
  generalize hdef : grownTable (cls.table t) rules' (R rule).priority = tbl
  have hrules : tbl.rules = rules' := by rw [← hdef]; rfl
  have hmax : tbl.maxPriority
      = (bump ((cls.table t).maxPriority, (cls.table t).maxCount) (R rule).priority).1 := by
    rw [← hdef]; rfl
  have htblok : TableOk R tbl := by
    rw [← hdef]
    refine ⟨hlink.ok, ?_, (htbl.max.bump rule).perm hperm⟩
    show (cls.table t).nTableRules + 1 = (chainRules rules').length
    rw [hperm.length_eq, List.length_cons, ← htbl.count]
  have hrulesPerm : (cls.tables.values.flatMap fun u =>
      chainRules (Function.update cls.table t tbl u).rules).Perm (rule :: cls.rules) := by
    rw [hup tbl, hcls, hrules]
    exact ((hperm.append_right _).append_left _).trans List.perm_middle
  have horder : ∀ order : List TableId, order.Perm cls.tablesPriority →
      Ranked (fun u => (Function.update cls.table t tbl u).maxPriority) order →
      ClassifierOk R { cls with table := Function.update cls.table t tbl
                                nRules := cls.nRules + 1, tablesPriority := order } := by
    intro order hop hor
    refine ⟨h.update ht (by rw [← hdef]; rfl) htblok hop hor ?_, fun u hu => ?_⟩
    · rw [hrulesPerm.length_eq, List.length_cons, h.nRules]
    · by_cases hut : u = t
      · subst hut
        simp only [Function.update_self, ← hdef, grownTable]
        omega
      · simp only [Function.update_of_ne hut]
        exact hpos u (hop.mem_iff.mp hu) hut
  refine ⟨?_, hrulesPerm⟩
  by_cases hlt : (cls.table t).maxPriority < (R rule).priority
  · rw [if_pos hlt]
    obtain ⟨h1, h2⟩ := h.raise_ok ht
      (show (cls.table t).maxPriority ≤ tbl.maxPriority by rw [hmax]; exact le_bump_fst _ _ _)
    exact horder _ h1 h2
  · rw [if_neg hlt]
    exact horder _ (List.Perm.refl _) (h.ranked_same (by rw [hmax]; exact bump_fst_of_not_lt hlt))

/-- Linking a rule in the place of an identical one. -/
theorem insertRule_replaced_ok (h : TablesOk R cls)
    (hpos : ∀ u ∈ cls.tablesPriority, u ≠ t → 0 < (cls.table u).nTableRules)
    (ht : t ∈ cls.tablesPriority) {o : RuleId}
    (hlink : Linked R (cls.table t).mask rule (cls.table t).rules rules' (some o)) :
    ClassifierOk R (cls.setTable t { cls.table t with rules := rules' }) ∧
      (cls.setTable t { cls.table t with rules := rules' }).rules.Perm
        (rule :: cls.rules.erase o) := by
  have htbl := h.table t ht
  obtain ⟨hp, -, A, B, hA, hB⟩ := hlink.replaced o rfl
  obtain ⟨X, Y, hcls, -, hup⟩ := h.rules_of_table ht
  have hperm' : (chainRules rules').Perm (rule :: (A ++ B)) := by
    rw [hB]; exact List.perm_middle
  have hperm : (chainRules (cls.table t).rules).Perm (o :: (A ++ B)) := by
    rw [hA]; exact List.perm_middle
  have hmax : MaxCount (fun r => (R r).priority) (chainRules rules')
      (cls.table t).maxPriority (cls.table t).maxCount := by
    have hm := htbl.max.perm hperm.symm
    refine MaxCount.perm ⟨fun r hr => ?_, ?_, hm.attained⟩ hperm'
    · rcases List.mem_cons.mp hr with rfl | hr
      · rw [← hp]; exact hm.le o (by simp)
      · exact hm.le r (List.mem_cons_of_mem _ hr)
    · have := hm.count
      simp only [List.countP_cons, hp] at this ⊢
      exact this
  have htblok : TableOk R { cls.table t with rules := rules' } := by
    refine ⟨hlink.ok, ?_, hmax⟩
    show (cls.table t).nTableRules = (chainRules rules').length
    rw [htbl.count, hperm.length_eq, hperm'.length_eq, List.length_cons, List.length_cons]
  have hpermX : (X ++ (chainRules rules' ++ Y)).Perm (rule :: (X ++ ((A ++ B) ++ Y))) :=
    ((hperm'.append_right _).append_left _).trans List.perm_middle
  have hpermcls : cls.rules.Perm (o :: (X ++ ((A ++ B) ++ Y))) := by
    rw [hcls]
    exact ((hperm.append_right _).append_left _).trans List.perm_middle
  have hlen : cls.nRules = (cls.tables.values.flatMap fun u => chainRules
      (Function.update cls.table t { cls.table t with rules := rules' } u).rules).length := by
    rw [hup, h.nRules, hpermX.length_eq, hpermcls.length_eq, List.length_cons, List.length_cons]
  have hmask' : ClsTable.mask { cls.table t with rules := rules' } = (cls.table t).mask := rfl
  refine ⟨⟨h.update ht hmask' htblok (List.Perm.refl _)
    (h.ranked_same rfl) hlen, fun u hu => ?_⟩, ?_⟩
  · show 0 < (Function.update cls.table t { cls.table t with rules := rules' } u).nTableRules
    by_cases hut : u = t
    · subst hut
      rw [Function.update_self]
      show 0 < (cls.table u).nTableRules
      rw [htbl.count, hperm.length_eq, List.length_cons]
      omega
    · rw [Function.update_of_ne hut]
      exact hpos u hu hut
  · show (cls.tables.values.flatMap fun u => chainRules
      (Function.update cls.table t { cls.table t with rules := rules' } u).rules).Perm _
    rw [hup]
    refine hpermX.trans (List.Perm.cons _ ?_)
    have := hpermcls.erase o
    rw [List.erase_cons_head] at this
    exact this.symm

/-- The subtable that `classifier_replace` works on. -/
theorem findOrInsertTable_ok (h : ClassifierOk R cls) (mask : Minimask) :
    let res := findOrInsertTable cls mask
    TablesOk R res.1 ∧ res.2 ∈ res.1.tablesPriority ∧ (res.1.table res.2).mask = mask ∧
      res.1.rules.Perm cls.rules ∧
      ∀ u ∈ res.1.tablesPriority, u ≠ res.2 → 0 < (res.1.table u).nTableRules := by
  unfold findOrInsertTable
  cases hf : findTable cls mask with
  | some t =>
    obtain ⟨h1, h2⟩ := findTable_some h.toTablesOk hf
    exact ⟨h.toTablesOk, h1, h2, List.Perm.refl _, fun u hu _ => h.positive u hu⟩
  | none =>
    obtain ⟨h1, h2, h3, h4, h5, h6⟩ :=
      insertTable_ok h.toTablesOk (findTable_none h.toTablesOk hf)
    refine ⟨h1, h2, h3, h4, fun u hu hne => ?_⟩
    rw [h6] at hu
    rcases List.mem_append.mp hu with hu | hu
    · rw [h5 u hu]
      exact h.positive u hu
    · exact absurd (List.mem_singleton.mp hu) hne

/-- `classifier_replace` of a rule that is not installed. -/
theorem classifierReplace_ok (h : ClassifierOk R cls) (hnew : rule ∉ cls.rules) :
    Replaced R (classifierReplace R cls rule).2.1 cls (classifierReplace R cls rule).1 rule
      (classifierReplace R cls rule).2.2 := by
  have hframe : ∀ r ∈ cls.rules, setRuleHash R rule r = R r := fun r hr =>
    setRuleHash_frame (ne_of_mem_of_not_mem hr hnew)
  obtain ⟨hok, ht, hmask, hperm, hpos⟩ := findOrInsertTable_ok (h.congr hframe) (R rule).match.mask
  have hstore := setRuleHash_match (R := R) rule
  have hin : RuleIn (setRuleHash R rule) (R rule).match.mask (setRuleHash R rule rule).match.flow
      (setRuleHash R rule rule).hash.toNat rule :=
    ⟨by rw [(hstore rule).1], rfl, by simp [setRuleHash], rfl⟩
  unfold classifierReplace insertRule
  generalize hc : findOrInsertTable cls (R rule).match.mask = ct at hok ht hmask hperm hpos
  obtain ⟨c, t⟩ := ct
  simp only at hok ht hmask hperm hpos
  obtain ⟨X, Y, hcls, hother, -⟩ := hok.rules_of_table ht
  have hlink := linkRule_ok rule (hok.table t ht).chains (by rw [hmask]; exact hin)
  generalize hl : linkRule (setRuleHash R rule) (c.table t) rule = lr at hlink
  obtain ⟨rules', old⟩ := lr
  simp only [hl]
  cases old with
  | none =>
    obtain ⟨h1, h2⟩ := insertRule_added_ok hok hpos ht hlink
    have hmemc : ∀ r, r ∈ cls.rules → r ∈ c.rules := fun r hr => hperm.mem_iff.mpr hr
    refine ⟨h1, fun _ => ⟨h2.trans (hperm.cons _), fun r hr hrm => ?_⟩,
      fun o ho => absurd ho (by simp), hstore, fun r hr => setRuleHash_frame hr⟩
    obtain ⟨-, hne⟩ := hlink.added rfl
    have hr' := hmemc r hr
    have hrt : r ∈ chainRules (c.table t).rules := by
      have hmaskr : (setRuleHash R rule r).match.mask = (c.table t).mask := by
        rw [(hstore r).1, hrm, hmask]
      rw [hcls] at hr'
      rcases List.mem_append.mp hr' with hr' | hr'
      · exact absurd hmaskr (hother r (List.mem_append_left _ hr'))
      · rcases List.mem_append.mp hr' with hr' | hr'
        · exact hr'
        · exact absurd hmaskr (hother r (List.mem_append_right _ hr'))
    have := hne r hrt (by rw [(hstore r).1, (hstore rule).1, hrm])
    rwa [(hstore r).2, (hstore rule).2] at this
  | some o =>
    obtain ⟨h1, h2⟩ := insertRule_replaced_ok hok hpos ht hlink
    obtain ⟨hp, hflow, A, B, hA, -⟩ := hlink.replaced o rfl
    have hot : o ∈ chainRules (c.table t).rules := by rw [hA]; simp
    have hoc : o ∈ c.rules := by rw [hcls]; simp [hot]
    have hmo := hok.rule_mask ht hot
    rw [(hstore o).1, hmask] at hmo
    rw [(hstore o).1, (hstore rule).1] at hflow
    rw [(hstore o).2, (hstore rule).2] at hp
    refine ⟨h1, fun ho => absurd ho (by simp), fun o' ho' => ?_, hstore,
      fun r hr => setRuleHash_frame hr⟩
    cases ho'
    exact ⟨hperm.mem_iff.mp hoc, hp, Minimatch.ext_iff'.mpr ⟨hflow, hmo⟩,
      h2.trans ((hperm.erase o).cons _)⟩

end Insert

/-! ## Removal -/

section Remove

variable {t : TableId} {rule : RuleId} {rules' : Hmap RuleChain}

/-- In a decreasing list only the head can attain an upper bound. -/
theorem countP_chain {c : RuleChain} {m : Nat}
    (hl : c.rules.Pairwise (fun a b => (R b).priority < (R a).priority))
    (hm : (R c.head).priority ≤ m) :
    c.rules.countP (fun r => (R r).priority = m)
      = if (R c.head).priority = m then 1 else 0 := by
  have hrest : c.rest.countP (fun r => (R r).priority = m) = 0 := by
    rw [List.countP_eq_zero]
    intro r hr
    have := (List.pairwise_cons.mp hl).1 r hr
    simp only [decide_eq_true_eq]
    omega
  simp only [RuleChain.rules, List.countP_cons, hrest, decide_eq_true_eq]
  omega

/-- A maximum over the heads is a maximum over all rules. -/
theorem maxCount_of_heads {mask : Minimask} {rules : Hmap RuleChain} {m c : Nat}
    (h : ChainsOk R mask rules)
    (hm : MaxCount (fun ch : RuleChain => (R ch.head).priority) rules.values m c) :
    MaxCount (fun r => (R r).priority) (chainRules rules) m c := by
  have hsorted : ∀ ch ∈ rules.values,
      ch.rules.Pairwise (fun a b => (R b).priority < (R a).priority) := by
    intro ch hch
    obtain ⟨e, he, rfl⟩ := List.mem_map.mp hch
    exact (h.chain e he).sorted
  refine ⟨fun r hr => ?_, ?_, hm.attained⟩
  · obtain ⟨ch, hch, hrc⟩ := List.mem_flatMap.mp hr
    have hhead := hm.le ch hch
    rcases List.mem_cons.mp hrc with rfl | hrc
    · exact hhead
    · exact (Nat.le_of_lt ((List.pairwise_cons.mp (hsorted ch hch)).1 r hrc)).trans hhead
  · rw [hm.count, chainRules]
    have hle := hm.le
    clear hm
    generalize rules.values = l at hsorted hle
    induction l with
    | nil => simp
    | cons ch l ih =>
      rw [List.flatMap_cons, List.countP_append, List.countP_cons,
        ih (fun x hx => hsorted x (List.mem_cons_of_mem _ hx))
          (fun x hx => hle x (List.mem_cons_of_mem _ hx)),
        countP_chain (hsorted ch (by simp)) (hle ch (by simp))]
      simp only [decide_eq_true_eq]
      omega

theorem recomputeMax_ok {mask : Minimask} {rules : Hmap RuleChain} (h : ChainsOk R mask rules) :
    MaxCount (fun r => (R r).priority) (chainRules rules) (recomputeMax R rules).1
      (recomputeMax R rules).2 :=
  maxCount_of_heads h (maxCount_foldl (f := fun ch : RuleChain => (R ch.head).priority) rules.values)

/-- The maximum of some of the elements is no larger. -/
theorem MaxCount.le_of_bound {f : RuleId → Nat} {l : List RuleId} {m c b : Nat}
    (h : MaxCount f l m c) (hb : ∀ r ∈ l, f r ≤ b) : m ≤ b := by
  rcases h.attained with h0 | h0
  · omega
  · rw [h.count, List.countP_pos_iff] at h0
    obtain ⟨r, hr, heq⟩ := h0
    have := hb r hr
    simp only [decide_eq_true_eq] at heq
    omega

/-- A subtable that is still in use after one of its rules has been unlinked. -/
theorem shrunkTable_ok (h : ClassifierOk R cls) (ht : t ∈ cls.tablesPriority)
    (hr : rule ∈ chainRules (cls.table t).rules) (hok : ChainsOk R (cls.table t).mask rules')
    (hrules : chainRules rules' = (chainRules (cls.table t).rules).erase rule)
    (hn : (cls.table t).nTableRules - 1 ≠ 0) :
    let c := updateTablesAfterRemoval R (cls.setTable t { cls.table t with
      rules := rules', nTableRules := (cls.table t).nTableRules - 1 }) t (R rule).priority
    ClassifierOk R { c with nRules := c.nRules - 1 } ∧
      Classifier.rules { c with nRules := c.nRules - 1 } = cls.rules.erase rule := by
  have htbl := h.table t ht
  obtain ⟨X, Y, hcls, hother, hup⟩ := h.toTablesOk.rules_of_table ht
  have hnotX : rule ∉ X := fun hX =>
    hother rule (List.mem_append_left _ hX) (h.toTablesOk.rule_mask ht hr)
  have herase : cls.rules.erase rule = X ++ (chainRules rules' ++ Y) := by
    rw [hcls, List.erase_append_right _ hnotX, List.erase_append_left _ hr, hrules]
  have hperm : (chainRules (cls.table t).rules).Perm (rule :: chainRules rules') := by
    rw [hrules]; exact List.perm_cons_erase hr
  have hmax := htbl.max.perm hperm.symm
  have hnmem : rule ∈ cls.rules := by rw [hcls]; simp [hr]
  -- every outcome of the update is one subtable replaced and the list rearranged
  have hgoal : ∀ (tbl : ClsTable) (order : List TableId), tbl.rules = rules' →
      tbl.mask = (cls.table t).mask → tbl.nTableRules = (cls.table t).nTableRules - 1 →
      MaxCount (fun r => (R r).priority) (chainRules rules') tbl.maxPriority tbl.maxCount →
      order.Perm cls.tablesPriority →
      Ranked (fun u => (Function.update cls.table t tbl u).maxPriority) order →
      ClassifierOk R { cls with table := Function.update cls.table t tbl, tablesPriority := order
                                nRules := cls.nRules - 1 } ∧
        Classifier.rules { cls with table := Function.update cls.table t tbl
                                    tablesPriority := order, nRules := cls.nRules - 1 }
          = cls.rules.erase rule := by
    intro tbl order h1 h2 h3 h4 hop hor
    have hflat : (cls.tables.values.flatMap fun u =>
        chainRules (Function.update cls.table t tbl u).rules) = cls.rules.erase rule := by
      rw [hup tbl, h1, herase]
    have htblok : TableOk R tbl := by
      refine ⟨by rw [h1, h2]; exact hok, ?_, by rw [h1]; exact h4⟩
      rw [h3, h1, htbl.count, hperm.length_eq, List.length_cons, Nat.add_sub_cancel]
    refine ⟨⟨h.toTablesOk.update ht h2 htblok hop hor ?_, fun u hu => ?_⟩, hflat⟩
    · rw [hflat, List.length_erase_of_mem hnmem, h.nRules]
    · by_cases hut : u = t
      · subst hut
        simp only [Function.update_self, h3]
        omega
      · simp only [Function.update_of_ne hut]
        exact h.positive u (hop.mem_iff.mp hu)
  intro c
  simp only [c, updateTablesAfterRemoval, Classifier.setTable, Function.update_self]
  by_cases hp : (R rule).priority = (cls.table t).maxPriority
  · rw [if_pos hp]
    by_cases hc : (cls.table t).maxCount = 1
    · rw [if_pos hc]
      simp only [Function.update_idem, moveLater]
      have hmc := recomputeMax_ok hok
      have hle : (recomputeMax R rules').1 ≤ (cls.table t).maxPriority :=
        MaxCount.le_of_bound hmc fun r hr' => hmax.le r (List.mem_cons_of_mem _ hr')
      obtain ⟨h1, h2⟩ := h.toTablesOk.lower_ok ht
        (show ClsTable.maxPriority { cls.table t with
          rules := rules'
          nTableRules := (cls.table t).nTableRules - 1
          maxPriority := (recomputeMax R rules').1
          maxCount := (recomputeMax R rules').2 } ≤ _ from hle)
      exact hgoal _ _ rfl rfl rfl hmc h1 h2
    · rw [if_neg hc]
      simp only [Function.update_idem]
      exact hgoal _ _ rfl rfl rfl (hmax.drop hp hc) (List.Perm.refl _)
        (h.toTablesOk.ranked_same rfl)
  · rw [if_neg hp]
    exact hgoal _ _ rfl rfl rfl (hmax.drop_of_ne hp) (List.Perm.refl _)
      (h.toTablesOk.ranked_same rfl)

/-- A subtable whose last rule has been unlinked goes away. -/
theorem destroyTable_ok (h : ClassifierOk R cls) (ht : t ∈ cls.tablesPriority)
    (hr : chainRules (cls.table t).rules = [rule]) {tbl : ClsTable}
    (hmask : tbl.mask = (cls.table t).mask) :
    let c := destroyTable (cls.setTable t tbl) t
    ClassifierOk R { c with nRules := c.nRules - 1 } ∧
      Classifier.rules { c with nRules := c.nRules - 1 } = cls.rules.erase rule := by
  have hmem : (tableHash (cls.table t).mask, t) ∈ cls.tables.entries := by
    obtain ⟨e, he, rfl⟩ := List.mem_map.mp (h.mem_values.mpr ht)
    rw [← h.hash e he]
    exact he
  obtain ⟨A, B, hsplit, -, herase, -⟩ := ChainMap.edit_split hmem
  have hvals : cls.tables.values = A.map Prod.snd ++ t :: B.map Prod.snd := by
    simp [ChainMap.values, hsplit]
  have hnd := h.perm.nodup_iff.mpr h.nodup
  rw [hvals] at hnd
  have htA : t ∉ A.map Prod.snd := fun hA => (List.nodup_append.mp hnd).2.2 t hA t (by simp) rfl
  have htB : t ∉ B.map Prod.snd := (List.nodup_cons.mp (List.nodup_append.mp hnd).2.1).1
  have hvals' : (cls.tables.erase (tableHash (cls.table t).mask, t)).values
      = A.map Prod.snd ++ B.map Prod.snd := by
    simp [ChainMap.values, herase]
  have hperm : (cls.tables.erase (tableHash (cls.table t).mask, t)).values.Perm
      (cls.tablesPriority.erase t) := by
    have hleft := ((ChainMap.values_erase_perm hmem).symm.trans h.perm).erase t
    rwa [List.erase_cons_head] at hleft
  have hne : ∀ u ∈ cls.tablesPriority.erase t, u ≠ t ∧ u ∈ cls.tablesPriority := fun u hu =>
    (List.Nodup.mem_erase_iff h.nodup).mp hu
  have hrules : ((A.map Prod.snd ++ B.map Prod.snd).flatMap fun u =>
      chainRules (Function.update cls.table t tbl u).rules) = cls.rules.erase rule := by
    have hoff : ∀ l : List TableId, t ∉ l →
        (l.flatMap fun u => chainRules (Function.update cls.table t tbl u).rules)
          = l.flatMap fun u => chainRules (cls.table u).rules := fun l hl =>
      List.flatMap_congr fun u hu => by
        rw [Function.update_of_ne (ne_of_mem_of_not_mem hu hl)]
    have hnotA : rule ∉ (A.map Prod.snd).flatMap fun u => chainRules (cls.table u).rules := by
      intro hA
      have hnd' := h.toTablesOk.rules_nodup
      rw [Classifier.rules, hvals, List.flatMap_append, List.flatMap_cons, hr] at hnd'
      exact (List.nodup_append.mp hnd').2.2 rule hA rule (by simp) rfl
    rw [hoff _ (by simp only [List.mem_append, not_or]; exact ⟨htA, htB⟩), Classifier.rules, hvals,
      List.flatMap_append, List.flatMap_append, List.flatMap_cons, hr,
      List.erase_append_right _ hnotA]
    simp
  have hnmem : rule ∈ cls.rules := h.mem_rules.mpr ⟨t, ht, by rw [hr]; simp⟩
  have hsame : ∀ u ∈ cls.tablesPriority.erase t,
      Function.update cls.table t tbl u = cls.table u := fun u hu =>
    Function.update_of_ne (hne u hu).1 _ _
  intro c
  have hc : c = { cls with
      table := Function.update cls.table t tbl
      tables := cls.tables.erase (tableHash (cls.table t).mask, t)
      tablesPriority := cls.tablesPriority.erase t } := by
    simp [c, destroyTable, Classifier.setTable, hmapRemove, hmask]
  rw [hc]
  refine ⟨⟨⟨?_, h.nodup.sublist List.erase_sublist, fun e he => ?_, fun u hu v hv huv => ?_,
    fun u hu => ?_, ?_, fun u hu => h.fresh u (hne u hu).2, ?_⟩, fun u hu => ?_⟩, ?_⟩
  · exact hperm
  · show e.1 = tableHash (Function.update cls.table t tbl e.2).mask
    rw [hsame _ (hperm.mem_iff.mp (List.mem_map.mpr ⟨e, he, rfl⟩))]
    exact h.hash e ((cls.tables.entries_erase_sublist _).subset he)
  · simp only [hsame u hu, hsame v hv] at huv
    exact h.masks u (hne u hu).2 v (hne v hv).2 huv
  · simp only [hsame u hu]
    exact h.table u (hne u hu).2
  · refine ranked_congr (List.Pairwise.sublist List.erase_sublist h.ranked) fun u hu => ?_
    simp only [hsame u hu]
  · show cls.nRules - 1 = ((cls.tables.erase _).values.flatMap fun u =>
      chainRules (Function.update cls.table t tbl u).rules).length
    rw [hvals', hrules, List.length_erase_of_mem hnmem, h.nRules]
  · simp only [hsame u hu]
    exact h.positive u (hne u hu).2
  · show ((cls.tables.erase _).values.flatMap fun u =>
      chainRules (Function.update cls.table t tbl u).rules) = _
    rw [hvals', hrules]

/-- `classifier_remove` of an installed rule: it returns, and takes just that
rule out of the iteration order. -/
theorem classifierRemove_ok (h : ClassifierOk R cls) (hr : rule ∈ cls.rules) :
    ∃ cls', classifierRemove R cls rule = some cls' ∧ ClassifierOk R cls' ∧
      cls'.rules = cls.rules.erase rule := by
  obtain ⟨t, ht, hrt⟩ := h.mem_rules.mp hr
  have htbl := h.table t ht
  have hfind : findTable cls (R rule).match.mask = some t := by
    rw [h.toTablesOk.rule_mask ht hrt]
    exact findTable_of_mem h.toTablesOk ht
  obtain ⟨rules', hunlink, hok, hrules⟩ := unlinkRule_ok htbl.chains hrt
  refine ⟨_, by simp only [classifierRemove, hfind, hunlink, Option.bind_eq_bind,
    Option.bind_some]; rfl, ?_⟩
  split
  · rename_i hn
    have hlen : (chainRules (cls.table t).rules).length = 1 := by
      have := h.positive t ht
      rw [htbl.count] at hn this
      omega
    obtain ⟨x, hx⟩ := List.length_eq_one_iff.mp hlen
    have hone : chainRules (cls.table t).rules = [rule] := by
      rw [hx] at hrt ⊢
      rw [List.mem_singleton.mp hrt]
    exact destroyTable_ok h ht hone rfl
  · rename_i hn
    exact shrunkTable_ok h ht hrt hok hrules hn

/-- Only installed rules can be removed. -/
theorem classifierRemove_some (h : ClassifierOk R cls) {cls' : Classifier}
    (hs : classifierRemove R cls rule = some cls') : rule ∈ cls.rules := by
  simp only [classifierRemove, Option.bind_eq_bind, Option.bind_eq_some_iff] at hs
  obtain ⟨t, hf, rules', hu, -⟩ := hs
  obtain ⟨ht, -⟩ := findTable_some h.toTablesOk hf
  refine h.mem_rules.mpr ⟨t, ht, ?_⟩
  unfold unlinkRule at hu
  split at hu
  · exact absurd hu (by simp)
  · rename_i c hc
    obtain ⟨hmem, -⟩ := findEqual_some hc
    refine mem_chainRules.mpr ⟨_, hmem, ?_⟩
    split at hu
    · rename_i hhead
      rw [← hhead]
      simp [RuleChain.rules]
    · split at hu
      · rename_i hrest
        exact List.mem_cons_of_mem _ hrest
      · exact absurd hu (by simp)

end Remove

/-! ## Iteration -/

theorem reachableInList_eq : ∀ (r : RuleId) (l : List RuleId),
    (r :: l).Pairwise (fun a b => (R b).priority < (R a).priority) →
    reachableInList R r l = r :: l
  | _, [], _ => rfl
  | r, s :: rest, h => by
      obtain ⟨hr, hs⟩ := List.pairwise_cons.mp h
      rw [reachableInList, if_pos (hr s (by simp)), reachableInList_eq s rest hs]

/-- A cursor without target visits every rule of the classifier. -/
theorem clsCursorRules_none (h : ClassifierOk R cls) : clsCursorRules R cls none = cls.rules := by
  unfold clsCursorRules Classifier.rules
  refine List.flatMap_congr fun t ht => ?_
  show (cls.table t).rules.values.flatMap (forEachRuleInList R) = _
  refine List.flatMap_congr fun c hc => ?_
  obtain ⟨e, he, rfl⟩ := List.mem_map.mp hc
  exact reachableInList_eq _ _ (((h.table t (h.mem_values.mp ht)).chains.chain e he).sorted)

/-- An empty classifier. -/
theorem classifierInit_ok : ClassifierOk R classifierInit ∧ classifierInit.rules = [] := by
  have hrules : classifierInit.rules = [] := by simp [classifierInit, Classifier.rules]
  refine ⟨⟨⟨by simp [classifierInit], by simp [classifierInit], by simp [classifierInit],
    by simp [classifierInit], by simp [classifierInit], by simp [classifierInit, Ranked],
    by simp [classifierInit], ?_⟩, by simp [classifierInit]⟩, hrules⟩
  rw [hrules]
  rfl

end OvsSgx
