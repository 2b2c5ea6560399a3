/-
OvsSgx.ClassifierInvariant — the representation invariant of the classifier.

`ChainsOk` is about one subtable's hmap: each equal-flow list is in
strictly decreasing priority and its rules share flow, mask and hash; no
two heads have the same flow. `TableOk` adds the cached counts and
maximum, `ClassifierOk` the two collections of subtables. The lemmas here
say what finding, linking and unlinking one rule does to a subtable.
-/
import OvsSgx.Classifier
import OvsSgx.FlowTheorems

namespace OvsSgx

open RankedList

/-- All rules in a subtable's hmap. -/
def chainRules (rules : Hmap RuleChain) : List RuleId := rules.values.flatMap RuleChain.rules

/-- All rules in a classifier, in the order of a cursor without target. -/
def Classifier.rules (cls : Classifier) : List RuleId :=
  cls.tables.values.flatMap fun t => chainRules (cls.table t).rules

/-- What a rule linked under hash `hash` in the list of flow `flow` looks like. -/
structure RuleIn (R : RuleStore) (mask : Minimask) (flow : Miniflow) (hash : Nat) (r : RuleId) :
    Prop where
  mask : (R r).match.mask = mask
  flow : (R r).match.flow = flow
  hash_eq : (R r).hash = miniflowHashInMinimask (R r).match.flow (R r).match.mask 0#32
  hash : (R r).hash.toNat = hash

/-- One equal-flow list. -/
structure ChainOk (R : RuleStore) (mask : Minimask) (e : Nat × RuleChain) : Prop where
  sorted : e.2.rules.Pairwise (fun a b => (R b).priority < (R a).priority)
  ruleIn : ∀ r ∈ e.2.rules, RuleIn R mask (R e.2.head).match.flow e.1 r

/-- The hmap of one subtable. -/
structure ChainsOk (R : RuleStore) (mask : Minimask) (rules : Hmap RuleChain) : Prop where
  chain : ∀ e ∈ rules.entries, ChainOk R mask e
  distinct : (rules.values.map fun c => (R c.head).match.flow).Nodup

/-- One subtable. -/
structure TableOk (R : RuleStore) (tbl : ClsTable) : Prop where
  chains : ChainsOk R tbl.mask tbl.rules
  count : tbl.nTableRules = (chainRules tbl.rules).length
  max : MaxCount (fun r => (R r).priority) (chainRules tbl.rules) tbl.maxPriority tbl.maxCount

/-- The subtables of a classifier; one of them may still be empty. -/
structure TablesOk (R : RuleStore) (cls : Classifier) : Prop where
  perm : cls.tables.values.Perm cls.tablesPriority
  nodup : cls.tablesPriority.Nodup
  hash : ∀ e ∈ cls.tables.entries, e.1 = tableHash (cls.table e.2).mask
  masks : ∀ t ∈ cls.tablesPriority, ∀ u ∈ cls.tablesPriority,
    (cls.table t).mask = (cls.table u).mask → t = u
  table : ∀ t ∈ cls.tablesPriority, TableOk R (cls.table t)
  ranked : Ranked (fun t => (cls.table t).maxPriority) cls.tablesPriority
  fresh : ∀ t ∈ cls.tablesPriority, t < cls.nextTable
  nRules : cls.nRules = cls.rules.length

/-- The classifier's representation invariant. -/
structure ClassifierOk (R : RuleStore) (cls : Classifier) : Prop extends TablesOk R cls where
  positive : ∀ t ∈ cls.tablesPriority, 0 < (cls.table t).nTableRules

/-! ## Chains in a subtable -/

section Chains

variable {R : RuleStore} {mask : Minimask} {rules : Hmap RuleChain}

theorem mem_chainRules {r : RuleId} :
    r ∈ chainRules rules ↔ ∃ e ∈ rules.entries, r ∈ e.2.rules := by
  simp only [chainRules, ChainMap.values, List.mem_flatMap, List.mem_map]
  constructor
  · rintro ⟨c, ⟨e, he, rfl⟩, hr⟩
    exact ⟨e, he, hr⟩
  · rintro ⟨e, he, hr⟩
    exact ⟨e.2, ⟨e, he, rfl⟩, hr⟩

theorem ChainsOk.mem_rule (h : ChainsOk R mask rules) {r : RuleId} (hr : r ∈ chainRules rules) :
    ∃ e ∈ rules.entries, r ∈ e.2.rules ∧ RuleIn R mask (R e.2.head).match.flow e.1 r := by
  obtain ⟨e, he, hre⟩ := mem_chainRules.mp hr
  exact ⟨e, he, hre, (h.chain e he).ruleIn r hre⟩

/-- A chain is known by the flow of its head. -/
theorem ChainsOk.eq_of_flow (h : ChainsOk R mask rules) {c d : RuleChain}
    (hc : c ∈ rules.values) (hd : d ∈ rules.values)
    (hf : (R c.head).match.flow = (R d.head).match.flow) : c = d :=
  List.inj_on_of_nodup_map h.distinct hc hd hf

theorem ChainOk.head_ruleIn {e : Nat × RuleChain} (h : ChainOk R mask e) :
    RuleIn R mask (R e.2.head).match.flow e.1 e.2.head :=
  h.ruleIn e.2.head (by simp [RuleChain.rules])

/-- `find_equal` finds the chain of a flow if there is one. -/
theorem findEqual_eq_some (tbl : ClsTable) (h : ChainsOk R mask tbl.rules) {e : Nat × RuleChain}
    (he : e ∈ tbl.rules.entries) {hash : U32} (hhash : hash.toNat = e.1) :
    findEqual R tbl (R e.2.head).match.flow hash = some e.2 := by
  unfold findEqual
  have hmem : e.2 ∈ tbl.rules.withHash hash.toNat := by
    rw [hhash]
    exact ChainMap.mem_withHash.mpr he
  cases hf : (tbl.rules.withHash hash.toNat).find?
      (fun c => miniflowEqual (R c.head).match.flow (R e.2.head).match.flow) with
  | none =>
    have := List.find?_eq_none.mp hf e.2 hmem
    simp [miniflowEqual_iff] at this
  | some c =>
    have hflow := List.find?_some hf
    rw [miniflowEqual_iff] at hflow
    have hc := ChainMap.mem_withHash.mp (List.mem_of_find?_eq_some hf)
    exact congrArg some
      (h.eq_of_flow (List.mem_map.mpr ⟨_, hc, rfl⟩) (List.mem_map.mpr ⟨_, he, rfl⟩) hflow)

theorem findEqual_some {tbl : ClsTable} {flow : Miniflow} {hash : U32} {c : RuleChain}
    (h : findEqual R tbl flow hash = some c) :
    (hash.toNat, c) ∈ tbl.rules.entries ∧ (R c.head).match.flow = flow := by
  unfold findEqual at h
  have hflow := List.find?_some h
  rw [miniflowEqual_iff] at hflow
  exact ⟨ChainMap.mem_withHash.mp (List.mem_of_find?_eq_some h), hflow⟩

/-- If `find_equal` finds nothing, no chain has the flow. -/
theorem findEqual_none {tbl : ClsTable} (h : ChainsOk R mask tbl.rules) {flow : Miniflow}
    {hash : U32} (hhash : hash = miniflowHashInMinimask flow mask 0#32)
    (hnone : findEqual R tbl flow hash = none) :
    ∀ c ∈ tbl.rules.values, (R c.head).match.flow ≠ flow := by
  rintro c hc rfl
  obtain ⟨e, he, rfl⟩ := List.mem_map.mp hc
  have hin := (h.chain e he).head_ruleIn
  have hh : hash.toNat = e.1 := by
    rw [hhash, ← hin.hash, hin.hash_eq, hin.mask]
  rw [findEqual_eq_some tbl h he hh] at hnone
  exact absurd hnone (by simp)

end Chains

/-! ## Linking a rule into a chain -/

section Link

variable {R : RuleStore}

/-- What inserting `new` into a decreasing list of rules does. -/
structure LinkedInto (R : RuleStore) (new : RuleId) (l l' : List RuleId) (old : Option RuleId) :
    Prop where
  sorted : l'.Pairwise (fun a b => (R b).priority < (R a).priority)
  added : old = none → l'.Perm (new :: l) ∧ ∀ r ∈ l, (R r).priority ≠ (R new).priority
  replaced : ∀ o, old = some o → (R o).priority = (R new).priority ∧
    ∃ A B, l = A ++ o :: B ∧ l' = A ++ new :: B

theorem LinkedInto.cons {new r : RuleId} {l l' : List RuleId} {old : Option RuleId}
    (h : LinkedInto R new l l' old) (hr : ∀ x ∈ l, (R x).priority < (R r).priority)
    (hnew : (R new).priority < (R r).priority) : LinkedInto R new (r :: l) (r :: l') old := by
  refine ⟨List.pairwise_cons.mpr ⟨fun x hx => ?_, h.sorted⟩, fun ho => ?_, fun o ho => ?_⟩
  · cases hold : old with
    | none =>
      rcases List.mem_cons.mp ((h.added hold).1.mem_iff.mp hx) with rfl | hx
      · exact hnew
      · exact hr x hx
    | some o =>
      obtain ⟨-, A, B, rfl, rfl⟩ := h.replaced o hold
      rcases List.mem_append.mp hx with hx | hx
      · exact hr x (List.mem_append_left _ hx)
      · rcases List.mem_cons.mp hx with rfl | hx
        · exact hnew
        · exact hr x (List.mem_append_right _ (List.mem_cons_of_mem _ hx))
  · obtain ⟨hperm, hne⟩ := h.added ho
    refine ⟨(hperm.cons r).trans (List.Perm.swap _ _ _), fun x hx => ?_⟩
    rcases List.mem_cons.mp hx with rfl | hx
    · omega
    · exact hne x hx
  · obtain ⟨hp, A, B, h1, h2⟩ := h.replaced o ho
    exact ⟨hp, r :: A, B, by rw [h1]; rfl, by rw [h2]; rfl⟩

/-- The step at a rule whose priority does not exceed that of `new`. -/
theorem linkedInto_at (new : RuleId) {r : RuleId} {rs : List RuleId}
    (hl : (r :: rs).Pairwise (fun a b => (R b).priority < (R a).priority))
    (hle : (R r).priority ≤ (R new).priority) :
    LinkedInto R new (r :: rs)
      (if (R new).priority = (R r).priority then (new :: rs, some r)
        else (new :: r :: rs, none)).1
      (if (R new).priority = (R r).priority then (new :: rs, some r)
        else (new :: r :: rs, none)).2 := by
  obtain ⟨hr, hrs⟩ := List.pairwise_cons.mp hl
  split
  · rename_i heq
    refine ⟨List.pairwise_cons.mpr ⟨fun x hx => by rw [heq]; exact hr x hx, hrs⟩,
      fun ho => absurd ho (by simp), fun o ho => ?_⟩
    cases ho
    exact ⟨heq.symm, [], rs, rfl, rfl⟩
  · rename_i hne
    have hlt : ∀ x ∈ r :: rs, (R x).priority < (R new).priority := by
      intro x hx
      rcases List.mem_cons.mp hx with rfl | hx
      · omega
      · have := hr x hx
        omega
    exact ⟨List.pairwise_cons.mpr ⟨hlt, hl⟩,
      fun _ => ⟨List.Perm.refl _, fun x hx => Nat.ne_of_lt (hlt x hx)⟩,
      fun o ho => absurd ho (by simp)⟩

theorem insertBelow_ok (new : RuleId) : ∀ (prev : RuleId) (l : List RuleId),
    (prev :: l).Pairwise (fun a b => (R b).priority < (R a).priority) →
    (R new).priority < (R prev).priority →
    LinkedInto R new l (insertBelow R new prev l).1 (insertBelow R new prev l).2
  | prev, [], _, _ => by
      refine ⟨by simp [insertBelow], fun _ => ⟨by simp [insertBelow], by simp⟩, fun o ho => ?_⟩
      exact absurd ho (by simp [insertBelow])
  | prev, r :: rs, hl, hnew => by
      obtain ⟨hprev, hrs⟩ := List.pairwise_cons.mp hl
      have hlt := hprev r (by simp)
      unfold insertBelow
      rw [if_neg (show ¬ (R prev).priority ≤ (R r).priority by omega)]
      by_cases hle : (R r).priority ≤ (R new).priority
      · rw [if_pos hle]
        exact linkedInto_at new hrs hle
      · rw [if_neg hle]
        have ih := insertBelow_ok new r rs hrs (by omega)
        exact ih.cons (List.pairwise_cons.mp hrs).1 (by omega)

theorem insertInChain_ok (new : RuleId) {c : RuleChain}
    (hl : c.rules.Pairwise (fun a b => (R b).priority < (R a).priority)) :
    LinkedInto R new c.rules (insertInChain R new c).1.rules (insertInChain R new c).2 := by
  unfold insertInChain
  by_cases hle : (R c.head).priority ≤ (R new).priority
  · rw [if_pos hle]
    have := linkedInto_at new hl hle
    by_cases heq : (R new).priority = (R c.head).priority
    · simpa [RuleChain.rules, heq] using this
    · simpa [RuleChain.rules, heq] using this
  · rw [if_neg hle]
    have ih := insertBelow_ok new c.head c.rest hl (by omega)
    exact ih.cons (List.pairwise_cons.mp hl).1 (by omega)

/-- Linking keeps the rules of the chain and adds `new`. -/
theorem LinkedInto.mem {new : RuleId} {l l' : List RuleId} {old : Option RuleId}
    (h : LinkedInto R new l l' old) {x : RuleId} (hx : x ∈ l') : x = new ∨ x ∈ l := by
  cases hold : old with
  | none => exact List.mem_cons.mp ((h.added hold).1.mem_iff.mp hx)
  | some o =>
    obtain ⟨-, A, B, rfl, rfl⟩ := h.replaced o hold
    rcases List.mem_append.mp hx with hx | hx
    · exact .inr (List.mem_append_left _ hx)
    · rcases List.mem_cons.mp hx with rfl | hx
      · exact .inl rfl
      · exact .inr (List.mem_append_right _ (List.mem_cons_of_mem _ hx))

end Link

/-! ## Linking a rule into a subtable -/

section Table

variable {R : RuleStore} {mask : Minimask} {rules rules' : Hmap RuleChain}

/-- A chain in the middle of the iteration order. -/
theorem chainRules_split {A B : List (Nat × RuleChain)} {e : Nat × RuleChain}
    (h : rules.entries = A ++ e :: B) :
    chainRules rules = (A.map Prod.snd).flatMap RuleChain.rules ++
      (e.2.rules ++ (B.map Prod.snd).flatMap RuleChain.rules) := by
  simp [chainRules, ChainMap.values, h]

theorem chainRules_split_nil {A B : List (Nat × RuleChain)} (h : rules.entries = A ++ B) :
    chainRules rules = (A.map Prod.snd).flatMap RuleChain.rules ++
      (B.map Prod.snd).flatMap RuleChain.rules := by
  simp [chainRules, ChainMap.values, h]

/-- Putting another well-formed chain of the same flow in the place of a chain. -/
theorem ChainsOk.replace (h : ChainsOk R mask rules) {A B : List (Nat × RuleChain)}
    {e : Nat × RuleChain} {c : RuleChain} (hsplit : rules.entries = A ++ e :: B)
    (hsplit' : rules'.entries = A ++ (e.1, c) :: B) (hc : ChainOk R mask (e.1, c))
    (hflow : (R c.head).match.flow = (R e.2.head).match.flow) : ChainsOk R mask rules' := by
  refine ⟨fun x hx => ?_, ?_⟩
  · rw [hsplit'] at hx
    rcases List.mem_append.mp hx with hx | hx
    · exact h.chain x (by rw [hsplit]; exact List.mem_append_left _ hx)
    · rcases List.mem_cons.mp hx with rfl | hx
      · exact hc
      · exact h.chain x (by
          rw [hsplit]; exact List.mem_append_right _ (List.mem_cons_of_mem _ hx))
  · have := h.distinct
    simp only [ChainMap.values, hsplit, hsplit', List.map_append, List.map_cons, hflow] at this ⊢
    exact this

/-- Different chains have no rule in common, and a chain has no rule twice. -/
theorem ChainsOk.nodup (h : ChainsOk R mask rules) : (chainRules rules).Nodup := by
  unfold chainRules
  rw [List.nodup_flatMap]
  constructor
  · intro c hc
    obtain ⟨e, he, rfl⟩ := List.mem_map.mp hc
    exact (h.chain e he).sorted.imp fun hab heq => by
      rw [heq] at hab
      exact Nat.lt_irrefl _ hab
  · have hpair : rules.values.Pairwise fun c d => (R c.head).match.flow ≠ (R d.head).match.flow :=
      List.pairwise_map.mp h.distinct
    refine hpair.imp_of_mem fun {c d} hc hd hne => ?_
    obtain ⟨e, he, rfl⟩ := List.mem_map.mp hc
    obtain ⟨e', he', rfl⟩ := List.mem_map.mp hd
    intro r hr hr'
    exact hne (((h.chain e he).ruleIn r hr).flow.symm.trans ((h.chain e' he').ruleIn r hr').flow)

/-- What linking a rule into a subtable does to its rules. -/
structure Linked (R : RuleStore) (mask : Minimask) (new : RuleId) (rules rules' : Hmap RuleChain)
    (old : Option RuleId) : Prop where
  ok : ChainsOk R mask rules'
  added : old = none → (chainRules rules').Perm (new :: chainRules rules) ∧
    ∀ r ∈ chainRules rules, (R r).match.flow = (R new).match.flow →
      (R r).priority ≠ (R new).priority
  replaced : ∀ o, old = some o → (R o).priority = (R new).priority ∧
    (R o).match.flow = (R new).match.flow ∧
    ∃ A B, chainRules rules = A ++ o :: B ∧ chainRules rules' = A ++ new :: B

theorem linkRule_ok {tbl : ClsTable} (new : RuleId) (h : ChainsOk R tbl.mask tbl.rules)
    (hnew : RuleIn R tbl.mask (R new).match.flow (R new).hash.toNat new) :
    Linked R tbl.mask new tbl.rules (linkRule R tbl new).1 (linkRule R tbl new).2 := by
  unfold linkRule
  cases hf : findEqual R tbl (R new).match.flow (R new).hash with
  | none =>
    have hnone := findEqual_none h (by rw [hnew.hash_eq, hnew.mask]) hf
    have hperm := entries_hmapInsert_perm tbl.rules (⟨new, []⟩ : RuleChain) (R new).hash.toNat
    have hvals := values_hmapInsert_perm tbl.rules (⟨new, []⟩ : RuleChain) (R new).hash.toNat
    refine ⟨⟨fun e he => ?_, ?_⟩, fun _ => ⟨?_, fun r hr hflow => ?_⟩,
      fun o ho => absurd ho (by simp)⟩
    · rcases List.mem_cons.mp (hperm.mem_iff.mp he) with rfl | he
      · exact ⟨by simp [RuleChain.rules], fun r hr => by
          have : r = new := by simpa [RuleChain.rules] using hr
          exact this ▸ hnew⟩
      · exact h.chain e he
    · rw [(hvals.map _).nodup_iff, List.map_cons, List.nodup_cons]
      refine ⟨fun hmem => ?_, h.distinct⟩
      obtain ⟨c, hc, heq⟩ := List.mem_map.mp hmem
      exact hnone c hc heq
    · have := hvals.flatMap_right RuleChain.rules
      simpa [chainRules, RuleChain.rules] using this
    · obtain ⟨e, he, hre, hin⟩ := h.mem_rule hr
      exact absurd (hin.flow.symm.trans hflow) (hnone e.2 (List.mem_map.mpr ⟨e, he, rfl⟩))
  | some c =>
    obtain ⟨hmem, hflow⟩ := findEqual_some hf
    obtain ⟨A, B, hsplit, -, -, hrep⟩ := ChainMap.edit_split hmem
    have hchain := h.chain _ hmem
    have hlink := insertInChain_ok new hchain.sorted
    have hsplit' := hrep (insertInChain R new c).1
    have hin : ∀ r ∈ (insertInChain R new c).1.rules,
        RuleIn R tbl.mask (R new).match.flow (R new).hash.toNat r := by
      intro r hr
      rcases hlink.mem hr with rfl | hr
      · exact hnew
      · rw [← hflow]
        exact hchain.ruleIn r hr
    have hhead := (hin (insertInChain R new c).1.head (by simp [RuleChain.rules])).flow
    have hc' : ChainOk R tbl.mask ((R new).hash.toNat, (insertInChain R new c).1) :=
      ⟨hlink.sorted, fun r hr => by rw [hhead]; exact hin r hr⟩
    have hL := chainRules_split hsplit
    have hL' := chainRules_split hsplit'
    simp only at hL hL'
    refine ⟨h.replace hsplit hsplit' hc' (hhead.trans hflow.symm), fun ho => ?_, fun o ho => ?_⟩
    · obtain ⟨hperm, hne⟩ := hlink.added ho
      refine ⟨?_, fun r hr hrf => ?_⟩
      · show (chainRules (tbl.rules.replace _ _)).Perm _
        rw [hL', hL]
        refine ((hperm.append_right _).append_left _).trans ?_
        exact List.perm_middle
      · obtain ⟨e, he, hre, hrin⟩ := h.mem_rule hr
        have hec : e.2 = c := h.eq_of_flow (List.mem_map.mpr ⟨e, he, rfl⟩)
          (List.mem_map.mpr ⟨_, hmem, rfl⟩) (by rw [← hrin.flow, hrf, hflow])
        exact hne r (hec ▸ hre)
    · obtain ⟨hp, A', B', h1, h2⟩ := hlink.replaced o ho
      have ho' : o ∈ c.rules := by rw [h1]; simp
      refine ⟨hp, (hchain.ruleIn o ho').flow.trans hflow, ?_⟩
      refine ⟨(A.map Prod.snd).flatMap RuleChain.rules ++ A',
        B' ++ (B.map Prod.snd).flatMap RuleChain.rules, ?_, ?_⟩
      · rw [hL, h1]
        simp
      · show chainRules (tbl.rules.replace _ _) = _
        rw [hL', h2]
        simp

/-- Where the rules of a chain stand when one of them is taken out. -/
theorem ChainsOk.erase_split (h : ChainsOk R mask rules) {A B : List (Nat × RuleChain)}
    {e : Nat × RuleChain} {rule : RuleId} (hsplit : rules.entries = A ++ e :: B)
    (hr : rule ∈ e.2.rules) :
    (chainRules rules).erase rule = (A.map Prod.snd).flatMap RuleChain.rules ++
      (e.2.rules.erase rule ++ (B.map Prod.snd).flatMap RuleChain.rules) := by
  have hnd := h.nodup
  rw [chainRules_split hsplit] at hnd ⊢
  have hnotA : rule ∉ (A.map Prod.snd).flatMap RuleChain.rules := fun hA =>
    (List.nodup_append.mp hnd).2.2 rule hA rule (List.mem_append_left _ hr) rfl
  rw [List.erase_append_right _ hnotA, List.erase_append_left _ hr]

/-- A chain whose only rule is unlinked goes away. -/
theorem ChainsOk.erase (h : ChainsOk R mask rules) {e : Nat × RuleChain} {rule : RuleId}
    (he : e ∈ rules.entries) (hr : e.2.rules = [rule]) :
    ChainsOk R mask (rules.erase e) ∧ chainRules (rules.erase e) = (chainRules rules).erase rule := by
  obtain ⟨A, B, hsplit, -, herase, -⟩ := ChainMap.edit_split he
  refine ⟨⟨fun x hx => h.chain x ((rules.entries_erase_sublist e).subset hx),
    h.distinct.sublist ((rules.values_erase_sublist e).map _)⟩, ?_⟩
  rw [h.erase_split hsplit (by simp [hr]), chainRules_split_nil herase, hr]
  simp

/-- A chain of several rules keeps the others when one of them is unlinked. -/
theorem ChainsOk.shorten (h : ChainsOk R mask rules) {e : Nat × RuleChain} {rule : RuleId}
    (he : e ∈ rules.entries) (hr : rule ∈ e.2.rules) {d : RuleChain}
    (hd : d.rules = e.2.rules.erase rule) :
    ChainsOk R mask (rules.replace e d) ∧
      chainRules (rules.replace e d) = (chainRules rules).erase rule := by
  obtain ⟨A, B, hsplit, -, -, hrep⟩ := ChainMap.edit_split he
  have hchain := h.chain e he
  have hsub : ∀ x ∈ d.rules, x ∈ e.2.rules := fun x hx => List.mem_of_mem_erase (hd ▸ hx)
  have hflow : (R d.head).match.flow = (R e.2.head).match.flow :=
    (hchain.ruleIn d.head (hsub d.head (by simp [RuleChain.rules]))).flow
  refine ⟨h.replace hsplit (hrep d) ⟨?_, fun x hx => ?_⟩ hflow, ?_⟩
  · show d.rules.Pairwise _
    rw [hd]
    exact hchain.sorted.sublist List.erase_sublist
  · show RuleIn R mask (R d.head).match.flow e.1 x
    rw [hflow]
    exact hchain.ruleIn x (hsub x hx)
  · rw [chainRules_split (hrep d), h.erase_split hsplit hr]
    simp [hd]

/-- Unlinking a rule of a subtable always succeeds and takes just that rule
out of the iteration order. -/
theorem unlinkRule_ok {tbl : ClsTable} {rule : RuleId} (h : ChainsOk R tbl.mask tbl.rules)
    (hr : rule ∈ chainRules tbl.rules) :
    ∃ rules', unlinkRule R tbl rule = some rules' ∧ ChainsOk R tbl.mask rules' ∧
      chainRules rules' = (chainRules tbl.rules).erase rule := by
  obtain ⟨⟨hash, c⟩, he, hre, hin⟩ := h.mem_rule hr
  have hfind : findEqual R tbl (R rule).match.flow (R rule).hash = some c := by
    have := findEqual_eq_some tbl h he hin.hash
    rwa [hin.flow]
  have hhash : (R rule).hash.toNat = hash := hin.hash
  unfold unlinkRule
  simp only [hfind, hhash]
  by_cases hhead : c.head = rule
  · rw [if_pos hhead]
    cases hrest : c.rest with
    | nil => exact ⟨_, rfl, h.erase he (by simp [RuleChain.rules, hrest, hhead])⟩
    | cons next rest =>
      have hd : RuleChain.rules ⟨next, rest⟩ = c.rules.erase rule := by
        simp [RuleChain.rules, hrest, hhead]
      exact ⟨_, rfl, h.shorten he hre hd⟩
  · rw [if_neg hhead]
    have hrest : rule ∈ c.rest := by
      rcases List.mem_cons.mp hre with h1 | h1
      · exact absurd h1.symm hhead
      · exact h1
    have hd : RuleChain.rules ⟨c.head, c.rest.erase rule⟩ = c.rules.erase rule := by
      simp [RuleChain.rules, hhead]
    rw [if_pos hrest]
    exact ⟨_, rfl, h.shorten he hre hd⟩

end Table

end OvsSgx
