/-
OvsSgx.ClsCursor — the cursor of classifier.c, step by step.

`clsCursorRules` is the list of rules that a cursor visits. Here is the
cursor itself: it keeps the subtable it is in, finds the next rule from the
links of the current one, and goes on in the hmap of the subtable and then in
that of the classifier. `next_eq` says that it visits that list, and
`forEach_eq` that a loop over it is a loop over the list.

A step returns `none` where the C code would go on from a rule that is not
linked in the subtable of the cursor, or from the `hmap_node` of a rule that
is not the head of its list.
-/
import OvsSgx.Lib.BlockCursor
import OvsSgx.ClassifierTheorems

namespace OvsSgx.ClsCursor

open BlockCursor

/-! ## The cursor -/

/-- Where a cursor stands: the rule it has returned and `cursor->table`. -/
abbrev Position := RuleId × TableId

/-- The test of `search_table` for a whole subtable. -/
def enters (tbl : ClsTable) (target : Option ClsRule) : Bool :=
  target.all fun t => !minimaskHasExtra tbl.mask t.match.mask

/-- `search_table`. -/
def searchTable (R : RuleStore) (tbl : ClsTable) (target : Option ClsRule) : Option RuleId :=
  if enters tbl target then
    (tbl.rules.values.find? fun c => ruleMatches (R c.head) target).map RuleChain.head
  else none

/-- The loops of `cls_cursor_first` and `cls_cursor_next` over subtables. -/
def searchTables (R : RuleStore) (cls : Classifier) (target : Option ClsRule) (l : List TableId) :
    Option Position :=
  l.findSome? fun t => (searchTable R (cls.table t) target).map fun r => (r, t)

/-- `cls_cursor_first`, for the target that `cls_cursor_init` has set. -/
def first (R : RuleStore) (cls : Classifier) (target : Option ClsRule) : Option Position :=
  searchTables R cls target cls.tables.values

/-- `next_rule_in_list__`: the list is circular. -/
def nextRuleInList (c : RuleChain) (rule : RuleId) : RuleId :=
  match behind c.rules rule with
  | [] => c.head
  | next :: _ => next

/-- `cls_cursor_next`. -/
def next (R : RuleStore) (cls : Classifier) (target : Option ClsRule) (pos : Position) :
    Option (Option Position) := do
  let tbl := cls.table pos.2
  let c ← tbl.rules.values.find? fun c => pos.1 ∈ c.rules
  let next := nextRuleInList c pos.1
  if (R next).priority < (R pos.1).priority then return some (next, pos.2)
  else if next = c.head then
    match (behind tbl.rules.values c).find? fun c => ruleMatches (R c.head) target with
    | some c' => return some (c'.head, pos.2)
    | none => return searchTables R cls target (behind cls.tables.values pos.2)
  else none

/-- `CLS_CURSOR_FOR_EACH` with a body that leaves the classifier alone. -/
def forEachFrom {σ : Type} (R : RuleStore) (cls : Classifier) (target : Option ClsRule)
    (body : σ → RuleId → Option σ) : Nat → σ → Option Position → Option σ
  | _, s, none => some s
  | 0, _, some _ => none
  | fuel + 1, s, some pos => do
    let s ← body s pos.1
    let pos ← next R cls target pos
    forEachFrom R cls target body fuel s pos

/-- `cls_cursor_init` and the loop, which takes at most one round for each rule. -/
def forEach {σ : Type} (R : RuleStore) (cls : Classifier) (target : Option ClsRule)
    (body : σ → RuleId → Option σ) (s : σ) : Option σ :=
  forEachFrom R cls (clsCursorInit target) body (classifierCount cls) s
    (first R cls (clsCursorInit target))

/-! ## What it visits -/

/-- The rules of a subtable that a cursor visits. -/
def tableRules (R : RuleStore) (tbl : ClsTable) (target : Option ClsRule) : List RuleId :=
  (OvsSgx.searchTable R tbl target).flatMap RuleChain.rules

/-- All positions of a cursor. -/
def positions (R : RuleStore) (cls : Classifier) (target : Option ClsRule) : List Position :=
  cls.tables.values.flatMap fun t => (tableRules R (cls.table t) target).map fun r => (r, t)

section Walk

variable {R : RuleStore} {cls : Classifier} {target : Option ClsRule}

theorem searchTable_eq (R : RuleStore) (tbl : ClsTable) (target : Option ClsRule) :
    OvsSgx.searchTable R tbl target =
      if enters tbl target then tbl.rules.values.filter fun c => ruleMatches (R c.head) target
      else [] := by
  cases target with
  | none => simp [OvsSgx.searchTable, enters, ruleMatches]
  | some t =>
    simp only [OvsSgx.searchTable, enters, Option.all_some, Bool.not_eq_true']
    split
    · rename_i hx
      rw [if_neg (by simp [hx])]
    · rename_i hx
      rw [if_pos (by simpa using hx)]

theorem searchTable_head (R : RuleStore) (tbl : ClsTable) (target : Option ClsRule) :
    searchTable R tbl target = (tableRules R tbl target).head? := by
  unfold searchTable tableRules
  rw [searchTable_eq]
  split
  · rw [List.head?_flatMap, ← List.head?_filter]
    cases tbl.rules.values.filter fun c => ruleMatches (R c.head) target with
    | nil => rfl
    | cons c l => rfl
  · rfl

theorem searchTables_eq (l : List TableId) :
    searchTables R cls target l =
      (l.flatMap fun t => (tableRules R (cls.table t) target).map fun r => (r, t)).head? := by
  simp only [searchTables, List.head?_flatMap, List.head?_map, searchTable_head]

theorem first_eq (R : RuleStore) (cls : Classifier) (target : Option ClsRule) :
    first R cls target = (positions R cls target).head? :=
  searchTables_eq cls.tables.values

/-- The chain of a rule in its subtable. -/
theorem find_chain {mask : Minimask} {rules : Hmap RuleChain} (h : ChainsOk R mask rules)
    {c : RuleChain} {r : RuleId} (hc : c ∈ rules.values) (hr : r ∈ c.rules) :
    rules.values.find? (fun c => r ∈ c.rules) = some c := by
  have huniq : ∀ d ∈ rules.values, r ∈ d.rules → d = c := by
    intro d hd hrd
    obtain ⟨e, he, rfl⟩ := List.mem_map.mp hc
    obtain ⟨f, hf, rfl⟩ := List.mem_map.mp hd
    refine h.eq_of_flow hd hc ?_
    rw [← ((h.chain e he).ruleIn r hr).flow, ← ((h.chain f hf).ruleIn r hrd).flow]
  cases hfind : rules.values.find? (fun c => decide (r ∈ c.rules)) with
  | none =>
    have := List.find?_eq_none.mp hfind c hc
    simp [hr] at this
  | some d =>
    have hd : r ∈ d.rules := by simpa using List.find?_some hfind
    rw [huniq d (List.mem_of_find?_eq_some hfind) hd]

/-- The next rule of a list in decreasing priority. -/
theorem nextRuleInList_eq {c : RuleChain} {r : RuleId} {pre post : List RuleId}
    (hsorted : c.rules.Pairwise fun a b => (R b).priority < (R a).priority)
    (hc : c.rules = pre ++ r :: post) :
    nextRuleInList c r = post.head?.getD c.head ∧
      (post = [] → ¬ (R c.head).priority < (R r).priority) ∧
      ∀ q, post.head? = some q → (R q).priority < (R r).priority := by
  rw [hc] at hsorted
  obtain ⟨-, hpost, hpre⟩ := List.pairwise_append.mp hsorted
  have hnot : r ∉ pre := by
    intro hr
    exact Nat.lt_irrefl _ (hpre r hr r (List.mem_cons_self ..))
  refine ⟨?_, fun _ => ?_, fun q hq => ?_⟩
  · unfold nextRuleInList
    rw [hc, behind_split post hnot]
    cases post with
    | nil => rfl
    | cons q l => rfl
  · have hhead : (pre ++ r :: post).head? = some c.head := by rw [← hc]; rfl
    cases pre with
    | nil =>
      cases hhead
      exact Nat.lt_irrefl _
    | cons x pre =>
      cases hhead
      exact Nat.lt_asymm (hpre c.head (List.mem_cons_self ..) r (List.mem_cons_self ..))
  · exact (List.pairwise_cons.mp hpost).1 q (List.mem_of_mem_head? hq)

/-- The positions of a cursor are rules of the classifier. -/
theorem mem_positions {pos : Position} :
    pos ∈ positions R cls target ↔
      pos.2 ∈ cls.tables.values ∧ pos.1 ∈ tableRules R (cls.table pos.2) target := by
  simp only [positions, List.mem_flatMap, List.mem_map]
  constructor
  · rintro ⟨t, ht, r, hr, rfl⟩
    exact ⟨ht, hr⟩
  · rintro ⟨ht, hr⟩
    exact ⟨pos.2, ht, pos.1, hr, rfl⟩

theorem tableRules_sublist (R : RuleStore) (tbl : ClsTable) (target : Option ClsRule) :
    (tableRules R tbl target).Sublist (chainRules tbl.rules) := by
  unfold tableRules chainRules
  rw [searchTable_eq]
  split
  · exact List.Sublist.flatMap List.filter_sublist RuleChain.rules
  · exact List.nil_sublist _

theorem positions_nodup (h : ClassifierOk R cls) : ((positions R cls target).map Prod.fst).Nodup := by
  refine List.Nodup.sublist ?_ h.rules_nodup
  simp only [positions, Classifier.rules, List.map_flatMap, List.map_map, Function.comp_def,
    List.map_id']
  induction cls.tables.values with
  | nil => exact List.Sublist.refl _
  | cons t l ih => exact (tableRules_sublist R (cls.table t) target).append ih

/-- Behind a rule in its subtable: the rest of its list, then the other lists that match. -/
theorem tableRules_behind {tbl : ClsTable} (h : ChainsOk R tbl.mask tbl.rules)
    {pre post : List RuleId} {r : RuleId} (hr : tableRules R tbl target = pre ++ r :: post) :
    ∃ c ∈ tbl.rules.values, ∃ before after, c.rules = before ++ r :: after ∧
      post = after ++ ((behind tbl.rules.values c).filter fun c =>
        ruleMatches (R c.head) target).flatMap RuleChain.rules := by
  have hnodup : (tableRules R tbl target).Nodup := h.nodup.sublist (tableRules_sublist R tbl target)
  have hmem : r ∈ tableRules R tbl target := by rw [hr]; simp
  unfold tableRules at hnodup hmem hr
  rw [searchTable_eq] at hnodup hmem hr
  split at hmem
  · rename_i henter
    rw [if_pos henter] at hnodup hr
    obtain ⟨c, hc, hrc⟩ := List.mem_flatMap.mp hmem
    obtain ⟨before, after, hrules, hpost⟩ := flatMap_behind hnodup hc hrc hr
    obtain ⟨hcv, hcm⟩ := List.mem_filter.mp hc
    refine ⟨c, hcv, before, after, hrules, ?_⟩
    rw [hpost, behind_filter (fun c : RuleChain => ruleMatches (R c.head) target) hcm]
  · cases hmem

/-- `cls_cursor_next` moves on to the position behind the current one. -/
theorem next_eq (h : ClassifierOk R cls) {kept rest : List Position} {pos : Position}
    (hpos : positions R cls target = kept ++ pos :: rest) :
    next R cls target pos = some rest.head? := by
  obtain ⟨r, t⟩ := pos
  have hmem : (r, t) ∈ positions R cls target := by rw [hpos]; simp
  obtain ⟨ht, hr⟩ := mem_positions.mp hmem
  have hchains := (h.table t (h.mem_values.mp ht)).chains
  -- behind the rule: the rest of its subtable, then the other subtables
  obtain ⟨pre, post, hblock, hrest⟩ := flatMap_behind ((positions_nodup h).of_map _) ht
    (List.mem_map.mpr ⟨r, hr, rfl⟩) hpos
  obtain ⟨pre', post', hrules, -, hpost'⟩ := List.map_eq_append_iff.mp hblock
  obtain ⟨r', post'', rfl, hr', rfl⟩ := List.map_eq_cons_iff.mp hpost'
  cases hr'
  obtain ⟨c, hc, before, after, hcr, rfl⟩ := tableRules_behind hchains hrules
  have hrc : r ∈ c.rules := by rw [hcr]; simp
  have hsorted : c.rules.Pairwise fun a b => (R b).priority < (R a).priority := by
    obtain ⟨e, he, rfl⟩ := List.mem_map.mp hc
    exact (hchains.chain e he).sorted
  obtain ⟨hnext, hlast, hlower⟩ := nextRuleInList_eq hsorted hcr
  simp only [next, find_chain hchains hc hrc, Option.bind_eq_bind, Option.bind_some, hnext]
  rw [hrest]
  cases after with
  | cons q l => simp [hlower q rfl]
  | nil =>
    simp only [List.head?_nil, Option.getD_none, if_neg (hlast rfl), if_true, ← List.head?_filter]
    cases (behind (cls.table t).rules.values c).filter fun c => ruleMatches (R c.head) target with
    | cons d l => simp [RuleChain.rules]
    | nil => simp [searchTables_eq]

/-- The rules at the positions are those of `clsCursorRules`. -/
theorem positions_map (target : Option ClsRule) (h : ClassifierOk R cls) :
    (positions R cls (clsCursorInit target)).map Prod.fst = clsCursorRules R cls target := by
  simp only [positions, clsCursorRules, List.map_flatMap, List.map_map, Function.comp_def,
    List.map_id']
  refine List.flatMap_congr fun t ht => List.flatMap_congr fun c hc => ?_
  have hcv : c ∈ (cls.table t).rules.values := by
    rw [searchTable_eq] at hc
    split at hc
    · exact (List.mem_filter.mp hc).1
    · cases hc
  obtain ⟨e, he, rfl⟩ := List.mem_map.mp hcv
  exact (reachableInList_eq _ _
    (((h.table t (h.mem_values.mp ht)).chains.chain e he).sorted)).symm

/-- The loop from any position on. -/
theorem forEachFrom_eq {σ : Type} (body : σ → RuleId → Option σ) (h : ClassifierOk R cls)
    {l : List Position} : ∀ {kept : List Position} {fuel : Nat} (s : σ),
    positions R cls target = kept ++ l → l.length ≤ fuel →
    forEachFrom R cls target body fuel s l.head? = (l.map Prod.fst).foldlM body s := by
  induction l with
  | nil => exact fun {kept fuel} s _ _ => by simp [forEachFrom]
  | cons pos l ih =>
    intro kept fuel s hpos hfuel
    obtain ⟨fuel, rfl⟩ : ∃ n, fuel = n + 1 := ⟨fuel - 1, by simp at hfuel; omega⟩
    have hnext := next_eq h hpos
    simp only [List.head?_cons, forEachFrom, List.map_cons, List.foldlM_cons, hnext,
      Option.bind_eq_bind, Option.bind_some]
    refine Option.bind_congr fun s' _ => ?_
    have hpos' : positions R cls target = (kept ++ [pos]) ++ l := by simpa using hpos
    exact ih s' hpos' (by simpa using hfuel)

/-- A loop over a cursor is a loop over the list of rules that it visits. -/
theorem forEach_eq {σ : Type} (body : σ → RuleId → Option σ) (h : ClassifierOk R cls) (s : σ) :
    forEach R cls target body s = (clsCursorRules R cls target).foldlM body s := by
  have hlen : (positions R cls (clsCursorInit target)).length ≤ classifierCount cls := by
    have hsub : (positions R cls (clsCursorInit target)).map Prod.fst ⊆ cls.rules := by
      intro r hr
      obtain ⟨pos, hpos, rfl⟩ := List.mem_map.mp hr
      obtain ⟨ht, hr⟩ := mem_positions.mp hpos
      exact List.mem_flatMap.mpr ⟨pos.2, ht, (tableRules_sublist R _ _).subset hr⟩
    have := (List.subperm_of_subset (positions_nodup h) hsub).length_le
    rw [List.length_map] at this
    rw [classifierCount, h.nRules]
    exact this
  have hloop := forEachFrom_eq body (l := positions R cls (clsCursorInit target)) h s
    (List.nil_append _).symm hlen
  rw [forEach, first_eq, hloop, positions_map target h]

end Walk

end OvsSgx.ClsCursor
