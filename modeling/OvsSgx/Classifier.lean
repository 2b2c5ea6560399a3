/-
OvsSgx.Classifier — the flow classifier of trusted/lib/classifier.c.

Rules with the same wildcards share a subtable (`struct cls_table`); in a
subtable, rules with the same flow form a list in decreasing priority
whose head is the node in the subtable's hmap. The subtables are kept in
an hmap by mask and in a list in decreasing order of their highest
priority.

A rule is a handle into a store `R` of `ClsRule`s, as a `struct cls_rule *`
is; a subtable is a handle into the classifier's own store. The circular
list of equal rules, entered at its head, is a `RuleChain`. Where the C
code would follow a null or stale pointer the result is `none`.
-/
import OvsSgx.Flow
import OvsSgx.Hmap
import OvsSgx.Lib.RankedList

namespace OvsSgx

/-- A `struct cls_rule *`. -/
abbrev RuleId := Nat

/-- A `struct cls_table *`. -/
abbrev TableId := Nat

/-- `struct cls_rule`, without its links: `hash` is `hmap_node.hash`. -/
structure ClsRule where
  hash : U32
  «match» : Minimatch
  priority : Nat

/-- A head with its list of identical, lower-priority rules. -/
structure RuleChain where
  head : RuleId
  rest : List RuleId
deriving DecidableEq, Repr

/-- All rules of a chain. -/
def RuleChain.rules (c : RuleChain) : List RuleId := c.head :: c.rest

/-- `struct cls_table`. -/
structure ClsTable where
  rules : Hmap RuleChain
  mask : Minimask
  nTableRules : Nat
  maxPriority : Nat
  maxCount : Nat

/-- `struct classifier`, with the memory of its subtables. -/
structure Classifier where
  nRules : Nat
  tables : Hmap TableId
  tablesPriority : List TableId
  table : TableId → ClsTable
  nextTable : TableId

/-- The rules a classifier reads: the memory of all `struct cls_rule`s. -/
abbrev RuleStore := RuleId → ClsRule

/-! ## Rules -/

/-- `cls_rule_init`; the hash is set when the rule is inserted. -/
def clsRuleInit (m : Match) (priority : Nat) : ClsRule := ⟨0#32, minimatchInit m, priority⟩

/-- `cls_rule_equal`. -/
def clsRuleEqual (a b : ClsRule) : Bool :=
  a.priority == b.priority && minimatchEqual a.match b.match

/-- `cls_rule_hash`. -/
def clsRuleHash (rule : ClsRule) (basis : U32) : U32 :=
  minimatchHash rule.match (hashInt (BitVec.ofNat 32 rule.priority) basis)

/-- `cls_rule_is_catchall`. -/
def clsRuleIsCatchall (rule : ClsRule) : Bool := minimaskIsCatchall rule.match.mask

/-- `cls_rule_is_loose_match`. -/
def clsRuleIsLooseMatch (rule : ClsRule) (criteria : Minimatch) : Bool :=
  !minimaskHasExtra rule.match.mask criteria.mask &&
    miniflowEqualInMinimask rule.match.flow criteria.flow criteria.mask

/-! ## Tables -/

/-- `xzalloc (sizeof *table)` with `hmap_init` and the mask: an empty subtable. -/
def ClsTable.zero (mask : Minimask) : ClsTable := ⟨hmapInit, mask, 0, 0, 0⟩

/-- `classifier_init`. -/
def classifierInit : Classifier :=
  ⟨0, hmapInit, [], fun _ => ClsTable.zero (minimaskInit ⟨fun _ => 0#32⟩), 0⟩

/-- `classifier_count`. -/
def classifierCount (cls : Classifier) : Nat := cls.nRules

/-- Write back subtable `t`. -/
def Classifier.setTable (cls : Classifier) (t : TableId) (tbl : ClsTable) : Classifier :=
  { cls with table := Function.update cls.table t tbl }

/-- The hash under which subtables with this mask are kept. -/
def tableHash (mask : Minimask) : Nat := (minimaskHash mask 0#32).toNat

/-- `find_table`. -/
def findTable (cls : Classifier) (mask : Minimask) : Option TableId :=
  (cls.tables.inBucket (tableHash mask)).find? fun t => minimaskEqual mask (cls.table t).mask

/-- `insert_table`. -/
def insertTable (cls : Classifier) (mask : Minimask) : Classifier × TableId :=
  let t := cls.nextTable
  ({ cls with
      tables := hmapInsert cls.tables t (tableHash mask)
      tablesPriority := cls.tablesPriority ++ [t]
      table := Function.update cls.table t (ClsTable.zero mask)
      nextTable := t + 1 }, t)

/-- `destroy_table`. -/
def destroyTable (cls : Classifier) (t : TableId) : Classifier :=
  { cls with
      tables := hmapRemove cls.tables t (tableHash (cls.table t).mask)
      tablesPriority := cls.tablesPriority.erase t }

/-- Move `t` to its place in `tables_priority` after its `max_priority` grew. -/
def moveEarlier (cls : Classifier) (t : TableId) : List TableId :=
  RankedList.raise (fun u => (cls.table u).maxPriority) cls.tablesPriority t

/-- Move `t` to its place in `tables_priority` after its `max_priority` fell. -/
def moveLater (cls : Classifier) (t : TableId) : List TableId :=
  RankedList.lower (fun u => (cls.table u).maxPriority) cls.tablesPriority t

/-- `update_tables_after_insertion`. -/
def updateTablesAfterInsertion (cls : Classifier) (t : TableId) (newPriority : Nat) : Classifier :=
  let tbl := cls.table t
  if newPriority = tbl.maxPriority then
    cls.setTable t { tbl with maxCount := tbl.maxCount + 1 }
  else if tbl.maxPriority < newPriority then
    let cls := cls.setTable t { tbl with maxPriority := newPriority, maxCount := 1 }
    { cls with tablesPriority := moveEarlier cls t }
  else cls

/-- The loop of `update_tables_after_removal` over the heads of a subtable. -/
def recomputeMax (R : RuleStore) (rules : Hmap RuleChain) : Nat × Nat :=
  rules.values.foldl (fun mc c => RankedList.bump mc (R c.head).priority) (0, 0)

/-- `update_tables_after_removal`. -/
def updateTablesAfterRemoval (R : RuleStore) (cls : Classifier) (t : TableId)
    (delPriority : Nat) : Classifier :=
  let tbl := cls.table t
  if delPriority = tbl.maxPriority then
    if tbl.maxCount = 1 then
      let mc := recomputeMax R tbl.rules
      let cls := cls.setTable t { tbl with maxPriority := mc.1, maxCount := mc.2 }
      { cls with tablesPriority := moveLater cls t }
    else cls.setTable t { tbl with maxCount := tbl.maxCount - 1 }
  else cls

/-! ## Rules in tables -/

/-- `find_match`. -/
def findMatch (R : RuleStore) (tbl : ClsTable) (flow : Flow) : Option RuleId :=
  ((tbl.rules.withHash (flowHashInMinimask flow tbl.mask 0#32).toNat).find? fun c =>
    miniflowEqualFlowInMinimask (R c.head).match.flow flow tbl.mask).map RuleChain.head

/-- `find_equal`: the head with this flow, with its chain. -/
def findEqual (R : RuleStore) (tbl : ClsTable) (flow : Miniflow) (hash : U32) : Option RuleChain :=
  (tbl.rules.withHash hash.toNat).find? fun c => miniflowEqual (R c.head).match.flow flow

/-- The loop of `insert_rule` below the head: `prev` has a higher priority than
`new`. The second component is the rule that is replaced. -/
def insertBelow (R : RuleStore) (new : RuleId) : RuleId → List RuleId → List RuleId × Option RuleId
  | _, [] => ([new], none)
  | prev, r :: rs =>
    if (R prev).priority ≤ (R r).priority then (r :: rs ++ [new], none)
    else if (R r).priority ≤ (R new).priority then
      if (R new).priority = (R r).priority then (new :: rs, some r) else (new :: r :: rs, none)
    else
      let (l, old) := insertBelow R new r rs
      (r :: l, old)

/-- Link `new` into the chain of its flow. -/
def insertInChain (R : RuleStore) (new : RuleId) (c : RuleChain) : RuleChain × Option RuleId :=
  if (R c.head).priority ≤ (R new).priority then
    if (R new).priority = (R c.head).priority then (⟨new, c.rest⟩, some c.head)
    else (⟨new, c.head :: c.rest⟩, none)
  else
    let (l, old) := insertBelow R new c.head c.rest
    (⟨c.head, l⟩, old)

/-- The part of `insert_rule` before its label `out`: the new contents of the
subtable's hmap and the replaced rule. -/
def linkRule (R : RuleStore) (tbl : ClsTable) (new : RuleId) : Hmap RuleChain × Option RuleId :=
  match findEqual R tbl (R new).match.flow (R new).hash with
  | none => (hmapInsert tbl.rules ⟨new, []⟩ (R new).hash.toNat, none)
  | some c =>
    let (c', old) := insertInChain R new c
    (hmapReplace tbl.rules c (R new).hash.toNat c', old)

/-- `new->hmap_node.hash = miniflow_hash_in_minimask (...)`. -/
def setRuleHash (R : RuleStore) (new : RuleId) : RuleStore :=
  Function.update R new
    { R new with hash := miniflowHashInMinimask (R new).match.flow (R new).match.mask 0#32 }

/-- `insert_rule`, for a rule whose hash has been set. -/
def insertRule (R : RuleStore) (cls : Classifier) (t : TableId) (new : RuleId) :
    Classifier × Option RuleId :=
  let (rules, old) := linkRule R (cls.table t) new
  let cls := cls.setTable t { cls.table t with rules := rules }
  match old with
  | none => (updateTablesAfterInsertion cls t (R new).priority, none)
  | some o => (cls, some o)

/-- `table->n_table_rules++; cls->n_rules++`. -/
def countRule (cls : Classifier) (t : TableId) : Classifier :=
  { cls with
      table := Function.update cls.table t
        { cls.table t with nTableRules := (cls.table t).nTableRules + 1 }
      nRules := cls.nRules + 1 }

/-- The subtable for `mask`, made if there is none. -/
def findOrInsertTable (cls : Classifier) (mask : Minimask) : Classifier × TableId :=
  match findTable cls mask with
  | some t => (cls, t)
  | none => insertTable cls mask

/-- `classifier_replace`. -/
def classifierReplace (R : RuleStore) (cls : Classifier) (rule : RuleId) :
    Classifier × RuleStore × Option RuleId :=
  let (cls, t) := findOrInsertTable cls (R rule).match.mask
  let R := setRuleHash R rule
  let (cls, old) := insertRule R cls t rule
  match old with
  | none => (countRule cls t, R, none)
  | some o => (cls, R, some o)

/-- Unlink `rule` from the chain with the same flow: `list_remove` below the
head, otherwise `hmap_remove` or `hmap_replace` by the next rule. `none` if the
rule is not linked there. -/
def unlinkRule (R : RuleStore) (tbl : ClsTable) (rule : RuleId) : Option (Hmap RuleChain) :=
  match findEqual R tbl (R rule).match.flow (R rule).hash with
  | none => none
  | some c =>
    if c.head = rule then
      match c.rest with
      | [] => some (hmapRemove tbl.rules c (R rule).hash.toNat)
      | next :: rest => some (hmapReplace tbl.rules c (R rule).hash.toNat ⟨next, rest⟩)
    else if rule ∈ c.rest then
      some (hmapReplace tbl.rules c (R rule).hash.toNat ⟨c.head, c.rest.erase rule⟩)
    else none

/-- `classifier_remove`. -/
def classifierRemove (R : RuleStore) (cls : Classifier) (rule : RuleId) : Option Classifier := do
  let t ← findTable cls (R rule).match.mask
  let rules ← unlinkRule R (cls.table t) rule
  let n := (cls.table t).nTableRules - 1
  let cls := cls.setTable t { cls.table t with rules := rules, nTableRules := n }
  let cls := if n = 0 then destroyTable cls t
    else updateTablesAfterRemoval R cls t (R rule).priority
  return { cls with nRules := cls.nRules - 1 }

/-! ## Lookup -/

/-- `classifier_lookup`. `search` is its pair of loops over `tables_priority`:
the outer one up to the first hit, the inner one from there on, with the early
return. Each subtable looked at is folded into `wc` unless that is null. -/
def classifierLookup (R : RuleStore) (cls : Classifier) (flow : Flow)
    (wc : Option FlowWildcards) : Option RuleId × Option FlowWildcards :=
  RankedList.search (fun t => (cls.table t).maxPriority) (fun r => (R r).priority)
    (fun wc t => wc.map (flowWildcardsFoldMinimask · (cls.table t).mask))
    (fun t => findMatch R (cls.table t) flow) wc cls.tablesPriority

/-- The rules of a list that `next_rule_in_list` reaches from `r`. -/
def reachableInList (R : RuleStore) : RuleId → List RuleId → List RuleId
  | r, [] => [r]
  | r, s :: rest =>
    if (R s).priority < (R r).priority then r :: reachableInList R s rest else [r]

/-- What `FOR_EACH_RULE_IN_LIST` visits. -/
def forEachRuleInList (R : RuleStore) (c : RuleChain) : List RuleId :=
  reachableInList R c.head c.rest

/-- `classifier_find_rule_exactly`. -/
def classifierFindRuleExactly (R : RuleStore) (cls : Classifier) (target : ClsRule) :
    Option RuleId := do
  let t ← findTable cls target.match.mask
  if (cls.table t).maxPriority < target.priority then none
  else
    let c ← findEqual R (cls.table t) target.match.flow
      (miniflowHashInMinimask target.match.flow target.match.mask 0#32)
    let rule ← (forEachRuleInList R c).find? fun r => (R r).priority ≤ target.priority
    if target.priority = (R rule).priority then some rule else none

/-- The loop of `classifier_rule_overlaps` over one chain. -/
def overlapsInList (R : RuleStore) (target : ClsRule) (mask : Minimask) (c : RuleChain) : Bool :=
  ((forEachRuleInList R c).takeWhile fun r => target.priority ≤ (R r).priority).any fun r =>
    (R r).priority == target.priority &&
      miniflowEqualInMinimask target.match.flow (R r).match.flow mask

/-- `classifier_rule_overlaps`. -/
def classifierRuleOverlaps (R : RuleStore) (cls : Classifier) (target : ClsRule) : Bool :=
  (cls.tablesPriority.takeWhile fun t => target.priority ≤ (cls.table t).maxPriority).any fun t =>
    (cls.table t).rules.values.any
      (overlapsInList R target (minimaskCombine target.match.mask (cls.table t).mask))

/-! ## Iteration -/

/-- `rule_matches`. -/
def ruleMatches (rule : ClsRule) (target : Option ClsRule) : Bool :=
  match target with
  | none => true
  | some t => miniflowEqualInMinimask rule.match.flow t.match.flow t.match.mask

/-- The chains of a subtable that a cursor with this target enters
(`search_table` and the first loop of `cls_cursor_next`). -/
def searchTable (R : RuleStore) (tbl : ClsTable) (target : Option ClsRule) : List RuleChain :=
  match target with
  | none => tbl.rules.values
  | some t =>
    if minimaskHasExtra tbl.mask t.match.mask then []
    else tbl.rules.values.filter fun c => ruleMatches (R c.head) (some t)

/-- `cls_cursor_init`: a catch-all target is no target. -/
def clsCursorInit (target : Option ClsRule) : Option ClsRule :=
  target.filter fun t => !clsRuleIsCatchall t

/-- The rules in the order in which `cls_cursor_first` and `cls_cursor_next`
return them. -/
def clsCursorRules (R : RuleStore) (cls : Classifier) (target : Option ClsRule) : List RuleId :=
  cls.tables.values.flatMap fun t =>
    (searchTable R (cls.table t) (clsCursorInit target)).flatMap (forEachRuleInList R)

/-- `cls_cursor_first`. -/
def clsCursorFirst (R : RuleStore) (cls : Classifier) (target : Option ClsRule) : Option RuleId :=
  (clsCursorRules R cls target).head?

/-- `cls_cursor_next`. -/
def clsCursorNext (R : RuleStore) (cls : Classifier) (target : Option ClsRule) (rule : RuleId) :
    Option RuleId :=
  (((clsCursorRules R cls target).dropWhile (· ≠ rule)).drop 1).head?

end OvsSgx
