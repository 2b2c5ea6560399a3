/-
OvsSgx.Ofproto — the untrusted side of one bridge, in the optimized build.

Models the parts of ovs_modified/ovs_sgx/ofproto.c and ofproto-dpif.c that
start, complete and back out operations on rules: `add_flow`,
`delete_flows__`, `ofproto_flush__`, `ofproto_evict`, `ofproto_rule_expire`
and `ofopgroup_complete`. A `struct rule *` is named by the address of its
`cr`, operations and operation groups are handles. With `clogged` set,
completions are deferred to `complete_operations`.

A failing assertion, a read of an array entry that was never written and a
write beyond an array return `none`, as in the enclave. `log` records the
operations that are created and the calls of `rule_destruct`.

The report to flow monitors that `ofopgroup_complete` makes for each operation
is in `FlowMonitors`. `MonitoredBridge` shows that it makes no difference to
a bridge except in `ofproto_evict`, which may crash in it.
-/
import OvsSgx.Enclave

namespace OvsSgx

/-! ## State -/

/-- A `struct ofoperation *`. -/
abbrev OpId := Nat

/-- A `struct ofopgroup *`. -/
abbrev GroupId := Nat

/-- The errors that `add_flow` returns; the last one is that of `rule_construct`. -/
inductive Ofperr where
  | badTableId
  | eperm
  | postpone
  | overlap
  | tableFull
  | construct (error : Nat)
deriving DecidableEq, Repr

/-- `enum ofoperation_type`. -/
inductive OfoperationType where
  | add
  | delete
  | modify
deriving DecidableEq, Repr

/-- `struct ofoperation`; `hash` is that of `hmap_node`, for a deletion. -/
structure Ofoperation where
  group : GroupId
  rule : UtAddr
  type : OfoperationType
  hash : U32
  victim : Option UtAddr
  error : Option Ofperr
deriving DecidableEq, Repr

/-- `struct ofopgroup`. -/
structure Ofopgroup where
  ops : List OpId
  nRunning : Nat
deriving DecidableEq, Repr

/-- `struct rule`. `evictionPriority` is what `rule_eviction_priority` computes for it from
its timeouts and the clock. -/
structure Rule where
  tableId : Nat
  idleTimeout : Nat
  hardTimeout : Nat
  pending : Option OpId
  evgNode : HeapNode
  evictionPriority : Nat
deriving DecidableEq, Repr

/-- What the bridge has done to a rule. -/
inductive Event where
  | create (rule : UtAddr) (type : OfoperationType) (hash : U32)
  | destruct (rule : UtAddr)
deriving DecidableEq, Repr

/-- One bridge: its enclave half, the memory of its rules, the list `expirable`, the
operations with the groups that are submitted (`pending`), the hmap `deletions`, and of
the provider `completions` and `clogged`. -/
structure Ofproto where
  enclave : Enclave
  nTables : Nat
  rule : UtAddr → Rule
  allocated : List UtAddr
  expirable : List UtAddr
  op : OpId → Ofoperation
  nextOp : OpId
  group : GroupId → Ofopgroup
  nextGroup : GroupId
  pending : List GroupId
  deletions : Hmap OpId
  completions : List OpId
  clogged : Bool
  random : Nat → BitVec 16
  nRandom : Nat
  log : List Event

/-- `ofproto_create`: a bridge without rules. -/
def ofprotoCreate (nTables : Nat) (enclaveRandom random : Nat → BitVec 16) : Ofproto :=
  { enclave := ecallOfprotoInitTables nTables enclaveRandom
    nTables := nTables
    rule := fun _ => ⟨0, 0, 0, none, ⟨0, 0⟩, 0⟩
    allocated := []
    expirable := []
    op := fun _ => ⟨0, 0#64, .add, 0#32, none, none⟩
    nextOp := 0
    group := fun _ => ⟨[], 0⟩
    nextGroup := 0
    pending := []
    deletions := hmapInit
    completions := []
    clogged := false
    random := random
    nRandom := 0
    log := [] }

/-- `rule->hard_timeout || rule->idle_timeout`. -/
def Rule.mayExpire (rule : Rule) : Bool := rule.hardTimeout != 0 || rule.idleTimeout != 0

/-- Write the `pending` member of a rule. -/
def Ofproto.setPending (o : Ofproto) (a : UtAddr) (k : Option OpId) : Ofproto :=
  { o with rule := Function.update o.rule a { o.rule a with pending := k } }

/-- `list_remove (&rule->expirable)` if the rule is on the list. -/
def Ofproto.unlinkExpirable (o : Ofproto) (a : UtAddr) : Ofproto :=
  { o with expirable := o.expirable.erase a }

/-- `list_insert (&ofproto->expirable, &rule->expirable)` puts the rule last. -/
def Ofproto.linkExpirable (o : Ofproto) (a : UtAddr) : Ofproto :=
  { o with expirable := o.expirable ++ [a] }

/-- `rule_dealloc`. -/
def ruleDealloc (o : Ofproto) (a : UtAddr) : Ofproto :=
  { o with allocated := o.allocated.erase a }

/-! ## Tables -/

/-- `eviction_group_priority`. -/
def evictionGroupPriority (o : Ofproto) (nRules : Nat) : Nat × Ofproto :=
  (addPriority nRules (o.random o.nRandom), { o with nRandom := o.nRandom + 1 })

/-- `eviction_group_remove_rule`. -/
def evictionGroupRemoveRule (o : Ofproto) (a : UtAddr) : Option Ofproto := do
  let s ← ecallEvgRemoveRule o.enclave (o.rule a).tableId a
  return { o with enclave := s }

/-- `eviction_group_add_rule`. -/
def evictionGroupAddRule (o : Ofproto) (a : UtAddr) : Option Ofproto :=
  if ecallIsEvictionFieldsEnabled o.enclave (o.rule a).tableId && (o.rule a).mayExpire then do
    let (priority, o) := evictionGroupPriority o 0
    let s ← ecallEvgAddRule o.enclave (o.rule a).tableId a priority (o.rule a).evictionPriority
      (o.rule a).evgNode
    return { o with enclave := s }
  else some o

/-- `oftable_remove_rule`. -/
def oftableRemoveRule (o : Ofproto) (a : UtAddr) : Option Ofproto := do
  let s ← ecallClsRemove o.enclave (o.rule a).tableId a
  let o ← evictionGroupRemoveRule { o with enclave := s } a
  return o.unlinkExpirable a

/-- The part of `oftable_replace_rule` that deals with the victim. -/
def unlinkVictim (o : Ofproto) : Option UtAddr → Option Ofproto
  | none => some o
  | some v => evictionGroupRemoveRule (o.unlinkExpirable v) v

/-- `oftable_replace_rule`. -/
def oftableReplaceRule (o : Ofproto) (a : UtAddr) : Option Ofproto := do
  let o := if (o.rule a).mayExpire then o.linkExpirable a else o
  let (s, victim) ← ecallOftableClassifierReplace o.enclave (o.rule a).tableId a
  let o ← unlinkVictim { o with enclave := s } victim
  evictionGroupAddRule o a

/-- `oftable_substitute_rule`. -/
def oftableSubstituteRule (o : Ofproto) (old : UtAddr) : Option UtAddr → Option Ofproto
  | some new => oftableReplaceRule o new
  | none => oftableRemoveRule o old

/-- `ofproto_rule_destroy__`. -/
def ofprotoRuleDestroy (o : Ofproto) : Option UtAddr → Option Ofproto
  | none => some o
  | some a => do
    let s ← ecallClsRuleDestroy o.enclave a
    return ruleDealloc { o with enclave := s } a

/-- `ofproto_rule_is_hidden`. -/
def ofprotoRuleIsHidden (o : Ofproto) (a : UtAddr) : Option Bool := do
  let priority ← ecallCrPriority o.enclave a
  return decide (UINT16_MAX < priority)

/-! ## Operations -/

/-- `ofopgroup_create` and `ofopgroup_create_unattached`. -/
def ofopgroupCreate (o : Ofproto) : Ofproto × GroupId :=
  ({ o with
      group := Function.update o.group o.nextGroup ⟨[], 0⟩
      nextGroup := o.nextGroup + 1 }, o.nextGroup)

/-- The key under which `ofoperation_create` files a deletion. -/
def deletionHash (o : Ofproto) (a : UtAddr) : Option U32 → Option U32
  | some hash => some hash
  | none => ecallClsRuleHash o.enclave a (o.rule a).tableId

/-- A new operation, at the end of its group, pending on its rule and, if it is a deletion,
filed under `hash`. -/
def Ofproto.addOperation (o : Ofproto) (g : GroupId) (a : UtAddr) (type : OfoperationType)
    (hash : U32) : Ofproto :=
  { o.setPending a (some o.nextOp) with
    op := Function.update o.op o.nextOp ⟨g, a, type, hash, none, none⟩
    nextOp := o.nextOp + 1
    group := Function.update o.group g ⟨(o.group g).ops ++ [o.nextOp], (o.group g).nRunning + 1⟩
    deletions := if type = .delete then hmapInsert o.deletions o.nextOp hash.toNat else o.deletions
    log := o.log ++ [.create a type hash] }

/-- `ofoperation_create`; `hashes` is what the caller passes for the key of a deletion. -/
def ofoperationCreate (o : Ofproto) (g : GroupId) (a : UtAddr) (type : OfoperationType)
    (hashes : Option U32) : Option (Ofproto × OpId) :=
  if (o.rule a).pending.isSome then none
  else do
    let hash ← if type = .delete then deletionHash o a hashes else some 0#32
    return (o.addOperation g a type hash, o.nextOp)

/-- `ofoperation_destroy`. -/
def ofoperationDestroy (o : Ofproto) (k : OpId) : Ofproto :=
  let op := o.op k
  let o := o.setPending op.rule none
  { o with
    deletions := if op.type = .delete then hmapRemove o.deletions k op.hash.toNat else o.deletions
    group := Function.update o.group op.group
      { o.group op.group with ops := (o.group op.group).ops.erase k } }

/-- The last step of `ofopgroup_complete` for an operation, by its type. -/
def commitOperation (o : Ofproto) (op : Ofoperation) : Option Ofproto :=
  match op.type, op.error with
  | .add, none => ofprotoRuleDestroy o op.victim
  | .add, some _ => do
    let o ← oftableSubstituteRule o op.rule op.victim
    ofprotoRuleDestroy o (some op.rule)
  | .delete, none => some (ruleDealloc o op.rule)
  | .delete, some _ => none
  | .modify, _ => some o

/-- Whether a rule is hidden: for an operation that did not fail, from the array `is_hidden`
if the caller has one, otherwise from the enclave. -/
def operationIsHidden (isHidden : Bool) (o : Ofproto) (op : Ofoperation) : Option Bool :=
  if op.error.isSome || isHidden then some false else ofprotoRuleIsHidden o op.rule

/-- One round of the loop of `ofopgroup_complete`, without its report to flow monitors. -/
def completeOp (isHidden : Bool) (o : Ofproto) (k : OpId) : Option Ofproto := do
  let op := o.op k
  let _ ← operationIsHidden isHidden o op
  let o ← commitOperation (o.setPending op.rule none) op
  return ofoperationDestroy o k

/-- `ofopgroup_complete`, without reports; `MonitoredOfproto.ofopgroupComplete` has them. -/
def ofopgroupComplete (o : Ofproto) (g : GroupId) (isHidden : Bool) : Option Ofproto := do
  let o ← (o.group g).ops.foldlM (completeOp isHidden) o
  return { o with pending := o.pending.erase g }

/-- `ofopgroup_submit`. -/
def ofopgroupSubmit (o : Ofproto) (g : GroupId) (isHidden : Bool) : Option Ofproto :=
  if (o.group g).nRunning = 0 then ofopgroupComplete o g isHidden
  else some { o with pending := o.pending ++ [g] }

/-- `ofoperation_complete`. -/
def ofoperationComplete (o : Ofproto) (k : OpId) (error : Option Ofperr) : Option Ofproto :=
  let op := o.op k
  let group := o.group op.group
  if (o.rule op.rule).pending = some k ∧ 0 < group.nRunning ∧
      (error = none ∨ op.type ≠ .delete) then
    let o := { o with
      op := Function.update o.op k { op with error := error }
      group := Function.update o.group op.group { group with nRunning := group.nRunning - 1 } }
    if group.nRunning = 1 ∧ op.group ∈ o.pending then ofopgroupComplete o op.group false
    else some o
  else none

/-- `complete_operation` of the provider. -/
def completeOperation (o : Ofproto) (a : UtAddr) : Option Ofproto := do
  let k ← (o.rule a).pending
  if o.clogged then some { o with completions := o.completions ++ [k] }
  else ofoperationComplete o k none

/-- `rule_destruct` of the provider. -/
def ruleDestruct (o : Ofproto) (a : UtAddr) : Option Ofproto :=
  completeOperation { o with log := o.log ++ [.destruct a] } a

/-- `complete_operations`, as `run` calls it. -/
def completeOperations (o : Ofproto) : Option Ofproto :=
  if o.clogged then some o
  else do
    let o ← o.completions.foldlM (fun o k => ofoperationComplete o k none) o
    return { o with completions := [] }

/-- Start the deletion of a rule that the enclave has taken out of its table. -/
def startDeletion (g : GroupId) (o : Ofproto) (e : UtAddr × U32) : Option Ofproto := do
  let (o, _) ← ofoperationCreate o g e.1 .delete (some e.2)
  ruleDestruct (o.unlinkExpirable e.1) e.1

/-! ## Adding flows -/

/-- `struct ofputil_flow_mod`, with the members that `add_flow` uses for the tables. -/
structure FlowMod where
  tableId : Nat
  «match» : Match
  priority : Nat
  checkOverlap : Bool
  idleTimeout : Nat
  hardTimeout : Nat

/-- The table that `add_flow` picks. -/
def FlowMod.table (fm : FlowMod) : Nat := if fm.tableId = 0xff then 0 else fm.tableId

/-- `rule_alloc` and the initialisation of the new rule; what `malloc` returned and the
rule's eviction data come from outside. -/
structure NewRule where
  cr : UtAddr
  evgNode : HeapNode
  evictionPriority : Nat

/-- The new rule in memory. -/
def allocRule (o : Ofproto) (fm : FlowMod) (new : NewRule) : Ofproto :=
  { o with
    rule := Function.update o.rule new.cr
      ⟨fm.table, fm.idleTimeout, fm.hardTimeout, none, new.evgNode, new.evictionPriority⟩
    allocated := new.cr :: o.allocated }

/-- The arguments that `add_flow` passes to `SGX_add_flow`. -/
def addFlowArgs (o : Ofproto) (fm : FlowMod) (cr : UtAddr) (groupPriority : Nat) : AddFlowArgs :=
  { tableId := fm.table
    cr := cr
    «match» := fm.match
    priority := fm.priority
    checkOverlap := fm.checkOverlap
    evictionGroupPriority := groupPriority
    evictionRulePriority := (o.rule cr).evictionPriority
    evictionNode := (o.rule cr).evgNode
    pendingDeletions := o.deletions.values.map fun k => (o.op k).rule
    hasTimeout := (o.rule cr).mayExpire }

/-- A rule that may be null is pending. -/
def isPending (o : Ofproto) (a : Option UtAddr) : Bool :=
  match a with
  | none => false
  | some a => (o.rule a).pending.isSome

/-- The checks of `add_flow` between `SGX_add_flow` and the creation of the operation. -/
def addFlowError (o : Ofproto) (out : AddFlowOut) : Option Ofperr :=
  if !out.isRuleModifiable then some .eperm
  else if isPending o out.victim then some .postpone
  else if out.tableOverflow then
    if out.evict.isNone then some .tableFull
    else if isPending o out.evict then some .postpone
    else none
  else none

/-- `add_flow` after its label `exit`. -/
def backOut (o : Ofproto) (cr : UtAddr) (victim : Option UtAddr) (error : Ofperr) :
    Option (Ofproto × Option Ofperr) := do
  let o ← oftableSubstituteRule o cr victim
  let o ← ofprotoRuleDestroy o (some cr)
  return (o, some error)

/-- The part of `add_flow` that deals with the evicted rule. -/
def deleteEvicted (o : Ofproto) (g : GroupId) (out : AddFlowOut) : Option Ofproto :=
  match out.evict with
  | none => some o
  | some e => startDeletion g o (e, out.evictRuleHash)

/-- What `add_flow` does with its operation when `rule_construct` fails. -/
def dropOperation (o : Ofproto) (g : GroupId) (k : OpId) : Option Ofproto :=
  let group := { o.group g with nRunning := (o.group g).nRunning - 1 }
  ofopgroupSubmit (ofoperationDestroy { o with group := Function.update o.group g group } k) g false

/-- `add_flow` from the creation of its operation on; `construct` is what `rule_construct`
returns. -/
def operateAddFlow (o : Ofproto) (cr : UtAddr) (out : AddFlowOut) (construct : Option Ofperr) :
    Option (Ofproto × Option Ofperr) := do
  let (o, g) := ofopgroupCreate o
  let (o, k) ← ofoperationCreate o g cr .add none
  let o := { o with op := Function.update o.op k { o.op k with victim := out.victim } }
  match construct with
  | some error =>
    let o ← dropOperation o g k
    backOut o cr out.victim error
  | none =>
    let o ← completeOperation o cr
    let o ← deleteEvicted o g out
    let o ← ofopgroupSubmit o g false
    return (o, none)

/-- What `add_flow` does with the new rule and its victim on the list `expirable`. -/
def relinkExpirable (o : Ofproto) (cr : UtAddr) (victim : Option UtAddr) : Ofproto :=
  let expirable := if (o.rule cr).mayExpire then o.expirable ++ [cr] else o.expirable
  { o with expirable := victim.elim expirable expirable.erase }

/-- `add_flow`, from the outputs of `SGX_add_flow` on. -/
def finishAddFlow (o : Ofproto) (cr : UtAddr) (out : AddFlowOut) (construct : Option Ofperr) :
    Option (Ofproto × Option Ofperr) :=
  if out.isReadOnly then some (ruleDealloc o cr, some .eperm)
  else if out.isDeletionPending then some (ruleDealloc o cr, some .postpone)
  else if out.isRuleOverlapping then some (ruleDealloc o cr, some .overlap)
  else
    let o := relinkExpirable o cr out.victim
    match addFlowError o out with
    | some error => backOut o cr out.victim error
    | none => operateAddFlow o cr out construct

/-- `add_flow`. The result has no error if the operation was started. -/
def addFlow (o : Ofproto) (fm : FlowMod) (new : NewRule) (construct : Option Ofperr) :
    Option (Ofproto × Option Ofperr) :=
  if fm.tableId ≠ 0xff ∧ o.nTables ≤ fm.tableId then some (o, some .badTableId)
  else do
    let (groupPriority, o) := evictionGroupPriority (allocRule o fm new) 0
    let (s, out) ← ecallAddFlow o.enclave (addFlowArgs o fm new.cr groupPriority)
    finishAddFlow { o with enclave := s } new.cr out construct

/-! ## Deleting flows -/

/-- `delete_flows__` on the rules of a list. -/
def deleteFlows (o : Ofproto) (rules : List UtAddr) : Option Ofproto := do
  let (o, g) := ofopgroupCreate o
  let (s, deleted) ← ecallDeleteFlows o.enclave (rules.map fun a => ((o.rule a).tableId, a))
  let o ← (rules.zip (deleted.map DeletedFlow.hash)).foldlM (startDeletion g)
    { o with enclave := s }
  ofopgroupSubmit o g false

/-- `ofproto_rule_expire`, with the check of `rule_expire` that no operation is pending. -/
def ofprotoRuleExpire (o : Ofproto) (a : UtAddr) : Option Ofproto :=
  if (o.rule a).pending.isSome then some o
  else do
    -- `ofproto_rule_send_removed`
    let _ ← ofprotoRuleIsHidden o a
    let (o, g) := ofopgroupCreate o
    let (o, _) ← ofoperationCreate o g a .delete none
    let o ← oftableRemoveRule o a
    let o ← ruleDestruct o a
    ofopgroupSubmit o g false

/-- The size of the buffers of `ofproto_flush__` and `ofproto_evict`. -/
def defaultBufferSize : Nat := 32

/-- What `ofproto_flush__` has in its buffers after its one or two calls of
`SGX_ofproto_flush`: the state, the entries and `n_rules`. -/
def flushPages (s : Enclave) : Option (Enclave × List (UtAddr × U32) × Nat) := do
  let f ← ecallOfprotoFlush s defaultBufferSize
  if f.count = f.out.length then return (f.state, f.out, f.count)
  else
    let f' ← ecallOfprotoFlush f.state (f.count - f.out.length)
    return (f'.state, f.out ++ f'.out, f'.count)

/-- The first `n` of the entries that have been written. -/
def readEntries (entries : List (UtAddr × U32)) (n : Nat) : Option (List (UtAddr × U32)) :=
  if n ≤ entries.length then some (entries.take n) else none

/-- `ofproto_flush__`: every deletion is filed under `*hashes`, the first entry of the
first page. -/
def ofprotoFlush (o : Ofproto) : Option Ofproto := do
  let (o, g) := ofopgroupCreate o
  let (s, entries, nRules) ← flushPages o.enclave
  let read ← readEntries entries nRules
  let hash := ((entries.map Prod.snd).head?).getD 0#32
  let o ← (read.map fun e => (e.1, hash)).foldlM (startDeletion g) { o with enclave := s }
  ofopgroupSubmit o g false

/-- What `ofproto_evict` has in its buffers after its one or two calls of
`SGX_ofproto_evict`: the state, the entries and `total_evictions`. With few evictions left
over, copying the first page overruns the extended buffer. -/
def evictPages (s : Enclave) (nTables : Nat) :
    Option (Enclave × List (UtAddr × U32) × Nat) := do
  let res ← ecallOfprotoEvict s nTables 0 defaultBufferSize
  let leftover := (res.nEvictions + 2 ^ 64 - res.result) % 2 ^ 64
  if leftover = 0 then return (res.state, res.entries, res.nEvictions)
  else if res.nEvictions < defaultBufferSize then none
  else
    let res' ← ecallOfprotoEvict res.state nTables res.result leftover
    return (res'.state, res.entries ++ res'.entries, res.nEvictions)

/-- The first loop of `ofproto_evict`, from entry `i` on for `fuel` rounds: the rules whose
deletion has been started. -/
def evictEntries (g : GroupId) (entries : List (UtAddr × U32)) :
    Nat → Nat → Ofproto → List UtAddr → Option (Ofproto × List UtAddr)
  | 0, _, o, removed => some (o, removed)
  | fuel + 1, i, o, removed => do
    let e ← entries[i]?
    if (o.rule e.1).pending.isSome then return (o, removed)
    else
      let (o, _) ← ofoperationCreate o g e.1 .delete (some e.2)
      evictEntries g entries fuel (i + 1) o (removed ++ [e.1])

/-- `ofproto_evict`, without reports; `MonitoredOfproto.ofprotoEvict` has them. -/
def ofprotoEvict (o : Ofproto) : Option Ofproto := do
  let (o, g) := ofopgroupCreate o
  let (s, entries, total) ← evictPages o.enclave o.nTables
  let (o, removed) ← evictEntries g entries total 0 { o with enclave := s } []
  let (s, _) ← ecallOftableRemoveRules o.enclave (removed.map fun a => ((o.rule a).tableId, a))
  let o ← removed.foldlM (fun o a => ruleDestruct (o.unlinkExpirable a) a) { o with enclave := s }
  ofopgroupSubmit o g true

end OvsSgx
