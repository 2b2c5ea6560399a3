/-
OvsSgx.FlowMonitors — controllers that watch the flow table.

Models `ofmonitor_*` of connmgr.c and what ofproto.c has for them:
`handle_flow_monitor_request`, the collection of the rules that a new or a
resumed monitor is told of, and the reports that `ofopgroup_complete` makes.
A connection that takes up its messages too slowly is paused and, once it
has caught up, told what it has missed. The optimized build is the one
modelled.

The library that composes the messages is a parameter. The number
`monitor_seqno` is a natural number; all bridges share it. What is given to
`rconn` is sent. While a call has not submitted its group, completing an
operation reports nothing, and the functions of the bridge without monitors
are used as they are.
-/
import OvsSgx.CollectRulesTheorems
import OvsSgx.FlowCompression
import OvsSgx.ModifyFlows
import OvsSgx.OfprotoRuns

namespace OvsSgx

/-! ## Monitors and updates -/

/-- `enum nx_flow_monitor_flags`, without `NXFMF_OWN`, which nothing reads. -/
structure MonitorFlags where
  initial : Bool
  add : Bool
  delete : Bool
  modify : Bool
  actions : Bool
deriving DecidableEq, Repr

namespace MonitorFlags

/-- No flag is set. -/
def none : MonitorFlags := ⟨false, false, false, false, false⟩

/-- `f | g`. -/
def union (f g : MonitorFlags) : MonitorFlags :=
  ⟨f.initial || g.initial, f.add || g.add, f.delete || g.delete, f.modify || g.modify,
    f.actions || g.actions⟩

/-- `(f & g) != 0`. -/
def meets (f g : MonitorFlags) : Bool :=
  f.initial && g.initial || f.add && g.add || f.delete && g.delete || f.modify && g.modify ||
    f.actions && g.actions

end MonitorFlags

/-- `enum nx_flow_update_event`, without `NXFME_ABBREV`. -/
inductive UpdateEvent where
  | added
  | deleted
  | modified
deriving DecidableEq, Repr

/-- The flag by which a monitor asks for an event. -/
def UpdateEvent.flag : UpdateEvent → MonitorFlags
  | .added => { MonitorFlags.none with add := true }
  | .deleted => { MonitorFlags.none with delete := true }
  | .modified => { MonitorFlags.none with modify := true }

/-- `(enum nx_flow_update_event) op->type`. -/
def OfoperationType.event : OfoperationType → UpdateEvent
  | .add => .added
  | .delete => .deleted
  | .modify => .modified

/-- `enum ofp_flow_removed_reason`, as far as rules are removed for it. -/
inductive FlowRemovedReason where
  | idleTimeout
  | hardTimeout
  | delete
  | eviction
deriving DecidableEq, Repr

/-- The members of a `struct ofputil_flow_update` that say what a flow is like. -/
structure FlowData (A : Type) where
  cookie : BitVec 64
  idleTimeout : Nat
  hardTimeout : Nat
  ofpacts : Option A

/-- `struct ofputil_flow_update` for an event that is not `NXFME_ABBREV`. -/
structure FlowChange (A : Type) where
  event : UpdateEvent
  reason : Option FlowRemovedReason
  tableId : Nat
  «match» : Match
  priority : Nat
  data : FlowData A

/-- `struct ofputil_flow_update`. -/
inductive FlowUpdate (A : Type) where
  | change (c : FlowChange A)
  | abbrev (xid : U32)

/-- A `struct ofmonitor *`. -/
abbrev MonitorId := Nat

/-- `struct ofmonitor`. -/
structure Ofmonitor where
  id : U32
  flags : MonitorFlags
  outPort : BitVec 16
  tableId : Nat
  «match» : Minimatch

/-- `struct ofputil_flow_monitor_request`. -/
structure MonitorRequest where
  id : U32
  flags : MonitorFlags
  outPort : BitVec 16
  tableId : Nat
  «match» : Match

/-- What is sent on a connection: updates, the marks of a pause, or the updates with which a
request or the end of a pause is answered. -/
inductive MonitorMessage (A : Type) where
  | updates (us : List (FlowUpdate A))
  | paused
  | resumed
  | refresh (us : List (FlowUpdate A))

/-- The members of `struct ofconn` for monitors. `queued` are the sizes of the messages that
`monitor_counter` counts. -/
structure MonitorConn (A : Type) where
  monitors : Hmap MonitorId
  updates : List (FlowUpdate A)
  sentAbbrevUpdate : Bool
  queued : List Nat
  monitorPaused : Nat
  sent : List (MonitorMessage A)

/-- How the library cuts updates into messages, how long a message is, and what it finds in
actions. -/
structure MonitorLib (A : Type) where
  cut : List (FlowUpdate A) → List (List (FlowUpdate A))
  size : List (FlowUpdate A) → Nat
  pausedSize : Nat
  outputTo : A → BitVec 16 → Bool

/-- A `struct ofconn *`. -/
abbrev MonitorConnId := Nat

/-- What `ofopgroup_complete` knows of the origin of a group: the connection and the request that
it belongs to, whether executing the buffered packet of that request fails, and why it deletes
rules. -/
structure Origin where
  requester : Option (MonitorConnId × U32)
  packetError : Bool
  reason : FlowRemovedReason

/-- The memory of the untrusted side that monitors need beside that of the bridge. -/
structure MonitorMemory (A : Type) where
  flowCookie : UtAddr → BitVec 64
  ofpacts : UtAddr → A
  addSeqno : UtAddr → Nat
  modifySeqno : UtAddr → Nat
  opFlowCookie : OpId → BitVec 64
  opOfpacts : OpId → Option A
  origin : GroupId → Origin
  monitorSeqno : Nat
  monitor : MonitorId → Ofmonitor
  nextMonitor : MonitorId
  conn : MonitorConnId → MonitorConn A
  allConns : List MonitorConnId
  nextConn : MonitorConnId

/-- A bridge with its monitors. -/
abbrev MonitoredOfproto (A : Type) := Ofproto × MonitorMemory A

section Monitors

variable {A : Type} (u : MonitorLib A)

/-- Write to one connection. -/
def MonitorMemory.update (m : MonitorMemory A) (c : MonitorConnId)
    (f : MonitorConn A → MonitorConn A) : MonitorMemory A :=
  { m with conn := Function.update m.conn c (f (m.conn c)) }

/-- `ecall_cls_rule_is_loose_match`, not zero. -/
def ecallClsRuleIsLooseMatch (s : Enclave) (a : UtAddr) (criteria : Minimatch) : Option Bool := do
  let r ← sgxRuleFromUtCr s a
  return clsRuleIsLooseMatch (s.clsRule r) criteria

/-- `ofproto_rule_has_out_port`. -/
def MonitorMemory.ruleHasOutPort (m : MonitorMemory A) (a : UtAddr) (outPort : BitVec 16) : Bool :=
  outPort == OFPP_ANY || u.outputTo (m.ofpacts a) outPort

/-- `ofoperation_has_out_port`. -/
def MonitorMemory.operationHasOutPort (m : MonitorMemory A) (o : Ofproto) (k : OpId)
    (outPort : BitVec 16) : Bool :=
  m.ruleHasOutPort u (o.op k).rule outPort ||
    match (o.op k).type with
    | .add => (o.op k).victim.any fun v => m.ruleHasOutPort u v outPort
    | .delete => false
    | .modify => (m.opOfpacts k).any fun acts => u.outputTo acts outPort

/-- The monitors of a connection, in the order of its hmap. -/
def MonitorMemory.monitors (m : MonitorMemory A) (c : MonitorConnId) : List Ofmonitor :=
  (m.conn c).monitors.values.map m.monitor

/-! ## Reports -/

/-- The update about rule `a`. -/
def flowChange (o : Ofproto) (m : MonitorMemory A) (a : UtAddr) (event : UpdateEvent)
    (reason : FlowRemovedReason) (ofpacts : Option A) : Option (FlowChange A) := do
  let «match» ← ecallMinimatchExpand o.enclave a
  let priority ← ecallCrPriority o.enclave a
  return {
    event := event
    reason := if event = .deleted then some reason else none
    tableId := (o.rule a).tableId
    «match» := «match»
    priority := priority
    data := ⟨m.flowCookie a, (o.rule a).idleTimeout, (o.rule a).hardTimeout, ofpacts⟩ }

/-- The loop of `ofmonitor_report` over the monitors of a connection: the variable `flags`. -/
def reportFlags (o : Ofproto) (m : MonitorMemory A) (k : OpId) (event : UpdateEvent) :
    List Ofmonitor → MonitorFlags → Option MonitorFlags
  | [], flags => some flags
  | mon :: rest, flags =>
    if mon.flags.meets event.flag
        && (mon.tableId == 0xff || mon.tableId == (o.rule (o.op k).rule).tableId)
        && m.operationHasOutPort u o k mon.outPort then do
      if ← ecallClsRuleIsLooseMatch o.enclave (o.op k).rule mon.match then
        reportFlags o m k event rest (flags.union mon.flags)
      else reportFlags o m k event rest flags
    else reportFlags o m k event rest flags

/-- `ofmonitor_report` puts an update at the end of the list `updates`: the change, or, if it is
the connection that has asked for it, the number of its request, once. -/
def MonitorConn.report (conn : MonitorConn A) (change : FlowChange A) (own : Option U32) :
    MonitorConn A :=
  let conn : MonitorConn A :=
    { conn with sentAbbrevUpdate := !conn.updates.isEmpty && conn.sentAbbrevUpdate }
  match own with
  | none => { conn with updates := conn.updates ++ [.change change] }
  | some xid =>
    if conn.sentAbbrevUpdate then conn
    else { conn with updates := conn.updates ++ [.abbrev xid], sentAbbrevUpdate := true }

/-- One round of the loop of `ofmonitor_report` over the connections, for operation `k`. -/
def reportTo (abbrevOfconn : Option (MonitorConnId × U32)) (o : Ofproto) (k : OpId)
    (event : UpdateEvent) (reason : FlowRemovedReason) (m : MonitorMemory A) (c : MonitorConnId) :
    Option (MonitorMemory A) :=
  let a := (o.op k).rule
  let paused := (m.conn c).monitorPaused
  if paused ≠ 0 ∧ (event ≠ .deleted ∨ paused < m.addSeqno a) then some m
  else do
    let flags ← reportFlags u o m k event (m.monitors c) MonitorFlags.none
    if flags = MonitorFlags.none then return m
    else
      let own := abbrevOfconn.bind fun e => if e.1 = c ∧ paused = 0 then some e.2 else none
      let change ← flowChange o m a event reason
        (if flags.actions then some (m.ofpacts a) else none)
      return m.update c fun conn => conn.report change own

/-- What `ofmonitor_report` writes to the rule and to `monitor_seqno`. -/
def MonitorMemory.count (m : MonitorMemory A) (a : UtAddr) : UpdateEvent → MonitorMemory A
  | .added =>
    { m with
      addSeqno := Function.update m.addSeqno a m.monitorSeqno
      modifySeqno := Function.update m.modifySeqno a m.monitorSeqno
      monitorSeqno := m.monitorSeqno + 1 }
  | .deleted => m
  | .modified =>
    { m with
      modifySeqno := Function.update m.modifySeqno a m.monitorSeqno
      monitorSeqno := m.monitorSeqno + 1 }

/-- `ofmonitor_report`, for operation `k`. -/
def ofmonitorReport (abbrevOfconn : Option (MonitorConnId × U32)) (o : Ofproto) (k : OpId)
    (reason : FlowRemovedReason) (m : MonitorMemory A) : Option (MonitorMemory A) :=
  let event := (o.op k).type.event
  m.allConns.foldlM (reportTo u abbrevOfconn o k event reason) (m.count (o.op k).rule event)

/-- A round of the loop of `ofmonitor_flush` over the messages of a connection. -/
def flushMessage (c : MonitorConnId) (m : MonitorMemory A) (us : List (FlowUpdate A)) :
    MonitorMemory A :=
  let m := m.update c fun conn =>
    { conn with sent := conn.sent ++ [.updates us], queued := conn.queued ++ [u.size us] }
  if (m.conn c).monitorPaused = 0 ∧ 128 * 1024 < (m.conn c).queued.sum then
    let m := m.update c fun conn =>
      { conn with
        monitorPaused := m.monitorSeqno
        sent := conn.sent ++ [.paused]
        queued := conn.queued ++ [u.pausedSize] }
    { m with monitorSeqno := m.monitorSeqno + 1 }
  else m

/-- `ofmonitor_flush`. -/
def ofmonitorFlush (m : MonitorMemory A) : MonitorMemory A :=
  m.allConns.foldl (fun m c =>
    let m := (u.cut (m.conn c).updates).foldl (flushMessage u c) m
    m.update c fun conn => { conn with updates := [] }) m

/-! ## Completing operations -/

/-- Whether a rule is hidden, as `ofopgroup_complete` finds out, and what is left of the array
`is_hidden`. -/
def nextHidden (o : Ofproto) (op : Ofoperation) :
    Option (List Bool) → Option (Bool × Option (List Bool))
  | none => do return (← ofprotoRuleIsHidden o op.rule, none)
  | some [] => none
  | some (hidden :: rest) => some (hidden, some rest)

/-- The operation has only updated `rule->modified`. -/
def onlyTouches (m : MonitorMemory A) (o : Ofproto) (k : OpId) : Bool :=
  (o.op k).type == .modify && (m.opOfpacts k).isNone &&
    m.flowCookie (o.op k).rule == m.opFlowCookie k

/-- The part of `ofopgroup_complete` that reports operation `k`, if it has not failed. -/
def reportOperation (abbrevOfconn : Option (MonitorConnId × U32)) (reason : FlowRemovedReason)
    (isHidden : Option (List Bool)) (s : MonitoredOfproto A) (k : OpId) :
    Option (MonitorMemory A × Option (List Bool)) :=
  if (s.1.op k).error.isSome then some (s.2, isHidden)
  else do
    let (hidden, isHidden) ← nextHidden s.1 (s.1.op k) isHidden
    if hidden || onlyTouches s.2 s.1 k then return (s.2, isHidden)
    else return (← ofmonitorReport u abbrevOfconn s.1 k reason s.2, isHidden)

/-- A modification that has failed is taken back. -/
def MonitorMemory.revert (m : MonitorMemory A) (o : Ofproto) (k : OpId) : MonitorMemory A :=
  let op := o.op k
  if op.type = .modify ∧ op.error.isSome then
    { m with
      flowCookie := Function.update m.flowCookie op.rule (m.opFlowCookie k)
      ofpacts := (m.opOfpacts k).elim m.ofpacts fun acts => Function.update m.ofpacts op.rule acts }
  else m

/-- The loop of `ofopgroup_complete`. -/
def completeOps (abbrevOfconn : Option (MonitorConnId × U32)) (reason : FlowRemovedReason) :
    List OpId → Option (List Bool) → MonitoredOfproto A → Option (MonitoredOfproto A)
  | [], _, s => some s
  | k :: rest, isHidden, s => do
    let (m, isHidden) ← reportOperation u abbrevOfconn reason isHidden s k
    let o ← commitOperation (s.1.setPending (s.1.op k).rule none) (s.1.op k)
    completeOps abbrevOfconn reason rest isHidden (ofoperationDestroy o k, m.revert s.1 k)

namespace MonitoredOfproto

/-- `ofopgroup_complete`. -/
def ofopgroupComplete (s : MonitoredOfproto A) (g : GroupId) (isHidden : Option (List Bool)) :
    Option (MonitoredOfproto A) := do
  let origin := s.2.origin g
  let failed := (s.1.group g).ops.any (fun k => (s.1.op k).error.isSome) || origin.packetError
  let abbrevOfconn := if failed then none else origin.requester
  let s ← completeOps u abbrevOfconn origin.reason (s.1.group g).ops isHidden s
  return ({ s.1 with pending := s.1.pending.erase g }, ofmonitorFlush u s.2)

/-- `ofopgroup_submit`. -/
def ofopgroupSubmit (s : MonitoredOfproto A) (g : GroupId) (isHidden : Option (List Bool)) :
    Option (MonitoredOfproto A) :=
  if (s.1.group g).nRunning = 0 then s.ofopgroupComplete u g isHidden
  else some ({ s.1 with pending := s.1.pending ++ [g] }, s.2)

/-- `ofoperation_complete`, for an operation that succeeds. -/
def ofoperationComplete (s : MonitoredOfproto A) (k : OpId) : Option (MonitoredOfproto A) :=
  let op := s.1.op k
  let group := s.1.group op.group
  if (s.1.rule op.rule).pending = some k ∧ 0 < group.nRunning then
    let o := s.1.markCompleted k none
    if group.nRunning = 1 ∧ op.group ∈ s.1.pending then ofopgroupComplete u (o, s.2) op.group none
    else some (o, s.2)
  else none

/-- `complete_operations`. -/
def completeOperations (s : MonitoredOfproto A) : Option (MonitoredOfproto A) :=
  if s.1.clogged then some s
  else do
    let s ← s.1.completions.foldlM (ofoperationComplete u) s
    return ({ s.1 with completions := [] }, s.2)

/-- A new group, with its origin. -/
def ofopgroupCreate (s : MonitoredOfproto A) (origin : Origin) : MonitoredOfproto A × GroupId :=
  let (o, g) := OvsSgx.ofopgroupCreate s.1
  ((o, { s.2 with origin := Function.update s.2.origin g origin }), g)

/-! ## Calls that change the flow table -/

/-- `delete_flows__`. -/
def deleteFlows (s : MonitoredOfproto A) (rules : List UtAddr) (origin : Origin) :
    Option (MonitoredOfproto A) := do
  let ((o, m), g) := s.ofopgroupCreate origin
  let (e, deleted) ← ecallDeleteFlows o.enclave (rules.map fun a => ((o.rule a).tableId, a))
  let o ← (rules.zip (deleted.map DeletedFlow.hash)).foldlM (startDeletion g)
    { o with enclave := e }
  ofopgroupSubmit u (o, m) g none

/-- `ofproto_rule_expire`. -/
def ofprotoRuleExpire (s : MonitoredOfproto A) (a : UtAddr) (reason : FlowRemovedReason) :
    Option (MonitoredOfproto A) :=
  if (s.1.rule a).pending.isSome then some s
  else do
    let _ ← ofprotoRuleIsHidden s.1 a
    let ((o, m), g) := s.ofopgroupCreate ⟨none, false, reason⟩
    let (o, _) ← ofoperationCreate o g a .delete none
    let o ← oftableRemoveRule o a
    let o ← ruleDestruct o a
    ofopgroupSubmit u (o, m) g none

/-- `ofproto_flush__`. -/
def ofprotoFlush (s : MonitoredOfproto A) : Option (MonitoredOfproto A) := do
  let ((o, m), g) := s.ofopgroupCreate ⟨none, false, .delete⟩
  let (e, entries, nRules) ← flushPages o.enclave
  let read ← readEntries entries nRules
  let hash := ((entries.map Prod.snd).head?).getD 0#32
  let o ← (read.map fun e => (e.1, hash)).foldlM (startDeletion g) { o with enclave := e }
  ofopgroupSubmit u (o, m) g none

/-- `ofproto_evict`. -/
def ofprotoEvict (s : MonitoredOfproto A) : Option (MonitoredOfproto A) := do
  let ((o, m), g) := s.ofopgroupCreate ⟨none, false, .eviction⟩
  let (e, entries, total) ← evictPages o.enclave o.nTables
  let (o, removed) ← evictEntries g entries total 0 { o with enclave := e } []
  let (e, hidden) ← ecallOftableRemoveRules o.enclave (removed.map fun a => ((o.rule a).tableId, a))
  let o ← removed.foldlM (fun o a => ruleDestruct (o.unlinkExpirable a) a) { o with enclave := e }
  ofopgroupSubmit u (o, m) g (some hidden)

/-- `add_flow` from the creation of its operation on. -/
def operateAddFlow (s : MonitoredOfproto A) (cr : UtAddr) (out : AddFlowOut)
    (construct : Option Ofperr) (origin : Origin) :
    Option (MonitoredOfproto A × Option Ofperr) := do
  let ((o, m), g) := s.ofopgroupCreate origin
  let (o, k) ← ofoperationCreate o g cr .add none
  let o := { o with op := Function.update o.op k { o.op k with victim := out.victim } }
  match construct with
  | some error =>
    let group := { o.group g with nRunning := (o.group g).nRunning - 1 }
    let o := ofoperationDestroy { o with group := Function.update o.group g group } k
    let (o, m) ← ofopgroupSubmit u (o, m) g none
    let (o, error) ← backOut o cr out.victim error
    return ((o, m), error)
  | none =>
    let o ← completeOperation o cr
    let o ← deleteEvicted o g out
    let s ← ofopgroupSubmit u (o, m) g none
    return (s, none)

/-- `add_flow`, from the outputs of `SGX_add_flow` on. -/
def finishAddFlow (s : MonitoredOfproto A) (cr : UtAddr) (out : AddFlowOut)
    (construct : Option Ofperr) (origin : Origin) :
    Option (MonitoredOfproto A × Option Ofperr) :=
  if out.isReadOnly then some ((ruleDealloc s.1 cr, s.2), some .eperm)
  else if out.isDeletionPending then some ((ruleDealloc s.1 cr, s.2), some .postpone)
  else if out.isRuleOverlapping then some ((ruleDealloc s.1 cr, s.2), some .overlap)
  else
    let o := relinkExpirable s.1 cr out.victim
    match addFlowError o out with
    | some error => do
      let (o, error) ← backOut o cr out.victim error
      return ((o, s.2), error)
    | none => operateAddFlow u (o, s.2) cr out construct origin

/-- What `add_flow` writes to the new rule for its cookie, its actions and its numbers. -/
def allocRule (m : MonitorMemory A) (fm : FlowModRequest A) (cr : UtAddr) : MonitorMemory A :=
  { m with
    flowCookie := Function.update m.flowCookie cr fm.newCookie
    ofpacts := Function.update m.ofpacts cr fm.ofpacts
    addSeqno := Function.update m.addSeqno cr 0
    modifySeqno := Function.update m.modifySeqno cr 0 }

/-- `add_flow`. -/
def addFlow (s : MonitoredOfproto A) (fm : FlowModRequest A) (new : NewRule)
    (construct : Option Ofperr) (origin : Origin) :
    Option (MonitoredOfproto A × Option Ofperr) :=
  if fm.tableId ≠ 0xff ∧ s.1.nTables ≤ fm.tableId then some (s, some .badTableId)
  else do
    let (groupPriority, o) := evictionGroupPriority (OvsSgx.allocRule s.1 fm.toFlowMod new) 0
    let (enclave, out) ← ecallAddFlow o.enclave
      (addFlowArgs o fm.toFlowMod new.cr groupPriority)
    finishAddFlow u ({ o with enclave := enclave }, allocRule s.2 fm new.cr) new.cr out construct
      origin

section Modify

variable [DecidableEq A]

/-- The body of the loop of `modify_flows__` for a modifiable rule. -/
def modifyRule (g : GroupId) (fm : FlowModRequest A) (s : MonitoredOfproto A) (a : UtAddr) :
    Option (MonitoredOfproto A) := do
  let (o, k) ← ofoperationCreate s.1 g a .modify none
  let cookie := s.2.flowCookie a
  let m := { s.2 with
    opFlowCookie := Function.update s.2.opFlowCookie k cookie
    flowCookie := Function.update s.2.flowCookie a (fm.cookieFor cookie) }
  if fm.ofpacts = m.ofpacts a then
    let o ← OvsSgx.ofoperationComplete o k none
    return (o, { m with opOfpacts := Function.update m.opOfpacts k none })
  else
    let o ← completeOperation o a
    return (o, { m with
      opOfpacts := Function.update m.opOfpacts k (some (m.ofpacts a))
      ofpacts := Function.update m.ofpacts a fm.ofpacts })

/-- The loop of `modify_flows__`. -/
def modifyLoop (g : GroupId) (fm : FlowModRequest A) (modifiable : List Bool) :
    Nat → List UtAddr → MonitoredOfproto A → Option Ofperr →
      Option (MonitoredOfproto A × Option Ofperr)
  | _, [], s, error => some (s, error)
  | i, a :: rest, s, error => do
    let modify ← modifiable[i]?
    if modify then
      let s ← modifyRule g fm s a
      modifyLoop g fm modifiable (i + 1) rest s none
    else modifyLoop g fm modifiable (i + 1) rest s error

/-- `modify_flows__`. -/
def modifyFlows (s : MonitoredOfproto A) (fm : FlowModRequest A) (rules : List UtAddr)
    (modifiable : List Bool) (origin : Origin) :
    Option (MonitoredOfproto A × Option Ofperr) := do
  let (s, g) := s.ofopgroupCreate origin
  let (s, error) ← modifyLoop g fm modifiable 0 rules s (some .eperm)
  let s ← ofopgroupSubmit u s g none
  return (s, error)

end Modify

end MonitoredOfproto

end Monitors

end OvsSgx
