/-
OvsSgx.MonitorRequests — starting, cancelling and resuming monitors.

A new monitor, or one whose connection has caught up, is told of the rules
that are there. They are found like those of other requests, in the
classifiers; the rules whose deletion is pending are no longer there, so the
hmap `deletions` is searched as well. A rule in a classifier must not have an
operation pending, `assert` stops the switch otherwise.

The calls into a bridge with monitors come last: those that change the flow
table, on behalf of a connection or of none, and those of the connections.
-/
import OvsSgx.FlowMonitors

namespace OvsSgx

open BufferedRead

section Monitors

variable {A : Type} (u : MonitorLib A)

/-! ## The rules that there are -/

/-- The list `rules` of a collection, and the member `monitor_flags` of the rules. -/
structure RefreshRules where
  rules : List UtAddr
  flags : UtAddr → MonitorFlags

/-- No rule, and no flag set. -/
def RefreshRules.empty : RefreshRules := ⟨[], fun _ => MonitorFlags.none⟩

/-- Set flags of a rule, which joins the list with its first flag. -/
def RefreshRules.mark (acc : RefreshRules) (a : UtAddr) (flags : MonitorFlags) : RefreshRules where
  rules := if acc.flags a = MonitorFlags.none then acc.rules ++ [a] else acc.rules
  flags := Function.update acc.flags a ((acc.flags a).union flags)

/-- The variable `update` of `ofproto_collect_ofmonitor_refresh_rule`, unless it returns. -/
def refreshUpdate (m : MonitorMemory A) (mon : Ofmonitor) (seqno : Nat) (a : UtAddr) :
    Option MonitorFlags :=
  let ifAsked (update : MonitorFlags) := if mon.flags.meets update then some update else none
  if seqno = 0 then some { MonitorFlags.none with initial := true }
  else if seqno < m.addSeqno a then ifAsked { MonitorFlags.none with add := true, modify := true }
  else if seqno < m.modifySeqno a then ifAsked { MonitorFlags.none with modify := true }
  else none

/-- `ofproto_collect_ofmonitor_refresh_rule`. -/
def collectRefreshRule (o : Ofproto) (m : MonitorMemory A) (mon : Ofmonitor) (seqno : Nat)
    (acc : RefreshRules) (a : UtAddr) : Option RefreshRules := do
  if ← ofprotoRuleIsHidden o a then return acc
  else
    let hasOutPort := match (o.rule a).pending with
      | some k => m.operationHasOutPort u o k mon.outPort
      | none => m.ruleHasOutPort u a mon.outPort
    if !hasOutPort then return acc
    else
      match refreshUpdate m mon seqno a with
      | none => return acc
      | some update =>
        return acc.mark a (update.union { MonitorFlags.none with actions := mon.flags.actions })

/-- What the buffer holds after `SGX_collect_ofmonitor_util_c` and
`SGX_collect_ofmonitor_util_r`. -/
def monitorCandidates (s : Enclave) (nTables : Nat) (mon : Ofmonitor) : Option (List UtAddr) :=
  let n := ecallCollectOfmonitorUtilC s nTables mon.tableId mon.match
  if n = 0 then some []
  else (ecallCollectOfmonitorUtilR s nTables BUF n mon.tableId mon.match).filled n

/-- A round of the loop over the candidates. -/
def collectCandidate (o : Ofproto) (m : MonitorMemory A) (mon : Ofmonitor) (seqno : Nat)
    (acc : RefreshRules) (a : UtAddr) : Option RefreshRules :=
  if (o.rule a).pending.isSome then none else collectRefreshRule u o m mon seqno acc a

/-- A round of the loop over the hmap `deletions`. -/
def collectDeletion (o : Ofproto) (m : MonitorMemory A) (mon : Ofmonitor) (seqno : Nat)
    (acc : RefreshRules) (k : OpId) : Option RefreshRules :=
  let a := (o.op k).rule
  if (if mon.tableId = 0xff then !(o.enclave.oftable (o.rule a).tableId).flags.hidden
      else mon.tableId == (o.rule a).tableId) then do
    if ← ecallClsRuleIsLooseMatch o.enclave a mon.match then
      collectRefreshRule u o m mon seqno acc a
    else return acc
  else some acc

/-- `ofproto_collect_ofmonitor_refresh_rules`. -/
def collectRefreshRules (o : Ofproto) (m : MonitorMemory A) (seqno : Nat) (acc : RefreshRules)
    (mon : Ofmonitor) : Option RefreshRules := do
  let found ← monitorCandidates o.enclave o.nTables mon
  let acc ← found.foldlM (collectCandidate u o m mon seqno) acc
  o.deletions.values.foldlM (collectDeletion u o m mon seqno) acc

/-- `ofproto_collect_ofmonitor_initial_rules`. -/
def collectInitialRules (o : Ofproto) (m : MonitorMemory A) (acc : RefreshRules)
    (mon : Ofmonitor) : Option RefreshRules :=
  if mon.flags.initial then collectRefreshRules u o m 0 acc mon else some acc

/-- The actions that an update about a rule shows, if any: those from before a pending operation. -/
def refreshOfpacts (o : Ofproto) (m : MonitorMemory A) (a : UtAddr) : Option A :=
  match (o.rule a).pending with
  | none => some (m.ofpacts a)
  | some k =>
    match (o.op k).type with
    | .add => (o.op k).victim.map m.ofpacts
    | .modify => some ((m.opOfpacts k).getD (m.ofpacts a))
    | .delete => some (m.ofpacts a)

/-- The operation adds a rule that takes the place of no other. -/
def addsNew (o : Ofproto) (k : OpId) : Bool := (o.op k).type == .add && (o.op k).victim.isNone

/-- `ofproto_compose_flow_refresh_update`. -/
def composeRefreshUpdate (o : Ofproto) (m : MonitorMemory A) (flags : MonitorFlags) (a : UtAddr) :
    Option (List (FlowChange A)) :=
  if (o.rule a).pending.any (addsNew o) then some []
  else do
    let event := if flags.initial || flags.add then UpdateEvent.added else UpdateEvent.modified
    let change ← flowChange o m a event .delete
      (if flags.actions then refreshOfpacts o m a else none)
    return [change]

/-- `ofmonitor_compose_refresh_updates`. -/
def composeRefreshUpdates (o : Ofproto) (m : MonitorMemory A) (acc : RefreshRules) :
    Option (List (FlowChange A)) := do
  let changes ← acc.rules.mapM fun a => composeRefreshUpdate o m (acc.flags a) a
  return changes.flatten

/-- The connection is told of changes in an answer. -/
def MonitorConn.refresh (conn : MonitorConn A) (changes : List (FlowChange A)) : MonitorConn A :=
  { conn with sent := conn.sent ++ [.refresh (changes.map .change)] }

/-! ## Requests -/

/-- What `handle_flow_monitor_request` and `handle_flow_monitor_cancel` return. The errors of the
library are numbers. -/
inductive MonitorError where
  | badTableId
  | duplicateId
  | badId
  | library (code : Nat)
deriving DecidableEq, Repr

/-- The hash of a monitor. -/
def monitorHash (id : U32) : Nat := (hashInt id 0#32).toNat

/-- `ofmonitor_lookup`. -/
def ofmonitorLookup (m : MonitorMemory A) (c : MonitorConnId) (id : U32) : Option MonitorId :=
  ((m.conn c).monitors.inBucket (monitorHash id)).find? fun k => (m.monitor k).id == id

/-- `ofmonitor_create`, `none` for a duplicate id. -/
def ofmonitorCreate (m : MonitorMemory A) (c : MonitorConnId) (r : MonitorRequest) :
    Option (MonitorMemory A × MonitorId) :=
  match ofmonitorLookup m c r.id with
  | some _ => none
  | none =>
    let k := m.nextMonitor
    let mon : Ofmonitor := {
      id := r.id
      flags := r.flags
      outPort := r.outPort
      tableId := r.tableId
      «match» := minimatchInit r.match }
    let m := { m with monitor := Function.update m.monitor k mon, nextMonitor := k + 1 }
    some (m.update c fun conn =>
      { conn with monitors := hmapInsert conn.monitors k (monitorHash r.id) }, k)

/-- `ofmonitor_destroy`. -/
def ofmonitorDestroy (c : MonitorConnId) (m : MonitorMemory A) (k : MonitorId) :
    MonitorMemory A :=
  m.update c fun conn =>
    { conn with monitors := hmapRemove conn.monitors k (monitorHash (m.monitor k).id) }

/-- The first loop of `handle_flow_monitor_request`: the monitors that it has created, and the
error at which it stops. -/
def createMonitors (o : Ofproto) (c : MonitorConnId) :
    List (Except Nat MonitorRequest) → MonitorMemory A → List MonitorId →
      MonitorMemory A × List MonitorId × Option MonitorError
  | [], m, made => (m, made, none)
  | .error code :: _, m, made => (m, made, some (.library code))
  | .ok r :: rest, m, made =>
    if r.tableId ≠ 0xff ∧ o.nTables ≤ r.tableId then (m, made, some .badTableId)
    else
      match ofmonitorCreate m c r with
      | none => (m, made, some .duplicateId)
      | some (m, k) => createMonitors o c rest m (made ++ [k])

/-- `handle_flow_monitor_request`. -/
def handleFlowMonitorRequest (s : MonitoredOfproto A) (c : MonitorConnId)
    (reqs : List (Except Nat MonitorRequest)) :
    Option (MonitoredOfproto A × Option MonitorError) :=
  let (m, made, error) := createMonitors s.1 c reqs s.2 []
  match error with
  | some error => some ((s.1, made.foldl (ofmonitorDestroy c) m), some error)
  | none => do
    let acc ← (made.map m.monitor).foldlM (collectInitialRules u s.1 m) RefreshRules.empty
    let changes ← composeRefreshUpdates s.1 m acc
    return ((s.1, m.update c fun conn => conn.refresh changes), none)

/-- `handle_flow_monitor_cancel`. -/
def handleFlowMonitorCancel (m : MonitorMemory A) (c : MonitorConnId) (id : U32) :
    MonitorMemory A × Option MonitorError :=
  match ofmonitorLookup m c id with
  | none => (m, some .badId)
  | some k => (ofmonitorDestroy c m k, none)

/-! ## Connections -/

/-- `ofmonitor_resume`. -/
def ofmonitorResume (o : Ofproto) (m : MonitorMemory A) (c : MonitorConnId) :
    Option (MonitorMemory A) := do
  let acc ← (m.monitors c).foldlM (collectRefreshRules u o m (m.conn c).monitorPaused)
    RefreshRules.empty
  let changes ← composeRefreshUpdates o m acc
  return m.update c fun conn =>
    let conn := if changes.isEmpty then conn else conn.refresh changes
    { conn with sent := conn.sent ++ [.resumed], monitorPaused := 0 }

/-- `ofmonitor_run`. -/
def ofmonitorRun (o : Ofproto) (m : MonitorMemory A) : Option (MonitorMemory A) :=
  m.allConns.foldlM (fun m c =>
    if (m.conn c).monitorPaused ≠ 0 ∧ (m.conn c).queued = [] then ofmonitorResume u o m c
    else some m) m

/-- The groups that have come from connection `c` are dissociated from it. -/
def dissociate (c : MonitorConnId) (origin : Origin) : Origin :=
  if origin.requester.any fun e => e.1 == c then { origin with requester := none } else origin

/-- `ofconn_flush`, which leaves `monitor_paused` alone. -/
def monitorConnFlush (m : MonitorMemory A) (c : MonitorConnId) : MonitorMemory A :=
  let m := { m with origin := fun g => dissociate c (m.origin g) }
  let m := (m.conn c).monitors.values.foldl (ofmonitorDestroy c) m
  m.update c fun conn => { conn with queued := [], updates := [] }

/-- `ofconn_create`. -/
def monitorConnCreate (m : MonitorMemory A) : MonitorMemory A :=
  let c := m.nextConn
  let m := { m with
    conn := Function.update m.conn c ⟨hmapInit, [], false, [], 0, []⟩
    nextConn := c + 1
    allConns := m.allConns ++ [c] }
  monitorConnFlush m c

/-- `ofconn_destroy`. -/
def monitorConnDestroy (m : MonitorMemory A) (c : MonitorConnId) : MonitorMemory A :=
  let m := monitorConnFlush m c
  { m with allConns := m.allConns.erase c }

/-! ## Calls -/

/-- A call into a bridge with monitors. In `transmit`, `rconn` gets rid of a message that
`monitor_counter` counts; in `count`, other bridges take numbers for themselves. -/
inductive MonitorCall (A : Type) where
  | addFlow (fm : FlowModRequest A) (new : NewRule) (construct : Option Ofperr) (origin : Origin)
  | deleteFlows (rules : List UtAddr) (origin : Origin)
  | modifyFlows (fm : FlowModRequest A) (rules : List UtAddr) (modifiable : List Bool)
      (origin : Origin)
  | flush
  | evict
  | ruleExpire (a : UtAddr) (reason : FlowRemovedReason)
  | completeOperations
  | clog (clogged : Bool)
  | configure (c : Call)
  | request (c : MonitorConnId) (reqs : List (Except Nat MonitorRequest))
  | cancel (c : MonitorConnId) (id : U32)
  | run
  | transmit (c : MonitorConnId)
  | connect
  | disconnect (c : MonitorConnId)
  | destroy (c : MonitorConnId)
  | count (n : Nat)

/-- The state after a call, `none` if the call is undefined. -/
def MonitorCall.perform [DecidableEq A] (s : MonitoredOfproto A) :
    MonitorCall A → Option (MonitoredOfproto A)
  | .addFlow fm new construct origin =>
    (MonitoredOfproto.addFlow u s fm new construct origin).map Prod.fst
  | .deleteFlows rules origin => MonitoredOfproto.deleteFlows u s rules origin
  | .modifyFlows fm rules modifiable origin =>
    (MonitoredOfproto.modifyFlows u s fm rules modifiable origin).map Prod.fst
  | .flush => MonitoredOfproto.ofprotoFlush u s
  | .evict => MonitoredOfproto.ofprotoEvict u s
  | .ruleExpire a reason => MonitoredOfproto.ofprotoRuleExpire u s a reason
  | .completeOperations => MonitoredOfproto.completeOperations u s
  | .clog clogged => some ({ s.1 with clogged := clogged }, s.2)
  | .configure c => (exec s.1.enclave c).map fun e => ({ s.1 with enclave := e }, s.2)
  | .request c reqs => (handleFlowMonitorRequest u s c reqs).map Prod.fst
  | .cancel c id => some (s.1, (handleFlowMonitorCancel s.2 c id).1)
  | .run => do return (s.1, ← ofmonitorRun u s.1 s.2)
  | .transmit c =>
    some (s.1, s.2.update c fun conn => { conn with queued := conn.queued.tail })
  | .connect => some (s.1, monitorConnCreate s.2)
  | .disconnect c => some (s.1, monitorConnFlush s.2 c)
  | .destroy c => some (s.1, monitorConnDestroy s.2 c)
  | .count n => some (s.1, { s.2 with monitorSeqno := s.2.monitorSeqno + n })

/-- A bridge without rules and connections. -/
def monitoredCreate (nTables : Nat) (enclaveRandom random : Nat → BitVec 16) (acts : A)
    (monitorSeqno : Nat) : MonitoredOfproto A :=
  (ofprotoCreate nTables enclaveRandom random,
    { flowCookie := fun _ => 0#64
      ofpacts := fun _ => acts
      addSeqno := fun _ => 0
      modifySeqno := fun _ => 0
      opFlowCookie := fun _ => 0#64
      opOfpacts := fun _ => none
      origin := fun _ => ⟨none, false, .delete⟩
      monitorSeqno := monitorSeqno
      monitor := fun _ => ⟨0#32, MonitorFlags.none, 0#16, 0, minimatchInit matchCatchall⟩
      nextMonitor := 0
      conn := fun _ => ⟨hmapInit, [], false, [], 0, []⟩
      allConns := []
      nextConn := 0 })

/-- The states that calls with property `G` lead to. The first number is 1. -/
inductive MonitoredReachable [DecidableEq A] (G : MonitoredOfproto A → MonitorCall A → Prop) :
    MonitoredOfproto A → Prop where
  | create (nTables : Nat) (enclaveRandom random : Nat → BitVec 16) (acts : A)
      (monitorSeqno : Nat) : 0 < nTables → 0 < monitorSeqno →
      MonitoredReachable G (monitoredCreate nTables enclaveRandom random acts monitorSeqno)
  | step {s s' : MonitoredOfproto A} (c : MonitorCall A) :
      MonitoredReachable G s → G s c → c.perform u s = some s' → MonitoredReachable G s'

end Monitors

end OvsSgx
