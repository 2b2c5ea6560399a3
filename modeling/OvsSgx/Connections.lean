/-
OvsSgx.Connections — the OpenFlow connections of a bridge.

Models the parts of connmgr.c and ofproto.c that take requests from the
controllers: `ofconn_run` with its postponed message, `handle_openflow__`
and the handlers that read or write the flow table or the state of a
connection, the lists `opgroups` and `connmgr_retry`, roles and the master
election, and `ofconn_flush`. The optimized build is the one modelled.

The library that decodes messages (`ofputil_*`) is a parameter. A call that
changes the flow table is that of the modules before; which groups it has
created and completed is read off the bridge before and after it, because
nothing in such a call reads the lists `opgroups`.
-/
import OvsSgx.Lib.Mailbox
import OvsSgx.FlowStats
import OvsSgx.ModifyFlows
import OvsSgx.OfprotoRuns

namespace OvsSgx

/-! ## Messages -/

/-- `enum ofconn_type`. -/
inductive OfconnType where
  | primary
  | service
deriving DecidableEq, Repr

/-- `enum ofp12_controller_role`. -/
inductive ControllerRole where
  | nochange
  | equal
  | master
  | slave
deriving DecidableEq, Repr

/-- The `command` of a flow mod. -/
inductive OfpfcCommand where
  | add
  | change (command : FlowModCommand)
  | unknown (command : Nat)
deriving DecidableEq, Repr

/-- A message, as the library decodes it. The body of a flow mod is an error code if it cannot
be decoded or its actions are wrong; `invalid` is a message without a handler. `other` is one
whose handler writes nothing of what is modelled here, though it may read it: it may refuse slaves,
and then it returns an error or sends some replies. The actions of a packet that is sent out are
left out; with `learn` among them they make flow mods of their own. -/
inductive Request (P A : Type) where
  | flowMod (fm : Except Nat (OfpfcCommand × FlowModRequest A))
  | barrier
  | role (role : ControllerRole) (generationId : Option (BitVec 64))
  | flowModTableId (set : Bool)
  | setFlowFormat (nextBase : Option P)
  | setPacketInFormat (format : U32)
  | flowStats (req : FlowStatsRequest)
  | aggregateStats (req : FlowStatsRequest)
  | invalid (code : Nat)
  | other (rejectsSlaves : Bool) (code : Option Nat) (nReplies : Nat)

/-- What a handler returns. The errors of the library are numbers. -/
inductive HandlerError where
  | ofperr (error : Ofperr)
  | badCommand
  | stale
  | library (code : Nat)
deriving DecidableEq, Repr

/-- `struct ofputil_aggregate_stats`. -/
structure AggregateStats where
  packetCount : BitVec 64
  byteCount : BitVec 64
  flowCount : BitVec 32
deriving DecidableEq, Repr

/-- What is sent on a connection in reply to a request. -/
inductive Reply (A : Type) where
  | barrier
  | role (role : ControllerRole) (generationId : Option (BitVec 64))
  | flowStats (entries : List (FlowStats A))
  | aggregateStats (stats : AggregateStats)
  | error (error : HandlerError)
  | other

/-- What the library does with messages and protocols: how it decodes a message, the protocol
that belongs to the version of the connection, how a reply is cut into messages, and what it finds
in actions. -/
structure Ofputil (Msg P A : Type) where
  decode : P → Msg → Request P A
  fromVersion : P
  setTid : P → Bool → P
  setBase : P → P → P
  multipart : List (FlowStats A) → List (List (FlowStats A))
  outputTo : A → BitVec 16 → Bool

/-! ## Connections -/

/-- A `struct ofconn *`. -/
abbrev ConnId := Nat

/-- `struct ofconn`. The mailbox has `blocked`, `retry` and what `rconn` has received;
`nReplies` is `reply_counter->n_packets`, `sent` all that has been sent so far. -/
structure Ofconn (Msg P A : Type) extends Mailbox Msg where
  type : OfconnType
  role : ControllerRole
  protocol : P
  packetInFormat : U32
  opgroups : List GroupId
  nReplies : Nat
  sent : List (Reply A)

/-- `struct connmgr`. The connections of type `primary` are those in the hmap `controllers`. -/
structure Connmgr (Msg P A : Type) where
  conn : ConnId → Ofconn Msg P A
  allConns : List ConnId
  nextConn : ConnId
  masterElectionId : Option (BitVec 64)

/-- A bridge with its connections. -/
structure Switch (Msg P A : Type) where
  flows : FlowState A
  mgr : Connmgr Msg P A

/-- `OFCONN_REPLY_MAX`. -/
def OFCONN_REPLY_MAX : Nat := 100

/-- `NXPIF_OPENFLOW10`. -/
def NXPIF_OPENFLOW10 : U32 := 0#32

/-- `NXPIF_NXM`. -/
def NXPIF_NXM : U32 := 1#32

section Connmgr

variable {Msg P A : Type} (m : Connmgr Msg P A) (c : ConnId)

/-- Write to one connection. -/
def Connmgr.update (f : Ofconn Msg P A → Ofconn Msg P A) : Connmgr Msg P A :=
  { m with conn := Function.update m.conn c (f (m.conn c)) }

/-- `connmgr_retry`. -/
def connmgrRetry : Connmgr Msg P A :=
  { m with conn := fun c =>
      if c ∈ m.allConns then { m.conn c with retry := true } else m.conn c }

/-- `ofconn_add_opgroup`. -/
def ofconnAddOpgroup (g : GroupId) : Connmgr Msg P A :=
  m.update c fun ofconn => { ofconn with opgroups := ofconn.opgroups ++ [g] }

/-- `ofconn_has_pending_opgroups`. -/
def ofconnHasPendingOpgroups : Bool := !(m.conn c).opgroups.isEmpty

/-- The groups on the lists `opgroups`. -/
def Connmgr.opgroups : List GroupId := m.allConns.flatMap fun c => (m.conn c).opgroups

/-- What `ofopgroup_complete` does about the connection of its group, if it still has one. -/
def ofopgroupLeave (g : GroupId) : Connmgr Msg P A :=
  if g ∈ m.opgroups then
    connmgrRetry { m with conn := fun c =>
      { m.conn c with opgroups := (m.conn c).opgroups.erase g } }
  else m

/-- `ofconn_send_reply`. -/
def ofconnSendReply (reply : Reply A) : Connmgr Msg P A :=
  m.update c fun ofconn =>
    { ofconn with nReplies := ofconn.nReplies + 1, sent := ofconn.sent ++ [reply] }

/-- `ofconn_set_master_election_id`, `none` if the id is stale. -/
def ofconnSetMasterElectionId (id : BitVec 64) : Option (Connmgr Msg P A) :=
  match m.masterElectionId with
  | some cur => if (id - cur).toInt < 0 then none else some { m with masterElectionId := some id }
  | none => some { m with masterElectionId := some id }

/-- The loop of `ofconn_set_role` over the hmap `controllers`. -/
def demoteMasters : Connmgr Msg P A :=
  { m with conn := fun c =>
      if c ∈ m.allConns ∧ (m.conn c).type = .primary ∧ (m.conn c).role = .master then
        { m.conn c with role := .slave }
      else m.conn c }

/-- `ofconn_set_role`. -/
def ofconnSetRole (role : ControllerRole) : Connmgr Msg P A :=
  (if role = .master then demoteMasters m else m).update c fun ofconn =>
    { ofconn with role := role }

/-- `reject_slave_controller`. -/
def rejectSlaveController : Option HandlerError :=
  if (m.conn c).type = .primary ∧ (m.conn c).role = .slave then some (.ofperr .eperm) else none

/-- The groups that a call creates which takes the bridge from `o` to `o'`. -/
def newGroups (o o' : Ofproto) : List GroupId :=
  List.range' o.nextGroup (o'.nextGroup - o.nextGroup)

/-- The groups that a call has created are put on the list of connection `creator`, if the call
is made on behalf of one. -/
def Connmgr.attach (creator : Option ConnId) (groups : List GroupId) : Connmgr Msg P A :=
  match creator with
  | some c => groups.foldl (fun m g => ofconnAddOpgroup m c g) m
  | none => m

/-- The connections after a call on behalf of connection `creator`, or of none. -/
def Connmgr.afterCall (creator : Option ConnId) (o o' : Ofproto) : Connmgr Msg P A :=
  let m := m.attach creator (newGroups o o')
  (m.opgroups.filter fun g => g ∉ o'.pending).foldl ofopgroupLeave m

end Connmgr

/-! ## Handlers -/

/-- What a handler gets from outside: the memory of a new rule, the result of
`rule_construct`, and the clock and the statistics of the provider. -/
structure Surroundings where
  new : NewRule
  construct : Option Ofperr
  times : UtAddr → RuleTimes
  counters : UtAddr → BitVec 64 × BitVec 64
  now : Nat → Int

section Handlers

variable {Msg P A : Type} [DecidableEq P] [DecidableEq A] (u : Ofputil Msg P A)

/-- `add_flow` with the cookie and the actions of the new rule. -/
def addFlowRequest (s : FlowState A) (fm : FlowModRequest A) (env : Surroundings) :
    Option (FlowState A × Option HandlerError) := do
  let (o, error) ← addFlow s.ofproto fm.toFlowMod env.new env.construct
  if error = some .badTableId then return ({ s with ofproto := o }, error.map .ofperr)
  else
    return (⟨o, Function.update s.flowCookie env.new.cr fm.newCookie,
      Function.update s.ofpacts env.new.cr fm.ofpacts⟩, error.map .ofperr)

/-- The flow mods that are put off while many groups are pending. -/
def maxPending : Nat := 50

/-- `modify_flows_loose` or `modify_flow_strict`. -/
def modifyRequest (s : FlowState A) (fm : FlowModRequest A) (strict : Bool) (env : Surroundings) :
    Option (FlowState A × Option HandlerError) := do
  let (s, outcome) ← handleModify u.outputTo s fm strict
  match outcome with
  | .returned error => return (s, error.map .ofperr)
  | .addFlow => addFlowRequest s fm env

/-- `delete_flows_loose` or `delete_flow_strict`. -/
def deleteRequest (s : FlowState A) (fm : FlowModRequest A) (strict : Bool) :
    Option (FlowState A × Option HandlerError) := do
  let handled ← if strict then deleteFlowStrict u.outputTo .optimized s fm
    else deleteFlowsLoose u.outputTo .optimized s fm
  match handled with
  | .returned error => return (s, error.map .ofperr)
  | .deleteFlows rules =>
    let o ← deleteFlows s.ofproto rules
    return ({ s with ofproto := o }, none)
  | _ => none

/-- `handle_flow_mod__`. -/
def handleFlowModOn (s : FlowState A) (command : OfpfcCommand) (fm : FlowModRequest A)
    (env : Surroundings) : Option (FlowState A × Option HandlerError) :=
  if maxPending ≤ s.ofproto.pending.length then some (s, some (.ofperr .postpone))
  else
    match command with
    | .add => addFlowRequest s fm env
    | .change .modify => modifyRequest u s fm false env
    | .change .modifyStrict => modifyRequest u s fm true env
    | .change .delete => deleteRequest u s fm false
    | .change .deleteStrict => deleteRequest u s fm true
    | .unknown _ => some (s, some .badCommand)

/-- `handle_flow_mod`. -/
def handleFlowMod (s : Switch Msg P A) (c : ConnId)
    (fm : Except Nat (OfpfcCommand × FlowModRequest A)) (env : Surroundings) :
    Option (Switch Msg P A × Option HandlerError) :=
  match rejectSlaveController s.mgr c, fm with
  | some error, _ => some (s, some error)
  | none, .error code => some (s, some (.library code))
  | none, .ok (command, fm) => do
    let (flows, error) ← handleFlowModOn u s.flows command fm env
    return (⟨flows, s.mgr.afterCall (some c) s.flows.ofproto flows.ofproto⟩, error)

/-- `handle_barrier_request`. -/
def handleBarrierRequest (m : Connmgr Msg P A) (c : ConnId) :
    Connmgr Msg P A × Option HandlerError :=
  if ofconnHasPendingOpgroups m c then (m, some (.ofperr .postpone))
  else (ofconnSendReply m c .barrier, none)

/-- The end of `handle_role_request`. -/
def sendRoleReply (m : Connmgr Msg P A) (c : ConnId) : Connmgr Msg P A :=
  ofconnSendReply m c (.role (m.conn c).role m.masterElectionId)

/-- `handle_role_request`. -/
def handleRoleRequest (m : Connmgr Msg P A) (c : ConnId) (role : ControllerRole)
    (generationId : Option (BitVec 64)) : Connmgr Msg P A × Option HandlerError :=
  if role = .nochange then (sendRoleReply m c, none)
  else if (m.conn c).role ≠ role ∧ ofconnHasPendingOpgroups m c then
    (m, some (.ofperr .postpone))
  else
    match generationId.elim (some m) (ofconnSetMasterElectionId m) with
    | none => (m, some .stale)
    | some m => (sendRoleReply (ofconnSetRole m c role) c, none)

/-- `handle_nxt_flow_mod_table_id`. -/
def handleFlowModTableId (m : Connmgr Msg P A) (c : ConnId) (set : Bool) : Connmgr Msg P A :=
  m.update c fun ofconn => { ofconn with protocol := u.setTid ofconn.protocol set }

/-- `handle_nxt_set_flow_format`. -/
def handleSetFlowFormat (m : Connmgr Msg P A) (c : ConnId) (nextBase : Option P) :
    Connmgr Msg P A × Option HandlerError :=
  match nextBase with
  | none => (m, some (.ofperr .eperm))
  | some base =>
    let next := u.setBase (m.conn c).protocol base
    if (m.conn c).protocol ≠ next ∧ ofconnHasPendingOpgroups m c then
      (m, some (.ofperr .postpone))
    else (m.update c fun ofconn => { ofconn with protocol := next }, none)

/-- `handle_nxt_set_packet_in_format`. -/
def handleSetPacketInFormat (m : Connmgr Msg P A) (c : ConnId) (format : U32) :
    Connmgr Msg P A × Option HandlerError :=
  if format ≠ NXPIF_OPENFLOW10 ∧ format ≠ NXPIF_NXM then (m, some (.ofperr .eperm))
  else if format ≠ (m.conn c).packetInFormat ∧ ofconnHasPendingOpgroups m c then
    (m, some (.ofperr .postpone))
  else (m.update c fun ofconn => { ofconn with packetInFormat := format }, none)

/-- The loop of `handle_aggregate_stats_request`: the sums, and whether a counter was unknown. -/
def aggregateStep (counters : UtAddr → BitVec 64 × BitVec 64)
    (acc : AggregateStats × Bool × Bool) (a : UtAddr) : AggregateStats × Bool × Bool :=
  let (stats, unknownPackets, unknownBytes) := acc
  let (packets, bytes) := counters a
  ({ packetCount := if packets = BitVec.allOnes 64 then stats.packetCount
      else stats.packetCount + packets
     byteCount := if bytes = BitVec.allOnes 64 then stats.byteCount else stats.byteCount + bytes
     flowCount := stats.flowCount + 1#32 },
    unknownPackets || packets == BitVec.allOnes 64, unknownBytes || bytes == BitVec.allOnes 64)

/-- What `handle_aggregate_stats_request` reports of a list of rules. -/
def aggregateOf (counters : UtAddr → BitVec 64 × BitVec 64) (rules : List UtAddr) :
    AggregateStats :=
  let (stats, unknownPackets, unknownBytes) :=
    rules.foldl (aggregateStep counters) (⟨0#64, 0#64, 0#32⟩, false, false)
  { stats with
    packetCount := if unknownPackets then BitVec.allOnes 64 else stats.packetCount
    byteCount := if unknownBytes then BitVec.allOnes 64 else stats.byteCount }

/-- `handle_aggregate_stats_request`. -/
def handleAggregateStatsRequest (outputTo : A → BitVec 16 → Bool) (s : FlowState A)
    (counters : UtAddr → BitVec 64 × BitVec 64) (req : FlowStatsRequest) :
    Option (Except Ofperr AggregateStats) := do
  let c ← collectRulesLoose outputTo .optimized s req.tableId req.match req.cookie req.cookieMask
    req.outPort
  match c.error with
  | some error => return .error error
  | none => return .ok (aggregateOf counters c.rules)

/-- `ofconn_send_replies`. -/
def ofconnSendReplies (m : Connmgr Msg P A) (c : ConnId) (replies : List (Reply A)) :
    Connmgr Msg P A :=
  replies.foldl (fun m reply => ofconnSendReply m c reply) m

/-- Send the replies of a statistics request, or return its error. -/
def sendStats {R : Type} (m : Connmgr Msg P A) (c : ConnId) (replies : R → List (Reply A)) :
    Except Ofperr R → Connmgr Msg P A × Option HandlerError
  | .error error => (m, some (.ofperr error))
  | .ok r => (ofconnSendReplies m c (replies r), none)

/-- A handler that neither reads the flow table nor writes what is modelled here. -/
def handleOther (m : Connmgr Msg P A) (c : ConnId) (rejectsSlaves : Bool) (code : Option Nat)
    (nReplies : Nat) : Connmgr Msg P A × Option HandlerError :=
  match if rejectsSlaves then rejectSlaveController m c else none, code with
  | some error, _ => (m, some error)
  | none, some code => (m, some (.library code))
  | none, none => (ofconnSendReplies m c (List.replicate nReplies .other), none)

/-- The part of `handle_openflow__` that does not change the flow table. -/
def handleConnRequest (s : Switch Msg P A) (c : ConnId) (env : Surroundings) :
    Request P A → Option (Connmgr Msg P A × Option HandlerError)
  | .flowMod _ => none
  | .barrier => some (handleBarrierRequest s.mgr c)
  | .role role generationId => some (handleRoleRequest s.mgr c role generationId)
  | .flowModTableId set => some (handleFlowModTableId u s.mgr c set, none)
  | .setFlowFormat nextBase => some (handleSetFlowFormat u s.mgr c nextBase)
  | .setPacketInFormat format => some (handleSetPacketInFormat s.mgr c format)
  | .flowStats req => do
    let res ← handleFlowStatsRequest u.outputTo ⟨s.flows, env.times, env.counters⟩ env.now req
    return sendStats s.mgr c
      (fun entries => (u.multipart (entries.map Prod.snd)).map .flowStats) res
  | .aggregateStats req => do
    let res ← handleAggregateStatsRequest u.outputTo s.flows env.counters req
    return sendStats s.mgr c (fun stats => [.aggregateStats stats]) res
  | .invalid code => some (s.mgr, some (.library code))
  | .other rejectsSlaves code nReplies => some (handleOther s.mgr c rejectsSlaves code nReplies)

/-- `handle_openflow__`. -/
def handleRequest (s : Switch Msg P A) (c : ConnId) (env : Surroundings) :
    Request P A → Option (Switch Msg P A × Option HandlerError)
  | .flowMod fm => handleFlowMod u s c fm env
  | req => do
    let (m, error) ← handleConnRequest u s c env req
    return ({ s with mgr := m }, error)

/-- `handle_openflow`: whether the message is done with. -/
def handleOpenflow (s : Switch Msg P A) (c : ConnId) (msg : Msg) (env : Surroundings) :
    Option (Switch Msg P A × Bool) := do
  let (s, error) ← handleRequest u s c env (u.decode (s.mgr.conn c).protocol msg)
  match error with
  | none => return (s, true)
  | some (.ofperr .postpone) => return (s, false)
  | some error => return ({ s with mgr := ofconnSendReply s.mgr c (.error error) }, true)

/-! ## Running a connection -/

/-- `ofconn_may_recv`. -/
def ofconnMayRecv (ofconn : Ofconn Msg P A) : Bool :=
  ofconn.isOpen && decide (ofconn.nReplies < OFCONN_REPLY_MAX)

/-- The message that `ofconn_run` would handle next. -/
def Ofconn.next (ofconn : Ofconn Msg P A) : Option (Msg × Mailbox Msg) :=
  if ofconnMayRecv ofconn then ofconn.take else none

/-- One round of the loop of `ofconn_run` for message `msg`, which has left mailbox `b`:
whether it was handled. -/
def ofconnRound (s : Switch Msg P A) (c : ConnId) (msg : Msg) (b : Mailbox Msg)
    (env : Surroundings) : Option (Switch Msg P A × Bool) := do
  let taken := { s with mgr := s.mgr.update c fun ofconn => { ofconn with toMailbox := b } }
  let (s, done) ← handleOpenflow u taken c msg env
  return ({ s with mgr := s.mgr.update c fun ofconn =>
    { ofconn with toMailbox := ofconn.settle msg done } }, done)

/-- The loop of `ofconn_run`, which goes round at most 50 times. -/
def ofconnLoop (c : ConnId) (env : Nat → Surroundings) :
    Nat → Switch Msg P A → Option (Switch Msg P A)
  | 0, s => some s
  | n + 1, s =>
    match (s.mgr.conn c).next with
    | none => some s
    | some (msg, b) => do
      let (s, _) ← ofconnRound u s c msg b (env n)
      ofconnLoop c env n s

/-- The state of a connection that is new, or newly established. -/
def ofconnInit (type : OfconnType) : Ofconn Msg P A :=
  { toMailbox := Mailbox.empty
    type := type
    role := .equal
    protocol := u.fromVersion
    packetInFormat := NXPIF_OPENFLOW10
    opgroups := []
    nReplies := 0
    sent := [] }

/-- `ofconn_flush`. What `rconn` has received is lost with its connection; `retry` stays as
it is. -/
def ofconnFlush (m : Connmgr Msg P A) (c : ConnId) : Connmgr Msg P A :=
  m.update c fun ofconn => { ofconnInit u ofconn.type with
    toMailbox := { (Mailbox.empty : Mailbox Msg) with retry := ofconn.retry }, sent := ofconn.sent }

/-- `ofconn_create`. -/
def ofconnCreate (m : Connmgr Msg P A) (type : OfconnType) : Connmgr Msg P A :=
  { m with
    conn := Function.update m.conn m.nextConn (ofconnInit u type)
    allConns := m.allConns ++ [m.nextConn]
    nextConn := m.nextConn + 1 }

/-- `ofconn_destroy`. -/
def ofconnDestroy (m : Connmgr Msg P A) (c : ConnId) : Connmgr Msg P A :=
  { ofconnFlush u m c with allConns := m.allConns.erase c }

end Handlers

end OvsSgx
