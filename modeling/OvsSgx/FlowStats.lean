/-
OvsSgx.FlowStats — flow statistics requests in the optimized build.

`ecall_collect_rules_loose_stats_request` writes the rules that match a
request into three parallel arrays: their addresses, matches and priorities.
`collect_rules_loose_stats_request` gets them in two pages and puts the rules
that pass its filters on a list. `handle_flow_stats_request` walks over that
list, and over the arrays of matches and priorities with a counter of its own.

The members of a `struct rule` that only statistics read, the provider's
`rule_get_stats` and the clock are parameters.
-/
import OvsSgx.ClsCursor
import OvsSgx.CollectRules

namespace OvsSgx

/-! ## The ecall -/

/-- What the ecall writes for a rule, one entry of each array. -/
structure StatsRule where
  cr : UtAddr
  «match» : Match
  priority : Nat

/-- The entries for rule `r`. -/
def statsRule (s : Enclave) (r : RuleId) : Option StatsRule := do
  let priority ← ecallCrPriority s (s.oClsRule r)
  let m ← ecallMinimatchExpand s (s.oClsRule r)
  return ⟨s.oClsRule r, m, priority⟩

/-- The body of the loops of `ecall_collect_rules_loose_stats_request`: hidden rules are not
even counted. -/
def statsStep (s : Enclave) (startIndex bufferSize : Nat) (p : PagedScan.Page StatsRule)
    (r : RuleId) : Option (PagedScan.Page StatsRule) := do
  let priority ← ecallCrPriority s (s.oClsRule r)
  if UINT16_MAX < priority then return p
  else PagedScan.step (statsRule s) startIndex bufferSize p r

/-- `FOR_EACH_MATCHING_TABLE` around `CLS_CURSOR_FOR_EACH`. -/
def forEachMatchingRule {σ : Type} (s : Enclave) (nTables i : Nat) (m : Match)
    (body : σ → RuleId → Option σ) (st : σ) : Option σ :=
  (matchingTables s nTables i).foldlM (fun st j =>
    ClsCursor.forEach s.clsRule (s.oftable j).cls (some (clsRuleInit m 0)) body st) st

/-- `ecall_collect_rules_loose_stats_request`: `count` and the first `n` entries of the
arrays. -/
def ecallCollectRulesLooseStatsRequest (s : Enclave) (i nTables startIndex bufferSize : Nat)
    (m : Match) : Option (PagedScan.Page StatsRule) :=
  forEachMatchingRule s nTables i m (statsStep s startIndex bufferSize) ⟨0, []⟩

/-! ## The bridge -/

/-- `struct ofputil_flow_stats_request`. -/
structure FlowStatsRequest where
  tableId : Nat
  «match» : Match
  cookie : BitVec 64
  cookieMask : BitVec 64
  outPort : BitVec 16

/-- The members of a `struct rule` that only the statistics read. -/
structure RuleTimes where
  created : Int
  used : Int
  modified : Int
  sendFlowRemoved : Bool

/-- A bridge, with all that a reply reports of its rules. `counters` is what the provider's
`rule_get_stats` returns. -/
structure StatsState (A : Type) extends FlowState A where
  times : UtAddr → RuleTimes
  counters : UtAddr → BitVec 64 × BitVec 64

/-- `struct ofputil_flow_stats`. -/
structure FlowStats (A : Type) where
  «match» : Match
  priority : Nat
  cookie : BitVec 64
  tableId : Nat
  durationSec : BitVec 32
  durationNsec : BitVec 32
  idleTimeout : Nat
  hardTimeout : Nat
  idleAge : Nat
  hardAge : Nat
  packetCount : BitVec 64
  byteCount : BitVec 64
  ofpacts : A
  sendFlowRem : Bool

/-- The size of the buffers of `collect_rules_loose_stats_request`. -/
def statsBufferSize : Nat := 2

/-- What `collect_rules_loose_stats_request` has in its arrays after one call or two. -/
def statsPages (s : Enclave) (i nTables : Nat) (m : Match) : Option (List StatsRule) := do
  let p ← ecallCollectRulesLooseStatsRequest s i nTables 0 statsBufferSize m
  if p.count = p.out.length then return p.out
  else
    let p' ← ecallCollectRulesLooseStatsRequest s i nTables p.out.length
      (p.count - p.out.length) m
    PagedScan.readFirst (p.out ++ p'.out) p.count

/-- `calc_flow_duration__`. -/
def calcFlowDuration (start now : Int) : BitVec 32 × BitVec 32 :=
  let msecs := now - start
  (BitVec.ofInt 32 (msecs.tdiv 1000), BitVec.ofInt 32 (msecs.tmod 1000 * (1000 * 1000)))

/-- `age_secs`. -/
def ageSecs (ageMs : Int) : Nat :=
  if ageMs < 0 then 0
  else if (UINT16_MAX : Int) * 1000 ≤ ageMs then UINT16_MAX
  else ageMs.toNat / 1000

section Reply

variable {A : Type} (outputTo : A → BitVec 16 → Bool)

/-- The loop of `collect_rules_loose_stats_request`: `error` and the list `rules`. -/
def statsLoop (s : StatsState A) (req : FlowStatsRequest) :
    List UtAddr → List UtAddr → Option Ofperr × List UtAddr
  | [], rules => (none, rules)
  | a :: rest, rules =>
    if (s.ofproto.rule a).pending.isSome then (some .postpone, rules)
    else if ofprotoRuleHasOutPort outputTo s.toFlowState a req.outPort &&
        cookieMatches s.toFlowState a req.cookie req.cookieMask then
      statsLoop s req rest (rules ++ [a])
    else statsLoop s req rest rules

/-- What `handle_flow_stats_request` fills in from rule `a`, at time `now`, with the match and
the priority of one entry of the arrays. -/
def flowStatsOf (s : StatsState A) (now : Int) (a : UtAddr) (m : Match) (priority : Nat) :
    FlowStats A :=
  let t := s.times a
  let duration := calcFlowDuration t.created now
  { «match» := m
    priority := priority
    cookie := s.flowCookie a
    tableId := (s.ofproto.rule a).tableId
    durationSec := duration.1
    durationNsec := duration.2
    idleTimeout := (s.ofproto.rule a).idleTimeout
    hardTimeout := (s.ofproto.rule a).hardTimeout
    idleAge := ageSecs (now - t.used)
    hardAge := ageSecs (now - t.modified)
    packetCount := (s.counters a).1
    byteCount := (s.counters a).2
    ofpacts := s.ofpacts a
    sendFlowRem := t.sendFlowRemoved }

/-- The loop of `handle_flow_stats_request` over the list `rules`, with its counter `i`: each
entry of the reply with the rule it reports on. -/
def replyLoop (s : StatsState A) (now : Nat → Int) (arrays : List StatsRule) :
    Nat → List UtAddr → Option (List (UtAddr × FlowStats A))
  | _, [] => some []
  | i, a :: rest => do
    let e ← arrays[i]?
    let out ← replyLoop s now arrays (i + 1) rest
    return (a, flowStatsOf s (now i) a e.match e.priority) :: out

/-- `handle_flow_stats_request`, optimized: the error that it returns or the reply that it
sends. -/
def handleFlowStatsRequest (s : StatsState A) (now : Nat → Int) (req : FlowStatsRequest) :
    Option (Except Ofperr (List (UtAddr × FlowStats A))) :=
  match checkTableId s.ofproto req.tableId with
  | some error => some (.error error)
  | none => do
    let arrays ← statsPages s.ofproto.enclave req.tableId s.ofproto.nTables req.match
    let (error, rules) := statsLoop outputTo s req (arrays.map StatsRule.cr) []
    match error with
    | some error => return .error error
    | none =>
      let reply ← replyLoop s now arrays 0 rules
      return .ok reply

end Reply

end OvsSgx
