/-
OvsSgx.CollectRules — the requests that modify and delete flows.

`collect_rules_loose` and `collect_rules_strict` look for the rules a
request is about. The three variants of `ofproto.c` differ in how they get
at the candidates: from its own tables, from the enclave with a call that
counts and a call that fills a buffer, or, optimized, in pages with the flags
of each rule. All of them then walk over the candidates in one order and
stop at the first rule with a pending operation. The four handlers return
the error of that walk or go on to `add_flow`, `modify_flows__` or
`delete_flows__`; up to there nothing of the bridge is written.

`ofpacts_output_to_port` is a parameter.
-/
import OvsSgx.Ofproto
import OvsSgx.BufferedReads
import OvsSgx.Lib.PagedScan

namespace OvsSgx

open BufferedRead

/-! ## The optimized ecalls -/

/-- What the optimized ecalls write for a rule. -/
structure CollectedRule where
  cr : UtAddr
  isHidden : Bool
  isModifiable : Bool
deriving DecidableEq, Repr

/-- The entry for rule `r`. The flags of the table are those of the requested table id. -/
def collectedRule (s : Enclave) (i : Nat) (r : RuleId) : Option CollectedRule := do
  let priority ← ecallCrPriority s (s.oClsRule r)
  return ⟨s.oClsRule r, decide (UINT16_MAX < priority), !ecallOftableIsReadonly s i⟩

/-- `ecall_collect_rules_loose`: `count` and the first `n` entries of the buffers. -/
def ecallCollectRulesLoose (s : Enclave) (i nTables startIndex : Nat) (m : Match)
    (bufferSize : Nat) : Option (PagedScan.Page CollectedRule) :=
  PagedScan.scan (collectedRule s i) startIndex bufferSize (looseMatches s nTables i m)

/-- One round of the loop of `ecall_collect_rules_strict`. -/
def collectStrictStep (s : Enclave) (i bufferSize : Nat) (entries : List CollectedRule)
    (r : RuleId) : Option (List CollectedRule) :=
  if entries.length < bufferSize then do
    let e ← collectedRule s i r
    return entries ++ [e]
  else none

/-- `ecall_collect_rules_strict`. -/
def ecallCollectRulesStrict (s : Enclave) (i nTables : Nat) (m : Match) (priority bufferSize : Nat) :
    Option (List CollectedRule) :=
  (strictMatches s nTables i m priority).foldlM (collectStrictStep s i bufferSize) []

/-! ## The bridge -/

/-- `OFPP_ANY`. -/
def OFPP_ANY : BitVec 16 := 0xffff#16

/-- A bridge, with the members of its rules that requests ask for. -/
structure FlowState (A : Type) where
  ofproto : Ofproto
  flowCookie : UtAddr → BitVec 64
  ofpacts : UtAddr → A

/-- `struct ofputil_flow_mod`, with the members that `modify_flows_add` and the collections
use beyond those of `add_flow`. -/
structure FlowModRequest (A : Type) extends FlowMod where
  cookie : BitVec 64
  cookieMask : BitVec 64
  newCookie : BitVec 64
  outPort : BitVec 16
  ofpacts : A

/-- The commands of a flow mod other than the one that adds a flow. -/
inductive FlowModCommand where
  | modify
  | modifyStrict
  | delete
  | deleteStrict
deriving DecidableEq, Repr

def FlowModCommand.isStrict : FlowModCommand → Bool
  | .modify | .delete => false
  | .modifyStrict | .deleteStrict => true

/-- The variants of `ofproto.c`: without `SGX`, with `SGX` and with `OPTIMIZED` as well. -/
inductive Build where
  | plain
  | sgx
  | optimized
deriving DecidableEq, Repr

/-- A candidate as the loops over the candidates see it. `isHidden` is what they get when
they ask for it. -/
structure Candidate where
  cr : UtAddr
  isHidden : Option Bool

/-- What a collection hands to its caller: the error, the list `rules` and the array
`modifiable`, empty where the build has none. -/
structure Collected where
  error : Option Ofperr
  rules : List UtAddr
  modifiable : List Bool
deriving DecidableEq, Repr

/-- `check_table_id`. -/
def checkTableId (o : Ofproto) (i : Nat) : Option Ofperr :=
  if i = 0xff ∨ i < o.nTables then none else some .badTableId

/-- The size of the buffers of `collect_rules_loose`. -/
def looseBufferSize : Nat := 128

/-- What `collect_rules_loose` has in its buffers after its one or two calls of
`SGX_collect_rules_loose`. -/
def loosePages (s : Enclave) (i nTables : Nat) (m : Match) : Option (List CollectedRule) := do
  let p ← ecallCollectRulesLoose s i nTables 0 m looseBufferSize
  if p.count = p.out.length then return p.out
  else
    let p' ← ecallCollectRulesLoose s i nTables p.out.length m (p.count - p.out.length)
    PagedScan.readFirst (p.out ++ p'.out) p.count

/-- The buffer size that `collect_rules_strict` passes. -/
def strictBufferSize (nTables i : Nat) : Nat := if i = 0xff then nTables else 1

/-- The address of the array `buf` that the unoptimized build declares for the addresses: any
other than `NULL`. -/
def BUF : UtAddr := 1#64

section Collect

variable {A : Type} (outputTo : A → BitVec 16 → Bool)

/-- The candidates of a build without flags, and no array. -/
def Ofproto.candidates (o : Ofproto) (crs : List UtAddr) : List Candidate × List Bool :=
  (crs.map fun a => ⟨a, ofprotoRuleIsHidden o a⟩, [])

/-- The candidates from the buffers of the optimized build. -/
def candidatesOf (entries : List CollectedRule) : List Candidate × List Bool :=
  (entries.map fun e => ⟨e.cr, some e.isHidden⟩, entries.map CollectedRule.isModifiable)

/-- The candidates of `collect_rules_loose`. -/
def looseCandidates (b : Build) (o : Ofproto) (i : Nat) (m : Match) :
    Option (List Candidate × List Bool) :=
  match b with
  | .plain => some (o.candidates ((looseMatches o.enclave o.nTables i m).map o.enclave.oClsRule))
  | .sgx => do
    let n := ecallCollectRulesLooseC o.enclave o.nTables i m
    if n = 0 then return ([], [])
    else
      let buf ← (ecallCollectRulesLooseR o.enclave o.nTables BUF n i m).filled n
      return o.candidates buf
  | .optimized => do return candidatesOf (← loosePages o.enclave i o.nTables m)

/-- The candidates of `collect_rules_strict`. -/
def strictCandidates (b : Build) (o : Ofproto) (i : Nat) (m : Match) (priority : Nat) :
    Option (List Candidate × List Bool) :=
  match b with
  | .plain =>
    some (o.candidates ((strictMatches o.enclave o.nTables i m priority).map o.enclave.oClsRule))
  | .sgx => do
    let n := ecallCollectRulesStrictC o.enclave o.nTables i m priority
    if n = 0 then return ([], [])
    else
      let buf ← (ecallCollectRulesStrictR o.enclave o.nTables BUF n i m priority).filled n
      return o.candidates buf
  | .optimized => do
    return candidatesOf (← ecallCollectRulesStrict o.enclave i o.nTables m priority
      (strictBufferSize o.nTables i))

/-- `ofproto_rule_has_out_port`. -/
def ofprotoRuleHasOutPort (s : FlowState A) (a : UtAddr) (port : BitVec 16) : Bool :=
  port == OFPP_ANY || outputTo (s.ofpacts a) port

/-- `!((rule->flow_cookie ^ cookie) & cookie_mask)`. -/
def cookieMatches (s : FlowState A) (a : UtAddr) (cookie cookieMask : BitVec 64) : Bool :=
  (s.flowCookie a ^^^ cookie) &&& cookieMask == 0#64

/-- The loop over the candidates: `error` and the list `rules` when it is left. -/
def collectLoop (s : FlowState A) (cookie cookieMask : BitVec 64) (outPort : BitVec 16) :
    List Candidate → List UtAddr → Option (Option Ofperr × List UtAddr)
  | [], rules => some (none, rules)
  | c :: rest, rules =>
    if (s.ofproto.rule c.cr).pending.isSome then some (some .postpone, rules)
    else do
      let isHidden ← c.isHidden
      if !isHidden && ofprotoRuleHasOutPort outputTo s c.cr outPort &&
          cookieMatches s c.cr cookie cookieMask then
        collectLoop s cookie cookieMask outPort rest (rules ++ [c.cr])
      else collectLoop s cookie cookieMask outPort rest rules

/-- `collect_rules_loose`. -/
def collectRulesLoose (b : Build) (s : FlowState A) (i : Nat) (m : Match)
    (cookie cookieMask : BitVec 64) (outPort : BitVec 16) : Option Collected :=
  match checkTableId s.ofproto i with
  | some error => some ⟨some error, [], []⟩
  | none => do
    let (candidates, modifiable) ← looseCandidates b s.ofproto i m
    let (error, rules) ← collectLoop outputTo s cookie cookieMask outPort candidates []
    return ⟨error, rules, modifiable⟩

/-- `collect_rules_strict`. After the label `exit` it returns 0. -/
def collectRulesStrict (b : Build) (s : FlowState A) (i : Nat) (m : Match) (priority : Nat)
    (cookie cookieMask : BitVec 64) (outPort : BitVec 16) : Option Collected :=
  match checkTableId s.ofproto i with
  | some error => some ⟨some error, [], []⟩
  | none => do
    let (candidates, modifiable) ← strictCandidates b s.ofproto i m priority
    let (_, rules) ← collectLoop outputTo s cookie cookieMask outPort candidates []
    return ⟨none, rules, modifiable⟩

/-! ## The handlers -/

/-- What a handler does with its request: return at once, with an error or with 0, or pass
it on to a function that changes the bridge. -/
inductive Handled where
  | returned (error : Option Ofperr)
  | addFlow
  | modifyFlows (rules : List UtAddr) (modifiable : List Bool)
  | deleteFlows (rules : List UtAddr)
deriving DecidableEq, Repr

/-- `modify_flows_add`. -/
def modifyFlowsAdd (fm : FlowModRequest A) : Handled :=
  if fm.cookieMask ≠ 0#64 ∨ fm.newCookie = BitVec.allOnes 64 then .returned none else .addFlow

/-- `modify_flows_loose`. -/
def modifyFlowsLoose (b : Build) (s : FlowState A) (fm : FlowModRequest A) : Option Handled := do
  let c ← collectRulesLoose outputTo b s fm.tableId fm.match fm.cookie fm.cookieMask OFPP_ANY
  if c.error.isSome then return .returned c.error
  else if c.rules.isEmpty then return modifyFlowsAdd fm
  else return .modifyFlows c.rules c.modifiable

/-- `modify_flow_strict`. -/
def modifyFlowStrict (b : Build) (s : FlowState A) (fm : FlowModRequest A) : Option Handled := do
  let c ← collectRulesStrict outputTo b s fm.tableId fm.match fm.priority fm.cookie fm.cookieMask
    OFPP_ANY
  if c.error.isSome then return .returned c.error
  else if c.rules.isEmpty then return modifyFlowsAdd fm
  else if c.rules.length = 1 then return .modifyFlows c.rules c.modifiable
  else return .returned none

/-- `delete_flows_loose`. -/
def deleteFlowsLoose (b : Build) (s : FlowState A) (fm : FlowModRequest A) : Option Handled := do
  let c ← collectRulesLoose outputTo b s fm.tableId fm.match fm.cookie fm.cookieMask fm.outPort
  if c.error.isSome then return .returned c.error
  else if !c.rules.isEmpty then return .deleteFlows c.rules
  else return .returned none

/-- `delete_flow_strict`. -/
def deleteFlowStrict (b : Build) (s : FlowState A) (fm : FlowModRequest A) : Option Handled := do
  let c ← collectRulesStrict outputTo b s fm.tableId fm.match fm.priority fm.cookie fm.cookieMask
    fm.outPort
  if c.error.isSome then return .returned c.error
  else if c.rules.length = 1 then return .deleteFlows c.rules
  else return .returned none

/-- The handler that `handle_flow_mod__` calls for a command. -/
def flowModHandler (b : Build) (s : FlowState A) (fm : FlowModRequest A) :
    FlowModCommand → Option Handled
  | .modify => modifyFlowsLoose outputTo b s fm
  | .modifyStrict => modifyFlowStrict outputTo b s fm
  | .delete => deleteFlowsLoose outputTo b s fm
  | .deleteStrict => deleteFlowStrict outputTo b s fm

end Collect

end OvsSgx
