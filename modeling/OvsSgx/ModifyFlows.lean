/-
OvsSgx.ModifyFlows — requests that modify flows, and read-only tables.

The optimized build learns from the enclave which of the rules it collects
are modifiable. `modify_flows__` reads that array with a counter that runs
over the rules left after the filters. The enclave has written the same value
for every rule, that of the table in the request, so the shift does no harm;
for a request with table id 0xff, however, there is no such table.

`ofpacts_output_to_port` is a parameter, as in `CollectRules`.
-/
import OvsSgx.CollectRules

namespace OvsSgx

/-! ## The requests -/

section Model

variable {A : Type} [DecidableEq A] (outputTo : A → BitVec 16 → Bool)

/-- The cookie that `modify_flows__` gives to a rule that has `old`. -/
def FlowModRequest.cookieFor (fm : FlowModRequest A) (old : BitVec 64) : BitVec 64 :=
  if fm.newCookie ≠ BitVec.allOnes 64 then fm.newCookie else old

/-- The body of the loop of `modify_flows__` for a modifiable rule. The provider's
`rule_modify_actions` completes the operation. -/
def modifyRule (g : GroupId) (fm : FlowModRequest A) (s : FlowState A) (a : UtAddr) :
    Option (FlowState A) := do
  let (o, k) ← ofoperationCreate s.ofproto g a .modify none
  let flowCookie := Function.update s.flowCookie a (fm.cookieFor (s.flowCookie a))
  if fm.ofpacts = s.ofpacts a then
    let o ← ofoperationComplete o k none
    return ⟨o, flowCookie, s.ofpacts⟩
  else
    let o ← completeOperation o a
    return ⟨o, flowCookie, Function.update s.ofpacts a fm.ofpacts⟩

/-- The loop of `modify_flows__`, with its counter `i` and its variable `error`. -/
def modifyLoop (g : GroupId) (fm : FlowModRequest A) (modifiable : List Bool) :
    Nat → List UtAddr → FlowState A → Option Ofperr → Option (FlowState A × Option Ofperr)
  | _, [], s, error => some (s, error)
  | i, a :: rest, s, error => do
    let m ← modifiable[i]?
    if m then
      let s ← modifyRule g fm s a
      modifyLoop g fm modifiable (i + 1) rest s none
    else modifyLoop g fm modifiable (i + 1) rest s error

/-- `modify_flows__`. -/
def modifyFlows (s : FlowState A) (fm : FlowModRequest A) (rules : List UtAddr)
    (modifiable : List Bool) : Option (FlowState A × Option Ofperr) := do
  let (o, g) := ofopgroupCreate s.ofproto
  let (s, error) ← modifyLoop g fm modifiable 0 rules { s with ofproto := o } (some .eperm)
  let o ← ofopgroupSubmit s.ofproto g false
  return ({ s with ofproto := o }, error)

/-- How a request to modify flows ends: it returns, or it is passed on to `add_flow`. -/
inductive ModifyOutcome where
  | returned (error : Option Ofperr)
  | addFlow
deriving DecidableEq, Repr

/-- `modify_flows_loose` or `modify_flow_strict` in the optimized build, to their end. -/
def handleModify (s : FlowState A) (fm : FlowModRequest A) (strict : Bool) :
    Option (FlowState A × ModifyOutcome) := do
  let handled ← if strict then modifyFlowStrict outputTo .optimized s fm
    else modifyFlowsLoose outputTo .optimized s fm
  match handled with
  | .returned error => return (s, .returned error)
  | .addFlow => return (s, .addFlow)
  | .modifyFlows rules modifiable =>
    let (s, error) ← modifyFlows s fm rules modifiable
    return (s, .returned error)
  | .deleteFlows _ => none

end Model

/-- `rule_is_modifiable`. -/
def ruleIsModifiable (o : Ofproto) (a : UtAddr) : Bool :=
  !ecallOftableIsReadonly o.enclave (o.rule a).tableId

end OvsSgx
