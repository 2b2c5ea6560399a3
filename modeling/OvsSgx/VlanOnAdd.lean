/-
OvsSgx.VlanOnAdd — the VLAN bitmap when an addition is completed.

In the optimized build `SGX_add_flow` returns the VID of the new rule and
the mask of the VID, and `add_flow` keeps them in two members of `struct
rule` until `ofopgroup_complete` looks at them. There zero means that nothing
is kept, and then the enclave is asked. But `add_flow` does not write a zero
either, so what the member has then is what `rule_alloc` has found in memory.

Only `add_flow` and `complete_operations` complete additions; the other calls
are those of the bridge. The bitmap has 4096 bits, and a write beyond it ends
what is known of it: `vlan` is `none` from then on.
-/
import OvsSgx.PendingAdditions
import OvsSgx.RuleMatches
import OvsSgx.VlanUsage

namespace OvsSgx

/-! ## What is kept of a rule -/

/-- The members `tmp_storage_vid` and `tmp_storage_vid_mask` of `struct rule`. -/
structure TmpStorage where
  vid : BitVec 16
  vidMask : BitVec 16
deriving DecidableEq, Repr

/-- `add_flow` writes what is not zero. -/
def TmpStorage.store (t : TmpStorage) (vid vidMask : BitVec 16) : TmpStorage :=
  let t := if vid ≠ 0#16 then { t with vid := vid } else t
  if vidMask ≠ 0#16 then { t with vidMask := vidMask } else t

/-- What is kept, unless it is zero, or else what the enclave says. -/
def keptOr (kept : BitVec 16) (asked : Option (BitVec 16)) : Option (BitVec 16) :=
  if kept ≠ 0#16 then some kept else asked

/-- What `ofopgroup_complete` does with the VLANs for an addition without an error: the members of
the rule and those of the bridge, `none` for an access beyond the bitmap. -/
def completeVlan (s : Enclave) (a : UtAddr) (t : TmpStorage) (vlan : VlanState) :
    Option (TmpStorage × VlanState) := do
  let vidMask ← keptOr t.vidMask (ecallMinimaskGetVidMask s a)
  let t := { t with vidMask := 0#16 }
  if vidMask = VLAN_VID_MASK then
    match vlan.vlanBitmap with
    | some b =>
      let vid ← keptOr t.vid (ecallMiniflowGetVid s a)
      let t := { t with vid := 0#16 }
      if ← bitmapIsSet b vid then return (t, vlan)
      else
        let b ← bitmapSet1 b vid
        return (t, ⟨some b, true⟩)
    | none => return (t, { vlan with vlansChanged := true })
  else return (t, vlan)

/-! ## State -/

/-- What the completion of an addition has done: the flow of the rule, what `rule_alloc` had
returned for it, and the members of the bridge before and after. -/
structure VlanUpdate where
  flow : Match
  malloced : TmpStorage
  before : VlanState
  after : Option VlanState

/-- The members of the rules and of the bridge, with the flow that each rule was added for, what
`rule_alloc` returned for it, and the history of `updates`. -/
structure VlanMemory where
  tmpStorage : UtAddr → TmpStorage
  vlan : Option VlanState
  flow : UtAddr → Match
  malloced : UtAddr → TmpStorage
  updates : List VlanUpdate

/-- Memory for a new rule. -/
def VlanMemory.alloc (m : VlanMemory) (a : UtAddr) (malloced : TmpStorage) (flow : Match) :
    VlanMemory :=
  { m with
    tmpStorage := Function.update m.tmpStorage a malloced
    flow := Function.update m.flow a flow
    malloced := Function.update m.malloced a malloced }

/-- `add_flow` keeps the VID and its mask. -/
def VlanMemory.store (m : VlanMemory) (a : UtAddr) (vid vidMask : BitVec 16) : VlanMemory :=
  { m with tmpStorage := Function.update m.tmpStorage a ((m.tmpStorage a).store vid vidMask) }

/-- The completion of an addition to rule `a`, with the enclave `s`. -/
def VlanMemory.complete (m : VlanMemory) (s : Enclave) (a : UtAddr) : VlanMemory :=
  match m.vlan with
  | none => m
  | some vlan =>
    let res := completeVlan s a (m.tmpStorage a) vlan
    { m with
      tmpStorage := Function.update m.tmpStorage a (res.elim (m.tmpStorage a) Prod.fst)
      vlan := res.map Prod.snd
      updates := m.updates ++ [⟨m.flow a, m.malloced a, vlan, res.map Prod.snd⟩] }

/-- What a round of `ofopgroup_complete` does with the VLANs. -/
def vlanOfAddition (o : Ofproto) (k : OpId) (o' : Ofproto) (m : VlanMemory) : Option VlanMemory :=
  let op := o.op k
  if op.type = .add ∧ op.error = none then some (m.complete o'.enclave op.rule) else some m

/-- A bridge with these members. -/
abbrev VlanOfproto := Ofproto × VlanMemory

/-! ## Operations -/

namespace VlanOfproto

/-- `add_flow` from the creation of its operation on. -/
def operateAddFlow (s : VlanOfproto) (cr : UtAddr) (out : AddFlowOut) (construct : Option Ofperr) :
    Option (VlanOfproto × Option Ofperr) := do
  let (o, g) := ofopgroupCreate s.1
  let (o, k) ← ofoperationCreate o g cr .add none
  let o := { o with op := Function.update o.op k { o.op k with victim := out.victim } }
  match construct with
  | some error =>
    let o ← dropOperation o g k
    let (o, error) ← backOut o cr out.victim error
    return ((o, s.2), error)
  | none =>
    let o ← completeOperation o cr
    let o ← deleteEvicted o g out
    let s ← ofopgroupSubmitWith vlanOfAddition (o, s.2) g false
    return (s, none)

/-- `add_flow`, from the outputs of `SGX_add_flow` on. -/
def finishAddFlow (s : VlanOfproto) (cr : UtAddr) (out : AddFlowOut) (construct : Option Ofperr) :
    Option (VlanOfproto × Option Ofperr) :=
  if out.isReadOnly then some ((ruleDealloc s.1 cr, s.2), some .eperm)
  else if out.isDeletionPending then some ((ruleDealloc s.1 cr, s.2), some .postpone)
  else if out.isRuleOverlapping then some ((ruleDealloc s.1 cr, s.2), some .overlap)
  else
    let m := s.2.store cr out.vid out.vidMask
    let o := relinkExpirable s.1 cr out.victim
    match addFlowError o out with
    | some error => do
      let (o, error) ← backOut o cr out.victim error
      return ((o, m), error)
    | none => operateAddFlow (o, m) cr out construct

/-- `add_flow`. -/
def addFlow (s : VlanOfproto) (fm : FlowMod) (new : NewRule) (construct : Option Ofperr)
    (malloced : TmpStorage) : Option (VlanOfproto × Option Ofperr) :=
  if fm.tableId ≠ 0xff ∧ s.1.nTables ≤ fm.tableId then some (s, some .badTableId)
  else do
    let (groupPriority, o) := evictionGroupPriority (allocRule s.1 fm new) 0
    let m := s.2.alloc new.cr malloced fm.match
    let (enclave, out) ← ecallAddFlow o.enclave (addFlowArgs o fm new.cr groupPriority)
    finishAddFlow ({ o with enclave := enclave }, m) new.cr out construct

end VlanOfproto

/-! ## Runs -/

/-- A call into the bridge, with what `rule_alloc` returns if it adds a flow, or a new value of the
members of the bridge, as `ofproto_get_vlan_usage` writes it. -/
inductive VlanCall where
  | call (c : BridgeCall) (malloced : TmpStorage)
  | setVlan (vlan : VlanState)

/-- The state after a call, `none` if the call is undefined. -/
def VlanCall.run (s : VlanOfproto) : VlanCall → Option VlanOfproto
  | .call (.addFlow fm new construct) malloced =>
    (s.addFlow fm new construct malloced).map Prod.fst
  | .call .completeOperations _ => completeOperationsWith vlanOfAddition s
  | .call c _ => (c.run s.1).map (·, s.2)
  | .setVlan vlan => some (s.1, { s.2 with vlan := s.2.vlan.map fun _ => vlan })

/-- What the caller promises, and `malloc`: the memory of a new rule is not that of a rule with an
operation. -/
def VlanCall.Allowed (s : VlanOfproto) : VlanCall → Prop
  | .call c _ => c.Allowed s.1 ∧
      ∀ fm new construct, c = .addFlow fm new construct →
        ∀ k ∈ s.1.waiting, (s.1.op k).rule ≠ new.cr
  | .setVlan _ => True

/-- The states that allowed calls lead to, from a bridge with any memory. -/
inductive VlanReachable : VlanOfproto → Prop where
  | create (nTables : Nat) (enclaveRandom random : Nat → BitVec 16) (m : VlanMemory) :
      0 < nTables → m.updates = [] → VlanReachable (ofprotoCreate nTables enclaveRandom random, m)
  | step {s s' : VlanOfproto} (c : VlanCall) :
      VlanReachable s → c.Allowed s → c.run s = some s' → VlanReachable s'

end OvsSgx
