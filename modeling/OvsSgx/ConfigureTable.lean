/-
OvsSgx.ConfigureTable — `ofproto_configure_table` in two builds.

The build with `SGX` alone configures a table with one ecall per step and
adds its rules to the eviction groups one at a time. The optimized build does
the first steps in one ecall, gets the rules of the table in pages of 32 and
adds those that may expire with one more ecall. `random_v` is what
`random_uint32` returns.

An ecall gets its arguments directly, by the copies that its interface
declares, or by the pointers of a hotcall.
-/
import OvsSgx.CollectRules

namespace OvsSgx

open BufferedRead

/-! ## The bridge -/

/-- The two ways of calling into the enclave. -/
inductive Transport where
  | ecall
  | hotcall
deriving DecidableEq, Repr

/-- `struct ofproto_table_settings`. The name is the memory behind the pointer; `groups` and
`n_groups` are one list. -/
structure TableSettings where
  name : Option (Nat → BitVec 8)
  maxFlows : Nat
  groups : Option (List MfSubfield)

/-- `enum ofproto_state`. -/
inductive OfprotoState where
  | openflow
  | evict
  | flush
deriving DecidableEq, Repr

/-- A bridge with the names of its tables and its state. -/
structure ConfiguredBridge where
  ofproto : Ofproto
  bridgeId : Nat
  name : Nat → Option (List (BitVec 8))
  state : OfprotoState

/-- The table that the bridge keeps in the enclave. -/
def ConfiguredBridge.oftable (b : ConfiguredBridge) (i : Nat) : Oftable :=
  b.ofproto.enclave.oftable i

/-- Write back the enclave. -/
def ConfiguredBridge.setEnclave (b : ConfiguredBridge) (s : Enclave) : ConfiguredBridge :=
  { b with ofproto := { b.ofproto with enclave := s } }

/-! ## The name -/

/-- `OFP_MAX_TABLE_NAME_LEN`. -/
def OFP_MAX_TABLE_NAME_LEN : Nat := 32

/-- The first characters of a name, as many as `strnlen` counts. -/
def nameChars (name : Nat → BitVec 8) : List (BitVec 8) :=
  ((List.range OFP_MAX_TABLE_NAME_LEN).map name).takeWhile (· ≠ 0#8)

/-- `ecall_oftable_set_name`, from the old name of the table. It looks at the character with
the number of the bridge. -/
def ecallOftableSetName (bridgeId : Nat) (old : Option (List (BitVec 8)))
    (name : Option (Nat → BitVec 8)) : Option (List (BitVec 8)) :=
  match name with
  | none => none
  | some name =>
    if name bridgeId = 0#8 then none
    else
      match old with
      | none => some (nameChars name)
      | some old =>
        if old.take (nameChars name).length ≠ nameChars name then some (nameChars name)
        else some old

/-- `SGX_oftable_set_name`. -/
def ConfiguredBridge.setName (b : ConfiguredBridge) (i : Nat) (name : Option (Nat → BitVec 8)) :
    ConfiguredBridge :=
  { b with name := Function.update b.name i (ecallOftableSetName b.bridgeId (b.name i) name) }

/-! ## The eviction decision -/

/-- `ecall_need_to_evict`. -/
def ecallNeedToEvict (s : Enclave) (i : Nat) : Bool :=
  ecallIsEvictionFieldsEnabled s i && decide (ecallOftableMflows s i < ecallOftableClsCount s i)

/-- The `switch` of `ofproto_configure_table`. -/
def ConfiguredBridge.scheduleEviction (b : ConfiguredBridge) (needToEvict : Bool) :
    ConfiguredBridge :=
  if needToEvict then
    match b.state with
    | .openflow => { b with state := .evict }
    | .evict | .flush => b
  else b

/-! ## The optimized build -/

/-- `ecall_oftable_configure`: the bridge, `need_to_evict` and `is_read_only`. -/
def ecallOftableConfigure (b : ConfiguredBridge) (i : Nat) (name : Option (Nat → BitVec 8))
    (maxFlows : Nat) (groups : Option (List MfSubfield)) :
    Option (ConfiguredBridge × Bool × Bool) :=
  let b := b.setName i name
  if ecallOftableIsReadonly b.ofproto.enclave i then some (b, false, true)
  else if groups.isSome then some (b, false, false)
  else do
    let s ← ecallOftableDisableEviction b.ofproto.enclave i
    let s := ecallOftableMflowsSet s i maxFlows
    return (b.setEnclave s, ecallNeedToEvict s i, false)

/-- `ecall_oftable_get_cls_rules`, with the `end_index` -1 that its callers pass. -/
def ecallOftableGetClsRules (s : Enclave) (i startIndex bufSize : Nat) :
    Option (PagedScan.Page UtAddr) :=
  PagedScan.scan (fun r => some (s.oClsRule r)) startIndex bufSize
    (clsCursorRules s.clsRule (s.oftable i).cls none)

/-- `ecall_get_cls_rules_and_enable_eviction`: the state, `no_change`,
`is_eviction_fields_enabled` and the first page. -/
def ecallGetClsRulesAndEnableEviction (s : Enclave) (i bufSize : Nat) (fields : List MfSubfield)
    (randomV : U32) : Option (Enclave × Bool × Bool × PagedScan.Page UtAddr) := do
  let (s, noChange) ← ecallOftableEnableEviction s i fields randomV
  let enabled := ecallIsEvictionFieldsEnabled s i
  if noChange || !enabled then return (s, noChange, enabled, ⟨0, []⟩)
  else
    let p ← ecallOftableGetClsRules s i 0 bufSize
    return (s, noChange, enabled, p)

/-- `ecall_eviction_group_add_rules`. -/
def ecallEvictionGroupAddRules (s : Enclave) (i groupPriority : Nat)
    (entries : List (UtAddr × Nat × HeapNode)) : Option Enclave :=
  entries.foldlM (fun s e => ecallEvgAddRule s i e.1 groupPriority e.2.1 e.2.2) s

/-- The size of the buffer of `oftable_enable_eviction`. -/
def evictionBufferSize : Nat := 32

/-- The rules that `oftable_enable_eviction` has after one page or two. -/
def evictionRules (s : Enclave) (i : Nat) (p : PagedScan.Page UtAddr) : Option (List UtAddr) :=
  if p.count = p.out.length then some p.out
  else do
    let p' ← ecallOftableGetClsRules s i p.out.length (p.count - p.out.length)
    PagedScan.readFirst (p.out ++ p'.out) p'.count

/-- The arrays that `oftable_enable_eviction` passes on: the rules with a timeout. -/
def expiringEntries (o : Ofproto) (rules : List UtAddr) : List (UtAddr × Nat × HeapNode) :=
  (rules.filter fun a => (o.rule a).mayExpire).map fun a =>
    (a, (o.rule a).evictionPriority, (o.rule a).evgNode)

/-- `oftable_enable_eviction`, optimized. -/
def oftableEnableEvictionOptimized (o : Ofproto) (i : Nat) (fields : List MfSubfield)
    (randomV : U32) : Option Ofproto := do
  let (s, noChange, enabled, p) ←
    ecallGetClsRulesAndEnableEviction o.enclave i evictionBufferSize fields randomV
  if noChange || !enabled then return { o with enclave := s }
  else
    let rules ← evictionRules s i p
    let (priority, o) := evictionGroupPriority { o with enclave := s } 0
    let s ← ecallEvictionGroupAddRules o.enclave i priority (expiringEntries o rules)
    return { o with enclave := s }

/-- `ofproto_configure_table`, optimized. -/
def configureTableOptimized (b : ConfiguredBridge) (i : Nat) (st : TableSettings)
    (randomV : U32) : Option ConfiguredBridge :=
  if i < b.ofproto.nTables then do
    let (b, needToEvict, isReadOnly) ← ecallOftableConfigure b i st.name st.maxFlows st.groups
    if isReadOnly then return b
    else
      match st.groups with
      | none => return b.scheduleEviction needToEvict
      | some fields =>
        let o ← oftableEnableEvictionOptimized b.ofproto i fields randomV
        let s := ecallOftableMflowsSet o.enclave i st.maxFlows
        return { b with ofproto := { o with enclave := s } }.scheduleEviction
          (ecallNeedToEvict s i)
  else none

/-! ## The build without `OPTIMIZED` -/

/-- The fields that reach `ecall_oftable_enable_eviction`. They are declared `[in]` without a
size: a direct call copies one of them, and reading another one is reading beyond the copy. -/
def deliverFields (t : Transport) (fields : List MfSubfield) : Option (List MfSubfield) :=
  match t with
  | .hotcall => some fields
  | .ecall => if fields.length ≤ 1 then some fields else none

/-- `oftable_enable_eviction`. -/
def oftableEnableEviction (t : Transport) (o : Ofproto) (i : Nat) (fields : List MfSubfield)
    (randomV : U32) : Option Ofproto := do
  let fields ← deliverFields t fields
  let (s, noChange) ← ecallOftableEnableEviction o.enclave i fields randomV
  let o := { o with enclave := s }
  let n := ecallOftableEnableEvictionC s i
  if noChange || n == 0 then return o
  else
    let buf ← (ecallOftableEnableEvictionR s BUF n i).filled n
    buf.foldlM evictionGroupAddRule o

/-- `oftable_enable_eviction` or `SGX_oftable_disable_eviction`, as the settings say. -/
def configureEviction (t : Transport) (o : Ofproto) (i : Nat) (st : TableSettings)
    (randomV : U32) : Option Ofproto :=
  match st.groups with
  | some fields => oftableEnableEviction t o i fields randomV
  | none => (ecallOftableDisableEviction o.enclave i).map fun s => { o with enclave := s }

/-- `ofproto_configure_table`. -/
def configureTable (t : Transport) (b : ConfiguredBridge) (i : Nat) (st : TableSettings)
    (randomV : U32) : Option ConfiguredBridge :=
  if i < b.ofproto.nTables then
    let b := b.setName i st.name
    if ecallOftableIsReadonly b.ofproto.enclave i then some b
    else do
      let o ← configureEviction t b.ofproto i st randomV
      let s := ecallOftableMflowsSet o.enclave i st.maxFlows
      return { b with ofproto := { o with enclave := s } }.scheduleEviction
        (decide (ecallOftableMflows s i < ecallOftableClsCount s i) &&
          ecallIsEvictionFieldsEnabled s i)
  else none

end OvsSgx
