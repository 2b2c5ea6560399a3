/-
OvsSgx.Enclave — the state of one bridge in the enclave and its ecalls.

Models trusted/cls_rule/cls-rule.c, trusted/oftable/oftable.c,
trusted/eviction/eviction.c and trusted/ofproto/ofproto.c. A rule of the
untrusted side is named by its 64-bit address; the enclave keeps a shadow
(`struct sgx_cls_rule`) of it in the hmap `SGX_hmap_table`. Shadows and
eviction groups are handles; the members of the shadows are stores indexed
by handle, so `evictGroup r` is `rule->evict_group`.

An ecall that would dereference a null pointer, unlink a node that is not
linked or write beyond a buffer returns `none`.
-/
import OvsSgx.Classifier
import OvsSgx.MetaFlow
import OvsSgx.Heap

namespace OvsSgx

/-- A `struct cls_rule *` of the untrusted side. -/
abbrev UtAddr := BitVec 64

/-- A `struct eviction_group *`. -/
abbrev EvgId := Nat

/-- `enum oftable_flags`. -/
structure OftableFlags where
  hidden : Bool
  readonly : Bool
deriving DecidableEq, Repr

/-- `struct oftable`. `eviction_fields` and `n_eviction_fields` are one list, `none`
for a null pointer. -/
structure Oftable where
  flags : OftableFlags
  cls : Classifier
  maxFlows : Nat
  evictionFields : Option (List MfSubfield)
  evictionGroupIdBasis : U32
  evictionGroupsById : Hmap EvgId
  evictionGroupsBySize : Heap

/-- Everything the enclave keeps for one bridge: `SGX_n_tables`, `SGX_oftables`,
`SGX_hmap_table`, the shadows, the eviction groups, the allocators and the
random numbers still to come. -/
structure Enclave where
  nTables : Nat
  oftable : Nat → Oftable
  clsRules : Hmap RuleId
  clsRule : RuleStore
  oClsRule : RuleId → UtAddr
  ruleEvgNode : RuleId → HeapNode
  evictGroup : RuleId → Option EvgId
  evictable : RuleId → Bool
  nextRule : RuleId
  evgId : EvgId → U32
  sizeNode : EvgId → HeapNode
  evgRules : EvgId → Heap
  nextEvg : EvgId
  random : Nat → BitVec 16
  nRandom : Nat

/-- Write back table `i`. -/
def Enclave.setOftable (s : Enclave) (i : Nat) (tbl : Oftable) : Enclave :=
  { s with oftable := Function.update s.oftable i tbl }

def UINT16_MAX : Nat := 65535
def UINT_MAX : Nat := 2 ^ 32 - 1

/-- `oftable_init`. -/
def oftableInit : Oftable :=
  { flags := ⟨false, false⟩
    cls := classifierInit
    maxFlows := UINT_MAX
    evictionFields := none
    evictionGroupIdBasis := 0#32
    evictionGroupsById := hmapInit
    evictionGroupsBySize := heapInitOvs }

/-- `ecall_ofproto_init_tables`: a new bridge, with `random` the numbers that
`sgx_read_rand` will give. -/
def ecallOfprotoInitTables (nTables : Nat) (random : Nat → BitVec 16) : Enclave :=
  { nTables := nTables
    oftable := fun _ => oftableInit
    clsRules := hmapInit
    clsRule := fun _ => clsRuleInit ⟨fun _ => 0#32, ⟨fun _ => 0#32⟩⟩ 0
    oClsRule := fun _ => 0#64
    ruleEvgNode := fun _ => ⟨0, 0⟩
    evictGroup := fun _ => none
    evictable := fun _ => false
    nextRule := 0
    evgId := fun _ => 0#32
    sizeNode := fun _ => ⟨0, 0⟩
    evgRules := fun _ => heapInitOvs
    nextEvg := 0
    random := random
    nRandom := 0 }

/-! ## Shadows -/

/-- `(uint32_t)(uintptr_t) out`, the key of an address in `SGX_hmap_table`. -/
def addrHash (a : UtAddr) : Nat := (a.setWidth 32).toNat

/-- `sgx_rule_from_ut_cr`. -/
def sgxRuleFromUtCr (s : Enclave) (a : UtAddr) : Option RuleId :=
  (s.clsRules.withHash (addrHash a)).head?

/-- `node_insert`: a zeroed shadow, linked under `hash`. -/
def nodeInsert (s : Enclave) (hash : Nat) : Enclave × RuleId :=
  ({ s with
      clsRules := hmapInsert s.clsRules s.nextRule hash
      clsRule := Function.update s.clsRule s.nextRule
        (clsRuleInit ⟨fun _ => 0#32, ⟨fun _ => 0#32⟩⟩ 0)
      oClsRule := Function.update s.oClsRule s.nextRule 0#64
      ruleEvgNode := Function.update s.ruleEvgNode s.nextRule ⟨0, 0⟩
      evictGroup := Function.update s.evictGroup s.nextRule none
      evictable := Function.update s.evictable s.nextRule false
      nextRule := s.nextRule + 1 }, s.nextRule)

/-- `ecall_cls_rule_init`. -/
def ecallClsRuleInit (s : Enclave) (a : UtAddr) (m : Match) (priority : Nat) : Enclave :=
  let (s, r) := nodeInsert s (addrHash a)
  { s with
      oClsRule := Function.update s.oClsRule r a
      clsRule := Function.update s.clsRule r (clsRuleInit m priority)
      evictable := Function.update s.evictable r true }

/-- `node_delete`. -/
def nodeDelete (s : Enclave) (a : UtAddr) : Option Enclave := do
  let r ← sgxRuleFromUtCr s a
  return { s with clsRules := hmapRemove s.clsRules r (addrHash a) }

/-- `ecall_cls_rule_destroy`. -/
def ecallClsRuleDestroy (s : Enclave) (a : UtAddr) : Option Enclave := do
  let r ← sgxRuleFromUtCr s a
  nodeDelete s (s.oClsRule r)

/-- `ecall_cls_rule_hash`. -/
def ecallClsRuleHash (s : Enclave) (a : UtAddr) (basis : Nat) : Option U32 := do
  let r ← sgxRuleFromUtCr s a
  return clsRuleHash (s.clsRule r) (BitVec.ofNat 32 basis)

/-- `ecall_cls_rule_equal`. -/
def ecallClsRuleEqual (s : Enclave) (a b : UtAddr) : Option Bool := do
  let r ← sgxRuleFromUtCr s a
  let q ← sgxRuleFromUtCr s b
  return clsRuleEqual (s.clsRule r) (s.clsRule q)

/-- `ecall_cr_rule_overlaps`. -/
def ecallCrRuleOverlaps (s : Enclave) (i : Nat) (a : UtAddr) : Option Bool := do
  let r ← sgxRuleFromUtCr s a
  return classifierRuleOverlaps s.clsRule (s.oftable i).cls (s.clsRule r)

/-- `ecall_cr_priority`. -/
def ecallCrPriority (s : Enclave) (a : UtAddr) : Option Nat := do
  let r ← sgxRuleFromUtCr s a
  return (s.clsRule r).priority

/-- `ecall_minimatch_expand`. -/
def ecallMinimatchExpand (s : Enclave) (a : UtAddr) : Option Match := do
  let r ← sgxRuleFromUtCr s a
  return minimatchExpand (s.clsRule r).match

/-- `ecall_miniflow_get_vid`. -/
def ecallMiniflowGetVid (s : Enclave) (a : UtAddr) : Option (BitVec 16) := do
  let r ← sgxRuleFromUtCr s a
  return miniflowGetVid (s.clsRule r).match.flow

/-- `ecall_minimask_get_vid_mask`. -/
def ecallMinimaskGetVidMask (s : Enclave) (a : UtAddr) : Option (BitVec 16) := do
  let r ← sgxRuleFromUtCr s a
  return minimaskGetVidMask (s.clsRule r).match.mask

/-! ## Classifier ecalls -/

/-- `ecall_cls_remove`. -/
def ecallClsRemove (s : Enclave) (i : Nat) (a : UtAddr) : Option Enclave := do
  let r ← sgxRuleFromUtCr s a
  let cls ← classifierRemove s.clsRule (s.oftable i).cls r
  return s.setOftable i { s.oftable i with cls := cls }

/-- `ecall_oftable_classifier_replace`: the new state and the displaced rule's
address. -/
def ecallOftableClassifierReplace (s : Enclave) (i : Nat) (a : UtAddr) :
    Option (Enclave × Option UtAddr) := do
  let r ← sgxRuleFromUtCr s a
  let (cls, store, old) := classifierReplace s.clsRule (s.oftable i).cls r
  return ({ s.setOftable i { s.oftable i with cls := cls } with clsRule := store },
    old.map s.oClsRule)

/-- `ecall_oftable_cls_lookup`. -/
def ecallOftableClsLookup (s : Enclave) (i : Nat) (flow : Flow) (wc : Option FlowWildcards) :
    Option UtAddr × Option FlowWildcards :=
  let (rule, wc) := classifierLookup s.clsRule (s.oftable i).cls flow wc
  (rule.map s.oClsRule, wc)

/-- `ecall_oftable_cls_count`. -/
def ecallOftableClsCount (s : Enclave) (i : Nat) : Nat := classifierCount (s.oftable i).cls

/-- `ecall_oftable_mflows`. -/
def ecallOftableMflows (s : Enclave) (i : Nat) : Nat := (s.oftable i).maxFlows

/-- `ecall_oftable_mflows_set`. -/
def ecallOftableMflowsSet (s : Enclave) (i value : Nat) : Enclave :=
  s.setOftable i { s.oftable i with maxFlows := value }

/-- `ecall_oftable_set_readonly`. -/
def ecallOftableSetReadonly (s : Enclave) (i : Nat) : Enclave :=
  s.setOftable i { s.oftable i with flags := ⟨true, true⟩ }

/-- `ecall_oftable_is_readonly`. -/
def ecallOftableIsReadonly (s : Enclave) (i : Nat) : Bool := (s.oftable i).flags.readonly

/-! ## Eviction groups -/

/-- `ecall_is_eviction_fields_enabled`. -/
def ecallIsEvictionFieldsEnabled (s : Enclave) (i : Nat) : Bool :=
  (s.oftable i).evictionFields.isSome

/-- The contribution of one subfield in `eviction_group_hash_rule`. -/
def hashSubfield (flow : Flow) (hash : U32) (sf : MfSubfield) : U32 :=
  if mfArePrereqsOk sf.field flow then
    let value := mfGetValue sf.field flow
    let value := if sf.ofs = 0 then value else bitwiseZero value sf.field.nBytes 0 sf.ofs
    let start := sf.ofs + sf.nBits
    let value := if start < sf.field.nBytes * 8
      then bitwiseZero value sf.field.nBytes start (sf.field.nBytes * 8 - start) else value
    hashBytes (value.take sf.field.nBytes) hash
  else hashInt hash 0#32

/-- `eviction_group_hash_rule`. -/
def evictionGroupHashRule (tbl : Oftable) (rule : ClsRule) : U32 :=
  (tbl.evictionFields.getD []).foldl (hashSubfield (miniflowExpand rule.match.flow))
    tbl.evictionGroupIdBasis

/-- `random_uint16`. -/
def randomUint16 (s : Enclave) : BitVec 16 × Enclave :=
  (s.random s.nRandom, { s with nRandom := s.nRandom + 1 })

/-- `(MIN (UINT16_MAX, n_rules) << 16) | random_uint16 ()`, in `size_t`. -/
def addPriority (nRules : Nat) (r : BitVec 16) : Nat :=
  (min UINT16_MAX nRules <<< 16) ||| r.toNat

/-- The same from a `uint16_t`: `size << 16` is an `int`, the result is widened to
`size_t` and cut to 32 bits by `heap_change_ovs`. -/
def removePriority (nRules : Nat) (r : BitVec 16) : Nat :=
  let size : BitVec 16 := BitVec.ofNat 16 (min UINT16_MAX nRules)
  let p : BitVec 32 := (size.setWidth 32 <<< 16) ||| r.setWidth 32
  ((p.signExtend 64).setWidth 32).toNat

/-- `sgx_evg_group_resize`. -/
def sgxEvgGroupResize (s : Enclave) (i : Nat) (priority : Nat) (g : EvgId) : Option Enclave := do
  let (heap, nodes) ← heapChangeOvs (s.oftable i).evictionGroupsBySize s.sizeNode g priority
  return { s.setOftable i { s.oftable i with evictionGroupsBySize := heap } with sizeNode := nodes }

/-- `sgx_evg_find`. -/
def sgxEvgFind (s : Enclave) (i : Nat) (id : U32) (priority : Nat) : Enclave × EvgId :=
  match ((s.oftable i).evictionGroupsById.withHash id.toNat).head? with
  | some g => (s, g)
  | none =>
    let g := s.nextEvg
    let (heap, nodes) := heapInsertOvs (s.oftable i).evictionGroupsBySize s.sizeNode g priority
    ({ s.setOftable i { s.oftable i with
          evictionGroupsById := hmapInsert (s.oftable i).evictionGroupsById g id.toNat
          evictionGroupsBySize := heap } with
        evgId := Function.update s.evgId g id
        sizeNode := nodes
        evgRules := Function.update s.evgRules g heapInitOvs
        nextEvg := g + 1 }, g)

/-- Put rule `r` on the heap of group `g` and point it there. -/
def evgInsertRule (s : Enclave) (g : EvgId) (r : RuleId) (node : HeapNode) (rulePriority : Nat) :
    Enclave :=
  let (heap, nodes) := heapInsertOvs (s.evgRules g)
    (Function.update s.ruleEvgNode r node) r rulePriority
  { s with
      evictGroup := Function.update s.evictGroup r (some g)
      ruleEvgNode := nodes
      evgRules := Function.update s.evgRules g heap }

/-- Take rule `r` off the heap of group `g` and clear its pointer. -/
def evgUnlinkRule (s : Enclave) (g : EvgId) (r : RuleId) : Option Enclave := do
  let (heap, nodes) ← heapRemoveOvs (s.evgRules g) s.ruleEvgNode r
  return { s with
    evictGroup := Function.update s.evictGroup r none
    ruleEvgNode := nodes
    evgRules := Function.update s.evgRules g heap }

/-- `ecall_evg_add_rule`. Without eviction fields the table's hmap and heap are
not set up. -/
def ecallEvgAddRule (s : Enclave) (i : Nat) (a : UtAddr) (priority rulePriority : Nat)
    (node : HeapNode) : Option Enclave := do
  let r ← sgxRuleFromUtCr s a
  if !ecallIsEvictionFieldsEnabled s i then none
  else
    let (s, g) := sgxEvgFind s i (evictionGroupHashRule (s.oftable i) (s.clsRule r)) priority
    let s := evgInsertRule s g r node rulePriority
    let (rnd, s) := randomUint16 s
    sgxEvgGroupResize s i (addPriority (heapCountOvs (s.evgRules g)) rnd) g

/-- The loop of `sgx_evg_destroy`: pop every rule and clear its group. -/
def popAll : Nat → (Nat → Nat) → (RuleId → Option EvgId) → RuleId → Option EvgId
  | 0, _, groups => groups
  | n + 1, array, groups => popAll n array (Function.update groups (array (n + 1)) none)

/-- `sgx_evg_destroy`. -/
def sgxEvgDestroy (s : Enclave) (i : Nat) (g : EvgId) : Option Enclave := do
  let s := { s with
    evictGroup := popAll (s.evgRules g).n (s.evgRules g).array s.evictGroup
    evgRules := Function.update s.evgRules g { s.evgRules g with n := 0 } }
  if ((s.evgId g).toNat, g) ∈ (s.oftable i).evictionGroupsById.entries then
    let (heap, nodes) ← heapRemoveOvs (s.oftable i).evictionGroupsBySize s.sizeNode g
    return { s.setOftable i { s.oftable i with
        evictionGroupsById := hmapRemove (s.oftable i).evictionGroupsById g (s.evgId g).toNat
        evictionGroupsBySize := heap } with sizeNode := nodes }
  else none

/-- `ecall_evg_remove_rule`. -/
def ecallEvgRemoveRule (s : Enclave) (i : Nat) (a : UtAddr) : Option Enclave := do
  let r ← sgxRuleFromUtCr s a
  match s.evictGroup r with
  | none => return s
  | some g =>
    let s ← evgUnlinkRule s g r
    if heapCountOvs (s.evgRules g) = 0 then sgxEvgDestroy s i g
    else
      let (rnd, s) := randomUint16 s
      sgxEvgGroupResize s i (removePriority (heapCountOvs (s.evgRules g)) rnd) g

/-- `ecall_choose_rule_to_evict`. -/
def ecallChooseRuleToEvict (s : Enclave) (i : Nat) : Option UtAddr :=
  if !ecallIsEvictionFieldsEnabled s i then none
  else
    ((heapForEach (s.oftable i).evictionGroupsBySize s.sizeNode).findSome? fun g =>
      (heapForEach (s.evgRules g) s.ruleEvgNode).find? fun r => s.evictable r).map s.oClsRule

/-- `ecall_choose_rule_to_evict_p`: `replacer` is not evictable during the choice. -/
def ecallChooseRuleToEvictP (s : Enclave) (i : Nat) (replacer : UtAddr) :
    Option (Option UtAddr) := do
  let r ← sgxRuleFromUtCr s replacer
  return ecallChooseRuleToEvict { s with evictable := Function.update s.evictable r false } i

/-- `ecall_oftable_disable_eviction`. -/
def ecallOftableDisableEviction (s : Enclave) (i : Nat) : Option Enclave :=
  if !ecallIsEvictionFieldsEnabled s i then some s
  else do
    let s ← (s.oftable i).evictionGroupsById.values.foldlM (fun s g => sgxEvgDestroy s i g) s
    return s.setOftable i { s.oftable i with evictionFields := none }

/-- `ecall_oftable_enable_eviction`; the flag is `no_change`. -/
def ecallOftableEnableEviction (s : Enclave) (i : Nat) (fields : List MfSubfield) (randomV : U32) :
    Option (Enclave × Bool) :=
  if (s.oftable i).evictionFields = some fields then some (s, true)
  else do
    let s ← ecallOftableDisableEviction s i
    return (s.setOftable i { s.oftable i with
      evictionFields := some fields
      evictionGroupIdBasis := randomV
      evictionGroupsById := hmapInit
      evictionGroupsBySize := heapInitOvs }, false)

/-! ## Optimized ecalls -/

/-- One round of `ecall_oftable_remove_rules`. -/
def removeRule (s : Enclave) (i : Nat) (a : UtAddr) : Option (Enclave × Bool) := do
  let priority ← ecallCrPriority s a
  let s ← ecallClsRemove s i a
  let s ← ecallEvgRemoveRule s i a
  let s ← ecallClsRuleDestroy s a
  return (s, decide (UINT16_MAX < priority))

/-- `ecall_oftable_remove_rules`: the table ids and rules in, `is_hidden` out. -/
def ecallOftableRemoveRules : Enclave → List (Nat × UtAddr) → Option (Enclave × List Bool)
  | s, [] => some (s, [])
  | s, (i, a) :: rest => do
    let (s, hidden) ← removeRule s i a
    let (s, out) ← ecallOftableRemoveRules s rest
    return (s, hidden :: out)

/-- What `ecall_delete_flows` reports of a rule. -/
structure DeletedFlow where
  isHidden : Bool
  hash : U32
  priority : Nat
  «match» : Match

/-- One round of `ecall_delete_flows`. -/
def deleteFlow (s : Enclave) (i : Nat) (a : UtAddr) : Option (Enclave × DeletedFlow) := do
  let r ← sgxRuleFromUtCr s a
  let o := s.oClsRule r
  let priority ← ecallCrPriority s o
  let m ← ecallMinimatchExpand s o
  let hash ← ecallClsRuleHash s o i
  let s ← ecallClsRemove s i o
  let s ← ecallEvgRemoveRule s i o
  return (s, ⟨decide (UINT16_MAX < priority), hash, priority, m⟩)

/-- `ecall_delete_flows`. -/
def ecallDeleteFlows : Enclave → List (Nat × UtAddr) → Option (Enclave × List DeletedFlow)
  | s, [] => some (s, [])
  | s, (i, a) :: rest => do
    let (s, d) ← deleteFlow s i a
    let (s, out) ← ecallDeleteFlows s rest
    return (s, d :: out)

/-- What `ecall_ofproto_flush` has done so far: the state, the entries of
`cls_rules` and `hashes`, and `count`. -/
structure Flushed where
  state : Enclave
  out : List (UtAddr × U32)
  count : Nat

/-- The body of the cursor loop of `ecall_ofproto_flush`. -/
def flushRule (i bufSize : Nat) (f : Flushed) (r : RuleId) : Option Flushed :=
  if bufSize ≤ f.out.length then some { f with count := f.count + 1 }
  else do
    let a := f.state.oClsRule r
    let hash ← ecallClsRuleHash f.state a i
    let s ← ecallClsRemove f.state i a
    let s ← ecallEvgRemoveRule s i a
    return ⟨s, f.out ++ [(a, hash)], f.count + 1⟩

/-- `CLS_CURSOR_FOR_EACH_SAFE` in `ecall_ofproto_flush`: the next rule is fetched
before the body removes the current one. -/
def flushLoop (i bufSize : Nat) : Nat → Flushed → Option RuleId → Option Flushed
  | _, f, none => some f
  | 0, _, some _ => none
  | fuel + 1, f, some r => do
    let next := clsCursorNext f.state.clsRule (f.state.oftable i).cls none r
    let f ← flushRule i bufSize f r
    flushLoop i bufSize fuel f next

/-- One table of `ecall_ofproto_flush`. -/
def flushTable (bufSize : Nat) (f : Flushed) (i : Nat) : Option Flushed :=
  if (f.state.oftable i).flags.hidden then some f
  else
    let cls := (f.state.oftable i).cls
    flushLoop i bufSize (clsCursorRules f.state.clsRule cls none).length f
      (clsCursorFirst f.state.clsRule cls none)

/-- `ecall_ofproto_flush`: the new state, the entries written, and `*n_rules`. -/
def ecallOfprotoFlush (s : Enclave) (bufSize : Nat) : Option Flushed :=
  (List.range s.nTables).foldlM (flushTable bufSize) ⟨s, [], 0⟩

/-- A C `int` that holds the bits of `n`. -/
def intOf (n : Nat) : Int := (BitVec.ofNat 32 n).toInt

/-- One rule selected by `ecall_ofproto_evict`: `table_ids[n]`, the rule, its entry of
`rule_hashes`, `group_prios[n]` and `rule_prios[n]`. -/
structure EvictEntry where
  tableId : Nat
  rule : UtAddr
  hash : U32
  groupPrio : Nat
  rulePrio : Nat

/-- The `while (count > max_flows)` loop of `ecall_ofproto_evict`; `fuel` is
`count - max_flows` and `capacity` the size of the work arrays. -/
def evictLoop (i capacity : Nat) : Nat → Enclave → List EvictEntry →
    Option (Enclave × List EvictEntry)
  | 0, s, out => some (s, out)
  | fuel + 1, s, out =>
    match ecallChooseRuleToEvict s i with
    | none => some (s, out)
    | some tmp => do
      if capacity ≤ out.length then none
      else
        let hash ← ecallClsRuleHash s tmp i
        let r ← sgxRuleFromUtCr s tmp
        let g ← s.evictGroup r
        let e := ⟨i, tmp, hash, (s.sizeNode g).priority, (s.ruleEvgNode r).priority⟩
        let s ← ecallEvgRemoveRule s i tmp
        evictLoop i capacity fuel s (out ++ [e])

/-- One table of the first loop of `ecall_ofproto_evict`. -/
def evictTable (capacity : Nat) (so : Enclave × List EvictEntry) (i : Nat) :
    Option (Enclave × List EvictEntry) :=
  if !ecallIsEvictionFieldsEnabled so.1 i then some so
  else
    evictLoop i capacity
      (intOf (ecallOftableClsCount so.1 i) - intOf (ecallOftableMflows so.1 i)).toNat so.1 so.2

/-- What table `i` adds to `total_nr_evictions`. -/
def evictionsOf (s : Enclave) (i : Nat) : Nat :=
  if ecallIsEvictionFieldsEnabled s i then
    let count := intOf (ecallOftableClsCount s i)
    let maxFlows := intOf (ecallOftableMflows s i)
    if maxFlows < count then ((BitVec.ofInt 32 (count - maxFlows)).signExtend 64).toNat else 0
  else 0

/-- The second loop of `ecall_ofproto_evict` puts a rule back into its group. -/
def reinsertRule (s : Enclave) (e : EvictEntry) : Option Enclave := do
  let r ← sgxRuleFromUtCr s e.rule
  ecallEvgAddRule s e.tableId e.rule e.groupPrio e.rulePrio (s.ruleEvgNode r)

/-- What `ecall_ofproto_evict` returns: the state, the entries that it wrote to
`cls_rules` and `rule_hashes`, its result and `*n_evictions`. -/
structure EvictResult where
  state : Enclave
  entries : List (UtAddr × U32)
  result : Nat
  nEvictions : Nat

/-- `ecall_ofproto_evict`. -/
def ecallOfprotoEvict (s : Enclave) (ofprotoNTables startIndex bufSize : Nat) :
    Option EvictResult := do
  let (s', out) ← (List.range ofprotoNTables).foldlM (evictTable (startIndex + bufSize)) (s, [])
  let s'' ← out.foldlM reinsertRule s'
  return ⟨s'', (out.drop startIndex).map fun e => (e.rule, e.hash),
    (out.length + 2 ^ 64 - startIndex) % 2 ^ 64,
    ((List.range ofprotoNTables).map (evictionsOf s)).sum % 2 ^ 64⟩

/-- The arguments of `ecall_add_flow`. -/
structure AddFlowArgs where
  tableId : Nat
  cr : UtAddr
  «match» : Match
  priority : Nat
  checkOverlap : Bool
  evictionGroupPriority : Nat
  evictionRulePriority : Nat
  evictionNode : HeapNode
  pendingDeletions : List UtAddr
  hasTimeout : Bool

/-- The outputs of `ecall_add_flow`. -/
structure AddFlowOut where
  victim : Option UtAddr
  evict : Option UtAddr
  evictRuleHash : U32
  vid : BitVec 16
  vidMask : BitVec 16
  tableOverflow : Bool
  isRuleModifiable : Bool
  isDeletionPending : Bool
  isRuleOverlapping : Bool
  isReadOnly : Bool

/-- The outputs as the caller initialises them. -/
def AddFlowOut.init : AddFlowOut :=
  ⟨none, none, 0#32, 0#16, 0#16, false, true, false, false, false⟩

/-- The loop of `ecall_add_flow` over the pending deletions. -/
def anyPendingEqual (s : Enclave) (cr : UtAddr) : List UtAddr → Option Bool
  | [] => some false
  | p :: ps => do
    let eq ← ecallClsRuleEqual s cr p
    if eq then return true else anyPendingEqual s cr ps

/-- The overlap check of `ecall_add_flow`. -/
def flowOverlaps (s : Enclave) (args : AddFlowArgs) : Option Bool :=
  if args.checkOverlap then ecallCrRuleOverlaps s args.tableId args.cr else some false

/-- The part of `ecall_add_flow` that evicts a rule from an over-full table. -/
def evictForFlow (s : Enclave) (i : Nat) (cr : UtAddr) (out : AddFlowOut) :
    Option (Enclave × AddFlowOut) :=
  if ecallOftableClsCount s i ≤ ecallOftableMflows s i then some (s, out)
  else do
    let out := { out with tableOverflow := true }
    let evict ← ecallChooseRuleToEvictP s i cr
    match evict with
    | none => return (s, { out with evict := none })
    | some e =>
      let s ← ecallClsRemove s i e
      let s ← ecallEvgRemoveRule s i e
      let hash ← ecallClsRuleHash s e i
      return (s, { out with evict := some e, evictRuleHash := hash })

/-- Taking the victim out of its eviction group. -/
def evgRemoveVictim (s : Enclave) (i : Nat) : Option UtAddr → Option Enclave
  | none => some s
  | some v => ecallEvgRemoveRule s i v

/-- Putting the new rule into an eviction group if the table has them and the rule expires. -/
def evgAddFlow (s : Enclave) (args : AddFlowArgs) : Option Enclave :=
  if ecallIsEvictionFieldsEnabled s args.tableId && args.hasTimeout then
    ecallEvgAddRule s args.tableId args.cr args.evictionGroupPriority args.evictionRulePriority
      args.evictionNode
  else some s

/-- The part of `ecall_add_flow` after its three early exits. -/
def installFlow (s : Enclave) (args : AddFlowArgs) (out : AddFlowOut) :
    Option (Enclave × AddFlowOut) := do
  let i := args.tableId
  let (s, victim) ← ecallOftableClassifierReplace s i args.cr
  let s ← evgRemoveVictim s i victim
  let s ← evgAddFlow s args
  let out := { out with victim := victim }
  if victim.isSome && ecallOftableIsReadonly s i then
    return (s, { out with isRuleModifiable := false })
  else
    let (s, out) ← evictForFlow s i args.cr out
    let vid ← ecallMiniflowGetVid s args.cr
    let vidMask ← ecallMinimaskGetVidMask s args.cr
    return (s, { out with vid := vid, vidMask := vidMask })

/-- `ecall_add_flow`. -/
def ecallAddFlow (s : Enclave) (args : AddFlowArgs) : Option (Enclave × AddFlowOut) :=
  let out := AddFlowOut.init
  if ecallOftableIsReadonly s args.tableId then some (s, { out with isReadOnly := true })
  else do
    let s := ecallClsRuleInit s args.cr args.match args.priority
    let pending ← anyPendingEqual s args.cr args.pendingDeletions
    if pending then
      let s ← ecallClsRuleDestroy s args.cr
      return (s, { out with isDeletionPending := true })
    else
      let overlaps ← flowOverlaps s args
      if overlaps then
        let s ← ecallClsRuleDestroy s args.cr
        return (s, { out with isRuleOverlapping := true })
      else installFlow s args out

end OvsSgx
