/-
OvsSgx.Stubs — the stubs of the switch.

A stub of `app.c` has two bodies. With `HOTCALL` it fills `args` and gives
them to `HCALL` together with the number of an ecall; otherwise it calls the
ecall. A scalar goes into `args` by its address: that of the parameter, or,
in a stub that is asynchronous with `BATCHING`, that of the next cell of a
ring of the scalar's type. A pointer goes into `args` as it is.
-/
import OvsSgx.CallTable

namespace OvsSgx

/-- An entry of `args`: the address of parameter `i`, the address of the next cell of a ring
that receives parameter `i` (`&i` without `BATCHING`), or the pointer `i`. `next_voidptr` also
returns the pointer that it is given. -/
inductive Pack where
  | addr (i : Nat)
  | next (t : CType) (i : Nat)
  | ptr (i : Nat)
deriving DecidableEq, Repr

/-- What a stub returns: nothing, its result variable, or, where the declaration promises a
value and the body has no `return`, anything. -/
inductive StubReturn where
  | void
  | value
  | missing
deriving DecidableEq, Repr

/-- A stub: its parameters, the type of its result variable, the `HCALL` and the direct call. -/
structure StubDecl where
  params : List CType
  result : Option CType
  returns : StubReturn
  async : Bool
  hcall : Ecall
  nArgs : Nat
  args : List Pack
  ecall : Ecall
  ecallArgs : List Nat
deriving DecidableEq, Repr

/-- The stubs of the OpenFlow tables. -/
inductive SgxStub where
  | readonlySet
  | istableReadonly
  | clsRuleInit
  | crRuleOverlaps
  | clsRuleDestroy
  | clsRuleHash
  | clsRuleEqual
  | classifierReplace
  | ruleGetFlags
  | clsCount
  | evictionFieldsEnable
  | evgAddRule
  | evgRemoveRule
  | clsRemove
  | chooseRuleToEvict
  | chooseRuleToEvictP
  | tableMflows
  | tableMflowsSet
  | minimatchExpand
  | crPriority
  | clsFindMatchExactly
  | collectRulesLooseC
  | collectRulesLooseR
  | collectRulesStrictC
  | collectRulesStrictR
  | oftableEnableEvictionC
  | oftableEnableEvictionR
  | collectOfmonitorUtilC
  | collectOfmonitorUtilR
  | oftableEnableEviction
  | oftableDisableEviction
  | ofprotoDestroy
  | totalRules
  | tableName
  | clsRuleIsLooseMatch
  | flushC
  | flushR
  | flowStatsC
  | flowStatsR
  | clsLookup
  | dpifDestroyC
  | dpifDestroyR
  | clsRuleFormat
  | miniflowExpand
  | ruleCalculateTag
  | tableUpdateTaggable
  | isSgxOtherTable
  | ruleCalculateTagS
  | oftableCheckHidden
  | oftableSetName
  | minimaskGetVidMask
  | miniflowGetVid
  | ofprotoGetVlanUsageC
  | ofprotoGetVlanUsageR
  | getClsRules
  | getClsRulesAndEnableEviction
  | evictionGroupAddRules
  | ofprotoGetVlanUsage
  | ofprotoFlush
  | ofprotoEvict
  | addFlow
  | collectRulesStrict
  | collectRulesLoose
  | deleteFlows
  | configureTable
  | needToEvict
  | collectRulesLooseStatsRequest
  | ofprotoRuleSendRemoved
  | removeRules
  | clsRulesFormat
  | minimatchExpandAndGetPriority
  | miniflowExpandAndTag
deriving DecidableEq, Repr

/-- The stubs of `app.c`. -/
def SgxStub.decl : SgxStub → StubDecl
  | .readonlySet =>
    { params := [.uint8, .uint8]
      result := none, returns := .void, async := true
      hcall := .oftableSetReadonly, nArgs := 2, args := [.next .uint8 0, .next .uint8 1]
      ecall := .oftableSetReadonly, ecallArgs := [0, 1] }
  | .istableReadonly =>
    { params := [.uint8, .uint8]
      result := some .int, returns := .value, async := false
      hcall := .oftableIsReadonly, nArgs := 2, args := [.addr 0, .addr 1]
      ecall := .oftableIsReadonly, ecallArgs := [0, 1] }
  | .clsRuleInit =>
    { params := [.uint8, .ptr, .ptr, .unsigned]
      result := none, returns := .void, async := true
      hcall := .clsRuleInit, nArgs := 4, args := [.next .uint8 0, .ptr 1, .ptr 2,
        .next .unsigned 3]
      ecall := .clsRuleInit, ecallArgs := [0, 1, 2, 3] }
  | .crRuleOverlaps =>
    { params := [.uint8, .uint8, .ptr]
      result := some .int, returns := .value, async := false
      hcall := .crRuleOverlaps, nArgs := 3, args := [.addr 0, .addr 1, .ptr 2]
      ecall := .crRuleOverlaps, ecallArgs := [0, 1, 2] }
  | .clsRuleDestroy =>
    { params := [.uint8, .ptr]
      result := none, returns := .void, async := true
      hcall := .clsRuleDestroy, nArgs := 2, args := [.next .uint8 0, .ptr 1]
      ecall := .clsRuleDestroy, ecallArgs := [0, 1] }
  | .clsRuleHash =>
    { params := [.uint8, .ptr, .uint32]
      result := some .uint32, returns := .value, async := false
      hcall := .clsRuleHash, nArgs := 3, args := [.addr 0, .ptr 1, .addr 2]
      ecall := .clsRuleHash, ecallArgs := [0, 1, 2] }
  | .clsRuleEqual =>
    { params := [.uint8, .ptr, .ptr]
      result := some .int, returns := .value, async := false
      hcall := .clsRuleEqual, nArgs := 3, args := [.addr 0, .ptr 1, .ptr 2]
      ecall := .clsRuleEqual, ecallArgs := [0, 1, 2] }
  | .classifierReplace =>
    { params := [.uint8, .uint8, .ptr, .ptr]
      result := none, returns := .void, async := false
      hcall := .oftableClassifierReplace, nArgs := 4, args := [.addr 0, .addr 1, .ptr 2, .ptr 3]
      ecall := .oftableClassifierReplace, ecallArgs := [0, 1, 2, 3] }
  | .ruleGetFlags =>
    { params := [.uint8, .uint8]
      result := some .flags, returns := .value, async := false
      hcall := .oftableGetFlags, nArgs := 2, args := [.addr 0, .addr 1]
      ecall := .oftableGetFlags, ecallArgs := [0, 1] }
  | .clsCount =>
    { params := [.uint8, .uint8]
      result := some .int, returns := .value, async := false
      hcall := .oftableClsCount, nArgs := 2, args := [.addr 0, .addr 1]
      ecall := .oftableClsCount, ecallArgs := [0, 1] }
  | .evictionFieldsEnable =>
    { params := [.uint8, .uint8]
      result := some .int, returns := .value, async := false
      hcall := .isEvictionFieldsEnabled, nArgs := 2, args := [.addr 0, .addr 1]
      ecall := .isEvictionFieldsEnabled, ecallArgs := [0, 1] }
  | .evgAddRule =>
    { params := [.uint8, .uint8, .ptr, .uint32, .uint32, .heapNode]
      result := none, returns := .void, async := true
      hcall := .evgAddRule, nArgs := 6, args := [.next .uint8 0, .next .uint8 1, .ptr 2,
        .next .uint32 3, .next .uint32 4, .next .heapNode 5]
      ecall := .evgAddRule, ecallArgs := [0, 1, 2, 3, 4, 5] }
  | .evgRemoveRule =>
    { params := [.uint8, .uint8, .ptr]
      result := none, returns := .void, async := true
      hcall := .evgRemoveRule, nArgs := 3, args := [.next .uint8 0, .next .uint8 1, .ptr 2]
      ecall := .evgRemoveRule, ecallArgs := [0, 1, 2] }
  | .clsRemove =>
    { params := [.uint8, .uint8, .ptr]
      result := none, returns := .void, async := true
      hcall := .clsRemove, nArgs := 3, args := [.next .uint8 0, .next .uint8 1, .ptr 2]
      ecall := .clsRemove, ecallArgs := [0, 1, 2] }
  | .chooseRuleToEvict =>
    { params := [.uint8, .uint8, .ptr]
      result := none, returns := .void, async := false
      hcall := .chooseRuleToEvict, nArgs := 3, args := [.addr 0, .addr 1, .ptr 2]
      ecall := .chooseRuleToEvict, ecallArgs := [0, 1, 2] }
  | .chooseRuleToEvictP =>
    { params := [.uint8, .uint8, .ptr, .ptr]
      result := none, returns := .void, async := false
      hcall := .chooseRuleToEvictP, nArgs := 4, args := [.addr 0, .addr 1, .ptr 2, .ptr 3]
      ecall := .chooseRuleToEvictP, ecallArgs := [0, 1, 2, 3] }
  | .tableMflows =>
    { params := [.uint8, .uint8]
      result := some .unsigned, returns := .value, async := false
      hcall := .oftableMflows, nArgs := 2, args := [.addr 0, .addr 1]
      ecall := .oftableMflows, ecallArgs := [0, 1] }
  | .tableMflowsSet =>
    { params := [.uint8, .uint8, .unsigned]
      result := none, returns := .void, async := true
      hcall := .oftableMflowsSet, nArgs := 3, args := [.next .uint8 0, .next .uint8 1,
        .next .unsigned 2]
      ecall := .oftableMflowsSet, ecallArgs := [0, 1, 2] }
  | .minimatchExpand =>
    { params := [.uint8, .ptr, .ptr]
      result := none, returns := .void, async := false
      hcall := .minimatchExpand, nArgs := 3, args := [.addr 0, .ptr 1, .ptr 2]
      ecall := .minimatchExpand, ecallArgs := [0, 1, 2] }
  | .crPriority =>
    { params := [.uint8, .ptr]
      result := some .unsigned, returns := .value, async := false
      hcall := .crPriority, nArgs := 2, args := [.addr 0, .ptr 1]
      ecall := .crPriority, ecallArgs := [0, 1] }
  | .clsFindMatchExactly =>
    { params := [.uint8, .uint8, .ptr, .unsigned, .ptr]
      result := none, returns := .void, async := false
      hcall := .oftableClsFindMatchExactly, nArgs := 5, args := [.addr 0, .addr 1, .ptr 2,
        .addr 3, .ptr 4]
      ecall := .oftableClsFindMatchExactly, ecallArgs := [0, 1, 2, 3, 4] }
  | .collectRulesLooseC =>
    { params := [.uint8, .int, .uint8, .ptr]
      result := some .sizeT, returns := .value, async := false
      hcall := .collectRulesLooseC, nArgs := 4, args := [.addr 0, .addr 1, .addr 2, .ptr 3]
      ecall := .collectRulesLooseC, ecallArgs := [0, 1, 2, 3] }
  | .collectRulesLooseR =>
    { params := [.uint8, .int, .ptr, .int, .uint8, .ptr]
      result := some .sizeT, returns := .void, async := false
      hcall := .collectRulesLooseR, nArgs := 6, args := [.addr 0, .addr 1, .ptr 2, .addr 3,
        .addr 4, .ptr 5]
      ecall := .collectRulesLooseR, ecallArgs := [0, 1, 2, 3, 4, 5] }
  | .collectRulesStrictC =>
    { params := [.uint8, .int, .uint8, .ptr, .unsigned]
      result := some .sizeT, returns := .value, async := false
      hcall := .collectRulesStrictC, nArgs := 5, args := [.addr 0, .addr 1, .addr 2, .ptr 3,
        .addr 4]
      ecall := .collectRulesStrictC, ecallArgs := [0, 1, 2, 3, 4] }
  | .collectRulesStrictR =>
    { params := [.uint8, .int, .ptr, .int, .uint8, .ptr, .unsigned]
      result := some .sizeT, returns := .void, async := false
      hcall := .collectRulesStrictR, nArgs := 7, args := [.addr 0, .addr 1, .ptr 2, .addr 3,
        .addr 4, .ptr 5, .addr 6]
      ecall := .collectRulesStrictR, ecallArgs := [0, 1, 2, 3, 4, 5, 6] }
  | .oftableEnableEvictionC =>
    { params := [.uint8, .uint8]
      result := some .sizeT, returns := .value, async := false
      hcall := .oftableEnableEvictionC, nArgs := 2, args := [.addr 0, .addr 1]
      ecall := .oftableEnableEvictionC, ecallArgs := [0, 1] }
  | .oftableEnableEvictionR =>
    { params := [.uint8, .ptr, .int, .uint8]
      result := some .sizeT, returns := .void, async := false
      hcall := .oftableEnableEvictionR, nArgs := 4, args := [.addr 0, .ptr 1, .addr 2, .addr 3]
      ecall := .oftableEnableEvictionR, ecallArgs := [0, 1, 2, 3] }
  | .collectOfmonitorUtilC =>
    { params := [.uint8, .int, .uint8, .ptr]
      result := some .sizeT, returns := .value, async := false
      hcall := .collectOfmonitorUtilC, nArgs := 4, args := [.addr 0, .addr 1, .addr 2, .ptr 3]
      ecall := .collectOfmonitorUtilC, ecallArgs := [0, 1, 2, 3] }
  | .collectOfmonitorUtilR =>
    { params := [.uint8, .int, .ptr, .int, .uint8, .ptr]
      result := some .sizeT, returns := .void, async := false
      hcall := .collectOfmonitorUtilR, nArgs := 6, args := [.addr 0, .addr 1, .ptr 2, .addr 3,
        .addr 4, .ptr 5]
      ecall := .collectOfmonitorUtilR, ecallArgs := [0, 1, 2, 3, 4, 5] }
  | .oftableEnableEviction =>
    { params := [.uint8, .uint8, .ptr, .sizeT, .uint32, .ptr]
      result := none, returns := .void, async := false
      hcall := .oftableEnableEviction, nArgs := 6, args := [.addr 0, .addr 1, .ptr 2, .addr 3,
        .addr 4, .ptr 5]
      ecall := .oftableEnableEviction, ecallArgs := [0, 1, 2, 3, 4, 5] }
  | .oftableDisableEviction =>
    { params := [.uint8, .uint8]
      result := none, returns := .void, async := true
      hcall := .oftableDisableEviction, nArgs := 2, args := [.next .uint8 0, .next .uint8 1]
      ecall := .oftableDisableEviction, ecallArgs := [0, 1] }
  | .ofprotoDestroy =>
    { params := [.uint8]
      result := none, returns := .void, async := true
      hcall := .ofprotoDestroy, nArgs := 1, args := [.next .uint8 0]
      ecall := .ofprotoDestroy, ecallArgs := [0] }
  | .totalRules =>
    { params := [.uint8]
      result := some .unsigned, returns := .value, async := false
      hcall := .totalRules, nArgs := 1, args := [.addr 0]
      ecall := .totalRules, ecallArgs := [0] }
  | .tableName =>
    { params := [.uint8, .uint8, .ptr, .sizeT]
      result := none, returns := .void, async := false
      hcall := .oftableName, nArgs := 4, args := [.addr 0, .addr 1, .ptr 2, .addr 3]
      ecall := .oftableName, ecallArgs := [0, 1, 2, 3] }
  | .clsRuleIsLooseMatch =>
    { params := [.uint8, .ptr, .ptr]
      result := some .int, returns := .value, async := false
      hcall := .clsRuleIsLooseMatch, nArgs := 3, args := [.addr 0, .ptr 1, .ptr 2]
      ecall := .clsRuleIsLooseMatch, ecallArgs := [0, 1, 2] }
  | .flushC =>
    { params := [.uint8]
      result := some .sizeT, returns := .value, async := false
      hcall := .flushC, nArgs := 1, args := [.addr 0]
      ecall := .flushC, ecallArgs := [0] }
  | .flushR =>
    { params := [.uint8, .ptr, .int]
      result := some .sizeT, returns := .void, async := false
      hcall := .flushR, nArgs := 3, args := [.addr 0, .ptr 1, .addr 2]
      ecall := .flushR, ecallArgs := [0, 1, 2] }
  | .flowStatsC =>
    { params := [.uint8]
      result := some .sizeT, returns := .value, async := false
      hcall := .flowStatsC, nArgs := 1, args := [.addr 0]
      ecall := .flowStatsC, ecallArgs := [0] }
  | .flowStatsR =>
    { params := [.uint8, .ptr, .int]
      result := some .sizeT, returns := .void, async := false
      hcall := .flowStatsR, nArgs := 3, args := [.addr 0, .ptr 1, .addr 2]
      ecall := .flowStatsR, ecallArgs := [0, 1, 2] }
  | .clsLookup =>
    { params := [.uint8, .ptr, .uint8, .ptr, .ptr]
      result := none, returns := .void, async := false
      hcall := .oftableClsLookup, nArgs := 5, args := [.addr 0, .ptr 1, .addr 2, .ptr 3, .ptr 4]
      ecall := .oftableClsLookup, ecallArgs := [0, 1, 2, 3, 4] }
  | .dpifDestroyC =>
    { params := [.uint8]
      result := some .sizeT, returns := .value, async := false
      hcall := .dpifDestroyC, nArgs := 1, args := [.addr 0]
      ecall := .dpifDestroyC, ecallArgs := [0] }
  | .dpifDestroyR =>
    { params := [.uint8, .ptr, .int]
      result := some .sizeT, returns := .void, async := false
      hcall := .dpifDestroyR, nArgs := 3, args := [.addr 0, .ptr 1, .addr 2]
      ecall := .dpifDestroyR, ecallArgs := [0, 1, 2] }
  | .clsRuleFormat =>
    { params := [.uint8, .ptr, .ptr]
      result := some .unsigned, returns := .value, async := false
      hcall := .clsRuleFormat, nArgs := 3, args := [.addr 0, .ptr 1, .ptr 2]
      ecall := .clsRuleFormat, ecallArgs := [0, 1, 2] }
  | .miniflowExpand =>
    { params := [.uint8, .ptr, .ptr]
      result := none, returns := .void, async := false
      hcall := .miniflowExpand, nArgs := 3, args := [.addr 0, .ptr 1, .ptr 2]
      ecall := .miniflowExpand, ecallArgs := [0, 1, 2] }
  | .ruleCalculateTag =>
    { params := [.uint8, .ptr, .ptr, .uint8]
      result := some .uint32, returns := .value, async := false
      hcall := .ruleCalculateTag, nArgs := 4, args := [.addr 0, .ptr 1, .ptr 2, .addr 3]
      ecall := .ruleCalculateTag, ecallArgs := [0, 1, 2, 3] }
  | .tableUpdateTaggable =>
    { params := [.uint8, .uint8]
      result := some .int, returns := .value, async := false
      hcall := .oftableUpdateTaggable, nArgs := 2, args := [.addr 0, .addr 1]
      ecall := .oftableUpdateTaggable, ecallArgs := [0, 1] }
  | .isSgxOtherTable =>
    { params := [.uint8, .uint8]
      result := some .int, returns := .value, async := false
      hcall := .oftableIsOtherTable, nArgs := 2, args := [.addr 0, .addr 1]
      ecall := .oftableIsOtherTable, ecallArgs := [0, 1] }
  | .ruleCalculateTagS =>
    { params := [.uint8, .uint8, .ptr]
      result := some .uint32, returns := .value, async := false
      hcall := .ruleCalculateTagS, nArgs := 3, args := [.addr 0, .addr 1, .ptr 2]
      ecall := .ruleCalculateTagS, ecallArgs := [0, 1, 2] }
  | .oftableCheckHidden =>
    { params := [.uint8]
      result := none, returns := .void, async := true
      hcall := .oftableHiddenCheck, nArgs := 1, args := [.next .uint8 0]
      ecall := .oftableHiddenCheck, ecallArgs := [0] }
  | .oftableSetName =>
    { params := [.uint8, .uint8, .ptr]
      result := none, returns := .void, async := true
      hcall := .oftableSetName, nArgs := 3, args := [.next .uint8 0, .next .uint8 1, .ptr 2]
      ecall := .oftableSetName, ecallArgs := [0, 1, 2] }
  | .minimaskGetVidMask =>
    { params := [.uint8, .ptr]
      result := some .uint16, returns := .value, async := false
      hcall := .minimaskGetVidMask, nArgs := 2, args := [.addr 0, .ptr 1]
      ecall := .minimaskGetVidMask, ecallArgs := [0, 1] }
  | .miniflowGetVid =>
    { params := [.uint8, .ptr]
      result := some .uint16, returns := .value, async := false
      hcall := .miniflowGetVid, nArgs := 2, args := [.addr 0, .ptr 1]
      ecall := .miniflowGetVid, ecallArgs := [0, 1] }
  | .ofprotoGetVlanUsageC =>
    { params := [.uint8]
      result := some .sizeT, returns := .value, async := false
      hcall := .ofprotoGetVlanC, nArgs := 1, args := [.addr 0]
      ecall := .ofprotoGetVlanC, ecallArgs := [0] }
  | .ofprotoGetVlanUsageR =>
    { params := [.uint8, .ptr, .int]
      result := some .sizeT, returns := .void, async := false
      hcall := .ofprotoGetVlanR, nArgs := 3, args := [.addr 0, .ptr 1, .addr 2]
      ecall := .ofprotoGetVlanR, ecallArgs := [0, 1, 2] }
  | .getClsRules =>
    { params := [.uint8, .uint8, .sizeT, .sizeT, .ptr, .sizeT, .ptr]
      result := some .sizeT, returns := .missing, async := false
      hcall := .oftableGetClsRules, nArgs := 7, args := [.addr 0, .addr 1, .addr 2, .addr 3,
        .ptr 4, .addr 5, .ptr 6]
      ecall := .oftableGetClsRules, ecallArgs := [0, 1, 2, 3, 4, 5, 6] }
  | .getClsRulesAndEnableEviction =>
    { params := [.uint8, .uint8, .sizeT, .sizeT, .ptr, .sizeT, .ptr, .ptr, .sizeT, .uint32, .ptr,
        .ptr]
      result := some .sizeT, returns := .value, async := false
      hcall := .getClsRulesAndEnableEviction, nArgs := 12, args := [.addr 0, .addr 1, .addr 2,
        .addr 3, .ptr 4, .addr 5, .ptr 6, .ptr 7, .addr 8, .addr 9, .ptr 10, .ptr 11]
      ecall := .getClsRulesAndEnableEviction, ecallArgs := [0, 1, 2, 3, 4, 5, 6, 7, 8, 9, 10, 11] }
  | .evictionGroupAddRules =>
    { params := [.uint8, .uint8, .sizeT, .ptr, .ptr, .ptr, .uint32]
      result := none, returns := .void, async := false
      hcall := .evictionGroupAddRules, nArgs := 7, args := [.addr 0, .addr 1, .addr 2, .ptr 3,
        .ptr 4, .ptr 5, .addr 6]
      ecall := .evictionGroupAddRules, ecallArgs := [0, 1, 2, 3, 4, 5, 6] }
  | .ofprotoGetVlanUsage =>
    { params := [.uint8, .sizeT, .ptr, .sizeT, .sizeT, .ptr]
      result := some .sizeT, returns := .value, async := false
      hcall := .ofprotoGetVlanUsage, nArgs := 6, args := [.addr 0, .addr 1, .ptr 2, .addr 3,
        .addr 4, .ptr 5]
      ecall := .ofprotoGetVlanUsage, ecallArgs := [0, 1, 2, 3, 4, 5] }
  | .ofprotoFlush =>
    { params := [.uint8, .ptr, .ptr, .sizeT, .sizeT, .sizeT, .ptr]
      result := some .sizeT, returns := .value, async := false
      hcall := .ofprotoFlush, nArgs := 7, args := [.addr 0, .ptr 1, .ptr 2, .addr 3, .addr 4,
        .addr 5, .ptr 6]
      ecall := .ofprotoFlush, ecallArgs := [0, 1, 2, 3, 4, 5, 6] }
  | .ofprotoEvict =>
    { params := [.uint8, .int, .sizeT, .ptr, .ptr, .sizeT, .ptr]
      result := some .sizeT, returns := .value, async := false
      hcall := .ofprotoEvict, nArgs := 7, args := [.addr 0, .addr 1, .addr 2, .ptr 3, .ptr 4,
        .addr 5, .ptr 6]
      ecall := .ofprotoEvict, ecallArgs := [0, 1, 2, 3, 4, 5, 6] }
  | .addFlow =>
    { params := [.uint8, .uint8, .ptr, .ptr, .ptr, .ptr, .ptr, .ptr, .ptr, .unsigned, .uint16,
        .uint32, .uint32, .heapNode, .ptr, .int, .bool, .ptr, .ptr, .ptr, .ptr, .ptr]
      result := none, returns := .void, async := false
      hcall := .addFlow, nArgs := 22, args := [.addr 0, .addr 1, .ptr 2, .ptr 3, .ptr 4, .ptr 5,
        .ptr 6, .ptr 7, .ptr 8, .addr 9, .addr 10, .addr 11, .addr 12, .addr 13, .ptr 14,
        .addr 15, .addr 16, .ptr 17, .ptr 18, .ptr 19, .ptr 20, .ptr 21]
      ecall := .addFlow, ecallArgs := [0, 1, 2, 3, 4, 5, 6, 7, 8, 9, 10, 11, 12, 13, 14, 15, 16,
        17, 18, 19, 20, 21] }
  | .collectRulesStrict =>
    { params := [.uint8, .uint8, .int, .ptr, .unsigned, .ptr, .ptr, .ptr, .sizeT]
      result := some .sizeT, returns := .value, async := false
      hcall := .collectRulesStrict, nArgs := 9, args := [.addr 0, .addr 1, .addr 2, .ptr 3,
        .addr 4, .ptr 5, .ptr 6, .ptr 7, .addr 8]
      ecall := .collectRulesStrict, ecallArgs := [0, 1, 2, 3, 4, 5, 6, 7, 8] }
  | .collectRulesLoose =>
    { params := [.uint8, .uint8, .int, .sizeT, .ptr, .ptr, .ptr, .sizeT, .ptr, .ptr]
      result := some .sizeT, returns := .value, async := false
      hcall := .collectRulesLoose, nArgs := 10, args := [.addr 0, .addr 1, .addr 2, .addr 3,
        .ptr 4, .ptr 5, .ptr 6, .addr 7, .ptr 8, .ptr 9]
      ecall := .collectRulesLoose, ecallArgs := [0, 1, 2, 3, 4, 5, 6, 7, 8, 9] }
  | .deleteFlows =>
    { params := [.uint8, .ptr, .ptr, .ptr, .ptr, .ptr, .ptr, .sizeT]
      result := none, returns := .void, async := false
      hcall := .deleteFlows, nArgs := 8, args := [.addr 0, .ptr 1, .ptr 2, .ptr 3, .ptr 4, .ptr 5,
        .ptr 6, .addr 7]
      ecall := .deleteFlows, ecallArgs := [0, 1, 2, 3, 4, 5, 6, 7] }
  | .configureTable =>
    { params := [.uint8, .uint8, .ptr, .unsigned, .ptr, .sizeT, .ptr, .ptr]
      result := none, returns := .void, async := false
      hcall := .oftableConfigure, nArgs := 8, args := [.addr 0, .addr 1, .ptr 2, .addr 3, .ptr 4,
        .addr 5, .ptr 6, .ptr 7]
      ecall := .oftableConfigure, ecallArgs := [0, 1, 2, 3, 4, 5, 6, 7] }
  | .needToEvict =>
    { params := [.uint8, .uint8]
      result := some .bool, returns := .value, async := false
      hcall := .needToEvict, nArgs := 2, args := [.addr 0, .addr 1]
      ecall := .needToEvict, ecallArgs := [0, 1] }
  | .collectRulesLooseStatsRequest =>
    { params := [.uint8, .uint8, .int, .sizeT, .sizeT, .ptr, .ptr, .ptr, .ptr, .ptr]
      result := some .sizeT, returns := .value, async := false
      hcall := .collectRulesLooseStatsRequest, nArgs := 10, args := [.addr 0, .addr 1, .addr 2,
        .addr 3, .addr 4, .ptr 5, .ptr 6, .ptr 7, .ptr 8, .ptr 9]
      ecall := .collectRulesLooseStatsRequest, ecallArgs := [0, 1, 2, 3, 4, 5, 6, 7, 8, 9] }
  | .ofprotoRuleSendRemoved =>
    { params := [.uint8, .ptr, .ptr, .ptr, .ptr]
      result := none, returns := .void, async := false
      hcall := .ofprotoRuleSendRemoved, nArgs := 5, args := [.addr 0, .ptr 1, .ptr 2, .ptr 3,
        .ptr 4]
      ecall := .ofprotoRuleSendRemoved, ecallArgs := [0, 1, 2, 3, 4] }
  | .removeRules =>
    { params := [.uint8, .ptr, .ptr, .ptr, .sizeT]
      result := none, returns := .void, async := false
      hcall := .oftableRemoveRules, nArgs := 5, args := [.addr 0, .ptr 1, .ptr 2, .ptr 3, .addr 4]
      ecall := .oftableRemoveRules, ecallArgs := [0, 1, 2, 3, 4] }
  | .clsRulesFormat =>
    { params := [.uint8, .ptr, .ptr, .sizeT]
      result := none, returns := .void, async := false
      hcall := .clsRulesFormat, nArgs := 4, args := [.addr 0, .ptr 1, .ptr 2, .addr 3]
      ecall := .clsRulesFormat, ecallArgs := [0, 1, 2, 3] }
  | .minimatchExpandAndGetPriority =>
    { params := [.uint8, .ptr, .ptr, .ptr]
      result := none, returns := .void, async := false
      hcall := .minimatchExpandAndGetPriority, nArgs := 4, args := [.addr 0, .ptr 1, .ptr 2,
        .ptr 3]
      ecall := .minimatchExpandAndGetPriority, ecallArgs := [0, 1, 2, 3] }
  | .miniflowExpandAndTag =>
    { params := [.uint8, .ptr, .ptr, .uint8]
      result := some .uint32, returns := .value, async := false
      hcall := .miniflowExpandAndTag, nArgs := 4, args := [.addr 0, .ptr 1, .ptr 2, .addr 3]
      ecall := .miniflowExpandAndTag, ecallArgs := [0, 1, 2, 3] }

end OvsSgx
