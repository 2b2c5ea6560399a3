/-
OvsSgx.CallTable — the enclave's entry points and the call table.

Each ecall is declared in an EDL file, has a number in `common.h`, and has
(with one exception) a case in `execute_function`. A case reads its
arguments through untyped pointers: position `k` of the call is read from
`args->args[k]`, either dereferenced as a C type or passed on as the pointer
that it is. The value of the ecall is stored through a cast of its own.
-/
import Mathlib.Tactic

namespace OvsSgx

/-- The C types of scalars, of values that are passed by address, and of pointers. -/
inductive CType where
  | uint8
  | uint16
  | uint32
  | unsigned
  | int
  | sizeT
  | bool
  | flags
  | heapNode
  | ptr
deriving DecidableEq, Repr

/-- The size of a type; `struct heap_node` is a `size_t` and a padded `uint32_t`. -/
def CType.bits : CType → Nat
  | .uint8 => 8
  | .uint16 => 16
  | .uint32 => 32
  | .unsigned => 32
  | .int => 32
  | .sizeT => 64
  | .bool => 8
  | .flags => 32
  | .heapNode => 128
  | .ptr => 64

/-- A parameter of an ecall. A value is copied; a `user_check` pointer is passed as it is; the
bridge of an `[in]` pointer copies one element into the enclave, of an array whose length is
parameter `n`; the bridge of an `[out]` pointer copies a buffer back to where it points. -/
inductive EdlParam where
  | val (t : CType)
  | userCheck
  | inOne (n : Nat)
  | outBuf
deriving DecidableEq, Repr

/-- An EDL declaration. -/
structure EdlDecl where
  ret : Option CType
  params : List EdlParam
deriving DecidableEq, Repr

/-- An argument in a case of `execute_function`: `*(t *) args->args[k]` or `args->args[k]`. -/
inductive ArgRead where
  | deref (t : CType) (k : Nat)
  | pointer (k : Nat)
deriving DecidableEq, Repr

/-- The ecalls that stubs call. -/
inductive Ecall where
  | oftableSetReadonly
  | oftableIsReadonly
  | clsRuleInit
  | crRuleOverlaps
  | clsRuleDestroy
  | clsRuleHash
  | clsRuleEqual
  | oftableClassifierReplace
  | oftableGetFlags
  | oftableClsCount
  | isEvictionFieldsEnabled
  | evgAddRule
  | evgRemoveRule
  | clsRemove
  | chooseRuleToEvict
  | oftableMflows
  | chooseRuleToEvictP
  | minimatchExpand
  | crPriority
  | oftableClsFindMatchExactly
  | collectRulesLooseC
  | collectRulesLooseR
  | collectRulesStrictC
  | collectRulesStrictR
  | oftableEnableEviction
  | oftableDisableEviction
  | oftableEnableEvictionC
  | oftableEnableEvictionR
  | oftableMflowsSet
  | ofprotoDestroy
  | totalRules
  | oftableName
  | collectOfmonitorUtilC
  | collectOfmonitorUtilR
  | clsRuleIsLooseMatch
  | flushC
  | flushR
  | flowStatsC
  | flowStatsR
  | oftableClsLookup
  | dpifDestroyC
  | dpifDestroyR
  | clsRuleFormat
  | miniflowExpand
  | ruleCalculateTag
  | oftableUpdateTaggable
  | oftableIsOtherTable
  | ruleCalculateTagS
  | oftableHiddenCheck
  | oftableSetName
  | minimaskGetVidMask
  | miniflowGetVid
  | ofprotoGetVlanC
  | ofprotoGetVlanR
  | oftableGetClsRules
  | getClsRulesAndEnableEviction
  | evictionGroupAddRules
  | ofprotoGetVlanUsage
  | ofprotoFlush
  | ofprotoEvict
  | addFlow
  | collectRulesLoose
  | collectRulesStrict
  | deleteFlows
  | oftableConfigure
  | needToEvict
  | collectRulesLooseStatsRequest
  | ofprotoRuleSendRemoved
  | oftableRemoveRules
  | clsRulesFormat
  | minimatchExpandAndGetPriority
  | miniflowExpandAndTag
deriving DecidableEq, Repr

/-- A case of `execute_function`: the ecall of its label, which is also the one it calls, the
arguments, and the type through which the value is stored at `fc->return_value`. The cases
that also keep the flow cache do so after the ecall. -/
structure CallCase where
  ecall : Ecall
  reads : List ArgRead
  store : Option CType
deriving DecidableEq, Repr

/-- The numbers `hotcall_ecall_*` of `common.h`. -/
def Ecall.hotcallId : Ecall → Nat
  | .oftableSetReadonly => 2
  | .oftableIsReadonly => 3
  | .clsRuleInit => 4
  | .crRuleOverlaps => 5
  | .clsRuleDestroy => 6
  | .clsRuleHash => 7
  | .clsRuleEqual => 8
  | .oftableClassifierReplace => 9
  | .oftableGetFlags => 10
  | .oftableClsCount => 11
  | .isEvictionFieldsEnabled => 12
  | .evgAddRule => 14
  | .evgRemoveRule => 15
  | .clsRemove => 16
  | .chooseRuleToEvict => 17
  | .oftableMflows => 18
  | .chooseRuleToEvictP => 19
  | .minimatchExpand => 20
  | .crPriority => 21
  | .oftableClsFindMatchExactly => 22
  | .collectRulesLooseC => 23
  | .collectRulesLooseR => 24
  | .collectRulesStrictC => 25
  | .collectRulesStrictR => 26
  | .oftableEnableEviction => 27
  | .oftableDisableEviction => 28
  | .oftableEnableEvictionC => 29
  | .oftableEnableEvictionR => 30
  | .oftableMflowsSet => 31
  | .ofprotoDestroy => 32
  | .totalRules => 33
  | .oftableName => 34
  | .collectOfmonitorUtilC => 35
  | .collectOfmonitorUtilR => 36
  | .clsRuleIsLooseMatch => 37
  | .flushC => 38
  | .flushR => 39
  | .flowStatsC => 40
  | .flowStatsR => 41
  | .oftableClsLookup => 42
  | .dpifDestroyC => 44
  | .dpifDestroyR => 45
  | .clsRuleFormat => 46
  | .miniflowExpand => 47
  | .ruleCalculateTag => 48
  | .oftableUpdateTaggable => 50
  | .oftableIsOtherTable => 51
  | .ruleCalculateTagS => 52
  | .oftableHiddenCheck => 53
  | .oftableSetName => 54
  | .minimaskGetVidMask => 55
  | .miniflowGetVid => 56
  | .ofprotoGetVlanC => 57
  | .ofprotoGetVlanR => 58
  | .oftableGetClsRules => 59
  | .getClsRulesAndEnableEviction => 60
  | .evictionGroupAddRules => 61
  | .ofprotoGetVlanUsage => 62
  | .ofprotoFlush => 63
  | .ofprotoEvict => 64
  | .addFlow => 65
  | .collectRulesLoose => 66
  | .collectRulesStrict => 67
  | .deleteFlows => 68
  | .oftableConfigure => 69
  | .needToEvict => 70
  | .collectRulesLooseStatsRequest => 71
  | .ofprotoRuleSendRemoved => 72
  | .oftableRemoveRules => 73
  | .clsRulesFormat => 75
  | .minimatchExpandAndGetPriority => 76
  | .miniflowExpandAndTag => 77

/-- The declarations of the EDL files. -/
def Ecall.edl : Ecall → EdlDecl
  | .oftableSetReadonly => ⟨none, [.val .uint8, .val .uint8]⟩
  | .oftableIsReadonly => ⟨some .int, [.val .uint8, .val .uint8]⟩
  | .clsRuleInit => ⟨none, [.val .uint8, .userCheck, .userCheck, .val .unsigned]⟩
  | .crRuleOverlaps => ⟨some .int, [.val .uint8, .val .uint8, .userCheck]⟩
  | .clsRuleDestroy => ⟨none, [.val .uint8, .userCheck]⟩
  | .clsRuleHash => ⟨some .uint32, [.val .uint8, .userCheck, .val .uint32]⟩
  | .clsRuleEqual => ⟨some .int, [.val .uint8, .userCheck, .userCheck]⟩
  | .oftableClassifierReplace => ⟨none, [.val .uint8, .val .uint8, .userCheck, .userCheck]⟩
  | .oftableGetFlags => ⟨some .flags, [.val .uint8, .val .uint8]⟩
  | .oftableClsCount => ⟨some .int, [.val .uint8, .val .uint8]⟩
  | .isEvictionFieldsEnabled => ⟨some .int, [.val .uint8, .val .uint8]⟩
  | .evgAddRule => ⟨none, [.val .uint8, .val .uint8, .userCheck, .val .uint32, .val .uint32,
      .val .heapNode]⟩
  | .evgRemoveRule => ⟨none, [.val .uint8, .val .uint8, .userCheck]⟩
  | .clsRemove => ⟨none, [.val .uint8, .val .uint8, .userCheck]⟩
  | .chooseRuleToEvict => ⟨none, [.val .uint8, .val .uint8, .userCheck]⟩
  | .oftableMflows => ⟨some .unsigned, [.val .uint8, .val .uint8]⟩
  | .chooseRuleToEvictP => ⟨none, [.val .uint8, .val .uint8, .userCheck, .userCheck]⟩
  | .minimatchExpand => ⟨none, [.val .uint8, .userCheck, .userCheck]⟩
  | .crPriority => ⟨some .unsigned, [.val .uint8, .userCheck]⟩
  | .oftableClsFindMatchExactly => ⟨none, [.val .uint8, .val .uint8, .userCheck, .val .unsigned,
      .userCheck]⟩
  | .collectRulesLooseC => ⟨some .sizeT, [.val .uint8, .val .int, .val .uint8, .userCheck]⟩
  | .collectRulesLooseR => ⟨some .sizeT, [.val .uint8, .val .int, .userCheck, .val .int,
      .val .uint8, .userCheck]⟩
  | .collectRulesStrictC => ⟨some .sizeT, [.val .uint8, .val .int, .val .uint8, .userCheck,
      .val .unsigned]⟩
  | .collectRulesStrictR => ⟨some .sizeT, [.val .uint8, .val .int, .userCheck, .val .int,
      .val .uint8, .userCheck, .val .unsigned]⟩
  | .oftableEnableEviction => ⟨none, [.val .uint8, .val .uint8, .inOne 3, .val .sizeT,
      .val .uint32, .userCheck]⟩
  | .oftableDisableEviction => ⟨none, [.val .uint8, .val .uint8]⟩
  | .oftableEnableEvictionC => ⟨some .sizeT, [.val .uint8, .val .uint8]⟩
  | .oftableEnableEvictionR => ⟨some .sizeT, [.val .uint8, .userCheck, .val .int, .val .uint8]⟩
  | .oftableMflowsSet => ⟨none, [.val .uint8, .val .uint8, .val .unsigned]⟩
  | .ofprotoDestroy => ⟨none, [.val .uint8]⟩
  | .totalRules => ⟨some .unsigned, [.val .uint8]⟩
  | .oftableName => ⟨none, [.val .uint8, .val .uint8, .outBuf, .val .sizeT]⟩
  | .collectOfmonitorUtilC => ⟨some .sizeT, [.val .uint8, .val .int, .val .uint8, .userCheck]⟩
  | .collectOfmonitorUtilR => ⟨some .sizeT, [.val .uint8, .val .int, .userCheck, .val .int,
      .val .uint8, .userCheck]⟩
  | .clsRuleIsLooseMatch => ⟨some .int, [.val .uint8, .userCheck, .userCheck]⟩
  | .flushC => ⟨some .sizeT, [.val .uint8]⟩
  | .flushR => ⟨some .sizeT, [.val .uint8, .userCheck, .val .int]⟩
  | .flowStatsC => ⟨some .sizeT, [.val .uint8]⟩
  | .flowStatsR => ⟨some .sizeT, [.val .uint8, .userCheck, .val .int]⟩
  | .oftableClsLookup => ⟨none, [.val .uint8, .userCheck, .val .uint8, .userCheck, .userCheck]⟩
  | .dpifDestroyC => ⟨some .sizeT, [.val .uint8]⟩
  | .dpifDestroyR => ⟨some .sizeT, [.val .uint8, .userCheck, .val .int]⟩
  | .clsRuleFormat => ⟨some .unsigned, [.val .uint8, .userCheck, .userCheck]⟩
  | .miniflowExpand => ⟨none, [.val .uint8, .userCheck, .userCheck]⟩
  | .ruleCalculateTag => ⟨some .uint32, [.val .uint8, .userCheck, .userCheck, .val .uint8]⟩
  | .oftableUpdateTaggable => ⟨some .int, [.val .uint8, .val .uint8]⟩
  | .oftableIsOtherTable => ⟨some .int, [.val .uint8, .val .int]⟩
  | .ruleCalculateTagS => ⟨some .uint32, [.val .uint8, .val .int, .userCheck]⟩
  | .oftableHiddenCheck => ⟨none, [.val .uint8]⟩
  | .oftableSetName => ⟨none, [.val .uint8, .val .uint8, .userCheck]⟩
  | .minimaskGetVidMask => ⟨some .uint16, [.val .uint8, .userCheck]⟩
  | .miniflowGetVid => ⟨some .uint16, [.val .uint8, .userCheck]⟩
  | .ofprotoGetVlanC => ⟨some .sizeT, [.val .uint8]⟩
  | .ofprotoGetVlanR => ⟨some .sizeT, [.val .uint8, .userCheck, .val .int]⟩
  | .oftableGetClsRules => ⟨some .sizeT, [.val .uint8, .val .uint8, .val .sizeT, .val .sizeT,
      .userCheck, .val .sizeT, .userCheck]⟩
  | .getClsRulesAndEnableEviction => ⟨some .sizeT, [.val .uint8, .val .uint8, .val .sizeT,
      .val .sizeT, .userCheck, .val .sizeT, .userCheck, .userCheck, .val .sizeT, .val .uint32,
      .userCheck, .userCheck]⟩
  | .evictionGroupAddRules => ⟨none, [.val .uint8, .val .uint8, .val .sizeT, .userCheck,
      .userCheck, .userCheck, .val .uint32]⟩
  | .ofprotoGetVlanUsage => ⟨some .sizeT, [.val .uint8, .val .sizeT, .userCheck, .val .sizeT,
      .val .sizeT, .userCheck]⟩
  | .ofprotoFlush => ⟨some .sizeT, [.val .uint8, .userCheck, .userCheck, .val .sizeT, .val .sizeT,
      .val .sizeT, .userCheck]⟩
  | .ofprotoEvict => ⟨some .sizeT, [.val .uint8, .val .int, .val .sizeT, .userCheck, .userCheck,
      .val .sizeT, .userCheck]⟩
  | .addFlow => ⟨none, [.val .uint8, .val .uint8, .userCheck, .userCheck, .userCheck, .userCheck,
      .userCheck, .userCheck, .userCheck, .val .unsigned, .val .uint16, .val .uint32,
      .val .uint32, .val .heapNode, .userCheck, .val .int, .val .bool, .userCheck, .userCheck,
      .userCheck, .userCheck, .userCheck]⟩
  | .collectRulesLoose => ⟨some .sizeT, [.val .uint8, .val .uint8, .val .int, .val .sizeT,
      .userCheck, .userCheck, .userCheck, .val .sizeT, .userCheck, .userCheck]⟩
  | .collectRulesStrict => ⟨some .sizeT, [.val .uint8, .val .uint8, .val .int, .userCheck,
      .val .unsigned, .userCheck, .userCheck, .userCheck, .val .sizeT]⟩
  | .deleteFlows => ⟨none, [.val .uint8, .userCheck, .userCheck, .userCheck, .userCheck,
      .userCheck, .userCheck, .val .sizeT]⟩
  | .oftableConfigure => ⟨none, [.val .uint8, .val .uint8, .userCheck, .val .unsigned, .userCheck,
      .val .sizeT, .userCheck, .userCheck]⟩
  | .needToEvict => ⟨some .bool, [.val .uint8, .val .uint8]⟩
  | .collectRulesLooseStatsRequest => ⟨some .sizeT, [.val .uint8, .val .uint8, .val .int,
      .val .sizeT, .val .sizeT, .userCheck, .userCheck, .userCheck, .userCheck, .userCheck]⟩
  | .ofprotoRuleSendRemoved => ⟨none, [.val .uint8, .userCheck, .userCheck, .userCheck, .userCheck]⟩
  | .oftableRemoveRules => ⟨none, [.val .uint8, .userCheck, .userCheck, .userCheck, .val .sizeT]⟩
  | .clsRulesFormat => ⟨none, [.val .uint8, .userCheck, .userCheck, .val .sizeT]⟩
  | .minimatchExpandAndGetPriority => ⟨none, [.val .uint8, .userCheck, .userCheck, .userCheck]⟩
  | .miniflowExpandAndTag => ⟨some .uint32, [.val .uint8, .userCheck, .userCheck, .val .uint8]⟩

/-- The cases of `execute_function`, in the order of the source. -/
def callTable : List CallCase :=
  [ ⟨.oftableIsReadonly, [.deref .uint8 0, .deref .uint8 1], some .int⟩,
    ⟨.clsRuleInit, [.deref .uint8 0, .pointer 1, .pointer 2, .deref .unsigned 3], none⟩,
    ⟨.clsRuleDestroy, [.deref .int 0, .pointer 1], none⟩,
    ⟨.crRuleOverlaps, [.deref .uint8 0, .deref .uint8 1, .pointer 2], some .int⟩,
    ⟨.oftableSetReadonly, [.deref .uint8 0, .deref .uint8 1], none⟩,
    ⟨.oftableSetName, [.deref .uint8 0, .deref .uint8 1, .pointer 2], none⟩,
    ⟨.oftableDisableEviction, [.deref .uint8 0, .deref .uint8 1], none⟩,
    ⟨.oftableMflowsSet, [.deref .uint8 0, .deref .uint8 1, .deref .unsigned 2], none⟩,
    ⟨.oftableClsCount, [.deref .uint8 0, .deref .uint8 1], some .int⟩,
    ⟨.oftableMflows, [.deref .uint8 0, .deref .uint8 1], some .unsigned⟩,
    ⟨.isEvictionFieldsEnabled, [.deref .uint8 0, .deref .uint8 1], some .int⟩,
    ⟨.flushC, [.deref .uint8 0], some .int⟩,
    ⟨.flushR, [.deref .uint8 0, .pointer 1, .deref .int 2], none⟩,
    ⟨.ofprotoDestroy, [.deref .uint8 0], none⟩,
    ⟨.totalRules, [.deref .int 0], some .unsigned⟩,
    ⟨.oftableClsFindMatchExactly, [.deref .uint8 0, .deref .uint8 1, .pointer 2, .deref .unsigned 3,
        .pointer 4], none⟩,
    ⟨.crPriority, [.deref .uint8 0, .pointer 1], some .unsigned⟩,
    ⟨.oftableGetFlags, [.deref .uint8 0, .deref .uint8 1], some .flags⟩,
    ⟨.oftableName, [.deref .uint8 0, .deref .uint8 1, .pointer 2, .deref .sizeT 3], none⟩,
    ⟨.collectRulesLooseC, [.deref .uint8 0, .deref .uint8 1, .deref .uint8 2, .pointer 3],
        some .int⟩,
    ⟨.collectRulesLooseR, [.deref .uint8 0, .deref .uint8 1, .pointer 2, .deref .int 3,
        .deref .uint8 4, .pointer 5], none⟩,
    ⟨.minimatchExpand, [.deref .uint8 0, .pointer 1, .pointer 2], none⟩,
    ⟨.clsRuleFormat, [.deref .uint8 0, .pointer 1, .pointer 2], some .unsigned⟩,
    ⟨.flowStatsC, [.deref .uint8 0], some .int⟩,
    ⟨.flowStatsR, [.deref .uint8 0, .pointer 1, .deref .int 2], none⟩,
    ⟨.clsRuleHash, [.deref .uint8 0, .pointer 1, .deref .uint32 2], some .uint32⟩,
    ⟨.clsRuleEqual, [.deref .uint8 0, .pointer 1, .pointer 2], some .int⟩,
    ⟨.chooseRuleToEvict, [.deref .uint8 0, .deref .uint8 1, .pointer 2], none⟩,
    ⟨.chooseRuleToEvictP, [.deref .uint8 0, .deref .uint8 1, .pointer 2, .pointer 3], none⟩,
    ⟨.collectOfmonitorUtilC, [.deref .uint8 0, .deref .uint8 1, .deref .uint8 2, .pointer 3],
        some .int⟩,
    ⟨.collectOfmonitorUtilR, [.deref .uint8 0, .deref .uint8 1, .pointer 2, .deref .int 3,
        .deref .uint8 4, .pointer 5], none⟩,
    ⟨.clsRuleIsLooseMatch, [.deref .uint8 0, .pointer 1, .pointer 2], some .int⟩,
    ⟨.minimaskGetVidMask, [.deref .uint8 0, .pointer 1], some .uint16⟩,
    ⟨.miniflowGetVid, [.deref .uint8 0, .pointer 1], some .uint16⟩,
    ⟨.evgAddRule, [.deref .uint8 0, .deref .uint8 1, .pointer 2, .deref .uint32 3, .deref .uint32 4,
        .deref .heapNode 5], none⟩,
    ⟨.oftableEnableEviction, [.deref .uint8 0, .deref .uint8 1, .pointer 2, .deref .sizeT 3,
        .deref .uint32 4, .pointer 5], none⟩,
    ⟨.oftableEnableEvictionC, [.deref .uint8 0, .deref .uint8 1], some .int⟩,
    ⟨.oftableEnableEvictionR, [.deref .uint8 0, .pointer 1, .deref .int 2, .deref .uint8 3], none⟩,
    ⟨.clsRemove, [.deref .uint8 0, .deref .uint8 1, .pointer 2], none⟩,
    ⟨.oftableClassifierReplace, [.deref .uint8 0, .deref .uint8 1, .pointer 2, .pointer 3], none⟩,
    ⟨.ofprotoGetVlanC, [.deref .uint8 0], some .int⟩,
    ⟨.ofprotoGetVlanR, [.deref .uint8 0, .pointer 1, .deref .int 2], none⟩,
    ⟨.collectRulesStrictC, [.deref .uint8 0, .deref .uint8 1, .deref .uint8 2, .pointer 3,
        .deref .unsigned 4], some .int⟩,
    ⟨.collectRulesStrictR, [.deref .uint8 0, .deref .uint8 1, .pointer 2, .deref .int 3,
        .deref .uint8 4, .pointer 5, .deref .unsigned 6], none⟩,
    ⟨.oftableHiddenCheck, [.deref .uint8 0], none⟩,
    ⟨.miniflowExpand, [.deref .uint8 0, .pointer 1, .pointer 2], none⟩,
    ⟨.ruleCalculateTag, [.deref .uint8 0, .pointer 1, .pointer 2, .deref .uint8 3], some .uint32⟩,
    ⟨.ruleCalculateTagS, [.deref .uint8 0, .deref .uint8 1, .pointer 2], some .uint32⟩,
    ⟨.oftableUpdateTaggable, [.deref .uint8 0, .deref .uint8 1], some .int⟩,
    ⟨.oftableIsOtherTable, [.deref .uint8 0, .deref .uint8 1], some .int⟩,
    ⟨.oftableClsLookup, [.deref .uint8 0, .pointer 1, .deref .uint8 2, .pointer 3, .pointer 4],
        none⟩,
    ⟨.evgRemoveRule, [.deref .uint8 0, .deref .uint8 1, .pointer 2], none⟩,
    ⟨.dpifDestroyC, [.deref .uint8 0], some .int⟩,
    ⟨.dpifDestroyR, [.deref .uint8 0, .pointer 1, .deref .int 2], none⟩,
    ⟨.oftableGetClsRules, [.deref .uint8 0, .deref .uint8 1, .deref .sizeT 2, .deref .sizeT 3,
        .pointer 4, .deref .sizeT 5, .pointer 6], some .sizeT⟩,
    ⟨.getClsRulesAndEnableEviction, [.deref .uint8 0, .deref .uint8 1, .deref .sizeT 2,
        .deref .sizeT 3, .pointer 4, .deref .sizeT 5, .pointer 6, .pointer 7, .deref .sizeT 8,
        .deref .uint32 9, .pointer 10, .pointer 11], some .sizeT⟩,
    ⟨.evictionGroupAddRules, [.deref .int 0, .deref .int 1, .deref .sizeT 2, .pointer 3, .pointer 4,
        .pointer 5, .deref .uint32 6], none⟩,
    ⟨.ofprotoGetVlanUsage, [.deref .uint8 0, .deref .sizeT 1, .pointer 2, .deref .sizeT 3,
        .deref .sizeT 4, .pointer 5], some .sizeT⟩,
    ⟨.ofprotoFlush, [.deref .uint8 0, .pointer 1, .pointer 2, .deref .sizeT 3, .deref .sizeT 4,
        .deref .sizeT 5, .pointer 6], some .sizeT⟩,
    ⟨.ofprotoEvict, [.deref .uint8 0, .deref .uint8 1, .deref .sizeT 2, .pointer 3, .pointer 4,
        .deref .sizeT 5, .pointer 6], some .sizeT⟩,
    ⟨.addFlow, [.deref .uint8 0, .deref .uint8 1, .pointer 2, .pointer 3, .pointer 4, .pointer 5,
        .pointer 6, .pointer 7, .pointer 8, .deref .unsigned 9, .deref .uint16 10, .deref .uint32 11,
        .deref .uint32 12, .deref .heapNode 13, .pointer 14, .deref .int 15, .deref .bool 16,
        .pointer 17, .pointer 18, .pointer 19, .pointer 20, .pointer 21], none⟩,
    ⟨.collectRulesLoose, [.deref .uint8 0, .deref .uint8 1, .deref .int 2, .deref .sizeT 3,
        .pointer 4, .pointer 5, .pointer 6, .deref .sizeT 7, .pointer 8, .pointer 9], some .sizeT⟩,
    ⟨.collectRulesStrict, [.deref .int 0, .deref .int 1, .deref .int 2, .pointer 3,
        .deref .unsigned 4, .pointer 5, .pointer 6, .pointer 7, .deref .sizeT 8], some .sizeT⟩,
    ⟨.deleteFlows, [.deref .uint8 0, .pointer 1, .pointer 2, .pointer 3, .pointer 4, .pointer 5,
        .pointer 6, .deref .sizeT 7], none⟩,
    ⟨.oftableConfigure, [.deref .uint8 0, .deref .uint8 1, .pointer 2, .deref .unsigned 3, .pointer 4,
        .deref .sizeT 5, .pointer 6, .pointer 7], none⟩,
    ⟨.needToEvict, [.deref .uint8 0, .deref .uint8 1], some .bool⟩,
    ⟨.collectRulesLooseStatsRequest, [.deref .uint8 0, .deref .uint8 1, .deref .int 2,
        .deref .sizeT 3, .deref .sizeT 4, .pointer 5, .pointer 6, .pointer 7, .pointer 8, .pointer 9],
        some .sizeT⟩,
    ⟨.ofprotoRuleSendRemoved, [.deref .uint8 0, .pointer 1, .pointer 2, .pointer 3, .pointer 4],
        none⟩,
    ⟨.oftableRemoveRules, [.deref .uint8 0, .pointer 1, .pointer 2, .pointer 3, .deref .sizeT 4],
        none⟩,
    ⟨.minimatchExpandAndGetPriority, [.deref .uint8 0, .pointer 1, .pointer 2, .pointer 3], none⟩,
    ⟨.miniflowExpandAndTag, [.deref .uint8 0, .pointer 1, .pointer 2, .deref .uint8 3], none⟩ ]

/-- The `switch` of `execute_function`. -/
def findCase (id : Nat) : Option CallCase :=
  callTable.find? (fun c => c.ecall.hotcallId == id)

end OvsSgx
