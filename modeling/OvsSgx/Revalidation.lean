/-
OvsSgx.Revalidation — the tags of rules and flows, as ofproto-dpif keeps them.

`tag_the_flow` puts a tag on a flow that has been looked up in a table:
that of the rule found, or a hash of the flow under the mask of the only
subtable that is not a catch-all. After a change, `rule_invalidate` asks
for the revalidation of every flow, or of the flows with the tag of the
changed rule. `tag_create_deterministic` is a parameter, the tags given to
`tag_set_add` are a list, and of a lookup only the rule is kept, not the
wildcards. The facets that `rule_construct` moves are left out.

A run adds and takes out rules, and calls `rule_invalidate` after each
change; whatever else happens to a bridge is a call too.
-/
import OvsSgx.Taggable
import OvsSgx.TableFrames
import OvsSgx.OftableTheorems

namespace OvsSgx

/-- `tag_type`. -/
abbrev TagType := U32

/-- `N_TABLES`. -/
def N_TABLES : Nat := 255

/-- The values of `frag_handling`. -/
inductive FragHandling where
  | normal | drop | reasm | nxMatch
deriving DecidableEq, Repr

/-- A bridge with the tags of its rules and, of the backer, `need_revalidate` and the tags in
`revalidate_set`. -/
structure TaggedDpif where
  bridge : TaggedBridge
  tag : UtAddr → TagType
  needRevalidate : Bool
  revalidateSet : List TagType

/-- The state with another enclave. -/
def TaggedDpif.withEnclave (s : TaggedDpif) (e : Enclave) : TaggedDpif :=
  { s with bridge := { s.bridge with enclave := e } }

/-! ## Lookups -/

/-- `flow->nw_frag & FLOW_NW_FRAG_ANY`. -/
def flowIsFrag (flow : Flow) : Bool := flow.byte 177 &&& 1#8 != 0#8

/-- `ofpc_normal_flow`: the flow with `tp_src` and `tp_dst` zeroed. -/
def ofpcNormalFlow (flow : Flow) : Flow :=
  let srcWord : Fin FLOW_U32S := ⟨36, by decide⟩
  let dstWord : Fin FLOW_U32S := ⟨37, by decide⟩
  Function.update (Function.update flow srcWord (flow srcWord &&& 0x0000ffff#32)) dstWord
    (flow dstWord &&& 0xffff0000#32)

example : (ofpcNormalFlow fun _ => 0xffffffff#32).bytes 144 8
    = [0xff#8, 0xff#8, 0#8, 0#8, 0#8, 0#8, 0xff#8, 0xff#8] := by
  decide +kernel

/-- The wildcards of a lookup with `dl_type` and the fragment flags made significant. -/
def fragWildcards (wc : FlowWildcards) : FlowWildcards :=
  let typeWord : Fin FLOW_U32S := ⟨36, by decide⟩
  let fragWord : Fin FLOW_U32S := ⟨44, by decide⟩
  ⟨Function.update (Function.update wc.masks typeWord (wc.masks typeWord ||| 0x0000ffff#32))
    fragWord (wc.masks fragWord ||| 0x00000300#32)⟩

/-- `rule_dpif_lookup__`, without the wildcards that it leaves. -/
def ruleDpifLookup (frag : FragHandling) (dropFragsRule : UtAddr) (s : TaggedDpif) (flow : Flow)
    (wc : Option FlowWildcards) (i : Nat) : Option UtAddr :=
  if N_TABLES ≤ i then none
  else
    let wc := wc.map fragWildcards
    if flowIsFrag flow && frag == .normal then
      (ecallOftableClsLookup s.bridge.enclave i (ofpcNormalFlow flow) wc).1
    else if flowIsFrag flow && frag == .drop then some dropFragsRule
    else (ecallOftableClsLookup s.bridge.enclave i flow wc).1

/-! ## Tags -/

section Tags

variable (tagCreateDeterministic : U32 → TagType)

/-- The tag made of a hash; there is none for 0. -/
def tagOfHash (hash : U32) : TagType :=
  if hash != 0#32 then tagCreateDeterministic hash else 0#32

/-- `tag_the_flow`: what is added to the tags of the flow. -/
def tagTheFlow (s : TaggedDpif) (i : Nat) (flow : Flow) (rule : Option UtAddr) : Option TagType :=
  if 0 < i ∧ i < N_TABLES ∧ ecallOftableIsOtherTable s.bridge i ≠ 0 then
    let hashed := (ecallRuleCalculateTagS s.bridge i flow).map (tagOfHash tagCreateDeterministic)
    match rule with
    | some a => if s.tag a ≠ 0#32 then some (s.tag a) else hashed
    | none => hashed
  else some 0#32

/-- `rule_invalidate`. -/
def ruleInvalidate (s : TaggedDpif) (i : Nat) (a : UtAddr) : TaggedDpif :=
  let (bridge, todo) := ecallOftableUpdateTaggable s.bridge i
  let needRevalidate := s.needRevalidate || todo != 0
  if needRevalidate then { s with bridge := bridge, needRevalidate := true }
  else if ecallOftableIsOtherTable bridge i != 0 && s.tag a != 0#32 then
    { s with bridge := bridge, revalidateSet := s.tag a :: s.revalidateSet }
  else { s with bridge := bridge, needRevalidate := true }

/-- `ecall_miniflow_expand_and_tag`. -/
def ecallMiniflowExpandAndTag (s : TaggedBridge) (a : UtAddr) (i : Nat) : Option (Flow × U32) := do
  let r ← sgxRuleFromUtCr s.enclave a
  let flow := miniflowExpand (s.enclave.clsRule r).match.flow
  let hash ← ecallRuleCalculateTag s a flow i
  return (flow, hash)

/-- The tag that `rule_construct` gives to a rule. -/
def constructedTag (s : TaggedDpif) (i : Nat) (a : UtAddr) : Option UtAddr → Option TagType
  | some victim => some (s.tag victim)
  | none =>
    if i = 0 then some 0#32
    else (ecallMiniflowExpandAndTag s.bridge a i).map fun e =>
      tagOfHash tagCreateDeterministic e.2

/-- `rule_construct`, up to its `complete_operation`. -/
def ruleConstruct (s : TaggedDpif) (i : Nat) (a : UtAddr) (victim : Option UtAddr) :
    Option TaggedDpif := do
  let tag ← constructedTag tagCreateDeterministic s i a victim
  return ruleInvalidate { s with tag := Function.update s.tag a tag } i a

/-! ## Runs -/

/-- A rule that has been added, with its table, the rule it displaced and the one evicted for it. -/
structure AddedRule where
  table : Nat
  rule : UtAddr
  victim : Option UtAddr
  evict : Option UtAddr
deriving DecidableEq, Repr

/-- What a call adds. There is nothing if `add_flow` reports an error. -/
def addedRule (s : Enclave) : Call → Option AddedRule
  | .oftableClassifierReplace i a => do
    let (_, victim) ← ecallOftableClassifierReplace s i a
    return ⟨i, a, victim, none⟩
  | .addFlow args => do
    let (_, out) ← ecallAddFlow s args
    if out.isReadOnly || out.isDeletionPending || out.isRuleOverlapping || !out.isRuleModifiable
      || (out.tableOverflow && out.evict.isNone) then none
    else return ⟨args.tableId, args.cr, out.victim, out.evict⟩
  | _ => none

/-- `rule_invalidate` for each rule of a list. -/
def invalidateAll (s : TaggedDpif) (i : Nat) (rules : List UtAddr) : TaggedDpif :=
  rules.foldl (fun s a => ruleInvalidate s i a) s

/-- A step: some call; a call that adds a rule, with its `rule_construct`; one that takes rules out
of table `i`, with `rule_invalidate` for those of a list; and the revalidation in `type_run`. -/
inductive TagStep where
  | call (c : Call)
  | add (c : Call)
  | remove (c : Call) (i : Nat) (rules : List UtAddr)
  | typeRun

/-- The effect of a step. -/
def TagStep.run (s : TaggedDpif) : TagStep → Option TaggedDpif
  | .call c => (exec s.bridge.enclave c).map s.withEnclave
  | .add c => do
    let new ← addedRule s.bridge.enclave c
    let e ← exec s.bridge.enclave c
    let s ← ruleConstruct tagCreateDeterministic (s.withEnclave e) new.table new.rule new.victim
    return invalidateAll s new.table new.evict.toList
  | .remove c i rules => do
    let e ← exec s.bridge.enclave c
    return invalidateAll (s.withEnclave e) i rules
  | .typeRun => some { s with needRevalidate := false, revalidateSet := [] }

end Tags

/-- A call that neither changes table `i` nor flushes. -/
def Call.LeavesAlone (i : Nat) (c : Call) : Prop := i ∉ c.changed ∧ ∀ n, c ≠ .ofprotoFlush n

/-- After each change of table `i` there is a `rule_invalidate`. -/
def TagStep.Invalidates (i : Nat) (s : TaggedDpif) : TagStep → Prop
  | .call c => Allowed ZeroMatch s.bridge.enclave c ∧ c.LeavesAlone i
  | .add c => Allowed ZeroMatch s.bridge.enclave c
  | .remove c j rules => Allowed ZeroMatch s.bridge.enclave c ∧
      if j = i then rules ≠ [] ∧ (s.bridge.enclave.after c).rules i ⊆ s.bridge.enclave.rules i
      else c.LeavesAlone i
  | .typeRun => True

/-- The states in which `ecall_oftable_update_taggable` has been run after each change of
table `i`. -/
inductive TagReachable (tagCreate : U32 → TagType) (i : Nat) : TaggedDpif → Prop where
  | init (nTables : Nat) (random : Nat → BitVec 16) (basis : Nat → U32) (tag : UtAddr → TagType) :
      TagReachable tagCreate i
        ⟨⟨ecallOfprotoInitTables nTables random, sgxTableDpifInit basis⟩, tag, false, []⟩
  | step {s s' : TaggedDpif} (c : TagStep) :
      TagReachable tagCreate i s → c.Invalidates i s → c.run tagCreate s = some s' →
        TagReachable tagCreate i s'

/-- Rule `a` is the only one that a call takes out of table `i`. -/
def Enclave.TakesOut (s : Enclave) (i : Nat) (a : UtAddr) (c : Call) : Prop :=
  ∃ r ∈ s.rules i, s.oClsRule r = a ∧ ∀ q, q ∈ (s.after c).rules i ↔ q ∈ s.rules i ∧ q ≠ r

/-- The step adds rule `a` to table `i`, or removes it. -/
def TagStep.Changes (i : Nat) (a : UtAddr) (s : TaggedDpif) : TagStep → Prop
  | .add c => Allowed ZeroMatch s.bridge.enclave c ∧
      ∃ victim, addedRule s.bridge.enclave c = some ⟨i, a, victim, none⟩
  | .remove c j rules => Allowed ZeroMatch s.bridge.enclave c ∧ j = i ∧ rules = [a] ∧
      s.bridge.enclave.TakesOut i a c
  | _ => False

end OvsSgx
