/-
OvsSgx.AddFlowBackOut — the back-out of `add_flow`.

`SGX_add_flow` has put the new rule into its table, in place of a victim,
and may have evicted another rule. If `add_flow` then fails, its back-out
takes the new rule out again and puts the victim back at the end of the list
`expirable`. The evicted rule is not put back.
-/
import OvsSgx.OfprotoInvariant

namespace OvsSgx

/-! ## The back-out -/

/-- The enclave `s'` and the list `l` after the back-out: the new rule `r` at address `cr`
of table `i` is gone and `V` is back in its place. -/
structure TakenBack (o : Ofproto) (cr : UtAddr) (i : Nat) (r : RuleId) (V : Option RuleId)
    (s' : Enclave) (l : List UtAddr) : Prop where
  ok : BridgeOk (fun _ => True) s'
  nTables : s'.nTables = o.enclave.nTables
  oClsRule : s'.oClsRule = o.enclave.oClsRule
  liveRule : ∀ q, s'.LiveRule q ↔ q ≠ r ∧ o.enclave.LiveRule q
  rules : ∀ j q, q ∈ s'.rules j ↔ (j = i ∧ V = some q) ∨ (q ∈ o.enclave.rules j ∧ q ≠ r)
  groupedIn : ∀ j q, s'.GroupedIn j q ↔ (o.enclave.GroupedIn j q ∧ q ≠ r) ∨
    (V = some q ∧ j = i ∧ (ecallIsEvictionFieldsEnabled o.enclave i &&
      (o.rule (o.enclave.oClsRule q)).mayExpire) = true)
  expirableNone : V = none → l = o.expirable.erase cr
  expirableSome : ∀ v, V = some v → l = (o.expirable ++
    if (o.rule (o.enclave.oClsRule v)).mayExpire then [o.enclave.oClsRule v] else []).erase cr

section BackOut

variable {o o' : Ofproto} {i : Nat} {cr : UtAddr} {error : Ofperr} {r : RuleId}

theorem ofprotoRuleDestroy_eq (h : ShadowsOk o.enclave)
    (hlook : sgxRuleFromUtCr o.enclave cr = some r) :
    ofprotoRuleDestroy o (some cr)
      = some (ruleDealloc { o with enclave := o.enclave.without r } cr) := by
  rw [ofprotoRuleDestroy, ecallClsRuleDestroy_without h hlook]
  rfl

/-- The arguments with which `ecall_add_flow` would add rule `a` to its eviction group. -/
def evgArgs (o : Ofproto) (a : UtAddr) : AddFlowArgs :=
  ⟨(o.rule a).tableId, a, matchCatchall, 0, false, addPriority 0 (o.random o.nRandom),
    (o.rule a).evictionPriority, (o.rule a).evgNode, [], (o.rule a).mayExpire⟩

/-- `eviction_group_add_rule` does what `ecall_add_flow` does for its new rule. -/
theorem evictionGroupAddRule_eq {a : UtAddr} {s : Enclave}
    (hs : evgAddFlow o.enclave (evgArgs o a) = some s) :
    ∃ n, evictionGroupAddRule o a = some { o with enclave := s, nRandom := n } := by
  have hadd : (if ecallIsEvictionFieldsEnabled o.enclave (o.rule a).tableId
      && (o.rule a).mayExpire then ecallEvgAddRule o.enclave (o.rule a).tableId a
        (addPriority 0 (o.random o.nRandom)) (o.rule a).evictionPriority (o.rule a).evgNode
      else some o.enclave) = some s := hs
  unfold evictionGroupAddRule
  by_cases hb : (ecallIsEvictionFieldsEnabled o.enclave (o.rule a).tableId
      && (o.rule a).mayExpire) = true
  · rw [if_pos hb] at hadd ⊢
    exact ⟨o.nRandom + 1, by simp [evictionGroupPriority, hadd]⟩
  · rw [if_neg hb] at hadd ⊢
    exact ⟨o.nRandom, by rw [← Option.some.inj hadd]⟩

/-- The back-out without a victim takes the new rule out. -/
theorem backOut_none (h : BridgeOk (fun _ => True) o.enclave)
    (hlook : sgxRuleFromUtCr o.enclave cr = some r) (hr : r ∈ o.enclave.rules i)
    (htbl : (o.rule cr).tableId = i) :
    ∃ s' l n, backOut o cr none error = some ({ o with
        enclave := s', expirable := l, nRandom := n, allocated := o.allocated.erase cr },
        some error) ∧
      TakenBack o cr i r none s' l := by
  obtain ⟨s1, s2, h1, h2, hcl⟩ := takeOut h hlook hr
  have hrem : oftableRemoveRule o cr
      = some (Ofproto.unlinkExpirable { o with enclave := s2 } cr) := by
    simp only [oftableRemoveRule, evictionGroupRemoveRule, htbl, h1, h2, Option.bind_eq_bind,
      Option.bind_some]
    rfl
  have hlook2 : sgxRuleFromUtCr s2 cr = some r := (hcl.lookup cr).trans hlook
  have hlive2 := hcl.ok.shadows.live_of_lookup hlook2
  have hdes := ofprotoRuleDestroy_eq
    (o := Ofproto.unlinkExpirable { o with enclave := s2 } cr) hcl.ok.shadows hlook2
  have hout : backOut o cr none error = some (ruleDealloc (Ofproto.unlinkExpirable
      { o with enclave := s2.without r } cr) cr, some error) := by
    rw [backOut, oftableSubstituteRule, hrem, Option.bind_eq_bind, Option.bind_some, hdes]
    rfl
  have hnot : ∀ j, r ∉ s2.rules j := fun j hj => (hcl.mem_rules.mp hj).2 (List.mem_singleton.mpr rfl)
  refine ⟨_, _, _, hout, destroy_bridge hcl.ok hlive2 hnot, hcl.nTables, hcl.oClsRule, fun q => ?_,
    fun j q => ?_, fun j q => ?_, fun _ => rfl, by simp⟩
  · rw [← hcl.liveRule]
    exact destroy_liveRule hcl.ok.shadows hlive2
  · have hrules := hcl.mem_rules (j := j) (q := q)
    rw [List.mem_singleton] at hrules
    simp only [reduceCtorEq, and_false, false_or]
    exact hrules
  · have hgrouped := hcl.groupedIn j q
    rw [List.mem_singleton] at hgrouped
    simp only [reduceCtorEq, false_and, or_false]
    exact hgrouped

/-- The back-out with victim `v`: it takes the place of the new rule. -/
theorem backOut_some (h : BridgeOk (fun _ => True) o.enclave)
    (hlook : sgxRuleFromUtCr o.enclave cr = some r) (hcr : o.enclave.oClsRule r = cr)
    (htbl : (o.rule cr).tableId = i) {v : RuleId} (hv : o.enclave.LiveRule v)
    (hnot : ∀ j, v ∉ o.enclave.rules j) (htblv : (o.rule (o.enclave.oClsRule v)).tableId = i)
    (hvictim : replaceVictim o.enclave i v = some r) :
    ∃ s' l n, backOut o cr (some (o.enclave.oClsRule v)) error = some ({ o with
        enclave := s', expirable := l, nRandom := n, allocated := o.allocated.erase cr },
        some error) ∧
      TakenBack o cr i r (some v) s' l := by
  generalize hva : o.enclave.oClsRule v = va at *
  have hlookv : sgxRuleFromUtCr o.enclave va = some v := hva ▸ h.shadows.lookup_self hv
  obtain ⟨s1, h1, hplaced1⟩ := evgRemoveVictim_bridge (i := i) h hv hnot
  rw [hvictim, Option.map_some, hcr] at h1
  let o1 : Ofproto := { o with
    enclave := s1
    expirable := (o.expirable ++ if (o.rule va).mayExpire then [va] else []).erase cr }
  obtain ⟨s2, h2, hplaced⟩ := evgAddFlow_bridge (evgArgs o1 va) h (htblv ▸ hplaced1) hlookv
    hnot
  have hlook2 : sgxRuleFromUtCr s2 cr = some r := by
    rw [← hlook]
    unfold sgxRuleFromUtCr
    rw [hplaced.clsRules]
  have hlive2 := hplaced.ok.shadows.live_of_lookup hlook2
  obtain ⟨n, hadd⟩ := evictionGroupAddRule_eq (o := o1) h2
  have hrem : ecallEvgRemoveRule (replaceState o.enclave i v) i cr = some s1 := h1
  have hrep : oftableReplaceRule o va = some { o1 with enclave := s2, nRandom := n } := by
    rw [← hadd]
    cases hexp : (o.rule va).mayExpire <;>
      simp [oftableReplaceRule, hexp, Ofproto.linkExpirable, htblv,
        ecallOftableClassifierReplace_eq hlookv, hvictim, hcr, unlinkVictim,
        evictionGroupRemoveRule, Ofproto.unlinkExpirable, htbl, hrem, o1]
  have hdes := ofprotoRuleDestroy_eq (o := { o1 with enclave := s2, nRandom := n })
    hplaced.ok.shadows hlook2
  have htbl1 : (evgArgs o1 va).tableId = i := htblv
  rw [htbl1] at hplaced
  have hout : backOut o cr (some va) error = some (ruleDealloc
      { o1 with enclave := s2.without r, nRandom := n } cr, some error) := by
    rw [backOut, oftableSubstituteRule, hrep, Option.bind_eq_bind, Option.bind_some, hdes]
    rfl
  have hrules : ∀ j q, q ∈ s2.rules j ↔
      (j = i ∧ some v = some q) ∨ (q ∈ o.enclave.rules j ∧ q ≠ r) := by
    intro j q
    rw [hplaced.rules, hvictim]
    simp [eq_comm]
  have hnot2 : ∀ j, r ∉ s2.rules j := by
    intro j hj
    rcases (hrules j r).mp hj with ⟨-, heq⟩ | ⟨-, hne⟩
    · obtain rfl := Option.some.inj heq
      exact hnot i (replaceVictim_mem h.toEnclaveOk (hnot i) hvictim)
    · exact hne rfl
  refine ⟨_, _, _, hout, destroy_bridge hplaced.ok hlive2 hnot2, hplaced.nTables,
    hplaced.oClsRule, fun q => ?_, hrules, fun j q => ?_, by simp, ?_⟩
  · have hclose : o.enclave.LiveRule q ↔ s2.LiveRule q := by
      unfold Enclave.LiveRule
      rw [hplaced.clsRules]
    rw [hclose]
    exact destroy_liveRule hplaced.ok.shadows hlive2
  · have hgrouped := hplaced.groupedIn j q
    rw [hvictim] at hgrouped
    refine hgrouped.trans ?_
    simp only [evgArgs, o1, ne_eq, Option.some.injEq, eq_comm (a := r)]
    refine or_congr Iff.rfl ?_
    constructor
    · rintro ⟨hb, rfl, rfl⟩
      exact ⟨rfl, rfl, by rw [hva]; exact hb⟩
    · rintro ⟨rfl, rfl, hb⟩
      rw [hva] at hb
      exact ⟨hb, rfl, rfl⟩
  · intro w hw
    obtain rfl := Option.some.inj hw
    rw [hva]

end BackOut

/-! ## A failing call -/

/-- The arguments of `SGX_add_flow` for a flow at address `cr`. -/
def flowArgs (o : Ofproto) (fm : FlowMod) (new : NewRule) : AddFlowArgs :=
  addFlowArgs (allocRule o fm new) fm new.cr (addPriority 0 (o.random o.nRandom))

/-- The state after the back-out, against the state before the call. -/
structure BackedOut (o o' : Ofproto) (i : Nat) (V E : Option RuleId) : Prop where
  ok : BridgeOk (fun _ => True) o'.enclave
  enclaveTables : o'.enclave.nTables = o.enclave.nTables
  live : ∀ a, o'.enclave.Live a ↔ o.enclave.Live a
  oClsRule : ∀ q, o.enclave.LiveRule q → o'.enclave.oClsRule q = o.enclave.oClsRule q
  rules : ∀ j q, q ∈ o'.enclave.rules j ↔ q ∈ o.enclave.rules j ∧ E ≠ some q
  groupedIn : ∀ j q, o'.enclave.GroupedIn j q ↔
    (o.enclave.GroupedIn j q ∧ V ≠ some q ∧ E ≠ some q) ∨
    (V = some q ∧ j = i ∧ ecallIsEvictionFieldsEnabled o.enclave i = true ∧
      (o.rule (o.enclave.oClsRule q)).mayExpire = true)
  expirableNone : V = none → o'.expirable = o.expirable
  expirableSome : ∀ v, V = some v → o'.expirable = o.expirable.erase (o.enclave.oClsRule v) ++
    if (o.rule (o.enclave.oClsRule v)).mayExpire then [o.enclave.oClsRule v] else []
  allocated : o'.allocated = o.allocated
  tableId : ∀ a, o.enclave.Live a → (o'.rule a).tableId = (o.rule a).tableId
  ops : SameOps o o'

/-- State `o2` is the state `o` with the new rule in memory and on the list `expirable`, and
with the enclave's half of the call done. -/
structure FlowEntered (o o2 : Ofproto) (fm : FlowMod) (new : NewRule) (s' : Enclave)
    (victim : Option UtAddr) : Prop where
  enclave : o2.enclave = s'
  expirable : o2.expirable = (relinkExpirable (allocRule o fm new) new.cr victim).expirable
  rule : ∀ a, (o2.rule a).tableId = ((allocRule o fm new).rule a).tableId ∧
    (o2.rule a).mayExpire = ((allocRule o fm new).rule a).mayExpire
  allocated : o2.allocated = new.cr :: o.allocated
  ops : SameOps o o2

section Fail

variable {o o' o2 : Ofproto} {fm : FlowMod} {new : NewRule} {construct : Option Ofperr}
  {out : AddFlowOut} {cr : UtAddr} {s' : Enclave} {V E : Option RuleId}

/-- When `rule_construct` fails, the operation and its group are gone before the back-out
starts. -/
theorem operateAddFlow_failed (out : AddFlowOut) (hp : (o.rule cr).pending = none)
    (hg : o.nextGroup ∉ o.pending) (error : Ofperr) :
    ∃ o', operateAddFlow o cr out (some error) = backOut o' cr out.victim error ∧
      o'.enclave = o.enclave ∧ o'.expirable = o.expirable ∧ o'.allocated = o.allocated ∧
      SameOps o o' ∧ (∀ a, (o'.rule a).tableId = (o.rule a).tableId ∧
        (o'.rule a).mayExpire = (o.rule a).mayExpire) ∧ ∀ a, a ≠ cr → o'.rule a = o.rule a := by
  let o1 := (ofopgroupCreate o).1.addOperation o.nextGroup cr .add 0#32
  let o2 : Ofproto := { o1 with
    op := Function.update o1.op o.nextOp { o1.op o.nextOp with victim := out.victim } }
  let group := { o2.group o.nextGroup with nRunning := (o2.group o.nextGroup).nRunning - 1 }
  let o3 : Ofproto := { o2 with group := Function.update o2.group o.nextGroup group }
  let o4 := ofoperationDestroy o3 o.nextOp
  have hgroup : o4.group o.nextGroup = ⟨[], 0⟩ := by
    simp [o4, o3, group, o2, o1, ofoperationDestroy, Ofproto.addOperation, Ofproto.setPending,
      ofopgroupCreate]
  have hdrop : dropOperation o2 o.nextGroup o.nextOp
      = some { o4 with pending := o4.pending.erase o.nextGroup } := by
    show ofopgroupSubmit o4 o.nextGroup false = _
    simp [ofopgroupSubmit, ofopgroupComplete, hgroup]
  have hcreate : ofoperationCreate (ofopgroupCreate o).1 o.nextGroup cr .add none
      = some (o1, o.nextOp) := by
    simp [ofoperationCreate, ofopgroupCreate, hp, o1]
  refine ⟨{ o4 with pending := o4.pending.erase o.nextGroup }, ?_, rfl, rfl, rfl,
    ⟨rfl, List.erase_of_not_mem hg, Nat.le_succ _, Nat.le_succ _, fun k hk => ?_, fun g hlt => ?_⟩,
    fun a => ?_, fun a ha => ?_⟩
  · show (ofoperationCreate (ofopgroupCreate o).1 o.nextGroup cr .add none).bind _ = _
    rw [hcreate, Option.bind_some]
    show (dropOperation o2 o.nextGroup o.nextOp).bind _ = _
    rw [hdrop]
    rfl
  · simp [o4, o3, o2, o1, ofoperationDestroy, Ofproto.addOperation, Ofproto.setPending,
      ofopgroupCreate, Nat.ne_of_lt hk]
  · simp [o4, o3, o2, o1, ofoperationDestroy, Ofproto.addOperation, Ofproto.setPending,
      ofopgroupCreate, Nat.ne_of_lt hlt]
  · have h4 := setPending_rule o3 (o3.op o.nextOp).rule a none
    have h1 := setPending_rule (ofopgroupCreate o).1 cr a (some o.nextOp)
    exact ⟨h4.1.trans h1.1, h4.2.trans h1.2⟩
  · simp [o4, o3, o2, o1, ofoperationDestroy, Ofproto.addOperation, Ofproto.setPending,
      ofopgroupCreate, ha]

/-- Taking the new rule off the list again. -/
theorem erase_relinked {l : List UtAddr} {a b : UtAddr} (ha : a ∉ l) (hab : b ≠ a) (c d : Bool) :
    (((if c then l ++ [a] else l).erase b) ++ if d then [b] else []).erase a
      = l.erase b ++ if d then [b] else [] := by
  have hal : a ∉ l.erase b := fun hmem => ha (List.mem_of_mem_erase hmem)
  have hb : (if c then l ++ [a] else l).erase b = l.erase b ++ if c then [a] else [] := by
    cases c with
    | false => simp
    | true =>
      rw [if_pos rfl, if_pos rfl, List.erase_append]
      split
      · rfl
      · rename_i hbl
        rw [List.erase_of_not_mem hbl, List.erase_of_not_mem (by simpa using hab)]
  rw [hb]
  cases c <;> cases d <;>
    simp [List.erase_append, hal, List.erase_of_not_mem, Ne.symm hab]

/-- A live rule does not have the address of the new one. -/
theorem Enclave.NewAddr.ne {s : Enclave} (hnew : s.NewAddr cr) {a : UtAddr} (ha : s.Live a) :
    a ≠ cr := by
  rintro rfl
  exact hnew a ha rfl

/-- The new shadow in the enclave, by its address. -/
theorem FlowAdded.outcome {args : AddFlowArgs} (h : BridgeOk (fun _ => True) o.enclave)
    (hadd : FlowAdded (fun _ => True) o.enclave args s' out V E) :
    (∀ q, s'.LiveRule q ↔ q = o.enclave.nextRule ∨ o.enclave.LiveRule q) ∧
    s'.oClsRule o.enclave.nextRule = args.cr ∧
    ∀ q, o.enclave.LiveRule q → s'.oClsRule q = o.enclave.oClsRule q := by
  refine ⟨fun q => ?_, ?_, fun q hq => ?_⟩
  · unfold Enclave.LiveRule
    rw [hadd.clsRules]
    exact ecallClsRuleInit_liveRule
  · rw [hadd.oClsRule]
    exact ecallClsRuleInit_oClsRule_self
  · rw [hadd.oClsRule]
    exact ecallClsRuleInit_oClsRule (Nat.ne_of_lt (h.shadows.rule_lt hq))

theorem FlowAdded.live {args : AddFlowArgs} (h : BridgeOk (fun _ => True) o.enclave)
    (hadd : FlowAdded (fun _ => True) o.enclave args s' out V E) (a : UtAddr) :
    s'.Live a ↔ a = args.cr ∨ o.enclave.Live a := by
  obtain ⟨hlive, hcr, haddr⟩ := hadd.outcome h
  constructor
  · rintro ⟨q, hq, rfl⟩
    rcases (hlive q).mp hq with rfl | hq
    · exact .inl hcr
    · exact .inr ⟨q, hq, (haddr q hq).symm⟩
  · rintro (rfl | ⟨q, hq, rfl⟩)
    · exact ⟨_, (hlive _).mpr (.inl rfl), hcr⟩
    · exact ⟨q, (hlive q).mpr (.inr hq), haddr q hq⟩

/-- An installed rule is the new one or was installed before and is not the victim. -/
theorem FlowAdded.installed {args : AddFlowArgs} (h : BridgeOk (fun _ => True) o.enclave)
    (hadd : FlowAdded (fun _ => True) o.enclave args s' out V E) {j : Nat} {a : UtAddr}
    (ha : s'.Installed j a) :
    (j = args.tableId ∧ a = args.cr) ∨ (o.enclave.Installed j a ∧ out.victim ≠ some a) := by
  obtain ⟨hlive, hcr, haddr⟩ := hadd.outcome h
  obtain ⟨q, -, rfl, hmem⟩ := ha
  rcases (hadd.rules j q).mp hmem with ⟨rfl, rfl⟩ | ⟨hq, hqV, -⟩
  · exact .inl ⟨rfl, hcr⟩
  · have hlq := h.live j q hq
    rw [haddr q hlq]
    refine .inr ⟨⟨q, hlq, rfl, hq⟩, fun hv => hqV ?_⟩
    rw [hadd.outVictim] at hv
    obtain ⟨v, rfl, heq⟩ := Option.map_eq_some_iff.mp hv
    have hlv := h.live _ v ((hadd.victim v).mp rfl).1
    rw [h.shadows.eq_of_oClsRule hlv hlq heq]

theorem FlowAdded.lookup (h : BridgeOk (fun _ => True) o.enclave)
    (hnew : o.enclave.NewAddr new.cr)
    (hadd : FlowAdded (fun _ => True) o.enclave (flowArgs o fm new) s' out V E) :
    sgxRuleFromUtCr s' new.cr = some o.enclave.nextRule := by
  have hinit := ecallClsRuleInit_lookup (m := fm.match) (p := fm.priority) h.shadows hnew
  rw [← hinit]
  unfold sgxRuleFromUtCr
  rw [hadd.clsRules]
  rfl

/-- The victim of the new rule, as the back-out sees it. -/
theorem FlowAdded.victim_back {v : RuleId} (h : BridgeOk (fun _ => True) o.enclave)
    (hadd : FlowAdded (fun _ => True) o.enclave (flowArgs o fm new) s' out (some v) E) :
    s'.LiveRule v ∧ (∀ j, v ∉ s'.rules j) ∧
      replaceVictim s' fm.table v = some o.enclave.nextRule := by
  obtain ⟨hv, hmatch, hprio⟩ := (hadd.victim v).mp rfl
  have hlive := h.live _ v hv
  have hvn : v ≠ o.enclave.nextRule := Nat.ne_of_lt (h.shadows.rule_lt hlive)
  have hnot : ∀ j, v ∉ s'.rules j := by
    intro j hj
    rcases (hadd.rules j v).mp hj with ⟨-, heq⟩ | ⟨-, hne, -⟩
    · exact hvn heq
    · exact hne rfl
  refine ⟨((hadd.outcome h).1 v).mpr (.inr hlive), hnot, ?_⟩
  refine (replaceVictim_eq_some hadd.ok.toEnclaveOk (hnot _)).mpr
    ⟨(hadd.rules _ _).mpr (.inl ⟨rfl, rfl⟩), ?_, ?_⟩
  · rw [hadd.newRule.1, (hadd.store v hlive).1]
    exact hmatch.symm
  · rw [hadd.newRule.2, (hadd.store v hlive).2]
    exact hprio.symm

/-- The back-out returns, and what it has done to the tables. -/
theorem backOut_takenBack (h : Sane o) (hnew : o.enclave.NewAddr new.cr)
    (hadd : FlowAdded (fun _ => True) o.enclave (flowArgs o fm new) s' out V E)
    (hent : FlowEntered o o2 fm new s' out.victim) (error : Ofperr) :
    ∃ s2 l n, backOut o2 new.cr out.victim error = some ({ o2 with
        enclave := s2, expirable := l, nRandom := n, allocated := o2.allocated.erase new.cr },
        some error) ∧
      TakenBack o2 new.cr fm.table o.enclave.nextRule V s2 l := by
  obtain ⟨rfl, -, hrule, -, -⟩ := hent
  have hlook := hadd.lookup h.enclave hnew
  have htbl : (o2.rule new.cr).tableId = fm.table := by
    rw [(hrule new.cr).1]
    simp [allocRule]
  cases V with
  | none =>
    have hvic : out.victim = none := hadd.outVictim
    rw [hvic]
    exact backOut_none hadd.ok hlook ((hadd.rules _ _).mpr (.inl ⟨rfl, rfl⟩)) htbl
  | some v =>
    obtain ⟨hlive2, hnot2, hback⟩ := hadd.victim_back h.enclave
    have hv := ((hadd.victim v).mp rfl).1
    have hlive := h.enclave.live _ v hv
    obtain ⟨-, hcr, haddr⟩ := hadd.outcome h.enclave
    have hvic : out.victim = some (o2.enclave.oClsRule v) := by
      rw [hadd.outVictim, haddr v hlive]
      rfl
    rw [hvic]
    refine backOut_some hadd.ok hlook hcr htbl hlive2 hnot2 ?_ hback
    rw [haddr v hlive, (hrule _).1]
    simp only [allocRule, Function.update_of_ne (hnew.ne ⟨v, hlive, rfl⟩)]
    exact (h.tableId _ _ (h.enclave.installed_self hv)).2

/-- Without the new rule the tables have what is left of the old rules. -/
theorem FlowAdded.rules_old (h : BridgeOk (fun _ => True) o.enclave)
    (hadd : FlowAdded (fun _ => True) o.enclave (flowArgs o fm new) s' out V E) {j : Nat}
    {q : RuleId} : q ∈ s'.rules j ∧ q ≠ o.enclave.nextRule ↔
      q ∈ o.enclave.rules j ∧ V ≠ some q ∧ E ≠ some q := by
  have hfresh := h.toEnclaveOk.nextRule_not_mem j
  rw [hadd.rules]
  constructor
  · rintro ⟨⟨-, rfl⟩ | hq, hne⟩
    · exact absurd rfl hne
    · exact hq
  · exact fun hq => ⟨.inr hq, ne_of_mem_of_not_mem hq.1 hfresh⟩

/-- So do the eviction groups. -/
theorem FlowAdded.groupedIn_old (h : BridgeOk (fun _ => True) o.enclave)
    (hadd : FlowAdded (fun _ => True) o.enclave (flowArgs o fm new) s' out V E) {j : Nat}
    {q : RuleId} : s'.GroupedIn j q ∧ q ≠ o.enclave.nextRule ↔
      o.enclave.GroupedIn j q ∧ V ≠ some q ∧ E ≠ some q := by
  have hfresh := h.toEnclaveOk.nextRule_not_mem j
  rw [hadd.groupedIn]
  constructor
  · rintro ⟨hq | ⟨-, -, rfl⟩, hne⟩
    · exact hq
    · exact absurd rfl hne
  · exact fun hq => ⟨.inl hq, ne_of_mem_of_not_mem (h.installed j q hq.1) hfresh⟩

/-- The victim, in the state before the call. -/
theorem FlowEntered.victim (h : Sane o) (hnew : o.enclave.NewAddr new.cr)
    (hadd : FlowAdded (fun _ => True) o.enclave (flowArgs o fm new) s' out V E)
    (hent : FlowEntered o o2 fm new s' out.victim) {v : RuleId} (hV : V = some v) :
    v ∈ o.enclave.rules fm.table ∧ out.victim = some (o.enclave.oClsRule v) ∧
      o2.enclave.oClsRule v = o.enclave.oClsRule v ∧ o.enclave.oClsRule v ≠ new.cr ∧
      (o2.rule (o.enclave.oClsRule v)).mayExpire =
        (o.rule (o.enclave.oClsRule v)).mayExpire := by
  have hv := ((hadd.victim v).mp hV).1
  have hlive := h.enclave.live _ v hv
  have hne := hnew.ne ⟨v, hlive, rfl⟩
  obtain ⟨-, -, haddr⟩ := hadd.outcome h.enclave
  refine ⟨hv, by rw [hadd.outVictim, hV]; rfl, by rw [hent.enclave]; exact haddr v hlive, hne, ?_⟩
  rw [(hent.rule _).2]
  simp only [allocRule, Function.update_of_ne hne]

/-- The shadows that are live are the old ones again. -/
theorem TakenBack.liveRule_old {s2 : Enclave} {i : Nat} {l : List UtAddr}
    (h : BridgeOk (fun _ => True) o.enclave)
    (hadd : FlowAdded (fun _ => True) o.enclave (flowArgs o fm new) o2.enclave out V E)
    (htb : TakenBack o2 new.cr i o.enclave.nextRule V s2 l) (q : RuleId) :
    s2.LiveRule q ↔ o.enclave.LiveRule q := by
  rw [htb.liveRule, (hadd.outcome h).1]
  constructor
  · rintro ⟨hne, hq | hq⟩
    · exact absurd hq hne
    · exact hq
  · exact fun hq => ⟨Nat.ne_of_lt (h.shadows.rule_lt hq), .inr hq⟩

/-- The list `expirable` has the victim at its end. -/
theorem TakenBack.expirable {s2 : Enclave} {l : List UtAddr} (h : Sane o)
    (hnew : o.enclave.NewAddr new.cr)
    (hadd : FlowAdded (fun _ => True) o.enclave (flowArgs o fm new) s' out V E)
    (hent : FlowEntered o o2 fm new s' out.victim)
    (htb : TakenBack o2 new.cr fm.table o.enclave.nextRule V s2 l) :
    (V = none → l = o.expirable) ∧ ∀ v, V = some v → l = o.expirable.erase (o.enclave.oClsRule v) ++
      if (o.rule (o.enclave.oClsRule v)).mayExpire then [o.enclave.oClsRule v] else [] := by
  have hnotExp := SaneWith.not_expirable h hnew
  constructor
  · intro hV
    have hvic : out.victim = none := by rw [hadd.outVictim, hV]; rfl
    rw [htb.expirableNone hV, hent.expirable, hvic]
    simp only [relinkExpirable, Option.elim_none]
    split
    · simp [allocRule, List.erase_append, hnotExp]
    · exact List.erase_of_not_mem hnotExp
  · intro v hV
    obtain ⟨-, hvic, heq, hne, hmay⟩ := hent.victim h hnew hadd hV
    rw [htb.expirableSome v hV, hent.expirable, hvic, heq, hmay]
    exact erase_relinked hnotExp hne _ _

/-- The back-out of a failing call. -/
theorem backOut_backedOut (h : Sane o) (hnew : o.enclave.NewAddr new.cr)
    (hadd : FlowAdded (fun _ => True) o.enclave (flowArgs o fm new) s' out V E)
    (hent : FlowEntered o o2 fm new s' out.victim) (error : Ofperr) :
    ∃ o', backOut o2 new.cr out.victim error = some (o', some error) ∧
      BackedOut o o' fm.table V E := by
  obtain ⟨s2, l, n, hout, htb⟩ := backOut_takenBack h hnew hadd hent error
  refine ⟨_, hout, ?_⟩
  have hexp := htb.expirable h hnew hadd hent
  have hvictim := fun {v} (hV : V = some v) => hent.victim h hnew hadd hV
  obtain ⟨rfl, -, hrule, halloc, hops⟩ := hent
  have hliveRule := htb.liveRule_old h.enclave hadd
  have haddr : ∀ q, o.enclave.LiveRule q → s2.oClsRule q = o.enclave.oClsRule q := by
    intro q hq
    rw [htb.oClsRule]
    exact (hadd.outcome h.enclave).2.2 q hq
  have hen : ecallIsEvictionFieldsEnabled o2.enclave fm.table
      = ecallIsEvictionFieldsEnabled o.enclave fm.table := by
    simp only [ecallIsEvictionFieldsEnabled, hadd.fields fm.table]
  refine
    { ok := htb.ok
      enclaveTables := htb.nTables.trans hadd.nTables
      live := fun a => ?_
      oClsRule := haddr
      rules := fun j q => ?_
      groupedIn := fun j q => ?_
      expirableNone := hexp.1
      expirableSome := hexp.2
      allocated := by simp [halloc]
      tableId := fun a ha => ?_
      ops := ⟨hops.nTables, hops.pending, hops.nextOp, hops.nextGroup, hops.op, hops.group⟩ }
  · constructor
    · rintro ⟨q, hq, rfl⟩
      have hq := (hliveRule q).mp hq
      exact ⟨q, hq, (haddr q hq).symm⟩
    · rintro ⟨q, hq, rfl⟩
      exact ⟨q, (hliveRule q).mpr hq, haddr q hq⟩
  · rw [htb.rules, hadd.rules_old h.enclave]
    constructor
    · rintro (⟨rfl, hV⟩ | ⟨hq, -, hqE⟩)
      · exact ⟨(hvictim hV).1, fun hE => (hadd.evicted q hE).2 hV⟩
      · exact ⟨hq, hqE⟩
    · rintro ⟨hq, hqE⟩
      by_cases hV : V = some q
      · exact .inl ⟨h.enclave.disjoint j _ q hq (hvictim hV).1, hV⟩
      · exact .inr ⟨hq, hV, hqE⟩
  · rw [htb.groupedIn, hadd.groupedIn_old h.enclave, hen, Bool.and_eq_true]
    refine or_congr_right (and_congr_right fun hV => ?_)
    obtain ⟨-, -, heq, -, hmay⟩ := hvictim hV
    rw [heq, hmay]
  · rw [(hrule a).1]
    simp only [allocRule, Function.update_of_ne (hnew.ne ha)]

/-- A rule that is installed after the back-out was installed before. -/
theorem BackedOut.installed {i : Nat} (h : Sane o) (hb : BackedOut o o' i V E) {j : Nat}
    {a : UtAddr} (ha : o'.enclave.Installed j a) : o.enclave.Installed j a := by
  obtain ⟨q, -, rfl, hmem⟩ := ha
  have hq := ((hb.rules j q).mp hmem).1
  have hlive := h.enclave.live j q hq
  exact ⟨q, hlive, (hb.oClsRule q hlive).symm, hq⟩

theorem BackedOut.sane {i : Nat} (h : Sane o) (hb : BackedOut o o' i V E)
    (hV : ∀ v, V = some v → v ∈ o.enclave.rules i) : Sane o' := by
  -- the list `expirable` is the old one, with the victim moved to its end
  have hlist : o'.expirable.Nodup ∧ ∀ a ∈ o'.expirable, a ∈ o.expirable ∨
      ∃ i, o.enclave.Installed i a := by
    cases hVv : V with
    | none =>
      rw [hb.expirableNone hVv]
      exact ⟨h.expirable, fun a ha => .inl ha⟩
    | some v =>
      have hv := h.enclave.installed_self (hV v hVv)
      rw [hb.expirableSome v hVv]
      split
      · refine ⟨?_, fun a ha => ?_⟩
        · rw [List.nodup_append]
          refine ⟨h.expirable.erase _, List.nodup_singleton _, fun a ha b hb' hab => ?_⟩
          rw [List.mem_singleton.mp hb'] at hab
          exact (h.expirable.mem_erase_iff.mp ha).1 hab
        · rcases List.mem_append.mp ha with ha | ha
          · exact .inl (List.mem_of_mem_erase ha)
          · rw [List.mem_singleton.mp ha]
            exact .inr ⟨i, hv⟩
      · rw [List.append_nil]
        exact ⟨h.expirable.erase _, fun a ha => .inl (List.mem_of_mem_erase ha)⟩
  refine h.keep hb.ops hb.ok hb.enclaveTables (fun j a ha => ?_) hlist.1 (fun a ha => ?_)
    (fun a ha => ?_)
  · have ha' := hb.installed h ha
    rw [hb.tableId a ha'.live]
    exact h.tableId j a ha'
  · rw [hb.live]
    rcases hlist.2 a ha with ha | ⟨i, hi⟩
    · exact h.onList a ha
    · exact hi.live
  · obtain ⟨b1, b2, b3⟩ := h.inFlight.victim a ha
    refine ⟨(hb.live a).mpr b1, fun j hj => b2 j (hb.installed h hj), fun hmem => ?_⟩
    rcases hlist.2 a hmem with hmem | ⟨i, hi⟩
    · exact b3 hmem
    · exact b2 i hi

theorem BackedOut.tracks {i : Nat} (hb : BackedOut o o' i V E) (ht : Tracks o) : Tracks o' := by
  refine ⟨fun a => ?_, ?_⟩
  · rw [hb.live, hb.allocated]
    exact ht.live a
  · rw [hb.allocated]
    exact ht.nodup

end Fail

end OvsSgx
