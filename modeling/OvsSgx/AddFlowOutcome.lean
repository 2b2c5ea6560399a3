/-
OvsSgx.AddFlowOutcome — how `add_flow` ends.

A call of `add_flow` finds no table, has its flow refused, is backed out,
or starts an operation for the new rule and one for the evicted rule. In
all cases the invariant of the bridge holds again, and the shadows in the
enclave go with the memory of the rules unless an eviction is completed at
once.
-/
import OvsSgx.AddFlowBackOut

namespace OvsSgx

/-! ## A call that succeeds -/

/-- The operations of `add_flow` have been started: one for the new rule, and one for the
evicted rule if there is one. -/
structure FlowStarted (o o' : Ofproto) (out : AddFlowOut) : Prop where
  ops : SameOps o o'
  enclave : o'.enclave = o.enclave
  allocated : o'.allocated = o.allocated
  tableId : ∀ a, (o'.rule a).tableId = (o.rule a).tableId
  expirable : o'.expirable = out.evict.elim o.expirable o.expirable.erase
  nextGroup : o.nextGroup < o'.nextGroup
  lt : ∀ k ∈ (o'.group o.nextGroup).ops, k < o'.nextOp
  error : ∀ k ∈ (o'.group o.nextGroup).ops, (o'.op k).error = none
  victims : o'.victims (o'.group o.nextGroup).ops = out.victim.toList
  running : o.clogged = true → 0 < (o'.group o.nextGroup).nRunning
  adds : out.evict = none → ∀ k ∈ (o'.group o.nextGroup).ops, (o'.op k).type ≠ .delete

section Succeed

variable {o o' o2 : Ofproto} {fm : FlowMod} {new : NewRule} {construct : Option Ofperr}
  {out : AddFlowOut} {cr : UtAddr} {s' : Enclave} {V E : Option RuleId} {error : Option Ofperr}

/-- The state with the operation for the new rule, in a group of its own. -/
def addStarted (o : Ofproto) (cr : UtAddr) (victim : Option UtAddr) : Ofproto :=
  { o with
    rule := Function.update o.rule cr { o.rule cr with pending := some o.nextOp }
    op := Function.update o.op o.nextOp ⟨o.nextGroup, cr, .add, 0#32, victim, none⟩
    nextOp := o.nextOp + 1
    group := Function.update o.group o.nextGroup ⟨[o.nextOp], 1⟩
    nextGroup := o.nextGroup + 1
    log := o.log ++ [.create cr .add 0#32] }

/-- The operation for the new rule is created and gets its victim. -/
theorem ofoperationCreate_add (hp : (o.rule cr).pending = none) (victim : Option UtAddr) :
    ∃ o1, ofoperationCreate (ofopgroupCreate o).1 o.nextGroup cr .add none = some (o1, o.nextOp) ∧
      { o1 with op := Function.update o1.op o.nextOp { o1.op o.nextOp with victim := victim } }
        = addStarted o cr victim := by
  refine ⟨(ofopgroupCreate o).1.addOperation o.nextGroup cr .add 0#32, ?_, ?_⟩
  · simp [ofoperationCreate, ofopgroupCreate, hp]
  · simp [ofopgroupCreate, Ofproto.addOperation, Ofproto.setPending, addStarted]

theorem operateAddFlow_eq (hp : (o.rule cr).pending = none) :
    operateAddFlow o cr out none = (completeOperation (addStarted o cr out.victim) cr).bind
      fun o2 => (deleteEvicted o2 o.nextGroup out).bind fun o3 =>
        (ofopgroupSubmit o3 o.nextGroup false).map fun o4 => (o4, none) := by
  obtain ⟨o1, hcreate, hstart⟩ := ofoperationCreate_add hp out.victim
  rw [← hstart]
  show (ofoperationCreate (ofopgroupCreate o).1 o.nextGroup cr .add none).bind _ = _
  rw [hcreate, Option.bind_some]
  simp only [Option.map_eq_bind]
  rfl

/-- The operation for the new rule runs only if the provider is clogged. -/
theorem completeOperation_addStarted {victim : Option UtAddr} (hg : o.nextGroup ∉ o.pending)
    (hs : completeOperation (addStarted o cr victim) cr = some o2) :
    ∃ c, o2 = { addStarted o cr victim with
      group := Function.update o.group o.nextGroup ⟨[o.nextOp], if o.clogged then 1 else 0⟩
      completions := c } := by
  have hpend : ((addStarted o cr victim).rule cr).pending = some o.nextOp := by simp [addStarted]
  have hclog1 : (addStarted o cr victim).clogged = o.clogged := rfl
  rw [completeOperation, hpend, Option.bind_eq_bind, Option.bind_some, hclog1] at hs
  cases hclog : o.clogged with
  | true =>
    rw [if_pos hclog, Option.some.injEq] at hs
    exact ⟨_, hs.symm⟩
  | false =>
    have hop : (addStarted o cr victim).op o.nextOp
        = ⟨o.nextGroup, cr, .add, 0#32, victim, none⟩ := by simp [addStarted]
    have hgroup : (addStarted o cr victim).group o.nextGroup = ⟨[o.nextOp], 1⟩ := by
      simp [addStarted]
    have hcomp := ofoperationComplete_unsubmitted (o := addStarted o cr victim) (k := o.nextOp)
      (by rw [hop]; exact hpend) (by rw [hop, hgroup]; exact Nat.succ_pos _)
      (by rw [hop]; exact hg)
    rw [if_neg (by simp [hclog]), hcomp, Option.some.injEq, hop, hgroup] at hs
    refine ⟨o.completions, hs.symm.trans ?_⟩
    simp [addStarted]

/-- The deletion of the evicted rule, which had no operation pending. -/
theorem deleteEvicted_started {g : GroupId} {e : UtAddr} (hev : out.evict = some e)
    (hg : g ∉ o.pending) (hs : deleteEvicted o g out = some o') :
    (o.rule e).pending = none ∧ Started g o o' (e, out.evictRuleHash) := by
  simp only [deleteEvicted, hev] at hs
  have hp : (o.rule e).pending = none := by
    by_contra hne
    rw [startDeletion_pending (e := (e, out.evictRuleHash)) hne] at hs
    cases hs
  obtain ⟨o3, h3, hst⟩ := startDeletion_started (e := (e, out.evictRuleHash)) hp hg
  obtain rfl := Option.some.inj (hs.symm.trans h3)
  exact ⟨hp, hst⟩

/-- The new operations, and the rules that they are pending on. -/
structure FlowOps (o o' : Ofproto) (cr : UtAddr) (out : AddFlowOut) : Prop where
  ops : (o'.group o.nextGroup).ops = o.nextOp :: out.evict.toList.map fun _ => o.nextOp + 1
  add : o'.op o.nextOp = ⟨o.nextGroup, cr, .add, 0#32, out.victim, none⟩
  delete : ∀ e, out.evict = some e →
    o'.op (o.nextOp + 1) = ⟨o.nextGroup, e, .delete, out.evictRuleHash, none, none⟩ ∧
      e ≠ cr ∧ (o.rule e).pending = none
  pending : (o'.rule cr).pending = some o.nextOp
  rule : ∀ b, b ≠ cr → out.evict ≠ some b → o'.rule b = o.rule b

theorem addStarted_flowOps (hg : o.nextGroup ∉ o.pending)
    (h2 : completeOperation (addStarted o cr out.victim) cr = some o2)
    (h3 : deleteEvicted o2 o.nextGroup out = some o') : FlowOps o o' cr out := by
  obtain ⟨c, rfl⟩ := completeOperation_addStarted hg h2
  cases hev : out.evict with
  | none =>
    simp only [deleteEvicted, hev, Option.some.injEq] at h3
    subst h3
    exact ⟨by simp [hev], by simp [addStarted], by simp [hev], by simp [addStarted],
      fun b hb _ => Function.update_of_ne hb _ _⟩
  | some e =>
    obtain ⟨hp, hst⟩ := deleteEvicted_started hev (by exact hg) h3
    have hop : ∀ k, o'.op k = Function.update (addStarted o cr out.victim).op (o.nextOp + 1)
        ⟨o.nextGroup, e, .delete, out.evictRuleHash, none, none⟩ k := fun k => by rw [hst.op]; rfl
    have hecr : e ≠ cr := by
      rintro rfl
      simp [addStarted] at hp
    refine ⟨?_, ?_, fun e' he => ?_, ?_, fun b hb hbe => ?_⟩
    · rw [hst.group, Function.update_self, hev]
      simp [addStarted]
    · rw [hop, Function.update_of_ne (Nat.ne_of_lt (Nat.lt_succ_self _))]
      simp [addStarted]
    · obtain rfl := Option.some.inj (hev.symm.trans he)
      rw [hop, Function.update_self]
      exact ⟨rfl, hecr, by simpa [addStarted, hecr] using hp⟩
    · rw [hst.rule, Function.update_of_ne (Ne.symm hecr)]
      simp [addStarted]
    · have hbe' : b ≠ e := fun heq => hbe (by rw [hev, heq])
      rw [hst.rule, Function.update_of_ne hbe']
      exact Function.update_of_ne hb _ _

/-- An operation of the group is the addition, or the deletion of the evicted rule. -/
theorem FlowOps.mem_ops (h : FlowOps o o' cr out) {k : OpId}
    (hk : k ∈ (o'.group o.nextGroup).ops) :
    (k = o.nextOp ∧ (o'.op k).rule = cr) ∨
      (k = o.nextOp + 1 ∧ (o'.op k).type = .delete ∧ (o'.op k).rule ≠ cr ∧
        out.evict = some (o'.op k).rule) := by
  rw [h.ops] at hk
  obtain rfl | hk := List.mem_cons.mp hk
  · exact .inl ⟨rfl, by rw [h.add]⟩
  · obtain ⟨e, he, rfl⟩ := List.mem_map.mp hk
    have hev := Option.mem_toList.mp he
    obtain ⟨hop, hne, -⟩ := h.delete e hev
    exact .inr ⟨rfl, by rw [hop], by rw [hop]; exact hne, by rw [hop]; exact hev⟩

theorem addStarted_flowStarted (hg : o.nextGroup ∉ o.pending)
    (h2 : completeOperation (addStarted o cr out.victim) cr = some o2)
    (h3 : deleteEvicted o2 o.nextGroup out = some o') : FlowStarted o o' out := by
  have hnew := addStarted_flowOps hg h2 h3
  obtain ⟨c, rfl⟩ := completeOperation_addStarted hg h2
  cases hev : out.evict with
  | none =>
    simp only [deleteEvicted, hev, Option.some.injEq] at h3
    subst h3
    refine ⟨⟨rfl, rfl, Nat.le_succ _, Nat.le_succ _, fun k hk => ?_, fun g hlt => ?_⟩, rfl, rfl,
      fun a => (setPending_rule o cr a (some o.nextOp)).1, by rw [hev]; rfl, Nat.lt_succ_self _, ?_,
      ?_, ?_, ?_, ?_⟩
    · simp [addStarted, Nat.ne_of_lt hk]
    · simp [Nat.ne_of_lt hlt]
    · simp [addStarted]
    · simp [addStarted]
    · cases out.victim <;> simp [Ofproto.victims, addStarted]
    · intro hclog
      simp [hclog]
    · simp [addStarted]
  | some e =>
    obtain ⟨-, hst⟩ := deleteEvicted_started hev (by exact hg) h3
    have hops : (o'.group o.nextGroup).ops = [o.nextOp, o.nextOp + 1] := by rw [hnew.ops, hev]; rfl
    have hop := hnew.add
    have hop' := (hnew.delete e hev).1
    refine ⟨⟨hst.nTables, hst.pending, ?_, ?_, fun k hk => ?_, fun g hlt => ?_⟩, hst.enclave,
      hst.allocated, fun a => ?_, ?_, ?_, ?_, ?_, ?_, fun hclog => ?_, by simp [hev]⟩
    · rw [hst.nextOp]
      exact Nat.le_add_right _ 2
    · rw [hst.nextGroup]
      exact Nat.le_succ _
    · rw [hst.op]
      refine (Function.update_of_ne (Nat.ne_of_lt (Nat.lt_succ_of_lt hk)) _ _).trans ?_
      simp [addStarted, Nat.ne_of_lt hk]
    · rw [hst.group, Function.update_of_ne (Nat.ne_of_lt hlt)]
      simp [Nat.ne_of_lt hlt]
    · exact (hst.tableId a).trans (setPending_rule o cr a (some o.nextOp)).1
    · rw [hst.expirable, hev]
      rfl
    · rw [hst.nextGroup]
      exact Nat.lt_succ_self _
    · rw [hops, hst.nextOp]
      intro k hk
      rcases List.mem_pair.mp hk with rfl | rfl
      · exact Nat.lt_succ_of_lt (Nat.lt_succ_self _)
      · exact Nat.lt_succ_self _
    · rw [hops]
      intro k hk
      rcases List.mem_pair.mp hk with rfl | rfl
      · rw [hop]
      · rw [hop']
    · rw [hops]
      cases hv : out.victim <;> simp [Ofproto.victims, hop, hop', hv]
    · have hclog2 : o.clogged = true := hclog
      rw [hst.group, Function.update_self]
      simp [addStarted, hclog2]

/-- The operations of a call that is not backed out. -/
theorem operateAddFlow_started (hp : (o.rule cr).pending = none) (hg : o.nextGroup ∉ o.pending)
    (hs : operateAddFlow o cr out none = some (o', error)) :
    ∃ o3, FlowStarted o o3 out ∧ ofopgroupSubmit o3 o.nextGroup false = some o' := by
  rw [operateAddFlow_eq hp, Option.bind_eq_some_iff] at hs
  obtain ⟨o2, h2, hs⟩ := hs
  obtain ⟨o3, h3, hs⟩ := Option.bind_eq_some_iff.mp hs
  obtain ⟨o4, h4, heq⟩ := Option.map_eq_some_iff.mp hs
  cases heq
  exact ⟨o3, addStarted_flowStarted hg h2 h3, h4⟩

/-- The list `expirable` with the new rule and without its victim. -/
theorem mem_relinked (fm : FlowMod) (hexp : o.expirable.Nodup) (hnew : new.cr ∉ o.expirable)
    (victim : Option UtAddr) :
    (relinkExpirable (allocRule o fm new) new.cr victim).expirable.Nodup ∧
    ∀ a ∈ (relinkExpirable (allocRule o fm new) new.cr victim).expirable,
      (a = new.cr ∨ a ∈ o.expirable) ∧ victim ≠ some a := by
  have hlist : ∀ b : Bool, (if b then o.expirable ++ [new.cr] else o.expirable).Nodup ∧
      ∀ a ∈ (if b then o.expirable ++ [new.cr] else o.expirable), a = new.cr ∨ a ∈ o.expirable := by
    intro b
    cases b with
    | false => exact ⟨hexp, fun a ha => .inr ha⟩
    | true =>
      refine ⟨List.nodup_append.mpr ⟨hexp, List.nodup_singleton _, fun a ha b hb hab => ?_⟩,
        fun a ha => ?_⟩
      · rw [List.mem_singleton.mp hb] at hab
        exact hnew (hab ▸ ha)
      · rcases List.mem_append.mp ha with ha | ha
        · exact .inr ha
        · exact .inl (List.mem_singleton.mp ha)
  obtain ⟨hnodup, hmem⟩ := hlist ((allocRule o fm new).rule new.cr).mayExpire
  cases victim with
  | none => exact ⟨hnodup, fun a ha => ⟨hmem a ha, by simp⟩⟩
  | some v =>
    refine ⟨hnodup.erase v, fun a ha => ⟨hmem a (List.mem_of_mem_erase ha), ?_⟩⟩
    rintro ⟨rfl⟩
    exact (hnodup.mem_erase_iff.mp ha).1 rfl

/-- The victim of a call was installed before. -/
theorem FlowAdded.victim_installed (h : Sane o)
    (hadd : FlowAdded (fun _ => True) o.enclave (flowArgs o fm new) s' out V E) {a : UtAddr}
    (ha : a ∈ out.victim.toList) : ∃ i, o.enclave.Installed i a := by
  rw [Option.mem_toList, hadd.outVictim] at ha
  obtain ⟨v, hv, rfl⟩ := Option.map_eq_some_iff.mp ha
  exact ⟨_, h.enclave.installed_self ((hadd.victim v).mp hv).1⟩

/-- A call that is not backed out keeps the invariant up to the submission of its group. -/
theorem FlowStarted.saneWith {o1 o3 : Ofproto} (h : Sane o) (hnew : o.enclave.NewAddr new.cr)
    (hi : fm.table < o.nTables)
    (hadd : FlowAdded (fun _ => True) o.enclave (flowArgs o fm new) s' out V E)
    (hent : FlowEntered o o1 fm new s' out.victim) (hst : FlowStarted o1 o3 out) :
    SaneWith ((o3.group o1.nextGroup).ops ++ o3.waiting) o3 ∧ o1.nextGroup ∉ o3.pending := by
  have hg : o1.nextGroup ∉ o3.pending := by
    rw [hst.ops.pending, hent.ops.pending]
    intro hmem
    exact Nat.lt_irrefl _ (Nat.lt_of_lt_of_le (h.groups _ hmem) hent.ops.nextGroup)
  have henc : o3.enclave = s' := hst.enclave.trans hent.enclave
  have hlive : ∀ a, s'.Live a ↔ a = new.cr ∨ o.enclave.Live a := hadd.live h.enclave
  obtain ⟨hnodup1, hmem1⟩ := mem_relinked fm h.expirable (SaneWith.not_expirable h hnew)
    out.victim
  rw [← hent.expirable] at hnodup1 hmem1
  have hsub : o3.expirable.Sublist o1.expirable := by
    rw [hst.expirable]
    cases out.evict with
    | none => exact List.Sublist.refl _
    | some e => exact List.erase_sublist
  have hdisp : ∀ a, o.enclave.Live a → ((∀ i, ¬ o.enclave.Installed i a) ∧ a ∉ o.expirable ∨
      out.victim = some a) → o3.Displaced a := by
    intro a ha hor
    refine ⟨by rw [henc]; exact (hlive a).mpr (.inr ha), fun i hia => ?_, fun hmem => ?_⟩
    · rw [henc] at hia
      rcases hadd.installed h.enclave hia with ⟨-, rfl⟩ | ⟨hia, hv⟩
      · exact hnew.ne ha rfl
      · rcases hor with hor | hor
        · exact hor.1 i hia
        · exact hv hor
    · obtain ⟨hcr, hv⟩ := hmem1 a (hsub.subset hmem)
      rcases hor with hor | hor
      · exact hcr.elim (hnew.ne ha) hor.2
      · exact hv hor
  refine ⟨h.extend (hent.ops.trans hst.ops) ?_ ?_ (fun i a ha => ?_) (hnodup1.sublist hsub)
    (fun a ha => ?_) (fun a ha => ?_) hst.lt hst.error ?_ (fun a ha => ?_), hg⟩
  · rw [henc]
    exact hadd.ok
  · rw [henc]
    exact hadd.nTables
  · rw [henc] at ha
    rw [hst.tableId, (hent.rule a).1]
    rcases hadd.installed h.enclave ha with ⟨rfl, rfl⟩ | ⟨ha, -⟩
    · refine ⟨hi, ?_⟩
      show ((allocRule o fm new).rule new.cr).tableId = fm.table
      simp [allocRule]
    · simp only [allocRule, Function.update_of_ne (hnew.ne ha.live)]
      exact h.tableId i a ha
  · rw [henc, hlive]
    exact (hmem1 a (hsub.subset ha)).1.imp id (h.onList a)
  · obtain ⟨b1, b2, b3⟩ := h.inFlight.victim a ha
    exact hdisp a b1 (.inl ⟨b2, b3⟩)
  · rw [hst.victims]
    cases out.victim <;> simp
  · rw [hst.victims] at ha
    obtain ⟨i, hia⟩ := hadd.victim_installed h ha
    exact ⟨fun hw => (h.inFlight.victim a hw).installed i hia,
      hdisp a hia.live (.inr (Option.mem_toList.mp ha))⟩

/-- The new rule has its shadow when the group is submitted. -/
theorem FlowStarted.tracks {o1 o3 : Ofproto} (h : Sane o) (hnew : o.enclave.NewAddr new.cr)
    (hadd : FlowAdded (fun _ => True) o.enclave (flowArgs o fm new) s' out V E)
    (hent : FlowEntered o o1 fm new s' out.victim) (hst : FlowStarted o1 o3 out) (ht : Tracks o) :
    Tracks o3 := by
  have henc : o3.enclave = s' := hst.enclave.trans hent.enclave
  refine ⟨fun a => ?_, ?_⟩
  · rw [henc, hadd.live h.enclave, hst.allocated, hent.allocated, List.mem_cons, ht.live]
    rfl
  · rw [hst.allocated, hent.allocated, List.nodup_cons]
    refine ⟨fun hmem => ?_, ht.nodup⟩
    exact hnew.ne ((ht.live new.cr).mpr hmem) rfl

/-- If the operations have to wait, or no rule is evicted, no deletion is completed when the group
is submitted. -/
theorem FlowStarted.waits {o1 o3 : Ofproto}
    (hadd : FlowAdded (fun _ => True) o.enclave (flowArgs o fm new) s' out V E)
    (hst : FlowStarted o1 o3 out) (hclean : o1.clogged = true ∨ E = none) :
    0 < (o3.group o1.nextGroup).nRunning ∨
      ∀ k ∈ (o3.group o1.nextGroup).ops, (o3.op k).type ≠ .delete := by
  rcases hclean with hclog | hE
  · exact .inl (hst.running hclog)
  · exact .inr (hst.adds (by rw [hadd.outEvict, hE]; rfl))

/-- A call that is not backed out keeps the invariant. -/
theorem FlowStarted.sane {o1 o3 : Ofproto} (h : Sane o) (hnew : o.enclave.NewAddr new.cr)
    (hi : fm.table < o.nTables)
    (hadd : FlowAdded (fun _ => True) o.enclave (flowArgs o fm new) s' out V E)
    (hent : FlowEntered o o1 fm new s' out.victim) (hst : FlowStarted o1 o3 out)
    (hsubmit : ofopgroupSubmit o3 o1.nextGroup false = some o') :
    Sane o' ∧ (o1.clogged = true ∨ E = none → Tracks o → Tracks o') := by
  obtain ⟨hsane, hg⟩ := hst.saneWith h hnew hi hadd hent
  obtain ⟨hsane', htracks⟩ := ofopgroupSubmit_sane hsane hg hst.nextGroup hsubmit
  exact ⟨hsane', fun hclean ht =>
    htracks (hst.waits hadd hclean) (hst.tracks h hnew hadd hent ht)⟩

end Succeed

/-! ## Every call -/

/-- `SGX_add_flow` evicts the rule at address `e` for the flow, with `victim` displaced. -/
def EvictsFor (o : Ofproto) (fm : FlowMod) (new : NewRule) (e : UtAddr) (victim : Option UtAddr) :
    Prop :=
  ∃ s' out, ecallAddFlow o.enclave (flowArgs o fm new) = some (s', out) ∧ out.evict = some e ∧
    out.victim = victim

section Call

variable {o o' : Ofproto} {fm : FlowMod} {new : NewRule} {construct : Option Ofperr}
  {error : Option Ofperr}

/-- The table of a flow that is not turned away exists. -/
theorem FlowMod.table_lt (h : 0 < o.nTables) (hgood : ¬ (fm.tableId ≠ 0xff ∧ o.nTables ≤ fm.tableId)) :
    fm.table < o.nTables := by
  unfold FlowMod.table
  split
  · exact h
  · rename_i hid
    exact Nat.lt_of_not_le fun hle => hgood ⟨hid, hle⟩

/-- The state in which `add_flow` looks at the outputs of `SGX_add_flow`. -/
def entered (o : Ofproto) (fm : FlowMod) (new : NewRule) (s' : Enclave) : Ofproto :=
  { (evictionGroupPriority (allocRule o fm new) 0).2 with enclave := s' }

theorem entered_flowEntered (o : Ofproto) (fm : FlowMod) (new : NewRule) (s' : Enclave)
    (victim : Option UtAddr) :
    FlowEntered o (relinkExpirable (entered o fm new s') new.cr victim) fm new s' victim :=
  ⟨rfl, rfl, fun _ => ⟨rfl, rfl⟩, rfl,
    ⟨rfl, rfl, Nat.le_refl _, Nat.le_refl _, fun _ _ => rfl, fun _ _ => rfl⟩⟩

theorem isPending_entered (hnew : o.enclave.NewAddr new.cr) {s' : Enclave} {victim a : Option UtAddr}
    (ha : ∀ b, a = some b → o.enclave.Live b) :
    isPending (relinkExpirable (entered o fm new s') new.cr victim) a = isPending o a := by
  cases a with
  | none => rfl
  | some b =>
    show ((Function.update o.rule new.cr _ b).pending).isSome = _
    rw [Function.update_of_ne (hnew.ne (ha b rfl))]
    rfl

/-- A call whose checks find no error has no rule pending. -/
theorem addFlowError_none {out : AddFlowOut} (he : addFlowError o out = none)
    (hover : out.evict ≠ none → out.tableOverflow = true) :
    isPending o out.evict = false ∧ isPending o out.victim = false := by
  unfold addFlowError at he
  split at he
  · cases he
  · split at he
    · cases he
    · rename_i hvic
      refine ⟨?_, by simpa using hvic⟩
      cases hev : out.evict with
      | none => rfl
      | some e =>
        rw [if_pos (hover (by simp [hev])), hev] at he
        simpa using he

/-- The evicted rule and the victim were live before the call. -/
theorem FlowAdded.out_live {s' : Enclave} {out : AddFlowOut} {V E : Option RuleId} (h : Sane o)
    (hadd : FlowAdded (fun _ => True) o.enclave (flowArgs o fm new) s' out V E) {b : UtAddr}
    (hb : out.evict = some b ∨ out.victim = some b) : o.enclave.Live b := by
  rcases hb with hb | hb
  · rw [hadd.outEvict] at hb
    obtain ⟨e, he, rfl⟩ := Option.map_eq_some_iff.mp hb
    exact (h.enclave.installed_self (h.enclave.installed _ e (hadd.evicted e he).1)).live
  · rw [hadd.outVictim] at hb
    obtain ⟨v, hv, rfl⟩ := Option.map_eq_some_iff.mp hb
    exact (h.enclave.installed_self ((hadd.victim v).mp hv).1).live

/-- A call that is not refused is backed out or has its operations started. -/
theorem finishAddFlow_cases {s' : Enclave} {out : AddFlowOut} {V E : Option RuleId} (h : Sane o)
    (hnew : o.enclave.NewAddr new.cr)
    (hadd : FlowAdded (fun _ => True) o.enclave (flowArgs o fm new) s' out V E)
    (hs : finishAddFlow (entered o fm new s') new.cr out construct = some (o', error)) :
    (error ≠ none ∧ BackedOut o o' fm.table V E) ∨
      ∃ o3, error = none ∧ construct = none ∧ isPending o out.evict = false ∧
        isPending o out.victim = false ∧
        FlowStarted (relinkExpirable (entered o fm new s') new.cr out.victim) o3 out ∧
        ofopgroupSubmit o3 o.nextGroup false = some o' := by
  obtain ⟨hro, hpend, hover, -⟩ := hadd.accepted
  have hent := entered_flowEntered o fm new s' out.victim
  have hg : o.nextGroup ∉ o.pending := fun hmem => Nat.lt_irrefl _ (h.groups _ hmem)
  have hp : ((relinkExpirable (entered o fm new s') new.cr out.victim).rule new.cr).pending
      = none := by
    simp [relinkExpirable, entered, evictionGroupPriority, allocRule]
  simp only [finishAddFlow, hro, hpend, hover, Bool.false_eq_true, if_false] at hs
  split at hs
  · rename_i err _
    obtain ⟨o3, hout, hb⟩ := backOut_backedOut h hnew hadd hent err
    rw [hout] at hs
    cases hs
    exact .inl ⟨by simp, hb⟩
  · rename_i hnone
    cases hc : construct with
    | none =>
      rw [hc] at hs
      have herr : error = none := by
        rw [operateAddFlow_eq hp] at hs
        simp only [Option.bind_eq_some_iff, Option.map_eq_some_iff] at hs
        obtain ⟨_, _, _, _, _, _, heq⟩ := hs
        exact (Prod.mk.inj heq).2.symm
      obtain ⟨o3, hst, hsub⟩ := operateAddFlow_started hp hg hs
      obtain ⟨hpe, hpv⟩ := addFlowError_none hnone fun hev =>
        hadd.overflow fun hE => hev (by rw [hadd.outEvict, hE]; rfl)
      rw [isPending_entered hnew fun b hb => hadd.out_live h (.inl hb)] at hpe
      rw [isPending_entered hnew fun b hb => hadd.out_live h (.inr hb)] at hpv
      exact .inr ⟨o3, herr, rfl, hpe, hpv, hst, hsub⟩
    | some err =>
      rw [hc] at hs
      obtain ⟨o2, hop, henc, hexp, halloc, hops, hrule, -⟩ :=
        operateAddFlow_failed out hp hg err
      obtain ⟨o3, hout, hb⟩ := backOut_backedOut h hnew hadd
        ⟨henc, hexp, hrule, halloc, hent.ops.trans hops⟩ err
      have hs' : backOut o2 new.cr out.victim err = some (o', error) := hop ▸ hs
      rw [hout] at hs'
      cases hs'
      exact .inl ⟨by simp, hb⟩

/-- The ways a call of `add_flow` ends: no such table, the flow refused, backed out, or its
operations started. -/
theorem addFlow_cases (h : Sane o) (hnew : o.enclave.NewAddr new.cr)
    (hs : addFlow o fm new construct = some (o', error)) :
    ((fm.tableId ≠ 0xff ∧ o.nTables ≤ fm.tableId) ∧ o' = o ∧ error ≠ none) ∨
    (∃ s', FlowRefused o.enclave (flowArgs o fm new) ∧ error ≠ none ∧
      (s' = o.enclave ∨ ecallClsRuleDestroy (ecallClsRuleInit o.enclave new.cr fm.match fm.priority)
        new.cr = some s') ∧ o' = ruleDealloc (entered o fm new s') new.cr) ∨
    ∃ s' out V E, ¬ (fm.tableId ≠ 0xff ∧ o.nTables ≤ fm.tableId) ∧
      ¬ FlowRefused o.enclave (flowArgs o fm new) ∧
      ecallAddFlow o.enclave (flowArgs o fm new) = some (s', out) ∧
      FlowAdded (fun _ => True) o.enclave (flowArgs o fm new) s' out V E ∧
      ((error ≠ none ∧ BackedOut o o' fm.table V E) ∨
        ∃ o3, error = none ∧ construct = none ∧ isPending o out.evict = false ∧
          isPending o out.victim = false ∧
          FlowStarted (relinkExpirable (entered o fm new s') new.cr out.victim) o3 out ∧
          ofopgroupSubmit o3 o.nextGroup false = some o') := by
  unfold addFlow at hs
  split at hs
  · rename_i hbad
    cases hs
    exact .inl ⟨hbad, rfl, by simp⟩
  · rename_i hgood
    refine .inr ?_
    obtain ⟨⟨s', out⟩, hecall, hfin⟩ := Option.bind_eq_some_iff.mp hs
    have hecall' : ecallAddFlow o.enclave (flowArgs o fm new) = some (s', out) := hecall
    have hfin' : finishAddFlow (entered o fm new s') new.cr out construct = some (o', error) := hfin
    rcases ecallAddFlow_cases hecall' with ⟨href, rfl, rfl⟩ | ⟨href, hdes, hout⟩ | ⟨hnot, hinst⟩
    · cases hfin'
      exact .inl ⟨_, href, by simp, .inl rfl, rfl⟩
    · refine .inl ⟨s', href, ?_, .inr hdes, ?_⟩
      · rcases hout with rfl | rfl
        all_goals
          cases hfin'
          simp
      · rcases hout with rfl | rfl
        all_goals
          cases hfin'
          rfl
    · obtain ⟨s1, out1, V, E, h1, hadd⟩ :=
        installFlow_added h.enclave hnew trivial (FlowRefused.readonly hnot)
      obtain ⟨rfl, rfl⟩ := Prod.mk.inj (Option.some.inj (h1.symm.trans hinst))
      exact .inr ⟨s1, out1, V, E, hgood, hnot, hecall', hadd, finishAddFlow_cases h hnew hadd hfin'⟩

/-- The enclave after a flow was refused. -/
theorem refused_enclave {s' : Enclave} (h : Sane o) (hnew : o.enclave.NewAddr new.cr)
    (hs' : s' = o.enclave ∨ ecallClsRuleDestroy (ecallClsRuleInit o.enclave new.cr fm.match
      fm.priority) new.cr = some s') :
    BridgeOk (fun _ => True) s' ∧ s'.nTables = o.enclave.nTables ∧
      (∀ i a, s'.Installed i a → o.enclave.Installed i a) ∧
      ∀ a, s'.Live a ↔ o.enclave.Live a := by
  rcases hs' with rfl | hdes
  · exact ⟨h.enclave, rfl, fun _ _ ha => ha, fun _ => Iff.rfl⟩
  · obtain ⟨s1, h1, hok, hn, htables, -, hlive, haddr⟩ :=
      initDestroy_bridge h.enclave hnew (m := fm.match) trivial fm.priority
    obtain rfl := Option.some.inj (h1.symm.trans hdes)
    refine ⟨hok, hn, fun i a ha => ?_, fun a => ?_⟩
    · obtain ⟨q, hq, rfl, hmem⟩ := ha
      have hq := (hlive q).mp hq
      refine ⟨q, hq, (haddr q hq).symm, ?_⟩
      rw [Enclave.rules, htables] at hmem
      exact hmem
    · constructor
      · rintro ⟨q, hq, rfl⟩
        have hq := (hlive q).mp hq
        exact ⟨q, hq, (haddr q hq).symm⟩
      · rintro ⟨q, hq, rfl⟩
        exact ⟨q, (hlive q).mpr hq, haddr q hq⟩

/-- The refused flow leaves nothing behind. -/
theorem refused_sane {s' : Enclave} (h : Sane o) (hnew : o.enclave.NewAddr new.cr)
    (hs' : s' = o.enclave ∨ ecallClsRuleDestroy (ecallClsRuleInit o.enclave new.cr fm.match
      fm.priority) new.cr = some s') :
    Sane (ruleDealloc (entered o fm new s') new.cr) ∧
      (Tracks o → Tracks (ruleDealloc (entered o fm new s') new.cr)) := by
  obtain ⟨hok, hn, hinst, hlive⟩ := refused_enclave h hnew hs'
  have halloc : (ruleDealloc (entered o fm new s') new.cr).allocated = o.allocated := by
    simp [ruleDealloc, entered, evictionGroupPriority, allocRule]
  have hops : SameOps o (ruleDealloc (entered o fm new s') new.cr) :=
    ⟨rfl, rfl, Nat.le_refl _, Nat.le_refl _, fun _ _ => rfl, fun _ _ => rfl⟩
  have hsane : Sane (ruleDealloc (entered o fm new s') new.cr) := by
    refine h.keep hops hok hn (fun i a ha => ?_) h.expirable
      (fun a ha => (hlive a).mpr (h.onList a ha)) (fun a ha => ?_)
    · have ha' := hinst i a ha
      have hrule : (ruleDealloc (entered o fm new s') new.cr).rule a = o.rule a :=
        Function.update_of_ne (hnew.ne ha'.live) _ _
      rw [hrule]
      exact h.tableId i a ha'
    · obtain ⟨b1, b2, b3⟩ := h.inFlight.victim a ha
      exact ⟨(hlive a).mpr b1, fun i hi => b2 i (hinst i a hi), b3⟩
  refine ⟨hsane, fun ht => ⟨fun a => ?_, ?_⟩⟩
  · rw [halloc, ← ht.live]
    exact hlive a
  · rw [halloc]
    exact ht.nodup

/-- A call that is clean evicts no rule or has its operations wait. -/
theorem FlowAdded.evicts_none {s' : Enclave} {out : AddFlowOut} {V E : Option RuleId}
    (hecall : ecallAddFlow o.enclave (flowArgs o fm new) = some (s', out))
    (hadd : FlowAdded (fun _ => True) o.enclave (flowArgs o fm new) s' out V E)
    (hgood : ¬ (fm.tableId ≠ 0xff ∧ o.nTables ≤ fm.tableId))
    (hpe : isPending o out.evict = false) (hpv : isPending o out.victim = false)
    (hclean : o.clogged = true ∨ (fm.tableId ≠ 0xff ∧ o.nTables ≤ fm.tableId) ∨
      ∀ e victim, EvictsFor o fm new e victim →
        isPending o (some e) = true ∨ isPending o victim = true) :
    o.clogged = true ∨ E = none := by
  rcases hclean with hclog | hbad | hpend
  · exact .inl hclog
  · exact absurd hbad hgood
  · refine .inr ?_
    cases hE : E with
    | none => rfl
    | some e =>
      have hev : out.evict = some (o.enclave.oClsRule e) := by rw [hadd.outEvict, hE]; rfl
      rw [hev] at hpe
      rcases hpend _ _ ⟨s', out, hecall, hev, rfl⟩ with hp | hp
      · exact absurd (hpe.symm.trans hp) (by simp)
      · exact absurd (hpv.symm.trans hp) (by simp)

/-- `add_flow` keeps the invariant. The shadows go with the memory unless a rule is evicted
and its deletion completed at once. -/
theorem addFlow_sane (h : Sane o) (hnew : o.enclave.NewAddr new.cr)
    (hs : addFlow o fm new construct = some (o', error)) :
    Sane o' ∧ ((o.clogged = true ∨ construct ≠ none ∨
        (fm.tableId ≠ 0xff ∧ o.nTables ≤ fm.tableId) ∨
        ∀ e victim, EvictsFor o fm new e victim →
          isPending o (some e) = true ∨ isPending o victim = true) →
      Tracks o → Tracks o') := by
  rcases addFlow_cases h hnew hs with
    ⟨-, rfl, -⟩ | ⟨s', -, -, hs', rfl⟩ | ⟨s', out, V, E, hgood, -, hecall, hadd, hend⟩
  · exact ⟨h, fun _ ht => ht⟩
  · obtain ⟨hsane, htracks⟩ := refused_sane h hnew hs'
    exact ⟨hsane, fun _ ht => htracks ht⟩
  · rcases hend with ⟨-, hb⟩ | ⟨o3, -, hc, hpe, hpv, hst, hsub⟩
    · exact ⟨hb.sane h fun v hv => ((hadd.victim v).mp hv).1, fun _ ht => hb.tracks ht⟩
    · obtain ⟨hsane, htracks⟩ := hst.sane h hnew (FlowMod.table_lt h.nTables hgood) hadd
        (entered_flowEntered o fm new s' out.victim) hsub
      refine ⟨hsane, fun hclean ht => ?_⟩
      have hnone : o.clogged = true ∨ E = none := by
        refine hadd.evicts_none hecall hgood hpe hpv ?_
        rcases hclean with hclog | hne | hrest
        · exact .inl hclog
        · exact absurd hc hne
        · exact .inr hrest
      exact htracks hnone ht

/-! ## The submission of the group -/

/-- `operateAddFlow` up to the submission of its group, if `rule_construct` succeeds. -/
def startAddition (o : Ofproto) (cr : UtAddr) (out : AddFlowOut) : Option Ofproto := do
  let (o, g) := ofopgroupCreate o
  let (o, k) ← ofoperationCreate o g cr .add none
  let o := { o with op := Function.update o.op k { o.op k with victim := out.victim } }
  let o ← completeOperation o cr
  deleteEvicted o g out

/-- `add_flow` up to the submission of the group with its operations, if it gets there. -/
def startAddFlow (o : Ofproto) (fm : FlowMod) (new : NewRule) : Option Ofproto :=
  if fm.tableId ≠ 0xff ∧ o.nTables ≤ fm.tableId then none
  else do
    let (s, out) ← ecallAddFlow o.enclave (flowArgs o fm new)
    if out.isReadOnly || out.isDeletionPending || out.isRuleOverlapping then none
    else
      let o := relinkExpirable (entered o fm new s) new.cr out.victim
      if (addFlowError o out).isSome then none else startAddition o new.cr out

theorem operateAddFlow_submits (o : Ofproto) (cr : UtAddr) (out : AddFlowOut) :
    operateAddFlow o cr out none = (startAddition o cr out).bind fun o1 =>
      (ofopgroupSubmit o1 o.nextGroup false).map fun o2 => (o2, none) := by
  simp only [operateAddFlow, startAddition, ofopgroupCreate, Option.bind_eq_bind,
    Option.bind_assoc, Option.map_eq_bind]
  rfl

theorem addFlow_finish (hgood : ¬ (fm.tableId ≠ 0xff ∧ o.nTables ≤ fm.tableId)) :
    addFlow o fm new construct = (ecallAddFlow o.enclave (flowArgs o fm new)).bind fun res =>
      finishAddFlow (entered o fm new res.1) new.cr res.2 construct := by
  unfold addFlow
  rw [if_neg hgood]
  rfl

/-- What is known of a call that gets to the submission of its operations. -/
theorem startAddFlow_some {o1 : Ofproto} (hs : startAddFlow o fm new = some o1) :
    ∃ s' out, ¬ (fm.tableId ≠ 0xff ∧ o.nTables ≤ fm.tableId) ∧
      ecallAddFlow o.enclave (flowArgs o fm new) = some (s', out) ∧
      out.isReadOnly = false ∧ out.isDeletionPending = false ∧ out.isRuleOverlapping = false ∧
      addFlowError (relinkExpirable (entered o fm new s') new.cr out.victim) out = none ∧
      startAddition (relinkExpirable (entered o fm new s') new.cr out.victim) new.cr out
        = some o1 := by
  unfold startAddFlow at hs
  split at hs
  · cases hs
  · rename_i hgood
    obtain ⟨⟨s', out⟩, hecall, hs⟩ := Option.bind_eq_some_iff.mp hs
    dsimp only at hs
    split at hs
    · cases hs
    · rename_i haccepted
      split at hs
      · cases hs
      · rename_i herr
        simp only [Bool.or_eq_true, not_or, Bool.not_eq_true] at haccepted
        obtain ⟨⟨hro, hpend⟩, hover⟩ := haccepted
        exact ⟨s', out, hgood, hecall, hro, hpend, hover, by simpa using herr, hs⟩

theorem startAddFlow_submits {o1 : Ofproto} (hs : startAddFlow o fm new = some o1) :
    addFlow o fm new none
      = (ofopgroupSubmit o1 o.nextGroup false).map fun o2 => (o2, none) := by
  obtain ⟨s', out, hgood, hecall, hro, hpend, hover, hnone, hstart⟩ := startAddFlow_some hs
  rw [addFlow_finish hgood, hecall, Option.bind_some]
  simp only [finishAddFlow, hro, hpend, hover, Bool.false_eq_true, if_false, hnone]
  rw [operateAddFlow_submits, hstart]
  rfl

/-- A call without an error has submitted its operations. -/
theorem addFlow_submitted (hs : addFlow o fm new construct = some (o', none)) :
    construct = none ∧ ∃ o1, startAddFlow o fm new = some o1 ∧
      ofopgroupSubmit o1 o.nextGroup false = some o' := by
  by_cases hbad : fm.tableId ≠ 0xff ∧ o.nTables ≤ fm.tableId
  · simp only [addFlow, if_pos hbad] at hs
    cases hs
  · rw [addFlow_finish hbad] at hs
    obtain ⟨⟨s', out⟩, hecall, hs⟩ := Option.bind_eq_some_iff.mp hs
    have hstart : ∀ o1, startAddition (relinkExpirable (entered o fm new s') new.cr out.victim)
        new.cr out = some o1 → out.isReadOnly = false → out.isDeletionPending = false →
        out.isRuleOverlapping = false →
        addFlowError (relinkExpirable (entered o fm new s') new.cr out.victim) out = none →
        startAddFlow o fm new = some o1 := by
      intro o1 h1 hro hpend hover hnone
      unfold startAddFlow
      rw [if_neg hbad]
      refine Option.bind_eq_some_iff.mpr ⟨_, hecall, ?_⟩
      simpa [hro, hpend, hover, hnone] using h1
    unfold finishAddFlow at hs
    split at hs
    · cases hs
    · split at hs
      · cases hs
      · split at hs
        · cases hs
        · rename_i hro hpend hover
          dsimp only at hs
          split at hs
          · obtain ⟨o2, -, hs⟩ := Option.bind_eq_some_iff.mp hs
            obtain ⟨o3, -, hs⟩ := Option.bind_eq_some_iff.mp hs
            cases hs
          · rename_i hnone
            cases construct with
            | some err =>
              obtain ⟨⟨o2, k⟩, -, hs⟩ := Option.bind_eq_some_iff.mp hs
              obtain ⟨o3, -, hs⟩ := Option.bind_eq_some_iff.mp hs
              obtain ⟨o4, -, hs⟩ := Option.bind_eq_some_iff.mp hs
              obtain ⟨o5, -, hs⟩ := Option.bind_eq_some_iff.mp hs
              cases hs
            | none =>
              rw [operateAddFlow_submits] at hs
              obtain ⟨o1, h1, hs⟩ := Option.bind_eq_some_iff.mp hs
              obtain ⟨o2, hsubmit, heq⟩ := Option.map_eq_some_iff.mp hs
              cases heq
              exact ⟨rfl, o1, hstart o1 h1 (by simpa using hro) (by simpa using hpend)
                (by simpa using hover) hnone, hsubmit⟩

/-- The operations of a call of `add_flow`, when it submits them. -/
theorem startAddFlow_spec {o3 : Ofproto} (h : Sane o) (hnew : o.enclave.NewAddr new.cr)
    (hs : startAddFlow o fm new = some o3) :
    ∃ s' out V E, ¬ (fm.tableId ≠ 0xff ∧ o.nTables ≤ fm.tableId) ∧
      ecallAddFlow o.enclave (flowArgs o fm new) = some (s', out) ∧
      FlowAdded (fun _ => True) o.enclave (flowArgs o fm new) s' out V E ∧
      isPending o out.evict = false ∧ isPending o out.victim = false ∧
      FlowStarted (relinkExpirable (entered o fm new s') new.cr out.victim) o3 out ∧
      FlowOps (relinkExpirable (entered o fm new s') new.cr out.victim) o3 new.cr out := by
  obtain ⟨s', out, hgood, hecall, hro, hpend, hover, hnone, hstart⟩ := startAddFlow_some hs
  have hadded : ∃ V E, FlowAdded (fun _ => True) o.enclave (flowArgs o fm new) s' out V E := by
    rcases ecallAddFlow_cases hecall with ⟨-, -, rfl⟩ | ⟨-, -, rfl | rfl⟩ | ⟨hnot, hinst⟩
    · cases hro
    · cases hpend
    · cases hover
    · obtain ⟨s1, out1, V, E, h1, hadd⟩ :=
        installFlow_added h.enclave hnew trivial (FlowRefused.readonly hnot)
      obtain ⟨rfl, rfl⟩ := Prod.mk.inj (Option.some.inj (h1.symm.trans hinst))
      exact ⟨V, E, hadd⟩
  obtain ⟨V, E, hadd⟩ := hadded
  have hg : o.nextGroup ∉ o.pending := fun hmem => Nat.lt_irrefl _ (h.groups _ hmem)
  obtain ⟨hpe, hpv⟩ := addFlowError_none hnone fun hev =>
    hadd.overflow fun hE => hev (by rw [hadd.outEvict, hE]; rfl)
  rw [isPending_entered hnew fun b hb => hadd.out_live h (.inl hb)] at hpe
  rw [isPending_entered hnew fun b hb => hadd.out_live h (.inr hb)] at hpv
  have hp : ((relinkExpirable (entered o fm new s') new.cr out.victim).rule new.cr).pending
      = none := by
    simp [relinkExpirable, entered, evictionGroupPriority, allocRule]
  obtain ⟨⟨o1, k⟩, h1, hstart⟩ := Option.bind_eq_some_iff.mp hstart
  obtain ⟨o2, h2, h3⟩ := Option.bind_eq_some_iff.mp hstart
  obtain ⟨o1', hcreate, hadds⟩ := ofoperationCreate_add hp out.victim
  cases (hcreate.symm.trans h1)
  rw [hadds] at h2
  exact ⟨s', out, V, E, hgood, hecall, hadd, hpe, hpv, addStarted_flowStarted (by exact hg) h2 h3,
    addStarted_flowOps (by exact hg) h2 h3⟩

end Call

end OvsSgx
