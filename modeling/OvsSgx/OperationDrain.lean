/-
OvsSgx.OperationDrain — the operations in flight come to an end.

`ofopgroup_complete` asks the enclave whether the rule of an operation is
hidden and destroys the shadow of its victim, and it has no way to go on if
a shadow is gone. `Shadowed` says that this does not happen: the rule of
every waiting operation has its shadow, and no other operation takes it
away. Only `ofproto_evict` breaks that, when its deletions have to wait.
In a run without such calls, and once the provider is no longer clogged,
`complete_operations` completes everything that is in flight.
-/
import OvsSgx.OperationRuns

namespace OvsSgx

/-! ## Shadows of the operations in flight -/

/-- The rules of the operations `W` have their shadows, and none is a victim. -/
def Ofproto.Shadowed (o : Ofproto) (W : List OpId) : Prop :=
  ∀ k ∈ W, o.Spared (fun s => s.Live (o.op k).rule) (o.op k).rule W

section Shadowed

variable {o o' : Ofproto} {W : List OpId} {k : OpId} {g : GroupId} {isHidden : Bool}

theorem completeOp_shadowed (h : SaneWith (k :: W) o) (hs : completeOp isHidden o k = some o')
    (hw : o.Shadowed (k :: W)) : o'.Shadowed W := by
  have hop := (completeOp_enclave (h.inFlight.error k (List.mem_cons_self ..)) hs).1
  intro j hj
  rw [hop]
  exact completeOp_spared (survives_live _) h hs (hw j (List.mem_cons_of_mem k hj))

theorem shadowed_invariant : BridgeInvariant fun W o => o.Shadowed W where
  complete h hs hw := completeOp_shadowed h (completeOpWith_fst hs).1 hw
  fewer hsub hw k hk := (hw k (hsub.subset hk)).fewer hsub.subset
  congr {W o o' _} henc _ hop hw k hk := by
    have hvic : o'.victims W = o.victims W := List.filterMap_congr fun k _ => (hop k).2.2
    rw [(hop k).1]
    refine ⟨?_, by rw [hvic]; exact (hw k hk).victim⟩
    rw [henc]
    exact (hw k hk).holds

/-- An operation whose rule has its shadow can be completed. -/
theorem completeOp_isSome (h : SaneWith (k :: W) o) (hw : o.Shadowed (k :: W)) :
    ∃ o', completeOp isHidden o k = some o' := by
  have herr := h.inFlight.error k (List.mem_cons_self ..)
  have hhidden : ∃ b, operationIsHidden isHidden o (o.op k) = some b := by
    unfold operationIsHidden
    split
    · exact ⟨false, rfl⟩
    · obtain ⟨r, hr, hra⟩ := (hw k (List.mem_cons_self ..)).holds
      rw [← hra]
      exact ⟨_, ofprotoRuleIsHidden_live h.enclave.shadows hr⟩
  have hcommit : ∃ o1, commitOperation (o.setPending (o.op k).rule none) (o.op k) = some o1 := by
    unfold commitOperation
    rw [herr]
    cases (o.op k).type with
    | modify => exact ⟨_, rfl⟩
    | delete => exact ⟨_, rfl⟩
    | add =>
      cases hv : (o.op k).victim with
      | none => exact ⟨_, rfl⟩
      | some v =>
        have hmem : v ∈ o.victims (k :: W) :=
          List.mem_filterMap.mpr ⟨k, List.mem_cons_self .., hv⟩
        obtain ⟨hlive, hnot, -⟩ := h.inFlight.victim v hmem
        obtain ⟨s', hdes, -⟩ := ecallClsRuleDestroy_outcome h.enclave hlive hnot
        have hdes' : ecallClsRuleDestroy (o.setPending (o.op k).rule none).enclave v = some s' :=
          hdes
        simp [ofprotoRuleDestroy, hdes']
  obtain ⟨b, hb⟩ := hhidden
  obtain ⟨o1, h1⟩ := hcommit
  exact ⟨ofoperationDestroy o1 k, by simp [completeOp, hb, h1]⟩

theorem foldlM_completeOp_isSome {ks : List OpId} : ∀ {o : Ofproto}, SaneWith (ks ++ W) o →
    o.Shadowed (ks ++ W) → ∃ o', ks.foldlM (completeOp isHidden) o = some o' := by
  induction ks with
  | nil => exact fun {o} _ _ => ⟨o, rfl⟩
  | cons k ks ih =>
    intro o h hw
    obtain ⟨o1, h1⟩ := completeOp_isSome h hw
    obtain ⟨o', h2⟩ := ih (completeOp_sane h h1).1 (completeOp_shadowed h h1 hw)
    exact ⟨o', by rw [List.foldlM_cons, h1]; exact h2⟩

theorem ofopgroupComplete_isSome (h : SaneWith ((o.group g).ops ++ W) o)
    (hw : o.Shadowed ((o.group g).ops ++ W)) : ∃ o', ofopgroupComplete o g isHidden = some o' := by
  have hfold : ∃ o1, (o.group g).ops.foldlM (completeOp isHidden) o = some o1 :=
    foldlM_completeOp_isSome h hw
  obtain ⟨o1, h1⟩ := hfold
  exact ⟨{ o1 with pending := o1.pending.erase g }, by simp [ofopgroupComplete, h1]⟩

/-! ## Draining -/

/-- A completion that was put off cannot fail. -/
theorem ofoperationComplete_isSome {R : List OpId} (h : Sane o) (hb : o.Accounts o.pending (k :: R))
    (hw : o.Shadowed o.waiting) : ∃ o', ofoperationComplete o k none = some o' := by
  have hheld := hb.running k (List.mem_cons_self ..)
  have hpos := hb.nRunning_pos (List.mem_cons_self ..)
  simp only [ofoperationComplete, hb.rule_pending hheld, hpos, true_or, and_self, if_true]
  split
  · rename_i hlast
    have hmark := BridgeInvariant.mark shadowed_invariant k hw
    have hperm := Ofproto.waiting_perm (o := o.markCompleted k none) hlast.2
    exact ofopgroupComplete_isSome ((markCompleted_sane h k).subperm hperm.symm.subperm)
      (shadowed_invariant.fewer (s := (o.markCompleted k none, ())) hperm.symm.subperm hmark)
  · exact ⟨_, rfl⟩

theorem foldlM_ofoperationComplete_isSome {ks : List OpId} : ∀ {o : Ofproto}, Sane o →
    o.Accounts o.pending ks → o.Busy → o.Shadowed o.waiting →
    ∃ o', ks.foldlM (fun o k => ofoperationComplete o k none) o = some o' := by
  induction ks with
  | nil => exact fun {o} _ _ _ _ => ⟨o, rfl⟩
  | cons k ks ih =>
    intro o h hb hbusy hw
    obtain ⟨o1, h1⟩ := ofoperationComplete_isSome h hb hw
    obtain ⟨hb1, hbusy1, -⟩ := ofoperationComplete_accounted hb hbusy h1
    obtain ⟨o', h2⟩ := ih (ofoperationComplete_sane h h1).1 hb1 hbusy1
      (BridgeInvariant.complete_operation shadowed_invariant h h1 hw)
    exact ⟨o', by rw [List.foldlM_cons, h1]; exact h2⟩

/-- Nothing is in flight. -/
structure Ofproto.Quiet (o : Ofproto) : Prop where
  pending : o.pending = []
  completions : o.completions = []
  rules : ∀ a, (o.rule a).pending = none
  deletions : o.deletions.entries = []

/-- Without running operations nothing is in flight. -/
theorem Ofproto.Accounted.quiet (h : o.Accounted) (hrun : o.completions = []) : o.Quiet := by
  obtain ⟨hacc, hbusy⟩ := h
  rw [hrun] at hacc
  have hpending : o.pending = [] := by
    refine List.eq_nil_iff_forall_not_mem.mpr fun g hg => ?_
    have hpos := hbusy g hg
    rw [hacc.nRunning g hg] at hpos
    exact Nat.lt_irrefl 0 hpos
  rw [hpending] at hacc
  refine ⟨hpending, hrun, fun a => ?_, ?_⟩
  · refine Option.eq_none_iff_forall_ne_some.mpr fun k hk => ?_
    exact List.not_mem_nil (hacc.pending a k hk).2.1
  · exact List.eq_nil_iff_forall_not_mem.mpr fun e he => List.not_mem_nil (hacc.filed e he).2.2.1

theorem completeOperations_quiet (h : Sane o) (hb : o.Accounted) (hw : o.Shadowed o.waiting)
    (hclog : o.clogged = false) : ∃ o', completeOperations o = some o' ∧ o'.Quiet := by
  obtain ⟨o1, h1⟩ := foldlM_ofoperationComplete_isSome h hb.accounts hb.busy hw
  have hs : completeOperations o = some { o1 with completions := [] } := by
    simp [completeOperations, hclog, h1]
  exact ⟨_, hs, (completeOperations_accounted hb hs).1.quiet rfl⟩

/-! ## Starting operations -/

/-- The victims of the operations of `o'`, of which `N` are new. -/
theorem SameOps.victims (h : SameOps o o') (hsane : Sane o) (N : List OpId) :
    o'.victims (N ++ o'.waiting) = o'.victims N ++ o.victims o.waiting := by
  unfold Ofproto.victims
  rw [List.filterMap_append, h.waiting hsane.groups]
  congr 1
  exact List.filterMap_congr fun k hk => by rw [h.op k (hsane.inFlight.lt k hk)]

/-- New operations `N`, and victims that had no operation pending. -/
theorem Ofproto.Shadowed.start (hw : o.Shadowed o.waiting) (h : Sane o) (hb : o.Accounted)
    (hops : SameOps o o') {N : List OpId}
    (hlive : ∀ a, o.enclave.Live a → (o.rule a).pending ≠ none → o'.enclave.Live a)
    (hvictims : ∀ a ∈ o'.victims N, (o.rule a).pending = none)
    (hnew : ∀ k ∈ N, o'.enclave.Live (o'.op k).rule ∧ (o'.op k).rule ∉ o'.victims N ∧
      (o'.op k).rule ∉ o.victims o.waiting) :
    o'.Shadowed (N ++ o'.waiting) := by
  intro k hk
  have hvic := hops.victims h N
  rcases List.mem_append.mp hk with hk | hk
  · obtain ⟨h1, h2, h3⟩ := hnew k hk
    exact ⟨h1, by simp [hvic, h2, h3]⟩
  · rw [hops.waiting h.groups] at hk
    rw [hops.op k (h.inFlight.lt k hk)]
    obtain ⟨g, hg, hmem⟩ := List.mem_flatMap.mp hk
    obtain ⟨-, -, hp⟩ := hb.accounts.ops g hg k hmem
    have hpend : (o.rule (o.op k).rule).pending ≠ none := by simp [hp]
    refine ⟨hlive _ (hw k hk).holds hpend, fun hv => ?_⟩
    rw [hvic] at hv
    rcases List.mem_append.mp hv with hv | hv
    · exact hpend (hvictims _ hv)
    · exact (hw k hk).victim hv

theorem Ofproto.Shadowed.same (hw : o.Shadowed o.waiting) (h : Sane o) (hb : o.Accounted)
    (hops : SameOps o o') (hlive : ∀ a, o.enclave.Live a → o'.enclave.Live a) :
    o'.Shadowed o'.waiting :=
  hw.start (N := []) h hb hops (fun a ha _ => hlive a ha) (by simp [Ofproto.victims]) (by simp)

theorem DeletesCleared.shadowed {l : List (UtAddr × U32)} (h : Sane o) (hb : o.Accounted)
    (hw : o.Shadowed o.waiting) (hd : DeletesCleared o o' l) : o'.Shadowed o'.waiting := by
  obtain ⟨s', T, o1, hcl, hT, hl, hall, -, hsane, hg, hsubmit⟩ := hd.started h
  have henc : o1.enclave = s' := hall.enclave
  have hnone := hall.no_victims
  obtain ⟨hopsg, hops⟩ := hall.newGroup
  refine BridgeInvariant.submit shadowed_invariant hsane hg hsubmit
    (hw.start h hb hall.toOpsStarted.sameOps (fun a ha _ => ?_) (by simp [hnone]) fun k hk => ?_)
  · rw [henc, hcl.live]
    exact ha
  · rw [hopsg] at hk
    obtain ⟨e, he, hop⟩ := hops k hk
    obtain ⟨r, hr, hra⟩ := List.mem_map.mp (hl e he)
    obtain ⟨i, hi⟩ := hT r hr
    have hinst := h.enclave.installed_self hi
    rw [hra] at hinst
    rw [hnone, hop, henc, hcl.live]
    exact ⟨hinst.live, List.not_mem_nil, h.not_victim hinst⟩

/-- An eviction whose deletions need not wait. -/
theorem ofprotoEvict_shadowed (h : Sane o) (hb : o.Accounted) (hw : o.Shadowed o.waiting)
    (hclean : o.clogged = false ∨ totalSelected o.enclave o.nTables = 0)
    (hs : ofprotoEvict o = some o') : o'.Shadowed o'.waiting := by
  obtain ⟨o2, entries, T, n, hent, -, hlen, hst, hsubmit⟩ := ofprotoEvict_some h hs
  obtain ⟨s0, hops⟩ := hst.ops
  have hlive : ∀ a, o.enclave.Live a → (o.rule a).pending ≠ none → o2.enclave.Live a := by
    intro a ha hp
    refine (hst.live h a).mpr ⟨ha, fun hmem => ?_⟩
    obtain ⟨e, he, rfl⟩ := List.mem_map.mp hmem
    exact hp (hst.notPending e he)
  -- the operations that wait are those that waited before
  have hold := hw.start (N := []) h hb hops.sameOps hlive (by simp [Ofproto.victims]) (by simp)
  rcases submit_deletions true hops (by simp [ofopgroupCreate]) (.inl rfl) with
    ⟨hclog, hne, -⟩ | ⟨-, o3, hcomp, hsub⟩
  · rcases hclean with hclean | hzero
    · exact absurd (hclog.symm.trans hclean) (by simp)
    · have hnil := hst.rules
      rw [List.length_eq_zero_iff.mp (hlen.trans hzero), List.take_nil, List.map_nil,
        List.map_eq_nil_iff] at hnil
      exact absurd hnil hne
  · rw [hsubmit, Option.some.injEq] at hsub
    subst hsub
    have hg : o.nextGroup ∉ o3.pending := by
      rw [hcomp.pending]
      exact hst.sane h |>.2.1
    have hgroup : ∀ k ∈ List.range' o.nextOp (entries.take n).length,
        (o2.op k).group = o.nextGroup := by
      intro k hk
      obtain ⟨e, -, hop⟩ := hops.newGroup.2 k hk
      rw [hop]
      rfl
    have hwait : Ofproto.waiting { o3 with pending := o3.pending.erase o.nextGroup }
        = o2.waiting := by
      unfold Ofproto.waiting
      rw [List.erase_of_not_mem hg, hcomp.pending]
      refine List.flatMap_congr fun g' hg' => ?_
      rw [hcomp.otherGroups g' fun k hk heq => ?_]
      rw [hgroup k hk] at heq
      exact hg (hcomp.pending ▸ heq ▸ hg')
    rw [hwait]
    intro k hk
    obtain ⟨h1, h2⟩ := hold k hk
    simp only [Ofproto.victims, List.nil_append] at h2
    constructor
    · simpa [hcomp.enclave, hcomp.op] using h1
    · simpa [Ofproto.victims, hcomp.op] using h2

theorem addFlow_shadowed {fm : FlowMod} {new : NewRule} {construct error : Option Ofperr}
    (h : Sane o) (hb : o.Accounted) (hw : o.Shadowed o.waiting)
    (hnew : o.enclave.NewAddr new.cr) (hs : addFlow o fm new construct = some (o', error)) :
    o'.Shadowed o'.waiting := by
  by_cases herr : error = none
  · subst herr
    obtain ⟨-, o3, h3, hsubmit⟩ := addFlow_submitted hs
    obtain ⟨s', out, V, E, hgood, -, hadd, hpe, hpv, hst, hops⟩ := startAddFlow_spec h hnew h3
    have hent := entered_flowEntered o fm new s' out.victim
    have hentered := hst.saneWith h hnew (FlowMod.table_lt h.nTables hgood) hadd hent
    obtain ⟨hsane, hg⟩ : SaneWith ((o3.group o.nextGroup).ops ++ o3.waiting) o3 ∧
        o.nextGroup ∉ o3.pending := hentered
    have henc : o3.enclave = s' := hst.enclave.trans hent.enclave
    have hvic : o3.victims (o3.group o.nextGroup).ops = out.victim.toList := hst.victims
    refine BridgeInvariant.submit shadowed_invariant hsane hg hsubmit
      (hw.start h hb (hent.ops.trans hst.ops) (fun a ha _ => ?_) (fun a ha => ?_) fun k hk => ?_)
    · rw [henc]
      exact (hadd.live h.enclave a).mpr (.inr ha)
    · rw [hvic, Option.mem_toList] at ha
      exact isPending_eq_false hpv ha
    · rw [hvic, henc, hadd.live h.enclave]
      rcases hops.mem_ops hk with ⟨-, hrule⟩ | ⟨-, -, -, hev⟩
      · rw [hrule]
        refine ⟨.inl rfl, fun hv => ?_, fun hv => ?_⟩
        · exact hnew.ne (hadd.out_live h (.inr (Option.mem_toList.mp hv))) rfl
        · exact hnew.ne (h.inFlight.victim _ hv).live rfl
      · rw [hadd.outEvict] at hev
        obtain ⟨e, he, hrule⟩ := Option.map_eq_some_iff.mp hev
        obtain ⟨hgroup, hVe⟩ := hadd.evicted e he
        have hmem := h.enclave.installed _ e hgroup
        have hinst := h.enclave.installed_self hmem
        rw [← hrule]
        refine ⟨.inr hinst.live, fun hv => ?_, h.not_victim hinst⟩
        -- the victim would be the evicted rule
        rw [Option.mem_toList, hadd.outVictim] at hv
        obtain ⟨v, hv, heq⟩ := Option.map_eq_some_iff.mp hv
        have hlive' := h.enclave.live _ v ((hadd.victim v).mp hv).1
        rw [h.enclave.shadows.eq_of_oClsRule hlive' (h.enclave.live _ e hmem) heq] at hv
        exact hVe hv
  · rcases addFlow_cases h hnew hs with
      ⟨-, rfl, -⟩ | ⟨s', -, -, hs', rfl⟩ | ⟨s', out, V, E, -, -, -, -, hend⟩
    · exact hw
    · obtain ⟨-, -, -, hlive⟩ := refused_enclave h hnew hs'
      exact hw.same h hb ⟨rfl, rfl, Nat.le_refl _, Nat.le_refl _, fun _ _ => rfl, fun _ _ => rfl⟩
        fun a => (hlive a).mpr
    · rcases hend with ⟨-, hback⟩ | ⟨o3, hnone, -⟩
      · exact hw.same h hb hback.ops fun a => (hback.live a).mpr
      · exact absurd hnone herr

/-! ## Modifying flows -/

/-- In `o'` a new group has operations that modify rules installed in `o`. -/
structure ModifiesStarted (o o' : Ofproto) : Prop where
  ops : SameOps o o'
  enclave : o'.enclave = o.enclave
  expirable : o'.expirable = o.expirable
  tableId : ∀ a, (o'.rule a).tableId = (o.rule a).tableId
  lt : o.nextGroup < o'.nextGroup
  new : ∀ k ∈ (o'.group o.nextGroup).ops, k < o'.nextOp ∧ (o'.op k).error = none ∧
    (o'.op k).victim = none ∧ ∃ i, o.enclave.Installed i (o'.op k).rule

theorem ofopgroupCreate_modifies (o : Ofproto) : ModifiesStarted o (ofopgroupCreate o).1 := by
  refine ⟨⟨rfl, rfl, Nat.le_refl _, Nat.le_succ _, fun _ _ => rfl, fun g hg => ?_⟩, rfl, rfl,
    fun _ => rfl, Nat.lt_succ_self _, fun k hk => ?_⟩
  · simp [ofopgroupCreate, Nat.ne_of_lt hg]
  · simp [ofopgroupCreate] at hk

/-- A new operation of the group. -/
theorem ModifiesStarted.add {a : UtAddr} (h : ModifiesStarted o o')
    (ha : ∃ i, o.enclave.Installed i a) (hash : U32) :
    ModifiesStarted o (o'.addOperation o.nextGroup a .modify hash) := by
  refine ⟨⟨h.ops.nTables, h.ops.pending, Nat.le_succ_of_le h.ops.nextOp, h.ops.nextGroup,
    fun k hk => ?_, fun g' hg' => ?_⟩, h.enclave, h.expirable, fun b => ?_, h.lt, fun k hk => ?_⟩
  · rw [← h.ops.op k hk]
    simp [Ofproto.addOperation, Nat.ne_of_lt (Nat.lt_of_lt_of_le hk h.ops.nextOp)]
  · rw [← h.ops.group g' hg']
    simp [Ofproto.addOperation, Nat.ne_of_lt hg']
  · rw [← h.tableId b]
    exact (setPending_rule o' _ b _).1
  · have hmem : k ∈ (o'.group o.nextGroup).ops ++ [o'.nextOp] := by
      simpa [Ofproto.addOperation] using hk
    rcases List.mem_append.mp hmem with hk | hk
    · obtain ⟨hlt, herr, hvic, hinst⟩ := h.new k hk
      simp only [Ofproto.addOperation, Function.update_of_ne (Nat.ne_of_lt hlt)]
      exact ⟨Nat.lt_succ_of_lt hlt, herr, hvic, hinst⟩
    · rw [List.mem_singleton.mp hk]
      simp only [Ofproto.addOperation, Function.update_self]
      exact ⟨Nat.lt_succ_self _, trivial, trivial, ha⟩

/-- Its completion, which does not complete the group. -/
theorem ModifiesStarted.complete (h : ModifiesStarted o o') (hg : o.nextGroup ∉ o.pending)
    (hk : o.nextOp ≤ k) (hgk : (o'.op k).group = o.nextGroup)
    (hs : ofoperationComplete o' k none = some o1) : ModifiesStarted o o1 := by
  rcases ofoperationComplete_last hs with ⟨-, rfl⟩ | ⟨-, hmem, -⟩
  · refine ⟨⟨h.ops.nTables, h.ops.pending, h.ops.nextOp, h.ops.nextGroup, fun j hj => ?_,
      fun g' hg' => ?_⟩, h.enclave, h.expirable, h.tableId, h.lt, fun j hj => ?_⟩
    · rw [← h.ops.op j hj]
      simp [Ofproto.markCompleted, Nat.ne_of_lt (Nat.lt_of_lt_of_le hj hk)]
    · rw [markCompleted_ops]
      exact h.ops.group g' hg'
    · rw [markCompleted_ops] at hj
      obtain ⟨hlt, herr, hvic, hinst⟩ := h.new j hj
      obtain ⟨hrule, -, hvictim⟩ := markCompleted_op o' k j none
      refine ⟨hlt, ?_, hvictim.trans hvic, hrule ▸ hinst⟩
      by_cases hjk : j = k <;> simp [Ofproto.markCompleted, hjk, herr]
  · rw [hgk, h.ops.pending] at hmem
    exact absurd hmem hg

theorem ModifiesStarted.no_victims (h : ModifiesStarted o o') :
    o'.victims (o'.group o.nextGroup).ops = [] :=
  List.filterMap_eq_nil_iff.mpr fun k hk => (h.new k hk).2.2.1

section Modify

variable {A : Type} [DecidableEq A] {s s' : FlowState A} {fm : FlowModRequest A}

theorem modifyRule_modifies {a : UtAddr} (h : ModifiesStarted o s.ofproto)
    (hg : o.nextGroup ∉ o.pending) (ha : ∃ i, o.enclave.Installed i a)
    (hs : modifyRule o.nextGroup fm s a = some s') : ModifiesStarted o s'.ofproto := by
  obtain ⟨⟨o1, k⟩, h1, hs⟩ := Option.bind_eq_some_iff.mp hs
  obtain ⟨hash, rfl, rfl⟩ := ofoperationCreate_some h1
  have hadd := h.add ha hash
  have hgk : ((s.ofproto.addOperation o.nextGroup a .modify hash).op s.ofproto.nextOp).group
      = o.nextGroup := by
    simp [Ofproto.addOperation]
  have hp : ((s.ofproto.addOperation o.nextGroup a .modify hash).rule a).pending
      = some s.ofproto.nextOp := by
    simp [Ofproto.addOperation, Ofproto.setPending]
  dsimp only at hs
  split at hs
  · obtain ⟨o2, h2, hs⟩ := Option.bind_eq_some_iff.mp hs
    cases hs
    exact hadd.complete hg h.ops.nextOp hgk h2
  · obtain ⟨o2, h2, hs⟩ := Option.bind_eq_some_iff.mp hs
    cases hs
    simp only [completeOperation, hp, Option.bind_eq_bind, Option.bind_some] at h2
    split at h2
    · cases h2
      exact ⟨⟨hadd.ops.nTables, hadd.ops.pending, hadd.ops.nextOp, hadd.ops.nextGroup, hadd.ops.op,
        hadd.ops.group⟩, hadd.enclave, hadd.expirable, hadd.tableId, hadd.lt, hadd.new⟩
    · exact hadd.complete hg h.ops.nextOp hgk h2

theorem modifyLoop_modifies {modifiable : List Bool} (hg : o.nextGroup ∉ o.pending)
    {rules : List UtAddr} : ∀ {i : Nat} {s : FlowState A} {error error' : Option Ofperr},
      ModifiesStarted o s.ofproto → (∀ a ∈ rules, ∃ i, o.enclave.Installed i a) →
      modifyLoop o.nextGroup fm modifiable i rules s error = some (s', error') →
      ModifiesStarted o s'.ofproto := by
  induction rules with
  | nil =>
    intro i s error error' h _ hs
    cases hs
    exact h
  | cons a rest ih =>
    intro i s error error' h ha hs
    obtain ⟨m, -, hs⟩ := Option.bind_eq_some_iff.mp hs
    have hrest : ∀ b ∈ rest, ∃ i, o.enclave.Installed i b := fun b hb =>
      ha b (List.mem_cons_of_mem a hb)
    split at hs
    · obtain ⟨s1, h1, hs⟩ := Option.bind_eq_some_iff.mp hs
      exact ih (modifyRule_modifies h hg (ha a (List.mem_cons_self ..)) h1) hrest hs
    · exact ih h hrest hs

/-- `modify_flows__` on installed rules, up to the submission of its group. -/
theorem modifyFlows_starts {rules : List UtAddr} {modifiable : List Bool} {error : Option Ofperr}
    (h : Sane s.ofproto) (hrules : ∀ a ∈ rules, ∃ i, s.ofproto.enclave.Installed i a)
    (hs : modifyFlows s fm rules modifiable = some (s', error)) :
    ∃ o1, ModifiesStarted s.ofproto o1 ∧
      SaneWith ((o1.group s.ofproto.nextGroup).ops ++ o1.waiting) o1 ∧
      s.ofproto.nextGroup ∉ o1.pending ∧
      ofopgroupSubmit o1 s.ofproto.nextGroup false = some s'.ofproto := by
  obtain ⟨⟨s1, error1⟩, h1, hs⟩ := Option.bind_eq_some_iff.mp hs
  obtain ⟨o2, h2, hs⟩ := Option.bind_eq_some_iff.mp hs
  cases hs
  have hg : s.ofproto.nextGroup ∉ s.ofproto.pending := fun hmem =>
    Nat.lt_irrefl _ (h.groups _ hmem)
  have hst := modifyLoop_modifies (s := { s with ofproto := (ofopgroupCreate s.ofproto).1 }) hg
    (ofopgroupCreate_modifies s.ofproto) hrules h1
  have hdisplaced : ∀ a ∈ s.ofproto.victims s.ofproto.waiting, s1.ofproto.Displaced a := by
    intro a ha
    obtain ⟨hlive, hnot, hexp⟩ := h.inFlight.victim a ha
    exact ⟨hst.enclave ▸ hlive, hst.enclave ▸ hnot, hst.expirable ▸ hexp⟩
  have hsane := h.extend hst.ops (by rw [hst.enclave]; exact h.enclave) (by rw [hst.enclave])
    (fun i a ha => by rw [hst.tableId]; exact h.tableId i a (hst.enclave ▸ ha))
    (by rw [hst.expirable]; exact h.expirable)
    (fun a ha => by rw [hst.enclave]; exact h.onList a (hst.expirable ▸ ha)) hdisplaced
    (fun k hk => (hst.new k hk).1) (fun k hk => (hst.new k hk).2.1)
    (by rw [hst.no_victims]; exact List.nodup_nil) (by simp [hst.no_victims])
  refine ⟨s1.ofproto, hst, hsane, ?_, h2⟩
  rw [hst.ops.pending]
  exact hg

theorem modifyFlows_sane {rules : List UtAddr} {modifiable : List Bool} {error : Option Ofperr}
    (h : Sane s.ofproto) (hrules : ∀ a ∈ rules, ∃ i, s.ofproto.enclave.Installed i a)
    (hs : modifyFlows s fm rules modifiable = some (s', error)) : Sane s'.ofproto := by
  obtain ⟨o1, hst, hsane, hg, hsubmit⟩ := modifyFlows_starts h hrules hs
  exact (ofopgroupSubmit_sane hsane hg hst.lt hsubmit).1

theorem modifyFlows_shadowed {rules : List UtAddr} {modifiable : List Bool}
    {error : Option Ofperr} (h : Sane s.ofproto) (hb : s.ofproto.Accounted)
    (hw : s.ofproto.Shadowed s.ofproto.waiting)
    (hrules : ∀ a ∈ rules, ∃ i, s.ofproto.enclave.Installed i a)
    (hs : modifyFlows s fm rules modifiable = some (s', error)) :
    s'.ofproto.Shadowed s'.ofproto.waiting := by
  obtain ⟨o1, hst, hsane, hg, hsubmit⟩ := modifyFlows_starts h hrules hs
  refine BridgeInvariant.submit shadowed_invariant hsane hg hsubmit
    (hw.start h hb hst.ops (fun a ha _ => by rw [hst.enclave]; exact ha) (by simp [hst.no_victims])
      fun k hk => ?_)
  obtain ⟨-, -, -, i, hi⟩ := hst.new k hk
  rw [hst.no_victims, hst.enclave]
  exact ⟨hi.live, List.not_mem_nil, h.not_victim hi⟩

end Modify

end Shadowed

/-! ## Every run -/

section Runs

variable {o o' : Ofproto} {c : BridgeCall}

theorem run_shadowed (h : Sane o) (hb : o.Accounted) (hw : o.Shadowed o.waiting)
    (hc : c.Allowed o) (hspares : c.SparesShadows o) (hs : c.run o = some o') :
    o'.Shadowed o'.waiting := by
  cases c with
  | addFlow fm new construct =>
    obtain ⟨⟨o1, error⟩, h1, rfl⟩ := Option.map_eq_some_iff.mp hs
    exact addFlow_shadowed h hb hw hc h1
  | deleteFlows rules =>
    obtain ⟨l, hd, -⟩ := deleteFlows_deletes h hc.1 hc.2 hs
    exact hd.shadowed h hb hw
  | flush =>
    obtain ⟨l, hd, -⟩ := ofprotoFlush_deletes h hs
    exact hd.shadowed h hb hw
  | evict => exact ofprotoEvict_shadowed h hb hw hspares hs
  | ruleExpire a =>
    rcases ofprotoRuleExpire_deletes h hc hs with ⟨-, rfl⟩ | ⟨-, l, hd⟩
    · exact hw
    · exact hd.shadowed h hb hw
  | completeOperations => exact BridgeInvariant.operations shadowed_invariant h hs hw
  | clog clogged =>
    cases hs
    exact hw.same h hb ⟨rfl, rfl, Nat.le_refl _, Nat.le_refl _, fun _ _ => rfl, fun _ _ => rfl⟩
      fun _ ha => ha
  | configure c =>
    obtain ⟨s', h1, rfl⟩ := Option.map_eq_some_iff.mp hs
    obtain ⟨-, -, hcls, haddr⟩ := exec_config hc.1 h1
    refine hw.same h hb ⟨rfl, rfl, Nat.le_refl _, Nat.le_refl _, fun _ _ => rfl, fun _ _ => rfl⟩
      fun a ha => ?_
    obtain ⟨r, hr, rfl⟩ := ha
    refine ⟨r, ?_, by rw [haddr]⟩
    rw [Enclave.LiveRule, hcls]
    exact hr

/-- What the callers promise: rules that are modified are installed. -/
def FlowCall.Allowed {A : Type} (o : Ofproto) : FlowCall A → Prop
  | .bridge c => c.Allowed o
  | .modifyFlows _ rules _ => ∀ a ∈ rules, ∃ i, o.enclave.Installed i a

theorem FlowsReachable.sane {A : Type} [DecidableEq A]
    (h : FlowsReachable (A := A) FlowCall.Allowed o) : Sane o := by
  induction h with
  | create nTables enclaveRandom random hn => exact ofprotoCreate_sane hn enclaveRandom random
  | bridge c _ hc hs ih => exact (run_sane ih hc hs).1
  | modifyFlows fm rules modifiable _ hc hs ih => exact modifyFlows_sane ih hc hs

/-- What is promised besides: the memory of a new rule is not that of a rule with an operation
pending, and no eviction destroys shadows while the provider is clogged. -/
def FlowCall.Orderly {A : Type} (o : Ofproto) : FlowCall A → Prop
  | .bridge c => c.Allowed o ∧ c.FreshMemory o ∧ c.SparesShadows o
  | .modifyFlows _ rules _ => ∀ a ∈ rules, ∃ i, o.enclave.Installed i a

theorem FlowsReachable.shadowed {A : Type} [DecidableEq A]
    (h : FlowsReachable (A := A) FlowCall.Orderly o) :
    Sane o ∧ o.Accounted ∧ o.Shadowed o.waiting := by
  induction h with
  | create nTables enclaveRandom random hn =>
    refine ⟨ofprotoCreate_sane hn enclaveRandom random, ofprotoCreate_accounted _ _ _, ?_⟩
    intro k hk
    simp [Ofproto.waiting, ofprotoCreate] at hk
  | bridge c _ hc hs ih =>
    obtain ⟨hsane, hb, hw⟩ := ih
    exact ⟨(run_sane hsane hc.1 hs).1, (run_accounted hb hc.2.1 hs).1,
      run_shadowed hsane hb hw hc.1 hc.2.2 hs⟩
  | modifyFlows fm rules modifiable _ hc hs ih =>
    obtain ⟨hsane, hb, hw⟩ := ih
    exact ⟨modifyFlows_sane hsane hc hs, (modifyFlows_accounted hb hs).1,
      modifyFlows_shadowed hsane hb hw hc hs⟩

/-- In every such run, once the provider is not clogged `complete_operations` returns, and nothing
is in flight any more. -/
theorem completeOperations_drains {A : Type} [DecidableEq A]
    (h : FlowsReachable (A := A) FlowCall.Orderly o) :
    ∃ o', completeOperations { o with clogged := false } = some o' ∧ o'.Quiet := by
  have hunclogged := h.bridge (.clog false) ⟨trivial, trivial, trivial⟩ rfl
  obtain ⟨hsane, hb, hw⟩ := hunclogged.shadowed
  exact completeOperations_quiet hsane hb hw rfl

end Runs

/-- The deletion that had to wait is done. -/
theorem deletingFlow_drains :
    ∃ o', completeOperations { deletingFlow with clogged := false } = some o' ∧ o'.Quiet :=
  completeOperations_drains (A := Unit) (deletingFlow_orderly.flows fun _ _ hc => hc)

end OvsSgx
