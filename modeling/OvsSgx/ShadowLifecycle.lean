/-
OvsSgx.ShadowLifecycle — the shadow of a rule and the rule's memory.

The enclave should have a shadow of exactly the rules whose memory is not
freed. A completed deletion breaks this: `ofopgroup_complete` frees the
rule with `rule_dealloc` and never tells the enclave. It holds in every run
whose calls complete no such deletion and never evict while the provider is
clogged. It also holds in the course of these calls, wherever operations
are completed, but for `ofproto_evict`: that destroys the shadows of the
rules it evicts before their operations are completed.
-/
import OvsSgx.OperationDrain

namespace OvsSgx

/-- The rules with a shadow are the rules in memory, each of these is found by its address, and
those with an operation pending are among them. -/
structure ShadowLifecycle (o : Ofproto) : Prop where
  live : ∀ a, o.enclave.Live a ↔ a ∈ o.allocated
  resolves : ∀ a ∈ o.allocated, ∃ r, sgxRuleFromUtCr o.enclave a = some r ∧
    o.enclave.oClsRule r = a
  pending : ∀ a, (o.rule a).pending ≠ none → o.enclave.Live a

/-- The calls of a run are allowed and clean. -/
def CleanCall (o : Ofproto) (c : BridgeCall) : Prop := c.Allowed o ∧ c.Clean o

/-- The same, and nothing is evicted. -/
def SteadyCall (o : Ofproto) (c : BridgeCall) : Prop :=
  CleanCall o c ∧ (c = .evict → totalSelected o.enclave o.nTables = 0)

section Lifecycle

variable {o o' o1 : Ofproto} {W ks : List OpId} {a : UtAddr} {g : GroupId} {c : BridgeCall}
  {isHidden : Bool}

/-! ## Rules with an operation pending -/

/-- The rules with an operation pending have their shadows, and none is a victim of `W`. -/
def Ofproto.Held (o : Ofproto) (W : List OpId) : Prop :=
  ∀ a, (o.rule a).pending ≠ none → o.Spared (fun s => s.Live a) a W

/-- Completing an operation leaves no rule pending that was not. -/
theorem completeOp_pending {k : OpId} (hs : completeOp isHidden o k = some o')
    (ha : (o'.rule a).pending ≠ none) : (o.rule a).pending ≠ none := by
  rw [(completeOp_books hs).rule] at ha
  by_cases hrule : a = (o.op k).rule
  · simp [ofoperationDestroy, Ofproto.setPending, hrule] at ha
  · simpa [ofoperationDestroy, Ofproto.setPending, hrule] using ha

theorem held_invariant : BridgeInvariant fun W o => o.Held W where
  complete h hs hh a ha := by
    obtain ⟨hs, -⟩ := completeOpWith_fst hs
    exact completeOp_spared (survives_live a) h hs (hh a (completeOp_pending hs ha))
  fewer hsub hh a ha := (hh a ha).fewer hsub.subset
  congr {W o o' _} henc hrule hop hh a ha := by
    have hvic : o'.victims W = o.victims W := List.filterMap_congr fun k _ => (hop k).2.2
    rw [hrule] at ha
    obtain ⟨hlive, hnot⟩ := hh a ha
    exact ⟨by rw [henc]; exact hlive, by rw [hvic]; exact hnot⟩

/-- The operations `W` are no deletions. -/
theorem noDeletion_invariant : BridgeInvariant fun W o => ∀ k ∈ W, (o.op k).type ≠ .delete where
  complete h hs hne k hk := by
    rw [(completeOp_sane h (completeOpWith_fst hs).1).2.1.op]
    exact hne k (List.mem_cons_of_mem _ hk)
  fewer hsub hne k hk := hne k (hsub.subset hk)
  congr _ _ hop hne k hk := by
    rw [(hop k).2.1]
    exact hne k hk

/-- Between two calls every pending rule is that of an operation in flight. -/
theorem Ofproto.Shadowed.held (hw : o.Shadowed o.waiting) (hb : o.Accounted) :
    o.Held o.waiting := by
  intro a ha
  obtain ⟨k, hk⟩ := Option.ne_none_iff_exists'.mp ha
  obtain ⟨rfl, hg, hops⟩ := hb.accounts.pending a k hk
  exact hw k (List.mem_flatMap.mpr ⟨_, hg, hops⟩)

/-- New operations `N`, on rules that are no victims, and victims that had none pending. -/
theorem Ofproto.Held.start (hh : o.Held o.waiting) (h : Sane o) (hops : SameOps o o')
    {N : List OpId}
    (hlive : ∀ a, o.enclave.Live a → (o.rule a).pending ≠ none → o'.enclave.Live a)
    (hvictims : ∀ a ∈ o'.victims N, (o.rule a).pending = none)
    (hnew : ∀ a, (o'.rule a).pending ≠ none → (o.rule a).pending ≠ none ∨
      (o'.enclave.Live a ∧ a ∉ o'.victims N ∧ a ∉ o.victims o.waiting)) :
    o'.Held (N ++ o'.waiting) := by
  intro a ha
  have hvic := hops.victims h N
  rcases hnew a ha with hp | ⟨h1, h2, h3⟩
  · obtain ⟨hlive', hnot⟩ := hh a hp
    refine ⟨hlive a hlive' hp, fun hv => ?_⟩
    rw [hvic] at hv
    rcases List.mem_append.mp hv with hv | hv
    · exact hp (hvictims a hv)
    · exact hnot hv
  · exact ⟨h1, by simp [hvic, h2, h3]⟩

theorem shadowLifecycle (h : SaneWith W o) (ht : Tracks o) (hh : o.Held W) :
    ShadowLifecycle o := by
  refine ⟨ht.live, fun a ha => ?_, fun a ha => (hh a ha).holds⟩
  obtain ⟨r, hlook, haddr, -⟩ := ((ht.live a).mpr ha).lookup h.enclave.shadows
  exact ⟨r, hlook, haddr⟩

/-- After each of the operations `ks`, none of which is a deletion. -/
theorem foldlM_completeOp_lifecycle (n : Nat) (h : SaneWith (ks ++ W) o) (ht : Tracks o)
    (hh : o.Held (ks ++ W)) (hne : ∀ k ∈ ks, (o.op k).type ≠ .delete)
    (hs : (ks.take n).foldlM (completeOp isHidden) o = some o') : ShadowLifecycle o' := by
  have hsplit : ks.take n ++ (ks.drop n ++ W) = ks ++ W := by
    rw [← List.append_assoc, List.take_append_drop]
  rw [← hsplit] at h hh
  obtain ⟨hsane, -, htracks⟩ := foldlM_completeOp_sane h hs
  exact shadowLifecycle hsane (htracks (fun k hk => hne k (List.mem_of_mem_take hk)) ht)
    (BridgeInvariant.foldlM held_invariant h hs hh)

/-! ## In the course of a call -/

/-- The state in which a call submits the group of its operations, and whether it has the array
`is_hidden` then. Where `rule_construct` fails the group is empty. -/
def BridgeCall.submits (o : Ofproto) : BridgeCall → Option (Ofproto × Bool)
  | .addFlow fm new none => (startAddFlow o fm new).map fun o1 => (o1, false)
  | .deleteFlows rules => (startDeleteFlows o rules).map fun o1 => (o1, false)
  | .flush => (startFlush o).map fun o1 => (o1, false)
  | .evict => (startEviction o).map fun e => (e.1, true)
  | .ruleExpire a =>
    if (o.rule a).pending.isSome then none else (startExpire o a).map fun o1 => (o1, false)
  | _ => none

/-- The states in the course of a call wherever operations are completed: when it submits its
group and after each operation that is completed with it, after each completion that had been put
off and after each operation of the group that this one completes. Until it submits its group a
call frees no rule of an operation. -/
inductive BridgeCall.Passes (o : Ofproto) : BridgeCall → Ofproto → Prop where
  | submitted {c : BridgeCall} {o1 : Ofproto} {isHidden : Bool} :
      c.submits o = some (o1, isHidden) → Passes o c o1
  | completed {c : BridgeCall} {o1 o2 : Ofproto} {isHidden : Bool} (n : Nat) :
      c.submits o = some (o1, isHidden) → (o1.group o.nextGroup).nRunning = 0 →
      ((o1.group o.nextGroup).ops.take n).foldlM (completeOp isHidden) o1 = some o2 →
      Passes o c o2
  | reported {o1 : Ofproto} (n : Nat) : o.clogged = false →
      (o.completions.take n).foldlM (fun o k => ofoperationComplete o k none) o = some o1 →
      Passes o .completeOperations o1
  | finished {o1 o2 : Ofproto} {k : OpId} (n m : Nat) : o.clogged = false →
      (o.completions.take n).foldlM (fun o k => ofoperationComplete o k none) o = some o1 →
      o.completions[n]? = some k → (o1.group (o1.op k).group).nRunning = 1 →
      (o1.op k).group ∈ o1.pending →
      (((o1.markCompleted k none).group (o1.op k).group).ops.take m).foldlM (completeOp false)
        (o1.markCompleted k none) = some o2 →
      Passes o .completeOperations o2

/-- What a call does from then on is the submission of its group. -/
theorem BridgeCall.run_submits (hs : c.submits o = some (o1, isHidden)) :
    c.run o = ofopgroupSubmit o1 o.nextGroup isHidden := by
  cases c with
  | addFlow fm new construct =>
    cases construct with
    | some error => cases hs
    | none =>
      obtain ⟨o2, h2, heq⟩ := Option.map_eq_some_iff.mp hs
      cases heq
      rw [BridgeCall.run, startAddFlow_submits h2, Option.map_map]
      exact Option.map_id'
  | deleteFlows rules =>
    obtain ⟨o2, h2, heq⟩ := Option.map_eq_some_iff.mp hs
    cases heq
    rw [BridgeCall.run, deleteFlows_submits, h2, Option.bind_some]
  | flush =>
    obtain ⟨o2, h2, heq⟩ := Option.map_eq_some_iff.mp hs
    cases heq
    rw [BridgeCall.run, ofprotoFlush_submits, h2, Option.bind_some]
  | evict =>
    obtain ⟨e, h2, heq⟩ := Option.map_eq_some_iff.mp hs
    cases heq
    rw [BridgeCall.run, ofprotoEvict_eq, h2, Option.bind_some]
  | ruleExpire a =>
    simp only [BridgeCall.submits] at hs
    split at hs
    · cases hs
    · rename_i hp
      obtain ⟨o2, h2, heq⟩ := Option.map_eq_some_iff.mp hs
      cases heq
      rw [BridgeCall.run, ofprotoRuleExpire_submits (by simpa using hp), h2, Option.bind_some]
  | completeOperations => cases hs
  | clog clogged => cases hs
  | configure c => cases hs

/-- A group that is about to be submitted, without a deletion that is completed then. -/
structure Submission (o : Ofproto) (g : GroupId) : Prop where
  sane : SaneWith ((o.group g).ops ++ o.waiting) o
  tracks : Tracks o
  held : o.Held ((o.group g).ops ++ o.waiting)
  waits : 0 < (o.group g).nRunning ∨ ∀ k ∈ (o.group g).ops, (o.op k).type ≠ .delete

theorem DeletesStarted.submission {l : List (UtAddr × U32)} (h : Sane o) (ht : Tracks o)
    (hh : o.Held o.waiting) (hd : DeletesStarted o o1 l) (hclean : o.clogged = true ∨ l = []) :
    Submission o1 o.nextGroup := by
  obtain ⟨s', T, hcl, hT, hl, hall, -, hsane, -⟩ := hd.spec h
  have henc : o1.enclave = s' := hall.enclave
  refine ⟨hsane, hd.tracks h ht, ?_, hd.waits h hclean⟩
  refine hh.start h hall.sameOps (fun a ha _ => ?_) (by simp [hall.no_victims]) fun a ha => ?_
  · rw [henc, hcl.live]
    exact ha
  · by_cases hmem : a ∈ l.map Prod.fst
    · obtain ⟨e, he, rfl⟩ := List.mem_map.mp hmem
      obtain ⟨r, hr, hra⟩ := List.mem_map.mp (hl e he)
      obtain ⟨i, hi⟩ := hT r hr
      have hinst := h.enclave.installed_self hi
      rw [hra] at hinst
      rw [henc, hcl.live, hall.no_victims]
      exact .inr ⟨hinst.live, List.not_mem_nil, h.not_victim hinst⟩
    · rw [hall.rule a hmem] at ha
      exact .inl ha

/-- An eviction that evicts nothing. -/
theorem EvictionStarted.submission {T : List RuleId} (h : Sane o) (ht : Tracks o)
    (hh : o.Held o.waiting) (hst : EvictionStarted o o1 [] T) : Submission o1 o.nextGroup := by
  obtain ⟨s0, hops⟩ := hst.ops
  have hlive : ∀ a, o1.enclave.Live a ↔ o.enclave.Live a := fun a => by simp [hst.live h]
  refine ⟨(hst.sane h).1, ⟨fun a => ?_, ?_⟩, ?_, .inr (by simp [hops.newGroup.1])⟩
  · rw [hlive, hops.allocated]
    exact ht.live a
  · rw [hops.allocated]
    exact ht.nodup
  · refine hh.start h hops.sameOps (fun a ha _ => (hlive a).mpr ha) (by simp [hops.no_victims])
      fun a ha => ?_
    rw [hops.rule a List.not_mem_nil] at ha
    exact .inl ha

/-- The addition of a flow that evicts no rule, or has its operations wait. -/
theorem startAddFlow_submission {fm : FlowMod} {new : NewRule} (h : Sane o) (ht : Tracks o)
    (hh : o.Held o.waiting) (hnew : o.enclave.NewAddr new.cr)
    (hclean : BridgeCall.Clean o (.addFlow fm new none)) (hs : startAddFlow o fm new = some o1) :
    Submission o1 o.nextGroup := by
  obtain ⟨s', out, V, E, hgood, hecall, hadd, hpe, hpv, hst, hops⟩ := startAddFlow_spec h hnew hs
  have hent := entered_flowEntered o fm new s' out.victim
  have hsane : SaneWith ((o1.group o.nextGroup).ops ++ o1.waiting) o1 :=
    (hst.saneWith h hnew (FlowMod.table_lt h.nTables hgood) hadd hent).1
  have henc : o1.enclave = s' := hst.enclave.trans hent.enclave
  have hvic : o1.victims (o1.group o.nextGroup).ops = out.victim.toList := hst.victims
  have hnone : o.clogged = true ∨ E = none := by
    refine hadd.evicts_none hecall hgood hpe hpv ?_
    rcases hclean with hclog | hne | hrest
    · exact .inl hclog
    · exact absurd rfl hne
    · exact .inr hrest
  have hwaits := hst.waits hadd hnone
  refine ⟨hsane, hst.tracks h hnew hadd hent ht, ?_, hwaits⟩
  refine hh.start h (hent.ops.trans hst.ops) (fun a ha _ => ?_) (fun a ha => ?_) fun a ha => ?_
  · rw [henc]
    exact (hadd.live h.enclave a).mpr (.inr ha)
  · rw [hvic, Option.mem_toList] at ha
    exact isPending_eq_false hpv ha
  · rw [hvic, henc, hadd.live h.enclave]
    by_cases hcr : a = new.cr
    · refine .inr ⟨.inl hcr, fun hv => ?_, fun hv => ?_⟩
      · exact hnew.ne (hadd.out_live h (.inr (Option.mem_toList.mp hv))) hcr
      · exact hnew.ne (h.inFlight.victim _ hv).live hcr
    · by_cases hev : out.evict = some a
      · rw [hadd.outEvict] at hev
        obtain ⟨e, he, rfl⟩ := Option.map_eq_some_iff.mp hev
        obtain ⟨hgroup, hVe⟩ := hadd.evicted e he
        have hmem := h.enclave.installed _ e hgroup
        have hinst := h.enclave.installed_self hmem
        refine .inr ⟨.inr hinst.live, fun hv => ?_, h.not_victim hinst⟩
        -- the victim would be the evicted rule
        rw [Option.mem_toList, hadd.outVictim] at hv
        obtain ⟨v, hv, heq⟩ := Option.map_eq_some_iff.mp hv
        have hlive := h.enclave.live _ v ((hadd.victim v).mp hv).1
        rw [h.enclave.shadows.eq_of_oClsRule hlive (h.enclave.live _ e hmem) heq] at hv
        exact hVe hv
      · rw [hops.rule a hcr hev] at ha
        simp [relinkExpirable, entered, evictionGroupPriority, allocRule, hcr] at ha
        exact .inl ha

theorem submits_submission (h : Sane o) (ht : Tracks o) (hh : o.Held o.waiting)
    (hc : SteadyCall o c) (hs : c.submits o = some (o1, isHidden)) :
    Submission o1 o.nextGroup := by
  obtain ⟨⟨hallowed, hclean⟩, hevict⟩ := hc
  cases c with
  | addFlow fm new construct =>
    cases construct with
    | some error => cases hs
    | none =>
      obtain ⟨o2, h2, heq⟩ := Option.map_eq_some_iff.mp hs
      cases heq
      exact startAddFlow_submission h ht hh hallowed hclean h2
  | deleteFlows rules =>
    obtain ⟨o2, h2, heq⟩ := Option.map_eq_some_iff.mp hs
    cases heq
    obtain ⟨l, hd, hnil⟩ := startDeleteFlows_deletes h hallowed.1 hallowed.2 h2
    exact hd.submission h ht hh (hclean.imp id hnil)
  | flush =>
    obtain ⟨o2, h2, heq⟩ := Option.map_eq_some_iff.mp hs
    cases heq
    obtain ⟨l, hd, hnil⟩ := startFlush_deletes h h2
    exact hd.submission h ht hh (hclean.imp id hnil)
  | evict =>
    obtain ⟨⟨o2, hidden⟩, h2, heq⟩ := Option.map_eq_some_iff.mp hs
    cases heq
    rcases startEviction_spec h with
      ⟨hnone, -⟩ | ⟨o3, entries, T, n, h3, -, -, -, -, hlen, -, -, hst, -⟩
    · rw [hnone] at h2
      cases h2
    · cases h3.symm.trans h2
      have hnil := hst.rules
      rw [List.length_eq_zero_iff.mp (hlen.trans (hevict rfl)), List.take_nil, List.map_nil,
        List.map_eq_nil_iff] at hnil
      rw [hnil] at hst
      exact hst.submission h ht hh
  | ruleExpire a =>
    simp only [BridgeCall.submits] at hs
    split at hs
    · cases hs
    · rename_i hp
      obtain ⟨o2, h2, heq⟩ := Option.map_eq_some_iff.mp hs
      cases heq
      obtain ⟨l, hd⟩ := startExpire_deletes h hallowed (by simpa using hp) h2
      exact hd.submission h ht hh (hclean.imp id fun hpend => absurd hpend hp)
  | completeOperations => cases hs
  | clog clogged => cases hs
  | configure c => cases hs

/-- In the course of a call the shadows stay with the memory. -/
theorem passes_lifecycle (h : Sane o) (ht : Tracks o) (hh : o.Held o.waiting)
    (hc : SteadyCall o c) (hp : c.Passes o o1) : ShadowLifecycle o1 := by
  cases hp with
  | submitted hs =>
    have hsub := submits_submission h ht hh hc hs
    exact shadowLifecycle hsub.sane hsub.tracks hsub.held
  | completed n hs hzero hfold =>
    have hsub := submits_submission h ht hh hc hs
    exact foldlM_completeOp_lifecycle n hsub.sane hsub.tracks hsub.held
      (hsub.waits.resolve_left (by omega)) hfold
  | reported n hclog hfold =>
    have hne := hc.1.2.resolve_left (by simp [hclog])
    obtain ⟨hsane, htracks⟩ := foldlM_ofoperationComplete_sane h hfold
    exact shadowLifecycle hsane (htracks hne ht)
      (BridgeInvariant.foldlM_operations held_invariant h hfold hh)
  | @finished o1 o2 k n m hclog hfold hk hlast hmem hgroup =>
    have hne := hc.1.2.resolve_left (by simp [hclog])
    obtain ⟨hsane, htracks⟩ := foldlM_ofoperationComplete_sane h hfold
    have hheld := BridgeInvariant.foldlM_operations held_invariant h hfold hh
    have hne1 := BridgeInvariant.foldlM_operations noDeletion_invariant h hfold hne
    have hmark := BridgeInvariant.mark held_invariant k hheld
    have hne2 := BridgeInvariant.mark noDeletion_invariant k hne1
    have ht1 := htracks hne ht
    have hperm := Ofproto.waiting_perm (o := o1.markCompleted k none) hmem
    exact foldlM_completeOp_lifecycle m ((markCompleted_sane hsane k).subperm hperm.symm.subperm)
      ⟨ht1.live, ht1.nodup⟩ (held_invariant.fewer (s := (_, ())) hperm.symm.subperm hmark)
      (fun j hj => hne2 j (hperm.symm.subset (List.mem_append_left _ hj))) hgroup

/-! ## Every run -/

theorem ofprotoCreate_tracks (nTables : Nat) (enclaveRandom random : Nat → BitVec 16) :
    Tracks (ofprotoCreate nTables enclaveRandom random) := by
  refine ⟨fun a => iff_of_false ?_ (by simp [ofprotoCreate]), List.nodup_nil⟩
  rintro ⟨r, hr, -⟩
  simp [Enclave.LiveRule, ChainMap.values, ofprotoCreate, ecallOfprotoInitTables, hmapInit] at hr

/-- Memory that is new to the enclave is not that of a pending rule. -/
theorem Ofproto.Held.freshMemory (hh : o.Held o.waiting) (hc : c.Allowed o) : c.FreshMemory o := by
  cases c with
  | addFlow fm new construct =>
    by_contra hp
    exact Enclave.NewAddr.ne hc (hh new.cr hp).holds rfl
  | _ => trivial

theorem BridgeCall.Clean.spares (hc : c.Clean o) : c.SparesShadows o := by
  cases c with
  | evict => exact hc
  | _ => trivial

/-- Shadows and memory stay together in a clean run. -/
theorem OfprotoReachable.tracks (h : OfprotoReachable CleanCall o) :
    Sane o ∧ Tracks o ∧ o.Held o.waiting := by
  suffices hall : Sane o ∧ Tracks o ∧ o.Accounted ∧ o.Shadowed o.waiting from
    ⟨hall.1, hall.2.1, hall.2.2.2.held hall.2.2.1⟩
  induction h with
  | create nTables enclaveRandom random hn =>
    refine ⟨ofprotoCreate_sane hn enclaveRandom random, ofprotoCreate_tracks _ _ _,
      ofprotoCreate_accounted _ _ _, fun k hk => ?_⟩
    simp [Ofproto.waiting, ofprotoCreate] at hk
  | step c _ hc hs ih =>
    obtain ⟨hsane, ht, hb, hw⟩ := ih
    obtain ⟨hsane', htracks⟩ := run_sane hsane hc.1 hs
    exact ⟨hsane', htracks hc.2 ht, (run_accounted hb ((hw.held hb).freshMemory hc.1) hs).1,
      run_shadowed hsane hb hw hc.1 hc.2.spares hs⟩

/-- In every state of a clean run the enclave has the shadows of the rules in memory and no
others, and so it has in the course of every call that evicts nothing. -/
theorem shadowLifecycle_of_clean (h : OfprotoReachable CleanCall o) :
    ShadowLifecycle o ∧ ∀ c o1, SteadyCall o c → c.Passes o o1 → ShadowLifecycle o1 := by
  obtain ⟨hsane, htracks, hheld⟩ := h.tracks
  exact ⟨shadowLifecycle hsane htracks hheld,
    fun c o1 hc hp => passes_lifecycle hsane htracks hheld hc hp⟩

end Lifecycle

/-! ## Two runs -/

/-- The flow is added again. -/
def replaceFlow : BridgeCall := .addFlow (expiringFlow 7#32 1) (ruleAt 2#64) none

/-- The second flow replaces the first, then the third is added and the limit of the table
evicts one of the two that are left. -/
def cleanBridge : Ofproto :=
  (((oneFlow.after replaceFlow).after (.addFlow (expiringFlow 8#32 1) (ruleAt 3#64) none)).after
    (.configure (.oftableMflowsSet 0 1))).after .evict

theorem oneFlow_clean : OfprotoReachable CleanCall oneFlow :=
  (newBridge_reachable fun _ _ _ _ => ⟨⟨rfl, trivial⟩, trivial⟩).after
    ⟨show Enclave.NewAddr _ 1#64 by decide +kernel, .inr (.inr (.inr fun _ _ he =>
      absurd he (not_evictsFor (by decide +kernel))))⟩

theorem replaceFlow_clean : CleanCall oneFlow replaceFlow :=
  ⟨show Enclave.NewAddr _ 2#64 by decide +kernel, .inr (.inr (.inr fun _ _ he =>
    absurd he (not_evictsFor (by decide +kernel))))⟩

theorem cleanBridge_reachable : OfprotoReachable CleanCall cleanBridge := by
  have h2 := oneFlow_clean.after replaceFlow_clean
  have h3 := h2.after (c := .addFlow (expiringFlow 8#32 1) (ruleAt 3#64) none)
    ⟨show Enclave.NewAddr _ 3#64 by decide +kernel, .inr (.inr (.inr fun e v he =>
      absurd he (not_evictsFor (by decide +kernel))))⟩
  have h4 := h3.after (c := .configure (.oftableMflowsSet 0 1)) ⟨⟨rfl, trivial⟩, trivial⟩
  exact h4.after (c := .evict) ⟨trivial, .inl (by decide +kernel)⟩

/-- While the flow is added again, the first rule is freed when the addition is completed. -/
theorem replaceFlow_passes : ∃ o1, replaceFlow.Passes oneFlow o1 ∧ o1.allocated = [2#64] := by
  have hstart : ((startAddFlow oneFlow (expiringFlow 7#32 1) (ruleAt 2#64)).bind fun o1 =>
      if (o1.group oneFlow.nextGroup).nRunning = 0 then
        (((o1.group oneFlow.nextGroup).ops.take 1).foldlM (completeOp false) o1).map
          Ofproto.allocated
      else none) = some [2#64] := by
    decide +kernel
  obtain ⟨o1, h1, hstart⟩ := Option.bind_eq_some_iff.mp hstart
  split at hstart
  · rename_i hzero
    obtain ⟨o2, h2, halloc⟩ := Option.map_eq_some_iff.mp hstart
    have hsubmits : replaceFlow.submits oneFlow = some (o1, false) := by
      rw [replaceFlow, BridgeCall.submits, h1, Option.map_some]
    exact ⟨o2, .completed 1 hsubmits hzero h2, halloc⟩
  · cases hstart

theorem cleanBridge_lifecycle :
    (OfprotoReachable CleanCall cleanBridge ∧ cleanBridge.allocated = [3#64] ∧
      ShadowLifecycle cleanBridge) ∧
    ∃ o1, replaceFlow.Passes oneFlow o1 ∧ o1.allocated = [2#64] ∧ ShadowLifecycle o1 := by
  refine ⟨⟨cleanBridge_reachable, by decide +kernel,
    (shadowLifecycle_of_clean cleanBridge_reachable).1⟩, ?_⟩
  obtain ⟨o1, hpass, halloc⟩ := replaceFlow_passes
  exact ⟨o1, hpass, halloc, (shadowLifecycle_of_clean oneFlow_clean).2 replaceFlow o1
    ⟨replaceFlow_clean, by simp [replaceFlow]⟩ hpass⟩

/-- A flow is added and deleted again, the deletion completed at once. -/
def leakyBridge : Ofproto :=
  (newBridge.after (.addFlow (expiringFlow 7#32 1) (ruleAt 1#64) none)).after (.deleteFlows [1#64])

/-- The shadow of the deleted flow is still there, its memory is not. -/
theorem leakyBridge_lifecycle_fails :
    ¬ ∀ o, OfprotoReachable (fun o c => c.Allowed o) o → ShadowLifecycle o := by
  intro hall
  have h0 : OfprotoReachable (fun o c => c.Allowed o) newBridge :=
    newBridge_reachable fun o i fields v => ⟨rfl, trivial⟩
  have h1 := h0.after (c := .addFlow (expiringFlow 7#32 1) (ruleAt 1#64) none)
    (show Enclave.NewAddr _ 1#64 by decide +kernel)
  have h2 := h1.after (c := .deleteFlows [1#64])
    ⟨by
      intro a ha
      rw [List.mem_singleton.mp ha]
      exact ⟨0, by decide +kernel⟩, by simp⟩
  have hmem := ((hall leakyBridge h2).live 1#64).mp (by decide +kernel)
  exact absurd hmem (by decide +kernel)

end OvsSgx
