/-
OvsSgx.PendingAdditions — the rules whose additions are still to be completed.

Between the start of an addition and its completion the new rule has no
other operation: its `pending` member names the addition, and whatever
starts an operation on a rule insists that it has none pending. So its
shadow stays, no eviction selects it, and no other addition displaces it.
`A` is what else is known of such rules.

`malloc` is relied on here: it does not return the memory of a rule that an
operation refers to.
-/
import OvsSgx.PendingDeletions

namespace OvsSgx

/-! ## Additions in flight -/

/-- The rule at `a` has an operation pending and a shadow, which the operations `W` leave alone. -/
structure Ofproto.BeingAdded (A : UtAddr → Prop) (o : Ofproto) (W : List OpId) (a : UtAddr) :
    Prop where
  holds : A a
  pending : (o.rule a).pending ≠ none
  spared : o.Spared (fun s => s.Live a) a W

/-- Of the operations `W` an addition is the only one on its rule. -/
structure Ofproto.Awaits (A : UtAddr → Prop) (o : Ofproto) (W : List OpId) : Prop where
  nodup : W.Nodup
  alone : ∀ j ∈ W, ∀ k ∈ W, (o.op k).type = .add → (o.op j).rule = (o.op k).rule → j = k
  addition : ∀ k ∈ W, (o.op k).type = .add → o.BeingAdded A W (o.op k).rule

section Awaits

variable {A B : UtAddr → Prop} {o o' : Ofproto} {W W' : List OpId} {a : UtAddr} {k : OpId}
  {g : GroupId} {isHidden : Bool}

theorem Ofproto.Awaits.imp (h : o.Awaits A W)
    (hAB : ∀ k ∈ W, (o.op k).type = .add → A (o.op k).rule → B (o.op k).rule) : o.Awaits B W := by
  refine ⟨h.nodup, h.alone, fun k hk htype => ?_⟩
  obtain ⟨hA, hpending, hspared⟩ := h.addition k hk htype
  exact ⟨hAB k hk htype hA, hpending, hspared⟩

/-- An addition in flight is on a rule of its own. -/
theorem Ofproto.Awaits.rule_ne (h : o.Awaits A (k :: W)) {j : OpId} (hj : j ∈ W)
    (htype : (o.op j).type = .add) : (o.op j).rule ≠ (o.op k).rule := by
  intro heq
  have hkj := h.alone k (List.mem_cons_self ..) j (List.mem_cons_of_mem k hj) htype heq.symm
  exact (List.nodup_cons.mp h.nodup).1 (hkj ▸ hj)

theorem Ofproto.Spared.fewer {Q : Enclave → Prop} (h : o.Spared Q a W) (hsub : W' ⊆ W) :
    o.Spared Q a W' :=
  ⟨h.holds, fun hv => h.victim (victims_subset hsub hv)⟩

theorem Ofproto.Awaits.fewer (h : o.Awaits A W) (hsub : W'.Subperm W) : o.Awaits A W' := by
  have hmem : ∀ k ∈ W', k ∈ W := fun k hk => hsub.subset hk
  refine ⟨?_, fun j hj k hk => h.alone j (hmem j hj) k (hmem k hk), fun k hk htype => ?_⟩
  · obtain ⟨l, hperm, hl⟩ := hsub
    exact hperm.nodup_iff.mp (h.nodup.sublist hl)
  · obtain ⟨hA, hpending, hspared⟩ := h.addition k (hmem k hk) htype
    exact ⟨hA, hpending, hspared.fewer hsub.subset⟩

/-- The enclave, the rules and what the operations are about stay the same. -/
theorem Ofproto.Awaits.congr (h : o.Awaits A W) (henc : o'.enclave = o.enclave)
    (hrule : o'.rule = o.rule) (hop : ∀ k, (o'.op k).rule = (o.op k).rule ∧
      (o'.op k).type = (o.op k).type ∧ (o'.op k).victim = (o.op k).victim) :
    o'.Awaits A W := by
  have hvic : o'.victims W = o.victims W := List.filterMap_congr fun k _ => (hop k).2.2
  refine ⟨h.nodup, fun j hj k hk htype heq => ?_, fun k hk htype => ?_⟩
  · rw [(hop k).2.1] at htype
    rw [(hop j).1, (hop k).1] at heq
    exact h.alone j hj k hk htype heq
  · rw [(hop k).2.1] at htype
    obtain ⟨hA, hpending, hspared⟩ := h.addition k hk htype
    rw [(hop k).1]
    refine ⟨hA, by rw [hrule]; exact hpending, ?_, ?_⟩
    · rw [henc]
      exact hspared.holds
    · rw [hvic]
      exact hspared.victim

/-! ## Completing operations -/

theorem survives_live (a : UtAddr) : Survives (fun s => s.Live a) a := by
  intro s s' v h hlive hnot hne hdes hold
  obtain ⟨s1, h1, hout⟩ := ecallClsRuleDestroy_outcome h hlive hnot
  obtain rfl := Option.some.inj (h1.symm.trans hdes)
  exact (hout.live a).mpr ⟨hold, hne.symm⟩

/-- Completing an operation writes to its own rule only. -/
theorem completeOp_rule (hs : completeOp isHidden o k = some o') (ha : a ≠ (o.op k).rule) :
    o'.rule a = o.rule a := by
  obtain ⟨_, -, hs⟩ := Option.bind_eq_some_iff.mp hs
  obtain ⟨o1, hcommit, hs⟩ := Option.bind_eq_some_iff.mp hs
  cases hs
  obtain ⟨hrule, hop⟩ := (commitOperation_steps hcommit).same
  have hop' : o1.op = o.op := hop
  show Function.update o1.rule (o1.op k).rule _ a = _
  rw [hop', Function.update_of_ne ha, hrule]
  exact Function.update_of_ne ha _ _

theorem completeOp_awaits (h : SaneWith (k :: W) o) (hs : completeOp isHidden o k = some o')
    (hw : o.Awaits A (k :: W)) : o'.Awaits A W := by
  have herr := h.inFlight.error k (List.mem_cons_self ..)
  have hop := (completeOp_enclave herr hs).1
  have hmem : ∀ j ∈ W, j ∈ k :: W := fun j hj => List.mem_cons_of_mem k hj
  refine ⟨(List.nodup_cons.mp hw.nodup).2, fun i hi j hj htype heq => ?_, fun j hj htype => ?_⟩
  · rw [hop] at htype heq
    exact hw.alone i (hmem i hi) j (hmem j hj) htype heq
  · rw [hop] at htype ⊢
    obtain ⟨hA, hpending, hspared⟩ := hw.addition j (hmem j hj) htype
    refine ⟨hA, ?_, completeOp_spared (survives_live _) h hs hspared⟩
    rw [completeOp_rule hs (hw.rule_ne hj htype)]
    exact hpending

theorem awaits_invariant (A : UtAddr → Prop) : BridgeInvariant fun W o => o.Awaits A W where
  complete h hs hw := completeOp_awaits h (completeOpWith_fst hs).1 hw
  fewer hsub hw := hw.fewer hsub
  congr henc hrule hop hw := hw.congr henc hrule hop

/-! ## Starting operations -/

/-- New operations `N`, on rules that no addition is waiting for. -/
theorem Ofproto.Awaits.start (hw : o.Awaits A o.waiting) (h : Sane o) (hops : SameOps o o')
    {N : List OpId} (hnodup : N.Nodup) (hfresh : ∀ k ∈ N, o.nextOp ≤ k)
    (hlive : ∀ a, o.enclave.Live a → (o.rule a).pending ≠ none → o'.enclave.Live a)
    (hpending : ∀ a, o.enclave.Live a → (o.rule a).pending ≠ none → (o'.rule a).pending ≠ none)
    (hvictims : ∀ a ∈ o'.victims N, (o.rule a).pending = none)
    (hold : ∀ j ∈ N, ∀ k ∈ o.waiting, (o.op k).type = .add → (o'.op j).rule ≠ (o.op k).rule)
    (hnew : ∀ j ∈ N ++ o.waiting, ∀ k ∈ N, (o'.op k).type = .add →
      (o'.op j).rule = (o'.op k).rule → j = k)
    (hadd : ∀ k ∈ N, (o'.op k).type = .add → o'.BeingAdded A (N ++ o.waiting) (o'.op k).rule) :
    o'.Awaits A (N ++ o'.waiting) := by
  rw [hops.waiting h.groups]
  have hop : ∀ k ∈ o.waiting, o'.op k = o.op k := fun k hk => hops.op k (h.inFlight.lt k hk)
  have hvic : o'.victims (N ++ o.waiting) = o'.victims N ++ o.victims o.waiting := by
    unfold Ofproto.victims
    rw [List.filterMap_append]
    congr 1
    exact List.filterMap_congr fun k hk => by rw [hop k hk]
  refine ⟨?_, fun j hj k hk htype heq => ?_, fun k hk htype => ?_⟩
  · refine List.nodup_append.mpr ⟨hnodup, hw.nodup, fun j hj k hk hjk => ?_⟩
    have hlt := h.inFlight.lt k hk
    exact Nat.lt_irrefl _ (Nat.lt_of_lt_of_le (hjk ▸ hlt) (hfresh j hj))
  · rcases List.mem_append.mp hk with hk | hk
    · exact hnew j hj k hk htype heq
    · rw [hop k hk] at htype heq
      rcases List.mem_append.mp hj with hj | hj
      · exact absurd heq (hold j hj k hk htype)
      · rw [hop j hj] at heq
        exact hw.alone j hj k hk htype heq
  · rcases List.mem_append.mp hk with hk | hk
    · exact hadd k hk htype
    · rw [hop k hk] at htype ⊢
      obtain ⟨hA, hp, hspared⟩ := hw.addition k hk htype
      refine ⟨hA, hpending _ hspared.holds hp, hlive _ hspared.holds hp, fun hv => ?_⟩
      rw [hvic] at hv
      rcases List.mem_append.mp hv with hv | hv
      · exact hp (hvictims _ hv)
      · exact hspared.victim hv

/-- Nothing is started, and the rules stay as they are. -/
theorem Ofproto.Awaits.same (hw : o.Awaits A o.waiting) (h : Sane o) (hops : SameOps o o')
    (hlive : ∀ a, o.enclave.Live a → o'.enclave.Live a)
    (hrule : ∀ a, o.enclave.Live a → o'.rule a = o.rule a) : o'.Awaits A o'.waiting :=
  hw.start (N := []) h hops List.nodup_nil (by simp) (fun a ha _ => hlive a ha)
    (fun a ha hp => by rw [hrule a ha]; exact hp) (by simp [Ofproto.victims]) (by simp) (by simp)
    (by simp)

/-- Deletions of rules that have no operation pending. -/
theorem OpsStarted.awaits {o1 : Ofproto} {l : List (UtAddr × U32)} {s0 : Enclave} (h : Sane o)
    (hw : o.Awaits A o.waiting)
    (hall : OpsStarted o.nextGroup { (ofopgroupCreate o).1 with enclave := s0 } o1 l)
    (hidle : ∀ e ∈ l, (o.rule e.1).pending = none)
    (hlive : ∀ a, o.enclave.Live a → (o.rule a).pending ≠ none → o1.enclave.Live a) :
    o1.Awaits A ((o1.group o.nextGroup).ops ++ o1.waiting) := by
  obtain ⟨hops, hnew⟩ := hall.newGroup
  have hvictims := hall.no_victims
  rw [hops] at hvictims ⊢
  refine hw.start h hall.sameOps List.nodup_range' (fun k hk => (List.mem_range'_1.mp hk).1) hlive
    (fun a _ hp => ?_) (by simp [hvictims]) (fun j hj k hk htype heq => ?_)
    (fun j _ k hk htype => ?_) (fun k hk htype => ?_)
  · have hnot : a ∉ l.map Prod.fst := by
      intro ha
      obtain ⟨e, he, rfl⟩ := List.mem_map.mp ha
      exact hp (hidle e he)
    rw [hall.rule a hnot]
    exact hp
  · obtain ⟨e, he, hop⟩ := hnew j hj
    rw [hop] at heq
    have hp := hidle e he
    rw [show e.1 = (o.op k).rule from heq] at hp
    exact (hw.addition k hk htype).pending hp
  · obtain ⟨e, -, hop⟩ := hnew k hk
    rw [hop] at htype
    cases htype
  · obtain ⟨e, -, hop⟩ := hnew k hk
    rw [hop] at htype
    cases htype

/-! ## The calls that delete rules -/

theorem DeletesCleared.awaits {l : List (UtAddr × U32)} (h : Sane o) (hw : o.Awaits A o.waiting)
    (hd : DeletesCleared o o' l) : o'.Awaits A o'.waiting := by
  obtain ⟨s', T, o1, hcl, -, -, hall, hidle, hsane, hg, hsubmit⟩ := hd.started h
  have henc : o1.enclave = s' := hall.enclave
  refine BridgeInvariant.submit (awaits_invariant A) hsane hg hsubmit
    (hall.toOpsStarted.awaits h hw hidle fun a ha _ => ?_)
  rw [henc, hcl.live]
  exact ha

theorem ofprotoEvict_awaits (h : Sane o) (hw : o.Awaits A o.waiting)
    (hs : ofprotoEvict o = some o') : o'.Awaits A o'.waiting := by
  obtain ⟨o2, entries, T, n, -, -, -, hst, hsubmit⟩ := ofprotoEvict_some h hs
  obtain ⟨hsane, hg, -⟩ := hst.sane h
  obtain ⟨s0, hops⟩ := hst.ops
  refine BridgeInvariant.submit (awaits_invariant A) hsane hg hsubmit
    (hops.awaits h hw hst.notPending fun a ha hp => ?_)
  refine (hst.live h a).mpr ⟨ha, fun hmem => ?_⟩
  obtain ⟨e, he, rfl⟩ := List.mem_map.mp hmem
  exact hp (hst.notPending e he)

/-- A call that adds no flow. -/
theorem run_awaits {c : BridgeCall} (h : Sane o) (hw : o.Awaits A o.waiting) (hc : c.Allowed o)
    (hs : c.run o = some o') (hadd : ∀ fm new construct, c ≠ .addFlow fm new construct) :
    o'.Awaits A o'.waiting := by
  cases c with
  | addFlow fm new construct => exact absurd rfl (hadd fm new construct)
  | deleteFlows rules =>
    obtain ⟨l, hd, -⟩ := deleteFlows_deletes h hc.1 hc.2 hs
    exact hd.awaits h hw
  | flush =>
    obtain ⟨l, hd, -⟩ := ofprotoFlush_deletes h hs
    exact hd.awaits h hw
  | evict => exact ofprotoEvict_awaits h hw hs
  | ruleExpire a =>
    obtain ⟨-, rfl⟩ | ⟨-, l, hd⟩ := ofprotoRuleExpire_deletes h hc hs
    · exact hw
    · exact hd.awaits h hw
  | completeOperations => exact BridgeInvariant.operations (awaits_invariant A) h hs hw
  | clog clogged =>
    cases hs
    exact hw.congr rfl rfl fun _ => ⟨rfl, rfl, rfl⟩
  | configure c =>
    obtain ⟨s', h1, rfl⟩ := Option.map_eq_some_iff.mp hs
    obtain ⟨-, -, hcls, haddr⟩ := exec_config hc.1 h1
    refine hw.same h ⟨rfl, rfl, Nat.le_refl _, Nat.le_refl _, fun _ _ => rfl, fun _ _ => rfl⟩
      (fun a ha => ?_) fun _ _ => rfl
    obtain ⟨r, hr, rfl⟩ := ha
    refine ⟨r, ?_, by rw [haddr]⟩
    rw [Enclave.LiveRule, hcls]
    exact hr

end Awaits

/-! ## Adding flows -/

section AddFlow

variable {A : UtAddr → Prop} {o o' o3 : Ofproto} {fm : FlowMod} {new : NewRule}
  {construct error : Option Ofperr} {out : AddFlowOut} {cr a : UtAddr} {s' : Enclave}
  {V E : Option RuleId}

/-- A call that fails writes to the new rule only. -/
theorem addFlow_error_rule (h : Sane o) (hs : addFlow o fm new construct = some (o', error))
    (herr : error ≠ none) (ha : a ≠ new.cr) : o'.rule a = o.rule a := by
  have hg : o.nextGroup ∉ o.pending := fun hmem => Nat.lt_irrefl _ (h.groups _ hmem)
  have halloc : ∀ s', (entered o fm new s').rule a = o.rule a := fun s' =>
    Function.update_of_ne ha _ _
  unfold addFlow at hs
  split at hs
  · cases hs
    rfl
  · obtain ⟨⟨s', out⟩, -, hs⟩ := Option.bind_eq_some_iff.mp hs
    have hs' : finishAddFlow (entered o fm new s') new.cr out construct = some (o', error) := hs
    rw [← halloc s']
    unfold finishAddFlow at hs'
    split at hs'
    · cases hs'
      rfl
    · split at hs'
      · cases hs'
        rfl
      · split at hs'
        · cases hs'
          rfl
        · dsimp only at hs'
          split at hs'
          · rw [(backOut_steps hs').1.same.1]
            rfl
          · have hp : ((relinkExpirable (entered o fm new s') new.cr out.victim).rule new.cr).pending
                = none := by
              simp [relinkExpirable, entered, evictionGroupPriority, allocRule]
            cases construct with
            | none =>
              rw [operateAddFlow_eq hp] at hs'
              simp only [Option.bind_eq_some_iff, Option.map_eq_some_iff] at hs'
              obtain ⟨_, _, _, _, _, _, heq⟩ := hs'
              exact absurd (Prod.mk.inj heq).2.symm herr
            | some err =>
              obtain ⟨o2, hop, -, -, -, -, -, hrule⟩ := operateAddFlow_failed out hp hg err
              rw [hop] at hs'
              rw [(backOut_steps hs').1.same.1, hrule a ha]
              rfl

/-- A call that fails leaves the additions in flight as they are. -/
theorem addFlow_error_awaits (h : Sane o) (hw : o.Awaits A o.waiting)
    (hnew : o.enclave.NewAddr new.cr) (hs : addFlow o fm new construct = some (o', error))
    (herr : error ≠ none) : o'.Awaits A o'.waiting := by
  have hrule : ∀ a, o.enclave.Live a → o'.rule a = o.rule a := fun a ha =>
    addFlow_error_rule h hs herr (hnew.ne ha)
  obtain ⟨-, rfl, -⟩ | ⟨s', -, -, hs', rfl⟩ | ⟨s', out, V, E, -, -, -, -, hend⟩ :=
    addFlow_cases h hnew hs
  · exact hw
  · obtain ⟨-, -, -, hlive⟩ := refused_enclave h hnew hs'
    exact hw.same h ⟨rfl, rfl, Nat.le_refl _, Nat.le_refl _, fun _ _ => rfl, fun _ _ => rfl⟩
      (fun a => (hlive a).mpr) hrule
  · obtain ⟨-, hb⟩ | ⟨o3, hnone, -⟩ := hend
    · exact hw.same h hb.ops (fun a => (hb.live a).mpr) hrule
    · exact absurd hnone herr

theorem isPending_eq_false {b : Option UtAddr} (hp : isPending o b = false) (hb : b = some a) :
    (o.rule a).pending = none := by
  subst hb
  simpa [isPending] using hp

/-- The operations of a call that succeeds, up to the submission of their group. -/
theorem FlowOps.awaits (h : Sane o) (hw : o.Awaits A o.waiting) (hnew : o.enclave.NewAddr new.cr)
    (hfresh : ∀ k ∈ o.waiting, (o.op k).rule ≠ new.cr)
    (hadd : FlowAdded (fun _ => True) o.enclave (flowArgs o fm new) s' out V E)
    (hst : FlowStarted (relinkExpirable (entered o fm new s') new.cr out.victim) o3 out)
    (hops : FlowOps (relinkExpirable (entered o fm new s') new.cr out.victim) o3 new.cr out)
    (hpe : isPending o out.evict = false) (hpv : isPending o out.victim = false) (hA : A new.cr) :
    o3.Awaits A ((o3.group o.nextGroup).ops ++ o3.waiting) := by
  have hent := entered_flowEntered o fm new s' out.victim
  have henc : o3.enclave = s' := hst.enclave.trans hent.enclave
  have hsame := hent.ops.trans hst.ops
  have hmem : ∀ k ∈ (o3.group o.nextGroup).ops, _ := fun k hk => hops.mem_ops hk
  have hop : o3.op o.nextOp = ⟨o.nextGroup, new.cr, .add, 0#32, out.victim, none⟩ := hops.add
  have hvic : o3.victims (o3.group o.nextGroup).ops = out.victim.toList := hst.victims
  have hadds : ∀ k ∈ (o3.group o.nextGroup).ops, (o3.op k).type = .add → k = o.nextOp := by
    intro k hk htype
    obtain ⟨rfl, -⟩ | ⟨-, hdel, -⟩ := hmem k hk
    · rfl
    · rw [hdel] at htype
      cases htype
  have hold : ∀ k ∈ o.waiting, o3.op k = o.op k := fun k hk => hsame.op k (h.inFlight.lt k hk)
  refine hw.start h hsame ?_ (fun k hk => ?_) (fun a ha _ => ?_) (fun a ha hp => ?_)
    (fun a ha => ?_) (fun j hj k hk htype => ?_) (fun j hj k hk htype heq => ?_)
    (fun k hk htype => ?_)
  · have hN : (o3.group o.nextGroup).ops = o.nextOp :: out.evict.toList.map fun _ => o.nextOp + 1 :=
      hops.ops
    rw [hN]
    cases out.evict <;> simp
  · obtain ⟨rfl, -⟩ | ⟨rfl, -⟩ := hmem k hk
    · exact Nat.le_refl _
    · exact Nat.le_succ _
  · rw [henc]
    exact (hadd.live h.enclave a).mpr (.inr ha)
  · have hne : out.evict ≠ some a := fun he => hp (isPending_eq_false hpe he)
    rw [hops.rule a (hnew.ne ha) hne]
    exact (congrArg (fun r => r.pending ≠ none)
      (show (relinkExpirable (entered o fm new s') new.cr out.victim).rule a = o.rule a from
        Function.update_of_ne (hnew.ne ha) _ _)).mpr hp
  · rw [hvic, Option.mem_toList] at ha
    exact isPending_eq_false hpv ha
  · obtain ⟨-, hp, hspared⟩ := hw.addition k hk htype
    obtain ⟨-, hrule⟩ | ⟨-, -, -, hev⟩ := hmem j hj
    · rw [hrule]
      exact (hnew.ne hspared.holds).symm
    · exact fun heq => hp (heq ▸ isPending_eq_false hpe hev)
  · obtain rfl := hadds k hk htype
    rw [hop] at heq
    obtain hj | hj := List.mem_append.mp hj
    · obtain ⟨rfl, -⟩ | ⟨-, -, hne, -⟩ := hmem j hj
      · rfl
      · exact absurd heq hne
    · rw [hold j hj] at heq
      exact absurd heq (hfresh j hj)
  · obtain rfl := hadds k hk htype
    rw [hop]
    refine ⟨hA, by simp [hops.pending], ?_, fun hv => ?_⟩
    · rw [henc]
      exact (hadd.live h.enclave new.cr).mpr (.inl rfl)
    · obtain ⟨j, hj, hv⟩ := List.mem_filterMap.mp hv
      obtain hj | hj := List.mem_append.mp hj
      · have hin : new.cr ∈ o3.victims (o3.group o.nextGroup).ops :=
          List.mem_filterMap.mpr ⟨j, hj, hv⟩
        rw [hvic, Option.mem_toList] at hin
        exact hnew.ne (hadd.out_live h (.inr hin)) rfl
      · rw [hold j hj] at hv
        have hin : new.cr ∈ o.victims o.waiting := List.mem_filterMap.mpr ⟨j, hj, hv⟩
        exact hnew.ne (h.inFlight.victim _ hin).live rfl

end AddFlow

end OvsSgx
