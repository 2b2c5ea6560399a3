/-
OvsSgx.PendingDeletions — the rules whose deletion is in flight.

A deletion stays in the hmap `deletions` until its operation is destroyed.
Meanwhile its rule is in no table, and as long as it has its shadow
`ecall_add_flow` can compare new flows with it. Shadows are destroyed with
the new rule of a call that fails, with the victim of an addition that is
completed, and by `ofproto_evict`; only the last of these are of rules with
a pending deletion.
-/
import OvsSgx.CompletionFrames
import OvsSgx.FiledDeletions
import OvsSgx.OfprotoRuns

namespace OvsSgx

/-! ## Rules out of the tables -/

/-- The rule at `a` has a shadow but is in no table, and it is no victim of the operations `W`. -/
structure Ofproto.TakenOut (o : Ofproto) (W : List OpId) (a : UtAddr) : Prop where
  live : o.enclave.Live a
  installed : ∀ i, ¬ o.enclave.Installed i a
  victim : a ∉ o.victims W

section TakenOut

variable {o o' : Ofproto} {W W' : List OpId} {a : UtAddr} {k : OpId} {g : GroupId}
  {isHidden : Bool}

/-- What has to be known of another state and other operations. -/
theorem Ofproto.TakenOut.keep (h : o.TakenOut W a) (hlive : o.enclave.Live a → o'.enclave.Live a)
    (hinst : ∀ i, o'.enclave.Installed i a → o.enclave.Installed i a)
    (hvictim : a ∈ o'.victims W' → a ∈ o.victims W) : o'.TakenOut W' a :=
  ⟨hlive h.live, fun i hi => h.installed i (hinst i hi), fun hv => h.victim (hvictim hv)⟩

/-- A rule that was installed is no victim of the operations in flight. -/
theorem Sane.not_victim (h : Sane o) {i : Nat} (hi : o.enclave.Installed i a) :
    a ∉ o.victims o.waiting :=
  fun hv => (h.inFlight.victim a hv).installed i hi

/-! ## Completing operations -/

/-- Without a table that it is in, a rule is not affected by what happens to other shadows. -/
theorem survives_takenOut (a : UtAddr) :
    Survives (fun s => s.Live a ∧ ∀ i, ¬ s.Installed i a) a := by
  intro s s' v h hlive hnot hne hdes hold
  obtain ⟨s1, h1, hout⟩ := ecallClsRuleDestroy_outcome h hlive hnot
  obtain rfl := Option.some.inj (h1.symm.trans hdes)
  exact ⟨(hout.live a).mpr ⟨hold.1, hne.symm⟩,
    fun i hi => hold.2 i ((hout.installed i a).mp hi)⟩

theorem takenOut_iff : o.TakenOut W a ↔
    o.Spared (fun s => s.Live a ∧ ∀ i, ¬ s.Installed i a) a W :=
  ⟨fun h => ⟨⟨h.live, h.installed⟩, h.victim⟩, fun h => ⟨h.holds.1, h.holds.2, h.victim⟩⟩

/-- Submitting a group whose operations have just been started. -/
theorem ofopgroupSubmit_takenOut (h : SaneWith ((o.group g).ops ++ o.waiting) o)
    (hg : g ∉ o.pending) (hs : ofopgroupSubmit o g isHidden = some o')
    (ha : o.TakenOut ((o.group g).ops ++ o.waiting) a) : o'.TakenOut o'.waiting a :=
  takenOut_iff.mpr
    (BridgeInvariant.submit (spared_invariant (survives_takenOut a)) h hg hs (takenOut_iff.mp ha))

theorem completeOperations_takenOut (h : Sane o) (hs : completeOperations o = some o')
    (ha : o.TakenOut o.waiting a) : o'.TakenOut o'.waiting a :=
  takenOut_iff.mpr
    (BridgeInvariant.operations (spared_invariant (survives_takenOut a)) h hs (takenOut_iff.mp ha))

/-! ## Deleting rules -/

/-- A group of deletions adds no victims. -/
theorem OpsStarted.victims {o1 : Ofproto} {l : List (UtAddr × U32)} {s0 : Enclave} (h : Sane o)
    (hall : OpsStarted o.nextGroup { (ofopgroupCreate o).1 with enclave := s0 } o1 l) :
    o1.victims ((o1.group o.nextGroup).ops ++ o1.waiting) = o.victims o.waiting := by
  have hsame := hall.sameOps
  have hnone := hall.no_victims
  unfold Ofproto.victims at hnone ⊢
  rw [List.filterMap_append, hnone, List.nil_append, hsame.waiting h.groups]
  exact List.filterMap_congr fun k hk => by rw [hsame.op k (h.inFlight.lt k hk)]

theorem DeletesCleared.takenOut {l : List (UtAddr × U32)} (h : Sane o)
    (hd : DeletesCleared o o' l) :
    Files o o' (l.map Prod.fst) ∧ (∀ a, o.TakenOut o.waiting a → o'.TakenOut o'.waiting a) ∧
      ∀ a ∈ l.map Prod.fst, o'.TakenOut o'.waiting a := by
  have hfiles : Files o o' (l.map Prod.fst) := by
    obtain ⟨s', T, o1, -, -, -, hfold, hsubmit⟩ := hd
    exact deletions_files hfold hsubmit
  obtain ⟨s', T, o1, hcl, hT, hl, hall, -, hsane1, hg1, hsubmit⟩ := hd.started h
  have henc : o1.enclave = s' := hall.enclave
  have hlive : ∀ r ∈ T, o.enclave.LiveRule r := by
    intro r hr
    obtain ⟨i, hi⟩ := hT r hr
    exact h.enclave.live i r hi
  have hout := hcl.outcome h.enclave hlive
  have hstep : ∀ a, o.enclave.Live a → (∀ i, ¬ s'.Installed i a) → a ∉ o.victims o.waiting →
      o'.TakenOut o'.waiting a := by
    intro a ha hi hv
    refine ofopgroupSubmit_takenOut hsane1 hg1 hsubmit ⟨?_, ?_, ?_⟩
    · rw [henc, hcl.live]
      exact ha
    · rw [henc]
      exact hi
    · rw [hall.toOpsStarted.victims h]
      exact hv
  refine ⟨hfiles, fun a ha => ?_, fun a ha => ?_⟩
  · exact hstep a ha.live (fun i hi => ha.installed i (hcl.installed hi)) ha.victim
  · obtain ⟨e, he, rfl⟩ := List.mem_map.mp ha
    have haT := hl e he
    obtain ⟨r, hr, hre⟩ := List.mem_map.mp haT
    obtain ⟨i, hi⟩ := hT r hr
    have hinst := h.enclave.installed_self hi
    rw [hre] at hinst
    exact hstep e.1 hinst.live (fun j hj => ((hout.installed j e.1).mp hj).2 haT)
      (h.not_victim hinst)

/-! ## Evicting rules -/

theorem ofprotoEvict_takenOut (h : Sane o) (hs : ofprotoEvict o = some o')
    (ha : o.TakenOut o.waiting a) : o'.TakenOut o'.waiting a := by
  obtain ⟨o2, entries, T, n, -, -, -, hst, hsubmit⟩ := ofprotoEvict_some h hs
  obtain ⟨hsane, hg, -⟩ := hst.sane h
  obtain ⟨s0, hops⟩ := hst.ops
  refine ofopgroupSubmit_takenOut hsane hg hsubmit (ha.keep (fun hlive => ?_)
    (fun i hi => hst.purged.installed hi) ?_)
  · refine (hst.live h a).mpr ⟨hlive, fun hmem => ?_⟩
    obtain ⟨i, hi⟩ := hst.installed h hmem
    exact ha.installed i hi
  · rw [hops.victims h]
    exact id

/-- Taking the entries of `ks` out of an hmap, each under its key. -/
theorem entries_foldl_hmapRemove (key : OpId → Nat) (ks : List OpId) : ∀ m : Hmap OpId,
    (ks.foldl (fun m k => hmapRemove m k (key k)) m).entries
      = m.entries.diff (ks.map fun k => (key k, k)) := by
  induction ks with
  | nil =>
    intro m
    simp
  | cons k ks ih =>
    intro m
    rw [List.foldl_cons, ih, List.map_cons, List.diff_cons, hmapRemove, ChainMap.entries_erase_eq]

/-- A new deletion that has been completed is no longer in the hmap. -/
theorem not_mem_completed {o2 o3 : Ofproto} {n : Nat} {e : Nat × OpId}
    (hperm : o2.deletions.values.Perm (o.deletions.values ++ List.range' o.nextOp n))
    (hcomp : Completed o2 o3 (List.range' o.nextOp n))
    (hlt : ∀ e ∈ o.deletions.entries, e.2 < o.nextOp) (he : e.2 ∈ List.range' o.nextOp n)
    (hkey : (o2.op e.2).hash.toNat = e.1) : e ∉ o3.deletions.entries := by
  intro hmem
  rw [hcomp.deletions, entries_foldl_hmapRemove fun k => (o2.op k).hash.toNat] at hmem
  -- it was there once, and it has been taken out once
  have honce : o2.deletions.values.count e.2 ≤ 1 := by
    rw [hperm.count_eq, List.count_append]
    have hold : o.deletions.values.count e.2 = 0 := by
      refine List.count_eq_zero.mpr fun hv => ?_
      obtain ⟨e', he', heq⟩ := List.mem_map.mp hv
      have hlt' := hlt e' he'
      rw [heq] at hlt'
      exact Nat.not_le_of_lt hlt' (List.mem_range'_1.mp he).1
    rw [hold, Nat.zero_add]
    exact List.nodup_iff_count_le_one.mp List.nodup_range' e.2
  have htaken : e ∈ (List.range' o.nextOp n).map fun k => ((o2.op k).hash.toNat, k) :=
    List.mem_map.mpr ⟨e.2, he, by rw [hkey]⟩
  have hleft := List.count_pos_iff.mpr hmem
  rw [List.count_diff] at hleft
  have hpos := List.count_pos_iff.mpr htaken
  have hle : o2.deletions.entries.count e ≤ o2.deletions.values.count e.2 :=
    List.count_le_count_map
  omega

/-- If the provider is not clogged, or nothing is evicted, no deletion is left in the hmap. -/
theorem ofprotoEvict_entries (h : Sane o) (hlt : ∀ e ∈ o.deletions.entries, e.2 < o.nextOp)
    (hclean : o.clogged = false ∨ totalSelected o.enclave o.nTables = 0)
    (hs : ofprotoEvict o = some o') {e : Nat × OpId} (he : e ∈ o'.deletions.entries) :
    e ∈ o.deletions.entries := by
  obtain ⟨L, hfiles⟩ := ofprotoEvict_files hs
  rcases hfiles.filed e he with he | ⟨hle, hlt', -, hkey⟩
  · exact he
  · obtain ⟨o2, entries, T, n, hent, -, hlen, hst, hsubmit⟩ := ofprotoEvict_some h hs
    obtain ⟨s0, hops⟩ := hst.ops
    rcases submit_deletions true hops (by simp [ofopgroupCreate]) (.inl rfl) with
      ⟨hclog, hne, -⟩ | ⟨-, o3, hcomp, hsub⟩
    · -- the deletions have to wait, but then there are none
      rcases hclean with hclean | hzero
      · exact absurd (hclog.symm.trans hclean) (by simp)
      · have hnil := hst.rules
        rw [List.length_eq_zero_iff.mp (hlen.trans hzero), List.take_nil, List.map_nil,
          List.map_eq_nil_iff] at hnil
        exact absurd hnil hne
    · rw [hsubmit, Option.some.injEq] at hsub
      subst hsub
      have hmem : e.2 ∈ List.range' o.nextOp (entries.take n).length := by
        refine List.mem_range'_1.mpr ⟨hle, ?_⟩
        have hnext : o3.nextOp = o.nextOp + (entries.take n).length :=
          hcomp.nextOp.trans hops.nextOp
        rw [← hnext]
        exact hlt'
      have hkey' : (o2.op e.2).hash.toNat = e.1 := by
        rw [← hcomp.op]
        exact hkey
      have hnot := not_mem_completed hops.deletions hcomp hlt hmem hkey'
      exact absurd he hnot

/-! ## Adding flows -/

/-- The rules that are taken out when `add_flow` starts its operations: those that were out before,
and the evicted rule. -/
theorem FlowStarted.takenOut {o1 o3 : Ofproto} {fm : FlowMod} {new : NewRule} {s' : Enclave}
    {out : AddFlowOut} {V E : Option RuleId} (h : Sane o) (hnew : o.enclave.NewAddr new.cr)
    (hi : fm.table < o.nTables)
    (hadd : FlowAdded (fun _ => True) o.enclave (flowArgs o fm new) s' out V E)
    (hent : FlowEntered o o1 fm new s' out.victim) (hst : FlowStarted o1 o3 out)
    (hsubmit : ofopgroupSubmit o3 o1.nextGroup false = some o') :
    (∀ a, o.TakenOut o.waiting a → o'.TakenOut o'.waiting a) ∧
      ∀ a ∈ out.evict.toList, o'.TakenOut o'.waiting a := by
  obtain ⟨hsane, hg⟩ := hst.saneWith h hnew hi hadd hent
  have henc : o3.enclave = s' := hst.enclave.trans hent.enclave
  have hops := hent.ops.trans hst.ops
  have hvic : o3.victims ((o3.group o1.nextGroup).ops ++ o3.waiting)
      = out.victim.toList ++ o.victims o.waiting := by
    rw [← hst.victims]
    unfold Ofproto.victims
    rw [List.filterMap_append, hops.waiting h.groups]
    congr 1
    exact List.filterMap_congr fun k hk => by rw [hops.op k (h.inFlight.lt k hk)]
  have hstep : ∀ a, o.enclave.Live a → (∀ i, ¬ s'.Installed i a) → a ∉ out.victim.toList →
      a ∉ o.victims o.waiting → o'.TakenOut o'.waiting a := by
    intro a ha hi hv hw
    refine ofopgroupSubmit_takenOut hsane hg hsubmit ⟨?_, ?_, ?_⟩
    · rw [henc]
      exact (hadd.live h.enclave a).mpr (.inr ha)
    · rw [henc]
      exact hi
    · rw [hvic, List.mem_append, not_or]
      exact ⟨hv, hw⟩
  refine ⟨fun a ha => hstep a ha.live (fun i hi => ?_) (fun hv => ?_) ha.victim, fun a ha => ?_⟩
  · rcases hadd.installed h.enclave hi with ⟨-, rfl⟩ | ⟨hi, -⟩
    · exact hnew.ne ha.live rfl
    · exact ha.installed i hi
  · obtain ⟨i, hi⟩ := hadd.victim_installed h hv
    exact ha.installed i hi
  · rw [Option.mem_toList, hadd.outEvict] at ha
    obtain ⟨e, he, rfl⟩ := Option.map_eq_some_iff.mp ha
    obtain ⟨hgroup, hVe⟩ := hadd.evicted e he
    have hmem := h.enclave.installed _ e hgroup
    have hinst := h.enclave.installed_self hmem
    have hlive := h.enclave.live _ e hmem
    refine hstep _ hinst.live (fun i hi => ?_) (fun hv => ?_) (h.not_victim hinst)
    · -- a rule of the table at that address would be the evicted one
      obtain ⟨-, hcr, haddr⟩ := hadd.outcome h.enclave
      obtain ⟨q, -, hq, hmem'⟩ := hi
      rcases (hadd.rules i q).mp hmem' with ⟨-, rfl⟩ | ⟨hq', -, hEq⟩
      · rw [hcr] at hq
        exact hnew.ne hinst.live hq.symm
      · have hlive' := h.enclave.live i q hq'
        rw [haddr q hlive'] at hq
        rw [h.enclave.shadows.eq_of_oClsRule hlive' hlive hq] at hEq
        exact hEq he
    · rw [Option.mem_toList, hadd.outVictim] at hv
      obtain ⟨v, hv, heq⟩ := Option.map_eq_some_iff.mp hv
      have hlive' := h.enclave.live _ v ((hadd.victim v).mp hv).1
      rw [h.enclave.shadows.eq_of_oClsRule hlive' hlive heq] at hv
      exact hVe hv

/-- A call that is refused or backed out. -/
theorem takenOut_of_same (h : Sane o) (hops : SameOps o o')
    (hlive : ∀ a, o.enclave.Live a → o'.enclave.Live a)
    (hinst : ∀ i a, o'.enclave.Installed i a → o.enclave.Installed i a)
    (ha : o.TakenOut o.waiting a) : o'.TakenOut o'.waiting a := by
  have hvic : o'.victims o'.waiting = o.victims o.waiting := by
    unfold Ofproto.victims
    rw [hops.waiting h.groups]
    exact List.filterMap_congr fun k hk => by rw [hops.op k (h.inFlight.lt k hk)]
  exact ha.keep (hlive a) (fun i => hinst i a) (by rw [hvic]; exact id)

/-- Only a call that succeeds files a deletion, that of the evicted rule. -/
theorem addFlow_files {fm : FlowMod} {new : NewRule} {construct error : Option Ofperr}
    (hs : addFlow o fm new construct = some (o', error)) :
    Files o o' [] ∨ (error = none ∧ ∃ s' out, ecallAddFlow o.enclave (flowArgs o fm new)
      = some (s', out) ∧ Files o o' out.evict.toList) := by
  unfold addFlow at hs
  split at hs
  · cases hs
    exact .inl (Files.refl _)
  · obtain ⟨⟨s', out⟩, hecall, hfin⟩ := Option.bind_eq_some_iff.mp hs
    have hent : Files o (entered o fm new s') [] := Files.of_eq rfl rfl rfl
    rcases finishAddFlow_files hfin with hf | ⟨herr, hf⟩
    · exact .inl (hent.then hf)
    · exact .inr ⟨herr, s', out, hecall, hent.after hf⟩

theorem addFlow_takenOut {fm : FlowMod} {new : NewRule} {construct error : Option Ofperr}
    (h : Sane o) (hnew : o.enclave.NewAddr new.cr)
    (hs : addFlow o fm new construct = some (o', error)) :
    ∃ L, Files o o' L ∧ (∀ a, o.TakenOut o.waiting a → o'.TakenOut o'.waiting a) ∧
      ∀ a ∈ L, o'.TakenOut o'.waiting a := by
  have hfiles := addFlow_files hs
  rcases addFlow_cases h hnew hs with
    ⟨-, rfl, -⟩ | ⟨s', -, -, hs', rfl⟩ | ⟨s', out, V, E, hgood, -, hecall, hadd, hend⟩
  · exact ⟨[], Files.refl o', fun _ ha => ha, by simp⟩
  · obtain ⟨-, -, hinst, hlive⟩ := refused_enclave h hnew hs'
    have hops : SameOps o (ruleDealloc (entered o fm new s') new.cr) :=
      ⟨rfl, rfl, Nat.le_refl _, Nat.le_refl _, fun _ _ => rfl, fun _ _ => rfl⟩
    exact ⟨[], Files.of_eq rfl rfl rfl,
      fun a => takenOut_of_same h hops (fun b => (hlive b).mpr) hinst, by simp⟩
  · rcases hend with ⟨herr, hb⟩ | ⟨o3, -, -, -, -, hst, hsub⟩
    · have hf := hfiles.resolve_right fun hf => herr hf.1
      exact ⟨[], hf, fun a => takenOut_of_same h hb.ops (fun b => (hb.live b).mpr)
        (fun _ _ => hb.installed h), by simp⟩
    · obtain ⟨hold, hnewOut⟩ := hst.takenOut h hnew (FlowMod.table_lt h.nTables hgood) hadd
        (entered_flowEntered o fm new s' out.victim) hsub
      rcases hfiles with hf | ⟨-, s1, out1, hecall', hf⟩
      · exact ⟨[], hf, hold, by simp⟩
      · rw [hecall] at hecall'
        cases hecall'
        exact ⟨_, hf, hold, hnewOut⟩

end TakenOut

/-! ## Every run -/

/-- Every pending deletion is of a rule that is out of the tables and has its shadow. -/
def PendingShadows (o : Ofproto) : Prop :=
  ∀ e ∈ o.deletions.entries, e.2 < o.nextOp ∧ o.TakenOut o.waiting (o.op e.2).rule

/-- The call does not destroy the shadow of a rule whose deletion has to wait: `ofproto_evict` is
not called, or selects no rule, while the provider is clogged. -/
def BridgeCall.SparesShadows (o : Ofproto) : BridgeCall → Prop
  | .evict => o.clogged = false ∨ totalSelected o.enclave o.nTables = 0
  | _ => True

section Runs

variable {o o' : Ofproto} {c : BridgeCall}

theorem PendingShadows.step {L : List UtAddr} (h : PendingShadows o) (hf : Files o o' L)
    (hold : ∀ a, o.TakenOut o.waiting a → o'.TakenOut o'.waiting a)
    (hnew : ∀ a ∈ L, o'.TakenOut o'.waiting a) : PendingShadows o' := by
  intro e he
  rcases hf.filed e he with he | ⟨-, hlt, hL, -⟩
  · obtain ⟨hlt, hout⟩ := h e he
    refine ⟨Nat.lt_of_lt_of_le hlt hf.nextOp, ?_⟩
    rw [(hf.op e.2 hlt).1]
    exact hold _ hout
  · exact ⟨hlt, hnew _ hL⟩

/-- One call, unless it is an eviction that has to wait. -/
theorem run_pendingShadows (h : Sane o) (hp : PendingShadows o) (hc : c.Allowed o)
    (hspares : c.SparesShadows o) (hs : c.run o = some o') : PendingShadows o' := by
  cases c with
  | addFlow fm new construct =>
    obtain ⟨⟨o1, error⟩, h1, rfl⟩ := Option.map_eq_some_iff.mp hs
    obtain ⟨L, hf, hold, hnew⟩ := addFlow_takenOut h hc h1
    exact hp.step hf hold hnew
  | deleteFlows rules =>
    obtain ⟨l, hd, -⟩ := deleteFlows_deletes h hc.1 hc.2 hs
    obtain ⟨hf, hold, hnew⟩ := hd.takenOut h
    exact hp.step hf hold hnew
  | flush =>
    obtain ⟨l, hd, -⟩ := ofprotoFlush_deletes h hs
    obtain ⟨hf, hold, hnew⟩ := hd.takenOut h
    exact hp.step hf hold hnew
  | evict =>
    obtain ⟨L, hf⟩ := ofprotoEvict_files hs
    intro e he
    have he' := ofprotoEvict_entries h (fun e he => (hp e he).1) hspares hs he
    obtain ⟨hlt, hout⟩ := hp e he'
    refine ⟨Nat.lt_of_lt_of_le hlt hf.nextOp, ?_⟩
    rw [(hf.op e.2 hlt).1]
    exact ofprotoEvict_takenOut h hs hout
  | ruleExpire a =>
    rcases ofprotoRuleExpire_deletes h hc hs with ⟨-, rfl⟩ | ⟨-, l, hd⟩
    · exact hp
    · obtain ⟨hf, hold, hnew⟩ := hd.takenOut h
      exact hp.step hf hold hnew
  | completeOperations =>
    have hf : Files o o' [] := (completeOperations_steps hs).files
    exact hp.step hf (fun a => completeOperations_takenOut h hs) (by simp)
  | clog clogged =>
    cases hs
    exact hp.step (Files.of_eq rfl rfl rfl) (fun a ha => ⟨ha.live, ha.installed, ha.victim⟩) (by simp)
  | configure c =>
    obtain ⟨s', h1, rfl⟩ := Option.map_eq_some_iff.mp hs
    obtain ⟨-, htables, hcls, haddr⟩ := exec_config hc.1 h1
    refine hp.step (Files.of_eq rfl rfl rfl) (fun a ha => ha.keep (fun hlive => ?_) (fun i hi => ?_) id)
      (by simp)
    · obtain ⟨r, hr, rfl⟩ := hlive
      refine ⟨r, ?_, by rw [haddr]⟩
      rw [Enclave.LiveRule, hcls]
      exact hr
    · obtain ⟨r, hr, rfl, hmem⟩ := hi
      rw [Enclave.LiveRule, hcls] at hr
      rw [Enclave.rules, htables] at hmem
      exact ⟨r, hr, by rw [haddr], hmem⟩

/-- In every run without such evictions all pending deletions keep their shadows. -/
theorem OfprotoReachable.pendingShadows
    (h : OfprotoReachable (fun o c => c.Allowed o ∧ c.SparesShadows o) o) : PendingShadows o := by
  induction h with
  | create nTables enclaveRandom random hn =>
    intro e he
    simp [ofprotoCreate] at he
  | step c hrun hc hs ih =>
    exact run_pendingShadows (hrun.sane fun _ _ hc => hc.1) ih hc.1 hc.2 hs

end Runs

end OvsSgx
