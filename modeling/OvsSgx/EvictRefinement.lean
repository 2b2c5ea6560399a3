/-
OvsSgx.EvictRefinement — the eviction against the plain loop.

The plain `ofproto_evict` takes rules out of each table until it is down to
its limit, has no grouped rule left or meets a pending one. The one that
works on pages reads as many entries as the enclave has reported
evictions, which is more than the enclave has returned when a table has too
few grouped rules. The enclave compares the limit as a signed number. And the
shadows of the rules are destroyed before their deletions are completed, so
that telling a monitor of a deletion fails. The module says for which bridges
the two agree.
-/
import OvsSgx.FlushRefinement
import OvsSgx.MonitoredBridge

namespace OvsSgx

/-! ## The plain loop -/

/-- The number of rules of table `i` that are in no eviction group. -/
def nPermanent (s : Enclave) (i : Nat) : Nat :=
  (s.rules i).countP fun r => (s.evictGroup r).isNone

/-- A candidate is pending: a rule in an eviction group of a table that the enclave finds to
be over its limit. -/
def CandidatePending (o : Ofproto) : Prop :=
  ∃ i < o.nTables, ecallIsEvictionFieldsEnabled o.enclave i = true ∧
    intOf (ecallOftableMflows o.enclave i) < intOf (ecallOftableClsCount o.enclave i) ∧
    ∃ r, o.enclave.GroupedIn i r ∧ isPending o (some (o.enclave.oClsRule r)) = true

/-- What the eviction did is what the plain loop does: at most one deletion for each rule,
and, when no candidate is pending, each table with eviction that was over its limit is down to
it or to its permanent rules, and the others are unchanged. -/
structure EvictRefines (o o' : Ofproto) : Prop where
  once : ∃ events, o'.log = o.log ++ events ∧ ((createdDeletions events).map Prod.fst).Nodup
  overLimit : ¬ CandidatePending o → ∀ i < o.nTables,
    ecallIsEvictionFieldsEnabled o.enclave i = true →
    ecallOftableMflows o.enclave i < ecallOftableClsCount o.enclave i →
    ecallOftableClsCount o'.enclave i
      = max (ecallOftableMflows o.enclave i) (nPermanent o.enclave i)
  withinLimit : ¬ CandidatePending o → ∀ i < o.nTables,
    ecallIsEvictionFieldsEnabled o.enclave i = true →
    ecallOftableClsCount o.enclave i ≤ ecallOftableMflows o.enclave i →
    o'.enclave.rules i = o.enclave.rules i

/-- The signed comparison selects as many rules of each table as the table is over its
limit, or all that are grouped. -/
def LimitsAgree (o : Ofproto) : Prop :=
  ∀ i < o.nTables, ecallIsEvictionFieldsEnabled o.enclave i = true →
    nSelected o.enclave i
      = min (ecallOftableClsCount o.enclave i - ecallOftableMflows o.enclave i)
        (nGrouped o.enclave i)

/-- The eviction reads only what the enclave has returned, and the limits agree unless a
candidate is pending. -/
def EvictsPlainly (o : Ofproto) : Prop := EvictReads o ∧ (CandidatePending o ∨ LimitsAgree o)

/-- The eviction tells nobody of a deletion whose shadow it has destroyed: the deletions have to
wait, or no report on an evicted rule that controllers see looks for the shadow. -/
def EvictsUnwatched {A : Type} (u : MonitorLib A) (o : Ofproto) (m : MonitorMemory A) : Prop :=
  o.clogged = true ∨
    ∀ a ∈ o.evicted, ofprotoRuleIsHidden o a = some false → ¬ m.LooksUp u o a

/-! ## Counting -/

section Count

variable {P : Match → Prop} {s s' : Enclave} {i : Nat} {T : List RuleId}

/-- The limits agree if all counts and limits are below `2 ^ 31`. -/
theorem limitsAgree_of_lt {o : Ofproto}
    (h : ∀ i < o.nTables, ecallIsEvictionFieldsEnabled o.enclave i = true →
      ecallOftableClsCount o.enclave i < 2 ^ 31 ∧ ecallOftableMflows o.enclave i < 2 ^ 31) :
    LimitsAgree o := by
  intro i hi hen
  obtain ⟨hc, hm⟩ := h i hi hen
  unfold nSelected
  rw [if_pos hen, intOf_of_lt hc, intOf_of_lt hm, Int.toNat_sub]

theorem nGrouped_add_nPermanent (h : EnclaveOk P s) (i : Nat) :
    nGrouped s i + nPermanent s i = ecallOftableClsCount s i := by
  have hcount : ecallOftableClsCount s i = (s.rules i).length := (h.cls i).nRules
  rw [hcount, List.length_eq_countP_add_countP (fun r => (s.evictGroup r).isSome)]
  unfold nGrouped nPermanent
  congr 1
  exact List.countP_congr fun r _ => by simp

/-- Both lists have the same elements in common. -/
theorem countP_mem_comm {l T : List RuleId} (hl : l.Nodup) (hT : T.Nodup) :
    l.countP (· ∈ T) = T.countP (· ∈ l) := by
  rw [List.countP_eq_length_filter, List.countP_eq_length_filter]
  refine List.Perm.length_eq ((List.perm_ext_iff_of_nodup (hl.filter _) (hT.filter _)).mpr
    fun r => ?_)
  simp [and_comm]

/-- How many rules are left when `T` is destroyed. -/
theorem Purged.count (h : BridgeOk P s) (hp : Purged P s s' T) (hT : T.Nodup) (i : Nat) :
    ecallOftableClsCount s' i + T.countP (· ∈ s.rules i) = ecallOftableClsCount s i := by
  have hcount : ∀ {s : Enclave}, BridgeOk P s → ecallOftableClsCount s i = (s.rules i).length :=
    fun h => (h.toEnclaveOk.cls i).nRules
  rw [hcount hp.ok, hcount h, hp.rules, ← List.countP_eq_length_filter,
    ← countP_mem_comm (h.toEnclaveOk.rules_nodup i) hT, Nat.add_comm,
    List.length_eq_countP_add_countP (· ∈ T)]
  congr 1
  exact List.countP_congr fun r _ => by simp

/-- A table none of whose rules are destroyed is unchanged. -/
theorem Purged.rules_eq (h : BridgeOk P s) (hp : Purged P s s' T) (hT : T.Nodup) (i : Nat) :
    s'.rules i = s.rules i ↔ T.countP (· ∈ s.rules i) = 0 := by
  rw [hp.rules, List.filter_eq_self, ← countP_mem_comm (h.toEnclaveOk.rules_nodup i) hT,
    List.countP_eq_zero]
  simp

end Count

/-! ## When the two agree -/

section Agree

variable {o o' o2 : Ofproto} {l entries : List (UtAddr × U32)} {T : List RuleId}

/-- A rule that is selected is a candidate. -/
theorem candidate_of_selected {r : RuleId}
    (hcnt : ∀ i < o.nTables, T.countP (· ∈ o.enclave.rules i) = nSelected o.enclave i)
    {i : Nat} (hi : i < o.nTables) (hgr : o.enclave.GroupedIn i r) (hr : r ∈ T)
    (hmem : r ∈ o.enclave.rules i) (hp : isPending o (some (o.enclave.oClsRule r)) = true) :
    CandidatePending o := by
  have hpos : 0 < nSelected o.enclave i := by
    rw [← hcnt i hi]
    exact List.countP_pos_iff.mpr ⟨r, hr, by simpa using hmem⟩
  unfold nSelected at hpos
  split at hpos
  · rename_i hen
    exact ⟨i, hi, hen, by omega, r, hgr, hp⟩
  · omega

/-- An eviction that does not fail evicts as many rules as the enclave has reported, unless a
candidate is pending. -/
theorem evicted_spec (h : Sane o) (hreads : EvictReads o) :
    (∀ a ∈ o.evicted, o.enclave.Live a) ∧
      (¬ CandidatePending o → o.evicted.length = totalEvictions o.enclave o.nTables) := by
  rcases startEviction_spec h with ⟨-, hnot⟩ | ⟨o2, entries, T, n, -, hevicted, -, haddr, -, -, hgr,
    hcnt, hst, -, hstop⟩
  · exact absurd hreads hnot
  · refine ⟨fun a ha => ?_, fun hcand => ?_⟩
    · obtain ⟨i, hi⟩ := hst.installed h (hevicted ▸ ha)
      exact hi.live
    · rw [hevicted, List.length_map]
      refine hstop.resolve_right ?_
      -- a pending rule that the loop meets is a candidate
      rintro ⟨e, he, hp⟩
      have hmem : e.1 ∈ T.map o.enclave.oClsRule :=
        haddr ▸ List.mem_map_of_mem (List.mem_of_getElem? he)
      obtain ⟨r, hr, heq⟩ := List.mem_map.mp hmem
      obtain ⟨i, hi, hgri⟩ := hgr r hr
      refine hcand (candidate_of_selected hcnt hi hgri hr (h.enclave.installed i r hgri) ?_)
      rw [heq]
      exact Option.isSome_iff_ne_none.mpr hp

theorem createdDeletions_evict (l : List (UtAddr × U32)) :
    createdDeletions ((l.map fun e => Event.create e.1 .delete e.2) ++
      l.map fun e => Event.destruct e.1) = l := by
  unfold createdDeletions
  rw [List.filterMap_append, List.filterMap_map, List.filterMap_map]
  simp

/-- Submitting the group changes neither the enclave nor the log. -/
theorem EvictionStarted.submitted (hst : EvictionStarted o o2 l T)
    (hsubmit : ofopgroupSubmit o2 o.nextGroup true = some o') :
    o'.enclave = o2.enclave ∧ o'.log = o2.log := by
  obtain ⟨s0, hops⟩ := hst.ops
  rcases submit_deletions true hops (by simp [ofopgroupCreate]) (.inl rfl) with
    ⟨-, -, hsub⟩ | ⟨-, o3, hdone, hsub⟩
  · obtain rfl := Option.some.inj (hsub.symm.trans hsubmit)
    exact ⟨rfl, rfl⟩
  · obtain rfl := Option.some.inj (hsub.symm.trans hsubmit)
    exact ⟨hdone.enclave, hdone.log⟩

/-- No rule is deleted twice. -/
theorem EvictionStarted.once (h : Sane o) (hst : EvictionStarted o o2 l T)
    (hlog : o'.log = o2.log) :
    ∃ events, o'.log = o.log ++ events ∧ ((createdDeletions events).map Prod.fst).Nodup := by
  refine ⟨_, by rw [hlog, hst.log, List.append_assoc], ?_⟩
  rw [createdDeletions_evict, hst.rules]
  refine nodup_addresses h.enclave hst.nodup fun r hr => ?_
  obtain ⟨i, -, hlive⟩ := hst.liveRule h hr
  exact hlive

/-- The outcome of an eviction in which all selected rules are deleted. -/
theorem EvictionStarted.refines_iff (h : Sane o) (hst : EvictionStarted o o2 l T)
    (hcnt : ∀ i < o.nTables, T.countP (· ∈ o.enclave.rules i) = nSelected o.enclave i)
    (henc : o'.enclave = o2.enclave) (hlog : o'.log = o2.log) (hcand : ¬ CandidatePending o) :
    EvictRefines o o' ↔ LimitsAgree o := by
  have hcount : ∀ i < o.nTables, ecallOftableClsCount o'.enclave i + nSelected o.enclave i
      = ecallOftableClsCount o.enclave i := by
    intro i hi
    rw [henc, ← hcnt i hi]
    exact hst.purged.count h.enclave hst.nodup i
  have hsame : ∀ i < o.nTables, o'.enclave.rules i = o.enclave.rules i ↔
      nSelected o.enclave i = 0 := by
    intro i hi
    rw [henc, ← hcnt i hi]
    exact hst.purged.rules_eq h.enclave hst.nodup i
  have hsum := fun i => nGrouped_add_nPermanent h.enclave.toEnclaveOk i
  constructor
  · intro href i hi hen
    have := hcount i hi
    have := hsum i
    have hle : nSelected o.enclave i ≤ nGrouped o.enclave i := by
      rw [nSelected, if_pos hen]
      exact Nat.min_le_right _ _
    rcases Nat.lt_or_ge (ecallOftableMflows o.enclave i) (ecallOftableClsCount o.enclave i) with
      hlt | hge
    · have := href.overLimit hcand i hi hen hlt
      omega
    · have := (hsame i hi).mp (href.withinLimit hcand i hi hen hge)
      omega
  · intro hagree
    refine ⟨hst.once h hlog, fun _ i hi hen hlt => ?_, fun _ i hi hen hge => ?_⟩
    · have := hcount i hi
      have := hsum i
      have := hagree i hi hen
      omega
    · refine (hsame i hi).mpr ?_
      rw [hagree i hi hen]
      omega

/-! ## Reports on evicted rules -/

variable {A : Type} {u : MonitorLib A} {m : MonitorMemory A}

/-- The evicted rules have no shadow when the group is submitted. -/
theorem EvictionStarted.gone (h : Sane o) (hst : EvictionStarted o o2 l T) {a : UtAddr}
    (ha : a ∈ l.map Prod.fst) : sgxRuleFromUtCr o2.enclave a = none := by
  rw [hst.rules] at ha
  obtain ⟨r, hr, rfl⟩ := List.mem_map.mp ha
  refine Option.eq_none_iff_forall_ne_some.mpr fun q hq => ?_
  have hok := hst.purged.ok.shadows
  obtain ⟨hlive, hqT⟩ := (hst.purged.liveRule q).mp (hok.live_of_lookup hq)
  have hhash := hok.hash _ (hok.lookup.mp hq)
  rw [hst.purged.oClsRule] at hhash
  obtain ⟨i, -, hrlive⟩ := hst.liveRule h hr
  exact hqT (h.enclave.shadows.inj hrlive hlive hhash ▸ hr)

/-- The operations of the group are on the evicted rules, in their order. -/
theorem EvictionStarted.op_rules (hst : EvictionStarted o o2 l T) :
    (List.range' o.nextOp l.length).map (fun k => (o2.op k).rule) = T.map o.enclave.oClsRule := by
  obtain ⟨s0, hops⟩ := hst.ops
  have hnew := congrArg (List.map Ofoperation.rule) hops.newOps
  rw [List.map_map, List.map_map] at hnew
  exact hnew.trans hst.rules

/-- What the loop of `ofopgroup_complete` finds in the array `is_hidden`. -/
theorem EvictionStarted.reports_iff (h : Sane o) (hst : EvictionStarted o o2 l T)
    (Q : UtAddr → Prop) :
    (∀ e ∈ (List.range' o.nextOp l.length).zip (T.map o.enclave.hidden), e.2 = false →
        Q (o2.op e.1).rule) ↔
      ∀ a ∈ l.map Prod.fst, ofprotoRuleIsHidden o a = some false → Q a := by
  have hzip : ((List.range' o.nextOp l.length).zip (T.map o.enclave.hidden)).map
      (fun e => ((o2.op e.1).rule, e.2))
      = T.map fun r => (o.enclave.oClsRule r, o.enclave.hidden r) := by
    have hright : T.map (fun r => (o.enclave.oClsRule r, o.enclave.hidden r))
        = (T.map o.enclave.oClsRule).zip (T.map o.enclave.hidden) := List.zip_map'.symm
    rw [hright, ← hst.op_rules, List.zip_map_left]
    rfl
  have hlook : ∀ r ∈ T, ofprotoRuleIsHidden o (o.enclave.oClsRule r)
      = some (o.enclave.hidden r) := by
    intro r hr
    obtain ⟨i, -, hlive⟩ := hst.liveRule h hr
    exact ofprotoRuleIsHidden_live h.enclave.shadows hlive
  have hleft : (∀ e ∈ (List.range' o.nextOp l.length).zip (T.map o.enclave.hidden), e.2 = false →
      Q (o2.op e.1).rule) ↔ ∀ p ∈ T.map fun r => (o.enclave.oClsRule r, o.enclave.hidden r),
        p.2 = false → Q p.1 := by
    rw [← hzip, List.forall_mem_map]
  rw [hleft, hst.rules, List.forall_mem_map, List.forall_mem_map]
  refine forall₂_congr fun r hr => ?_
  rw [hlook r hr, Option.some_inj]

/-- The group can be submitted unless a report looks for a shadow. -/
theorem EvictionStarted.submit_iff (h : Sane o) (hst : EvictionStarted o o2 l T) :
    (∃ s', MonitoredOfproto.ofopgroupSubmit u (o2, m) o.nextGroup
        (some (T.map o.enclave.hidden)) = some s') ↔
      o.clogged = true ∨
        ∀ a ∈ l.map Prod.fst, ofprotoRuleIsHidden o a = some false → ¬ m.LooksUp u o a := by
  obtain ⟨s0, hops⟩ := hst.ops
  have hgroup : ({ (ofopgroupCreate o).1 with enclave := s0 } : Ofproto).group o.nextGroup
      = ⟨[], 0⟩ := by
    simp [ofopgroupCreate]
  have hrun := hops.nRunning
  have hopsg := hops.ops
  rw [hgroup] at hrun hopsg
  simp only [Nat.zero_add, List.nil_append] at hrun hopsg
  unfold MonitoredOfproto.ofopgroupSubmit
  by_cases hzero : (o2.group o.nextGroup).nRunning = 0
  · have hdel : ∀ k ∈ List.range' o.nextOp l.length, (o2.op k).type = .delete ∧
        (o2.op k).error = none ∧ sgxRuleFromUtCr o2.enclave (o2.op k).rule = none := by
      intro k hk
      have hmem : o2.op k ∈ l.map (deletionOp o.nextGroup) :=
        hops.newOps ▸ List.mem_map_of_mem hk
      obtain ⟨e, he, heq⟩ := List.mem_map.mp hmem
      rw [← heq]
      exact ⟨rfl, rfl, hst.gone h (List.mem_map_of_mem he)⟩
    have hlen : (T.map o.enclave.hidden).length = (List.range' o.nextOp l.length).length := by
      have := congrArg List.length hst.rules
      simpa using this.symm
    have hcomplete := MonitoredOfproto.ofopgroupComplete_deletions (u := u) (m := m)
      (o := o2) (g := o.nextGroup) (by rw [hopsg]; exact hdel) (by rw [hopsg]; exact hlen)
    rw [hopsg] at hcomplete
    rw [if_pos hzero]
    refine (hcomplete.trans ((forall₂_congr fun e _ => imp_congr_right fun _ => not_congr ?_).trans
      (hst.reports_iff h fun a => ¬ m.LooksUp u o a))).trans ⟨.inr, fun hor => hor.elim ?_ id⟩
    · exact MonitorMemory.LooksUp.congr (hops.tableId _)
    · -- with the provider clogged and nothing running, nothing has been started
      intro hclog
      have hnil : l = [] := List.length_eq_zero_iff.mp (by
        rw [hzero] at hrun
        exact (hrun.trans (if_pos hclog)).symm)
      simp [hnil]
  · refine iff_of_true ⟨_, if_neg hzero⟩ (.inl ?_)
    by_contra hclog
    exact hzero (by rw [hrun]; exact if_neg hclog)

/-- The eviction does what the plain loop does if and only if it reads only what the enclave
has returned, the limits agree unless a candidate is pending, and no monitor is told of a deletion
whose shadow is gone. -/
theorem ofprotoEvict_refines_iff (hrun : OfprotoReachable (fun o c => c.Allowed o) o)
    (u : MonitorLib A) (m : MonitorMemory A) :
    (∃ s', MonitoredOfproto.ofprotoEvict u (o, m) = some s' ∧ EvictRefines o s'.1) ↔
      EvictsPlainly o ∧ EvictsUnwatched u o m := by
  have h := hrun.sane fun _ _ hc => hc
  rw [MonitoredOfproto.ofprotoEvict_eq]
  rcases startEviction_spec h with ⟨hnone, hreads⟩ | ⟨o2, entries, T, n, hstart, hevicted, hreads,
    haddr, hnodup, hlen, hgr, hcnt, hst, hle, hstop⟩
  · refine iff_of_false ?_ fun hplain => hreads hplain.1.1
    rintro ⟨s', hs, -⟩
    rw [hnone] at hs
    cases hs
  · have hiff : ∀ o', ofopgroupSubmit o2 o.nextGroup true = some o' →
        (EvictRefines o o' ↔ CandidatePending o ∨ LimitsAgree o) := by
      intro o' hsubmit
      obtain ⟨henc, hlog⟩ := hst.submitted hsubmit
      by_cases hcand : CandidatePending o
      · exact iff_of_true ⟨hst.once h hlog, fun hno => absurd hcand hno,
          fun hno => absurd hcand hno⟩ (.inl hcand)
      · have hlenE : entries.length = T.length := by
          have := congrArg List.length haddr
          rwa [List.length_map, List.length_map] at this
        have hfull := (evicted_spec h hreads).2 hcand
        rw [hevicted, List.length_map] at hfull
        have hall : T.take n = T := by
          refine List.take_of_length_le ?_
          have hmin := List.length_take_le' n entries
          have hn := List.length_take_le n entries
          have hfit := hreads.1
          rcases hreads.2 with heq | ⟨hge, -⟩ <;> omega
        rw [hall] at hst
        exact (hst.refines_iff h hcnt henc hlog hcand).trans (or_iff_right hcand).symm
    have hsubmit := hst.submit_iff (u := u)
      (m := (MonitoredOfproto.ofopgroupCreate (o, m) ⟨none, false, .eviction⟩).1.2) h
    rw [← hevicted] at hsubmit
    rw [hstart, Option.bind_some]
    constructor
    · rintro ⟨s', hs, href⟩
      exact ⟨⟨hreads, (hiff s'.1 (MonitoredOfproto.ofopgroupSubmit_fst hs)).mp href⟩, hsubmit.mp ⟨s', hs⟩⟩
    · rintro ⟨⟨-, hplain⟩, hunwatched⟩
      obtain ⟨s', hs⟩ := hsubmit.mpr hunwatched
      exact ⟨s', hs, (hiff s'.1 (MonitoredOfproto.ofopgroupSubmit_fst hs)).mpr hplain⟩

end Agree

/-! ## Flows that expire and flows that do not -/

/-- Two flows that expire in a table that may have one. -/
def overfullTable : Ofproto := twoFlows.after (.configure (.oftableMflowsSet 0 1))

/-- A library that puts all updates into one message and finds no output in actions. -/
def oneMessage : MonitorLib Unit := ⟨fun us => [us], List.length, 0, fun _ _ => false⟩

/-- The memory of a switch without connections. -/
def noMonitors : MonitorMemory Unit :=
  (monitoredCreate 1 (fun _ => 5#16) (fun _ => 6#16) () 1).2

/-- One connection, with a monitor for all flows that asks for what `flags` say. -/
def watching (flags : MonitorFlags) : MonitorMemory Unit :=
  ((ofmonitorCreate (monitorConnCreate noMonitors) 0
    ⟨1#32, flags, OFPP_ANY, 0xff, matchCatchall⟩).map Prod.fst).getD noMonitors

/-- A controller that wants to know of new flows only is no harm. -/
theorem watching_added (o : Ofproto) (a : UtAddr) :
    ¬ (watching UpdateEvent.added.flag).LooksUp oneMessage o a := by
  rintro ⟨c, hc, -, mon, hmon, hasks⟩
  have hflags : ∀ c ∈ (watching UpdateEvent.added.flag).allConns,
      ∀ mon ∈ (watching UpdateEvent.added.flag).monitors c, mon.flags.delete = false := by
    decide +kernel
  simp [Ofmonitor.asksForDeletion, hflags c hc mon hmon] at hasks

/-- One that wants to know of deleted flows is. -/
theorem watching_deleted (o : Ofproto) (a : UtAddr) :
    (watching UpdateEvent.deleted.flag).LooksUp oneMessage o a := by
  have hmon : ∃ mon ∈ (watching UpdateEvent.deleted.flag).monitors 0,
      mon.flags.delete = true ∧ mon.tableId = 0xff ∧ mon.outPort = OFPP_ANY := by
    decide +kernel
  obtain ⟨mon, hmem, hdelete, htable, hport⟩ := hmon
  refine ⟨0, by decide +kernel, .inl (by decide +kernel), mon, hmem, ?_⟩
  simp [Ofmonitor.asksForDeletion, hdelete, htable, hport, MonitorMemory.ruleHasOutPort]

/-- A visible rule is evicted from the table. -/
theorem overfullTable_evicts (h : Sane overfullTable) (hreads : EvictReads overfullTable) :
    ∃ a ∈ overfullTable.evicted, ofprotoRuleIsHidden overfullTable a = some false := by
  have hrules : ∀ r ∈ overfullTable.enclave.clsRules.values,
      overfullTable.enclave.hidden r = false ∧
        isPending overfullTable (some (overfullTable.enclave.oClsRule r)) = false := by
    decide +kernel
  obtain ⟨hlive, hlen⟩ := evicted_spec h hreads
  have hcand : ¬ CandidatePending overfullTable := by
    rintro ⟨i, -, -, -, r, hgr, hp⟩
    have hr := h.enclave.live i r (h.enclave.installed i r hgr)
    rw [(hrules r hr).2] at hp
    cases hp
  have hone : overfullTable.evicted.length = 1 := (hlen hcand).trans (by decide +kernel)
  obtain ⟨a, hsingle⟩ := List.length_eq_one_iff.mp hone
  have ha : a ∈ overfullTable.evicted := by
    rw [hsingle]
    exact List.mem_singleton_self a
  obtain ⟨r, hr, rfl⟩ := hlive a ha
  refine ⟨_, ha, ?_⟩
  rw [ofprotoRuleIsHidden_live h.enclave.shadows hr]
  exact congrArg some (hrules r hr).1

theorem overfullTable_evict :
    EvictsPlainly overfullTable ∧ ecallOftableClsCount overfullTable.enclave 0 = 2 ∧
      (∃ s', MonitoredOfproto.ofprotoEvict oneMessage
          (overfullTable, watching UpdateEvent.added.flag) = some s' ∧
        EvictRefines overfullTable s'.1) ∧
      ¬ ∃ s', MonitoredOfproto.ofprotoEvict oneMessage
          (overfullTable, watching UpdateEvent.deleted.flag) = some s' ∧
        EvictRefines overfullTable s'.1 := by
  have hplain : EvictsPlainly overfullTable := by
    refine ⟨⟨by decide +kernel, .inl (by decide +kernel)⟩, .inr (limitsAgree_of_lt ?_)⟩
    decide +kernel
  have hrun : OfprotoReachable (fun o c => c.Allowed o) overfullTable :=
    twoFlows_reachable.after ⟨rfl, trivial⟩
  refine ⟨hplain, by decide +kernel, ?_, fun hs => ?_⟩
  · exact (ofprotoEvict_refines_iff hrun _ _).mpr
      ⟨hplain, .inr fun a _ _ => watching_added overfullTable a⟩
  · obtain ⟨a, ha, hvisible⟩ := overfullTable_evicts (hrun.sane fun _ _ hc => hc) hplain.1
    rcases ((ofprotoEvict_refines_iff hrun _ _).mp hs).2 with hclog | hunseen
    · exact absurd hclog (by decide +kernel)
    · exact hunseen a ha hvisible (watching_deleted overfullTable a)

/-- A flow for table 0 without timeouts. -/
def permanentFlow (value : U32) (priority : Nat) : FlowMod :=
  ⟨0, matchFirstWord value, priority, false, 0, 0⟩

/-- A flow that does not expire in a table that may have none. -/
def permanentTable : Ofproto :=
  (newBridge.after (.addFlow (permanentFlow 7#32 1) (ruleAt 1#64) none)).after
    (.configure (.oftableMflowsSet 0 0))

/-- The enclave reports one eviction and returns no rule, so that the eviction fails even if there
is nobody to be told of it. -/
theorem permanentTable_evict_fails :
    ¬ ∀ o, OfprotoReachable (fun o c => c.Allowed o) o →
      ∀ (u : MonitorLib Unit) (m : MonitorMemory Unit),
        ∃ s', MonitoredOfproto.ofprotoEvict u (o, m) = some s' ∧ EvictRefines o s'.1 := by
  intro hall
  have h1 : OfprotoReachable (fun o c => c.Allowed o)
      (newBridge.after (.addFlow (permanentFlow 7#32 1) (ruleAt 1#64) none)) :=
    (newBridge_reachable fun _ _ _ _ => ⟨rfl, trivial⟩).after
      (show Enclave.NewAddr _ 1#64 by decide +kernel)
  have hrun : OfprotoReachable (fun o c => c.Allowed o) permanentTable := h1.after ⟨rfl, trivial⟩
  obtain ⟨s', hs, -⟩ := hall permanentTable hrun oneMessage noMonitors
  rw [MonitoredOfproto.ofprotoEvict_eq] at hs
  obtain ⟨e, hstart, -⟩ := Option.bind_eq_some_iff.mp hs
  rcases startEviction_spec (hrun.sane fun _ _ hc => hc) with
    ⟨hnone, -⟩ | ⟨_, _, _, _, -, -, hreads, -⟩
  · exact absurd (hnone.symm.trans hstart) (by simp)
  · have htotal : totalSelected permanentTable.enclave permanentTable.nTables = 0 ∧
        totalEvictions permanentTable.enclave permanentTable.nTables = 1 := by decide +kernel
    rcases hreads.2 with heq | ⟨hge, -⟩
    · rw [htotal.1, htotal.2] at heq
      cases heq
    · rw [htotal.2] at hge
      exact absurd hge (by decide)

end OvsSgx
