/-
OvsSgx.TaggedRuns — when a flow is tagged, the recorded subtables are alive.

A subtable that has lost its last rule in a bulk removal stays recorded
until the first rule of its table is destructed, and the facets that are
revalidated or pushed for statistics up to then come upon it. The error exits of `add_flow` take the
evicted rule out and record nothing; nor does `ofproto_flush__` for a table
of which it has read no entry. In a run without these the subtables are
alive whenever `tag_the_flow` looks at them.
-/
import OvsSgx.TaggedPointers
import OvsSgx.FlushRefinement
import OvsSgx.DeletionSerialisation

namespace OvsSgx

/-! ## The condition -/

/-- All rules of subtable `t` of table `i` are in the list. -/
def Enclave.Empties (s : Enclave) (rules : List UtAddr) (i : Nat) (t : TableId) : Prop :=
  ∀ q ∈ s.subtableRules i t, s.oClsRule q ∈ rules

/-- If destructing `rules` empties a recorded subtable, nothing is translated for a rule of the
list before a rule of the subtable's table has been destructed. -/
def TaggedOfproto.RefreshesInTime (s : TaggedOfproto) (looks : UtAddr → Bool)
    (rules : List UtAddr) : Prop :=
  ∀ i t, s.view.Recorded i t → s.ofproto.enclave.Empties rules i t →
    ∀ before a, before ++ [a] <+: rules → looks a = true → ∃ b ∈ before, s.tableOf b = i

/-- The call leaves no recorded subtable stale where it can be looked at. -/
def TaggedCall.InTime (s : TaggedOfproto) : TaggedCall → Prop
  | .call (.addFlow fm new construct) _ => ∀ e victim, EvictsFor s.ofproto fm new e victim →
      construct ≠ none ∨ isPending s.ofproto (some e) = true ∨ isPending s.ofproto victim = true →
      ∀ i t, s.view.Recorded i t → ¬ s.ofproto.enclave.Empties [e] i t
  | .call (.deleteFlows rules) tags => s.RefreshesInTime tags.looks rules
  | .call .evict tags => s.RefreshesInTime tags.facets s.ofproto.evicted
  | .call .flush _ => ∀ i t, s.view.Recorded i t →
      s.ofproto.enclave.Empties ((allFlushable s.ofproto.enclave).map
        fun e => s.ofproto.enclave.oClsRule e.2) i t →
      ∃ e ∈ (allFlushable s.ofproto.enclave).take (flushCount s.ofproto.enclave), e.1 = i
  | _ => True

/-! ## Taking rules out -/

section Remove

variable {P : Match → Prop} {s s' s1 s2 : TaggedOfproto} {e : Enclave} {o : Ofproto} {i : Nat}
  {t : TableId} {rules L : List UtAddr} {looks : UtAddr → Bool} {g : GroupId} {isHidden : Bool}

/-- The masks of recorded subtables stay what they were. -/
theorem TagView.PointersLive.masksKept (hl : s.view.PointersLive)
    (h : EnclaveOk P s.ofproto.enclave) (hk : Kept s.ofproto.enclave o.enclave) :
    (s.withOfproto o).view.MasksKept := by
  intro i t ht
  obtain ⟨hmem, hmask⟩ := hl i t ht
  exact (hk.subtableMask h hmem).trans hmask

/-- A subtable goes only if all its rules are taken out. -/
theorem empties_of_gone (h : EnclaveOk P s.ofproto.enclave) (h' : EnclaveOk P e)
    (hsh : Shrunk s.ofproto.enclave e)
    (hleft : ∀ j q, q ∈ s.ofproto.enclave.rules j → s.ofproto.enclave.oClsRule q ∉ rules →
      q ∈ e.rules j)
    (ht : s.ofproto.enclave.HasSubtable i t) (hgone : ¬ e.HasSubtable i t) :
    s.ofproto.enclave.Empties rules i t := by
  intro q hq
  by_contra hnot
  exact hgone (hsh.hasSubtable h h' ht hq (hleft i q (ht.rule h hq).1 hnot))

/-- A subtable that is emptied has had a rule, and this one is in its table. -/
theorem Enclave.Empties.table (h : Sane s.ofproto) (ht : s.ofproto.enclave.HasSubtable i t)
    (he : s.ofproto.enclave.Empties rules i t) : ∃ a ∈ rules, s.tableOf a = i := by
  obtain ⟨q, hq⟩ := ht.nonempty h.enclave.toEnclaveOk
  have hmem := (ht.rule h.enclave.toEnclaveOk hq).1
  exact ⟨_, he q hq, (h.tableId i _ (h.enclave.installed_self hmem)).2⟩

/-- From `s` to `s'` nothing stale has been looked at, and nothing stale is left. -/
structure StaysLive (s s' : TaggedOfproto) : Prop where
  view : s'.view.PointersLive
  consults : ∀ v ∈ s'.consults, v ∈ s.consults ∨ v.PointersLive

theorem StaysLive.trans (h : StaysLive s s1) (h' : StaysLive s1 s2) : StaysLive s s2 := by
  refine ⟨h'.view, fun v hv => ?_⟩
  rcases h'.consults v hv with hv | hv
  · exact h.consults v hv
  · exact .inr hv

/-- A translation where nothing is stale. -/
theorem StaysLive.consultIf (hl : s.view.PointersLive) (translated : Bool) :
    StaysLive s (s.consultIf translated) := by
  refine ⟨by rwa [TaggedOfproto.consultIf_view], fun v hv => ?_⟩
  rcases TaggedOfproto.mem_consultIf hv with hv | ⟨-, rfl⟩
  · exact .inl hv
  · exact .inr hl

/-- What is destructed in time leaves no stale subtable. -/
theorem Destructed.live (hd : Destructed looks s1 s2 L)
    (hstale : ∀ i t, s1.view.Recorded i t → t ∉ (s1.view.cls i).tables.values →
      (∃ a ∈ L, s1.tableOf a = i) ∧ ∀ before a, before ++ [a] <+: L → looks a = true →
        ∃ b ∈ before, s1.tableOf b = i) :
    StaysLive s1 s2 := by
  refine ⟨hd.refreshed.pointersLive fun i t ht hgone => (hstale i t ht hgone).1, fun v hv => ?_⟩
  rcases hd.consults v hv with hv | ⟨before, a, hpre, ha, hv⟩
  · exact .inl hv
  · exact .inr (hv.pointersLive fun i t ht hgone => (hstale i t ht hgone).2 before a hpre ha)

/-- Submitting the group changes nothing that is looked at. -/
theorem Unsubmitted.run_submit (h : Unsubmitted g s.ofproto)
    (hs : s.run (fun o => ofopgroupSubmit o g isHidden) = some s') :
    s'.view = s.view ∧ s'.consults = s.consults := by
  obtain ⟨o, hsub, rfl⟩ := Option.map_eq_some_iff.mp hs
  refine ⟨?_, rfl⟩
  show (⟨fun i => (o.enclave.oftable i).cls, s.dpif, s.recordedMask⟩ : TagView) = s.view
  rw [(h.submit hsub).oftable]
  rfl

theorem StaysLive.submit (h : StaysLive s s1) (hun : Unsubmitted g s1.ofproto)
    (hs : s1.run (fun o => ofopgroupSubmit o g isHidden) = some s') : StaysLive s s' := by
  obtain ⟨hview, hcons⟩ := hun.run_submit hs
  refine ⟨?_, ?_⟩
  · rw [hview]
    exact h.view
  · rw [hcons]
    exact h.consults

/-- The rules `rules` have been taken out of the enclave, and then destructed in time. -/
theorem Destructed.staysLive (h : Sane s.ofproto) (hl : s.view.PointersLive)
    (hok : EnclaveOk P o.enclave) (h0 : EnclaveOk P s.ofproto.enclave)
    (hsh : Shrunk s.ofproto.enclave o.enclave)
    (hleft : ∀ j q, q ∈ s.ofproto.enclave.rules j → s.ofproto.enclave.oClsRule q ∉ rules →
      q ∈ o.enclave.rules j)
    (htable : ∀ a, (o.rule a).tableId = s.tableOf a)
    (hin : s.RefreshesInTime looks rules)
    (hd : Destructed looks (s.withOfproto o) s2 rules) : StaysLive s s2 := by
  have htables : (s.withOfproto o).tableOf = s.tableOf := funext htable
  have hlive := hd.live fun i t ht hgone => ?_
  · exact ⟨hlive.view, hlive.consults⟩
  · rw [htables]
    have hsub : s.ofproto.enclave.HasSubtable i t := (hl i t ht).1
    have hempty := empties_of_gone h0 hok hsh hleft hsub hgone
    exact ⟨hempty.table h hsub, hin i t ht hempty⟩

end Remove

/-! ## The calls -/

section Calls

variable {s s' : TaggedOfproto} {rules : List UtAddr} {tags : Translations} {a : UtAddr}

theorem Cleared.left {P : Match → Prop} {e e' : Enclave} {T : List RuleId} (hcl : Cleared P e e' T)
    {j : Nat} {q : RuleId} (hq : q ∈ e.rules j) (hnot : e.oClsRule q ∉ T.map e.oClsRule) :
    q ∈ e'.rules j :=
  hcl.mem_rules.mpr ⟨hq, fun hT => hnot (List.mem_map_of_mem hT)⟩

/-- `ecall_delete_flows` returns an entry for each rule. -/
theorem ecallDeleteFlows_length : ∀ {l : List (Nat × UtAddr)} {e e' : Enclave}
    {d : List DeletedFlow}, ecallDeleteFlows e l = some (e', d) → d.length = l.length
  | [], e, e', d, hs => by cases hs; rfl
  | (i, a) :: rest, e, e', d, hs => by
      simp only [ecallDeleteFlows, Option.bind_eq_bind, Option.bind_eq_some_iff] at hs
      obtain ⟨⟨e1, d1⟩, -, ⟨e2, d2⟩, h2, h3⟩ := hs
      cases h3
      rw [List.length_cons, List.length_cons, ecallDeleteFlows_length h2]

/-- `delete_flows__`. -/
theorem deleteFlows_staysLive (h : Sane s.ofproto) (hl : s.view.PointersLive)
    (hinst : ∀ a ∈ rules, ∃ i, s.ofproto.enclave.Installed i a) (hnodup : rules.Nodup)
    (hin : s.RefreshesInTime tags.looks rules) (hs : s.deleteFlows tags rules = some s') :
    StaysLive s s' := by
  obtain ⟨⟨e, deleted⟩, hdel, hs⟩ := Option.bind_eq_some_iff.mp hs
  obtain ⟨s1, hfold, hsubmit⟩ := Option.bind_eq_some_iff.mp hs
  obtain ⟨e', d', T, hdel', hcl, hT, -⟩ :=
    ecallDeleteFlows_bridge h.enclave (allInstalled_tableId h hinst hnodup)
  obtain ⟨rfl, rfl⟩ := Prod.mk.inj (Option.some.inj (hdel'.symm.trans hdel))
  have hrules : T.map s.ofproto.enclave.oClsRule = rules := by
    rw [hT, List.map_map]
    simp [Function.comp_def]
  have hlist : (rules.zip (d'.map DeletedFlow.hash)).map Prod.fst = rules := by
    refine List.map_fst_zip (Nat.le_of_eq ?_)
    rw [List.length_map, ecallDeleteFlows_length hdel, List.length_map]
  have hsh : Shrunk s.ofproto.enclave e' := ecallDeleteFlows_shrunk hdel
  have hun := ofopgroupCreate_unsubmitted h
  let o : Ofproto := { (ofopgroupCreate s.ofproto).1 with enclave := e' }
  obtain ⟨hd, hun1⟩ := TaggedOfproto.foldlM_startDeletion_destructed (s := s.withOfproto o)
    (g := s.ofproto.nextGroup) ⟨hun.pending, hun.error⟩
    (hl.masksKept (o := o) h.enclave.toEnclaveOk hsh.toKept) hfold
  rw [hlist] at hd
  have hlive := Destructed.staysLive (o := o) h hl hcl.ok.toEnclaveOk h.enclave.toEnclaveOk hsh
    (fun j q hq hnot => hcl.left hq (by rw [hrules]; exact hnot)) (fun _ => rfl) hin hd
  exact hlive.submit hun1 hsubmit

/-- `ofproto_evict`. -/
theorem ofprotoEvict_staysLive (h : Sane s.ofproto) (hl : s.view.PointersLive)
    (hin : s.RefreshesInTime tags.facets s.ofproto.evicted)
    (hs : s.ofprotoEvict tags = some s') : StaysLive s s' := by
  obtain ⟨⟨e, entries, total⟩, hpages, hs⟩ := Option.bind_eq_some_iff.mp hs
  obtain ⟨⟨o1, removed⟩, hentries, hs⟩ := Option.bind_eq_some_iff.mp hs
  obtain ⟨⟨e2, hidden⟩, hremove, hs⟩ := Option.bind_eq_some_iff.mp hs
  obtain ⟨s1, hfold, hsubmit⟩ := Option.bind_eq_some_iff.mp hs
  have hpages' : evictPages s.ofproto.enclave s.ofproto.nTables = some (e, entries, total) :=
    hpages
  have hevicted : s.ofproto.evicted = removed := by
    have hentries' : evictEntries s.ofproto.nextGroup entries total 0
        { (ofopgroupCreate s.ofproto).1 with enclave := e } [] = some (o1, removed) := hentries
    simp [Ofproto.evicted, hpages', hentries']
  rw [hevicted] at hin
  obtain ⟨hre, e3, _, o2, n, T, hremove', -, henc2, hremoved, hcr, hst⟩ :=
    evictLoops_pages h hpages' hentries
  obtain ⟨rfl, rfl⟩ := Prod.mk.inj (Option.some.inj (hremove'.symm.trans hremove))
  have hun : Unsubmitted s.ofproto.nextGroup o1 :=
    hcr.unsubmitted (ofopgroupCreate_unsubmitted h).pending (by simp [ofopgroupCreate])
  have hsh : Shrunk s.ofproto.enclave e3 := by
    refine hre.same.shrunk.trans ?_
    have henc1 : o1.enclave = e := hcr.enclave
    rw [← henc1]
    exact ecallOftableRemoveRules_shrunk hremove'
  have hpurged := hst.purged
  rw [henc2] at hpurged
  have hrunning := hcr.forall₂.imp fun a k hk =>
    show (o1.rule a).pending = some k ∧ (o1.op k).group = s.ofproto.nextGroup from
      ⟨hk.1, hk.2.2.1⟩
  rw [← hremoved] at hrunning
  let o : Ofproto := { o1 with enclave := e3 }
  obtain ⟨hd, hun1⟩ := TaggedOfproto.foldlM_ruleDestruct_destructed (s := s.withOfproto o)
    (g := s.ofproto.nextGroup) ⟨hun.pending, hun.error⟩
    (hl.masksKept (o := o) h.enclave.toEnclaveOk hsh.toKept) hrunning hfold
  have hlive := Destructed.staysLive (o := o) h hl hpurged.ok.toEnclaveOk h.enclave.toEnclaveOk
    hsh (fun j q hq hnot => ?_) (fun a => hcr.tableId a) hin hd
  · exact hlive.submit hun1 hsubmit
  · rw [hpurged.rules, List.mem_filter]
    refine ⟨hq, decide_eq_true fun hT => hnot ?_⟩
    rw [hremoved, hst.rules]
    exact List.mem_map_of_mem hT

theorem flushPages_shrunk {e e' : Enclave} {entries : List (UtAddr × U32)} {n : Nat}
    (hs : flushPages e = some (e', entries, n)) : Shrunk e e' := by
  obtain ⟨f, h1, hs⟩ := Option.bind_eq_some_iff.mp hs
  have hsh : Shrunk e f.state := foldlM_flushTable_shrunk (f := ⟨e, [], 0⟩) h1
  split at hs
  · cases hs
    exact hsh
  · obtain ⟨f', h2, hs⟩ := Option.bind_eq_some_iff.mp hs
    cases hs
    exact hsh.trans (foldlM_flushTable_shrunk (f := ⟨f.state, [], 0⟩) h2)

/-- `ofproto_flush__`. -/
theorem ofprotoFlush_staysLive (h : Sane s.ofproto) (hl : s.view.PointersLive)
    (hin : (TaggedCall.call .flush tags).InTime s) (hs : s.ofprotoFlush = some s') :
    StaysLive s s' := by
  obtain ⟨⟨e, entries, nRules⟩, hpages, hs⟩ := Option.bind_eq_some_iff.mp hs
  obtain ⟨read, hread, hs⟩ := Option.bind_eq_some_iff.mp hs
  obtain ⟨s1, hfold, hsubmit⟩ := Option.bind_eq_some_iff.mp hs
  obtain ⟨e', hcl, hpages'⟩ := flushPages_spec h.enclave
  have hsh : Shrunk s.ofproto.enclave e' := flushPages_shrunk hpages'
  obtain ⟨rfl, heq⟩ := Prod.mk.inj (Option.some.inj (hpages'.symm.trans hpages))
  obtain ⟨rfl, rfl⟩ := Prod.mk.inj heq
  have hun := ofopgroupCreate_unsubmitted h
  let o : Ofproto := { (ofopgroupCreate s.ofproto).1 with enclave := e' }
  obtain ⟨hd, hun1⟩ := TaggedOfproto.foldlM_startDeletion_destructed (s := s.withOfproto o)
    (g := s.ofproto.nextGroup) ⟨hun.pending, hun.error⟩
    (hl.masksKept (o := o) h.enclave.toEnclaveOk hsh.toKept) hfold
  have hlive := hd.live fun i t ht hgone => ?_
  · have hstays : StaysLive s s1 := ⟨hlive.view, hlive.consults⟩
    exact hstays.submit hun1 hsubmit
  · refine ⟨?_, fun _ _ _ hf => by cases hf⟩
    have hempty : s.ofproto.enclave.Empties
        ((allFlushable s.ofproto.enclave).map fun e => s.ofproto.enclave.oClsRule e.2) i t :=
      empties_of_gone h.enclave.toEnclaveOk hcl.ok.toEnclaveOk hsh
        (fun j q hq hnot => hcl.left hq (by rw [List.map_map]; exact hnot)) (hl i t ht).1 hgone
    obtain ⟨x, hx, rfl⟩ := hin i t ht hempty
    have hmem : x.2 ∈ s.ofproto.enclave.rules x.1 :=
      (mem_flushList.mp (List.mem_of_mem_take hx)).2.2
    refine ⟨s.ofproto.enclave.oClsRule x.2, ?_,
      (h.tableId _ _ (h.enclave.installed_self hmem)).2⟩
    rw [readEntries, if_pos (by rw [List.length_map]; exact flushCount_le _),
      Option.some.injEq] at hread
    rw [← hread, List.map_map, ← List.map_take, List.map_map]
    exact List.mem_map.mpr ⟨x, hx, rfl⟩

/-- `ofproto_rule_expire`. -/
theorem ofprotoRuleExpire_staysLive (h : Sane s.ofproto) (hl : s.view.PointersLive)
    (ha : a ∈ s.ofproto.expirable) (hs : s.ofprotoRuleExpire tags a = some s') : StaysLive s s' := by
  unfold TaggedOfproto.ofprotoRuleExpire at hs
  split at hs
  · cases hs
    exact ⟨hl, fun _ hv => .inl hv⟩
  · obtain ⟨_, _, hs⟩ := Option.bind_eq_some_iff.mp hs
    have hsent := StaysLive.consultIf hl (tags.removed a)
    refine hsent.trans ?_
    replace hl := hsent.view
    rw [← s.consultIf_ofproto (tags.removed a)] at h ha
    generalize s.consultIf (tags.removed a) = s at hs hl h ha ⊢
    obtain ⟨⟨o1, k⟩, hcreate, hs⟩ := Option.bind_eq_some_iff.mp hs
    obtain ⟨o2, hremove, hs⟩ := Option.bind_eq_some_iff.mp hs
    obtain ⟨s1, hdestruct, hsubmit⟩ := Option.bind_eq_some_iff.mp hs
    obtain ⟨hun, henc, htable, hp, hk⟩ :=
      ofoperationCreate_unsubmitted (ofopgroupCreate_unsubmitted h) hcreate
    have henc1 : o1.enclave = s.ofproto.enclave := henc
    obtain ⟨e1, h1, hremove⟩ := Option.bind_eq_some_iff.mp hremove
    obtain ⟨o3, h3, hremove⟩ := Option.bind_eq_some_iff.mp hremove
    obtain ⟨e2, h2, h3⟩ := Option.bind_eq_some_iff.mp h3
    cases h3
    cases hremove
    rw [henc1] at h1
    have hsh := clsRemove_evgRemove_shrunk h1 h2
    obtain ⟨r, hlook, hgone, hok⟩ := clsRemove_evgRemove h.enclave.toEnclaveOk h1 h2
    have haddr : s.ofproto.enclave.oClsRule r = a := by
      obtain ⟨q, hq, rfl⟩ := h.onList a ha
      rw [h.enclave.shadows.lookup_self hq, Option.some.injEq] at hlook
      rw [hlook]
    let o : Ofproto := Ofproto.unlinkExpirable { o1 with enclave := e2 } a
    obtain ⟨hd, hun1, -⟩ := TaggedOfproto.ruleDestruct_some (s := s.withOfproto o)
      (g := s.ofproto.nextGroup) ⟨hun.pending, hun.error⟩
      (hl.masksKept (o := o) h.enclave.toEnclaveOk hsh.toKept) hp hk hdestruct
    have hlive := Destructed.staysLive (o := o) h hl hok h.enclave.toEnclaveOk hsh
      (fun j q hq hnot => ?_) htable (fun _ _ _ _ _ _ _ hf => by cases hf) hd
    · exact hlive.submit hun1 hsubmit
    · refine (hgone.mem_rules h.enclave.toEnclaveOk).mpr ⟨hq, ?_⟩
      rintro rfl
      exact hnot (List.mem_singleton.mpr haddr)

end Calls

/-! ## Adding a flow -/

section AddFlow

variable {s s' : TaggedOfproto} {o o' : Ofproto} {tags : Translations} {fm : FlowMod}
  {new : NewRule} {construct : Option Ofperr} {error : Ofperr} {cr : UtAddr} {out : AddFlowOut}

/-- If a rule is evicted and the call fails all the same, then `rule_construct` has failed or the
evicted rule or the victim is pending. -/
theorem evictsFor_error {e : UtAddr} {victim : Option UtAddr} (h : Sane o)
    (hnew : o.enclave.NewAddr new.cr) (hgood : ¬ (fm.tableId ≠ 0xff ∧ o.nTables ≤ fm.tableId))
    (hs : addFlow o fm new construct = some (o', some error))
    (he : EvictsFor o fm new e victim) :
    construct ≠ none ∨ isPending o (some e) = true ∨ isPending o victim = true := by
  obtain ⟨s', out, hecall, hev, rfl⟩ := he
  by_contra hnone
  rw [not_or, not_or, not_not, Bool.not_eq_true, Bool.not_eq_true] at hnone
  obtain ⟨rfl, hpe, hpv⟩ := hnone
  have hadd : ∃ V E, FlowAdded (fun _ => True) o.enclave (flowArgs o fm new) s' out V E := by
    rcases ecallAddFlow_cases hecall with ⟨-, -, rfl⟩ | ⟨-, -, rfl | rfl⟩ | ⟨hnot, hinst⟩
    · cases hev
    · cases hev
    · cases hev
    · obtain ⟨s1, out1, V, E, h1, hadd⟩ :=
        installFlow_added h.enclave hnew trivial (FlowRefused.readonly hnot)
      obtain ⟨rfl, rfl⟩ := Prod.mk.inj (Option.some.inj (h1.symm.trans hinst))
      exact ⟨V, E, hadd⟩
  obtain ⟨V, E, hadd⟩ := hadd
  obtain ⟨hro, hpend, hover, hmod⟩ := hadd.accepted
  have herr : addFlowError (relinkExpirable (entered o fm new s') new.cr out.victim) out
      = none := by
    have hE : E ≠ none := by
      rintro rfl
      rw [hadd.outEvict] at hev
      cases hev
    have hevict : isPending (relinkExpirable (entered o fm new s') new.cr out.victim) out.evict =
        isPending o out.evict := isPending_entered hnew fun b hb => hadd.out_live h (.inl hb)
    have hvictim : isPending (relinkExpirable (entered o fm new s') new.cr out.victim) out.victim =
        isPending o out.victim := isPending_entered hnew fun b hb => hadd.out_live h (.inr hb)
    rw [hev, hpe] at hevict
    rw [hpv] at hvictim
    simp [addFlowError, hmod, hevict, hvictim, hadd.overflow hE, hev]
  rw [addFlow, if_neg hgood] at hs
  obtain ⟨⟨s1, out1⟩, h1, h2⟩ := Option.bind_eq_some_iff.mp hs
  obtain ⟨rfl, rfl⟩ := Prod.mk.inj (Option.some.inj (hecall.symm.trans h1))
  have h2' : finishAddFlow (entered o fm new s') new.cr out none = some (o', some error) := h2
  simp only [finishAddFlow, hro, hpend, hover, Bool.false_eq_true, if_false, herr] at h2'
  rw [operateAddFlow_eq (o := relinkExpirable (entered o fm new s') new.cr out.victim)
    (by simp [relinkExpirable, entered, evictionGroupPriority, allocRule])] at h2'
  simp only [Option.bind_eq_some_iff, Option.map_eq_some_iff] at h2'
  obtain ⟨_, _, _, _, _, _, heq⟩ := h2'
  cases (Prod.mk.inj heq).2

theorem TaggedOfproto.backOut_tags {victim : Option UtAddr} {err : Option Ofperr}
    (hs : s.backOut cr victim error = some (s', err)) : s' = s.withOfproto s'.ofproto := by
  obtain ⟨⟨o, e⟩, -, hs⟩ := Option.bind_eq_some_iff.mp hs
  cases hs
  rfl

/-- An error exit of `add_flow` records nothing. -/
theorem TaggedOfproto.operateAddFlow_error
    (hs : s.operateAddFlow tags cr out construct = some (s', some error)) :
    s' = s.withOfproto s'.ofproto := by
  obtain ⟨⟨o, k⟩, -, hs⟩ := Option.bind_eq_some_iff.mp hs
  cases construct with
  | some err =>
    obtain ⟨s1, hdrop, hback⟩ := Option.bind_eq_some_iff.mp hs
    obtain ⟨o1, -, rfl⟩ := Option.map_eq_some_iff.mp hdrop
    have hsame := TaggedOfproto.backOut_tags hback
    exact hsame
  | none =>
    simp only [Option.bind_eq_bind, Option.bind_eq_some_iff] at hs
    obtain ⟨_, _, _, _, _, _, heq⟩ := hs
    cases heq

theorem TaggedOfproto.addFlow_error
    (hs : s.addFlow tags fm new construct = some (s', some error)) :
    s' = s.withOfproto s'.ofproto := by
  unfold TaggedOfproto.addFlow at hs
  split at hs
  · cases hs
    rfl
  · obtain ⟨⟨e, out⟩, -, hs⟩ := Option.bind_eq_some_iff.mp hs
    dsimp only at hs
    unfold TaggedOfproto.finishAddFlow at hs
    split at hs
    · cases hs
      rfl
    · split at hs
      · cases hs
        rfl
      · split at hs
        · cases hs
          rfl
        · dsimp only at hs
          split at hs
          · have hsame := TaggedOfproto.backOut_tags hs
            exact hsame
          · have hsame := TaggedOfproto.operateAddFlow_error hs
            exact hsame

/-- `add_flow`, if it fails. -/
theorem addFlow_error_staysLive (h : Sane s.ofproto) (hl : s.view.PointersLive)
    (hnew : s.ofproto.enclave.NewAddr new.cr)
    (hin : (TaggedCall.call (.addFlow fm new construct) tags).InTime s)
    (hs : s.addFlow tags fm new construct = some (s', some error)) : StaysLive s s' := by
  have hres : addFlow s.ofproto fm new construct = some (s'.ofproto, some error) := by
    rw [← s.addFlow_ofproto tags, hs]
    rfl
  rw [TaggedOfproto.addFlow_error hs]
  generalize s'.ofproto = o' at *
  refine ⟨fun i t ht => ?_, fun v hv => .inl hv⟩
  obtain ⟨hsub, hmask⟩ := hl i t ht
  have hsub' : s.ofproto.enclave.HasSubtable i t := hsub
  by_cases hgood : fm.tableId ≠ 0xff ∧ s.ofproto.nTables ≤ fm.tableId
  · rw [addFlow, if_pos hgood, Option.some.injEq, Prod.mk.injEq] at hres
    rw [← hres.1]
    exact ⟨hsub, hmask⟩
  -- a rule of the subtable that is not evicted
  have hrule : ∃ q ∈ s.ofproto.enclave.subtableRules i t,
      ∀ e victim, EvictsFor s.ofproto fm new e victim → s.ofproto.enclave.oClsRule q ≠ e := by
    by_cases hev : ∃ e victim, EvictsFor s.ofproto fm new e victim
    · obtain ⟨e, victim, hev⟩ := hev
      have hne := hin e victim hev (evictsFor_error h hnew hgood hres hev) i t ht
      simp only [Enclave.Empties, not_forall] at hne
      obtain ⟨q, hq, hqe⟩ := hne
      refine ⟨q, hq, fun e' victim' hev' => ?_⟩
      obtain ⟨s1, out1, h1, hout1, -⟩ := hev
      obtain ⟨s2, out2, h2, hout2, -⟩ := hev'
      obtain ⟨-, rfl⟩ := Prod.mk.inj (Option.some.inj (h1.symm.trans h2))
      rw [Option.some.inj (hout2.symm.trans hout1)]
      exact fun heq => hqe (List.mem_singleton.mpr heq)
    · obtain ⟨q, hq⟩ := hsub'.nonempty h.enclave.toEnclaveOk
      exact ⟨q, hq, fun e victim hev' => absurd ⟨e, victim, hev'⟩ hev⟩
  obtain ⟨q, hq, hkeep⟩ := hrule
  obtain ⟨hsub2, hmask2⟩ := addFlow_error_hasSubtable h hnew hres hsub' hq hkeep
  exact ⟨hsub2, hmask2.trans hmask⟩

/-- When the new rule is in its table and this has been refreshed, nothing is stale. -/
theorem added_pointersLive {o : Ofproto} {enclave : Enclave} (h : Sane s.ofproto)
    (hl : s.view.PointersLive) (hnew : s.ofproto.enclave.NewAddr new.cr)
    (hecall : ecallAddFlow s.ofproto.enclave (flowArgs s.ofproto fm new) = some (enclave, out))
    (henc : o.enclave = enclave) (htable : (o.rule new.cr).tableId = fm.table) :
    ((s.withOfproto o).updateTaggable fm.table).view.PointersLive := by
  have hok := h.enclave.toEnclaveOk
  have hkept : Kept s.ofproto.enclave o.enclave := henc ▸ ecallAddFlow_kept hok hnew hecall
  have href := refreshed_updateTaggable (hl.masksKept hok hkept) new.cr
  have hlive := href.pointersLive fun i t ht hgone => ?_
  · have htable' : (s.withOfproto o).tableOf new.cr = fm.table := htable
    rw [htable'] at hlive
    exact hlive
  · refine ⟨new.cr, List.mem_singleton.mpr rfl, ?_⟩
    by_contra hne
    have hi : i ≠ (flowArgs s.ofproto fm new).tableId := fun heq => hne (htable.trans heq.symm)
    have hframe := (ecallAddFlow_frame hok hnew hi hecall).cls
    refine hgone ?_
    show t ∈ (o.enclave.oftable i).cls.tables.values
    rw [henc, hframe]
    exact (hl i t ht).1

/-- Where nothing is stale, destructing rules leaves nothing stale. -/
theorem Destructed.live_of_live {looks : UtAddr → Bool} {L : List UtAddr}
    (hd : Destructed looks s s' L)
    (hl : s.view.PointersLive) : StaysLive s s' :=
  hd.live fun i t ht hgone => absurd (hl i t ht).1 hgone

theorem TaggedOfproto.backOut_ne_none {victim : Option UtAddr} :
    s.backOut cr victim error ≠ some (s', none) := by
  intro hs
  obtain ⟨⟨o, e⟩, hback, hs⟩ := Option.bind_eq_some_iff.mp hs
  obtain ⟨_, -, hback⟩ := Option.bind_eq_some_iff.mp hback
  obtain ⟨_, -, hback⟩ := Option.bind_eq_some_iff.mp hback
  cases hback
  cases hs

theorem Unsubmitted.setVictim {g : GroupId} (h : Unsubmitted g o) (k : OpId)
    (victim : Option UtAddr) :
    Unsubmitted g { o with op := Function.update o.op k { o.op k with victim := victim } } := by
  refine ⟨h.pending, fun j hj => ?_⟩
  have herr := h.error j hj
  show (Function.update o.op k _ j).error = none
  rcases eq_or_ne j k with rfl | hne
  · rw [Function.update_self]
    exact herr
  · rw [Function.update_of_ne hne]
    exact herr

/-- The deletion of the evicted rule finds nothing stale. -/
theorem TaggedOfproto.deleteEvicted_staysLive {g : GroupId} (hun : Unsubmitted g s.ofproto)
    (hl : s.view.PointersLive) (hs : s.deleteEvicted tags g out = some s') :
    StaysLive s s' ∧ Unsubmitted g s'.ofproto := by
  unfold TaggedOfproto.deleteEvicted at hs
  split at hs
  · cases hs
    exact ⟨⟨hl, fun _ hv => .inl hv⟩, hun⟩
  · obtain ⟨hd, hun'⟩ :=
      TaggedOfproto.startDeletion_some hun (TagView.pointersLive_iff.mp hl).2 hs
    exact ⟨hd.live_of_live hl, hun'⟩

/-- Nothing is stale from the state in which the operation for the new rule has been created and
the subtables of its table have been recorded. -/
theorem TaggedOfproto.operateAddFlow_staysLive (hg : s.ofproto.nextGroup ∉ s.ofproto.pending)
    (hl : ∀ o : Ofproto, o.enclave = s.ofproto.enclave → (∀ a, (o.rule a).tableId = s.tableOf a) →
      ((s.withOfproto o).updateTaggable (s.tableOf cr)).view.PointersLive)
    (hs : s.operateAddFlow tags cr out construct = some (s', none)) :
    StaysLive s s' := by
  obtain ⟨⟨o1, k⟩, hcreate, hs⟩ := Option.bind_eq_some_iff.mp hs
  have hun : Unsubmitted s.ofproto.nextGroup (ofopgroupCreate s.ofproto).1 :=
    ⟨hg, by simp [ofopgroupCreate]⟩
  obtain ⟨hun1, henc, htable, hp, hk⟩ := ofoperationCreate_unsubmitted hun hcreate
  cases construct with
  | some err =>
    obtain ⟨s1, -, hback⟩ := Option.bind_eq_some_iff.mp hs
    exact absurd hback TaggedOfproto.backOut_ne_none
  | none =>
    let o2 : Ofproto := { o1 with op := Function.update o1.op k { o1.op k with victim := out.victim } }
    have hun2 : Unsubmitted s.ofproto.nextGroup o2 := hun1.setVictim k out.victim
    have hk2 : (o2.op k).group = s.ofproto.nextGroup := by
      simpa [o2] using hk
    obtain ⟨s1, hcomp, hs⟩ := Option.bind_eq_some_iff.mp hs
    obtain ⟨s2, hevict, hs⟩ := Option.bind_eq_some_iff.mp hs
    obtain ⟨s3, hsubmit, hres⟩ := Option.bind_eq_some_iff.mp hs
    cases hres
    have hcomp' : (s.withOfproto o2).completeOperation cr = some s1 := hcomp
    obtain ⟨o3, rfl, hun3, henc3, -⟩ :=
      TaggedOfproto.completeOperation_some (s := s.withOfproto o2) hun2 hp hk2 hcomp'
    have htab : (s.withOfproto o2).tableOf cr = s.tableOf cr := htable cr
    have hlive1 := hl o2 henc htable
    rw [htab] at hevict
    have hview : (((s.withOfproto o2).updateTaggable (s.tableOf cr)).withOfproto o3).view =
        ((s.withOfproto o2).updateTaggable (s.tableOf cr)).view := by
      show (⟨fun i => (o3.enclave.oftable i).cls, _, _⟩ : TagView) = _
      rw [henc3]
      rfl
    rw [← hview] at hlive1
    obtain ⟨hlive2, hun4⟩ := TaggedOfproto.deleteEvicted_staysLive hun3 hlive1 hevict
    have hlive3 : StaysLive s s2 := ⟨hlive2.view, hlive2.consults⟩
    have hlive4 := hlive3.trans (StaysLive.consultIf hlive3.view tags.packet)
    rw [← s2.consultIf_ofproto tags.packet] at hun4
    exact hlive4.submit hun4 hsubmit

/-- `add_flow`, if it succeeds. -/
theorem addFlow_started_staysLive (h : Sane s.ofproto) (hl : s.view.PointersLive)
    (hnew : s.ofproto.enclave.NewAddr new.cr)
    (hs : s.addFlow tags fm new construct = some (s', none)) : StaysLive s s' := by
  unfold TaggedOfproto.addFlow at hs
  split at hs
  · cases hs
  · obtain ⟨⟨e, out⟩, hecall, hs⟩ := Option.bind_eq_some_iff.mp hs
    dsimp only at hs
    unfold TaggedOfproto.finishAddFlow at hs
    split at hs
    · cases hs
    · split at hs
      · cases hs
      · split at hs
        · cases hs
        · dsimp only at hs
          split at hs
          · exact absurd hs TaggedOfproto.backOut_ne_none
          · have hecall' : ecallAddFlow s.ofproto.enclave (flowArgs s.ofproto fm new)
                = some (e, out) := hecall
            have hg : s.ofproto.nextGroup ∉ s.ofproto.pending :=
              fun hmem => Nat.lt_irrefl _ (h.groups _ hmem)
            have hstay := TaggedOfproto.operateAddFlow_staysLive (by exact hg)
              (fun o henc htable => ?_) hs
            · exact ⟨hstay.view, hstay.consults⟩
            · have hcr : (s.withOfproto (relinkExpirable (entered s.ofproto fm new e) new.cr
                  out.victim)).tableOf new.cr = fm.table := by
                show ((allocRule s.ofproto fm new).rule new.cr).tableId = fm.table
                simp [allocRule]
              have hlive := added_pointersLive (o := o) h hl hnew hecall' henc
                ((htable new.cr).trans hcr)
              rw [← hcr] at hlive
              exact hlive

end AddFlow

/-! ## Every run -/

section Runs

variable {s s' : TaggedOfproto} {c : TaggedCall}

/-- Nothing is stale if the classifiers stay as they are. -/
theorem staysLive_of_cls {o : Ofproto} (hl : s.view.PointersLive)
    (hcls : ∀ i, (o.enclave.oftable i).cls = (s.ofproto.enclave.oftable i).cls) :
    StaysLive s (s.withOfproto o) := by
  have hview : (s.withOfproto o).view = s.view := by
    show (⟨fun i => (o.enclave.oftable i).cls, s.dpif, s.recordedMask⟩ : TagView) = s.view
    simp only [hcls]
    rfl
  refine ⟨?_, fun _ hv => .inl hv⟩
  rw [hview]
  exact hl

/-- One allowed call that is in time. -/
theorem run_staysLive (h : Sane s.ofproto) (hl : s.view.PointersLive) (hc : c.Allowed s)
    (hin : c.InTime s) (hs : c.run s = some s') : StaysLive s s' := by
  cases c with
  | xlate =>
    cases hs
    refine ⟨hl, fun v hv => ?_⟩
    rcases List.mem_append.mp hv with hv | hv
    · exact .inl hv
    · rw [List.mem_singleton.mp hv]
      exact .inr hl
  | call c tags =>
    cases c with
    | addFlow fm new construct =>
      obtain ⟨⟨s1, error⟩, h1, rfl⟩ := Option.map_eq_some_iff.mp hs
      cases error with
      | none => exact addFlow_started_staysLive h hl hc h1
      | some err => exact addFlow_error_staysLive h hl hc hin h1
    | deleteFlows rules => exact deleteFlows_staysLive h hl hc.1 hc.2 hin hs
    | flush => exact ofprotoFlush_staysLive h hl hin hs
    | evict => exact ofprotoEvict_staysLive h hl hin hs
    | ruleExpire a => exact ofprotoRuleExpire_staysLive h hl hc hs
    | completeOperations =>
      obtain ⟨o, h1, rfl⟩ := Option.map_eq_some_iff.mp hs
      have hpacket := StaysLive.consultIf hl tags.packet
      rw [← s.consultIf_ofproto tags.packet] at h
      exact hpacket.trans (staysLive_of_cls hpacket.view fun i => by
        rw [(completeOperations_onlyShadows h h1).oftable])
    | clog clogged =>
      cases hs
      exact staysLive_of_cls hl fun _ => rfl
    | configure c =>
      obtain ⟨o, h1, rfl⟩ := Option.map_eq_some_iff.mp hs
      obtain ⟨e, h2, rfl⟩ := Option.map_eq_some_iff.mp h1
      exact staysLive_of_cls hl (exec_config hc.1 h2).2.1

/-- The bridge of a run is sane. -/
theorem run_tagged_sane (h : Sane s.ofproto) (hc : c.Allowed s) (hs : c.run s = some s') :
    Sane s'.ofproto := by
  cases c with
  | xlate =>
    cases hs
    exact h
  | call c tags =>
    have hbridge := TaggedCall.run_ofproto s c tags
    rw [hs] at hbridge
    exact (run_sane h hc hbridge.symm).1

/-- In a run of calls that are in time the recorded subtables are alive whenever `tag_the_flow`
looks at them. -/
theorem taggablePointers_live (h : TaggedReachable (fun s c => c.Allowed s ∧ c.InTime s) s) :
    ∀ v ∈ s.consults, v.PointersLive := by
  suffices hall : Sane s.ofproto ∧ s.view.PointersLive ∧ ∀ v ∈ s.consults, v.PointersLive from
    hall.2.2
  induction h with
  | create nTables enclaveRandom random basis recordedMask hn =>
    refine ⟨ofprotoCreate_sane hn enclaveRandom random, fun i t ht => ?_, by simp⟩
    obtain ht | ht := ht
    · cases ht
    · cases ht
  | step c _ hc hs ih =>
    obtain ⟨hsane, hlive, hcons⟩ := ih
    have hstay := run_staysLive hsane hlive hc.1 hc.2 hs
    refine ⟨run_tagged_sane hsane hc.1 hs, hstay.view, fun v hv => ?_⟩
    obtain hv | hv := hstay.consults v hv
    · exact hcons v hv
    · exact hv

end Runs

/-! ## Two runs -/

/-- The state after a call, unchanged if the call is undefined. -/
def TaggedOfproto.after (s : TaggedOfproto) (c : TaggedCall) : TaggedOfproto := (c.run s).getD s

theorem TaggedReachable.after {G : TaggedOfproto → TaggedCall → Prop} {s : TaggedOfproto}
    {c : TaggedCall} (h : TaggedReachable G s) (hc : G s c) : TaggedReachable G (s.after c) := by
  unfold TaggedOfproto.after
  cases hs : c.run s with
  | none => exact h
  | some s' => exact h.step c hc hs

/-- A flow is added to the second of two tables. -/
def taggedFlow : TaggedOfproto :=
  TaggedOfproto.after ⟨twoTables, sgxTableDpifInit fun _ => 9#32, fun _ _ => (minimatchInit matchCatchall).mask, []⟩
    (.call (.addFlow secondTableFlow (ruleAt 1#64) none) noTranslations)

theorem taggedFlow_reachable {G : TaggedOfproto → TaggedCall → Prop}
    (hG : ∀ s c, c.Allowed s → c.InTime s → G s c) : TaggedReachable G taggedFlow :=
  (TaggedReachable.create 2 _ _ _ _ Nat.two_pos).after (hG _ _
    (show Enclave.NewAddr _ 1#64 by decide +kernel)
    fun e v he => absurd he (not_evictsFor (by decide +kernel)))

/-- A packet is translated before the flow is deleted and after that. -/
def translatedTwice : TaggedOfproto :=
  ((taggedFlow.after .xlate).after (.call (.deleteFlows [1#64]) noTranslations)).after .xlate

theorem translatedTwice_live :
    TaggedReachable (fun s c => c.Allowed s ∧ c.InTime s) translatedTwice ∧
      translatedTwice.consults.length = 2 ∧ ∀ v ∈ translatedTwice.consults, v.PointersLive := by
  have h0 : TaggedReachable (fun s c => c.Allowed s ∧ c.InTime s) taggedFlow :=
    taggedFlow_reachable fun _ _ hc hin => ⟨hc, hin⟩
  have h1 := h0.after (c := .xlate) ⟨trivial, trivial⟩
  have h2 := h1.after (c := .call (.deleteFlows [1#64]) noTranslations)
    ⟨⟨fun a ha => ⟨1, by rw [List.mem_singleton.mp ha]; decide +kernel⟩, List.nodup_singleton _⟩,
      fun _ _ _ _ _ _ _ hf => absurd hf Bool.false_ne_true⟩
  have h3 : TaggedReachable (fun s c => c.Allowed s ∧ c.InTime s) translatedTwice :=
    h2.after ⟨trivial, trivial⟩
  exact ⟨h3, by decide +kernel, taggablePointers_live h3⟩

/-- The flow of the first table that takes every packet. -/
def catchallFlow : FlowMod := ⟨0, matchCatchall, 0, false, 0, 0⟩

/-- A flow of the first table with a facet, and the flow of the second table with which the facet
was tagged, are deleted together. The flow that the facet comes to then is left. -/
def staleTranslation : TaggedOfproto :=
  ((taggedFlow.after
    (.call (.addFlow catchallFlow (ruleAt 2#64) none) noTranslations)).after
    (.call (.addFlow (expiringFlow 7#32 1) (ruleAt 3#64) none) noTranslations)).after
    (.call (.deleteFlows [3#64, 1#64]) { noTranslations with facets := (· == 3#64) })

/-- The facet is tagged with a subtable that is gone. -/
theorem staleTranslation_not_live :
    ¬ ∀ s, TaggedReachable (fun s c => c.Allowed s) s → ∀ v ∈ s.consults, v.PointersLive := by
  intro hall
  have h0 : TaggedReachable (fun s c => c.Allowed s) taggedFlow :=
    taggedFlow_reachable fun _ _ hc _ => hc
  have h1 := (h0.after (c := .call (.addFlow catchallFlow (ruleAt 2#64) none) noTranslations)
    (show Enclave.NewAddr _ 2#64 by decide +kernel)).after
    (c := .call (.addFlow (expiringFlow 7#32 1) (ruleAt 3#64) none) noTranslations)
    (show Enclave.NewAddr _ 3#64 by decide +kernel)
  have h2 : TaggedReachable (fun s c => c.Allowed s) staleTranslation := by
    refine h1.after ⟨fun a ha => ?_, by decide⟩
    rcases List.mem_pair.mp ha with rfl | rfl
    · exact ⟨0, by decide +kernel⟩
    · exact ⟨1, by decide +kernel⟩
  have hstale : ∃ v ∈ staleTranslation.consults, (v.dpif 1).otherTable = some 0 ∧
      0 ∉ (v.cls 1).tables.values := by decide +kernel
  obtain ⟨v, hv, hother, hgone⟩ := hstale
  exact hgone (hall staleTranslation h2 v hv 1 0 (.inr hother)).1

end OvsSgx
