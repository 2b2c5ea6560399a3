/-
OvsSgx.RuleMatches — a rule keeps the match that it was made with.

The match of a shadow is written by `cls_rule_init` and never again. Whatever
a call of the bridge does, a shadow that is live afterwards was live before,
under the same address and with the same match, unless it is the shadow of
the flow that the call adds.
-/
import OvsSgx.FiledDeletions
import OvsSgx.OfprotoRuns
import OvsSgx.TableFrames

namespace OvsSgx

/-! ## Shadows that stay as they are -/

/-- No shadow is new in `s'`, and those that are live have their addresses and matches. -/
structure Settled (s s' : Enclave) : Prop where
  live : ∀ r, s'.LiveRule r → s.LiveRule r
  rule : ∀ r, (s'.clsRule r).match = (s.clsRule r).match ∧ s'.oClsRule r = s.oClsRule r

section Settled

variable {s s' s'' : Enclave} {i : Nat} {a : UtAddr}

theorem Settled.refl (s : Enclave) : Settled s s := ⟨fun _ hr => hr, fun _ => ⟨rfl, rfl⟩⟩

theorem Settled.trans (h : Settled s s') (h' : Settled s' s'') : Settled s s'' :=
  ⟨fun r hr => h.live r (h'.live r hr),
    fun r => ⟨(h'.rule r).1.trans (h.rule r).1, (h'.rule r).2.trans (h.rule r).2⟩⟩

theorem SameRules.settled (h : SameRules s s') : Settled s s' :=
  ⟨fun _ hr => h.liveRule.mp hr, fun r => by simp [h.clsRule, h.oClsRule]⟩

theorem Cleared.settled {P : Match → Prop} {T : List RuleId} (h : Cleared P s s' T) :
    Settled s s' :=
  ⟨fun _ hr => h.liveRule.mp hr, fun r => by simp [h.clsRule, h.oClsRule]⟩

theorem ecallClsRemove_settled (hs : ecallClsRemove s i a = some s') : Settled s s' := by
  obtain ⟨r, -, hs⟩ := Option.bind_eq_some_iff.mp hs
  obtain ⟨cls, -, hs⟩ := Option.bind_eq_some_iff.mp hs
  cases hs
  exact ⟨fun _ hr => hr, fun _ => ⟨rfl, rfl⟩⟩

theorem ecallClsRuleDestroy_settled (hs : ecallClsRuleDestroy s a = some s') : Settled s s' := by
  obtain ⟨r, -, hs⟩ := Option.bind_eq_some_iff.mp hs
  obtain ⟨q, -, hs⟩ := Option.bind_eq_some_iff.mp hs
  cases hs
  refine ⟨fun p hp => ?_, fun _ => ⟨rfl, rfl⟩⟩
  unfold Enclave.LiveRule hmapRemove at hp
  exact (ChainMap.values_erase_sublist _ _).subset hp

theorem replaceState_settled (s : Enclave) (i : Nat) (r : RuleId) :
    Settled s (replaceState s i r) := by
  refine ⟨fun _ hr => hr, fun q => ⟨?_, rfl⟩⟩
  have hstore : (replaceState s i r).clsRule = setRuleHash s.clsRule r :=
    classifierReplace_store _ _ r
  rw [hstore]
  exact (setRuleHash_match r q).1

/-- The ecalls on a single rule. -/
theorem exec_settled {c : Call} (hc : c.isSingle = true) (hs : exec s c = some s') :
    Settled s s' := by
  cases c with
  | clsRuleDestroy a => exact ecallClsRuleDestroy_settled hs
  | oftableClassifierReplace i a =>
    obtain ⟨⟨s1, v⟩, h1, rfl⟩ := Option.map_eq_some_iff.mp hs
    obtain ⟨r, hlook, -⟩ := Option.bind_eq_some_iff.mp h1
    rw [ecallOftableClassifierReplace_eq hlook, Option.some.injEq, Prod.mk.injEq] at h1
    rw [← h1.1]
    exact replaceState_settled s i r
  | clsRemove i a => exact ecallClsRemove_settled hs
  | evgAddRule i a p q node => exact (ecallEvgAddRule_sameRules hs).settled
  | evgRemoveRule i a => exact (ecallEvgRemoveRule_sameRules hs).settled
  | _ => cases hc

theorem ecallOftableRemoveRules_settled {l : List (Nat × UtAddr)} : ∀ {s s' : Enclave}
    {d : List Bool}, ecallOftableRemoveRules s l = some (s', d) → Settled s s' := by
  induction l with
  | nil =>
    intro s s' d hs
    cases hs
    exact Settled.refl s
  | cons e l ih =>
    intro s s' d hs
    simp only [ecallOftableRemoveRules, removeRule, Option.bind_eq_bind,
      Option.bind_eq_some_iff] at hs
    obtain ⟨⟨s1, d1⟩, ⟨_, _, s2, h2, s3, h3, s4, h4, h5⟩, ⟨s6, d2⟩, h6, h7⟩ := hs
    cases h5
    cases h7
    exact (((ecallClsRemove_settled h2).trans (ecallEvgRemoveRule_sameRules h3).settled).trans
      (ecallClsRuleDestroy_settled h4)).trans (ih h6)

theorem evictForFlow_settled {cr : UtAddr} {out out' : AddFlowOut}
    (hs : evictForFlow s i cr out = some (s', out')) : Settled s s' := by
  unfold evictForFlow at hs
  split at hs
  · cases hs
    exact Settled.refl s
  · obtain ⟨evict, -, hs⟩ := Option.bind_eq_some_iff.mp hs
    cases evict with
    | none =>
      cases hs
      exact Settled.refl s
    | some e =>
      obtain ⟨s1, h1, hs⟩ := Option.bind_eq_some_iff.mp hs
      obtain ⟨s2, h2, hs⟩ := Option.bind_eq_some_iff.mp hs
      obtain ⟨hash, -, hs⟩ := Option.bind_eq_some_iff.mp hs
      cases hs
      exact (ecallClsRemove_settled h1).trans (ecallEvgRemoveRule_sameRules h2).settled

/-- `ecall_add_flow` does nothing, or makes the new shadow and no other. -/
theorem ecallAddFlow_settled {args : AddFlowArgs} {out : AddFlowOut} (h : ShadowsOk s)
    (hnew : s.NewAddr args.cr) (hs : ecallAddFlow s args = some (s', out)) :
    s' = s ∨ Settled (ecallClsRuleInit s args.cr args.match args.priority) s' := by
  rcases ecallAddFlow_cases hs with ⟨-, rfl, -⟩ | ⟨-, hdes, -⟩ | ⟨-, hinst⟩
  · exact .inl rfl
  · exact .inr (ecallClsRuleDestroy_settled hdes)
  · obtain ⟨s2, s3, h2, h3, hcases⟩ := installFlow_cases (ecallClsRuleInit_lookup h hnew) hinst
    have hplaced := (replaceState_settled _ args.tableId s.nextRule).trans
      ((evgRemoveVictim_sameRules h2).trans (evgAddFlow_sameRules h3)).settled
    rcases hcases with ⟨-, -, rfl, -⟩ | ⟨-, out3, -, -, h4, -⟩
    · exact .inr hplaced
    · exact .inr (hplaced.trans (evictForFlow_settled h4))

end Settled

section Steps

variable {o o' : Ofproto}

theorem Elementary.settled (h : Elementary o o') : Settled o.enclave o'.enclave := by
  cases h with
  | table h =>
    cases h with
    | bookkeeping h =>
      rw [h.enclave]
      exact Settled.refl _
    | ecall hc hs => exact exec_settled hc hs
  | update k group _ _ _ => exact Settled.refl _
  | release a => exact Settled.refl _
  | destroy k => exact Settled.refl _

theorem Steps.settled {L : List (OfoperationType × UtAddr)} (h : Steps L o o') :
    Settled o.enclave o'.enclave := by
  induction h with
  | refl o => exact Settled.refl _
  | elementary hstep _ ih => exact hstep.settled.trans ih
  | create g a type hash _ ih => exact ih

end Steps

/-! ## Matches by address -/

/-- A shadow at address `a` has the match `m`. -/
def Enclave.Matches (s : Enclave) (a : UtAddr) (m : Minimatch) : Prop :=
  ∀ r, s.LiveRule r → s.oClsRule r = a → (s.clsRule r).match = m

section Matches

variable {s s' : Enclave} {a b : UtAddr} {m : Minimatch}

theorem Settled.matches (h : Settled s s') (hm : s.Matches a m) : s'.Matches a m := by
  intro r hr haddr
  rw [(h.rule r).1]
  exact hm r (h.live r hr) ((h.rule r).2 ▸ haddr)

/-- The new shadow has the match of its flow, -/
theorem ecallClsRuleInit_matches_new (hnew : s.NewAddr b) (src : Match) (p : Nat) :
    (ecallClsRuleInit s b src p).Matches b (minimatchInit src) := by
  intro r hr haddr
  by_cases hnext : r = s.nextRule
  · rw [hnext, ecallClsRuleInit_clsRule_self]
    rfl
  · rw [ecallClsRuleInit_oClsRule hnext] at haddr
    have hold := (ecallClsRuleInit_liveRule.mp hr).resolve_left hnext
    exact absurd rfl (haddr ▸ hnew (s.oClsRule r) ⟨r, hold, rfl⟩)

/-- and the others have theirs. -/
theorem ecallClsRuleInit_matches (hne : b ≠ a) (hm : s.Matches a m) (src : Match) (p : Nat) :
    (ecallClsRuleInit s b src p).Matches a m := by
  intro r hr haddr
  by_cases hnext : r = s.nextRule
  · rw [hnext, ecallClsRuleInit_oClsRule_self] at haddr
    exact absurd haddr hne
  · rw [ecallClsRuleInit_oClsRule hnext] at haddr
    rw [ecallClsRuleInit_clsRule hnext]
    exact hm r ((ecallClsRuleInit_liveRule.mp hr).resolve_left hnext) haddr

/-- No shadow lies at a new address. -/
theorem Enclave.NewAddr.matches (hnew : s.NewAddr a) (m : Minimatch) : s.Matches a m := by
  intro r hr haddr
  exact absurd rfl (hnew a ⟨r, hr, haddr⟩)

end Matches

/-! ## Calls -/

section Calls

variable {o o' : Ofproto} {c : BridgeCall} {fm : FlowMod} {new : NewRule}
  {construct error : Option Ofperr} {a : UtAddr} {m : Minimatch}

theorem DeletesCleared.settled {l : List (UtAddr × U32)} (hd : DeletesCleared o o' l) :
    Settled o.enclave o'.enclave := by
  obtain ⟨s', T, o1, hcl, -, -, hfold, hsubmit⟩ := hd
  have hsteps := (deletions_steps hfold hsubmit).settled
  exact hcl.settled.trans hsteps

theorem evictPages_settled {s s' : Enclave} {n total : Nat} {entries : List (UtAddr × U32)}
    (hs : evictPages s n = some (s', entries, total)) : Settled s s' := by
  obtain ⟨res, h1, hs⟩ := Option.bind_eq_some_iff.mp hs
  have hfirst := (ecallOfprotoEvict_sameRules h1).settled
  dsimp only at hs
  split at hs
  · cases hs
    exact hfirst
  · split at hs
    · cases hs
    · obtain ⟨res', h2, hs⟩ := Option.bind_eq_some_iff.mp hs
      cases hs
      exact hfirst.trans (ecallOfprotoEvict_sameRules h2).settled

theorem ofprotoEvict_settled (hs : ofprotoEvict o = some o') : Settled o.enclave o'.enclave := by
  obtain ⟨⟨s, entries, total⟩, hpages, hs⟩ := Option.bind_eq_some_iff.mp hs
  obtain ⟨⟨o1, removed⟩, h1, hs⟩ := Option.bind_eq_some_iff.mp hs
  obtain ⟨⟨s2, hidden⟩, hremove, hs⟩ := Option.bind_eq_some_iff.mp hs
  obtain ⟨o2, h2, hs⟩ := Option.bind_eq_some_iff.mp hs
  obtain ⟨L, -, hL⟩ := evictEntries_steps h1
  have hdestruct := foldlM_steps_none (fun o a o' hs =>
    (show Steps [] o (o.unlinkExpirable a) from Steps.of_eq rfl rfl rfl rfl rfl).then
      (ruleDestruct_steps hs)) h2
  have hpage : Settled o.enclave s := evictPages_settled hpages
  have hcreate : Settled s o1.enclave := hL.settled
  have hend : Settled s2 o'.enclave := (hdestruct.then (ofopgroupSubmit_steps hs)).settled
  exact ((hpage.trans hcreate).trans (ecallOftableRemoveRules_settled hremove)).trans hend

theorem exec_config_settled {s s' : Enclave} {c : Call} (hc : c.isConfig = true)
    (hs : exec s c = some s') : Settled s s' := by
  cases c with
  | evgAddRule i a p q node => exact (ecallEvgAddRule_sameRules hs).settled
  | evgRemoveRule i a => exact (ecallEvgRemoveRule_sameRules hs).settled
  | oftableEnableEviction i fields v =>
    obtain ⟨⟨s1, b⟩, h1, rfl⟩ := Option.map_eq_some_iff.mp hs
    exact (ecallOftableEnableEviction_sameRules h1).settled
  | oftableDisableEviction i => exact (ecallOftableDisableEviction_sameRules hs).settled
  | oftableMflowsSet i v =>
    cases hs
    exact ⟨fun _ hr => hr, fun _ => ⟨rfl, rfl⟩⟩
  | oftableSetReadonly i =>
    cases hs
    exact ⟨fun _ hr => hr, fun _ => ⟨rfl, rfl⟩⟩
  | _ => cases hc

/-- A call that adds no flow makes no shadow. -/
theorem run_settled (h : Sane o) (hc : c.Allowed o) (hs : c.run o = some o')
    (hadd : ∀ fm new construct, c ≠ .addFlow fm new construct) :
    Settled o.enclave o'.enclave := by
  cases c with
  | addFlow fm new construct => exact absurd rfl (hadd fm new construct)
  | deleteFlows rules =>
    obtain ⟨l, hd, -⟩ := deleteFlows_deletes h hc.1 hc.2 hs
    exact hd.settled
  | flush =>
    obtain ⟨l, hd, -⟩ := ofprotoFlush_deletes h hs
    exact hd.settled
  | evict => exact ofprotoEvict_settled hs
  | ruleExpire a =>
    rcases ofprotoRuleExpire_deletes h hc hs with ⟨-, rfl⟩ | ⟨-, l, hd⟩
    · exact Settled.refl _
    · exact hd.settled
  | completeOperations => exact (completeOperations_steps hs).settled
  | clog clogged =>
    cases hs
    exact Settled.refl _
  | configure c =>
    obtain ⟨s', h1, rfl⟩ := Option.map_eq_some_iff.mp hs
    exact exec_config_settled hc.1 h1

/-- `add_flow` makes no shadow but the new one. -/
theorem addFlow_settled (h : Sane o) (hnew : o.enclave.NewAddr new.cr)
    (hs : addFlow o fm new construct = some (o', error)) :
    Settled o.enclave o'.enclave ∨
      Settled (ecallClsRuleInit o.enclave new.cr fm.match fm.priority) o'.enclave := by
  unfold addFlow at hs
  split at hs
  · cases hs
    exact .inl (Settled.refl _)
  · obtain ⟨⟨s', out⟩, hecall, hfin⟩ := Option.bind_eq_some_iff.mp hs
    have hend : Settled s' o'.enclave := by
      rcases finishAddFlow_steps hfin with ⟨-, L, -, hsteps⟩ | ⟨-, hsteps⟩
      · exact hsteps.settled
      · exact hsteps.settled
    rcases ecallAddFlow_settled h.enclave.shadows hnew hecall with rfl | hinit
    · exact .inl hend
    · exact .inr (hinit.trans hend)

/-- A rule that the call does not add keeps its match, -/
theorem run_matches (h : Sane o) (hc : c.Allowed o) (hs : c.run o = some o')
    (hother : ∀ fm new construct, c = .addFlow fm new construct → new.cr ≠ a)
    (hm : o.enclave.Matches a m) : o'.enclave.Matches a m := by
  by_cases hadd : ∀ fm new construct, c ≠ .addFlow fm new construct
  · exact (run_settled h hc hs hadd).matches hm
  · simp only [not_forall, ne_eq, not_not] at hadd
    obtain ⟨fm, new, construct, rfl⟩ := hadd
    obtain ⟨⟨o1, error⟩, h1, rfl⟩ := Option.map_eq_some_iff.mp hs
    rcases addFlow_settled h hc h1 with hset | hset
    · exact hset.matches hm
    · exact hset.matches (ecallClsRuleInit_matches (hother fm new construct rfl) hm _ _)

end Calls

end OvsSgx
