/-
OvsSgx.FlowModCalls — a flow mod makes one call into the bridge.

`handle_flow_mod__` either returns without having changed the bridge, or
makes exactly one of the calls whose runs the modules before are about, with
rules that are installed and distinct. It puts a request off only while
something is pending that the request has to wait for.
-/
import OvsSgx.ConnectionSteps
import OvsSgx.OperationDrain

namespace OvsSgx

section FlowMods

variable {Msg P A : Type} {outputTo : A → BitVec 16 → Bool} {b : Build} {f f' : FlowState A}
  {o o' : Ofproto} {i priority : Nat} {q : Match} {cookie cookieMask : BitVec 64}
  {outPort : BitVec 16} {r : Collected} {fm : FlowModRequest A} {env : Surroundings}

/-! ## The rules that a request collects -/

/-- The rules are in tables, and none is there twice. -/
def AreInstalled (s : Enclave) (rules : List UtAddr) : Prop :=
  (∀ a ∈ rules, ∃ i, s.Installed i a) ∧ rules.Nodup

theorem collectLoop_sublist {candidates : List Candidate} : ∀ {rules rules' : List UtAddr}
    {e : Option Ofperr},
    collectLoop outputTo f cookie cookieMask outPort candidates rules = some (e, rules') →
    rules'.Sublist (rules ++ candidates.map Candidate.cr) := by
  induction candidates with
  | nil =>
    intro rules rules' e h
    cases h
    simp
  | cons x rest ih =>
    intro rules rules' e h
    unfold collectLoop at h
    split at h
    · cases h
      exact List.sublist_append_left _ _
    · obtain ⟨hidden, -, h⟩ := Option.bind_eq_some_iff.mp h
      split at h
      · simpa using ih h
      · exact (ih h).trans (List.Sublist.append_left (List.sublist_cons_self _ _) _)

/-- What is left of a walk over live rules that are in tables. -/
theorem areInstalled_of_sublist {p : Match → Prop} {s : Enclave} {T : List RuleId}
    {rules : List UtAddr} (h : EnclaveOk p s) (hT : T.Nodup)
    (hmem : ∀ r ∈ T, s.LiveRule r ∧ ∃ i, r ∈ s.rules i)
    (hsub : rules.Sublist (T.map s.oClsRule)) : AreInstalled s rules := by
  refine ⟨fun a ha => ?_, hsub.nodup (hT.map_on fun r hr q hq hrq => ?_)⟩
  · obtain ⟨r, hr, rfl⟩ := List.mem_map.mp (hsub.subset ha)
    obtain ⟨hlive, i, hi⟩ := hmem r hr
    exact ⟨i, r, hlive, rfl, hi⟩
  · exact oClsRule_injective h (hmem r hr).1 (hmem q hq).1 hrq

theorem looseMatches_inTable {nTables : Nat} {s : Enclave} {r : RuleId}
    (hr : r ∈ looseMatches s nTables i q) : ∃ j, r ∈ s.rules j := by
  obtain ⟨j, -, hr⟩ := List.mem_flatMap.mp hr
  exact ⟨j, clsCursorRules_subset _ _ _ hr⟩

theorem strictMatches_inTable {p : Match → Prop} {nTables : Nat} {s : Enclave} {r : RuleId}
    (h : EnclaveOk p s) (hr : r ∈ strictMatches s nTables i q priority) :
    ∃ j, r ∈ s.rules j := by
  obtain ⟨j, -, hr⟩ := List.mem_filterMap.mp hr
  exact ⟨j, classifierFindRuleExactly_mem (h.cls j) hr⟩

theorem collectRulesLoose_installed {p : Match → Prop} (h : EnclaveOk p f.ofproto.enclave)
    (hr : collectRulesLoose outputTo b f i q cookie cookieMask outPort = some r) :
    AreInstalled f.ofproto.enclave r.rules := by
  unfold collectRulesLoose at hr
  split at hr
  · cases hr
    exact ⟨by simp, List.nodup_nil⟩
  · obtain ⟨modifiable, hc⟩ := looseCandidates_eq (i := i) (m := q) b h
    rw [hc, Option.bind_eq_bind, Option.bind_some] at hr
    obtain ⟨⟨error, rules⟩, hloop, hr⟩ := Option.bind_eq_some_iff.mp hr
    cases hr
    have hsub := collectLoop_sublist hloop
    rw [List.nil_append, List.map_map] at hsub
    exact areInstalled_of_sublist h (looseMatches_nodup h)
      (fun r hr => ⟨looseMatches_live h hr, looseMatches_inTable hr⟩) hsub

theorem collectRulesStrict_installed {p : Match → Prop} (h : EnclaveOk p f.ofproto.enclave)
    (hr : collectRulesStrict outputTo b f i q priority cookie cookieMask outPort = some r) :
    AreInstalled f.ofproto.enclave r.rules := by
  unfold collectRulesStrict at hr
  split at hr
  · cases hr
    exact ⟨by simp, List.nodup_nil⟩
  · obtain ⟨modifiable, hc⟩ := strictCandidates_eq b h
    rw [hc, Option.bind_eq_bind, Option.bind_some] at hr
    obtain ⟨⟨error, rules⟩, hloop, hr⟩ := Option.bind_eq_some_iff.mp hr
    cases hr
    have hsub := collectLoop_sublist hloop
    rw [List.nil_append, List.map_map] at hsub
    exact areInstalled_of_sublist h (strictMatches_nodup h _ _ _ _)
      (fun r hr => ⟨strictMatches_live h hr, strictMatches_inTable h hr⟩) hsub

/-! ## The call -/

variable [DecidableEq A] {u : Ofputil Msg P A} {error : Option HandlerError} {strict : Bool}

/-- How a flow mod ends that takes the bridge from `f` to `f'`. -/
inductive FlowModEnd (fm : FlowModRequest A) (env : Surroundings) (f f' : FlowState A)
    (error : Option HandlerError) : Prop where
  | same : f' = f → (error = some (.ofperr .postpone) →
      maxPending ≤ f.ofproto.pending.length ∨ ∃ a, (f.ofproto.rule a).pending ≠ none) →
      FlowModEnd fm env f f' error
  | addFlow (e : Option Ofperr) :
      addFlow f.ofproto fm.toFlowMod env.new env.construct = some (f'.ofproto, e) →
      error = e.map .ofperr → FlowModEnd fm env f f' error
  | modifyFlows (rules : List UtAddr) (modifiable : List Bool) (e : Option Ofperr) :
      modifyFlows f fm rules modifiable = some (f', e) →
      (Sane f.ofproto → AreInstalled f.ofproto.enclave rules) → error = e.map .ofperr →
      FlowModEnd fm env f f' error
  | deleteFlows (rules : List UtAddr) :
      deleteFlows f.ofproto rules = some f'.ofproto →
      (Sane f.ofproto → AreInstalled f.ofproto.enclave rules) → error = none →
      FlowModEnd fm env f f' error

theorem addFlowRequest_end (h : addFlowRequest f fm env = some (f', error)) :
    FlowModEnd fm env f f' error := by
  obtain ⟨⟨o, e⟩, hadd, h⟩ := Option.bind_eq_some_iff.mp h
  dsimp only at h
  split at h <;> cases h <;> exact .addFlow e hadd rfl

theorem postpone_of_map {e : Option Ofperr}
    (h : e.map HandlerError.ofperr = some (.ofperr .postpone)) : e = some .postpone := by
  cases e with
  | none => cases h
  | some e =>
    cases h
    rfl

/-- What a handler decides to do, and with which rules. -/
structure DecidesOn (f : FlowState A) (handled : Handled) : Prop where
  returned : handled = .returned (some .postpone) → ∃ a, (f.ofproto.rule a).pending ≠ none
  modifyFlows : ∀ rules modifiable, handled = .modifyFlows rules modifiable → Sane f.ofproto →
    AreInstalled f.ofproto.enclave rules
  deleteFlows : ∀ rules, handled = .deleteFlows rules → Sane f.ofproto →
    AreInstalled f.ofproto.enclave rules

omit [DecidableEq A] in
theorem modifyFlowsAdd_decides (f : FlowState A) (fm : FlowModRequest A) :
    DecidesOn f (modifyFlowsAdd fm) := by
  rcases modifyFlowsAdd_cases fm with h | h <;> rw [h] <;> exact ⟨nofun, nofun, nofun⟩

omit [DecidableEq A] in
theorem modifyFlowsLoose_decides {handled : Handled}
    (h : modifyFlowsLoose outputTo b f fm = some handled) : DecidesOn f handled := by
  obtain ⟨r, hr, h⟩ := Option.bind_eq_some_iff.mp h
  split at h
  · cases h
    exact ⟨fun he => collectRulesLoose_postponed hr (Handled.returned.inj he), nofun, nofun⟩
  · split at h
    · cases h
      exact modifyFlowsAdd_decides f fm
    · cases h
      refine ⟨nofun, fun rules modifiable he hsane => ?_, nofun⟩
      cases he
      exact collectRulesLoose_installed hsane.enclave.toEnclaveOk hr

omit [DecidableEq A] in
theorem modifyFlowStrict_decides {handled : Handled}
    (h : modifyFlowStrict outputTo b f fm = some handled) : DecidesOn f handled := by
  obtain ⟨r, hr, h⟩ := Option.bind_eq_some_iff.mp h
  split at h
  · cases h
    exact ⟨fun he => absurd (Handled.returned.inj he) (collectRulesStrict_ne_postpone hr), nofun,
      nofun⟩
  · split at h
    · cases h
      exact modifyFlowsAdd_decides f fm
    · split at h
      · cases h
        refine ⟨nofun, fun rules modifiable he hsane => ?_, nofun⟩
        cases he
        exact collectRulesStrict_installed hsane.enclave.toEnclaveOk hr
      · cases h
        exact ⟨nofun, nofun, nofun⟩

omit [DecidableEq A] in
theorem deleteFlowsLoose_decides {handled : Handled}
    (h : deleteFlowsLoose outputTo b f fm = some handled) : DecidesOn f handled := by
  obtain ⟨r, hr, h⟩ := Option.bind_eq_some_iff.mp h
  split at h
  · cases h
    exact ⟨fun he => collectRulesLoose_postponed hr (Handled.returned.inj he), nofun, nofun⟩
  · split at h
    · cases h
      refine ⟨nofun, nofun, fun rules he hsane => ?_⟩
      cases he
      exact collectRulesLoose_installed hsane.enclave.toEnclaveOk hr
    · cases h
      exact ⟨nofun, nofun, nofun⟩

omit [DecidableEq A] in
theorem deleteFlowStrict_decides {handled : Handled}
    (h : deleteFlowStrict outputTo b f fm = some handled) : DecidesOn f handled := by
  obtain ⟨r, hr, h⟩ := Option.bind_eq_some_iff.mp h
  split at h
  · cases h
    exact ⟨fun he => absurd (Handled.returned.inj he) (collectRulesStrict_ne_postpone hr), nofun,
      nofun⟩
  · split at h
    · cases h
      refine ⟨nofun, nofun, fun rules he hsane => ?_⟩
      cases he
      exact collectRulesStrict_installed hsane.enclave.toEnclaveOk hr
    · cases h
      exact ⟨nofun, nofun, nofun⟩

theorem returned_same {e : Option Ofperr} (hd : DecidesOn f (.returned e)) :
    FlowModEnd fm env f f (e.map .ofperr) :=
  .same rfl fun he => .inr (hd.returned (by rw [postpone_of_map he]))

/-- The handlers choose between two ways to collect, and go on with what was collected. -/
theorem bind_eq_some_of_ite {α β : Type} {c : Prop} [Decidable c] {x y : Option α}
    {next : α → Option β} {b : β} (h : (if c then x.bind next else y.bind next) = some b) :
    ∃ a, (if c then x else y) = some a ∧ next a = some b := by
  split at h <;> rename_i hc
  · rw [if_pos hc]
    exact Option.bind_eq_some_iff.mp h
  · rw [if_neg hc]
    exact Option.bind_eq_some_iff.mp h

theorem modifyRequest_end (h : modifyRequest u f fm strict env = some (f', error)) :
    FlowModEnd fm env f f' error := by
  obtain ⟨⟨f1, outcome⟩, hmodify, h⟩ := Option.bind_eq_some_iff.mp h
  obtain ⟨handled, hchosen, hmodify⟩ := bind_eq_some_of_ite hmodify
  have hd : DecidesOn f handled := by
    cases strict with
    | true => exact modifyFlowStrict_decides hchosen
    | false => exact modifyFlowsLoose_decides hchosen
  cases handled with
  | returned e =>
    cases hmodify
    cases h
    exact returned_same hd
  | addFlow =>
    cases hmodify
    exact addFlowRequest_end h
  | modifyFlows rules modifiable =>
    obtain ⟨⟨f2, e⟩, hflows, hmodify⟩ := Option.bind_eq_some_iff.mp hmodify
    cases hmodify
    cases h
    exact .modifyFlows rules modifiable e hflows (hd.modifyFlows rules modifiable rfl) rfl
  | deleteFlows rules => cases hmodify

theorem deleteRequest_end (h : deleteRequest u f fm strict = some (f', error)) :
    FlowModEnd fm env f f' error := by
  obtain ⟨handled, hchosen, h⟩ := bind_eq_some_of_ite h
  have hd : DecidesOn f handled := by
    cases strict with
    | true => exact deleteFlowStrict_decides hchosen
    | false => exact deleteFlowsLoose_decides hchosen
  cases handled with
  | returned e =>
    cases h
    exact returned_same hd
  | deleteFlows rules =>
    obtain ⟨o, hdelete, h⟩ := Option.bind_eq_some_iff.mp h
    cases h
    exact .deleteFlows rules hdelete (hd.deleteFlows rules rfl) rfl
  | addFlow => cases h
  | modifyFlows rules modifiable => cases h

theorem handleFlowModOn_end {command : OfpfcCommand}
    (h : handleFlowModOn u f command fm env = some (f', error)) :
    FlowModEnd fm env f f' error := by
  unfold handleFlowModOn at h
  split at h
  · rename_i hmany
    cases h
    exact .same rfl fun _ => .inl hmany
  · cases command with
    | add => exact addFlowRequest_end h
    | change command =>
      cases command with
      | modify => exact modifyRequest_end h
      | modifyStrict => exact modifyRequest_end h
      | delete => exact deleteRequest_end h
      | deleteStrict => exact deleteRequest_end h
    | unknown command =>
      cases h
      exact .same rfl nofun

/-! ## Flow mods that are put off -/

theorem Ofproto.Accounted.pending_ne_nil {a : UtAddr} (h : o.Accounted)
    (hp : (o.rule a).pending ≠ none) : o.pending ≠ [] := by
  obtain ⟨k, hk⟩ := Option.ne_none_iff_exists'.mp hp
  exact List.ne_nil_of_mem (h.accounts.pending a k hk).2.1

theorem isPending_some {a : Option UtAddr} (h : isPending o a = true) :
    ∃ b, (o.rule b).pending ≠ none := by
  cases a with
  | none => cases h
  | some b => exact ⟨b, Option.isSome_iff_ne_none.mp h⟩

theorem addFlowError_postpone {out : AddFlowOut} (h : addFlowError o out = some .postpone) :
    ∃ a, (o.rule a).pending ≠ none := by
  unfold addFlowError at h
  split at h
  · cases h
  · split at h
    · rename_i hv
      exact isPending_some hv
    · split at h
      · split at h
        · cases h
        · split at h
          · rename_i he
            exact isPending_some he
          · cases h
      · cases h

theorem backOut_error {cr : UtAddr} {victim : Option UtAddr} {e : Ofperr} {e' : Option Ofperr}
    (h : backOut o cr victim e = some (o', e')) : e' = some e := by
  obtain ⟨o1, -, h⟩ := Option.bind_eq_some_iff.mp h
  obtain ⟨o2, -, h⟩ := Option.bind_eq_some_iff.mp h
  cases h
  rfl

theorem operateAddFlow_error {cr : UtAddr} {out : AddFlowOut} {construct e : Option Ofperr}
    (h : operateAddFlow o cr out construct = some (o', e)) : e = construct := by
  obtain ⟨⟨o1, k⟩, -, h⟩ := Option.bind_eq_some_iff.mp h
  cases construct with
  | some err =>
    obtain ⟨o2, -, h⟩ := Option.bind_eq_some_iff.mp h
    exact backOut_error h
  | none =>
    obtain ⟨o2, -, h⟩ := Option.bind_eq_some_iff.mp h
    obtain ⟨o3, -, h⟩ := Option.bind_eq_some_iff.mp h
    obtain ⟨o4, -, h⟩ := Option.bind_eq_some_iff.mp h
    cases h
    rfl

/-- A pending deletion that the enclave has found. -/
theorem ecallAddFlow_deletionPending {fm : FlowMod} {new : NewRule} {s' : Enclave}
    {out : AddFlowOut} (h : Sane o) (hnew : o.enclave.NewAddr new.cr)
    (hs : ecallAddFlow o.enclave (flowArgs o fm new) = some (s', out))
    (hpend : out.isDeletionPending = true) : o.deletions.entries ≠ [] := by
  intro hnil
  have hargs : (flowArgs o fm new).pendingDeletions = [] := by
    show o.deletions.values.map _ = []
    rw [ChainMap.values, hnil]
    rfl
  rcases ecallAddFlow_cases hs with ⟨-, -, rfl⟩ | ⟨-, -, rfl | rfl⟩ | ⟨hnot, hinst⟩
  · cases hpend
  · exact ecallAddFlow_nil_ne h.enclave hnew hargs hs
  · cases hpend
  · obtain ⟨s1, out1, V, E, h1, hadd⟩ :=
      installFlow_added h.enclave hnew trivial (FlowRefused.readonly hnot)
    obtain ⟨rfl, rfl⟩ := Prod.mk.inj (Option.some.inj (h1.symm.trans hinst))
    rw [hadd.accepted.2.1] at hpend
    cases hpend

/-- A flow that is put off waits for a group that is pending. -/
theorem addFlow_postponed {fm : FlowMod} {new : NewRule} {construct : Option Ofperr}
    (h : Sane o) (hb : o.Accounted) (hnew : o.enclave.NewAddr new.cr)
    (hfresh : (o.rule new.cr).pending = none) (hcon : construct ≠ some .postpone)
    (hs : addFlow o fm new construct = some (o', some .postpone)) : o'.pending ≠ [] := by
  unfold addFlow at hs
  split at hs
  · cases hs
  · obtain ⟨⟨s, out⟩, hecall, hs⟩ := Option.bind_eq_some_iff.mp hs
    have hecall' : ecallAddFlow o.enclave (flowArgs o fm new) = some (s, out) := hecall
    have hentered : SameBooks o (entered o fm new s) := entered_books hfresh s
    have hs' : finishAddFlow (entered o fm new s) new.cr out construct
      = some (o', some .postpone) := hs
    unfold finishAddFlow at hs'
    split at hs'
    · cases hs'
    · split at hs'
      · rename_i hpend
        cases hs'
        obtain ⟨e, he⟩ := List.exists_mem_of_ne_nil _
          (ecallAddFlow_deletionPending h hnew hecall' hpend)
        exact List.ne_nil_of_mem (hb.accounts.filed e he).2.2.1
      · split at hs'
        · cases hs'
        · have hrelinked : SameBooks o
              { entered o fm new s with
                expirable := (relinkExpirable (entered o fm new s) new.cr out.victim).expirable } :=
            hentered.trans (.expirable _ _)
          dsimp only at hs'
          split at hs'
          · rename_i e he
            have hbooks := hrelinked.trans (backOut_books hs')
            cases backOut_error hs'
            obtain ⟨a, ha⟩ := addFlowError_postpone he
            rw [hbooks.pending]
            refine hb.pending_ne_nil (a := a) ?_
            rw [← hrelinked.rule a]
            exact ha
          · exact absurd (operateAddFlow_error hs').symm hcon

theorem modifyLoop_error {g : GroupId} {modifiable : List Bool} {rules : List UtAddr} :
    ∀ {i : Nat} {f : FlowState A} {e e' : Option Ofperr}, e ≠ some .postpone →
      modifyLoop g fm modifiable i rules f e = some (f', e') → e' ≠ some .postpone := by
  induction rules with
  | nil =>
    intro i f e e' he h
    cases h
    exact he
  | cons a rest ih =>
    intro i f e e' he h
    obtain ⟨m, -, h⟩ := Option.bind_eq_some_iff.mp h
    split at h
    · obtain ⟨f1, -, h⟩ := Option.bind_eq_some_iff.mp h
      exact ih (by simp) h
    · exact ih he h

theorem modifyFlows_error {rules : List UtAddr} {modifiable : List Bool} {e : Option Ofperr}
    (h : modifyFlows f fm rules modifiable = some (f', e)) : e ≠ some .postpone := by
  obtain ⟨⟨f1, e1⟩, hloop, h⟩ := Option.bind_eq_some_iff.mp h
  obtain ⟨o2, -, h⟩ := Option.bind_eq_some_iff.mp h
  cases h
  exact modifyLoop_error (by simp) hloop

/-- While a flow mod waits, a group is pending. -/
theorem FlowModEnd.postponed (h : FlowModEnd fm env f f' (some (.ofperr .postpone)))
    (hsane : Sane f.ofproto) (hb : f.ofproto.Accounted)
    (hnew : f.ofproto.enclave.NewAddr env.new.cr)
    (hfresh : (f.ofproto.rule env.new.cr).pending = none)
    (hcon : env.construct ≠ some .postpone) : f'.ofproto.pending ≠ [] := by
  cases h with
  | same hf hwait =>
    subst hf
    rcases hwait rfl with hmany | ⟨a, ha⟩
    · intro hnil
      simp [hnil, maxPending] at hmany
    · exact hb.pending_ne_nil ha
  | addFlow e hadd he =>
    rw [postpone_of_map he.symm] at hadd
    exact addFlow_postponed hsane hb hnew hfresh hcon hadd
  | modifyFlows rules modifiable e hflows hrules he =>
    exact absurd (postpone_of_map he.symm) (modifyFlows_error hflows)
  | deleteFlows rules hdelete hrules he => cases he

/-! ## What a flow mod keeps -/

theorem FlowModEnd.accounted (h : FlowModEnd fm env f f' error) (hb : f.ofproto.Accounted)
    (hfresh : (f.ofproto.rule env.new.cr).pending = none) :
    f'.ofproto.Accounted ∧ OneGroup f.ofproto f'.ofproto := by
  cases h with
  | same hf =>
    subst hf
    exact ⟨hb, .refl _⟩
  | addFlow e hadd => exact addFlow_accounted hb hfresh hadd
  | modifyFlows rules modifiable e hflows => exact modifyFlows_accounted hb hflows
  | deleteFlows rules hdelete => exact deleteFlows_accounted hb hdelete

/-- A run of the bridge goes on with the call of a flow mod. -/
theorem FlowModEnd.reachable (h : FlowModEnd fm env f f' error)
    (hrun : FlowsReachable (A := A) FlowCall.Orderly f.ofproto)
    (hnew : f.ofproto.enclave.NewAddr env.new.cr)
    (hfresh : (f.ofproto.rule env.new.cr).pending = none) :
    FlowsReachable (A := A) FlowCall.Orderly f'.ofproto := by
  have hsane := hrun.shadowed.1
  cases h with
  | same hf => exact hf ▸ hrun
  | addFlow e hadd =>
    exact hrun.bridge (.addFlow fm.toFlowMod env.new env.construct) ⟨hnew, hfresh, trivial⟩
      (by simp [BridgeCall.run, hadd])
  | modifyFlows rules modifiable e hflows hrules =>
    exact hrun.modifyFlows fm rules modifiable (hrules hsane).1 hflows
  | deleteFlows rules hdelete hrules =>
    exact hrun.bridge (.deleteFlows rules) ⟨hrules hsane, trivial, trivial⟩ hdelete

end FlowMods

end OvsSgx
