/-
OvsSgx.BridgePriorities — stored priorities along the runs of a bridge.

With every rule that joins a group the untrusted side passes the priority
that it has for the rule. `Synced` says that the enclave still stores these
priorities. No call of the bridge changes the timeouts or the priority of a
rule in memory but `add_flow`, for the new rule. `Sane` runs thus keep the
two sides together.
-/
import OvsSgx.OfprotoRuns
import OvsSgx.OfprotoSteps
import OvsSgx.StoredPriorities

namespace OvsSgx

/-- Rule `a` may expire, and `p` is the priority that it has in memory. -/
def Ofproto.Owes (o : Ofproto) (a : UtAddr) (p : Nat) : Prop :=
  (o.rule a).mayExpire = true ∧ p = (o.rule a).evictionPriority

/-- The priorities that the enclave stores are those of the rules in memory. -/
def Ofproto.Synced (o : Ofproto) : Prop := o.enclave.Stores o.Owes

/-! ## Rules in memory -/

/-- Of the rules nothing has been written but the member `pending`. -/
def SameButPending (o o' : Ofproto) : Prop :=
  ∀ a, o'.rule a = { o.rule a with pending := (o'.rule a).pending }

section Rules

variable {o o' o'' : Ofproto} {L : List (OfoperationType × UtAddr)}

theorem SameButPending.of_eq (h : o'.rule = o.rule) : SameButPending o o' := fun a => by rw [h]

theorem SameButPending.trans (h : SameButPending o o') (h' : SameButPending o' o'') :
    SameButPending o o'' := by
  intro a
  calc o''.rule a = { o'.rule a with pending := (o''.rule a).pending } := h' a
    _ = { o.rule a with pending := (o''.rule a).pending } := by rw [h a]

theorem setPending_sameButPending (o : Ofproto) (a : UtAddr) (k : Option OpId) :
    SameButPending o (o.setPending a k) := by
  intro b
  rcases eq_or_ne b a with rfl | hne
  · simp [Ofproto.setPending]
  · simp [Ofproto.setPending, Function.update_of_ne hne]

theorem addOperation_sameButPending (o : Ofproto) (g : GroupId) (a : UtAddr)
    (type : OfoperationType) (hash : U32) : SameButPending o (o.addOperation g a type hash) :=
  setPending_sameButPending o a (some o.nextOp)

theorem Elementary.sameButPending (h : Elementary o o') : SameButPending o o' := by
  cases h with
  | table h =>
    cases h with
    | bookkeeping h => exact SameButPending.of_eq h.rule
    | ecall _ _ => exact SameButPending.of_eq rfl
  | update k group _ _ _ => exact SameButPending.of_eq rfl
  | release a => exact setPending_sameButPending o a none
  | destroy k => exact setPending_sameButPending o (o.op k).rule none

/-- Elementary steps write nothing else. -/
theorem Steps.sameButPending (h : Steps L o o') : SameButPending o o' := by
  induction h with
  | refl => exact SameButPending.of_eq rfl
  | elementary hstep _ ih => exact hstep.sameButPending.trans ih
  | create g a type hash _ ih => exact (addOperation_sameButPending _ g a type hash).trans ih

theorem SameButPending.owes (h : SameButPending o o') : o'.Owes = o.Owes := by
  funext a p
  unfold Ofproto.Owes
  rw [h a]
  rfl

end Rules

/-! ## Calls that add no rule -/

/-- From `o` to `o'` no rule has joined a group, and the rules have kept their priorities. -/
structure KeepsPriorities (o o' : Ofproto) : Prop where
  enclave : NoneJoins o.enclave o'.enclave
  rule : SameButPending o o'

section Calls

variable {o o' o1 : Ofproto} {c : BridgeCall} {s : Enclave} {g : GroupId} {a : UtAddr}
  {l : List (UtAddr × U32)} {isHidden : Bool}

theorem KeepsPriorities.synced (h : KeepsPriorities o o') (hst : o.Synced) : o'.Synced := by
  unfold Ofproto.Synced
  rw [h.rule.owes]
  exact h.enclave.stores hst

/-- Deletions in a new group, of rules that the enclave has taken out. -/
theorem deletions_keepsPriorities (h : Sane o) (hj : NoneJoins o.enclave s)
    (hfold : l.foldlM (startDeletion o.nextGroup) { (ofopgroupCreate o).1 with enclave := s }
      = some o1)
    (hs : ofopgroupSubmit o1 o.nextGroup isHidden = some o') : KeepsPriorities o o' := by
  have hun := ofopgroupCreate_unsubmitted h
  obtain ⟨hst, -⟩ := foldlM_startDeletion_some
    (o := { (ofopgroupCreate o).1 with enclave := s }) hun.pending hfold
  have hun1 := hst.toOpsStarted.unsubmitted hun.pending (by simp [ofopgroupCreate])
  have hsubmit := (hun1.submit hs).noneJoins
  rw [hst.enclave] at hsubmit
  have hset : SameButPending o { (ofopgroupCreate o).1 with enclave := s } :=
    SameButPending.of_eq rfl
  exact ⟨hj.trans hsubmit, hset.trans (deletions_steps hfold hs).sameButPending⟩

theorem deleteFlows_keepsPriorities {rules : List UtAddr} (h : Sane o)
    (hs : deleteFlows o rules = some o') : KeepsPriorities o o' := by
  obtain ⟨⟨s, deleted⟩, h1, hs⟩ := Option.bind_eq_some_iff.mp hs
  obtain ⟨o1, hfold, hsubmit⟩ := Option.bind_eq_some_iff.mp hs
  exact deletions_keepsPriorities h (ecallDeleteFlows_noneJoins h1) hfold hsubmit

theorem ofprotoFlush_keepsPriorities (h : Sane o) (hs : ofprotoFlush o = some o') :
    KeepsPriorities o o' := by
  obtain ⟨⟨s, entries, n⟩, h1, hs⟩ := Option.bind_eq_some_iff.mp hs
  obtain ⟨read, -, hs⟩ := Option.bind_eq_some_iff.mp hs
  obtain ⟨o1, hfold, hsubmit⟩ := Option.bind_eq_some_iff.mp hs
  exact deletions_keepsPriorities h (flushPages_noneJoins h1) hfold hsubmit

theorem ofprotoRuleExpire_keepsPriorities (h : Sane o) (hs : ofprotoRuleExpire o a = some o') :
    KeepsPriorities o o' := by
  unfold ofprotoRuleExpire at hs
  split at hs
  · cases hs
    exact ⟨NoneJoins.refl _, SameButPending.of_eq rfl⟩
  · obtain ⟨_, -, hs⟩ := Option.bind_eq_some_iff.mp hs
    obtain ⟨⟨o1, k⟩, hcreate, hs⟩ := Option.bind_eq_some_iff.mp hs
    obtain ⟨o2, hremove, hs⟩ := Option.bind_eq_some_iff.mp hs
    obtain ⟨o3, hdestruct, hsubmit⟩ := Option.bind_eq_some_iff.mp hs
    have hsteps := (((ofopgroupCreate_steps o).trans (ofoperationCreate_steps hcreate)).then
      (oftableRemoveRule_steps hremove).steps).then
        ((ruleDestruct_steps hdestruct).then (ofopgroupSubmit_steps hsubmit))
    refine ⟨?_, hsteps.sameButPending⟩
    obtain ⟨hun, henc, -, hp, hk⟩ :=
      ofoperationCreate_unsubmitted (ofopgroupCreate_unsubmitted h) hcreate
    obtain ⟨e1, h1, hremove⟩ := Option.bind_eq_some_iff.mp hremove
    obtain ⟨o4, h4, hremove⟩ := Option.bind_eq_some_iff.mp hremove
    obtain ⟨e2, h2, h4⟩ := Option.bind_eq_some_iff.mp h4
    cases h4
    cases hremove
    have henc1 : o1.enclave = o.enclave := henc
    rw [henc1] at h1
    have hun2 : Unsubmitted o.nextGroup { (Ofproto.unlinkExpirable { o1 with enclave := e2 } a) with
        log := o1.log ++ [.destruct a] } := ⟨hun.pending, hun.error⟩
    obtain ⟨hun3, henc3, -⟩ := completeOperation_unsubmitted hun2 hp hk hdestruct
    have hsub := (hun3.submit hsubmit).noneJoins
    rw [henc3] at hsub
    exact ((ecallClsRemove_noneJoins h1).trans (ecallEvgRemoveRule_noneJoins h2)).trans hsub

theorem ofprotoEvict_keepsPriorities (h : Sane o) (hs : ofprotoEvict o = some o') :
    KeepsPriorities o o' := by
  obtain ⟨⟨s, entries, total⟩, hpages, hs⟩ := Option.bind_eq_some_iff.mp hs
  obtain ⟨⟨o1, removed⟩, hentries, hs⟩ := Option.bind_eq_some_iff.mp hs
  obtain ⟨⟨s2, hidden⟩, hremove, hs⟩ := Option.bind_eq_some_iff.mp hs
  obtain ⟨o2, hdestruct, hsubmit⟩ := Option.bind_eq_some_iff.mp hs
  have hpages' : evictPages o.enclave o.nTables = some (s, entries, total) := hpages
  obtain ⟨-, s3, _, o3, n, T, hremove', hfold, henc, -, hcr, hst⟩ :=
    evictLoops_pages h hpages' hentries
  obtain ⟨rfl, rfl⟩ := Prod.mk.inj (Option.some.inj (hremove'.symm.trans hremove))
  obtain rfl := Option.some.inj (hfold.symm.trans hdestruct)
  have hun := ofopgroupCreate_unsubmitted h
  obtain ⟨s0, hops⟩ := hst.ops
  have hun2 := hops.unsubmitted hun.pending (by simp [ofopgroupCreate])
  have henc1 : o1.enclave = s := hcr.enclave
  have hremoved := ecallOftableRemoveRules_noneJoins hremove'
  rw [henc1] at hremoved
  have hsub := (hun2.submit hsubmit).noneJoins
  rw [henc] at hsub
  refine ⟨((evictPages_noneJoins h.enclave hpages').trans hremoved).trans hsub, ?_⟩
  obtain ⟨L, -, hL⟩ := evictEntries_steps hentries
  have hloop := foldlM_steps_none (fun o a o' hs =>
    (show Steps [] o (o.unlinkExpirable a) from Steps.of_eq rfl rfl rfl rfl rfl).then
      (ruleDestruct_steps hs)) hfold
  have hset : SameButPending o { (ofopgroupCreate o).1 with enclave := s } :=
    SameButPending.of_eq rfl
  have hset1 : SameButPending o1 { o1 with enclave := s3 } := SameButPending.of_eq rfl
  exact ((hset.trans hL.sameButPending).trans hset1).trans
    (hloop.then (ofopgroupSubmit_steps hsubmit)).sameButPending

theorem completeOperations_keepsPriorities (h : Sane o) (hs : completeOperations o = some o') :
    KeepsPriorities o o' :=
  ⟨(completeOperations_onlyShadows h hs).noneJoins, (completeOperations_steps hs).sameButPending⟩

/-- A rule joins with its own priority. -/
theorem configure_synced {c : Call} (h : Sane o) (hst : o.Synced) (hc : c.isConfig = true)
    (hallowed : GroupsAllowed o.enclave c)
    (hadd : ∀ i a p q node, c = .evgAddRule i a p q node → o.Owes a q)
    (hs : exec o.enclave c = some s) : Ofproto.Synced { o with enclave := s } := by
  have hnone : NoneJoins o.enclave s → Ofproto.Synced { o with enclave := s } :=
    fun hj => hj.stores hst
  cases c with
  | evgAddRule i a p q node =>
    exact ecallEvgAddRule_stores hst (h.enclave.shadows.addressed hallowed.1.live)
      (hadd i a p q node rfl) hs
  | evgRemoveRule i a => exact hnone (ecallEvgRemoveRule_noneJoins hs)
  | oftableEnableEviction i fields v =>
    obtain ⟨⟨s1, b⟩, h1, rfl⟩ := Option.map_eq_some_iff.mp hs
    exact hnone (ecallOftableEnableEviction_noneJoins h1)
  | oftableDisableEviction i => exact hnone (ecallOftableDisableEviction_noneJoins hs)
  | oftableMflowsSet i v =>
    cases hs
    exact hnone (NoneJoins.of_eq rfl rfl rfl)
  | oftableSetReadonly i =>
    cases hs
    exact hnone (NoneJoins.of_eq rfl rfl rfl)
  | _ => cases hc

/-- Whatever a call does that adds no flow, the enclave stays in step with the rules. -/
theorem run_synced (h : Sane o) (hst : o.Synced) (hc : c.Allowed o)
    (hflow : ∀ fm new construct, c ≠ .addFlow fm new construct)
    (hadd : ∀ i a p q node, c = .configure (.evgAddRule i a p q node) → o.Owes a q)
    (hs : c.run o = some o') : o'.Synced ∧ SameButPending o o' := by
  have hkeeps : KeepsPriorities o o' → o'.Synced ∧ SameButPending o o' := fun hk =>
    ⟨hk.synced hst, hk.rule⟩
  cases c with
  | addFlow fm new construct => exact absurd rfl (hflow fm new construct)
  | deleteFlows rules => exact hkeeps (deleteFlows_keepsPriorities h hs)
  | flush => exact hkeeps (ofprotoFlush_keepsPriorities h hs)
  | evict => exact hkeeps (ofprotoEvict_keepsPriorities h hs)
  | ruleExpire a => exact hkeeps (ofprotoRuleExpire_keepsPriorities h hs)
  | completeOperations => exact hkeeps (completeOperations_keepsPriorities h hs)
  | clog clogged =>
    cases hs
    exact ⟨hst, SameButPending.of_eq rfl⟩
  | configure c =>
    obtain ⟨s', h1, rfl⟩ := Option.map_eq_some_iff.mp hs
    exact ⟨configure_synced h hst hc.1 hc.2 (fun i a p q node heq => hadd i a p q node (heq ▸ rfl))
      h1, SameButPending.of_eq rfl⟩

end Calls

/-! ## Adding a flow -/

section AddFlow

variable {o o' : Ofproto} {fm : FlowMod} {new : NewRule} {construct error : Option Ofperr}
  {out : AddFlowOut} {cr a : UtAddr} {victim : Option UtAddr} {err : Ofperr}
  {Q : UtAddr → Nat → Prop}

/-- The new rule is in no group yet. -/
theorem allocRule_synced (h : Sane o) (hst : o.Synced) (hnew : o.enclave.NewAddr new.cr) :
    (allocRule o fm new).Synced := by
  intro r hr
  have hold := hst r hr
  obtain ⟨g, hg⟩ := Option.ne_none_iff_exists'.mp hr
  obtain ⟨j, hj⟩ := h.enclave.eviction.groupedIn hg
  have hne := hnew.ne (h.enclave.installed_self (h.enclave.installed j r hj)).live
  have hrule : (allocRule o fm new).rule (o.enclave.oClsRule r) = o.rule (o.enclave.oClsRule r) :=
    Function.update_of_ne hne _ _
  show (allocRule o fm new).Owes (o.enclave.oClsRule r) _
  unfold Ofproto.Owes
  rw [hrule]
  exact hold

/-- A rule that is put back has its own priority. -/
theorem evictionGroupAddRule_stores (hst : o.enclave.Stores Q) (ha : o.enclave.Addressed a)
    (hq : (o.rule a).mayExpire = true → Q a (o.rule a).evictionPriority)
    (hs : evictionGroupAddRule o a = some o') : o'.enclave.Stores Q := by
  unfold evictionGroupAddRule at hs
  split at hs
  · rename_i hb
    obtain ⟨s, h1, hs⟩ := Option.bind_eq_some_iff.mp hs
    cases hs
    exact ecallEvgAddRule_stores hst ha (hq (Bool.and_eq_true_iff.mp hb).2) h1
  · cases hs
    exact hst

theorem evictionGroupRemoveRule_noneJoins (hs : evictionGroupRemoveRule o a = some o') :
    NoneJoins o.enclave o'.enclave ∧ o'.enclave.clsRules = o.enclave.clsRules ∧
      o'.rule = o.rule := by
  obtain ⟨s, h1, hs⟩ := Option.bind_eq_some_iff.mp hs
  cases hs
  exact ⟨ecallEvgRemoveRule_noneJoins h1, (ecallEvgRemoveRule_sameRules h1).clsRules, rfl⟩

theorem unlinkVictim_noneJoins (hs : unlinkVictim o victim = some o') :
    NoneJoins o.enclave o'.enclave ∧ o'.enclave.clsRules = o.enclave.clsRules ∧
      o'.rule = o.rule := by
  cases victim with
  | none =>
    cases hs
    exact ⟨NoneJoins.refl _, rfl, rfl⟩
  | some v => exact evictionGroupRemoveRule_noneJoins (o := o.unlinkExpirable v) hs

theorem oftableReplaceRule_stores (hst : o.enclave.Stores Q) (ha : o.enclave.Addressed a)
    (hq : (o.rule a).mayExpire = true → Q a (o.rule a).evictionPriority)
    (hs : oftableReplaceRule o a = some o') : o'.enclave.Stores Q := by
  unfold oftableReplaceRule at hs
  dsimp only at hs
  generalize hlink : (if (o.rule a).mayExpire then o.linkExpirable a else o) = o1 at hs
  obtain ⟨⟨s, v⟩, h1, hs⟩ := Option.bind_eq_some_iff.mp hs
  obtain ⟨o2, h2, hs⟩ := Option.bind_eq_some_iff.mp hs
  have hlinked : o1.enclave = o.enclave ∧ o1.rule = o.rule := by
    rw [← hlink]
    split <;> exact ⟨rfl, rfl⟩
  rw [hlinked.1] at h1
  obtain ⟨hj1, hcls1⟩ := ecallOftableClassifierReplace_noneJoins h1
  obtain ⟨hj2, hcls2, hrule2⟩ := unlinkVictim_noneJoins h2
  have hrule : o2.rule = o.rule := hrule2.trans hlinked.2
  refine evictionGroupAddRule_stores ((hj1.trans hj2).stores hst)
    (ha.congr (hcls2.trans hcls1) (hj1.trans hj2).oClsRule) ?_ hs
  rw [hrule]
  exact hq

theorem oftableRemoveRule_noneJoins (hs : oftableRemoveRule o a = some o') :
    NoneJoins o.enclave o'.enclave := by
  obtain ⟨s, h1, hs⟩ := Option.bind_eq_some_iff.mp hs
  obtain ⟨o1, h2, hs⟩ := Option.bind_eq_some_iff.mp hs
  cases hs
  exact (ecallClsRemove_noneJoins h1).trans (evictionGroupRemoveRule_noneJoins h2).1

/-- The back-out puts the victim back with the priority that it has in memory. -/
theorem backOut_stores (hst : o.enclave.Stores Q)
    (hv : ∀ v, victim = some v → o.enclave.Addressed v ∧
      ((o.rule v).mayExpire = true → Q v (o.rule v).evictionPriority))
    (hs : backOut o cr victim err = some (o', error)) : o'.enclave.Stores Q := by
  obtain ⟨o1, h1, hs⟩ := Option.bind_eq_some_iff.mp hs
  obtain ⟨o2, h2, hs⟩ := Option.bind_eq_some_iff.mp hs
  cases hs
  have hst1 : o1.enclave.Stores Q := by
    cases victim with
    | none => exact (oftableRemoveRule_noneJoins h1).stores hst
    | some v => exact oftableReplaceRule_stores hst (hv v rfl).1 (hv v rfl).2 h1
  obtain ⟨s, h3, h2⟩ := Option.bind_eq_some_iff.mp h2
  cases h2
  exact (ecallClsRuleDestroy_onlyShadows h3).noneJoins.stores hst1

/-- The operations that have been started change nothing in the enclave. -/
theorem FlowStarted.unsubmitted (h : FlowStarted o o' out) (hg : o.nextGroup ∉ o.pending) :
    Unsubmitted o.nextGroup o' :=
  ⟨by rw [h.ops.pending]; exact hg, h.error⟩

theorem operateAddFlow_stores (hst : o.enclave.Stores Q) (hp : (o.rule cr).pending = none)
    (hg : o.nextGroup ∉ o.pending)
    (hv : ∀ v, out.victim = some v → v ≠ cr ∧ o.enclave.Addressed v ∧
      ((o.rule v).mayExpire = true → Q v (o.rule v).evictionPriority))
    (hs : operateAddFlow o cr out construct = some (o', error)) : o'.enclave.Stores Q := by
  cases construct with
  | some err =>
    obtain ⟨o1, hop, henc, -, -, -, -, hrule⟩ := operateAddFlow_failed out hp hg err
    rw [hop] at hs
    rw [← henc] at hst
    refine backOut_stores hst (fun v hvic => ?_) hs
    obtain ⟨hne, ha, hq⟩ := hv v hvic
    rw [henc, hrule v hne]
    exact ⟨ha, hq⟩
  | none =>
    obtain ⟨o3, hstart, hsubmit⟩ := operateAddFlow_started hp hg hs
    have hsub := ((hstart.unsubmitted hg).submit hsubmit).noneJoins
    rw [hstart.enclave] at hsub
    exact hsub.stores hst

theorem finishAddFlow_stores (hst : o.enclave.Stores Q) (hp : (o.rule cr).pending = none)
    (hg : o.nextGroup ∉ o.pending)
    (hv : ∀ v, out.victim = some v → v ≠ cr ∧ o.enclave.Addressed v ∧
      ((o.rule v).mayExpire = true → Q v (o.rule v).evictionPriority))
    (hs : finishAddFlow o cr out construct = some (o', error)) : o'.enclave.Stores Q := by
  unfold finishAddFlow at hs
  split at hs
  · cases hs
    exact hst
  · split at hs
    · cases hs
      exact hst
    · split at hs
      · cases hs
        exact hst
      · dsimp only at hs
        split at hs
        · exact backOut_stores (o := relinkExpirable o cr out.victim) hst
            (fun v hvic => (hv v hvic).2) hs
        · exact operateAddFlow_stores (o := relinkExpirable o cr out.victim) hst hp hg hv hs

/-- The call writes to the new rule, and keeps what the enclave stores in step with the rules. -/
theorem addFlow_synced (h : Sane o) (hst : o.Synced) (hnew : o.enclave.NewAddr new.cr)
    (hs : addFlow o fm new construct = some (o', error)) :
    o'.Synced ∧ ((fm.tableId ≠ 0xff ∧ o.nTables ≤ fm.tableId) ∨
      SameButPending (allocRule o fm new) o') := by
  unfold addFlow at hs
  split at hs
  · rename_i hbad
    cases hs
    exact ⟨hst, .inl hbad⟩
  · obtain ⟨⟨s', out⟩, hecall, hfin⟩ := Option.bind_eq_some_iff.mp hs
    have hecall' : ecallAddFlow o.enclave (flowArgs o fm new) = some (s', out) := hecall
    have hfin' : finishAddFlow (entered o fm new s') new.cr out construct = some (o', error) := hfin
    have hsame : SameButPending (allocRule o fm new) o' := by
      have hset : SameButPending (allocRule o fm new) (entered o fm new s') :=
        SameButPending.of_eq rfl
      obtain ⟨-, L, -, hL⟩ | ⟨-, hL⟩ := finishAddFlow_steps hfin'
      · exact hset.trans hL.sameButPending
      · exact hset.trans hL.sameButPending
    refine ⟨?_, .inr hsame⟩
    have hst0 : o.enclave.Stores (allocRule o fm new).Owes := allocRule_synced h hst hnew
    have hst1 : s'.Stores (allocRule o fm new).Owes :=
      ecallAddFlow_stores h.enclave.shadows hnew hst0 (fun hexp => ⟨hexp, rfl⟩) hecall'
    unfold Ofproto.Synced
    rw [hsame.owes]
    have hg : o.nextGroup ∉ o.pending := fun hmem => Nat.lt_irrefl _ (h.groups _ hmem)
    refine finishAddFlow_stores (o := entered o fm new s') hst1
      (by simp [entered, evictionGroupPriority, allocRule]) hg (fun v hvic => ?_) hfin'
    obtain ⟨-, -, rfl⟩ | ⟨-, -, rfl | rfl⟩ | ⟨hnot, hinst⟩ := ecallAddFlow_cases hecall'
    · cases hvic
    · cases hvic
    · cases hvic
    · obtain ⟨s1, out1, V, E, h1, hadd⟩ :=
        installFlow_added h.enclave hnew trivial (FlowRefused.readonly hnot)
      obtain ⟨rfl, rfl⟩ := Prod.mk.inj (Option.some.inj (h1.symm.trans hinst))
      have hlive := hadd.out_live h (.inr hvic)
      exact ⟨hnew.ne hlive, hadd.ok.shadows.addressed ((hadd.live h.enclave v).mpr (.inr hlive)),
        fun hexp => ⟨hexp, rfl⟩⟩

end AddFlow

end OvsSgx
