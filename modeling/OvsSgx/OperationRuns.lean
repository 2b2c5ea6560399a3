/-
OvsSgx.OperationRuns — every operation in flight is accounted for, and ends.

Each call into the bridge opens one group, puts its operations into it and
submits it, so that the books of `OperationAccounts` agree again when the
call returns. With them `complete_operations` cannot get stuck: as soon as
the provider is no longer clogged every operation that was put off is
completed, every group with it, and no rule stays pending.
-/
import OvsSgx.OperationAccounts
import OvsSgx.ModifyFlowsTheorems
import OvsSgx.PendingAdditions
import OvsSgx.DeletionSerialisation

namespace OvsSgx

/-! ## The calls -/

section Calls

variable {o o' start : Ofproto} {R K : List OpId} {a : UtAddr} {k : OpId}

theorem Ofproto.Open.perm {R' : List OpId} (h : o.Open start R) (hR : R.Perm R') :
    o.Open start R' :=
  { h with
    accounts := h.accounts.perm (List.Perm.refl _) (hR.append_right _)
    own := fun k hk => h.own k (hR.mem_iff.mpr hk) }

theorem Ofproto.Accounted.books (h : o.Accounted) (hs : SameBooks o o') : o'.Accounted := by
  refine ⟨?_, h.busy.books hs⟩
  rw [hs.pending, hs.completions]
  exact h.accounts.books hs

theorem OneGroup.refl (o : Ofproto) : OneGroup o o := .inl ⟨rfl, List.Sublist.refl _⟩

theorem SameBooks.oneGroup {o1 : Ofproto} (hs : SameBooks o o1) (h : OneGroup o1 o') :
    OneGroup o o' := by
  simpa only [OneGroup, hs.nextGroup, hs.pending, hs.clogged] using h

theorem OneGroup.books {o1 : Ofproto} (h : OneGroup o o1) (hs : SameBooks o1 o') :
    OneGroup o o' := by
  simpa only [OneGroup, hs.nextGroup, hs.pending, hs.clogged] using h

theorem Ofproto.Accounted.same (h : o.Accounted) (hs : SameBooks o o') :
    o'.Accounted ∧ OneGroup o o' :=
  ⟨h.books hs, (OneGroup.refl o).books hs⟩

theorem startDeletion_open {e : UtAddr × U32} (h : o.Open start [])
    (hs : startDeletion start.nextGroup o e = some o') : o'.Open start [] := by
  obtain ⟨⟨o1, k⟩, h1, hs⟩ := Option.bind_eq_some_iff.mp hs
  obtain ⟨hopen, hp⟩ := ofoperationCreate_open h h1
  exact (ruleDestruct_open (hopen.books (.expirable o1 (o1.expirable.erase e.1))) hp hs).1

theorem foldlM_startDeletion_open {l : List (UtAddr × U32)} : ∀ {o : Ofproto}, o.Open start [] →
    l.foldlM (startDeletion start.nextGroup) o = some o' → o'.Open start [] := by
  induction l with
  | nil =>
    intro o h hs
    cases hs
    exact h
  | cons e l ih =>
    intro o h hs
    rw [List.foldlM_cons, Option.bind_eq_bind, Option.bind_eq_some_iff] at hs
    obtain ⟨o1, h1, h2⟩ := hs
    exact ih (startDeletion_open h h1) h2

/-- A list of deletions in a group of its own. -/
theorem deletions_accounted {l : List (UtAddr × U32)} {s : Enclave} {o1 : Ofproto}
    {isHidden : Bool} (h : o.Accounted)
    (hfold : l.foldlM (startDeletion o.nextGroup) { (ofopgroupCreate o).1 with enclave := s }
      = some o1)
    (hsubmit : ofopgroupSubmit o1 o.nextGroup isHidden = some o') :
    o'.Accounted ∧ OneGroup o o' := by
  have hopen := (ofopgroupCreate_open h).books (.enclave _ s)
  exact ofopgroupSubmit_accounted (foldlM_startDeletion_open hopen hfold) hsubmit

theorem deleteFlows_accounted {rules : List UtAddr} (h : o.Accounted)
    (hs : deleteFlows o rules = some o') : o'.Accounted ∧ OneGroup o o' := by
  obtain ⟨⟨s, deleted⟩, -, hs⟩ := Option.bind_eq_some_iff.mp hs
  obtain ⟨o1, h1, h2⟩ := Option.bind_eq_some_iff.mp hs
  exact deletions_accounted h h1 h2

theorem ofprotoFlush_accounted (h : o.Accounted) (hs : ofprotoFlush o = some o') :
    o'.Accounted ∧ OneGroup o o' := by
  obtain ⟨⟨s, entries, n⟩, -, hs⟩ := Option.bind_eq_some_iff.mp hs
  obtain ⟨read, -, hs⟩ := Option.bind_eq_some_iff.mp hs
  obtain ⟨o1, h1, h2⟩ := Option.bind_eq_some_iff.mp hs
  exact deletions_accounted h h1 h2

theorem ofprotoRuleExpire_accounted (h : o.Accounted) (hs : ofprotoRuleExpire o a = some o') :
    o'.Accounted ∧ OneGroup o o' := by
  unfold ofprotoRuleExpire at hs
  split at hs
  · cases hs
    exact ⟨h, .refl o⟩
  · obtain ⟨_, -, hs⟩ := Option.bind_eq_some_iff.mp hs
    obtain ⟨⟨o1, k⟩, h1, hs⟩ := Option.bind_eq_some_iff.mp hs
    obtain ⟨o2, h2, hs⟩ := Option.bind_eq_some_iff.mp hs
    obtain ⟨o3, h3, hs⟩ := Option.bind_eq_some_iff.mp hs
    obtain ⟨hopen, hp⟩ := ofoperationCreate_open (ofopgroupCreate_open h) h1
    have hremoved := oftableRemoveRule_books h2
    rw [← hremoved.rule] at hp
    exact ofopgroupSubmit_accounted (ruleDestruct_open (hopen.books hremoved) hp h3).1 hs

/-- The first loop of `ofproto_evict`: `K` are the operations on the rules to remove. -/
theorem evictEntries_open {entries : List (UtAddr × U32)} {fuel : Nat} :
    ∀ {i : Nat} {o : Ofproto} {removed removed' : List UtAddr} {K : List OpId}, o.Open start K →
      removed.map (fun a => (o.rule a).pending) = K.map some →
      evictEntries start.nextGroup entries fuel i o removed = some (o', removed') →
      ∃ K', o'.Open start K' ∧ removed'.map (fun a => (o'.rule a).pending) = K'.map some := by
  induction fuel with
  | zero =>
    intro i o removed removed' K h hK hs
    cases hs
    exact ⟨K, h, hK⟩
  | succ fuel ih =>
    intro i o removed removed' K h hK hs
    obtain ⟨e, -, hs⟩ := Option.bind_eq_some_iff.mp hs
    split at hs
    · cases hs
      exact ⟨K, h, hK⟩
    · rename_i hidle
      obtain ⟨⟨o1, k⟩, h1, hs⟩ := Option.bind_eq_some_iff.mp hs
      obtain ⟨hopen, hp⟩ := ofoperationCreate_open h h1
      obtain ⟨hash, rfl, -⟩ := ofoperationCreate_some h1
      refine ih (hopen.perm (List.perm_append_singleton k K).symm) ?_ hs
      -- the rules before it are pending already, so they are others
      have hne : ∀ a ∈ removed, a ≠ e.1 := by
        rintro a ha rfl
        have hmem : (o.rule e.1).pending ∈ K.map some := hK ▸ List.mem_map_of_mem ha
        obtain ⟨j, -, hj⟩ := List.mem_map.mp hmem
        simp [← hj] at hidle
      rw [List.map_append, List.map_append, ← hK]
      congr 1
      · exact List.map_congr_left fun a ha => by
          simp [Ofproto.addOperation, Ofproto.setPending, hne a ha]
      · simpa using hp

/-- Its second loop. -/
theorem foldlM_ruleDestruct_open {removed : List UtAddr} : ∀ {o : Ofproto} {K : List OpId},
    o.Open start K → removed.map (fun a => (o.rule a).pending) = K.map some →
    removed.foldlM (fun o a => ruleDestruct (o.unlinkExpirable a) a) o = some o' →
    o'.Open start [] := by
  induction removed with
  | nil =>
    intro o K h hK hs
    cases hs
    rw [List.map_nil, eq_comm, List.map_eq_nil_iff] at hK
    exact hK ▸ h
  | cons a removed ih =>
    intro o K h hK hs
    rw [List.foldlM_cons, Option.bind_eq_bind, Option.bind_eq_some_iff] at hs
    obtain ⟨o1, h1, h2⟩ := hs
    cases K with
    | nil => simp at hK
    | cons k K =>
      simp only [List.map_cons, List.cons.injEq] at hK
      have hunlinked := h.books (.expirable o (o.expirable.erase a))
      obtain ⟨hopen, hrule⟩ := ruleDestruct_open hunlinked hK.1 h1
      refine ih hopen ?_ h2
      rw [hrule]
      exact hK.2

theorem ofprotoEvict_accounted (h : o.Accounted) (hs : ofprotoEvict o = some o') :
    o'.Accounted ∧ OneGroup o o' := by
  obtain ⟨⟨s, entries, total⟩, -, hs⟩ := Option.bind_eq_some_iff.mp hs
  obtain ⟨⟨o1, removed⟩, h1, hs⟩ := Option.bind_eq_some_iff.mp hs
  obtain ⟨⟨s2, hidden⟩, -, hs⟩ := Option.bind_eq_some_iff.mp hs
  obtain ⟨o2, h2, hs⟩ := Option.bind_eq_some_iff.mp hs
  have hopen := (ofopgroupCreate_open h).books (.enclave _ s)
  have hnone : ([] : List UtAddr).map (fun a => (o.rule a).pending) = ([] : List OpId).map some :=
    rfl
  obtain ⟨K, hopen, hK⟩ := evictEntries_open hopen hnone h1
  exact ofopgroupSubmit_accounted
    (foldlM_ruleDestruct_open (hopen.books (.enclave _ s2)) hK h2) hs

/-! ## Adding and modifying flows -/

/-- `add_flow` with an operation that its provider refuses. -/
theorem dropOperation_accounted {o1 : Ofproto} (h : o1.Open o [k])
    (hs : dropOperation o1 o.nextGroup k = some o') : o'.Accounted ∧ OneGroup o o' := by
  have hgk := h.own k (by simp)
  have hacc := countOff_accounts h.accounts
  rw [hgk] at hacc
  have hcomp : k ∉ o1.completions := (List.nodup_cons.mp h.accounts.runningNodup).1
  have hheld := h.accounts.running k (by simp)
  unfold dropOperation at hs
  dsimp only at hs
  refine ofopgroupSubmit_accounted
    ⟨ofoperationDestroy_accounts hacc ?_ hcomp, h.pending, h.nextGroup, h.clogged, ?_, by simp,
      h.putOff⟩ hs
  · obtain ⟨hmem, hops⟩ := hheld
    rw [hgk] at hmem hops
    simpa [Ofproto.Holds, hgk] using hops
  · intro g' hg'
    have hne : g' ≠ o.nextGroup := fun heq => h.not_pending (heq ▸ hg')
    rw [(ofoperationDestroy_work _ k).nRunning]
    simpa [hne] using h.busy g' hg'

theorem operateAddFlow_accounted {cr : UtAddr} {out : AddFlowOut}
    {construct error : Option Ofperr} (h : o.Accounted)
    (hs : operateAddFlow o cr out construct = some (o', error)) : o'.Accounted ∧ OneGroup o o' := by
  obtain ⟨⟨o1, k⟩, h1, hs⟩ := Option.bind_eq_some_iff.mp hs
  obtain ⟨hopen, hp⟩ := ofoperationCreate_open (ofopgroupCreate_open h) h1
  have hvictim : SameBooks o1 { o1 with
      op := Function.update o1.op k { o1.op k with victim := out.victim } } := by
    constructor
    case opGroup | opRule | opType | opHash =>
      intro j
      by_cases hj : j = k <;> simp [hj]
    all_goals intros; rfl
  have hnamed := hopen.books hvictim
  cases construct with
  | some err =>
    obtain ⟨o2, h2, hs⟩ := Option.bind_eq_some_iff.mp hs
    obtain ⟨hacc, hone⟩ := dropOperation_accounted hnamed h2
    have hbooks := backOut_books hs
    exact ⟨hacc.books hbooks, hone.books hbooks⟩
  | none =>
    obtain ⟨o2, h2, hs⟩ := Option.bind_eq_some_iff.mp hs
    obtain ⟨o3, h3, hs⟩ := Option.bind_eq_some_iff.mp hs
    obtain ⟨o4, h4, hs⟩ := Option.bind_eq_some_iff.mp hs
    cases hs
    have hcompleted := (completeOperation_open hnamed hp h2).1
    refine ofopgroupSubmit_accounted ?_ h4
    unfold deleteEvicted at h3
    split at h3
    · cases h3
      exact hcompleted
    · exact startDeletion_open hcompleted h3

theorem finishAddFlow_accounted {cr : UtAddr} {out : AddFlowOut}
    {construct error : Option Ofperr} (h : o.Accounted)
    (hs : finishAddFlow o cr out construct = some (o', error)) : o'.Accounted ∧ OneGroup o o' := by
  have hfreed : SameBooks o (ruleDealloc o cr) := .of_eq rfl rfl rfl rfl rfl rfl rfl rfl fun _ => rfl
  have hrelinked : SameBooks o { o with expirable := (relinkExpirable o cr out.victim).expirable } :=
    .expirable o _
  unfold finishAddFlow at hs
  split at hs
  · cases hs
    exact h.same hfreed
  · split at hs
    · cases hs
      exact h.same hfreed
    · split at hs
      · cases hs
        exact h.same hfreed
      · dsimp only at hs
        split at hs
        · exact h.same (hrelinked.trans (backOut_books hs))
        · obtain ⟨hacc, hone⟩ := operateAddFlow_accounted (h.books hrelinked) hs
          exact ⟨hacc, hrelinked.oneGroup hone⟩

theorem entered_books {fm : FlowMod} {new : NewRule} (hfresh : (o.rule new.cr).pending = none)
    (s : Enclave) : SameBooks o (entered o fm new s) := by
  refine .of_eq rfl rfl rfl rfl rfl rfl rfl rfl fun a => ?_
  by_cases ha : a = new.cr
  · subst ha
    simp [entered, evictionGroupPriority, allocRule, hfresh]
  · simp [entered, evictionGroupPriority, allocRule, ha]

/-- `add_flow`, into memory that is not that of a rule with an operation pending. -/
theorem addFlow_accounted {fm : FlowMod} {new : NewRule} {construct error : Option Ofperr}
    (h : o.Accounted) (hfresh : (o.rule new.cr).pending = none)
    (hs : addFlow o fm new construct = some (o', error)) : o'.Accounted ∧ OneGroup o o' := by
  unfold addFlow at hs
  split at hs
  · cases hs
    exact ⟨h, .refl o⟩
  · obtain ⟨⟨s, out⟩, -, hs⟩ := Option.bind_eq_some_iff.mp hs
    have hs' : finishAddFlow (entered o fm new s) new.cr out construct = some (o', error) := hs
    have hentered : SameBooks o (entered o fm new s) := entered_books hfresh s
    obtain ⟨hacc, hone⟩ := finishAddFlow_accounted (h.books hentered) hs'
    exact ⟨hacc, hentered.oneGroup hone⟩

section Modify

variable {A : Type} [DecidableEq A] {s s' : FlowState A} {fm : FlowModRequest A}

theorem modifyRule_open (h : s.ofproto.Open start []) (hs : modifyRule start.nextGroup fm s a = some s') :
    s'.ofproto.Open start [] := by
  obtain ⟨⟨o1, k⟩, h1, hs⟩ := Option.bind_eq_some_iff.mp hs
  obtain ⟨hopen, hp⟩ := ofoperationCreate_open h h1
  dsimp only at hs
  split at hs
  · obtain ⟨o2, h2, hs⟩ := Option.bind_eq_some_iff.mp hs
    cases hs
    exact (ofoperationComplete_open hopen h2).1
  · obtain ⟨o2, h2, hs⟩ := Option.bind_eq_some_iff.mp hs
    cases hs
    exact (completeOperation_open hopen hp h2).1

theorem modifyLoop_open {modifiable : List Bool} {rules : List UtAddr} :
    ∀ {i : Nat} {s : FlowState A} {error error' : Option Ofperr}, s.ofproto.Open start [] →
      modifyLoop start.nextGroup fm modifiable i rules s error = some (s', error') → s'.ofproto.Open start [] := by
  induction rules with
  | nil =>
    intro i s error error' h hs
    cases hs
    exact h
  | cons a rest ih =>
    intro i s error error' h hs
    obtain ⟨m, -, hs⟩ := Option.bind_eq_some_iff.mp hs
    split at hs
    · obtain ⟨s1, h1, hs⟩ := Option.bind_eq_some_iff.mp hs
      exact ih (modifyRule_open h h1) hs
    · exact ih h hs

theorem modifyFlows_accounted {rules : List UtAddr} {modifiable : List Bool}
    {error : Option Ofperr} (h : s.ofproto.Accounted)
    (hs : modifyFlows s fm rules modifiable = some (s', error)) :
    s'.ofproto.Accounted ∧ OneGroup s.ofproto s'.ofproto := by
  obtain ⟨⟨s1, error1⟩, h1, hs⟩ := Option.bind_eq_some_iff.mp hs
  obtain ⟨o2, h2, hs⟩ := Option.bind_eq_some_iff.mp hs
  cases hs
  have hopen := modifyLoop_open (s := { s with ofproto := (ofopgroupCreate s.ofproto).1 })
    (ofopgroupCreate_open h) h1
  exact ofopgroupSubmit_accounted hopen h2

end Modify

/-! ## Completions that were put off -/

theorem foldlM_ofoperationComplete_accounted {ks : List OpId} : ∀ {o : Ofproto},
    o.Accounts o.pending ks → o.Busy →
    ks.foldlM (fun o k => ofoperationComplete o k none) o = some o' →
    o'.Accounts o'.pending [] ∧ o'.Busy ∧ o'.nextGroup = o.nextGroup ∧
      o'.pending.Sublist o.pending := by
  induction ks with
  | nil =>
    intro o h hbusy hs
    cases hs
    exact ⟨h, hbusy, rfl, List.Sublist.refl _⟩
  | cons k ks ih =>
    intro o h hbusy hs
    rw [List.foldlM_cons, Option.bind_eq_bind, Option.bind_eq_some_iff] at hs
    obtain ⟨o1, h1, h2⟩ := hs
    obtain ⟨hacc, hbusy1, hnext, hsub⟩ := ofoperationComplete_accounted h hbusy h1
    obtain ⟨hacc', hbusy', hnext', hsub'⟩ := ih hacc hbusy1 h2
    exact ⟨hacc', hbusy', hnext'.trans hnext, hsub'.trans hsub⟩

/-- `complete_operations` opens no group. -/
theorem completeOperations_accounted (h : o.Accounted) (hs : completeOperations o = some o') :
    o'.Accounted ∧ o'.nextGroup = o.nextGroup ∧ o'.pending.Sublist o.pending := by
  unfold completeOperations at hs
  split at hs
  · cases hs
    exact ⟨h, rfl, List.Sublist.refl _⟩
  · obtain ⟨o1, h1, hs⟩ := Option.bind_eq_some_iff.mp hs
    cases hs
    obtain ⟨hacc, hbusy, hgroups⟩ := foldlM_ofoperationComplete_accounted h.accounts h.busy h1
    refine ⟨⟨?_, hbusy⟩, hgroups⟩
    obtain ⟨⟩ := hacc
    constructor <;> assumption

end Calls

/-! ## Every run -/

/-- A call into a bridge, or one of `modify_flows__`; `A` are the actions. -/
inductive FlowCall (A : Type) where
  | bridge (c : BridgeCall)
  | modifyFlows (fm : FlowModRequest A) (rules : List UtAddr) (modifiable : List Bool)

/-- The states of a bridge that calls with property `G` lead to. What the cookies and the actions
of its rules are when flows are modified does not matter. -/
inductive FlowsReachable {A : Type} [DecidableEq A] (G : Ofproto → FlowCall A → Prop) :
    Ofproto → Prop where
  | create (nTables : Nat) (enclaveRandom random : Nat → BitVec 16) :
      0 < nTables → FlowsReachable G (ofprotoCreate nTables enclaveRandom random)
  | bridge {o o' : Ofproto} (c : BridgeCall) :
      FlowsReachable G o → G o (.bridge c) → c.run o = some o' → FlowsReachable G o'
  | modifyFlows {s s' : FlowState A} {error : Option Ofperr} (fm : FlowModRequest A)
      (rules : List UtAddr) (modifiable : List Bool) :
      FlowsReachable G s.ofproto → G s.ofproto (.modifyFlows fm rules modifiable) →
      modifyFlows s fm rules modifiable = some (s', error) → FlowsReachable G s'.ofproto

/-- `malloc` does not return the memory of a rule that has an operation pending. -/
def BridgeCall.FreshMemory (o : Ofproto) : BridgeCall → Prop
  | .addFlow _ new _ => (o.rule new.cr).pending = none
  | _ => True

def FlowCall.FreshMemory {A : Type} (o : Ofproto) : FlowCall A → Prop
  | .bridge c => c.FreshMemory o
  | .modifyFlows _ _ _ => True

theorem ofprotoCreate_accounted (nTables : Nat) (enclaveRandom random : Nat → BitVec 16) :
    (ofprotoCreate nTables enclaveRandom random).Accounted := by
  refine ⟨?_, by simp [Ofproto.Busy, ofprotoCreate]⟩
  constructor <;> simp [ofprotoCreate, Ofproto.Holds]

theorem run_accounted {o o' : Ofproto} {c : BridgeCall} (h : o.Accounted)
    (hfresh : c.FreshMemory o) (hs : c.run o = some o') :
    o'.Accounted ∧ OneGroup o o' := by
  cases c with
  | addFlow fm new construct =>
    obtain ⟨⟨o1, error⟩, h1, rfl⟩ := Option.map_eq_some_iff.mp hs
    exact addFlow_accounted h hfresh h1
  | deleteFlows rules => exact deleteFlows_accounted h hs
  | flush => exact ofprotoFlush_accounted h hs
  | evict => exact ofprotoEvict_accounted h hs
  | ruleExpire a => exact ofprotoRuleExpire_accounted h hs
  | completeOperations =>
    obtain ⟨hacc, hgroups⟩ := completeOperations_accounted h hs
    exact ⟨hacc, .inl hgroups⟩
  | clog clogged =>
    cases hs
    obtain ⟨⟨⟩, hbusy⟩ := h
    refine ⟨⟨?_, hbusy⟩, .inl ⟨rfl, List.Sublist.refl _⟩⟩
    constructor <;> assumption
  | configure c =>
    obtain ⟨s', h1, rfl⟩ := Option.map_eq_some_iff.mp hs
    exact h.same (.enclave o s')

/-- In every run the books of the operations in flight agree after each call. -/
theorem operations_accounted {A : Type} [DecidableEq A] {o : Ofproto}
    (h : FlowsReachable (A := A) FlowCall.FreshMemory o) : o.Accounted := by
  induction h with
  | create nTables enclaveRandom random hn => exact ofprotoCreate_accounted _ _ _
  | bridge c _ hc hs ih => exact (run_accounted ih hc hs).1
  | modifyFlows fm rules modifiable _ _ hs ih => exact (modifyFlows_accounted ih hs).1

/-! ### A deletion that has to wait -/

theorem OfprotoReachable.flows {A : Type} [DecidableEq A] {G : Ofproto → BridgeCall → Prop}
    {G' : Ofproto → FlowCall A → Prop} {o : Ofproto} (h : OfprotoReachable G o)
    (hG : ∀ o c, G o c → G' o (.bridge c)) : FlowsReachable G' o := by
  induction h with
  | create nTables enclaveRandom random hn => exact .create nTables enclaveRandom random hn
  | step c _ hc hs ih => exact ih.bridge c (hG _ c hc) hs

theorem deletingFlow_orderly :
    OfprotoReachable (fun o c => c.Allowed o ∧ c.FreshMemory o ∧ c.SparesShadows o)
      deletingFlow := by
  have h0 := newBridge_reachable
    (G := fun o c => c.Allowed o ∧ c.FreshMemory o ∧ c.SparesShadows o)
    fun _ _ _ _ => ⟨⟨rfl, trivial⟩, trivial, trivial⟩
  have h1 := h0.after (c := .addFlow (expiringFlow 7#32 1) (ruleAt 1#64) none)
    ⟨show Enclave.NewAddr _ 1#64 by decide +kernel, rfl, trivial⟩
  have h2 := h1.after (c := .clog true) ⟨trivial, trivial, trivial⟩
  refine h2.after ⟨⟨fun a ha => ⟨0, ?_⟩, List.nodup_singleton _⟩, trivial, trivial⟩
  rw [List.mem_singleton.mp ha]
  decide +kernel

theorem deletingFlow_accounted : deletingFlow.Accounted :=
  operations_accounted (A := Unit) (deletingFlow_orderly.flows fun _ _ hc => hc.2.1)

end OvsSgx
