/-
OvsSgx.DeletionSerialisation — new flows and the deletions in flight.

`add_flow` is to postpone a flow while a rule of the flow's table with the
flow's match and priority is being deleted. The enclave compares the flow
with the rules of all pending deletions of the bridge, whatever their
tables. So in a run in which the pending rules keep their shadows, a flow is
serialised as it should be unless a rule with its match and priority is
being deleted in another table only.
-/
import OvsSgx.PendingDeletions
import OvsSgx.OfprotoRuns

namespace OvsSgx

/-! ## What serialisation means -/

/-- The rule at `a` has the match and the priority of the flow. -/
def Enclave.SameFlow (s : Enclave) (fm : FlowMod) (a : UtAddr) : Prop :=
  ∃ r, s.LiveRule r ∧ s.oClsRule r = a ∧ (s.clsRule r).match = minimatchInit fm.match ∧
    (s.clsRule r).priority = fm.priority

/-- A deletion is in flight of a rule of table `i` with the match and the priority of the flow. -/
def FlowDeletionPending (o : Ofproto) (fm : FlowMod) (i : Nat) : Prop :=
  ∃ k ∈ o.deletions.values, (o.rule (o.op k).rule).tableId = i ∧
    o.enclave.SameFlow fm (o.op k).rule

/-- The flow is for a table of the bridge. -/
def TableExists (o : Ofproto) (fm : FlowMod) : Prop := fm.tableId = 0xff ∨ fm.tableId < o.nTables

/-- Adding the flow is serialised against the pending deletions: all of them have shadows to
compare with; if one concerns the flow, the flow is postponed; if none does, the enclave does what
it does when no deletion is pending. -/
structure Serialised (o : Ofproto) (fm : FlowMod) (new : NewRule) : Prop where
  shadows : ∀ k ∈ o.deletions.values, o.enclave.Live (o.op k).rule
  postponed : FlowDeletionPending o fm fm.table →
    ∀ construct, ∃ o', addFlow o fm new construct = some (o', some .postpone)
  goesOn : ¬ FlowDeletionPending o fm fm.table → TableExists o fm →
    ecallAddFlow o.enclave (flowArgs o fm new)
      = ecallAddFlow o.enclave { flowArgs o fm new with pendingDeletions := [] }

/-- The table of the flow exists and may be written to, so `add_flow` gets as far as the pending
deletions. -/
def Admitted (o : Ofproto) (fm : FlowMod) : Prop :=
  TableExists o fm ∧ ecallOftableIsReadonly o.enclave fm.table = false

section Serialised

variable {s : Enclave} {o o' : Ofproto} {fm : FlowMod} {new : NewRule} {args : AddFlowArgs}

/-! ## The comparison in the enclave -/

theorem minimatchEqual_iff_eq {a b : Minimatch} : minimatchEqual a b = true ↔ a = b :=
  minimatchEqual_iff.trans Minimatch.ext_iff'.symm

/-- Comparing the new rule with a rule that has its shadow. -/
theorem ecallClsRuleEqual_init (fm : FlowMod) (h : ShadowsOk s) {cr a : UtAddr}
    (hnew : s.NewAddr cr) (ha : s.Live a) :
    ∃ b, ecallClsRuleEqual (ecallClsRuleInit s cr fm.match fm.priority) cr a = some b ∧
      (b = true ↔ s.SameFlow fm a) := by
  obtain ⟨r, hr, rfl⟩ := ha
  have hne : r ≠ s.nextRule := Nat.ne_of_lt (h.rule_lt hr)
  have h1 := ecallClsRuleInit_shadows (m := fm.match) (p := fm.priority) h hnew
  have hlook := ecallClsRuleInit_lookup (m := fm.match) (p := fm.priority) h hnew
  have hlook' := h1.lookup_self (ecallClsRuleInit_liveRule.mpr (.inr hr))
  rw [ecallClsRuleInit_oClsRule hne] at hlook'
  refine ⟨clsRuleEqual (clsRuleInit fm.match fm.priority) (s.clsRule r), ?_, ?_⟩
  · simp only [ecallClsRuleEqual, hlook, hlook', Option.bind_eq_bind, Option.bind_some,
      ecallClsRuleInit_clsRule_self, ecallClsRuleInit_clsRule hne, Option.pure_def]
  · rw [clsRuleEqual, Bool.and_eq_true, beq_iff_eq, minimatchEqual_iff_eq]
    constructor
    · intro hsame
      exact ⟨r, hr, rfl, hsame.2.symm, hsame.1.symm⟩
    · rintro ⟨q, hq, heq, hm, hprio⟩
      obtain rfl := h.eq_of_oClsRule hq hr heq
      exact ⟨hprio.symm, hm.symm⟩

/-- The loop over the pending rules, if all of them have their shadows. -/
theorem anyPendingEqual_init (fm : FlowMod) (h : ShadowsOk s) {cr : UtAddr}
    (hnew : s.NewAddr cr) {pending : List UtAddr} (hlive : ∀ a ∈ pending, s.Live a) :
    ∃ b, anyPendingEqual (ecallClsRuleInit s cr fm.match fm.priority) cr pending = some b ∧
      (b = true ↔ ∃ a ∈ pending, s.SameFlow fm a) := by
  induction pending with
  | nil => exact ⟨false, rfl, by simp⟩
  | cons a pending ih =>
    obtain ⟨b, hb, hiff⟩ := ecallClsRuleEqual_init fm h hnew (hlive a (by simp))
    obtain ⟨b', hb', hiff'⟩ := ih fun c hc => hlive c (List.mem_cons_of_mem a hc)
    rw [anyPendingEqual, hb, Option.bind_eq_bind, Option.bind_some]
    cases b with
    | true => exact ⟨true, rfl, by simp [hiff.mp rfl]⟩
    | false =>
      have hnot : ¬ s.SameFlow fm a := fun hs => Bool.false_ne_true (hiff.mpr hs)
      exact ⟨b', hb', by simp [hiff', hnot]⟩

/-- The flow is not admitted to the table, and the deletions do not matter. -/
theorem ecallAddFlow_readonly (h : ecallOftableIsReadonly s args.tableId = true) :
    ecallAddFlow s args = some (s, { AddFlowOut.init with isReadOnly := true }) := by
  unfold ecallAddFlow
  rw [if_pos h]

/-- A pending rule is equal to the new one. -/
theorem ecallAddFlow_pending (h : ShadowsOk s) (hnew : s.NewAddr args.cr)
    (hro : ecallOftableIsReadonly s args.tableId = false)
    (hpending : anyPendingEqual (ecallClsRuleInit s args.cr args.match args.priority) args.cr
      args.pendingDeletions = some true) :
    ∃ s', ecallAddFlow s args = some (s', { AddFlowOut.init with isDeletionPending := true }) := by
  have h1 := ecallClsRuleInit_shadows (m := args.match) (p := args.priority) h hnew
  have hlook := ecallClsRuleInit_lookup (m := args.match) (p := args.priority) h hnew
  have hdes := ecallClsRuleDestroy_eq h1 (h1.live_of_lookup hlook)
  rw [ecallClsRuleInit_oClsRule_self] at hdes
  unfold ecallAddFlow
  rw [if_neg (by rw [hro]; exact Bool.false_ne_true)]
  simp only [hpending, Option.bind_eq_bind, Option.bind_some, if_true, hdes]
  exact ⟨_, rfl⟩

/-- No pending rule is equal to the new one. -/
theorem ecallAddFlow_nonePending
    (hpending : anyPendingEqual (ecallClsRuleInit s args.cr args.match args.priority) args.cr
      args.pendingDeletions = some false) :
    ecallAddFlow s args = ecallAddFlow s { args with pendingDeletions := [] } := by
  unfold ecallAddFlow
  simp only [hpending, anyPendingEqual]
  rfl

/-- Without pending deletions the outputs do not report one. -/
theorem ecallAddFlow_nil_ne {s' : Enclave} (h : BridgeOk (fun _ => True) s)
    (hnew : s.NewAddr args.cr) (hnil : args.pendingDeletions = []) :
    ecallAddFlow s args ≠ some (s', { AddFlowOut.init with isDeletionPending := true }) := by
  intro hs
  unfold ecallAddFlow at hs
  split at hs
  · simp [AddFlowOut.init] at hs
  · rename_i hro
    simp only [hnil, anyPendingEqual, Option.bind_eq_bind, Option.bind_some, Bool.false_eq_true,
      if_false, Option.bind_eq_some_iff] at hs
    obtain ⟨overlaps, -, hs⟩ := hs
    split at hs
    · obtain ⟨s1, -, hs⟩ := Option.bind_eq_some_iff.mp hs
      simp [AddFlowOut.init] at hs
    · obtain ⟨s1, out, V, E, hinst, hadd⟩ :=
        installFlow_added h hnew trivial (Bool.eq_false_iff.mpr hro)
      rw [hinst, Option.some.injEq, Prod.mk.injEq] at hs
      have haccepted := hadd.accepted.2.1
      rw [hs.2] at haccepted
      cases haccepted

/-! ## The call of the bridge -/

/-- What `add_flow` reports when the table is wrong or read-only. -/
theorem addFlow_not_admitted (h : ¬ Admitted o fm) (new : NewRule) (construct : Option Ofperr) :
    ∃ o' error, addFlow o fm new construct = some (o', some error) ∧ error ≠ .postpone := by
  unfold addFlow
  split
  · exact ⟨_, _, rfl, by simp⟩
  · rename_i hok
    have hexists : TableExists o fm := by
      unfold TableExists
      omega
    have hro : ecallOftableIsReadonly o.enclave fm.table = true := by
      by_contra hro
      exact h ⟨hexists, Bool.eq_false_iff.mpr hro⟩
    have hecall : ecallAddFlow o.enclave (flowArgs o fm new) = _ := ecallAddFlow_readonly hro
    show ∃ o' error, ((ecallAddFlow o.enclave (flowArgs o fm new)).bind _) = _ ∧ _
    rw [hecall]
    exact ⟨_, .eperm, rfl, by simp⟩

/-- What `add_flow` reports when a pending rule is equal to the new one. -/
theorem addFlow_pending {s' : Enclave} (h : TableExists o fm)
    (hecall : ecallAddFlow o.enclave (flowArgs o fm new)
      = some (s', { AddFlowOut.init with isDeletionPending := true })) (construct : Option Ofperr) :
    ∃ o', addFlow o fm new construct = some (o', some .postpone) := by
  unfold addFlow
  rw [if_neg (by unfold TableExists at h; omega)]
  show ∃ o', ((ecallAddFlow o.enclave (flowArgs o fm new)).bind _) = _
  rw [hecall]
  exact ⟨_, rfl⟩

/-- A pending rule with the flow's match and priority is the rule of a deletion in some table. -/
theorem sameFlow_iff : (∃ a ∈ (flowArgs o fm new).pendingDeletions, o.enclave.SameFlow fm a) ↔
    ∃ i, FlowDeletionPending o fm i := by
  have hpending : (flowArgs o fm new).pendingDeletions
      = o.deletions.values.map fun k => (o.op k).rule := rfl
  rw [hpending]
  constructor
  · rintro ⟨a, ha, hsame⟩
    obtain ⟨k, hk, rfl⟩ := List.mem_map.mp ha
    exact ⟨_, k, hk, rfl, hsame⟩
  · rintro ⟨i, k, hk, -, hsame⟩
    exact ⟨_, List.mem_map.mpr ⟨k, hk, rfl⟩, hsame⟩

/-- The pending deletions have their shadows, so the enclave finds out whether one of them has the
flow's match and priority, in whatever table. -/
theorem ecallAddFlow_admitted (h : Sane o) (hnew : o.enclave.NewAddr new.cr)
    (hlive : ∀ k ∈ o.deletions.values, o.enclave.Live (o.op k).rule) (hadm : Admitted o fm) :
    ((∃ i, FlowDeletionPending o fm i) ∧ ∃ s', ecallAddFlow o.enclave (flowArgs o fm new)
      = some (s', { AddFlowOut.init with isDeletionPending := true })) ∨
    ((∀ i, ¬ FlowDeletionPending o fm i) ∧ ecallAddFlow o.enclave (flowArgs o fm new)
      = ecallAddFlow o.enclave { flowArgs o fm new with pendingDeletions := [] }) := by
  have hlive' : ∀ a ∈ (flowArgs o fm new).pendingDeletions, o.enclave.Live a := by
    intro a ha
    obtain ⟨k, hk, rfl⟩ := List.mem_map.mp ha
    exact hlive k hk
  obtain ⟨b, hb, hiff⟩ := anyPendingEqual_init fm h.enclave.shadows hnew hlive'
  rw [sameFlow_iff] at hiff
  cases b with
  | true => exact .inl ⟨hiff.mp rfl, ecallAddFlow_pending h.enclave.shadows hnew hadm.2 hb⟩
  | false =>
    refine .inr ⟨fun i hi => ?_, ecallAddFlow_nonePending hb⟩
    exact Bool.false_ne_true (hiff.mpr ⟨i, hi⟩)

/-! ## Every run -/

/-- In every run in which no rules are evicted while the provider is clogged, the pending deletions
have their shadows, and adding a flow is serialised against them if and only if, when one concerns
the flow, the table of the flow admits it, and otherwise no other table has a pending deletion with
the flow's match and priority. -/
theorem serialised_iff (fm : FlowMod) (new : NewRule)
    (hrun : OfprotoReachable (fun o c => c.Allowed o ∧ c.SparesShadows o) o)
    (hnew : o.enclave.NewAddr new.cr) :
    (∀ k ∈ o.deletions.values, o.enclave.Live (o.op k).rule) ∧
      (Serialised o fm new ↔
        (FlowDeletionPending o fm fm.table → Admitted o fm) ∧
        (Admitted o fm → ∀ i, FlowDeletionPending o fm i → FlowDeletionPending o fm fm.table)) := by
  have hsane : Sane o := hrun.sane fun _ _ hc => hc.1
  have hlive : ∀ k ∈ o.deletions.values, o.enclave.Live (o.op k).rule := by
    intro k hk
    obtain ⟨e, he, rfl⟩ := List.mem_map.mp hk
    exact (hrun.pendingShadows e he).2.live
  refine ⟨hlive, fun hser => ⟨fun hpend => ?_, fun hadm i hi => ?_⟩,
    fun hcond => ⟨hlive, fun hpend construct => ?_, fun hnone hexists => ?_⟩⟩
  · by_contra hadm
    obtain ⟨o1, error, h1, hne⟩ := addFlow_not_admitted hadm new none
    obtain ⟨o2, h2⟩ := hser.postponed hpend none
    rw [h1, Option.some.injEq, Prod.mk.injEq, Option.some.injEq] at h2
    exact hne h2.2
  · by_contra hnone
    -- the enclave reports a pending deletion, and it would not if none were pending
    rcases ecallAddFlow_admitted hsane hnew hlive hadm with ⟨-, s', hecall⟩ | ⟨hno, -⟩
    · rw [hser.goesOn hnone hadm.1] at hecall
      exact ecallAddFlow_nil_ne hsane.enclave (by exact hnew) rfl hecall
    · exact hno i hi
  · have hadm := hcond.1 hpend
    rcases ecallAddFlow_admitted hsane hnew hlive hadm with ⟨-, s', hecall⟩ | ⟨hno, -⟩
    · exact addFlow_pending hadm.1 hecall construct
    · exact absurd hpend (hno _)
  · by_cases hro : ecallOftableIsReadonly o.enclave fm.table = true
    · exact (ecallAddFlow_readonly hro).trans (ecallAddFlow_readonly (by exact hro)).symm
    · have hadm : Admitted o fm := ⟨hexists, Bool.eq_false_iff.mpr hro⟩
      rcases ecallAddFlow_admitted hsane hnew hlive hadm with ⟨⟨i, hi⟩, -⟩ | ⟨-, heq⟩
      · exact absurd (hcond.2 hadm i hi) hnone
      · exact heq

end Serialised

/-! ## Flows of the same table and of another -/

/-- A flow that expires is being deleted, and the deletion has to wait. -/
def deletingFlow : Ofproto := (oneFlow.after (.clog true)).after (.deleteFlows [1#64])

theorem deletingFlow_reachable :
    OfprotoReachable (fun o c => c.Allowed o ∧ c.SparesShadows o) deletingFlow := by
  have h0 : OfprotoReachable (fun o c => c.Allowed o ∧ c.SparesShadows o) oneFlow :=
    (newBridge_reachable fun _ _ _ _ => ⟨⟨rfl, trivial⟩, trivial⟩).after
      ⟨show Enclave.NewAddr _ 1#64 by decide +kernel, trivial⟩
  have h1 := h0.after (c := .clog true) ⟨trivial, trivial⟩
  refine h1.after ⟨⟨fun a ha => ⟨0, ?_⟩, List.nodup_singleton _⟩, trivial⟩
  rw [List.mem_singleton.mp ha]
  decide +kernel

theorem deletingFlow_pending : FlowDeletionPending deletingFlow (expiringFlow 7#32 1) 0 :=
  ⟨1, by decide +kernel, by decide +kernel, 0, show _ ∈ _ by decide +kernel, by decide +kernel,
    minimatchEqual_iff_eq.mp (by decide +kernel), by decide +kernel⟩

/-- The same flow cannot be added before the deletion is done. -/
theorem deletingFlow_serialised :
    FlowDeletionPending deletingFlow (expiringFlow 7#32 1) 0 ∧
      Serialised deletingFlow (expiringFlow 7#32 1) (ruleAt 2#64) := by
  have hadm : Admitted deletingFlow (expiringFlow 7#32 1) :=
    ⟨.inr (by decide +kernel), by decide +kernel⟩
  have hiff := serialised_iff (expiringFlow 7#32 1) (ruleAt 2#64) deletingFlow_reachable
    (show Enclave.NewAddr _ 2#64 by decide +kernel)
  exact ⟨deletingFlow_pending, hiff.2.mpr ⟨fun _ => hadm, fun _ _ _ => deletingFlow_pending⟩⟩

/-- A flow for table 1. -/
def secondTableFlow : FlowMod := { expiringFlow 7#32 1 with tableId := 1 }

/-- A bridge with two tables. -/
def twoTables : Ofproto := ofprotoCreate 2 (fun _ => 5#16) fun _ => 6#16

/-- A flow of the second table is being deleted. -/
def deletingSecond : Ofproto :=
  ((twoTables.after (.addFlow secondTableFlow (ruleAt 1#64) none)).after (.clog true)).after
    (.deleteFlows [1#64])

/-- A flow has been evicted from a full table, and its deletion has to wait. -/
def evictedFlow : Ofproto :=
  ((oneFlow.after (.configure (.oftableMflowsSet 0 0))).after (.clog true)).after .evict

/-- The flow is postponed in the first table although nothing of that table is being deleted, and
after an eviction there is no shadow to compare a new flow with. -/
theorem deletingSecond_not_serialised :
    ¬ (∀ o fm new, OfprotoReachable (fun o c => c.Allowed o) o → o.enclave.NewAddr new.cr →
      Serialised o fm new) ∧
    ¬ (∀ o, OfprotoReachable (fun o c => c.Allowed o) o →
      ∀ k ∈ o.deletions.values, o.enclave.Live (o.op k).rule) := by
  refine ⟨fun hall => ?_, fun hall => ?_⟩
  · have h0 : OfprotoReachable (fun o c => c.Allowed o) twoTables :=
      .create 2 (fun _ => 5#16) (fun _ => 6#16) Nat.two_pos
    have h1 := (h0.after (c := .addFlow secondTableFlow (ruleAt 1#64) none)
      (show Enclave.NewAddr _ 1#64 by decide +kernel)).after (c := .clog true) trivial
    have h2 : OfprotoReachable (fun o c => c.Allowed o) deletingSecond := by
      refine h1.after ⟨fun a ha => ⟨1, ?_⟩, List.nodup_singleton _⟩
      rw [List.mem_singleton.mp ha]
      decide +kernel
    have hnone : ¬ FlowDeletionPending deletingSecond (expiringFlow 7#32 1) 0 := by
      rintro ⟨k, hk, htable, -⟩
      revert htable
      have hall : ∀ k ∈ deletingSecond.deletions.values,
          (deletingSecond.rule (deletingSecond.op k).rule).tableId ≠ 0 := by decide +kernel
      exact hall k hk
    have hser := hall deletingSecond (expiringFlow 7#32 1) (ruleAt 2#64) h2
      (show Enclave.NewAddr _ 2#64 by decide +kernel)
    have heq := hser.goesOn hnone (.inr (by decide +kernel))
    have hpending := congrArg (Option.map fun res => res.2.isDeletionPending) heq
    revert hpending
    decide +kernel
  · have h1 : OfprotoReachable (fun o c => c.Allowed o) evictedFlow :=
      ((oneFlow_reachable.after (c := .configure (.oftableMflowsSet 0 0)) ⟨rfl, trivial⟩).after
        (c := .clog true) trivial).after trivial
    have hlive := hall evictedFlow h1
    revert hlive
    decide +kernel

end OvsSgx
