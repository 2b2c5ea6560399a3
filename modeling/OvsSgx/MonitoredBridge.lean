/-
OvsSgx.MonitoredBridge — a bridge with monitors does what it does without.

Reports change neither the tables nor the operations, but they read the
shadow of the rule that they are about and crash without it. Most calls have
asked the enclave before whether the rule is hidden, so its shadow is there
and the call returns with monitors if and only if it returns without. For
`ofproto_evict` the enclave has said so while it destroyed the shadows, and
the call returns only if no report looks for one of them. Whenever it
returns, the bridge is left as without monitors, and so a run of a bridge
with monitors is a run of the bridge.
-/
import OvsSgx.CompletionFrames
import OvsSgx.MonitorRequests
import OvsSgx.OperationRuns

namespace OvsSgx

section Bridge

variable {A : Type} {u : MonitorLib A} {o o' : Ofproto} {m : MonitorMemory A}
  {s s' : MonitoredOfproto A} {a : UtAddr} {r : RuleId} {k : OpId} {g : GroupId}
  {abbrevOfconn : Option (MonitorConnId × U32)} {reason : FlowRemovedReason}

/-! ## Reports on a rule that has its shadow -/

theorem ofprotoRuleIsHidden_lookup {b : Bool} (h : ofprotoRuleIsHidden o a = some b) :
    ∃ r, sgxRuleFromUtCr o.enclave a = some r := by
  obtain ⟨priority, h1, -⟩ := Option.bind_eq_some_iff.mp h
  obtain ⟨r, hlook, -⟩ := Option.bind_eq_some_iff.mp h1
  exact ⟨r, hlook⟩

theorem reportFlags_isSome (hlook : sgxRuleFromUtCr o.enclave (o.op k).rule = some r)
    (event : UpdateEvent) (mons : List Ofmonitor) :
    ∀ flags, ∃ flags', reportFlags u o m k event mons flags = some flags' := by
  induction mons with
  | nil => exact fun flags => ⟨flags, rfl⟩
  | cons mon rest ih =>
    intro flags
    simp only [reportFlags, ecallClsRuleIsLooseMatch, hlook, Option.bind_eq_bind, Option.bind_some,
      Option.pure_def]
    split
    · split
      · exact ih _
      · exact ih flags
    · exact ih flags

theorem reportTo_isSome (hlook : sgxRuleFromUtCr o.enclave (o.op k).rule = some r)
    (event : UpdateEvent) (m : MonitorMemory A) (c : MonitorConnId) :
    ∃ m', reportTo u abbrevOfconn o k event reason m c = some m' := by
  obtain ⟨flags, hflags⟩ := reportFlags_isSome (u := u) (m := m) hlook event (m.monitors c)
    MonitorFlags.none
  unfold reportTo
  dsimp only
  split
  · exact ⟨m, rfl⟩
  · rw [hflags, Option.bind_eq_bind, Option.bind_some]
    split
    · exact ⟨m, rfl⟩
    · simp [flowChange, ecallMinimatchExpand, ecallCrPriority, hlook]

/-- A report on a rule that has its shadow returns. -/
theorem ofmonitorReport_isSome (hlook : sgxRuleFromUtCr o.enclave (o.op k).rule = some r)
    (m : MonitorMemory A) : ∃ m', ofmonitorReport u abbrevOfconn o k reason m = some m' := by
  unfold ofmonitorReport
  dsimp only
  generalize m.count (o.op k).rule (o.op k).type.event = m1
  induction m.allConns generalizing m1 with
  | nil => exact ⟨m1, rfl⟩
  | cons c rest ih =>
    have hreport : ∃ m2, reportTo u abbrevOfconn o k (o.op k).type.event reason m1 c = some m2 :=
      reportTo_isSome hlook _ m1 c
    obtain ⟨m2, h2⟩ := hreport
    obtain ⟨m', h'⟩ := ih m2
    exact ⟨m', by rw [List.foldlM_cons, h2]; exact h'⟩

/-! ## Reports on a rule whose shadow is gone -/

/-- A monitor asks for the deletion of rule `a`, as far as the rule in memory tells. -/
def Ofmonitor.asksForDeletion (u : MonitorLib A) (o : Ofproto) (m : MonitorMemory A) (a : UtAddr)
    (mon : Ofmonitor) : Bool :=
  mon.flags.delete && (mon.tableId == 0xff || mon.tableId == (o.rule a).tableId)
    && m.ruleHasOutPort u a mon.outPort

/-- The report on the deletion of rule `a` looks for its shadow: a connection that is to be told of
it has a monitor that asks for it. -/
def MonitorMemory.LooksUp (u : MonitorLib A) (o : Ofproto) (m : MonitorMemory A) (a : UtAddr) :
    Prop :=
  ∃ c ∈ m.allConns, ((m.conn c).monitorPaused = 0 ∨ m.addSeqno a ≤ (m.conn c).monitorPaused) ∧
    ∃ mon ∈ m.monitors c, mon.asksForDeletion u o m a = true

instance (u : MonitorLib A) (o : Ofproto) (m : MonitorMemory A) (a : UtAddr) :
    Decidable (m.LooksUp u o a) :=
  inferInstanceAs (Decidable (∃ c ∈ m.allConns,
    ((m.conn c).monitorPaused = 0 ∨ m.addSeqno a ≤ (m.conn c).monitorPaused) ∧
      ∃ mon ∈ m.monitors c, mon.asksForDeletion u o m a = true))

theorem reportFlags_deleted (htype : (o.op k).type = .delete)
    (hgone : sgxRuleFromUtCr o.enclave (o.op k).rule = none) (mons : List Ofmonitor)
    (flags : MonitorFlags) :
    reportFlags u o m k .deleted mons flags
      = if ∃ mon ∈ mons, mon.asksForDeletion u o m (o.op k).rule = true then none else some flags := by
  induction mons with
  | nil => simp [reportFlags]
  | cons mon rest ih =>
    have hasks : (mon.flags.meets UpdateEvent.deleted.flag
        && (mon.tableId == 0xff || mon.tableId == (o.rule (o.op k).rule).tableId)
        && m.operationHasOutPort u o k mon.outPort)
        = mon.asksForDeletion u o m (o.op k).rule := by
      simp [MonitorFlags.meets, UpdateEvent.flag, MonitorFlags.none, Ofmonitor.asksForDeletion,
        MonitorMemory.operationHasOutPort, htype]
    rw [reportFlags, hasks]
    by_cases hmon : mon.asksForDeletion u o m (o.op k).rule = true
    · simp [hmon, ecallClsRuleIsLooseMatch, hgone]
    · simp [hmon, ih]

theorem reportTo_deleted (htype : (o.op k).type = .delete)
    (hgone : sgxRuleFromUtCr o.enclave (o.op k).rule = none) (c : MonitorConnId) :
    reportTo u abbrevOfconn o k .deleted reason m c
      = if ((m.conn c).monitorPaused = 0 ∨ m.addSeqno (o.op k).rule ≤ (m.conn c).monitorPaused) ∧
          ∃ mon ∈ m.monitors c, mon.asksForDeletion u o m (o.op k).rule = true
        then none else some m := by
  unfold reportTo
  dsimp only
  by_cases hpaused : (m.conn c).monitorPaused = 0 ∨
      m.addSeqno (o.op k).rule ≤ (m.conn c).monitorPaused
  · rw [if_neg (by simp; omega), reportFlags_deleted htype hgone]
    by_cases hmon : ∃ mon ∈ m.monitors c, mon.asksForDeletion u o m (o.op k).rule = true
    · rw [if_pos hmon, if_pos ⟨hpaused, hmon⟩]
      rfl
    · rw [if_neg hmon, if_neg fun h => hmon h.2]
      rfl
  · rw [if_pos (by simp; omega), if_neg fun h => hpaused h.1]

theorem foldlM_reportTo_deleted (htype : (o.op k).type = .delete)
    (hgone : sgxRuleFromUtCr o.enclave (o.op k).rule = none) (conns : List MonitorConnId) :
    conns.foldlM (reportTo u abbrevOfconn o k .deleted reason) m
      = if ∃ c ∈ conns, ((m.conn c).monitorPaused = 0 ∨
            m.addSeqno (o.op k).rule ≤ (m.conn c).monitorPaused) ∧
          ∃ mon ∈ m.monitors c, mon.asksForDeletion u o m (o.op k).rule = true
        then none else some m := by
  induction conns with
  | nil => simp
  | cons c rest ih =>
    rw [List.foldlM_cons, reportTo_deleted htype hgone]
    split
    · rename_i hc
      rw [if_pos ⟨c, List.mem_cons_self .., hc⟩]
      rfl
    · rename_i hc
      rw [Option.bind_eq_bind, Option.bind_some, ih]
      simp only [List.mem_cons, exists_eq_or_imp, hc, false_or]

/-- The report on a deletion returns unless it looks for the shadow, and then it does nothing. -/
theorem ofmonitorReport_deleted (htype : (o.op k).type = .delete)
    (hgone : sgxRuleFromUtCr o.enclave (o.op k).rule = none) :
    ofmonitorReport u abbrevOfconn o k reason m
      = if m.LooksUp u o (o.op k).rule then none else some m := by
  unfold ofmonitorReport
  simp only [htype, OfoperationType.event, MonitorMemory.count]
  exact foldlM_reportTo_deleted htype hgone m.allConns

/-! ## Completing operations -/

/-- Completing operations does to the bridge what it does without monitors. -/
theorem completeOps_fst {ks : List OpId} : ∀ {isHidden : Option (List Bool)}
    {s s' : MonitoredOfproto A}, completeOps u abbrevOfconn reason ks isHidden s = some s' →
    ks.foldlM (completeOp isHidden.isSome) s.1 = some s'.1 := by
  induction ks with
  | nil =>
    intro isHidden s s' hs
    cases hs
    rfl
  | cons k rest ih =>
    intro isHidden s s' hs
    obtain ⟨⟨m, isHidden'⟩, h1, hs⟩ := Option.bind_eq_some_iff.mp hs
    obtain ⟨o1, h2, hs⟩ := Option.bind_eq_some_iff.mp hs
    have hhidden : ∃ b, operationIsHidden isHidden.isSome s.1 (s.1.op k) = some b ∧
        isHidden'.isSome = isHidden.isSome := by
      unfold reportOperation at h1
      unfold operationIsHidden
      split at h1
      · rename_i herr
        cases h1
        exact ⟨false, by simp [herr], rfl⟩
      · rename_i herr
        obtain ⟨⟨hidden, rest'⟩, h3, h1⟩ := Option.bind_eq_some_iff.mp h1
        have hrest : isHidden' = rest' := by
          dsimp only at h1
          split at h1
          · cases h1
            rfl
          · obtain ⟨m1, -, h1⟩ := Option.bind_eq_some_iff.mp h1
            cases h1
            rfl
        subst hrest
        cases isHidden with
        | none =>
          obtain ⟨b, hb, heq⟩ := Option.bind_eq_some_iff.mp h3
          cases heq
          exact ⟨hidden, by simp [herr, hb], rfl⟩
        | some l =>
          cases l with
          | nil => cases h3
          | cons b l =>
            cases h3
            exact ⟨false, by simp, rfl⟩
    obtain ⟨b, hb, hkeep⟩ := hhidden
    have hop : completeOp isHidden.isSome s.1 k = some (ofoperationDestroy o1 k) := by
      simp [completeOp, hb, h2]
    rw [List.foldlM_cons, hop, ← hkeep]
    exact ih hs

/-- If the enclave has to be asked which rules are hidden, monitors make no difference. -/
theorem completeOps_ofproto {ks : List OpId} : ∀ {s : MonitoredOfproto A},
    (completeOps u abbrevOfconn reason ks none s).map Prod.fst = ks.foldlM (completeOp false) s.1 := by
  induction ks with
  | nil => exact fun {s} => rfl
  | cons k rest ih =>
    intro s
    have hreport : ∀ b, operationIsHidden false s.1 (s.1.op k) = some b →
        ∃ m, reportOperation u abbrevOfconn reason none s k = some (m, none) := by
      intro b hb
      unfold operationIsHidden at hb
      unfold reportOperation
      by_cases herr : (s.1.op k).error.isSome = true
      · rw [if_pos herr]
        exact ⟨s.2, rfl⟩
      · rw [if_neg (by simpa using herr)] at hb
        obtain ⟨r, hlook⟩ := ofprotoRuleIsHidden_lookup hb
        have hreport : ∃ m, ofmonitorReport u abbrevOfconn s.1 k reason s.2 = some m :=
          ofmonitorReport_isSome hlook s.2
        obtain ⟨m, hm⟩ := hreport
        rw [if_neg herr]
        simp only [nextHidden, hb, Option.bind_eq_bind, Option.bind_some, Option.pure_def, hm]
        split
        · exact ⟨s.2, rfl⟩
        · exact ⟨m, rfl⟩
    rw [List.foldlM_cons]
    cases hb : operationIsHidden false s.1 (s.1.op k) with
    | none =>
      have hnone : reportOperation u abbrevOfconn reason none s k = none := by
        unfold operationIsHidden at hb
        split at hb
        · cases hb
        · rename_i herr
          simp only [reportOperation, nextHidden, hb, Option.bind_eq_bind, Option.bind_none]
          rw [if_neg (by simpa using herr)]
      simp [completeOps, completeOp, hnone, hb]
    | some b =>
      obtain ⟨m, hm⟩ := hreport b hb
      simp only [completeOps, completeOp, hm, hb, Option.bind_eq_bind, Option.bind_some]
      cases commitOperation (s.1.setPending (s.1.op k).rule none) (s.1.op k) with
      | none => rfl
      | some o1 => exact ih

/-! ### Deletions of rules whose shadows are gone -/

theorem MonitorMemory.LooksUp.congr (htable : (o'.rule a).tableId = (o.rule a).tableId) :
    m.LooksUp u o' a ↔ m.LooksUp u o a := by
  simp only [MonitorMemory.LooksUp, Ofmonitor.asksForDeletion, htable]

theorem reportOperation_deleted {hidden : Bool} {rest : List Bool}
    (htype : (o.op k).type = .delete) (herr : (o.op k).error = none)
    (hgone : sgxRuleFromUtCr o.enclave (o.op k).rule = none) :
    reportOperation u abbrevOfconn reason (some (hidden :: rest)) (o, m) k
      = if hidden = false ∧ m.LooksUp u o (o.op k).rule then none else some (m, some rest) := by
  have htouches : onlyTouches m o k = false := by simp [onlyTouches, htype]
  simp only [reportOperation, herr, Option.isSome_none, Bool.false_eq_true, if_false, nextHidden,
    Option.bind_eq_bind, Option.bind_some, htouches, Bool.or_false,
    ofmonitorReport_deleted htype hgone]
  cases hidden with
  | true => rfl
  | false =>
    by_cases hlooks : m.LooksUp u o (o.op k).rule
    · simp [hlooks]
    · simp [hlooks]

/-- The loop returns unless there is a report that looks for a shadow. -/
theorem completeOps_deletions {ks : List OpId} : ∀ {hidden : List Bool} {o : Ofproto},
    (∀ k ∈ ks, (o.op k).type = .delete ∧ (o.op k).error = none ∧
      sgxRuleFromUtCr o.enclave (o.op k).rule = none) → hidden.length = ks.length →
    ((∃ s', completeOps u abbrevOfconn reason ks (some hidden) (o, m) = some s') ↔
      ∀ e ∈ ks.zip hidden, e.2 = false → ¬ m.LooksUp u o (o.op e.1).rule) := by
  induction ks with
  | nil =>
    intro hidden o _ _
    exact iff_of_true ⟨(o, m), rfl⟩ (by simp)
  | cons k ks ih =>
    intro hidden o hks hlen
    obtain ⟨b, rest, rfl⟩ := List.exists_cons_of_length_eq_add_one hlen
    obtain ⟨htype, herr, hgone⟩ := hks k (List.mem_cons_self ..)
    have hcommit : commitOperation (o.setPending (o.op k).rule none) (o.op k)
        = some (ruleDealloc (o.setPending (o.op k).rule none) (o.op k).rule) := by
      simp [commitOperation, htype, herr]
    have hrevert : m.revert o k = m := by simp [MonitorMemory.revert, htype]
    -- the next round finds the same operations, tables and shadows
    let o1 := ofoperationDestroy (ruleDealloc (o.setPending (o.op k).rule none) (o.op k).rule) k
    have hlooks : ∀ a, m.LooksUp u o1 a ↔ m.LooksUp u o a := fun a =>
      MonitorMemory.LooksUp.congr
        ((setPending_rule _ _ a none).1.trans (setPending_rule o _ a none).1)
    have hlength : rest.length = ks.length := by simpa using hlen
    have hrest := ih (o := o1) (fun j hj => hks j (List.mem_cons_of_mem k hj)) hlength
    simp only [hlooks] at hrest
    simp only [completeOps, reportOperation_deleted htype herr hgone, List.zip_cons_cons,
      List.forall_mem_cons, Option.bind_eq_bind]
    by_cases hbad : b = false ∧ m.LooksUp u o (o.op k).rule
    · rw [if_pos hbad]
      exact iff_of_false (by simp) fun h => h.1 hbad.1 hbad.2
    · rw [if_neg hbad]
      simp only [Option.bind_some, hcommit, hrevert]
      exact hrest.trans (and_iff_right fun hb hl => hbad ⟨hb, hl⟩).symm

namespace MonitoredOfproto

theorem ofopgroupComplete_fst {isHidden : Option (List Bool)}
    (hs : ofopgroupComplete u s g isHidden = some s') :
    OvsSgx.ofopgroupComplete s.1 g isHidden.isSome = some s'.1 := by
  obtain ⟨s1, h1, hs⟩ := Option.bind_eq_some_iff.mp hs
  cases hs
  simp [OvsSgx.ofopgroupComplete, completeOps_fst h1]

/-- Completing a group of deletions of rules whose shadows are gone. -/
theorem ofopgroupComplete_deletions {hidden : List Bool}
    (hops : ∀ k ∈ (o.group g).ops, (o.op k).type = .delete ∧ (o.op k).error = none ∧
      sgxRuleFromUtCr o.enclave (o.op k).rule = none)
    (hlen : hidden.length = (o.group g).ops.length) :
    (∃ s', ofopgroupComplete u (o, m) g (some hidden) = some s') ↔
      ∀ e ∈ (o.group g).ops.zip hidden, e.2 = false → ¬ m.LooksUp u o (o.op e.1).rule := by
  constructor
  · rintro ⟨s', hs⟩
    obtain ⟨s1, h1, -⟩ := Option.bind_eq_some_iff.mp hs
    exact (completeOps_deletions hops hlen).mp ⟨s1, h1⟩
  · intro hunseen
    obtain ⟨s1, h1⟩ := (completeOps_deletions hops hlen).mpr hunseen
    exact ⟨_, Option.bind_eq_some_iff.mpr ⟨s1, h1, rfl⟩⟩

theorem ofopgroupSubmit_fst {isHidden : Option (List Bool)}
    (hs : ofopgroupSubmit u s g isHidden = some s') :
    OvsSgx.ofopgroupSubmit s.1 g isHidden.isSome = some s'.1 := by
  unfold ofopgroupSubmit at hs
  unfold OvsSgx.ofopgroupSubmit
  split at hs
  · rename_i hzero
    rw [if_pos hzero]
    exact ofopgroupComplete_fst hs
  · rename_i hrun
    cases hs
    rw [if_neg hrun]

theorem ofopgroupComplete_ofproto :
    (ofopgroupComplete u s g none).map Prod.fst = OvsSgx.ofopgroupComplete s.1 g false := by
  simp only [ofopgroupComplete, OvsSgx.ofopgroupComplete]
  generalize (if ((s.1.group g).ops.any fun k => (s.1.op k).error.isSome) || (s.2.origin g).packetError
    then none else (s.2.origin g).requester) = abbrevOfconn
  have hops : (completeOps u abbrevOfconn (s.2.origin g).reason (s.1.group g).ops none s).map
      Prod.fst = (s.1.group g).ops.foldlM (completeOp false) s.1 := completeOps_ofproto
  rw [← hops]
  cases completeOps u abbrevOfconn (s.2.origin g).reason (s.1.group g).ops none s with
  | none => rfl
  | some s1 => rfl

theorem ofopgroupSubmit_ofproto :
    (ofopgroupSubmit u s g none).map Prod.fst = OvsSgx.ofopgroupSubmit s.1 g false := by
  unfold ofopgroupSubmit OvsSgx.ofopgroupSubmit
  split
  · exact ofopgroupComplete_ofproto
  · rfl

theorem ofoperationComplete_ofproto :
    (ofoperationComplete u s k).map Prod.fst = OvsSgx.ofoperationComplete s.1 k none := by
  simp only [ofoperationComplete, OvsSgx.ofoperationComplete, true_or, and_true]
  split
  · split
    · exact ofopgroupComplete_ofproto
    · rfl
  · rfl

theorem foldlM_ofproto {f : MonitoredOfproto A → OpId → Option (MonitoredOfproto A)}
    {f' : Ofproto → OpId → Option Ofproto} (hf : ∀ s k, (f s k).map Prod.fst = f' s.1 k)
    (ks : List OpId) : ∀ s, (ks.foldlM f s).map Prod.fst = ks.foldlM f' s.1 := by
  induction ks with
  | nil => exact fun s => rfl
  | cons k ks ih =>
    intro s
    rw [List.foldlM_cons, List.foldlM_cons, ← hf]
    cases f s k with
    | none => rfl
    | some s1 => exact ih s1

theorem completeOperations_ofproto :
    (completeOperations u s).map Prod.fst = OvsSgx.completeOperations s.1 := by
  unfold completeOperations OvsSgx.completeOperations
  split
  · rfl
  · rw [← foldlM_ofproto (f := ofoperationComplete u) fun s k => ofoperationComplete_ofproto]
    cases s.1.completions.foldlM (ofoperationComplete u) s with
    | none => rfl
    | some s1 => rfl

/-! ## Calls that change the flow table -/

theorem deleteFlows_ofproto (rules : List UtAddr) (origin : Origin) :
    (deleteFlows u s rules origin).map Prod.fst = OvsSgx.deleteFlows s.1 rules := by
  simp only [deleteFlows, OvsSgx.deleteFlows, ofopgroupCreate, Option.map_bind,
    Option.bind_eq_bind, Function.comp_def, ofopgroupSubmit_ofproto]

theorem ofprotoRuleExpire_ofproto (a : UtAddr) (reason : FlowRemovedReason) :
    (ofprotoRuleExpire u s a reason).map Prod.fst = OvsSgx.ofprotoRuleExpire s.1 a := by
  unfold ofprotoRuleExpire OvsSgx.ofprotoRuleExpire
  split
  · rfl
  · simp only [ofopgroupCreate, Option.map_bind, Option.bind_eq_bind, Function.comp_def,
      ofopgroupSubmit_ofproto]

theorem ofprotoFlush_ofproto : (ofprotoFlush u s).map Prod.fst = OvsSgx.ofprotoFlush s.1 := by
  simp only [ofprotoFlush, OvsSgx.ofprotoFlush, ofopgroupCreate, Option.map_bind,
    Option.bind_eq_bind, Function.comp_def, ofopgroupSubmit_ofproto]

/-- The bridge and the error that a call returns. -/
def result (res : MonitoredOfproto A × Option Ofperr) : Ofproto × Option Ofperr := (res.1.1, res.2)

/-- A call that goes on after its group is submitted, and reads the bridge only. -/
theorem ofopgroupSubmit_bind {β : Type} {f : MonitoredOfproto A → Option β}
    {f' : Ofproto → Option β} (hf : ∀ s, f s = f' s.1) :
    (ofopgroupSubmit u s g none).bind f = (OvsSgx.ofopgroupSubmit s.1 g false).bind f' := by
  rw [← ofopgroupSubmit_ofproto (u := u)]
  cases ofopgroupSubmit u s g none with
  | none => rfl
  | some s1 => exact hf s1

theorem operateAddFlow_ofproto (cr : UtAddr) (out : AddFlowOut) (construct : Option Ofperr)
    (origin : Origin) :
    (operateAddFlow u s cr out construct origin).map result
      = OvsSgx.operateAddFlow s.1 cr out construct := by
  cases construct with
  | none =>
    simp only [operateAddFlow, OvsSgx.operateAddFlow, ofopgroupCreate, Option.map_bind,
      Option.bind_eq_bind, Function.comp_def]
    refine Option.bind_congr fun _ _ => Option.bind_congr fun _ _ => Option.bind_congr fun _ _ => ?_
    exact ofopgroupSubmit_bind fun s => rfl
  | some error =>
    simp only [operateAddFlow, OvsSgx.operateAddFlow, dropOperation, ofopgroupCreate,
      Option.map_bind, Option.bind_eq_bind, Function.comp_def]
    refine Option.bind_congr fun _ _ => ofopgroupSubmit_bind fun s => ?_
    cases backOut s.1 cr out.victim error with
    | none => rfl
    | some res => rfl

theorem finishAddFlow_ofproto (cr : UtAddr) (out : AddFlowOut) (construct : Option Ofperr)
    (origin : Origin) :
    (finishAddFlow u s cr out construct origin).map result
      = OvsSgx.finishAddFlow s.1 cr out construct := by
  unfold finishAddFlow OvsSgx.finishAddFlow
  split
  · rfl
  · split
    · rfl
    · split
      · rfl
      · dsimp only
        cases addFlowError (relinkExpirable s.1 cr out.victim) out with
        | some error =>
          dsimp only
          cases backOut (relinkExpirable s.1 cr out.victim) cr out.victim error with
          | none => rfl
          | some res => rfl
        | none => exact operateAddFlow_ofproto cr out construct origin

theorem addFlow_ofproto (fm : FlowModRequest A) (new : NewRule) (construct : Option Ofperr)
    (origin : Origin) :
    (addFlow u s fm new construct origin).map result
      = OvsSgx.addFlow s.1 fm.toFlowMod new construct := by
  unfold addFlow OvsSgx.addFlow
  split
  · rfl
  · dsimp only
    simp only [Option.map_bind, Option.bind_eq_bind, Function.comp_def]
    exact Option.bind_congr fun _ _ => finishAddFlow_ofproto new.cr _ construct origin

/-! ## Modifying flows -/

section Modify

variable [DecidableEq A]

/-- What `modify_flows__` knows of the rules. -/
def flows (s : MonitoredOfproto A) : FlowState A := ⟨s.1, s.2.flowCookie, s.2.ofpacts⟩

theorem modifyRule_flows (fm : FlowModRequest A) (a : UtAddr) :
    (modifyRule g fm s a).map flows = OvsSgx.modifyRule g fm s.flows a := by
  simp only [modifyRule, OvsSgx.modifyRule, Option.map_bind, Option.bind_eq_bind,
    Function.comp_def]
  refine Option.bind_congr fun e _ => ?_
  have hsame : s.flows.ofpacts a = s.2.ofpacts a := rfl
  by_cases hacts : fm.ofpacts = s.2.ofpacts a
  · rw [if_pos hacts, if_pos (hacts.trans hsame.symm)]
    cases OvsSgx.ofoperationComplete e.1 e.2 none with
    | none => rfl
    | some o => rfl
  · rw [if_neg hacts, if_neg fun heq => hacts (heq.trans hsame)]
    cases completeOperation e.1 a with
    | none => rfl
    | some o => rfl

theorem modifyLoop_flows (fm : FlowModRequest A) (modifiable : List Bool) {rules : List UtAddr} :
    ∀ {i : Nat} {s : MonitoredOfproto A} {error : Option Ofperr},
    (modifyLoop g fm modifiable i rules s error).map (fun res => (res.1.flows, res.2))
      = OvsSgx.modifyLoop g fm modifiable i rules s.flows error := by
  induction rules with
  | nil => exact rfl
  | cons a rest ih =>
    intro i s error
    simp only [modifyLoop, OvsSgx.modifyLoop, Option.map_bind, Option.bind_eq_bind,
      Function.comp_def]
    refine Option.bind_congr fun modify _ => ?_
    cases modify with
    | false => exact ih
    | true =>
      rw [← modifyRule_flows]
      simp only [if_true]
      cases modifyRule g fm s a with
      | none => rfl
      | some s1 => exact ih

theorem modifyFlows_ofproto (fm : FlowModRequest A) (rules : List UtAddr) (modifiable : List Bool)
    (origin : Origin) :
    (modifyFlows u s fm rules modifiable origin).map result
      = (OvsSgx.modifyFlows s.flows fm rules modifiable).map
        fun res => (res.1.ofproto, res.2) := by
  have hloop : OvsSgx.modifyLoop (OvsSgx.ofopgroupCreate s.1).2 fm modifiable 0 rules
      { s.flows with ofproto := (OvsSgx.ofopgroupCreate s.1).1 } (some .eperm) = _ :=
    (modifyLoop_flows fm modifiable (s := (s.ofopgroupCreate origin).1)).symm
  simp only [modifyFlows, OvsSgx.modifyFlows, Option.map_bind, Option.bind_eq_bind,
    Function.comp_def]
  have hbridge : s.flows.ofproto = s.1 := rfl
  rw [hbridge, hloop, Option.bind_map]
  exact Option.bind_congr fun res _ => ofopgroupSubmit_bind fun s => rfl

end Modify

/-! ## Evictions -/

/-- An eviction up to the submission of its group. -/
theorem ofprotoEvict_eq : ofprotoEvict u s = (startEviction s.1).bind fun e =>
    ofopgroupSubmit u (e.1, (s.ofopgroupCreate ⟨none, false, .eviction⟩).1.2) s.1.nextGroup
      (some e.2) := by
  simp only [ofprotoEvict, startEviction, ofopgroupCreate, OvsSgx.ofopgroupCreate,
    Option.bind_eq_bind, Option.bind_assoc, Option.pure_def, Option.bind_some]

theorem ofprotoEvict_fst (hs : ofprotoEvict u s = some s') :
    OvsSgx.ofprotoEvict s.1 = some s'.1 := by
  rw [ofprotoEvict_eq] at hs
  obtain ⟨e, hstart, hsubmit⟩ := Option.bind_eq_some_iff.mp hs
  rw [OvsSgx.ofprotoEvict_eq, hstart]
  exact ofopgroupSubmit_fst hsubmit

end MonitoredOfproto

end Bridge

/-! ## Runs -/

/-- The call into the bridge that a call makes, if it makes one. -/
def MonitorCall.flowCall {A : Type} : MonitorCall A → Option (FlowCall A)
  | .addFlow fm new construct _ => some (.bridge (.addFlow fm.toFlowMod new construct))
  | .deleteFlows rules _ => some (.bridge (.deleteFlows rules))
  | .modifyFlows fm rules modifiable _ => some (.modifyFlows fm rules modifiable)
  | .flush => some (.bridge .flush)
  | .evict => some (.bridge .evict)
  | .ruleExpire a _ => some (.bridge (.ruleExpire a))
  | .completeOperations => some (.bridge .completeOperations)
  | .clog clogged => some (.bridge (.clog clogged))
  | .configure c => some (.bridge (.configure c))
  | _ => none

section Runs

variable {A : Type} [DecidableEq A] {u : MonitorLib A} {s s' : MonitoredOfproto A}
  {c : MonitorCall A}

/-- A call leaves the bridge alone, or does to it what the call into the bridge does. -/
theorem MonitorCall.perform_ofproto (hs : c.perform u s = some s') :
    (c.flowCall = none ∧ s'.1 = s.1) ∨
      (∃ b, c.flowCall = some (.bridge b) ∧ b.run s.1 = some s'.1) ∨
      ∃ fm rules modifiable t error, c.flowCall = some (.modifyFlows fm rules modifiable) ∧
        OvsSgx.modifyFlows s.flows fm rules modifiable = some (t, error) ∧ t.ofproto = s'.1 := by
  have hbridge : ∀ {res : Option (MonitoredOfproto A)} {plain : Option Ofproto},
      res.map Prod.fst = plain → res = some s' → plain = some s'.1 := by
    intro res plain heq hres
    rw [← heq, hres, Option.map_some]
  cases c with
  | addFlow fm new construct origin =>
    obtain ⟨⟨t, error⟩, h1, rfl⟩ := Option.map_eq_some_iff.mp hs
    refine .inr (.inl ⟨_, rfl, ?_⟩)
    rw [BridgeCall.run, ← MonitoredOfproto.addFlow_ofproto (u := u) fm new construct origin, h1]
    rfl
  | deleteFlows rules origin =>
    exact .inr (.inl ⟨_, rfl, hbridge (MonitoredOfproto.deleteFlows_ofproto rules origin) hs⟩)
  | modifyFlows fm rules modifiable origin =>
    obtain ⟨⟨t, error⟩, h1, rfl⟩ := Option.map_eq_some_iff.mp hs
    have hflows := MonitoredOfproto.modifyFlows_ofproto (u := u) (s := s) fm rules modifiable origin
    rw [h1, Option.map_some, eq_comm, Option.map_eq_some_iff] at hflows
    obtain ⟨⟨f, error'⟩, h2, heq⟩ := hflows
    exact .inr (.inr ⟨fm, rules, modifiable, f, error', rfl, h2, congrArg Prod.fst heq⟩)
  | flush => exact .inr (.inl ⟨_, rfl, hbridge MonitoredOfproto.ofprotoFlush_ofproto hs⟩)
  | evict => exact .inr (.inl ⟨_, rfl, MonitoredOfproto.ofprotoEvict_fst hs⟩)
  | ruleExpire a reason =>
    exact .inr (.inl ⟨_, rfl, hbridge (MonitoredOfproto.ofprotoRuleExpire_ofproto a reason) hs⟩)
  | completeOperations =>
    exact .inr (.inl ⟨_, rfl, hbridge MonitoredOfproto.completeOperations_ofproto hs⟩)
  | clog clogged =>
    cases hs
    exact .inr (.inl ⟨_, rfl, rfl⟩)
  | configure c =>
    obtain ⟨e, h1, rfl⟩ := Option.map_eq_some_iff.mp hs
    exact .inr (.inl ⟨_, rfl, by rw [BridgeCall.run, h1]; rfl⟩)
  | request c reqs =>
    obtain ⟨⟨t, error⟩, h1, rfl⟩ := Option.map_eq_some_iff.mp hs
    refine .inl ⟨rfl, ?_⟩
    simp only [handleFlowMonitorRequest] at h1
    split at h1
    · cases h1
      rfl
    · obtain ⟨acc, -, h1⟩ := Option.bind_eq_some_iff.mp h1
      obtain ⟨changes, -, h1⟩ := Option.bind_eq_some_iff.mp h1
      cases h1
      rfl
  | run =>
    obtain ⟨m, -, h1⟩ := Option.bind_eq_some_iff.mp hs
    cases h1
    exact .inl ⟨rfl, rfl⟩
  | _ =>
    cases hs
    exact .inl ⟨rfl, rfl⟩

/-- A run of a bridge with monitors is a run of the bridge. -/
theorem MonitoredReachable.flows {G : MonitoredOfproto A → MonitorCall A → Prop}
    {G' : Ofproto → FlowCall A → Prop}
    (hG : ∀ s c b, G s c → c.flowCall = some b → G' s.1 b) (h : MonitoredReachable u G s) :
    FlowsReachable G' s.1 := by
  induction h with
  | create nTables enclaveRandom random acts monitorSeqno hn _ =>
    exact .create nTables enclaveRandom random hn
  | step c _ hc hs ih =>
    rcases c.perform_ofproto hs with
      ⟨-, heq⟩ | ⟨b, hb, hrun⟩ | ⟨fm, rules, modifiable, t, error, hb, hrun, heq⟩
    · rw [heq]
      exact ih
    · exact ih.bridge b (hG _ c _ hc hb) hrun
    · rw [← heq]
      exact .modifyFlows fm rules modifiable (by exact ih) (hG _ c _ hc hb) hrun

end Runs

end OvsSgx
