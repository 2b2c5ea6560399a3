/-
OvsSgx.AggregateStats — aggregate statistics against flow statistics.

A controller may ask for the statistics of the flows that match, or for
their sums. The two handlers collect the rules in different ways: the one
with `collect_rules_loose`, which looks at hidden rules and then drops them,
the other with an ecall that never counts them. They report the same rules
all the same, unless a hidden rule has an operation pending.
-/
import Mathlib.Data.BitVec
import OvsSgx.Connections
import OvsSgx.FlowStatsTheorems
import OvsSgx.OperationDrain

namespace OvsSgx

/-! ## The sums -/

/-- What an aggregate reports of counters with these values: `UINT64_MAX` stands for one that is
not known. -/
def totalOf (counts : List (BitVec 64)) : BitVec 64 :=
  if BitVec.allOnes 64 ∈ counts then BitVec.allOnes 64 else counts.sum

/-- What the loop does with one counter of a rule: the sum so far, and whether one was unknown. -/
def addCounter (acc : BitVec 64 × Bool) (count : BitVec 64) : BitVec 64 × Bool :=
  (if count = BitVec.allOnes 64 then acc.1 else acc.1 + count, acc.2 || count == BitVec.allOnes 64)

theorem foldl_addCounter (counts : List (BitVec 64)) : ∀ acc : BitVec 64 × Bool,
    (counts.foldl addCounter acc).2 = (acc.2 || decide (BitVec.allOnes 64 ∈ counts)) ∧
    (BitVec.allOnes 64 ∉ counts → (counts.foldl addCounter acc).1 = acc.1 + counts.sum) := by
  induction counts with
  | nil => simp
  | cons count counts ih =>
    intro acc
    obtain ⟨hunknown, hsum⟩ := ih (addCounter acc count)
    rw [List.foldl_cons]
    refine ⟨hunknown.trans ?_, fun hnone => ?_⟩
    · by_cases hc : count = BitVec.allOnes 64
      · simp [addCounter, hc]
      · rw [addCounter, beq_eq_false_iff_ne.mpr hc, Bool.or_false, decide_eq_decide.mpr
          (List.mem_cons.trans (or_iff_right (Ne.symm hc)))]
    · rw [List.mem_cons, not_or] at hnone
      rw [hsum hnone.2, addCounter, if_neg (Ne.symm hnone.1), List.sum_cons, BitVec.add_assoc]

/-- The total is what is left when the unknown counters have been replaced. -/
theorem totalOf_eq (counts : List (BitVec 64)) :
    (if (counts.foldl addCounter (0#64, false)).2 then BitVec.allOnes 64
      else (counts.foldl addCounter (0#64, false)).1) = totalOf counts := by
  obtain ⟨hunknown, hsum⟩ := foldl_addCounter counts (0#64, false)
  rw [hunknown, Bool.false_or, totalOf]
  by_cases hmem : BitVec.allOnes 64 ∈ counts
  · rw [if_pos hmem, if_pos (decide_eq_true hmem)]
  · rw [if_neg hmem, if_neg (by simpa using hmem), hsum hmem, BitVec.zero_add]

theorem foldl_aggregateStep (counters : UtAddr → BitVec 64 × BitVec 64) {rules : List UtAddr} :
    ∀ {p b : BitVec 64} {n : BitVec 32} {up ub : Bool},
    rules.foldl (aggregateStep counters) (⟨p, b, n⟩, up, ub) =
      (⟨((rules.map fun a => (counters a).1).foldl addCounter (p, up)).1,
        ((rules.map fun a => (counters a).2).foldl addCounter (b, ub)).1,
        n + BitVec.ofNat 32 rules.length⟩,
        ((rules.map fun a => (counters a).1).foldl addCounter (p, up)).2,
        ((rules.map fun a => (counters a).2).foldl addCounter (b, ub)).2) := by
  induction rules with
  | nil => simp
  | cons a rules ih =>
    intro p b n up ub
    have hlen : n + 1#32 + BitVec.ofNat 32 rules.length = n + BitVec.ofNat 32 (rules.length + 1) := by
      rw [BitVec.ofNat_add, BitVec.add_assoc, BitVec.add_comm 1#32]
    rw [List.foldl_cons, List.map_cons, List.map_cons, List.foldl_cons, List.foldl_cons,
      List.length_cons, ← hlen]
    exact ih

theorem aggregateOf_eq (counters : UtAddr → BitVec 64 × BitVec 64) (rules : List UtAddr) :
    aggregateOf counters rules =
      ⟨totalOf (rules.map fun a => (counters a).1), totalOf (rules.map fun a => (counters a).2),
        BitVec.ofNat 32 rules.length⟩ := by
  rw [aggregateOf, foldl_aggregateStep, ← totalOf_eq, ← totalOf_eq]
  simp only [BitVec.zero_add]

/-! ## The rules -/

section Rules

variable {P : Match → Prop} {A : Type} {outputTo : A → BitVec 16 → Bool} {s : StatsState A}
  {req : FlowStatsRequest}

/-- The walk of `collect_rules_loose` over rules none of which is pending. -/
theorem collectLoop_selected {T : List RuleId} : ∀ rules : List UtAddr,
    (∀ r ∈ T, (s.ofproto.rule (s.ofproto.enclave.oClsRule r)).pending = none) →
    collectLoop outputTo s.toFlowState req.cookie req.cookieMask req.outPort
      (T.map (candidateOf s.ofproto.enclave)) rules =
      some (none, rules ++ ((T.filter fun r =>
          decide ((s.ofproto.enclave.clsRule r).priority ≤ UINT16_MAX) &&
            s.passes outputTo req (s.ofproto.enclave.oClsRule r)).map
        s.ofproto.enclave.oClsRule)) := by
  induction T with
  | nil => simp [collectLoop]
  | cons r T ih =>
    intro rules hpend
    have hr : (s.ofproto.rule (s.ofproto.enclave.oClsRule r)).pending.isSome = false := by
      simp [hpend r (by simp)]
    have hrest := fun rules => ih rules fun q hq => hpend q (List.mem_cons_of_mem r hq)
    have hvis : (!decide (UINT16_MAX < (s.ofproto.enclave.clsRule r).priority))
        = decide ((s.ofproto.enclave.clsRule r).priority ≤ UINT16_MAX) := by
      by_cases hle : (s.ofproto.enclave.clsRule r).priority ≤ UINT16_MAX
      · simp [hle, Nat.not_lt.mpr hle]
      · simp [hle, Nat.lt_of_not_le hle]
    rw [List.map_cons, collectLoop, candidateOf, if_neg (by simp [hr]), Option.bind_eq_bind,
      Option.bind_some, hvis, Bool.and_assoc]
    rw [List.filter_cons]
    change (if (decide ((s.ofproto.enclave.clsRule r).priority ≤ UINT16_MAX) &&
      s.passes outputTo req (s.ofproto.enclave.oClsRule r)) = true then _ else _) = _
    split <;> simp [hrest]

/-- No rule that matches the request, hidden or not, has an operation pending. -/
def NonePending (s : StatsState A) (req : FlowStatsRequest) : Prop :=
  ∀ r ∈ looseMatches s.ofproto.enclave s.ofproto.nTables req.tableId req.match,
    (s.ofproto.rule (s.ofproto.enclave.oClsRule r)).pending = none

/-- A request that is answered is about the rules that the flow statistics select. -/
theorem handleAggregateStatsRequest_ok (h : EnclaveOk P s.ofproto.enclave)
    (htable : checkTableId s.ofproto req.tableId = none) (hpend : NonePending s req) :
    handleAggregateStatsRequest outputTo s.toFlowState s.counters req =
      some (.ok (aggregateOf s.counters
        ((s.selected outputTo req).map s.ofproto.enclave.oClsRule))) := by
  obtain ⟨modifiable, hcand⟩ := looseCandidates_eq (i := req.tableId) (m := req.match) .optimized h
  have hsel : (looseMatches s.ofproto.enclave s.ofproto.nTables req.tableId req.match).filter
      (fun r => decide ((s.ofproto.enclave.clsRule r).priority ≤ UINT16_MAX) &&
        s.passes outputTo req (s.ofproto.enclave.oClsRule r)) = s.selected outputTo req := by
    rw [StatsState.selected, StatsState.visible, visibleMatches, List.filter_filter]
    simp only [Bool.and_comm]
  simp only [handleAggregateStatsRequest, collectRulesLoose, htable, hcand, Option.bind_eq_bind,
    Option.bind_some, collectLoop_selected [] hpend, List.nil_append, Option.pure_def, hsel]

theorem handleAggregateStatsRequest_refused (outputTo : A → BitVec 16 → Bool) (h : EnclaveOk P s.ofproto.enclave)
    (hno : ¬ (checkTableId s.ofproto req.tableId = none ∧ NonePending s req)) :
    ∃ e, handleAggregateStatsRequest outputTo s.toFlowState s.counters req = some (.error e) := by
  cases htable : checkTableId s.ofproto req.tableId with
  | some e => exact ⟨e, by simp [handleAggregateStatsRequest, collectRulesLoose, htable]⟩
  | none =>
    have hpend : ∃ r ∈ looseMatches s.ofproto.enclave s.ofproto.nTables req.tableId req.match,
        (s.ofproto.rule (s.ofproto.enclave.oClsRule r)).pending.isSome = true := by
      by_contra hnone
      refine hno ⟨htable, fun r hr => ?_⟩
      by_contra hp
      exact hnone ⟨r, hr, Option.isSome_iff_ne_none.mpr hp⟩
    obtain ⟨modifiable, hcand⟩ := looseCandidates_eq (i := req.tableId) (m := req.match)
      .optimized h
    obtain ⟨rules, hloop⟩ := collectLoop_pending (s := s.toFlowState) outputTo req.cookie
      req.cookieMask req.outPort _ [] hpend
    refine ⟨.postpone, ?_⟩
    simp [handleAggregateStatsRequest, collectRulesLoose, htable, hcand, hloop]

/-- In every run, a request for aggregate statistics that is answered gets the sums of what the
request for flow statistics would be answered with; and if it is refused although that one is
answered, then a hidden rule that matches has an operation pending. -/
theorem aggregateStats_agree [DecidableEq A] (outputTo : A → BitVec 16 → Bool)
    (req : FlowStatsRequest) (now : Nat → Int)
    (h : FlowsReachable (A := A) FlowCall.Allowed s.ofproto) :
    (∃ stats reply,
      handleAggregateStatsRequest outputTo s.toFlowState s.counters req = some (.ok stats) ∧
      handleFlowStatsRequest outputTo s now req = some (.ok reply) ∧
      stats = ⟨totalOf (reply.map fun e => e.2.packetCount),
        totalOf (reply.map fun e => e.2.byteCount), BitVec.ofNat 32 reply.length⟩) ∨
    ∃ e, handleAggregateStatsRequest outputTo s.toFlowState s.counters req = some (.error e) ∧
      ((∃ e', handleFlowStatsRequest outputTo s now req = some (.error e')) ∨
        ∃ r ∈ looseMatches s.ofproto.enclave s.ofproto.nTables req.tableId req.match,
          UINT16_MAX < (s.ofproto.enclave.clsRule r).priority ∧
          (s.ofproto.rule (s.ofproto.enclave.oClsRule r)).pending ≠ none) := by
  have hok := h.sane.enclave.toEnclaveOk
  by_cases hyes : checkTableId s.ofproto req.tableId = none ∧ NonePending s req
  · obtain ⟨htable, hpend⟩ := hyes
    have hstats : ¬ StatsRefused s req := by
      rintro (hbad | ⟨r, hr, hp⟩)
      · simp [htable] at hbad
      · simp [hpend r (List.mem_filter.mp hr).1] at hp
    obtain ⟨reply, hreply, hfst, -, hdata⟩ := handleFlowStatsRequest_ok outputTo now hok hstats
    refine .inl ⟨_, reply, handleAggregateStatsRequest_ok hok htable hpend, hreply, ?_⟩
    have hcounts : ∀ e ∈ reply, s.counters e.1 = (e.2.packetCount, e.2.byteCount) := by
      intro e he
      obtain ⟨t, ht⟩ := hdata e he
      rw [ht]
      rfl
    rw [aggregateOf_eq, ← hfst, List.length_map, List.map_map, List.map_map]
    congr 2
    · exact List.map_congr_left fun e he => by simp [hcounts e he]
    · exact List.map_congr_left fun e he => by simp [hcounts e he]
  · obtain ⟨e, he⟩ := handleAggregateStatsRequest_refused outputTo hok hyes
    refine .inr ⟨e, he, ?_⟩
    by_cases hstats : StatsRefused s req
    · exact .inl (handleFlowStatsRequest_refused outputTo now hok hstats)
    · -- the table exists and no visible rule is pending, so a hidden one is
      obtain ⟨htable, hvisible⟩ := not_or.mp hstats
      have hcheck : checkTableId s.ofproto req.tableId = none := by simpa using htable
      refine .inr ?_
      by_contra hnone
      refine hyes ⟨hcheck, fun r hr => ?_⟩
      by_contra hp
      rcases Nat.lt_or_ge UINT16_MAX (s.ofproto.enclave.clsRule r).priority with hlt | hle
      · exact hnone ⟨r, hr, hlt, hp⟩
      · exact hvisible ⟨r, List.mem_filter.mpr ⟨hr, decide_eq_true hle⟩,
          Option.isSome_iff_ne_none.mpr hp⟩

end Rules

/-! ### Two flows, one with an unknown counter -/

/-- The bridge with two flows; nobody knows how many packets the first one has seen. -/
def countedFlows : StatsState Unit :=
  { cookieFlows with
    counters := fun a => if a = 1#64 then (BitVec.allOnes 64, 60#64) else (2#64, 120#64) }

theorem twoFlows_allowed : OfprotoReachable (fun o c => c.Allowed o) twoFlows := by
  have h0 := newBridge_reachable (G := fun o c => c.Allowed o) fun _ _ _ _ => ⟨rfl, trivial⟩
  have h1 := h0.after (c := .addFlow (expiringFlow 7#32 1) (ruleAt 1#64) none)
    (show Enclave.NewAddr _ 1#64 by decide +kernel)
  exact h1.after (c := .addFlow (expiringFlow 8#32 1) (ruleAt 2#64) none)
    (show Enclave.NewAddr _ 2#64 by decide +kernel)

theorem countedFlows_flows :
    FlowsReachable (A := Unit) FlowCall.Allowed countedFlows.ofproto := by
  simp only [countedFlows, cookieFlows]
  exact twoFlows_allowed.flows fun _ _ hc => hc

/-- Both flows are counted, and the sum of the packets is unknown. -/
theorem countedFlows_agree :
    ∃ stats reply,
      handleAggregateStatsRequest (fun _ _ => false) countedFlows.toFlowState
        countedFlows.counters ⟨0, matchCatchall, 0#64, 0#64, OFPP_ANY⟩ = some (.ok stats) ∧
      handleFlowStatsRequest (fun _ _ => false) countedFlows (fun _ => 0)
        ⟨0, matchCatchall, 0#64, 0#64, OFPP_ANY⟩ = some (.ok reply) ∧
      stats = ⟨totalOf (reply.map fun e => e.2.packetCount),
        totalOf (reply.map fun e => e.2.byteCount), BitVec.ofNat 32 reply.length⟩ := by
  rcases aggregateStats_agree (fun _ _ => false)
    ⟨0, matchCatchall, 0#64, 0#64, OFPP_ANY⟩ (fun _ => 0) countedFlows_flows with hagree | ⟨e, he, -⟩
  · exact hagree
  · have hanswered : (handleAggregateStatsRequest (fun _ _ => false) countedFlows.toFlowState
        countedFlows.counters ⟨0, matchCatchall, 0#64, 0#64, OFPP_ANY⟩).map Except.toBool =
        some true := by decide +kernel
    rw [he] at hanswered
    cases hanswered

end OvsSgx
