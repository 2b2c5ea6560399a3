/-
OvsSgx.FlowStatsTheorems — whose match a statistics entry has.

The reply has one entry for each rule that passes the filters, in the order
of the walk. The counter of `handle_flow_stats_request` runs over the arrays
of all visible rules, so the entry for the k-th rule that passes has the match
and the priority of the k-th visible rule. These are its own as long as no
rule was dropped before it.
-/
import OvsSgx.PagedCollection
import OvsSgx.FlushRefinement

namespace OvsSgx

/-! ## The arrays -/

theorem minimatchExpand_injective : Function.Injective minimatchExpand := by
  intro a b hab
  have hflow : miniflowExpand a.flow = miniflowExpand b.flow := congrArg Match.flow hab
  have hmask : miniflowExpand a.mask.masks = miniflowExpand b.mask.masks :=
    congrArg (fun m : Match => m.wc.masks) hab
  have hget : ∀ {x y : Miniflow}, miniflowExpand x = miniflowExpand y → x = y := by
    intro x y hxy
    refine miniflow_ext fun o => ?_
    rw [← u32_miniflowExpand, ← u32_miniflowExpand, hxy]
  refine Minimatch.ext_iff'.mpr ⟨hget hflow, ?_⟩
  exact Minimask.ext (hget hmask)

/-- One page or two: the arrays hold the visible matches. -/
theorem statsPages_eq {P : Match → Prop} {s : Enclave} {i nTables : Nat} {m : Match}
    (h : EnclaveOk P s) :
    statsPages s i nTables m = some ((visibleMatches s nTables i m).map (statsEntry s)) := by
  have hscan : ∀ start cap, ecallCollectRulesLooseStatsRequest s i nTables start cap m =
      PagedScan.scan (fun r => some (statsEntry s r)) start cap (visibleMatches s nTables i m) := by
    intro start cap
    rw [ecallCollectRulesLooseStatsRequest_eq h, PagedScan.scan_eq fun _ _ => rfl]
  unfold statsPages
  simp only [hscan]
  exact PagedScan.pages_eq fun _ _ => rfl

/-! ## The two loops -/

section Loops

variable {A : Type} {outputTo : A → BitVec 16 → Bool} {s : StatsState A} {req : FlowStatsRequest}

/-- Rule `a` passes the filters of a request. -/
def StatsState.passes (outputTo : A → BitVec 16 → Bool) (s : StatsState A) (req : FlowStatsRequest)
    (a : UtAddr) : Bool :=
  ofprotoRuleHasOutPort outputTo s.toFlowState a req.outPort &&
    cookieMatches s.toFlowState a req.cookie req.cookieMask

theorem statsLoop_pending {l : List UtAddr} (rules : List UtAddr)
    (h : ∃ a ∈ l, (s.ofproto.rule a).pending.isSome = true) :
    (statsLoop outputTo s req l rules).1 = some .postpone := by
  induction l generalizing rules with
  | nil => simp at h
  | cons a l ih =>
    unfold statsLoop
    split
    · rfl
    · rename_i ha
      have hl : ∃ b ∈ l, (s.ofproto.rule b).pending.isSome = true := by
        obtain ⟨b, hb, hp⟩ := h
        rcases List.mem_cons.mp hb with rfl | hb
        · exact absurd hp ha
        · exact ⟨b, hb, hp⟩
      split
      · exact ih _ hl
      · exact ih _ hl

theorem statsLoop_ok {l : List UtAddr} (rules : List UtAddr)
    (h : ∀ a ∈ l, (s.ofproto.rule a).pending = none) :
    statsLoop outputTo s req l rules = (none, rules ++ l.filter (s.passes outputTo req)) := by
  induction l generalizing rules with
  | nil => simp [statsLoop]
  | cons a l ih =>
    have hrest := fun rules => ih rules fun b hb => h b (List.mem_cons_of_mem a hb)
    have ha : (s.ofproto.rule a).pending.isSome = false := by simp [h a (by simp)]
    unfold statsLoop
    rw [if_neg (by simp [ha])]
    split
    · rename_i hp
      have hp' : s.passes outputTo req a = true := hp
      rw [hrest, List.filter_cons_of_pos hp']
      simp
    · rename_i hp
      have hp' : ¬ s.passes outputTo req a = true := hp
      rw [hrest, List.filter_cons_of_neg hp']

/-- The reply: the rules of the list, with the data of the arrays from the counter on. -/
theorem replyLoop_spec (s : StatsState A) (now : Nat → Int) {arrays : List StatsRule}
    {rules : List UtAddr} : ∀ {i : Nat},
    i + rules.length ≤ arrays.length →
    ∃ reply, replyLoop s now arrays i rules = some reply ∧ reply.map Prod.fst = rules ∧
      reply.map (fun e => (e.2.match, e.2.priority))
        = ((arrays.drop i).take rules.length).map (fun e => (e.match, e.priority)) ∧
      ∀ e ∈ reply, ∃ t, e.2 = flowStatsOf s t e.1 e.2.match e.2.priority := by
  induction rules with
  | nil => exact fun {i} _ => ⟨[], rfl, rfl, by simp, by simp⟩
  | cons a rest ih =>
    intro i hi
    have hlt : i < arrays.length := by
      simp only [List.length_cons] at hi
      omega
    have hrest : (i + 1) + rest.length ≤ arrays.length := by
      simp only [List.length_cons] at hi
      omega
    obtain ⟨reply, hs, hfst, hdata, hrep⟩ := ih hrest
    refine ⟨(a, flowStatsOf s (now i) a arrays[i].match arrays[i].priority) :: reply, ?_, ?_, ?_, ?_⟩
    · simp [replyLoop, List.getElem?_eq_getElem hlt, hs]
    · simp [hfst]
    · rw [List.drop_eq_getElem_cons hlt, List.length_cons, List.take_succ_cons, List.map_cons,
        List.map_cons, hdata]
      rfl
    · intro e he
      rcases List.mem_cons.mp he with rfl | he
      · exact ⟨now i, rfl⟩
      · exact hrep e he

end Loops

/-! ## Exact replies -/

section Exact

variable {P : Match → Prop} {A : Type} (outputTo : A → BitVec 16 → Bool) (s : StatsState A)
  (req : FlowStatsRequest)

/-- The visible rules that match a request, in the order of the walk. -/
def StatsState.visible : List RuleId :=
  visibleMatches s.ofproto.enclave s.ofproto.nTables req.tableId req.match

/-- Those of them that pass the filters. -/
def StatsState.selected : List RuleId :=
  (s.visible req).filter fun r => s.passes outputTo req (s.ofproto.enclave.oClsRule r)

/-- The match and priority of a rule. -/
def StatsState.key (r : RuleId) : Match × Nat :=
  (minimatchExpand (s.ofproto.enclave.clsRule r).match, (s.ofproto.enclave.clsRule r).priority)

/-- The reply has one entry for each visible rule that matches and passes the filters, and each
entry has the match and the priority of the rule that it reports on. -/
structure StatsExact (reply : List (UtAddr × FlowStats A)) : Prop where
  once : (reply.map Prod.fst).Nodup
  rules : ∀ a, a ∈ reply.map Prod.fst ↔ s.passes outputTo req a = true ∧
    ∃ r, LooselyMatches s.ofproto.enclave s.ofproto.nTables req.tableId req.match r ∧
      (s.ofproto.enclave.clsRule r).priority ≤ UINT16_MAX ∧ s.ofproto.enclave.oClsRule r = a
  reported : ∀ e ∈ reply, ∃ t, e.2 = flowStatsOf s t e.1 e.2.match e.2.priority
  own : ∀ e ∈ reply, ∀ r, s.ofproto.enclave.LiveRule r → s.ofproto.enclave.oClsRule r = e.1 →
    (e.2.match, e.2.priority) = s.key r

/-- The k-th rule that passes has the match and the priority of the k-th visible rule. -/
def StatsAligned : Prop := (s.selected outputTo req).map s.key <+: (s.visible req).map s.key

/-- No rule that passes is behind one that is dropped. -/
def DroppedLast : Prop :=
  (s.visible req).Pairwise fun r q => s.passes outputTo req (s.ofproto.enclave.oClsRule q) = true →
    s.passes outputTo req (s.ofproto.enclave.oClsRule r) = true

/-- No reply is sent: there is no such table, or a rule in question has a pending operation. -/
def StatsRefused : Prop :=
  (checkTableId s.ofproto req.tableId).isSome = true ∨ ∃ r ∈ s.visible req,
    (s.ofproto.rule (s.ofproto.enclave.oClsRule r)).pending.isSome = true

/-- The request is answered, and a reply is exact. -/
def FlowStatsExact (now : Nat → Int) : Prop :=
  ∃ res, handleFlowStatsRequest outputTo s now req = some res ∧
    ∀ reply, res = .ok reply → StatsExact outputTo s req reply

end Exact

section Iff

variable {P : Match → Prop} {A : Type} {outputTo : A → BitVec 16 → Bool} {s : StatsState A}
  {req : FlowStatsRequest}

/-- A selection is an initial segment if and only if all that it drops comes last. -/
theorem filter_prefix_iff {α β : Type} {key : α → β} {p : α → Bool} {l : List α}
    (hnodup : (l.map key).Nodup) :
    (l.filter p).map key <+: l.map key ↔ l.Pairwise fun a b => p b = true → p a = true := by
  induction l with
  | nil => simp
  | cons a l ih =>
    obtain ⟨ha, hnodup⟩ := List.nodup_cons.mp hnodup
    rw [List.pairwise_cons]
    by_cases hp : p a = true
    · rw [List.filter_cons_of_pos hp, List.map_cons, List.map_cons, List.cons_prefix_cons, ih hnodup]
      simp [hp]
    · rw [List.filter_cons_of_neg hp]
      have hempty : (l.filter p).map key <+: key a :: l.map key ↔ l.filter p = [] := by
        cases hf : l.filter p with
        | nil => simp
        | cons c f =>
          have hc : c ∈ l := (List.mem_filter.mp (hf ▸ List.mem_cons_self ..)).1
          simp only [List.map_cons, List.cons_prefix_cons, reduceCtorEq, iff_false, not_and]
          intro heq
          exact absurd (List.mem_map.mpr ⟨c, hc, heq⟩) ha
      rw [List.map_cons, hempty, List.filter_eq_nil_iff]
      constructor
      · intro hall
        refine ⟨fun b hb hpb => absurd hpb (hall b hb), ?_⟩
        exact List.pairwise_of_forall_mem_list fun b hb c hc hpc => absurd hpc (hall c hc)
      · exact fun hall b hb hpb => hp (hall.1 b hb hpb)

theorem visible_live (h : EnclaveOk P s.ofproto.enclave) :
    ∀ r ∈ s.visible req, s.ofproto.enclave.LiveRule r :=
  fun _ hr => looseMatches_live h (List.mem_filter.mp hr).1

theorem mem_visible (h : EnclaveOk P s.ofproto.enclave) (r : RuleId) :
    r ∈ s.visible req ↔
      LooselyMatches s.ofproto.enclave s.ofproto.nTables req.tableId req.match r ∧
        (s.ofproto.enclave.clsRule r).priority ≤ UINT16_MAX := by
  rw [StatsState.visible, visibleMatches, List.mem_filter, mem_looseMatches h, decide_eq_true_eq]

/-- The reply to a request that is not refused. -/
theorem handleFlowStatsRequest_ok (outputTo : A → BitVec 16 → Bool) (now : Nat → Int)
    (h : EnclaveOk P s.ofproto.enclave)
    (hok : ¬ StatsRefused s req) :
    ∃ reply, handleFlowStatsRequest outputTo s now req = some (.ok reply) ∧
      reply.map Prod.fst = (s.selected outputTo req).map s.ofproto.enclave.oClsRule ∧
      reply.map (fun e => (e.2.match, e.2.priority))
        = ((s.visible req).map s.key).take (s.selected outputTo req).length ∧
      ∀ e ∈ reply, ∃ t, e.2 = flowStatsOf s t e.1 e.2.match e.2.priority := by
  obtain ⟨htable, hpend⟩ := not_or.mp hok
  have hnone : ∀ a ∈ (s.visible req).map s.ofproto.enclave.oClsRule,
      (s.ofproto.rule a).pending = none := by
    intro a ha
    obtain ⟨r, hr, rfl⟩ := List.mem_map.mp ha
    by_contra hne
    exact hpend ⟨r, hr, Option.isSome_iff_ne_none.mpr hne⟩
  have hpages : statsPages s.ofproto.enclave req.tableId s.ofproto.nTables req.match
      = some ((s.visible req).map (statsEntry s.ofproto.enclave)) := statsPages_eq h
  have hcrs : ((s.visible req).map (statsEntry s.ofproto.enclave)).map StatsRule.cr
      = (s.visible req).map s.ofproto.enclave.oClsRule := by
    rw [List.map_map]
    rfl
  have hsel : ((s.visible req).map s.ofproto.enclave.oClsRule).filter (s.passes outputTo req)
      = (s.selected outputTo req).map s.ofproto.enclave.oClsRule := by
    rw [List.filter_map]
    rfl
  have hlen : 0 + ((s.selected outputTo req).map s.ofproto.enclave.oClsRule).length
      ≤ ((s.visible req).map (statsEntry s.ofproto.enclave)).length := by
    simp only [List.length_map, Nat.zero_add]
    exact List.length_filter_le _ _
  obtain ⟨reply, hreply, hfst, hdata, hrep⟩ := replyLoop_spec s now hlen
  refine ⟨reply, ?_, hfst, ?_, hrep⟩
  · have hcheck : checkTableId s.ofproto req.tableId = none := by simpa using htable
    have hloop : statsLoop outputTo s req ((s.visible req).map s.ofproto.enclave.oClsRule) []
        = (none, (s.selected outputTo req).map s.ofproto.enclave.oClsRule) := by
      rw [statsLoop_ok [] hnone, List.nil_append, hsel]
    simp only [handleFlowStatsRequest, hcheck, hpages, Option.bind_eq_bind, Option.bind_some, hcrs,
      hloop, hreply]
    rfl
  · rw [hdata, List.drop_zero, List.length_map, List.map_take, List.map_map]
    rfl

/-- A request that is refused gets an error. -/
theorem handleFlowStatsRequest_refused (outputTo : A → BitVec 16 → Bool) (now : Nat → Int)
    (h : EnclaveOk P s.ofproto.enclave)
    (hrefused : StatsRefused s req) :
    ∃ error, handleFlowStatsRequest outputTo s now req = some (.error error) := by
  cases hcheck : checkTableId s.ofproto req.tableId with
  | some error => exact ⟨error, by simp [handleFlowStatsRequest, hcheck]⟩
  | none =>
    rcases hrefused with htable | ⟨r, hr, hpend⟩
    · rw [hcheck] at htable
      cases htable
    · have hpages : statsPages s.ofproto.enclave req.tableId s.ofproto.nTables req.match
          = some ((s.visible req).map (statsEntry s.ofproto.enclave)) := statsPages_eq h
      have hloop : (statsLoop outputTo s req (((s.visible req).map
          (statsEntry s.ofproto.enclave)).map StatsRule.cr) []).1 = some .postpone := by
        refine statsLoop_pending [] ⟨s.ofproto.enclave.oClsRule r, ?_, hpend⟩
        rw [List.map_map]
        exact List.mem_map.mpr ⟨r, hr, rfl⟩
      refine ⟨.postpone, ?_⟩
      simp only [handleFlowStatsRequest, hcheck, hpages, Option.bind_eq_bind, Option.bind_some, hloop]
      rfl

/-- The entries have the data of their own rules if and only if the arrays are aligned. -/
theorem own_iff (h : EnclaveOk P s.ofproto.enclave) {reply : List (UtAddr × FlowStats A)}
    (hfst : reply.map Prod.fst = (s.selected outputTo req).map s.ofproto.enclave.oClsRule)
    (hdata : reply.map (fun e => (e.2.match, e.2.priority))
      = ((s.visible req).map s.key).take (s.selected outputTo req).length) :
    (∀ e ∈ reply, ∀ r, s.ofproto.enclave.LiveRule r → s.ofproto.enclave.oClsRule r = e.1 →
      (e.2.match, e.2.priority) = s.key r) ↔ StatsAligned outputTo s req := by
  have hlive : ∀ r ∈ s.selected outputTo req, s.ofproto.enclave.LiveRule r := fun r hr =>
    visible_live h r (List.mem_filter.mp hr).1
  have haligned : StatsAligned outputTo s req ↔
      reply.map (fun e => (e.2.match, e.2.priority)) = (s.selected outputTo req).map s.key := by
    rw [StatsAligned, List.prefix_iff_eq_take, List.length_map, hdata]
    exact eq_comm
  have hlen : reply.length = (s.selected outputTo req).length := by
    simpa using congrArg List.length hfst
  -- both sides, entry by entry
  have hget : ∀ k (hk : k < reply.length) (hk' : k < (s.selected outputTo req).length),
      s.ofproto.enclave.oClsRule (s.selected outputTo req)[k] = reply[k].1 := by
    intro k hk hk'
    have := List.getElem_of_eq hfst (i := k) (by simpa using hk)
    simpa using this.symm
  rw [haligned]
  constructor
  · intro hown
    refine List.ext_getElem (by simp [hlen]) fun k hk hk' => ?_
    rw [List.length_map] at hk hk'
    rw [List.getElem_map, List.getElem_map]
    exact hown _ (List.getElem_mem hk) _ (hlive _ (List.getElem_mem hk')) (hget k hk hk')
  · intro heq e he r hr hra
    obtain ⟨k, hk, rfl⟩ := List.getElem_of_mem he
    have hk' : k < (s.selected outputTo req).length := hlen ▸ hk
    have hrk : r = (s.selected outputTo req)[k] :=
      oClsRule_injective h hr (hlive _ (List.getElem_mem hk')) (hra.trans (hget k hk hk').symm)
    have := List.getElem_of_eq heq (i := k) (by simpa using hk)
    rw [List.getElem_map, List.getElem_map] at this
    rw [this, hrk]

theorem selected_nodup (h : EnclaveOk P s.ofproto.enclave) :
    ((s.selected outputTo req).map s.ofproto.enclave.oClsRule).Nodup := by
  have hnodup : (s.selected outputTo req).Nodup := ((looseMatches_nodup h).filter _).filter _
  exact hnodup.map_on fun r hr q hq => oClsRule_injective h
    (visible_live h r (List.mem_filter.mp hr).1) (visible_live h q (List.mem_filter.mp hq).1)

theorem mem_selected (h : EnclaveOk P s.ofproto.enclave) (a : UtAddr) :
    a ∈ (s.selected outputTo req).map s.ofproto.enclave.oClsRule ↔
      s.passes outputTo req a = true ∧
      ∃ r, LooselyMatches s.ofproto.enclave s.ofproto.nTables req.tableId req.match r ∧
        (s.ofproto.enclave.clsRule r).priority ≤ UINT16_MAX ∧ s.ofproto.enclave.oClsRule r = a := by
  simp only [List.mem_map, StatsState.selected, List.mem_filter, mem_visible h]
  constructor
  · rintro ⟨r, ⟨⟨hm, hp⟩, hpass⟩, rfl⟩
    exact ⟨hpass, r, hm, hp, rfl⟩
  · rintro ⟨hpass, r, hm, hp, rfl⟩
    exact ⟨r, ⟨⟨hm, hp⟩, hpass⟩, rfl⟩

/-- The rules of one table have different matches or priorities. -/
theorem visible_keys (h : EnclaveOk P s.ofproto.enclave) (hone : req.tableId ≠ 0xff) :
    ((s.visible req).map s.key).Nodup := by
  have hnodup : (s.visible req).Nodup := (looseMatches_nodup h).filter _
  have htable : ∀ r ∈ s.visible req, r ∈ s.ofproto.enclave.rules req.tableId := by
    intro r hr
    obtain ⟨⟨j, hj, hrj, -⟩, -⟩ := (mem_visible h r).mp hr
    unfold matchingTables at hj
    rw [if_neg hone] at hj
    split at hj
    · rw [← List.mem_singleton.mp hj]
      exact hrj
    · cases hj
  refine hnodup.map_on fun r hr q hq hrq => ?_
  obtain ⟨hmatch, hprio⟩ := Prod.mk.inj hrq
  exact (h.cls req.tableId).eq_of_match (htable r hr) (htable q hq)
    (minimatchExpand_injective hmatch) hprio

/-- A reply is exact if and only if the k-th rule that passes the filters looks like the k-th
visible rule, for each k. For a single table this is so when the filters drop no rule that the
walk visits before one that passes. -/
theorem flowStatsExact_iff (outputTo : A → BitVec 16 → Bool) (req : FlowStatsRequest)
    (now : Nat → Int) (h : EnclaveOk P s.ofproto.enclave) :
    (FlowStatsExact outputTo s req now ↔ StatsRefused s req ∨ StatsAligned outputTo s req) ∧
      (req.tableId ≠ 0xff → (StatsAligned outputTo s req ↔ DroppedLast outputTo s req)) := by
  refine ⟨?_, fun hone => filter_prefix_iff (visible_keys h hone)⟩
  by_cases hrefused : StatsRefused s req
  · obtain ⟨error, hs⟩ := handleFlowStatsRequest_refused outputTo now h hrefused
    refine iff_of_true ⟨_, hs, fun reply hreply => ?_⟩ (.inl hrefused)
    cases hreply
  · obtain ⟨reply, hs, hfst, hdata, hrep⟩ :=
      handleFlowStatsRequest_ok outputTo now h hrefused
    have hown := own_iff h hfst hdata
    constructor
    · rintro ⟨res, hres, hexact⟩
      rw [hs, Option.some.injEq] at hres
      exact .inr (hown.mp (hexact reply hres.symm).own)
    · rintro (hr | haligned)
      · exact absurd hr hrefused
      · refine ⟨_, hs, fun reply' hreply => ?_⟩
        cases hreply
        refine ⟨?_, fun a => ?_, hrep, hown.mpr haligned⟩
        · rw [hfst]
          exact selected_nodup h
        · rw [hfst]
          exact mem_selected h a

end Iff

/-! ## Two flows with different cookies -/

/-- The bridge with the flows for the first words 7 and 8; their cookies are 1 and 2. -/
def cookieFlows : StatsState Unit :=
  { ofproto := twoFlows
    flowCookie := fun a => if a = 1#64 then 1#64 else 2#64
    ofpacts := fun _ => ()
    times := fun _ => ⟨0, 0, 0, false⟩
    counters := fun _ => (0#64, 0#64) }

/-- A request for the flows with this cookie, whatever they match. -/
def cookieRequest (cookie : BitVec 64) : FlowStatsRequest :=
  ⟨0, matchCatchall, cookie, BitVec.allOnes 64, OFPP_ANY⟩

theorem cookieFlows_ok : EnclaveOk (fun _ => True) cookieFlows.ofproto.enclave :=
  (twoFlows_reachable.sane fun _ _ hc => hc).enclave.toEnclaveOk

/-- The request for the flow that is visited first gets an exact reply. -/
theorem cookieFlows_first :
    (cookieFlows.selected (fun _ _ => false) (cookieRequest 1#64)) = [0] ∧
      FlowStatsExact (fun _ _ => false) cookieFlows (cookieRequest 1#64) fun _ => 0 := by
  have hvis : cookieFlows.visible (cookieRequest 1#64) = [0, 1] := by decide +kernel
  have hlast : DroppedLast (fun _ _ => false) cookieFlows (cookieRequest 1#64) := by
    rw [DroppedLast, hvis]
    decide +kernel
  refine ⟨by decide +kernel, ?_⟩
  obtain ⟨hexact, hone⟩ := flowStatsExact_iff (fun _ _ => false) (cookieRequest 1#64) (fun _ => 0)
    cookieFlows_ok
  exact hexact.mpr (.inr ((hone (by decide)).mpr hlast))

/-- The first word of the match of each entry, with the rule that the entry is about. -/
def replyWords (res : Except Ofperr (List (UtAddr × FlowStats Unit))) : List (UtAddr × U32) :=
  match res with
  | .ok reply => reply.map fun e => (e.1, e.2.match.flow.u32 0)
  | .error _ => []

/-- The request for the second flow reports its counters under the match of the first. -/
theorem cookieFlows_second :
    ¬ ∀ (s : StatsState Unit) (req : FlowStatsRequest) (now : Nat → Int),
      EnclaveOk (fun _ => True) s.ofproto.enclave →
        FlowStatsExact (fun _ _ => false) s req now := by
  intro hall
  obtain ⟨res, hs, hexact⟩ := hall cookieFlows (cookieRequest 2#64) (fun _ => 0) cookieFlows_ok
  have hwords : (handleFlowStatsRequest (fun _ _ => false) cookieFlows (fun _ => 0)
      (cookieRequest 2#64)).map replyWords = some [(2#64, 7#32)] := by decide +kernel
  rw [hs, Option.map_some, Option.some.injEq] at hwords
  cases res with
  | error error => cases hwords
  | ok reply =>
    obtain ⟨e, he, hw⟩ := List.mem_map.mp (show (2#64, 7#32) ∈ reply.map _ by
      rw [show reply.map _ = _ from hwords]
      exact List.mem_singleton.mpr rfl)
    obtain ⟨ha, hword⟩ := Prod.mk.inj hw
    have hlive : cookieFlows.ofproto.enclave.LiveRule 1 :=
      cookieFlows_ok.live 0 1 (by decide +kernel)
    have haddr : cookieFlows.ofproto.enclave.oClsRule 1 = 2#64 := by decide +kernel
    have hown := (hexact reply rfl).own e he 1 hlive (haddr.trans ha.symm)
    have hmatch := congrArg (fun k : Match × Nat => k.1.flow.u32 0) hown
    have height : (cookieFlows.key 1).1.flow.u32 0 = 8#32 := by decide +kernel
    rw [height, hword] at hmatch
    cases hmatch

end OvsSgx
