/-
OvsSgx.OfprotoEvictTheorems — what `ecall_ofproto_evict` selects.

The ecall takes rules out of the eviction groups to find the next
candidates and puts all of them back at the end. For each table with
eviction it selects as many rules as the table is over its limit, or all
rules that are in its groups if these are fewer. The work arrays have room
for `start_index + buf_size` rules; with more the ecall writes beyond them.
The second call of `ofproto_evict` makes the same selection again.
-/
import OvsSgx.EvictionRuns
import OvsSgx.Ofproto

namespace OvsSgx

variable {P : Match → Prop} {s0 s s' : Enclave} {i capacity : Nat} {out : List EvictEntry}
  {T : List RuleId}

/-! ## Counting grouped rules -/

/-- The number of rules of table `i` that are in an eviction group. -/
def nGrouped (s : Enclave) (i : Nat) : Nat :=
  (s.rules i).countP fun r => (s.evictGroup r).isSome

/-- How many rules of table `i` are selected. -/
def nSelected (s : Enclave) (i : Nat) : Nat :=
  if ecallIsEvictionFieldsEnabled s i then
    min (intOf (ecallOftableClsCount s i) - intOf (ecallOftableMflows s i)).toNat (nGrouped s i)
  else 0

theorem intOf_of_lt {n : Nat} (h : n < 2 ^ 31) : intOf n = n := by
  unfold intOf
  rw [BitVec.toInt_eq_toNat_of_lt]
  · simp only [BitVec.toNat_ofNat]
    omega
  · simp only [BitVec.toNat_ofNat]
    omega

/-! ## The selection so far -/

/-- The entry `e` is for rule `r`, which is in a group of that table. -/
structure EntryOf (s : Enclave) (e : EvictEntry) (r : RuleId) : Prop where
  grouped : s.GroupedIn e.tableId r
  rule : e.rule = s.oClsRule r
  hash : e.hash = clsRuleHash (s.clsRule r) (BitVec.ofNat 32 e.tableId)

/-- In state `s` the rules `T` have been selected, with the entries `out`, from the bridge
`s0`. -/
structure Selection (P : Match → Prop) (s0 s : Enclave) (out : List EvictEntry) (T : List RuleId) :
    Prop where
  start : BridgeOk P s0
  entries : List.Forall₂ (EntryOf s0) out T
  nodup : T.Nodup
  regrouped : Regrouped s0 s fun j q => s0.GroupedIn j q ∧ q ∉ T
  fields : SameFields s0 s

theorem Selection.bridge (h : Selection P s0 s out T) : BridgeOk P s :=
  h.regrouped.bridge h.start fun j q hq => h.start.installed j q hq.1

theorem Selection.init (h : BridgeOk P s) : Selection P s s [] [] :=
  ⟨h, .nil, List.nodup_nil, ⟨h.eviction, SameRules.refl s, by simp⟩, fun _ => rfl⟩

/-- One rule fewer in the groups of table `i`. -/
theorem nGrouped_regrouped (h : BridgeOk P s) (h' : BridgeOk P s') {r : RuleId}
    (hre : Regrouped s s' fun j q => s.GroupedIn j q ∧ q ≠ r) (hr : s.GroupedIn i r) :
    nGrouped s i = nGrouped s' i + 1 := by
  have hmem := h.installed i r hr
  have hnodup := h.toEnclaveOk.rules_nodup i
  have hperm := List.perm_cons_erase hmem
  have hiff : ∀ q ∈ s.rules i, (s'.evictGroup q).isSome = true ↔
      (s.evictGroup q).isSome = true ∧ q ≠ r := by
    intro q hq
    rw [← h'.groupedIn_iff (by rw [hre.same.rules]; exact hq), ← h.groupedIn_iff hq, hre.groupedIn]
  unfold nGrouped
  rw [hre.same.rules, hperm.countP_eq, hperm.countP_eq, List.countP_cons, List.countP_cons]
  have hrest : ((s.rules i).erase r).countP (fun q => (s.evictGroup q).isSome)
      = ((s.rules i).erase r).countP (fun q => (s'.evictGroup q).isSome) := by
    refine List.countP_congr fun q hq => ?_
    obtain ⟨hqr, hq⟩ := hnodup.mem_erase_iff.mp hq
    rw [hiff q hq]
    simp [hqr]
  have hself : (s.evictGroup r).isSome = true := (h.groupedIn_iff hmem).mp hr
  have hself' : (s'.evictGroup r).isSome = false := by
    rw [← Bool.not_eq_true, hiff r hmem]
    simp
  rw [hrest, if_pos hself, hself']
  simp

/-! ## The loop over one table -/

/-- The choice in one round of the loop. -/
theorem Selection.choose (h : Selection P s0 s out T) (hen : (s.oftable i).evictionFields ≠ none) :
    (ecallChooseRuleToEvict s i = none ∧ nGrouped s i = 0) ∨
    ∃ r g, ecallChooseRuleToEvict s i = some (s.oClsRule r) ∧ 0 < nGrouped s i ∧
      s.GroupedIn i r ∧ s.evictGroup r = some g ∧
      sgxRuleFromUtCr s (s.oClsRule r) = some r := by
  have hb := h.bridge
  cases hc : ecallChooseRuleToEvict s i with
  | none =>
    refine .inl ⟨rfl, List.countP_eq_zero.mpr fun r hr hsome => ?_⟩
    have hgr := (hb.groupedIn_iff hr).mpr hsome
    have := (ecallChooseRuleToEvict_eq_none hb.eviction hen).mp hc r hgr
    rw [hb.allEvictable r (hb.live i r hr)] at this
    cases this
  | some a =>
    obtain ⟨r, rfl, hgr, -⟩ := ecallChooseRuleToEvict_some hb.eviction hc
    have hr := hb.installed i r hgr
    obtain ⟨g, -, hg⟩ := hgr
    refine .inr ⟨r, g, rfl, List.countP_pos_iff.mpr ⟨r, hr, by simp [hg]⟩, ?_, hg,
      hb.shadows.lookup_self (hb.live i r hr)⟩
    exact ⟨g, hb.group_mem hr hg, hg⟩

/-- Selecting one more rule. -/
theorem Selection.step (h : Selection P s0 s out T) {r : RuleId} (hgr : s.GroupedIn i r)
    {e : EvictEntry} (hi : e.tableId = i) (hrule : e.rule = s.oClsRule r)
    (hhash : e.hash = clsRuleHash (s.clsRule r) (BitVec.ofNat 32 i)) :
    ∃ s', ecallEvgRemoveRule s i (s.oClsRule r) = some s' ∧
      Selection P s0 s' (out ++ [e]) (T ++ [r]) ∧
      nGrouped s i = nGrouped s' i + 1 := by
  have hb := h.bridge
  have hr := hb.installed i r hgr
  obtain ⟨s', hs', hfields, hre⟩ := ecallEvgRemoveRule_ok hb.eviction
    (hb.shadows.lookup_self (hb.live i r hr)) fun k hk => hb.group_mem hr hk
  obtain ⟨hgr0, hrT⟩ := (h.regrouped.groupedIn i r).mp hgr
  have hsel : Selection P s0 s' (out ++ [e]) (T ++ [r]) := by
    refine ⟨h.start, List.rel_append h.entries ?_, ?_, ⟨hre.ok, h.regrouped.same.trans hre.same,
      fun j q => ?_⟩, fun j => (hfields j).trans (h.fields j)⟩
    · refine .cons ⟨hi ▸ hgr0, hrule.trans ?_, hhash.trans ?_⟩ .nil
      · rw [h.regrouped.same.oClsRule]
      · rw [h.regrouped.same.clsRule, hi]
    · rw [List.nodup_append]
      refine ⟨h.nodup, List.nodup_singleton r, fun a ha b hb hab => ?_⟩
      rw [List.mem_singleton.mp hb] at hab
      exact hrT (hab ▸ ha)
    · rw [hre.groupedIn, h.regrouped.groupedIn]
      simp [and_assoc]
  exact ⟨s', hs', hsel, nGrouped_regrouped hb hsel.bridge hre hgr⟩

/-- The loop selects until the table is down to its limit or has no grouped rule left; it
fails if and only if the work arrays are too small. -/
theorem evictLoop_spec (fuel : Nat) : ∀ {s : Enclave} {out : List EvictEntry} {T : List RuleId},
    Selection P s0 s out T → (s.oftable i).evictionFields ≠ none → out.length ≤ capacity →
    (evictLoop i capacity fuel s out = none ∧ capacity < out.length + min fuel (nGrouped s i)) ∨
    ∃ s' new Ti, evictLoop i capacity fuel s out = some (s', out ++ new) ∧
      Selection P s0 s' (out ++ new) (T ++ Ti) ∧ (out ++ new).length ≤ capacity ∧
      Ti.length = min fuel (nGrouped s i) ∧ ∀ r ∈ Ti, s0.GroupedIn i r := by
  induction fuel with
  | zero =>
    intro s out T h _ hcap
    exact .inr ⟨s, [], [], by simp [evictLoop], by simpa using h, by simpa using hcap, by simp, by simp⟩
  | succ fuel ih =>
    intro s out T h hen hcap
    rcases h.choose hen with ⟨hc, hn⟩ | ⟨r, g, hc, hn, hgr, hg, hlook⟩
    · exact .inr ⟨s, [], [], by simp [evictLoop, hc], by simpa using h, by simpa using hcap,
        by simp [hn], by simp⟩
    · by_cases hfull : capacity ≤ out.length
      · exact .inl ⟨by simp [evictLoop, hc, hfull], by omega⟩
      · let e : EvictEntry := ⟨i, s.oClsRule r, clsRuleHash (s.clsRule r) (BitVec.ofNat 32 i),
          (s.sizeNode g).priority, (s.ruleEvgNode r).priority⟩
        obtain ⟨s1, hs1, hsel1, hn1⟩ := h.step (e := e) hgr rfl rfl rfl
        have hloop : evictLoop i capacity (fuel + 1) s out
            = evictLoop i capacity fuel s1 (out ++ [e]) := by
          simp [evictLoop, hc, hfull, ecallClsRuleHash, hlook, hg, hs1, e]
        have hen1 : (s1.oftable i).evictionFields ≠ none := by
          rw [hsel1.fields i, ← h.fields i]
          exact hen
        have hgr0 := ((h.regrouped.groupedIn i r).mp hgr).1
        rw [hloop]
        rcases ih hsel1 hen1 (by simp; omega) with ⟨hnone, hlt⟩ | ⟨s', new, Ti, h1, h2, h3, h4, h5⟩
        · simp only [List.length_append, List.length_singleton] at hlt
          exact .inl ⟨hnone, by omega⟩
        · refine .inr ⟨s', e :: new, r :: Ti, by simpa using h1, by simpa using h2,
            by simpa using h3, ?_, ?_⟩
          · rw [List.length_cons, h4]
            omega
          · intro q hq
            rcases List.mem_cons.mp hq with rfl | hq
            · exact hgr0
            · exact h5 q hq

/-! ## All tables -/

/-- As long as no rule of table `i` has been selected, its groups are as at the start. -/
theorem Selection.nGrouped_eq (h : Selection P s0 s out T) (hT : ∀ r ∈ T, ¬ s0.GroupedIn i r) :
    nGrouped s i = nGrouped s0 i := by
  unfold nGrouped
  rw [h.regrouped.same.rules]
  refine List.countP_congr fun q hq => ?_
  have hq' : q ∈ s.rules i := by rw [h.regrouped.same.rules]; exact hq
  rw [← h.bridge.groupedIn_iff hq', ← h.start.groupedIn_iff hq, h.regrouped.groupedIn]
  exact ⟨And.left, fun hgr => ⟨hgr, fun hqT => hT q hqT hgr⟩⟩

theorem evictTable_spec (h : Selection P s0 s out T) (hcap : out.length ≤ capacity)
    (hT : ∀ r ∈ T, ¬ s0.GroupedIn i r) :
    (evictTable capacity (s, out) i = none ∧ capacity < out.length + nSelected s0 i) ∨
    ∃ s' new Ti, evictTable capacity (s, out) i = some (s', out ++ new) ∧
      Selection P s0 s' (out ++ new) (T ++ Ti) ∧ (out ++ new).length ≤ capacity ∧
      Ti.length = nSelected s0 i ∧ ∀ r ∈ Ti, s0.GroupedIn i r := by
  have hen : ecallIsEvictionFieldsEnabled s i = ecallIsEvictionFieldsEnabled s0 i := by
    simp only [ecallIsEvictionFieldsEnabled, h.fields i]
  have hcount : ecallOftableClsCount s i = ecallOftableClsCount s0 i := by
    simp only [ecallOftableClsCount, h.regrouped.same.cls]
  have hmax : ecallOftableMflows s i = ecallOftableMflows s0 i := h.regrouped.same.maxFlows i
  unfold evictTable nSelected
  simp only [hen, hcount, hmax]
  cases hb : ecallIsEvictionFieldsEnabled s0 i with
  | false =>
    exact .inr ⟨s, [], [], by simp, by simpa using h, by simpa using hcap, rfl, by simp⟩
  | true =>
    have hfields : (s.oftable i).evictionFields ≠ none :=
      isEvictionFieldsEnabled_iff.mp (hen.trans hb)
    have hspec := evictLoop_spec (intOf (ecallOftableClsCount s0 i)
      - intOf (ecallOftableMflows s0 i)).toNat h hfields hcap
    rw [h.nGrouped_eq hT] at hspec
    simpa using hspec

/-- What the loop over the tables `l` selects: from each table its share. -/
theorem foldlM_evictTable_spec (capacity : Nat) {l : List Nat} : ∀ {s : Enclave} {out : List EvictEntry}
    {T : List RuleId}, Selection P s0 s out T → out.length ≤ capacity → l.Nodup →
    (∀ i ∈ l, ∀ r ∈ T, ¬ s0.GroupedIn i r) →
    (l.foldlM (evictTable capacity) (s, out) = none ∧
      capacity < out.length + (l.map (nSelected s0)).sum) ∨
    ∃ s' new Tl, l.foldlM (evictTable capacity) (s, out) = some (s', out ++ new) ∧
      Selection P s0 s' (out ++ new) (T ++ Tl) ∧ (out ++ new).length ≤ capacity ∧
      Tl.length = (l.map (nSelected s0)).sum ∧ (∀ r ∈ Tl, ∃ i ∈ l, s0.GroupedIn i r) ∧
      ∀ i ∈ l, Tl.countP (· ∈ s0.rules i) = nSelected s0 i := by
  induction l with
  | nil =>
    intro s out T h hcap _ _
    exact .inr ⟨s, [], [], by simp, by simpa using h, by simpa using hcap, rfl, by simp, by simp⟩
  | cons i l ih =>
    intro s out T h hcap hnodup hT
    obtain ⟨hil, hnodup⟩ := List.nodup_cons.mp hnodup
    rw [List.foldlM_cons]
    rcases evictTable_spec h hcap (hT i (List.mem_cons_self ..)) with
      ⟨hnone, hlt⟩ | ⟨s1, new1, Ti, h1, hsel1, hcap1, hlen1, hgr1⟩
    · refine .inl ⟨by rw [hnone]; rfl, ?_⟩
      rw [List.map_cons, List.sum_cons]
      omega
    · have hT1 : ∀ j ∈ l, ∀ r ∈ T ++ Ti, ¬ s0.GroupedIn j r := by
        intro j hj r hr hgr
        rcases List.mem_append.mp hr with hr | hr
        · exact hT j (List.mem_cons_of_mem _ hj) r hr hgr
        · have := h.start.eviction.table_unique (hgr1 r hr) hgr
          exact hil (this ▸ hj)
      have hone : ∀ r ∈ Ti, ∀ j, r ∈ s0.rules j ↔ j = i := by
        intro r hr j
        have hi := h.start.installed i r (hgr1 r hr)
        exact ⟨fun hj => h.start.disjoint j i r hj hi, fun hj => hj ▸ hi⟩
      have hlen : out.length + Ti.length = (out ++ new1).length := by
        have := hsel1.entries.length_eq
        have := h.entries.length_eq
        simp only [List.length_append] at *
        omega
      rcases ih hsel1 hcap1 hnodup hT1 with
        ⟨hnone, hlt⟩ | ⟨s', new, Tl, h2, hsel, hcap2, hlen2, hgr2, hcnt⟩
      · refine .inl ⟨by rw [h1]; exact hnone, ?_⟩
        rw [List.map_cons, List.sum_cons]
        omega
      · refine .inr ⟨s', new1 ++ new, Ti ++ Tl, ?_, ?_, ?_, ?_, ?_, ?_⟩
        · rw [h1, ← List.append_assoc]
          exact h2
        · simpa only [List.append_assoc] using hsel
        · simpa only [List.append_assoc] using hcap2
        · rw [List.length_append, hlen1, hlen2, List.map_cons, List.sum_cons]
        · intro r hr
          rcases List.mem_append.mp hr with hr | hr
          · exact ⟨i, List.mem_cons_self .., hgr1 r hr⟩
          · obtain ⟨j, hj, hgr⟩ := hgr2 r hr
            exact ⟨j, List.mem_cons_of_mem _ hj, hgr⟩
        · intro j hj
          rw [List.countP_append]
          rcases List.mem_cons.mp hj with rfl | hjl
          · have hall : Ti.countP (· ∈ s0.rules j) = Ti.length :=
              List.countP_eq_length.mpr fun r hr => by simpa using (hone r hr j).mpr rfl
            have hnone : Tl.countP (· ∈ s0.rules j) = 0 := by
              refine List.countP_eq_zero.mpr fun r hr => ?_
              obtain ⟨k, hk, hgr⟩ := hgr2 r hr
              simp only [decide_eq_true_eq]
              intro hrj
              have := h.start.disjoint j k r hrj (h.start.installed k r hgr)
              exact hil (this ▸ hk)
            rw [hall, hnone, hlen1]
            rfl
          · have hnone : Ti.countP (· ∈ s0.rules j) = 0 := by
              refine List.countP_eq_zero.mpr fun r hr => ?_
              simp only [decide_eq_true_eq, hone r hr j]
              rintro rfl
              exact hil hjl
            rw [hnone, hcnt j hjl, Nat.zero_add]

/-! ## Putting the rules back -/

theorem reinsertRule_spec {e : EvictEntry} {r : RuleId} {T : List RuleId}
    (h : BridgeOk P s0) (he : EntryOf s0 e r) (hnodup : r ∉ T)
    (hre : Regrouped s0 s fun j q => s0.GroupedIn j q ∧ q ∉ r :: T) (hfields : SameFields s0 s) :
    ∃ s', reinsertRule s e = some s' ∧
      (Regrouped s0 s' fun j q => s0.GroupedIn j q ∧ q ∉ T) ∧ SameFields s0 s' := by
  have hr := h.installed _ r he.grouped
  have hlook : sgxRuleFromUtCr s e.rule = some r := by
    rw [hre.same.lookup, he.rule]
    exact h.shadows.lookup_self (h.live _ r hr)
  have hen : (s.oftable e.tableId).evictionFields ≠ none := by
    rw [hfields e.tableId]
    intro hnone
    obtain ⟨g, hg, -⟩ := he.grouped
    rw [h.eviction.disabled _ hnone] at hg
    cases hg
  have hfree : s.evictGroup r = none := by
    cases hg : s.evictGroup r with
    | none => rfl
    | some g =>
      obtain ⟨j, hj⟩ := hre.ok.groupedIn hg
      exact absurd (List.mem_cons_self ..) ((hre.groupedIn j r).mp hj).2
  have hlt : r < s.nextRule := by
    rw [hre.same.nextRule]
    exact h.shadows.rule_lt (h.live _ r hr)
  obtain ⟨s', hs', hfields', hadd⟩ := ecallEvgAddRule_ok hre.ok hlook hen hfree hlt e.groupPrio
    e.rulePrio (s.ruleEvgNode r)
  refine ⟨s', by simp [reinsertRule, hlook, hs'], ⟨hadd.ok, hre.same.trans hadd.same, fun j q => ?_⟩,
    fun j => (hfields' j).trans (hfields j)⟩
  rw [hadd.groupedIn, hre.groupedIn]
  constructor
  · rintro (⟨hgr, hq⟩ | ⟨rfl, rfl⟩)
    · exact ⟨hgr, fun hqT => hq (List.mem_cons_of_mem _ hqT)⟩
    · exact ⟨he.grouped, hnodup⟩
  · rintro ⟨hgr, hq⟩
    rcases eq_or_ne q r with rfl | hqr
    · exact .inr ⟨h.eviction.table_unique hgr he.grouped, rfl⟩
    · exact .inl ⟨hgr, fun hqT => (List.mem_cons.mp hqT).elim hqr hq⟩

theorem foldlM_reinsertRule_spec (h : BridgeOk P s0) {out : List EvictEntry} {T : List RuleId}
    (he : List.Forall₂ (EntryOf s0) out T) : ∀ {s : Enclave}, T.Nodup →
    (Regrouped s0 s fun j q => s0.GroupedIn j q ∧ q ∉ T) → SameFields s0 s →
    ∃ s', out.foldlM reinsertRule s = some s' ∧ Regrouped s0 s' s0.GroupedIn ∧
      SameFields s0 s' := by
  induction he with
  | nil =>
    intro s _ hre hf
    exact ⟨s, rfl, ⟨hre.ok, hre.same, fun j q => (hre.groupedIn j q).trans (by simp)⟩, hf⟩
  | @cons e r out T he _ ih =>
    intro s hnodup hre hf
    obtain ⟨hrT, hnodup⟩ := List.nodup_cons.mp hnodup
    obtain ⟨s1, h1, hre1, hf1⟩ := reinsertRule_spec h he hrT hre hf
    obtain ⟨s', h2, hre', hf'⟩ := ih hnodup hre1 hf1
    refine ⟨s', ?_, hre', hf'⟩
    rw [List.foldlM_cons, h1]
    exact h2

/-- What `ecall_ofproto_evict` does: it fails if the work arrays are too small for the
rules to select; otherwise rules and groups stay as they are, and the entries are those of
the selected rules from `start_index` on. -/
theorem ecallOfprotoEvict_spec (h : BridgeOk P s) (n start bufSize : Nat) :
    (ecallOfprotoEvict s n start bufSize = none ∧
      start + bufSize < ((List.range n).map (nSelected s)).sum) ∨
    ∃ s' out T, ecallOfprotoEvict s n start bufSize = some ⟨s',
        (out.drop start).map fun e => (e.rule, e.hash), (out.length + 2 ^ 64 - start) % 2 ^ 64,
        ((List.range n).map (evictionsOf s)).sum % 2 ^ 64⟩ ∧
      BridgeOk P s' ∧ Regrouped s s' s.GroupedIn ∧ SameFields s s' ∧
      List.Forall₂ (EntryOf s) out T ∧ T.Nodup ∧ T.length ≤ start + bufSize ∧
      T.length = ((List.range n).map (nSelected s)).sum ∧
      (∀ r ∈ T, ∃ i < n, s.GroupedIn i r) ∧
      ∀ i < n, T.countP (· ∈ s.rules i) = nSelected s i := by
  rcases foldlM_evictTable_spec (start + bufSize) (Selection.init h)
      (Nat.zero_le _) List.nodup_range (l := List.range n) (by simp) with
    ⟨hnone, hlt⟩ | ⟨s1, out, T, h1, hsel, hcap, hlen, hgr, hcnt⟩
  · exact .inl ⟨by simp [ecallOfprotoEvict, hnone], by simpa using hlt⟩
  · simp only [List.nil_append] at h1 hsel hcap
    obtain ⟨s', h2, hre, hf⟩ :=
      foldlM_reinsertRule_spec h hsel.entries hsel.nodup hsel.regrouped hsel.fields
    refine .inr ⟨s', out, T, by simp [ecallOfprotoEvict, h1, h2], hre.bridge h h.installed, hre, hf,
      hsel.entries, hsel.nodup, hsel.entries.length_eq ▸ hcap, hlen, fun r hr => ?_,
      fun i hi => hcnt i (List.mem_range.mpr hi)⟩
    obtain ⟨i, hi, hgr⟩ := hgr r hr
    exact ⟨i, List.mem_range.mp hi, hgr⟩

/-! ## Both pages -/

/-- How many rules of the first `n` tables are selected. -/
def totalSelected (s : Enclave) (n : Nat) : Nat := ((List.range n).map (nSelected s)).sum

/-- What the first `n` tables add up to in `*n_evictions`. -/
def totalEvictions (s : Enclave) (n : Nat) : Nat :=
  ((List.range n).map (evictionsOf s)).sum % 2 ^ 64

/-- With the same rules in groups, the same number is selected. -/
theorem nSelected_regrouped (h : BridgeOk P s) (hre : Regrouped s s' s.GroupedIn)
    (hf : SameFields s s') (i : Nat) : nSelected s' i = nSelected s i := by
  have hb := hre.bridge h h.installed
  have hgr : nGrouped s' i = nGrouped s i := by
    unfold nGrouped
    rw [hre.same.rules]
    refine List.countP_congr fun q hq => ?_
    have hq' : q ∈ s'.rules i := by rw [hre.same.rules]; exact hq
    rw [← hb.groupedIn_iff hq', ← h.groupedIn_iff hq, hre.groupedIn]
  have hcount : ecallOftableClsCount s' i = ecallOftableClsCount s i := by
    simp only [ecallOftableClsCount, hre.same.cls]
  have hmax : ecallOftableMflows s' i = ecallOftableMflows s i := hre.same.maxFlows i
  have hen : ecallIsEvictionFieldsEnabled s' i = ecallIsEvictionFieldsEnabled s i := by
    simp only [ecallIsEvictionFieldsEnabled, hf i]
  simp only [nSelected, hen, hgr, hcount, hmax]

/-- The number of evictions that the first page leaves over. -/
theorem leftover_eq_zero {total selected : Nat} (ht : total < 2 ^ 64)
    (hs : selected ≤ defaultBufferSize) :
    (total + 2 ^ 64 - selected) % 2 ^ 64 = 0 ↔ total = selected := by
  simp only [defaultBufferSize] at hs
  omega

/-- The first page holds all selected rules, or the ecall writes beyond its arrays. -/
theorem evictPages_first (h : BridgeOk P s) (n : Nat) :
    (ecallOfprotoEvict s n 0 defaultBufferSize = none ∧ defaultBufferSize < totalSelected s n) ∨
    ∃ s' out T, ecallOfprotoEvict s n 0 defaultBufferSize = some ⟨s',
        out.map fun e => (e.rule, e.hash), totalSelected s n, totalEvictions s n⟩ ∧
      totalSelected s n ≤ defaultBufferSize ∧ BridgeOk P s' ∧ Regrouped s s' s.GroupedIn ∧
      SameFields s s' ∧ List.Forall₂ (EntryOf s) out T ∧ T.Nodup ∧
      T.length = totalSelected s n ∧ (∀ r ∈ T, ∃ i < n, s.GroupedIn i r) ∧
      ∀ i < n, T.countP (· ∈ s.rules i) = nSelected s i := by
  rcases ecallOfprotoEvict_spec h n 0 defaultBufferSize with
    ⟨hnone, hlt⟩ | ⟨s1, out, T, h1, hok, hre, hf, hent, hnodup, hcap, hlen, hgr, hcnt⟩
  · rw [Nat.zero_add] at hlt
    exact .inl ⟨hnone, hlt⟩
  · have hsel : T.length = totalSelected s n := hlen
    have hout : out.length = totalSelected s n := hent.length_eq.trans hsel
    have hfit : totalSelected s n ≤ defaultBufferSize := by
      rw [← hsel]
      omega
    have hres : (out.length + 2 ^ 64 - 0) % 2 ^ 64 = totalSelected s n := by
      rw [hout]
      simp only [defaultBufferSize] at hfit
      omega
    rw [hres, List.drop_zero] at h1
    refine .inr ⟨s1, out, T, ?_, hfit, hok, hre, hf, hent, hnodup, hsel, hgr, hcnt⟩
    rw [h1, totalEvictions]

/-- What `ofproto_evict` gets from the enclave: the entries of the rules that were selected
on the first page, and a total that may be larger. It fails if these do not fit on one page,
or if the total is larger but less than a page. -/
theorem evictPages_spec (h : BridgeOk P s) (n : Nat) :
    (evictPages s n = none ∧ (defaultBufferSize < totalSelected s n ∨
      (totalEvictions s n ≠ totalSelected s n ∧ totalEvictions s n < defaultBufferSize))) ∨
    ∃ s' out T, evictPages s n = some (s', out.map fun e => (e.rule, e.hash),
        totalEvictions s n) ∧ totalSelected s n ≤ defaultBufferSize ∧
      (totalEvictions s n = totalSelected s n ∨ defaultBufferSize ≤ totalEvictions s n) ∧
      BridgeOk P s' ∧ Regrouped s s' s.GroupedIn ∧ SameFields s s' ∧
      List.Forall₂ (EntryOf s) out T ∧ T.Nodup ∧ T.length = totalSelected s n ∧
      (∀ r ∈ T, ∃ i < n, s.GroupedIn i r) ∧
      (∀ i < n, T.countP (· ∈ s.rules i) = nSelected s i) ∧
      ∃ page, ecallOfprotoEvict s n 0 defaultBufferSize = some page ∧
        page.entries = out.map fun e => (e.rule, e.hash) := by
  rcases evictPages_first h n with
    ⟨hnone, hlt⟩ | ⟨s1, out, T, h1, hfit, hok, hre, hf, hent, hnodup, hsel, hgr, hcnt⟩
  · exact .inl ⟨by simp [evictPages, hnone], .inl hlt⟩
  · have hE : totalEvictions s n < 2 ^ 64 := by
      unfold totalEvictions
      exact Nat.mod_lt _ (Nat.two_pow_pos 64)
    have hleft := leftover_eq_zero hE hfit
    have hpages : evictPages s n = _ := rfl
    conv at hpages =>
      rhs
      rw [evictPages, h1, Option.bind_eq_bind, Option.bind_some]
    dsimp only at hpages
    by_cases heq : totalEvictions s n = totalSelected s n
    · refine .inr ⟨s1, out, T, ?_, hfit, .inl heq, hok, hre, hf, hent, hnodup, hsel, hgr, hcnt,
        _, h1, rfl⟩
      rw [hpages, if_pos (hleft.mpr heq)]
      rfl
    · rw [if_neg fun h0 => heq (hleft.mp h0)] at hpages
      generalize (totalEvictions s n + 2 ^ 64 - totalSelected s n) % 2 ^ 64 = leftover at hpages
      rw [hpages]
      by_cases hsmall : totalEvictions s n < defaultBufferSize
      · exact .inl ⟨if_pos hsmall, .inr ⟨heq, hsmall⟩⟩
      · -- the second call selects the same number of rules, all of them on the first page
        have hsel1 : ((List.range n).map (nSelected s1)).sum = totalSelected s n := by
          unfold totalSelected
          congr 1
          exact List.map_congr_left fun i _ => nSelected_regrouped h hre hf i
        rcases ecallOfprotoEvict_spec hok n (totalSelected s n) leftover with
          ⟨-, hlt⟩ | ⟨s2, out2, T2, h2, hok2, hre2, hf2, hent2, -, -, hlen2, -⟩
        · rw [hsel1] at hlt
          exact absurd hlt (Nat.not_lt.mpr (Nat.le_add_right _ _))
        · have hdrop : out2.drop (totalSelected s n) = [] := by
            refine List.drop_eq_nil_of_le ?_
            rw [hent2.length_eq, hlen2, hsel1]
          refine .inr ⟨s2, out, T, ?_, hfit, .inr (Nat.le_of_not_lt hsmall), hok2,
            ⟨hre2.ok, hre.same.trans hre2.same, fun j q => ?_⟩, fun j => (hf2 j).trans (hf j),
            hent, hnodup, hsel, hgr, hcnt, _, h1, rfl⟩
          · rw [if_neg hsmall, h2, hdrop, Option.bind_some, List.map_nil,
              List.append_nil]
            rfl
          · rw [hre2.groupedIn, hre.groupedIn]

end OvsSgx
