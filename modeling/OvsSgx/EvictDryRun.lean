/-
OvsSgx.EvictDryRun — `ecall_ofproto_evict` leaves everything as it was.

The ecall takes the rules that it selects out of their groups and puts them
back. The rules and classifiers do not change, and the invariant says that
a rule is in the group with the hash of its fields and that a group has the
size that it says. What is left to show is that the hashes and the eviction
priorities are the same: no step writes the basis of a table, a removal
changes no priority, and an insertion writes the one that was saved.
-/
import OvsSgx.EvictSelection

namespace OvsSgx

variable {P : Match → Prop} {s s' s'' : Enclave} {i : Nat}

/-! ## Priorities and hash bases -/

/-- The rules have the eviction priorities that they had, and the tables their bases. -/
structure NodesKept (s s' : Enclave) : Prop where
  priority : ∀ r, (s'.ruleEvgNode r).priority = (s.ruleEvgNode r).priority
  basis : ∀ i, (s'.oftable i).evictionGroupIdBasis = (s.oftable i).evictionGroupIdBasis

theorem NodesKept.refl (s : Enclave) : NodesKept s s := ⟨fun _ => rfl, fun _ => rfl⟩

theorem NodesKept.trans (h : NodesKept s s') (h' : NodesKept s' s'') : NodesKept s s'' :=
  ⟨fun r => (h'.priority r).trans (h.priority r), fun i => (h'.basis i).trans (h.basis i)⟩

/-- Writing back a table with its basis. -/
theorem setOftable_basis (s : Enclave) (i : Nat) {tbl : Oftable}
    (h : tbl.evictionGroupIdBasis = (s.oftable i).evictionGroupIdBasis) (j : Nat) :
    ((s.setOftable i tbl).oftable j).evictionGroupIdBasis
      = (s.oftable j).evictionGroupIdBasis := by
  by_cases hji : j = i
  · subst hji
    rw [setOftable_oftable_self, h]
  · rw [setOftable_oftable_ne _ _ hji]

theorem sgxEvgGroupResize_nodes {p : Nat} {g : EvgId} (h : sgxEvgGroupResize s i p g = some s') :
    NodesKept s s' := by
  simp only [sgxEvgGroupResize, Option.bind_eq_bind, Option.bind_eq_some_iff] at h
  obtain ⟨⟨heap, nodes⟩, -, h⟩ := h
  cases h
  exact ⟨fun _ => rfl, setOftable_basis s i rfl⟩

theorem sgxEvgFind_nodes (s : Enclave) (i : Nat) (id : U32) (p : Nat) :
    NodesKept s (sgxEvgFind s i id p).1 := by
  unfold sgxEvgFind
  split
  · exact NodesKept.refl s
  · exact ⟨fun _ => rfl, setOftable_basis s i rfl⟩

theorem randomUint16_nodes (s : Enclave) : NodesKept s (randomUint16 s).2 :=
  ⟨fun _ => rfl, fun _ => rfl⟩

theorem evgUnlinkRule_nodes {g : EvgId} {r : RuleId} (h : evgUnlinkRule s g r = some s') :
    NodesKept s s' := by
  simp only [evgUnlinkRule, Option.bind_eq_bind, Option.bind_eq_some_iff] at h
  obtain ⟨⟨heap, nodes⟩, hrem, h⟩ := h
  cases h
  unfold heapRemoveOvs at hrem
  split at hrem
  · cases hrem
  · cases hrem
    exact ⟨fun q => IndexedHeap.remove_priority r q, fun _ => rfl⟩

theorem sgxEvgDestroy_nodes {g : EvgId} (h : sgxEvgDestroy s i g = some s') : NodesKept s s' := by
  simp only [sgxEvgDestroy] at h
  split at h
  · simp only [Option.bind_eq_bind, Option.bind_eq_some_iff] at h
    obtain ⟨⟨heap, nodes⟩, -, h⟩ := h
    cases h
    exact ⟨fun _ => rfl, setOftable_basis s i rfl⟩
  · cases h

theorem ecallEvgRemoveRule_nodes {a : UtAddr} (h : ecallEvgRemoveRule s i a = some s') :
    NodesKept s s' := by
  simp only [ecallEvgRemoveRule, Option.bind_eq_bind, Option.bind_eq_some_iff] at h
  obtain ⟨r, -, h⟩ := h
  cases hg : s.evictGroup r with
  | none =>
    rw [hg] at h
    cases h
    exact NodesKept.refl s
  | some g =>
    simp only [hg, Option.bind_eq_some_iff] at h
    obtain ⟨s1, h1, h⟩ := h
    refine (evgUnlinkRule_nodes h1).trans ?_
    split at h
    · exact sgxEvgDestroy_nodes h
    · exact (randomUint16_nodes s1).trans (sgxEvgGroupResize_nodes h)

/-- A rule that is put into a group with the priority that it has keeps it. -/
theorem ecallEvgAddRule_nodes {a : UtAddr} {r : RuleId} {p q : Nat} {node : HeapNode}
    (hlook : sgxRuleFromUtCr s a = some r) (hq : q = (s.ruleEvgNode r).priority)
    (h : ecallEvgAddRule s i a p q node = some s') : NodesKept s s' := by
  simp only [ecallEvgAddRule, hlook, Option.bind_eq_bind, Option.bind_some] at h
  split at h
  · cases h
  · have hfind := sgxEvgFind_nodes s i (evictionGroupHashRule (s.oftable i) (s.clsRule r)) p
    generalize sgxEvgFind s i (evictionGroupHashRule (s.oftable i) (s.clsRule r)) p = sg
      at h hfind
    obtain ⟨s1, g⟩ := sg
    dsimp only at h hfind
    have hins : NodesKept s1 (evgInsertRule s1 g r node q) := by
      refine ⟨fun x => ?_, fun _ => rfl⟩
      have hprio := IndexedHeap.insert_priority
        (s := (s1.evgRules g).state (Function.update s1.ruleEvgNode r node)) r x q
      refine hprio.trans ?_
      split
      · rename_i hx
        rw [hx, hq, hfind.priority]
      · rename_i hx
        simp [Heap.state, hx]
    exact ((hfind.trans hins).trans (randomUint16_nodes _)).trans (sgxEvgGroupResize_nodes h)

/-! ## Selection and re-insertion -/

/-- The entry has the eviction priority of its rule. -/
def Saved (s : Enclave) (e : EvictEntry) : Prop :=
  ∀ r, sgxRuleFromUtCr s e.rule = some r → e.rulePrio = (s.ruleEvgNode r).priority

theorem Saved.kept {e : EvictEntry} (h : Saved s e) (hs : SameRules s s') (hn : NodesKept s s') :
    Saved s' e := by
  intro r hr
  rw [hs.lookup] at hr
  rw [hn.priority, h r hr]

theorem evictLoop_nodes {capacity : Nat} : ∀ (fuel : Nat) {s s' : Enclave}
    {out out' : List EvictEntry}, (∀ e ∈ out, Saved s e) →
    evictLoop i capacity fuel s out = some (s', out') → NodesKept s s' ∧ ∀ e ∈ out', Saved s' e
  | 0, s, s', out, out', hout, h => by
      cases h
      exact ⟨NodesKept.refl s, hout⟩
  | fuel + 1, s, s', out, out', hout, h => by
      simp only [evictLoop] at h
      split at h
      · cases h
        exact ⟨NodesKept.refl s, hout⟩
      · rename_i tmp _
        split at h
        · cases h
        · simp only [Option.bind_eq_bind, Option.bind_eq_some_iff] at h
          obtain ⟨hash, -, r, hlook, g, -, s1, h1, h2⟩ := h
          have hnodes := ecallEvgRemoveRule_nodes h1
          have hsame := ecallEvgRemoveRule_sameRules h1
          have hout1 : ∀ e ∈ out ++ [⟨i, tmp, hash, (s.sizeNode g).priority,
              (s.ruleEvgNode r).priority⟩], Saved s1 e := by
            intro e he
            rcases List.mem_append.mp he with he | he
            · exact (hout e he).kept hsame hnodes
            · rw [List.mem_singleton] at he
              subst he
              intro q hq
              rw [hsame.lookup, hlook, Option.some.injEq] at hq
              rw [← hq, hnodes.priority]
          obtain ⟨hrest, hsaved⟩ := evictLoop_nodes fuel hout1 h2
          exact ⟨hnodes.trans hrest, hsaved⟩

theorem foldlM_evictTable_nodes {capacity : Nat} : ∀ {l : List Nat}
    {so so' : Enclave × List EvictEntry}, (∀ e ∈ so.2, Saved so.1 e) →
    l.foldlM (evictTable capacity) so = some so' →
    NodesKept so.1 so'.1 ∧ ∀ e ∈ so'.2, Saved so'.1 e
  | [], so, so', hout, h => by
      cases h
      exact ⟨NodesKept.refl _, hout⟩
  | i :: l, so, so', hout, h => by
      rw [List.foldlM_cons, Option.bind_eq_bind, Option.bind_eq_some_iff] at h
      obtain ⟨so1, h1, h2⟩ := h
      have hstep : NodesKept so.1 so1.1 ∧ ∀ e ∈ so1.2, Saved so1.1 e := by
        unfold evictTable at h1
        split at h1
        · cases h1
          exact ⟨NodesKept.refl _, hout⟩
        · exact evictLoop_nodes _ hout h1
      obtain ⟨hrest, hsaved⟩ := foldlM_evictTable_nodes hstep.2 h2
      exact ⟨hstep.1.trans hrest, hsaved⟩

theorem foldlM_reinsertRule_nodes : ∀ {l : List EvictEntry} {s s' : Enclave},
    (∀ e ∈ l, Saved s e) → l.foldlM reinsertRule s = some s' → NodesKept s s'
  | [], s, s', _, h => by
      cases h
      exact NodesKept.refl s
  | e :: l, s, s', hl, h => by
      rw [List.foldlM_cons, Option.bind_eq_bind, Option.bind_eq_some_iff] at h
      obtain ⟨s1, h1, h2⟩ := h
      simp only [reinsertRule, Option.bind_eq_bind, Option.bind_eq_some_iff] at h1
      obtain ⟨r, hlook, h1⟩ := h1
      have hnodes := ecallEvgAddRule_nodes hlook (hl e (by simp) r hlook) h1
      have hsame := ecallEvgAddRule_sameRules h1
      exact hnodes.trans (foldlM_reinsertRule_nodes
        (fun e' he' => (hl e' (List.mem_cons_of_mem e he')).kept hsame hnodes) h2)

theorem ecallOfprotoEvict_nodes {n start bufSize : Nat} {res : EvictResult}
    (h : ecallOfprotoEvict s n start bufSize = some res) : NodesKept s res.state := by
  simp only [ecallOfprotoEvict, Option.bind_eq_bind, Option.bind_eq_some_iff] at h
  obtain ⟨⟨s1, out⟩, h1, s2, h2, h3⟩ := h
  cases h3
  have hnone : ∀ e ∈ ([] : List EvictEntry), Saved s e := by simp
  obtain ⟨hsel, hsaved⟩ := foldlM_evictTable_nodes hnone h1
  exact hsel.trans (foldlM_reinsertRule_nodes hsaved h2)

/-! ## The groups afterwards -/

/-- Group `g` of `s` is group `g'` of `s'`: it has the same id, the same rules and the same size
field. -/
structure SameGroup (s s' : Enclave) (g g' : EvgId) : Prop where
  id : s'.evgId g' = s.evgId g
  rules : ∀ r, s'.evictGroup r = some g' ↔ s.evictGroup r = some g
  size : (s'.sizeNode g').priority >>> 16 = (s.sizeNode g).priority >>> 16

/-- Nothing has changed but the random bits of the group priorities and the order on the
heaps. -/
structure DryRun (s s' : Enclave) : Prop where
  same : SameRules s s'
  fields : SameFields s s'
  nodes : NodesKept s s'
  kept : ∀ i, ∀ g ∈ s.groups i, ∃ g' ∈ s'.groups i, SameGroup s s' g g'
  noOther : ∀ i, ∀ g' ∈ s'.groups i, ∃ g ∈ s.groups i, SameGroup s s' g g'

section Groups

variable (h : BridgeOk P s) (hre : Regrouped s s' s.GroupedIn) (hf : SameFields s s')
  (hn : NodesKept s s')

include h hre hf hn

/-- The hash of a rule of a group is the same, and so is the id of its group. -/
theorem evgId_eq {r : RuleId} {g g' : EvgId} (hg : g ∈ s.groups i) (hr : s.evictGroup r = some g)
    (hg' : g' ∈ s'.groups i) (hr' : s'.evictGroup r = some g') : s'.evgId g' = s.evgId g := by
  rw [← h.eviction.hash i g hg r hr, ← hre.ok.hash i g' hg' r hr', hre.same.clsRule]
  simp only [evictionGroupHashRule, hf i, hn.basis i]

/-- A group that has a rule of `g` is `g`. -/
theorem sameGroup_of_mem {r : RuleId} {g g' : EvgId} (hg : g ∈ s.groups i)
    (hr : s.evictGroup r = some g) (hg' : g' ∈ s'.groups i) (hr' : s'.evictGroup r = some g') :
    SameGroup s s' g g' := by
  have hb := hre.bridge h h.installed
  have hid := evgId_eq h hre hf hn hg hr hg' hr'
  have hrules : ∀ q, s'.evictGroup q = some g' ↔ s.evictGroup q = some g := by
    intro q
    constructor
    · intro hq
      obtain ⟨k, hk, hqk⟩ := (hre.groupedIn i q).mp ⟨g', hg', hq⟩
      have hkid := evgId_eq h hre hf hn hk hqk hg' hq
      rw [hqk, h.eviction.eq_of_id hk hg (hkid.symm.trans hid)]
    · intro hq
      obtain ⟨k, hk, hqk⟩ := (hre.groupedIn i q).mpr ⟨g, hg, hq⟩
      have hkid := evgId_eq h hre hf hn hg hq hk hqk
      rw [hqk, hre.ok.eq_of_id hk hg' (hkid.trans hid.symm)]
  refine ⟨hid, hrules, ?_⟩
  rw [h.eviction.size i g hg (by simp), hre.ok.size i g' hg' (by simp), h.rules_count hg,
    hb.rules_count hg', hre.same.rules]
  simp only [hrules]

theorem dryRun_of_regrouped : DryRun s s' := by
  have hb := hre.bridge h h.installed
  refine ⟨hre.same, hf, hn, fun i g hg => ?_, fun i g' hg' => ?_⟩
  · obtain ⟨r, -, hr⟩ := h.groupsOk.nonempty i g hg
    obtain ⟨g', hg', hr'⟩ := (hre.groupedIn i r).mpr ⟨g, hg, hr⟩
    exact ⟨g', hg', sameGroup_of_mem h hre hf hn hg hr hg' hr'⟩
  · obtain ⟨r, -, hr'⟩ := hb.groupsOk.nonempty i g' hg'
    obtain ⟨g, hg, hr⟩ := (hre.groupedIn i r).mp ⟨g', hg', hr'⟩
    exact ⟨g, hg, sameGroup_of_mem h hre hf hn hg hr hg' hr'⟩

end Groups

/-- The entries of distinct live rules have distinct addresses. -/
theorem entries_nodup (h : BridgeOk P s) {out : List EvictEntry} {T : List RuleId}
    (hent : List.Forall₂ (EntryOf s) out T) (hT : T.Nodup) (hlive : ∀ r ∈ T, s.LiveRule r) :
    (out.map EvictEntry.rule).Nodup := by
  have hmap : out.map EvictEntry.rule = T.map s.oClsRule := by
    clear hT hlive
    induction hent with
    | nil => rfl
    | cons he _ ih => rw [List.map_cons, List.map_cons, he.rule, ih]
  rw [hmap]
  exact hT.map_on fun r hr q hq heq =>
    h.shadows.inj (hlive r hr) (hlive q hq) (congrArg addrHash heq)

/-- With room for the rules that it selects the call returns, it changes nothing, and it names
no rule twice. -/
theorem ecallOfprotoEvict_dryRun (h : GroupsReachable s) {n start bufSize : Nat}
    (hroom : totalSelected s n ≤ start + bufSize) :
    ∃ res, ecallOfprotoEvict s n start bufSize = some res ∧ DryRun s res.state ∧
      (res.entries.map Prod.fst).Nodup := by
  rcases ecallOfprotoEvict_spec h.bridge n start bufSize with
    ⟨-, hlt⟩ | ⟨s', out, T, hs, -, hre, hf, hent, hT, -, -, hgr, -⟩
  · exact absurd hroom (Nat.not_le.mpr hlt)
  · refine ⟨_, hs, dryRun_of_regrouped h.bridge hre hf (ecallOfprotoEvict_nodes hs), ?_⟩
    have hlive : ∀ r ∈ T, s.LiveRule r := by
      intro r hr
      obtain ⟨i, -, hi⟩ := hgr r hr
      exact h.bridge.live i r (h.bridge.installed i r hi)
    have hfirst : ((out.drop start).map fun e => (e.rule, e.hash)).map Prod.fst
        = (out.map EvictEntry.rule).drop start := by
      rw [List.map_map, ← List.map_drop]
      rfl
    rw [hfirst]
    exact (List.drop_sublist start _).nodup (entries_nodup h.bridge hent hT hlive)

/-- Two of the three rules are taken out of their groups and put back. -/
theorem limitedBridge_dryRun :
    totalSelected limitedBridge 1 = 2 ∧ ∃ res, ecallOfprotoEvict limitedBridge 1 0 2 = some res ∧
      DryRun limitedBridge res.state ∧ (res.entries.map Prod.fst).Nodup :=
  ⟨by decide +kernel, ecallOfprotoEvict_dryRun limitedBridge_reachable (by decide +kernel)⟩

end OvsSgx
