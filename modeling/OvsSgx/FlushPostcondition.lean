/-
OvsSgx.FlushPostcondition — `ecall_ofproto_flush` with its cursor.

The loop of the ecall removes the rule its cursor stands on, from the lists
and the hmaps that the cursor walks over. `CLS_CURSOR_FOR_EACH_SAFE` has
fetched the next rule by then, and with it the subtable of that rule. Taking
a rule out leaves the positions of the others as they are, so the cursor goes
on as if it walked over the list of rules; the rest is what the flush of that
list does.
-/
import OvsSgx.ClsCursor
import OvsSgx.TableFrames
import OvsSgx.OfprotoFlushTheorems
import OvsSgx.AddFlowPostcondition
import OvsSgx.EvictDryRun

namespace OvsSgx

open ClsCursor

/-! ## The loop with its cursor -/

/-- `CLS_CURSOR_FOR_EACH_SAFE` in `ecall_ofproto_flush`: the cursor moves on before the body
removes the current rule. -/
def ClsCursor.flushLoop (i bufSize : Nat) : Nat → Flushed → Option Position → Option Flushed
  | _, f, none => some f
  | 0, _, some _ => none
  | fuel + 1, f, some pos => do
    let next ← ClsCursor.next f.state.clsRule (f.state.oftable i).cls none pos
    let f ← flushRule i bufSize f pos.1
    ClsCursor.flushLoop i bufSize fuel f next

/-- One table of `ecall_ofproto_flush`. -/
def ClsCursor.flushTable (bufSize : Nat) (f : Flushed) (i : Nat) : Option Flushed :=
  if (f.state.oftable i).flags.hidden then some f
  else
    let cls := (f.state.oftable i).cls
    ClsCursor.flushLoop i bufSize (classifierCount cls) f
      (ClsCursor.first f.state.clsRule cls (clsCursorInit none))

/-- `ecall_ofproto_flush`, with a cursor. -/
def ClsCursor.ecallOfprotoFlush (s : Enclave) (bufSize : Nat) : Option Flushed :=
  (List.range s.nTables).foldlM (ClsCursor.flushTable bufSize) ⟨s, [], 0⟩

section Cursor

variable {P : Match → Prop} {s s' : Enclave} {i : Nat}

/-- The subtable of a rule is the one for its mask. -/
theorem positions_none {R : RuleStore} {cls : Classifier} (h : ClassifierOk R cls) :
    positions R cls none = cls.rules.map fun r => (r, (findTable cls (R r).match.mask).getD 0) := by
  have hfst : (positions R cls none).map Prod.fst = cls.rules := by
    rw [← clsCursorRules_none h]
    exact positions_map none h
  rw [← hfst, List.map_map]
  refine (List.map_id _).symm.trans (List.map_congr_left fun pos hpos => ?_)
  obtain ⟨ht, hr⟩ := mem_positions.mp hpos
  have ht' := h.mem_values.mp ht
  have hmask := h.rule_mask ht' ((tableRules_sublist R _ none).subset hr)
  simp [hmask, findTable_of_mem h.toTablesOk ht']

/-- The rules that are left stay in their subtables. -/
theorem findTable_classifierRemove {R : RuleStore} {cls cls' : Classifier} {r q : RuleId}
    (hok : ClassifierOk R cls) (hok' : ClassifierOk R cls')
    (h : classifierRemove R cls r = some cls') (hq : q ∈ cls'.rules) :
    findTable cls' (R q).match.mask = findTable cls (R q).match.mask :=
  (classifierRemove_kept h).findTable hok hok' (classifierRemove_nextTable h) hq

/-- The body of the loop: the rule is counted, and taken out if there is room. -/
theorem flushRule_steps {bufSize : Nat} {f f' : Flushed} {r : RuleId}
    (h : flushRule i bufSize f r = some f') :
    (bufSize ≤ f.out.length ∧ f' = ⟨f.state, f.out, f.count + 1⟩) ∨
    (f.out.length < bufSize ∧ ∃ hash s1, ecallClsRemove f.state i (f.state.oClsRule r) = some s1 ∧
      ecallEvgRemoveRule s1 i (f.state.oClsRule r) = some f'.state ∧
      f'.out = f.out ++ [(f.state.oClsRule r, hash)]) := by
  unfold flushRule at h
  split at h
  · rename_i hfull
    cases h
    exact .inl ⟨hfull, rfl⟩
  · rename_i hroom
    simp only [Option.bind_eq_bind, Option.bind_eq_some_iff] at h
    obtain ⟨hash, -, s1, h1, s2, h2, h3⟩ := h
    cases h3
    exact .inr ⟨Nat.lt_of_not_le hroom, hash, s1, h1, h2, rfl⟩

/-- Taking out the rule at the first position leaves the other positions. -/
theorem positions_flushRule {bufSize : Nat} {f f' : Flushed} {pos : Position} {l : List Position}
    (h : BridgeOk P f.state) (hcl : Cleared P f.state f'.state [pos.1])
    (hroom : f.out.length < bufSize) (hs : flushRule i bufSize f pos.1 = some f')
    (hpos : positions f.state.clsRule (f.state.oftable i).cls none = pos :: l) :
    positions f'.state.clsRule (f'.state.oftable i).cls none = l := by
  rcases flushRule_steps hs with ⟨hfull, -⟩ | ⟨-, hash, s1, h1, h2, -⟩
  · omega
  · have hsame := ecallEvgRemoveRule_sameRules h2
    simp only [ecallClsRemove, Option.bind_eq_bind, Option.bind_eq_some_iff] at h1
    obtain ⟨q, -, cls', hrem, h1⟩ := h1
    cases h1
    have hcls : (f'.state.oftable i).cls = cls' := by
      rw [hsame.cls i, setOftable_oftable_self]
    have hok' : ClassifierOk f.state.clsRule cls' := by
      have := hcl.ok.cls i
      rwa [hcl.clsRule, hcls] at this
    rw [positions_none (h.cls i)] at hpos
    obtain ⟨r, rs, hrules, rfl, rfl⟩ := List.map_eq_cons_iff.mp hpos
    have hrest : cls'.rules = rs := by
      have hnodup := h.toEnclaveOk.rules_nodup i
      have hleft := hcl.rules i
      rw [Enclave.rules, hcls] at hleft
      rw [hleft, show f.state.rules i = r :: rs from hrules]
      rw [show f.state.rules i = r :: rs from hrules] at hnodup
      have hr : r ∉ rs := (List.nodup_cons.mp hnodup).1
      rw [List.filter_cons_of_neg (by simp)]
      exact List.filter_eq_self.mpr fun q hq => by simpa using ne_of_mem_of_not_mem hq hr
    rw [hcl.clsRule, hcls, positions_none hok', hrest]
    refine List.map_congr_left fun q hq => ?_
    rw [findTable_classifierRemove (h.cls i) hok' hrem (hrest ▸ hq)]

/-- The cursor visits the rules of the list, although they are removed on the way. -/
theorem flushLoop_cursor {bufSize : Nat} {l : List Position} :
    ∀ {f : Flushed} {kept : List Position} {fuel : Nat}, BridgeOk P f.state →
    positions f.state.clsRule (f.state.oftable i).cls none = kept ++ l →
    (kept = [] ∨ bufSize ≤ f.out.length) →
    ClsCursor.flushLoop i bufSize fuel f l.head?
      = flushLoop i bufSize fuel f (l.head?.map Prod.fst) := by
  induction l with
  | nil =>
    intro f kept fuel _ _ _
    simp [ClsCursor.flushLoop, flushLoop]
  | cons pos l ih =>
    intro f kept fuel h hpos hkept
    cases fuel with
    | zero => rfl
    | succ fuel =>
      have hnext := next_eq (h.cls i) hpos
      have hrules : f.state.rules i = kept.map Prod.fst ++ pos.1 :: l.map Prod.fst := by
        have hfst := positions_map none (h.cls i)
        rw [clsCursorRules_none (h.cls i)] at hfst
        have hpos' := congrArg (List.map Prod.fst) hpos
        rw [List.map_append, List.map_cons] at hpos'
        exact hfst.symm.trans hpos'
      have hlist := clsCursorNext_eq h.toEnclaveOk hrules
      rw [List.head?_map] at hlist
      simp only [List.head?_cons, Option.map_some, ClsCursor.flushLoop, flushLoop, hnext, hlist,
        Option.bind_eq_bind, Option.bind_some]
      rcases flushRule_bridge (r := pos.1) bufSize h (by rw [hrules]; simp) with
        ⟨hfull, hbody⟩ | ⟨hroom, s1, hcl, hbody⟩
      · rw [hbody, Option.bind_some, Option.bind_some]
        have hpos' : positions f.state.clsRule (f.state.oftable i).cls none = (kept ++ [pos]) ++ l := by
          simpa using hpos
        exact ih h hpos' (.inr hfull)
      · have hk : kept = [] := hkept.resolve_right (by omega)
        subst hk
        have hleft := positions_flushRule h hcl hroom hbody hpos
        rw [hbody, Option.bind_some, Option.bind_some]
        exact ih hcl.ok (hleft.trans (List.nil_append l).symm) (.inl rfl)

theorem flushTable_cursor {bufSize : Nat} {f : Flushed} (h : BridgeOk P f.state) (i : Nat) :
    ClsCursor.flushTable bufSize f i = flushTable bufSize f i := by
  unfold ClsCursor.flushTable flushTable
  split
  · rfl
  · have hcur := clsCursorRules_none (h.cls i)
    have hfirst : (positions f.state.clsRule (f.state.oftable i).cls none).head?.map Prod.fst
        = clsCursorFirst f.state.clsRule (f.state.oftable i).cls none := by
      rw [← List.head?_map, clsCursorFirst, ← positions_map none (h.cls i)]
      rfl
    dsimp only
    rw [← hfirst, hcur, classifierCount, (h.cls i).nRules, first_eq]
    exact flushLoop_cursor h (List.nil_append _).symm (.inl rfl)

theorem foldlM_flushTable_cursor {bufSize : Nat} {l : List Nat} : ∀ {f : Flushed},
    BridgeOk P f.state →
    l.foldlM (ClsCursor.flushTable bufSize) f = l.foldlM (flushTable bufSize) f := by
  induction l with
  | nil => exact fun _ => rfl
  | cons i l ih =>
    intro f h
    obtain ⟨s', hcl, hs⟩ := flushTable_bridge bufSize h i
    rw [List.foldlM_cons, List.foldlM_cons, flushTable_cursor h i, hs]
    exact ih hcl.ok

/-- The flush with a cursor is the flush of the lists of rules. -/
theorem ecallOfprotoFlush_cursor (h : BridgeOk P s) (bufSize : Nat) :
    ClsCursor.ecallOfprotoFlush s bufSize = ecallOfprotoFlush s bufSize :=
  foldlM_flushTable_cursor (f := ⟨s, [], 0⟩) h

end Cursor

/-! ## What is left alone -/

/-- Between `f` and `f'` the flush has changed nothing of rules that are not among its entries,
nor of hidden tables. -/
structure FlushFrame (f f' : Flushed) : Prop where
  lookup : ∀ a, sgxRuleFromUtCr f'.state a = sgxRuleFromUtCr f.state a
  flags : ∀ j, (f'.state.oftable j).flags = (f.state.oftable j).flags
  out : f.out ⊆ f'.out
  others : ∀ q, (∀ e ∈ f'.out, sgxRuleFromUtCr f.state e.1 ≠ some q) →
    f'.state.evictGroup q = f.state.evictGroup q
  nodes : NodesKept f.state f'.state
  hidden : ∀ j, (f.state.oftable j).flags.hidden = true → f'.state.oftable j = f.state.oftable j

section Frames

variable {i bufSize : Nat} {f f' f'' : Flushed}

theorem FlushFrame.refl (f : Flushed) : FlushFrame f f :=
  ⟨fun _ => rfl, fun _ => rfl, List.Subset.refl _, fun _ _ => rfl, NodesKept.refl _, fun _ _ => rfl⟩

theorem FlushFrame.trans (h : FlushFrame f f') (h' : FlushFrame f' f'') : FlushFrame f f'' where
  lookup a := (h'.lookup a).trans (h.lookup a)
  flags j := (h'.flags j).trans (h.flags j)
  out := List.Subset.trans h.out h'.out
  others q hq := by
    rw [h'.others q fun e he => ?_, h.others q fun e he => hq e (h'.out he)]
    rw [h.lookup]
    exact hq e he
  nodes := h.nodes.trans h'.nodes
  hidden j hj := by
    have hj' : (f'.state.oftable j).flags.hidden = true := by rw [h.flags]; exact hj
    rw [h'.hidden j hj', h.hidden j hj]

/-- The ecalls that take a rule out write to no other table. -/
theorem ecallEvgRemoveRule_oftable {s s' : Enclave} {a : UtAddr} {j : Nat} (hj : j ≠ i)
    (h : ecallEvgRemoveRule s i a = some s') : s'.oftable j = s.oftable j := by
  simp only [ecallEvgRemoveRule, Option.bind_eq_bind, Option.bind_eq_some_iff] at h
  obtain ⟨r, -, h⟩ := h
  cases hg : s.evictGroup r with
  | none =>
    rw [hg] at h
    cases h
    rfl
  | some g =>
    simp only [hg, Option.bind_eq_some_iff] at h
    obtain ⟨s1, h1, h⟩ := h
    have hunlink : s1.oftable = s.oftable := by
      simp only [evgUnlinkRule, Option.bind_eq_bind, Option.bind_eq_some_iff] at h1
      obtain ⟨⟨heap, nodes⟩, -, h1⟩ := h1
      cases h1
      rfl
    rw [← hunlink]
    split at h
    · simp only [sgxEvgDestroy] at h
      split at h
      · simp only [Option.bind_eq_bind, Option.bind_eq_some_iff] at h
        obtain ⟨⟨heap, nodes⟩, -, h⟩ := h
        cases h
        exact setOftable_oftable_ne _ _ hj
      · cases h
    · simp only [sgxEvgGroupResize, Option.bind_eq_bind, Option.bind_eq_some_iff] at h
      obtain ⟨⟨heap, nodes⟩, -, h⟩ := h
      cases h
      exact setOftable_oftable_ne _ _ hj

theorem flushRule_frame {r : RuleId} (hi : (f.state.oftable i).flags.hidden = false)
    (h : flushRule i bufSize f r = some f') : FlushFrame f f' := by
  rcases flushRule_steps h with ⟨-, rfl⟩ | ⟨-, hash, s1, h1, h2, hout⟩
  · exact ⟨fun _ => rfl, fun _ => rfl, List.Subset.refl _, fun _ _ => rfl, NodesKept.refl _,
      fun _ _ => rfl⟩
  · have hsame := ecallEvgRemoveRule_sameRules h2
    simp only [ecallClsRemove, Option.bind_eq_bind, Option.bind_eq_some_iff] at h1
    obtain ⟨q, hlook, cls', -, h1⟩ := h1
    cases h1
    refine ⟨fun a => hsame.lookup a, fun j => ?_, by simp [hout], fun p hp => ?_, ?_, fun j hj => ?_⟩
    · rw [hsame.flags]
      by_cases hji : j = i
      · subst hji
        rw [setOftable_oftable_self]
      · rw [setOftable_oftable_ne _ _ hji]
    · have hne := hp (f.state.oClsRule r, hash) (by simp [hout])
      have hgroup := ecallEvgRemoveRule_evictGroup (q := p) h2 hne
      exact hgroup
    · have hset : NodesKept f.state (f.state.setOftable i { f.state.oftable i with cls := cls' }) :=
        ⟨fun _ => rfl, setOftable_basis f.state i rfl⟩
      exact hset.trans (ecallEvgRemoveRule_nodes h2)
    · have hji : j ≠ i := by
        rintro rfl
        rw [hi] at hj
        cases hj
      rw [ecallEvgRemoveRule_oftable hji h2, setOftable_oftable_ne _ _ hji]

theorem flushLoop_frame : ∀ {fuel : Nat} {f f' : Flushed} {r : Option RuleId},
    (f.state.oftable i).flags.hidden = false → flushLoop i bufSize fuel f r = some f' →
    FlushFrame f f'
  | fuel, f, f', none, _, h => by
      have hf : some f = some f' := by simpa [flushLoop] using h
      cases hf
      exact FlushFrame.refl f
  | 0, _, _, some _, _, h => by cases h
  | fuel + 1, f, f', some r, hi, h => by
      simp only [flushLoop, Option.bind_eq_bind, Option.bind_eq_some_iff] at h
      obtain ⟨f1, h1, h2⟩ := h
      have hframe := flushRule_frame hi h1
      exact hframe.trans (flushLoop_frame (by rw [hframe.flags]; exact hi) h2)

theorem foldlM_flushTable_frame : ∀ {l : List Nat} {f f' : Flushed},
    l.foldlM (flushTable bufSize) f = some f' → FlushFrame f f'
  | [], f, f', h => by
      cases h
      exact FlushFrame.refl f
  | i :: l, f, f', h => by
      rw [List.foldlM_cons, Option.bind_eq_bind, Option.bind_eq_some_iff] at h
      obtain ⟨f1, h1, h2⟩ := h
      refine FlushFrame.trans ?_ (foldlM_flushTable_frame h2)
      unfold flushTable at h1
      split at h1
      · cases h1
        exact FlushFrame.refl f
      · rename_i hi
        exact flushLoop_frame (by simpa using hi) h1

end Frames

/-! ## The postcondition -/

/-- The number of rules in the tables that are not hidden. -/
def nVisibleRules (s : Enclave) : Nat :=
  (((List.range s.nTables).filter fun i => !(s.oftable i).flags.hidden).map fun i =>
    (s.rules i).length).sum

/-- What the flush has done when it has taken out the rules `T`, each with its table. -/
structure FlushPost (s : Enclave) (bufSize : Nat) (f : Flushed) (T : List (Nat × RuleId)) :
    Prop where
  visible : ∀ e ∈ T, e.1 < s.nTables ∧ (s.oftable e.1).flags.hidden = false ∧ e.2 ∈ s.rules e.1
  entries : f.out = T.map fun e =>
    (s.oClsRule e.2, clsRuleHash (s.clsRule e.2) (BitVec.ofNat 32 e.1))
  returned : f.out.length = min bufSize (nVisibleRules s)
  distinct : (T.map Prod.snd).Nodup ∧ (f.out.map Prod.fst).Nodup
  count : f.count = nVisibleRules s
  rules : ∀ j, f.state.rules j = (s.rules j).filter (· ∉ T.map Prod.snd)
  left : ∀ e ∈ T, f.state.evictGroup e.2 = none
  others : ∀ q, q ∉ T.map Prod.snd → f.state.evictGroup q = s.evictGroup q ∧
    (f.state.ruleEvgNode q).priority = (s.ruleEvgNode q).priority
  hidden : ∀ j, (s.oftable j).flags.hidden = true → f.state.oftable j = s.oftable j
  shadows : f.state.clsRules = s.clsRules ∧ f.state.clsRule = s.clsRule ∧
    f.state.oClsRule = s.oClsRule

section Post

variable {P : Match → Prop} {s : Enclave}

theorem length_flushList (s : Enclave) (l : List Nat) :
    (flushList s l).length = ((l.filter fun i => !(s.oftable i).flags.hidden).map fun i =>
      (s.rules i).length).sum := by
  induction l with
  | nil => rfl
  | cons i l ih =>
    have hcons : (flushList s (i :: l)).length
        = (flushableRules s i).length + (flushList s l).length := by
      simp [flushList]
    rw [hcons, ih]
    unfold flushableRules
    split
    · rename_i hi
      simp [hi]
    · rename_i hi
      simp [hi]

theorem length_allFlushable (s : Enclave) : (allFlushable s).length = nVisibleRules s :=
  length_flushList s _

/-- The flush with its cursor takes out the first rules that fit and counts all. -/
theorem flush_bridge (h : BridgeOk P s) (bufSize : Nat) :
    ∃ f T, ClsCursor.ecallOfprotoFlush s bufSize = some f ∧ FlushPost s bufSize f T := by
  obtain ⟨s', hcl, hs⟩ := ecallOfprotoFlush_spec h bufSize
  have hframe := foldlM_flushTable_frame hs
  have hsub : (allFlushable s).take bufSize ⊆ allFlushable s := List.take_subset _ _
  have hmem : ∀ e ∈ (allFlushable s).take bufSize,
      e.1 < s.nTables ∧ (s.oftable e.1).flags.hidden = false ∧ e.2 ∈ s.rules e.1 := by
    intro e he
    obtain ⟨hi, hrest⟩ := mem_flushList.mp (hsub he)
    exact ⟨List.mem_range.mp hi, hrest⟩
  have hnodup : (((allFlushable s).take bufSize).map Prod.snd).Nodup := by
    rw [List.map_take]
    exact (flushList_nodup h.toEnclaveOk List.nodup_range).sublist (List.take_sublist _ _)
  have hlive : ∀ e ∈ (allFlushable s).take bufSize, s.LiveRule e.2 := fun e he =>
    h.live e.1 e.2 (hmem e he).2.2
  rw [← ecallOfprotoFlush_cursor h] at hs
  refine ⟨_, (allFlushable s).take bufSize, hs, hmem, rfl, ?_, ⟨hnodup, ?_⟩, length_allFlushable s,
    hcl.rules, fun e he => ?_, fun q hq => ⟨hframe.others q fun e he => ?_, hframe.nodes.priority q⟩,
    hframe.hidden, hcl.clsRules, hcl.clsRule, hcl.oClsRule⟩
  · simp [length_allFlushable]
  · have haddr : (((allFlushable s).take bufSize).map (entryOf s)).map Prod.fst
        = (((allFlushable s).take bufSize).map Prod.snd).map s.oClsRule := by
      simp [entryOf, flushEntry, Function.comp_def]
    rw [haddr]
    refine List.Nodup.map_on (fun q hq r hr hqr => ?_) hnodup
    obtain ⟨e, he, rfl⟩ := List.mem_map.mp hq
    obtain ⟨e', he', rfl⟩ := List.mem_map.mp hr
    exact h.shadows.inj (hlive e he) (hlive e' he') (congrArg addrHash hqr)
  · cases hg : s'.evictGroup e.2 with
    | none => rfl
    | some g =>
      obtain ⟨j, hj⟩ := hcl.ok.eviction.groupedIn hg
      exact absurd (List.mem_map_of_mem he) ((hcl.groupedIn j e.2).mp hj).2
  · obtain ⟨x, hx, rfl⟩ := List.mem_map.mp he
    change sgxRuleFromUtCr s (s.oClsRule x.2) ≠ some q
    rw [h.shadows.lookup_self (hlive x hx)]
    rintro ⟨⟩
    exact hq (List.mem_map_of_mem hx)

end Post

/-- One call of `ecall_ofproto_flush` in a state of a run. -/
theorem ecallOfprotoFlush_postcondition {s : Enclave} (h : GroupsReachable s) (bufSize : Nat) :
    ∃ f T, ClsCursor.ecallOfprotoFlush s bufSize = some f ∧ FlushPost s bufSize f T :=
  flush_bridge h.bridge bufSize

/-- Two of the three rules of a table fit into the buffers. -/
theorem evictingBridge_flushed :
    ((ClsCursor.ecallOfprotoFlush evictingBridge 2).map fun f => (f.out.length, f.count))
        = some (2, 3) ∧
      ∃ f T, ClsCursor.ecallOfprotoFlush evictingBridge 2 = some f ∧
        FlushPost evictingBridge 2 f T :=
  ⟨by decide +kernel, ecallOfprotoFlush_postcondition evictingBridge_reachable 2⟩

end OvsSgx
