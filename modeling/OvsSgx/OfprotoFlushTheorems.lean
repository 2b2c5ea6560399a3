/-
OvsSgx.OfprotoFlushTheorems — what the pages of the flush hold.

`ecall_ofproto_flush` visits the rules of the tables that are not hidden,
table by table. It takes out as many as its buffer has room for and counts
all of them. `ofproto_flush__` calls it a second time for the rules that
did not fit; that call starts over with the rules that are left and counts
only these.
-/
import OvsSgx.Ofproto
import OvsSgx.EvictionRuns

namespace OvsSgx

variable {P : Match → Prop} {s s' : Enclave} {bufSize : Nat}

/-- The rules that the flush visits in the tables `l`, with their tables. -/
def flushList (s : Enclave) (l : List Nat) : List (Nat × RuleId) :=
  l.flatMap fun i => (flushableRules s i).map fun r => (i, r)

/-- The rules that the flush of a bridge visits. -/
def allFlushable (s : Enclave) : List (Nat × RuleId) := flushList s (List.range s.nTables)

/-- The entry for a rule in the buffers. -/
def entryOf (s : Enclave) (e : Nat × RuleId) : UtAddr × U32 := flushEntry s e.1 e.2

/-! ## One call -/

theorem mem_flushList {l : List Nat} {e : Nat × RuleId} :
    e ∈ flushList s l ↔ e.1 ∈ l ∧ (s.oftable e.1).flags.hidden = false ∧ e.2 ∈ s.rules e.1 := by
  unfold flushList flushableRules
  simp only [List.mem_flatMap, List.mem_map]
  constructor
  · rintro ⟨i, hi, r, hr, rfl⟩
    split at hr
    · cases hr
    · rename_i hh
      exact ⟨hi, by simpa using hh, hr⟩
  · rintro ⟨hi, hh, hr⟩
    exact ⟨e.1, hi, e.2, by rw [if_neg (by simp [hh])]; exact hr, rfl⟩

/-- A rule of table `i` is not one of another table. -/
theorem flushableRules_disjoint (h : EnclaveOk P s) {i j : Nat} (hij : j ≠ i) {r : RuleId}
    (hr : r ∈ flushableRules s j) : r ∉ flushableRules s i := by
  unfold flushableRules at *
  split at hr
  · cases hr
  · split
    · simp
    · exact fun hri => hij (h.disjoint j i r hr hri)

theorem entryOf_congr {T : List RuleId} (hcl : Cleared P s s' T) : entryOf s' = entryOf s := by
  funext e
  simp only [entryOf, flushEntry_congr hcl]

/-- The flush of one table leaves what it visits in the others. -/
theorem flushList_cleared (h : EnclaveOk P s) {i n : Nat} {l : List Nat} (hi : i ∉ l)
    (hcl : Cleared P s s' ((flushableRules s i).take n)) : flushList s' l = flushList s l := by
  refine List.flatMap_congr fun j hj => ?_
  have hji : j ≠ i := ne_of_mem_of_not_mem hj hi
  have hrules : flushableRules s' j = flushableRules s j := by
    have hdisj := fun r (hr : r ∈ flushableRules s j) => flushableRules_disjoint h hji hr
    unfold flushableRules at hdisj ⊢
    rw [hcl.flags, hcl.rules]
    split
    · rfl
    · rename_i hh
      rw [if_neg hh] at hdisj
      refine List.filter_eq_self.mpr fun r hr => ?_
      have := hdisj r hr
      simp only [decide_eq_true_eq]
      exact fun hmem => this (List.mem_of_mem_take hmem)
  rw [hrules]

/-- The loop over the tables: the buffer is filled from the front of the list. -/
theorem foldlM_flushTable_spec (bufSize : Nat) {l : List Nat} : ∀ {f : Flushed},
    BridgeOk P f.state → l.Nodup →
    ∃ s', Cleared P f.state s'
        (((flushList f.state l).take (bufSize - f.out.length)).map Prod.snd) ∧
      l.foldlM (flushTable bufSize) f = some ⟨s',
        f.out ++ ((flushList f.state l).take (bufSize - f.out.length)).map (entryOf f.state),
        f.count + (flushList f.state l).length⟩ := by
  induction l with
  | nil =>
    intro f h _
    refine ⟨f.state, ?_, ?_⟩
    · simpa [flushList] using Cleared.refl h
    · simp [flushList]
  | cons i l ih =>
    intro f h hnodup
    obtain ⟨hil, hnodup⟩ := List.nodup_cons.mp hnodup
    obtain ⟨s1, hcl1, h1⟩ := flushTable_bridge bufSize h i
    obtain ⟨s', hcl2, h2⟩ := ih (f := ⟨s1, f.out ++ ((flushableRules f.state i).take
      (bufSize - f.out.length)).map (flushEntry f.state i),
      f.count + (flushableRules f.state i).length⟩) hcl1.ok hnodup
    have hlist : flushList f.state (i :: l)
        = (flushableRules f.state i).map (fun r => (i, r)) ++ flushList f.state l := rfl
    have hrest := flushList_cleared h.toEnclaveOk hil hcl1
    have hroom : bufSize - (f.out ++ ((flushableRules f.state i).take
        (bufSize - f.out.length)).map (flushEntry f.state i)).length
        = bufSize - f.out.length - ((flushableRules f.state i).map fun r => (i, r)).length := by
      simp only [List.length_append, List.length_map, List.length_take]
      omega
    simp only [hrest, hroom, entryOf_congr hcl1] at hcl2 h2
    refine ⟨s', ?_, ?_⟩
    · rw [hlist, List.take_append, List.map_append, ← List.map_take, List.map_map]
      have hid : (flushableRules f.state i).take (bufSize - f.out.length)
          = ((flushableRules f.state i).take (bufSize - f.out.length)).map
            (Prod.snd ∘ fun r => (i, r)) := by
        simp [Function.comp_def]
      rw [← hid]
      exact hcl1.trans hcl2
    · rw [List.foldlM_cons, h1, Option.bind_eq_bind, Option.bind_some, h2, hlist, List.take_append,
        List.map_append, ← List.map_take, List.map_map]
      simp only [List.append_assoc, List.length_append, List.length_map, Nat.add_assoc]
      rfl

/-- One call of `ecall_ofproto_flush`. -/
theorem ecallOfprotoFlush_spec (h : BridgeOk P s) (bufSize : Nat) :
    ∃ s', Cleared P s s' (((allFlushable s).take bufSize).map Prod.snd) ∧
      ecallOfprotoFlush s bufSize
        = some ⟨s', ((allFlushable s).take bufSize).map (entryOf s), (allFlushable s).length⟩ := by
  obtain ⟨s', hcl, hs⟩ := foldlM_flushTable_spec bufSize (f := ⟨s, [], 0⟩) h
    (List.nodup_range (n := s.nTables))
  refine ⟨s', by simpa [allFlushable] using hcl, ?_⟩
  rw [ecallOfprotoFlush, hs]
  simp [allFlushable]

/-! ## Both calls -/

/-- The rules that the flush visits are all different. -/
theorem flushList_nodup (h : EnclaveOk P s) {l : List Nat} (hl : l.Nodup) :
    ((flushList s l).map Prod.snd).Nodup := by
  induction l with
  | nil => exact List.nodup_nil
  | cons i l ih =>
    obtain ⟨hil, hl⟩ := List.nodup_cons.mp hl
    have hlist : flushList s (i :: l)
        = (flushableRules s i).map (fun r => (i, r)) ++ flushList s l := rfl
    have hfst : ((flushableRules s i).map fun r => (i, r)).map Prod.snd = flushableRules s i := by
      simp [Function.comp_def]
    rw [hlist, List.map_append, hfst, List.nodup_append]
    refine ⟨?_, ih hl, fun r hr q hq hrq => ?_⟩
    · unfold flushableRules
      split
      · exact List.nodup_nil
      · exact h.rules_nodup i
    · obtain ⟨e, he, rfl⟩ := List.mem_map.mp hq
      obtain ⟨hel, hh, he⟩ := mem_flushList.mp he
      have hri : r ∈ s.rules i := by
        unfold flushableRules at hr
        split at hr
        · cases hr
        · exact hr
      exact hil (h.disjoint i e.1 r hri (hrq ▸ he) ▸ hel)

/-- What is left to flush once the first `n` rules are out. -/
theorem allFlushable_cleared (h : EnclaveOk P s) {n : Nat}
    (hcl : Cleared P s s' (((allFlushable s).take n).map Prod.snd)) :
    allFlushable s' = (allFlushable s).drop n := by
  have hfilter : allFlushable s' = (allFlushable s).filter
      fun e => e.2 ∉ ((allFlushable s).take n).map Prod.snd := by
    generalize ((allFlushable s).take n).map Prod.snd = T at hcl
    unfold allFlushable flushList
    rw [hcl.nTables, List.filter_flatMap]
    refine List.flatMap_congr fun i _ => ?_
    rw [List.filter_map]
    unfold flushableRules
    rw [hcl.flags, hcl.rules]
    split
    · rfl
    · rfl
  have hnodup := flushList_nodup h (List.nodup_range (n := s.nTables))
  change ((allFlushable s).map Prod.snd).Nodup at hnodup
  rw [hfilter]
  generalize allFlushable s = F at hnodup
  rw [← List.take_append_drop n F, List.map_append, List.nodup_append] at hnodup
  have htake : (F.take n).filter (fun e => e.2 ∉ (F.take n).map Prod.snd) = [] := by
    refine List.filter_eq_nil_iff.mpr fun e he => ?_
    simp only [decide_eq_true_eq, not_not]
    exact List.mem_map_of_mem he
  have hdrop : (F.drop n).filter (fun e => e.2 ∉ (F.take n).map Prod.snd) = F.drop n := by
    refine List.filter_eq_self.mpr fun e he => ?_
    simp only [decide_eq_true_eq]
    exact fun hmem => hnodup.2.2 e.2 hmem e.2 (List.mem_map_of_mem he) rfl
  calc F.filter (fun e => e.2 ∉ (F.take n).map Prod.snd)
      = (F.take n ++ F.drop n).filter (fun e => e.2 ∉ (F.take n).map Prod.snd) := by
        rw [List.take_append_drop]
    _ = F.drop n := by rw [List.filter_append, htake, hdrop, List.nil_append]

/-- What `ofproto_flush__` gets: all rules are out of their tables and have their entry, but
`n_rules` is the number of rules on the last page. -/
theorem flushPages_spec (h : BridgeOk P s) :
    ∃ s', Cleared P s s' ((allFlushable s).map Prod.snd) ∧
      flushPages s = some (s', (allFlushable s).map (entryOf s),
        if (allFlushable s).length ≤ defaultBufferSize then (allFlushable s).length
        else (allFlushable s).length - defaultBufferSize) := by
  obtain ⟨s1, hcl1, h1⟩ := ecallOfprotoFlush_spec h defaultBufferSize
  have hlen : (((allFlushable s).take defaultBufferSize).map (entryOf s)).length
      = min defaultBufferSize (allFlushable s).length := by simp
  by_cases hfit : (allFlushable s).length ≤ defaultBufferSize
  · have htake : (allFlushable s).take defaultBufferSize = allFlushable s :=
      List.take_of_length_le hfit
    rw [htake] at hcl1 h1
    refine ⟨s1, hcl1, ?_⟩
    simp [flushPages, h1, hfit]
  · have hdrop := allFlushable_cleared h.toEnclaveOk hcl1
    obtain ⟨s2, hcl2, h2⟩ := ecallOfprotoFlush_spec hcl1.ok
      ((allFlushable s).length - defaultBufferSize)
    have hall : ((allFlushable s).drop defaultBufferSize).take
        ((allFlushable s).length - defaultBufferSize) = (allFlushable s).drop defaultBufferSize :=
      List.take_of_length_le (by simp)
    rw [hdrop, hall] at hcl2 h2
    have hleft : min defaultBufferSize (allFlushable s).length = defaultBufferSize := by omega
    refine ⟨s2, ?_, ?_⟩
    · have := hcl1.trans hcl2
      rwa [← List.map_append, List.take_append_drop] at this
    · have hne : (allFlushable s).length ≠ defaultBufferSize := by omega
      simp only [flushPages, h1, hlen, hne, if_false, Option.bind_eq_bind, Option.bind_some, hleft,
        h2, entryOf_congr hcl1, if_neg hfit, ← List.map_append, List.take_append_drop,
        List.length_drop]
      rfl

end OvsSgx
