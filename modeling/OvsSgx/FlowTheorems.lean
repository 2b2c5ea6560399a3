/-
OvsSgx.FlowTheorems — the compressed forms agree with the expanded ones.

`miniflowGet` reads a word of a compressed flow. Everything the classifier
asks of compressed flows is expressed here through these words: equality,
equality under a mask, the two hashes, and the union with an expanded
wildcard mask.
-/
import OvsSgx.Flow

namespace OvsSgx

open BitScan

/-! ## Counting map bits -/

theorem popcount8_eq (b : BitVec 8) : popcount8 b = (List.range 8).countP b.getLsbD := by
  simp only [popcount8, List.range_succ, List.range_zero, List.nil_append, List.countP_append,
    List.countP_cons, List.countP_nil]
  simp only [Bool.toNat, cond_eq_ite]
  omega

theorem countP_byte (x : U32) (k : Nat) :
    (List.range 8).countP ((x >>> k).setWidth 8).getLsbD
      = ((List.range 8).map (k + ·)).countP x.getLsbD := by
  rw [List.countP_map]
  refine List.countP_congr fun i hi => ?_
  have : i < 8 := List.mem_range.mp hi
  simp [this]

theorem popcount_eq (x : U32) : popcount x = (ones x).length := by
  have hrange : List.range 32 = (List.range 8).map (0 + ·) ++ ((List.range 8).map (8 + ·) ++
      ((List.range 8).map (16 + ·) ++ (List.range 8).map (24 + ·))) := by decide
  have h0 : x.setWidth 8 = (x >>> 0).setWidth 8 := by simp
  unfold ones popcount
  rw [← List.countP_eq_length_filter, hrange, List.countP_append, List.countP_append,
    List.countP_append, h0]
  simp only [popcount8_eq, countP_byte]
  omega

theorem miniflowNValues_eq (m : Miniflow) : miniflowNValues m = m.values.length := by
  rw [m.length_values, miniOffsets_eq, List.length_append, List.length_map]
  simp only [miniflowNValues, popcount_eq]

/-! ## Words of a compressed flow -/

/-- The offset and value pairs of a compressed flow, in the order of the loops. -/
def Miniflow.pairs (m : Miniflow) : List (Nat × U32) := (miniOffsets m.map).zip m.values

theorem Miniflow.pairs_fst (m : Miniflow) : m.pairs.map Prod.fst = miniOffsets m.map :=
  List.map_fst_zip (Nat.le_of_eq m.length_values.symm)

theorem and_bit_eq_zero (x : U32) {k : Nat} (hk : k < 32) :
    x &&& (1#32 <<< k) = 0#32 ↔ x.getLsbD k = false := by
  have hbit : ∀ i, (1#32 <<< k).getLsbD i = decide (i = k) := by
    intro i
    by_cases hi : i < 32
    · simp only [BitVec.getLsbD_shiftLeft, hi, decide_true, Bool.true_and, BitVec.getLsbD_one]
      by_cases h : i = k
      · simp [h]
      · by_cases hlt : i < k
        · simp [h, hlt]
        · simp [h, hlt]; omega
    · have : i ≠ k := by omega
      simp [hi, this]
  constructor
  · intro h
    have := congrArg (fun y => y.getLsbD k) h
    simpa [hbit] using this
  · intro h
    refine BitVec.eq_of_getLsbD_eq fun i hi => ?_
    rw [BitVec.getLsbD_and, hbit]
    by_cases hik : i = k
    · simp [hik, h]
    · simp [hik]

/-- The index that `miniflowGet` computes is the number of offsets below. -/
theorem miniflowGet_eq (m : Miniflow) (o : Nat) :
    miniflowGet m o =
      if o ∈ miniOffsets m.map then
        m.values.getD ((miniOffsets m.map).filter (· < o)).length 0#32
      else 0#32 := by
  unfold miniflowGet
  by_cases h : o / 32 < MINI_N_MAPS
  · have ho : o < 64 := by
      have : o / 32 < 2 := h
      omega
    rw [dif_pos h]
    simp only [and_bit_eq_zero _ (Nat.mod_lt o (show 32 > 0 by omega))]
    by_cases hlo : o < 32
    · have hq : o / 32 = 0 := by omega
      have hr : o % 32 = o := by omega
      have hmap : m.map ⟨o / 32, h⟩ = m.map 0 := by congr 1; exact Fin.ext hq
      rw [hmap, hr]
      have hmem : o ∈ miniOffsets m.map ↔ (m.map 0).getLsbD o = true := by
        rw [mem_miniOffsets]; constructor
        · rintro (h1 | h1)
          · exact h1.2
          · omega
        · exact fun h1 => .inl ⟨hlo, h1⟩
      by_cases hb : (m.map 0).getLsbD o = true
      · rw [if_neg (by simp [hb]), if_pos (hmem.mpr hb), if_pos hlo, popcount_eq,
          ones_and_lowMask _ _ hlo, miniOffsets_eq, List.filter_append]
        have hnil : ((ones (m.map 1)).map (· + 32)).filter (· < o) = [] := by
          refine List.filter_eq_nil_iff.mpr fun a ha => ?_
          obtain ⟨k, _, rfl⟩ := List.mem_map.mp ha
          simp; omega
        rw [hnil, List.append_nil]
      · rw [if_pos (by simpa using hb), if_neg (fun h1 => hb (hmem.mp h1))]
    · have hq : o / 32 = 1 := by omega
      have hr : o % 32 = o - 32 := by omega
      have hmap : m.map ⟨o / 32, h⟩ = m.map 1 := by congr 1; exact Fin.ext hq
      rw [hmap, hr]
      have hmem : o ∈ miniOffsets m.map ↔ (m.map 1).getLsbD (o - 32) = true := by
        rw [mem_miniOffsets]; constructor
        · rintro (h1 | h1)
          · omega
          · exact h1.2.2
        · exact fun h1 => .inr ⟨by omega, ho, h1⟩
      by_cases hb : (m.map 1).getLsbD (o - 32) = true
      · rw [if_neg (by simp [hb]), if_pos (hmem.mpr hb), if_neg hlo, popcount_eq, popcount_eq,
          ones_and_lowMask _ _ (by omega), miniOffsets_eq, List.filter_append, List.length_append]
        have hall : (ones (m.map 0)).filter (· < o) = ones (m.map 0) := by
          refine List.filter_eq_self.mpr fun a ha => ?_
          have := (mem_ones.mp ha).1
          simp; omega
        have hshift : (((ones (m.map 1)).map (· + 32)).filter (· < o)).length
            = ((ones (m.map 1)).filter (· < o - 32)).length := by
          rw [List.filter_map, List.length_map]
          congr 1
          refine List.filter_congr fun a _ => ?_
          simp only [Function.comp, decide_eq_decide]
          omega
        rw [hall, hshift]
      · rw [if_pos (by simpa using hb), if_neg (fun h1 => hb (hmem.mp h1))]
  · rw [dif_neg h, if_neg]
    intro hmem
    have h1 : o < 46 := m.bound o hmem
    have h2 : ¬ o / 32 < 2 := h
    omega

/-- In an ascending list, as many elements are below the one at position `k`
as there are positions below `k`. -/
theorem length_filter_lt_getElem {l : List Nat} (hl : l.Pairwise (· < ·)) {k : Nat}
    (hk : k < l.length) : (l.filter (· < l[k])).length = k := by
  induction l generalizing k with
  | nil => simp at hk
  | cons a l ih =>
    obtain ⟨ha, hl'⟩ := List.pairwise_cons.mp hl
    cases k with
    | zero =>
      rw [List.length_eq_zero_iff, List.filter_eq_nil_iff]
      intro b hb
      rcases List.mem_cons.mp hb with rfl | hb
      · simp
      · have := ha b hb
        simp; omega
    | succ k =>
      have hk' : k < l.length := by simpa using hk
      have := ha l[k] (List.getElem_mem hk')
      rw [List.getElem_cons_succ, List.filter_cons_of_pos (by simpa using this),
        List.length_cons, ih hl' hk']

theorem miniflowGet_of_mem {m : Miniflow} {o : Nat} {v : U32} (h : (o, v) ∈ m.pairs) :
    miniflowGet m o = v := by
  obtain ⟨k, hk, hkv⟩ := List.mem_iff_getElem.mp h
  have hlen : m.pairs.length = (miniOffsets m.map).length := by
    rw [Miniflow.pairs, List.length_zip, m.length_values, Nat.min_self]
  have hk1 : k < (miniOffsets m.map).length := by omega
  have hk2 : k < m.values.length := by rw [m.length_values]; exact hk1
  simp only [Miniflow.pairs, List.getElem_zip, Prod.mk.injEq] at hkv
  rw [miniflowGet_eq, ← hkv.1, if_pos (List.getElem_mem hk1),
    length_filter_lt_getElem (miniOffsets_sorted _) hk1, ← hkv.2]
  simp [List.getD_eq_getElem?_getD, List.getElem?_eq_getElem hk2]

theorem miniflowGet_of_notMem {m : Miniflow} {o : Nat} (h : o ∉ miniOffsets m.map) :
    miniflowGet m o = 0#32 := by
  rw [miniflowGet_eq, if_neg h]

theorem exists_pair {m : Miniflow} {o : Nat} (h : o ∈ miniOffsets m.map) :
    ∃ v, (o, v) ∈ m.pairs := by
  rw [← m.pairs_fst] at h
  obtain ⟨p, hp, rfl⟩ := List.mem_map.mp h
  exact ⟨p.2, hp⟩

/-- The map bits are exactly the nonzero words. -/
theorem mem_miniOffsets_iff (m : Miniflow) (o : Nat) :
    o ∈ miniOffsets m.map ↔ miniflowGet m o ≠ 0#32 := by
  constructor
  · intro h
    obtain ⟨v, hv⟩ := exists_pair h
    rw [miniflowGet_of_mem hv]
    exact m.nonzero v (List.of_mem_zip hv).2
  · intro h
    by_contra hn
    exact h (miniflowGet_of_notMem hn)

theorem miniflowGet_of_ge {m : Miniflow} {o : Nat} (h : FLOW_U32S ≤ o) :
    miniflowGet m o = 0#32 :=
  miniflowGet_of_notMem fun hm => absurd (m.bound o hm) (by omega)

/-- A property of all pairs is a property of all words with a map bit. -/
theorem forall_pairs {m : Miniflow} {P : Nat → U32 → Prop} (hzero : ∀ o, P o 0#32) :
    (∀ p ∈ m.pairs, P p.1 p.2) ↔ ∀ o, P o (miniflowGet m o) := by
  constructor
  · intro h o
    by_cases ho : o ∈ miniOffsets m.map
    · obtain ⟨v, hv⟩ := exists_pair ho
      rw [miniflowGet_of_mem hv]
      exact h _ hv
    · rw [miniflowGet_of_notMem ho]
      exact hzero o
  · intro h p hp
    have := h p.1
    rwa [miniflowGet_of_mem hp] at this

/-! ## Equality -/

/-- A compressed flow is determined by its words. -/
theorem miniflow_ext {a b : Miniflow} (h : ∀ o, miniflowGet a o = miniflowGet b o) : a = b := by
  have hoff : ∀ o, o ∈ miniOffsets a.map ↔ o ∈ miniOffsets b.map := by
    intro o
    rw [mem_miniOffsets_iff, mem_miniOffsets_iff, h]
  have hmap : a.map = b.map := by
    funext i
    refine BitVec.eq_of_getLsbD_eq fun k hk => ?_
    rw [Bool.eq_iff_iff]
    have hi : i = 0 ∨ i = 1 := by fin_cases i <;> simp
    rcases hi with rfl | rfl
    · have := hoff k
      rw [mem_miniOffsets, mem_miniOffsets] at this
      constructor
      · intro hb
        rcases this.mp (.inl ⟨hk, hb⟩) with h1 | h1
        · exact h1.2
        · omega
      · intro hb
        rcases this.mpr (.inl ⟨hk, hb⟩) with h1 | h1
        · exact h1.2
        · omega
    · have := hoff (k + 32)
      rw [mem_miniOffsets, mem_miniOffsets] at this
      simp only [Nat.add_sub_cancel] at this
      constructor
      · intro hb
        rcases this.mp (.inr ⟨by omega, by omega, hb⟩) with h1 | h1
        · omega
        · exact h1.2.2
      · intro hb
        rcases this.mpr (.inr ⟨by omega, by omega, hb⟩) with h1 | h1
        · omega
        · exact h1.2.2
  have hvalues : ∀ m : Miniflow, m.values = (miniOffsets m.map).map (miniflowGet m) := by
    intro m
    have hsnd : m.pairs.map Prod.snd = m.values :=
      List.map_snd_zip (Nat.le_of_eq m.length_values)
    rw [← hsnd, ← m.pairs_fst, List.map_map]
    exact List.map_congr_left fun p hp => (miniflowGet_of_mem (o := p.1) (v := p.2) hp).symm
  refine Miniflow.ext hmap ?_
  rw [hvalues a, hvalues b, hmap]
  exact List.map_congr_left fun o _ => h o

theorem miniflowEqual_iff {a b : Miniflow} : miniflowEqual a b = true ↔ a = b := by
  constructor
  · intro h
    unfold miniflowEqual at h
    rw [Bool.and_eq_true, List.all_eq_true, beq_iff_eq] at h
    obtain ⟨h1, h2⟩ := h
    have hmap : a.map = b.map := by
      funext i
      simpa using h1 i (List.mem_finRange i)
    have hlen : miniflowNValues a = miniflowNValues b := by
      rw [miniflowNValues_eq, miniflowNValues_eq, a.length_values, b.length_values, hmap]
    refine Miniflow.ext hmap ?_
    rw [List.take_of_length_le (by rw [miniflowNValues_eq])] at h2
    rwa [hlen, List.take_of_length_le (by rw [miniflowNValues_eq])] at h2
  · rintro rfl
    simp [miniflowEqual]

theorem minimaskEqual_iff {a b : Minimask} : minimaskEqual a b = true ↔ a = b := by
  rw [minimaskEqual, miniflowEqual_iff, Minimask.ext_iff]

theorem minimatchEqual_iff {a b : Minimatch} :
    minimatchEqual a b = true ↔ a.flow = b.flow ∧ a.mask = b.mask := by
  rw [minimatchEqual, Bool.and_eq_true, miniflowEqual_iff, minimaskEqual_iff]

/-! ## Expansion -/

theorem foldl_orWord : ∀ (l : List (Nat × U32)) (d : Flow) (k : Fin FLOW_U32S),
    (l.map Prod.fst).Nodup →
    (∀ v, (k.val, v) ∈ l → (l.foldl (fun d ov => d.orWord ov.1 ov.2) d) k = d k ||| v) ∧
      (k.val ∉ l.map Prod.fst → (l.foldl (fun d ov => d.orWord ov.1 ov.2) d) k = d k)
  | [], d, k, _ => by simp
  | p :: l, d, k, hnd => by
      rw [List.map_cons] at hnd
      obtain ⟨hp, hl⟩ := List.nodup_cons.mp hnd
      obtain ⟨ih1, ih2⟩ := foldl_orWord l (d.orWord p.1 p.2) k hl
      constructor
      · intro v hv
        rw [List.foldl_cons]
        rcases List.mem_cons.mp hv with rfl | hv
        · rw [ih2 hp]
          simp [Flow.orWord]
        · have hne : k.val ≠ p.1 := fun heq =>
            hp (List.mem_map.mpr ⟨_, hv, heq⟩)
          rw [ih1 v hv]
          simp [Flow.orWord, hne]
      · intro hk
        rw [List.map_cons, List.mem_cons, not_or] at hk
        rw [List.foldl_cons, ih2 hk.2]
        simp [Flow.orWord, hk.1]

theorem flowUnionWithMiniflow_apply (d : Flow) (m : Miniflow) (k : Fin FLOW_U32S) :
    flowUnionWithMiniflow d m k = d k ||| miniflowGet m k.val := by
  have hnd : (m.pairs.map Prod.fst).Nodup := by
    rw [m.pairs_fst]
    exact (miniOffsets_sorted m.map).imp (fun h => Nat.ne_of_lt h)
  obtain ⟨h1, h2⟩ := foldl_orWord m.pairs d k hnd
  by_cases hk : k.val ∈ miniOffsets m.map
  · obtain ⟨v, hv⟩ := exists_pair hk
    rw [miniflowGet_of_mem hv]
    exact h1 v hv
  · rw [miniflowGet_of_notMem hk, BitVec.or_zero]
    exact h2 (by rwa [m.pairs_fst])

theorem miniflowExpand_apply (m : Miniflow) (k : Fin FLOW_U32S) :
    miniflowExpand m k = miniflowGet m k.val := by
  rw [miniflowExpand, flowUnionWithMiniflow_apply, BitVec.zero_or]

theorem u32_miniflowExpand (m : Miniflow) (o : Nat) :
    (miniflowExpand m).u32 o = miniflowGet m o := by
  unfold Flow.u32
  split
  · rw [miniflowExpand_apply]
  · exact (miniflowGet_of_ge (by omega)).symm

/-- Compressing a flow loses nothing. -/
theorem miniflowGet_miniflowInit (f : Flow) (o : Nat) : miniflowGet (miniflowInit f) o = f.u32 o := by
  by_cases ho : o ∈ miniOffsets (miniflowInit f).map
  · refine miniflowGet_of_mem ?_
    have : (miniflowInit f).pairs
        = (miniOffsets (miniflowInit f).map).map fun o => (o, f.u32 o) := by
      show (miniOffsets _).zip ((miniOffsets _).map f.u32) = _
      exact List.map_prod_left_eq_zip.symm
    rw [this]
    exact List.mem_map.mpr ⟨o, ho, rfl⟩
  · rw [miniflowGet_of_notMem ho]
    by_contra hne
    refine ho ?_
    show o ∈ miniOffsets (miniMap f.nonzeroOffsets)
    rw [f.miniOffsets_nonzeroOffsets]
    have hlt : o < FLOW_U32S := by
      by_contra hge
      exact hne (by simp [Flow.u32, hge])
    exact List.mem_filter.mpr ⟨List.mem_range.mpr hlt, by simpa using fun h => hne h.symm⟩

/-! ## Comparison and hashing under a mask -/

theorem miniflowEqualFlowInMinimask_iff {a : Miniflow} {f : Flow} {mask : Minimask} :
    miniflowEqualFlowInMinimask a f mask = true ↔
      ∀ o, (miniflowGet a o ^^^ f.u32 o) &&& miniflowGet mask.masks o = 0#32 := by
  rw [← forall_pairs (P := fun o v => (miniflowGet a o ^^^ f.u32 o) &&& v = 0#32) (by simp)]
  simp [miniflowEqualFlowInMinimask, Miniflow.pairs, List.all_eq_true]

theorem xor_and_eq_zero_iff (a b m : U32) : (a ^^^ b) &&& m = 0#32 ↔ a &&& m = b &&& m := by
  constructor
  · intro h
    refine BitVec.eq_of_getLsbD_eq fun i hi => ?_
    have := congrArg (fun y => y.getLsbD i) h
    simp only [BitVec.getLsbD_and, BitVec.getLsbD_xor, BitVec.getLsbD_zero] at this ⊢
    revert this
    cases a.getLsbD i <;> cases b.getLsbD i <;> cases m.getLsbD i <;> simp
  · intro h
    refine BitVec.eq_of_getLsbD_eq fun i hi => ?_
    have := congrArg (fun y => y.getLsbD i) h
    simp only [BitVec.getLsbD_and, BitVec.getLsbD_xor, BitVec.getLsbD_zero] at this ⊢
    revert this
    cases a.getLsbD i <;> cases b.getLsbD i <;> cases m.getLsbD i <;> simp

theorem foldl_hash_congr {l : List (Nat × U32)} {f g : Nat → U32} {b : U32}
    (h : ∀ p ∈ l, f p.1 &&& p.2 = g p.1 &&& p.2) :
    l.foldl (fun h op => mhashAdd h (f op.1 &&& op.2)) b
      = l.foldl (fun h op => mhashAdd h (g op.1 &&& op.2)) b := by
  refine List.foldl_ext _ _ b fun acc p hp => ?_
  rw [h p hp]

/-- The two hashes under a mask agree on what agrees under the mask. -/
theorem hashInMinimask_congr {a : Miniflow} {f : Flow} {mask : Minimask} {basis : U32}
    (h : ∀ o, miniflowGet a o &&& miniflowGet mask.masks o = f.u32 o &&& miniflowGet mask.masks o) :
    miniflowHashInMinimask a mask basis = flowHashInMinimask f mask basis := by
  have hp : ∀ p ∈ mask.masks.pairs, miniflowGet a p.1 &&& p.2 = f.u32 p.1 &&& p.2 :=
    (forall_pairs (P := fun o v => miniflowGet a o &&& v = f.u32 o &&& v) (by simp)).mpr h
  exact congrArg (mhashFinish · (mask.masks.pairs.length * 4)) (foldl_hash_congr hp)

theorem flowHashInMinimask_congr {f g : Flow} {mask : Minimask} (basis : U32)
    (h : ∀ o, f.u32 o &&& miniflowGet mask.masks o = g.u32 o &&& miniflowGet mask.masks o) :
    flowHashInMinimask f mask basis = flowHashInMinimask g mask basis := by
  have hp : ∀ p ∈ mask.masks.pairs, f.u32 p.1 &&& p.2 = g.u32 p.1 &&& p.2 :=
    (forall_pairs (P := fun o v => f.u32 o &&& v = g.u32 o &&& v) (by simp)).mpr h
  exact congrArg (mhashFinish · (mask.masks.pairs.length * 4)) (foldl_hash_congr hp)

end OvsSgx
