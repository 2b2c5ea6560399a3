/-
OvsSgx.Flow — flows, wildcards and their compressed forms.

Models trusted/lib/flow.h, flow.c and match.c. A `struct flow` is read by
this code as an array of FLOW_U32S 32-bit words, and that is what `Flow`
is. The compressed form keeps one map bit for each word and the nonzero
words only; the representation rule that the comment on `struct miniflow`
states ("every element in 'values' is nonzero") and the bounds that the
code relies on are fields of `Miniflow`.

The loops of the source over the one bits of a map are `miniOffsets`: the
word offsets in the order in which `zero_rightmost_1bit` and `raw_ctz`
produce them.
-/
import OvsSgx.Lib.BitScan
import OvsSgx.Hash

namespace OvsSgx

open BitScan

/-- `FLOW_U32S`: `sizeof (struct flow)` is 184 bytes. -/
abbrev FLOW_U32S : Nat := 46

/-- `MINI_N_MAPS`. -/
abbrev MINI_N_MAPS : Nat := 2

/-- A `struct flow`, word by word. -/
abbrev Flow := Fin FLOW_U32S → U32

/-- The word at offset `ofs`, zero beyond the end. -/
def Flow.u32 (f : Flow) (ofs : Nat) : U32 := if h : ofs < FLOW_U32S then f ⟨ofs, h⟩ else 0#32

/-- Byte `k` of a flow in memory (words are little-endian). -/
def Flow.byte (f : Flow) (k : Nat) : BitVec 8 :=
  (f.u32 (k / 4) >>> (8 * (k % 4))).setWidth 8

/-- `struct flow_wildcards`. A one bit is significant. -/
structure FlowWildcards where
  masks : Flow

/-- `struct match`. -/
structure Match where
  flow : Flow
  wc : FlowWildcards

/-- The match that accepts every flow. -/
def matchCatchall : Match := ⟨fun _ => 0#32, ⟨fun _ => 0#32⟩⟩

/-! ## Maps -/

/-- `popcount` of util.c: the table `popcount8` at each of the four bytes. -/
def popcount8 (b : BitVec 8) : Nat :=
  (b.getLsbD 0).toNat + (b.getLsbD 1).toNat + (b.getLsbD 2).toNat + (b.getLsbD 3).toNat +
    (b.getLsbD 4).toNat + (b.getLsbD 5).toNat + (b.getLsbD 6).toNat + (b.getLsbD 7).toNat

def popcount (x : U32) : Nat :=
  popcount8 (x.setWidth 8) + popcount8 ((x >>> 8).setWidth 8) +
    popcount8 ((x >>> 16).setWidth 8) + popcount8 ((x >>> 24).setWidth 8)

/-- The word offsets that a loop over the maps visits, in its order. -/
def miniOffsets (map : Fin MINI_N_MAPS → U32) : List Nat :=
  (List.finRange MINI_N_MAPS).flatMap fun i => (scan 32 (map i)).map (· + i.val * 32)

/-- Map `i` after setting the bits of the given offsets one by one. -/
def miniMap (offsets : List Nat) (i : Fin MINI_N_MAPS) : U32 :=
  offsets.foldl (fun m o => if o / 32 = i.val then m ||| (1#32 <<< (o % 32)) else m) 0#32

theorem miniOffsets_eq (map : Fin MINI_N_MAPS → U32) :
    miniOffsets map = ones (map 0) ++ (ones (map 1)).map (· + 32) := by
  have h : ∀ x : U32, scan 32 x = ones x := fun x => scan_eq_ones 32 x (ones_length_le x)
  simp [miniOffsets, h, List.finRange_succ]

theorem mem_miniOffsets {map : Fin MINI_N_MAPS → U32} {o : Nat} :
    o ∈ miniOffsets map ↔
      (o < 32 ∧ (map 0).getLsbD o = true) ∨ (32 ≤ o ∧ o < 64 ∧ (map 1).getLsbD (o - 32) = true) := by
  rw [miniOffsets_eq, List.mem_append, mem_ones, List.mem_map]
  refine or_congr Iff.rfl ⟨?_, ?_⟩
  · rintro ⟨k, hk, rfl⟩
    obtain ⟨h1, h2⟩ := mem_ones.mp hk
    exact ⟨by omega, by omega, by simpa using h2⟩
  · rintro ⟨h1, h2, h3⟩
    exact ⟨o - 32, mem_ones.mpr ⟨by omega, h3⟩, by omega⟩

theorem miniOffsets_sorted (map : Fin MINI_N_MAPS → U32) :
    (miniOffsets map).Pairwise (· < ·) := by
  rw [miniOffsets_eq]
  refine List.pairwise_append.mpr ⟨ones_sorted _, ?_, ?_⟩
  · exact (ones_sorted (map 1)).map (· + 32) fun a b h => by omega
  · intro a ha b hb
    obtain ⟨k, _, rfl⟩ := List.mem_map.mp hb
    have := (mem_ones.mp ha).1
    omega

theorem getLsbD_miniMap (offsets : List Nat) (i : Fin MINI_N_MAPS) (k : Nat) :
    (miniMap offsets i).getLsbD k = true ↔ k < 32 ∧ ∃ o ∈ offsets, o / 32 = i.val ∧ o % 32 = k := by
  unfold miniMap
  induction offsets using List.reverseRecOn with
  | nil => simp
  | append_singleton l a ih =>
    rw [List.foldl_append, List.foldl_cons, List.foldl_nil]
    have hbit : (1#32 <<< (a % 32)).getLsbD k = decide (a % 32 = k) := by
      have h32 : a % 32 < 32 := Nat.mod_lt _ (by omega)
      by_cases hk : k < 32
      · simp only [BitVec.getLsbD_shiftLeft, hk, decide_true, Bool.true_and, BitVec.getLsbD_one]
        by_cases h : a % 32 = k
        · simp [h]
        · by_cases hlt : k < a % 32
          · simp [h, hlt]
          · simp [h, hlt]; omega
      · have : a % 32 ≠ k := by omega
        simp [hk, this]
    by_cases ha : a / 32 = i.val
    · rw [if_pos ha, BitVec.getLsbD_or, Bool.or_eq_true, ih, hbit, decide_eq_true_eq]
      constructor
      · rintro (⟨hk, o, ho, h1, h2⟩ | h)
        · exact ⟨hk, o, List.mem_append_left _ ho, h1, h2⟩
        · exact ⟨by omega, a, by simp, ha, h⟩
      · rintro ⟨hk, o, ho, h1, h2⟩
        rcases List.mem_append.mp ho with ho | ho
        · exact .inl ⟨hk, o, ho, h1, h2⟩
        · exact .inr (by rw [← List.mem_singleton.mp ho]; exact h2)
    · rw [if_neg ha, ih]
      refine and_congr_right fun hk => ⟨?_, ?_⟩
      · rintro ⟨o, ho, h⟩
        exact ⟨o, List.mem_append_left _ ho, h⟩
      · rintro ⟨o, ho, h1, h2⟩
        rcases List.mem_append.mp ho with ho | ho
        · exact ⟨o, ho, h1, h2⟩
        · exact absurd (List.mem_singleton.mp ho ▸ h1) ha

/-- Setting the bits of an ascending list of offsets and scanning the maps
gives the list back. -/
theorem miniOffsets_miniMap {offsets : List Nat} (hsorted : offsets.Pairwise (· < ·))
    (hlt : ∀ o ∈ offsets, o < 64) : miniOffsets (miniMap offsets) = offsets := by
  have hmem : ∀ o, o ∈ miniOffsets (miniMap offsets) ↔ o ∈ offsets := by
    intro o
    rw [mem_miniOffsets, getLsbD_miniMap, getLsbD_miniMap]
    constructor
    · rintro (⟨h1, -, o', ho', h2, h3⟩ | ⟨h1, h2, -, o', ho', h3, h4⟩)
      · have : o' = o := by simp only [Fin.val_zero] at h2; omega
        exact this ▸ ho'
      · have : o' = o := by simp only [Fin.val_one] at h3; omega
        exact this ▸ ho'
    · intro ho
      have := hlt o ho
      by_cases h : o < 32
      · exact .inl ⟨h, h, o, ho, by simp only [Fin.val_zero]; omega, by omega⟩
      · exact .inr ⟨by omega, by omega, by omega, o, ho, by simp only [Fin.val_one]; omega, by omega⟩
  have hne : ∀ {l : List Nat}, l.Pairwise (· < ·) → l.Nodup := fun h => h.imp (fun h => Nat.ne_of_lt h)
  refine List.Perm.eq_of_pairwise (fun a b _ _ h1 h2 => by omega) (miniOffsets_sorted _) hsorted ?_
  exact (List.perm_ext_iff_of_nodup (hne (miniOffsets_sorted _)) (hne hsorted)).mpr hmem

/-! ## Miniflows -/

/-- `struct miniflow`. -/
@[ext]
structure Miniflow where
  map : Fin MINI_N_MAPS → U32
  values : List U32
  length_values : values.length = (miniOffsets map).length
  nonzero : ∀ v ∈ values, v ≠ 0#32
  bound : ∀ o ∈ miniOffsets map, o < FLOW_U32S

/-- `struct minimask`. -/
@[ext]
structure Minimask where
  masks : Miniflow

/-- `struct minimatch`. -/
structure Minimatch where
  flow : Miniflow
  mask : Minimask

/-- `miniflow_n_values`. -/
def miniflowNValues (m : Miniflow) : Nat := popcount (m.map 0) + popcount (m.map 1)

/-- `dst_u32[ofs] |= v`. -/
def Flow.orWord (f : Flow) (ofs : Nat) (v : U32) : Flow :=
  fun k => if k.val = ofs then f k ||| v else f k

/-- `flow_union_with_miniflow`. -/
def flowUnionWithMiniflow (dst : Flow) (src : Miniflow) : Flow :=
  ((miniOffsets src.map).zip src.values).foldl (fun d ov => d.orWord ov.1 ov.2) dst

/-- `flow_wildcards_fold_minimask`. -/
def flowWildcardsFoldMinimask (wc : FlowWildcards) (mask : Minimask) : FlowWildcards :=
  ⟨flowUnionWithMiniflow wc.masks mask.masks⟩

/-- `miniflow_expand`. -/
def miniflowExpand (src : Miniflow) : Flow := flowUnionWithMiniflow (fun _ => 0#32) src

/-- `minimask_expand`. -/
def minimaskExpand (mask : Minimask) : FlowWildcards := ⟨miniflowExpand mask.masks⟩

/-- `minimatch_expand`. -/
def minimatchExpand (src : Minimatch) : Match :=
  ⟨miniflowExpand src.flow, minimaskExpand src.mask⟩

/-- `miniflow_get`: the value is found by counting the map bits below `ofs`. -/
def miniflowGet (m : Miniflow) (ofs : Nat) : U32 :=
  if h : ofs / 32 < MINI_N_MAPS then
    if m.map ⟨ofs / 32, h⟩ &&& (1#32 <<< (ofs % 32)) = 0#32 then 0#32
    else if ofs < 32 then
      m.values.getD (popcount (m.map 0 &&& ((1#32 <<< ofs) - 1#32))) 0#32
    else
      m.values.getD (popcount (m.map 0) +
        popcount (m.map 1 &&& ((1#32 <<< (ofs - 32)) - 1#32))) 0#32
  else 0#32

/-- The offsets of the nonzero words of a flow. -/
def Flow.nonzeroOffsets (src : Flow) : List Nat :=
  (List.range FLOW_U32S).filter fun o => src.u32 o != 0#32

theorem Flow.miniOffsets_nonzeroOffsets (src : Flow) :
    miniOffsets (miniMap src.nonzeroOffsets) = src.nonzeroOffsets :=
  miniOffsets_miniMap (List.pairwise_lt_range.filter _) fun o ho => by
    exact Nat.lt_trans (List.mem_range.mp (List.mem_of_mem_filter ho)) (by decide)

/-- `miniflow_init`: one pass sets the map bits of the nonzero words, a second
pass over the maps copies these words. -/
def miniflowInit (src : Flow) : Miniflow where
  map := miniMap src.nonzeroOffsets
  values := (miniOffsets (miniMap src.nonzeroOffsets)).map src.u32
  length_values := by simp
  nonzero := fun v hv => by
    obtain ⟨o, ho, rfl⟩ := List.mem_map.mp hv
    rw [src.miniOffsets_nonzeroOffsets] at ho
    simpa using (List.mem_filter.mp ho).2
  bound := fun o ho => by
    rw [src.miniOffsets_nonzeroOffsets] at ho
    exact List.mem_range.mp (List.mem_of_mem_filter ho)

/-- `minimask_init`. -/
def minimaskInit (wc : FlowWildcards) : Minimask := ⟨miniflowInit wc.masks⟩

/-- `minimatch_init`. -/
def minimatchInit (src : Match) : Minimatch := ⟨miniflowInit src.flow, minimaskInit src.wc⟩

/-- The offsets that survive in `minimask_combine`: those in both maps whose
combined word is not zero. -/
def combineOffsets (a b : Miniflow) : List Nat :=
  (miniOffsets fun i => a.map i &&& b.map i).filter fun o =>
    miniflowGet a o &&& miniflowGet b o != 0#32

theorem combineOffsets_bound {a b : Miniflow} {o : Nat} (ho : o ∈ combineOffsets a b) :
    o < FLOW_U32S := by
  refine a.bound o (mem_miniOffsets.mpr ?_)
  have := mem_miniOffsets.mp (List.mem_of_mem_filter ho)
  simp only [BitVec.getLsbD_and, Bool.and_eq_true] at this
  exact this.imp (fun h => ⟨h.1, h.2.1⟩) (fun h => ⟨h.1, h.2.1, h.2.2.1⟩)

theorem miniOffsets_combineOffsets (a b : Miniflow) :
    miniOffsets (miniMap (combineOffsets a b)) = combineOffsets a b :=
  miniOffsets_miniMap ((miniOffsets_sorted _).filter _) fun o ho =>
    Nat.lt_trans (combineOffsets_bound ho) (by decide)

/-- `minimask_combine`. -/
def minimaskCombine (a b : Minimask) : Minimask where
  masks :=
    { map := miniMap (combineOffsets a.masks b.masks)
      values := (combineOffsets a.masks b.masks).map fun o =>
        miniflowGet a.masks o &&& miniflowGet b.masks o
      length_values := by rw [miniOffsets_combineOffsets, List.length_map]
      nonzero := fun v hv => by
        obtain ⟨o, ho, rfl⟩ := List.mem_map.mp hv
        simpa using (List.mem_filter.mp ho).2
      bound := fun o ho => by
        rw [miniOffsets_combineOffsets] at ho
        exact combineOffsets_bound ho }

/-- `miniflow_equal`. -/
def miniflowEqual (a b : Miniflow) : Bool :=
  (List.finRange MINI_N_MAPS).all (fun i => a.map i == b.map i) &&
    a.values.take (miniflowNValues a) == b.values.take (miniflowNValues a)

/-- `minimask_equal`. -/
def minimaskEqual (a b : Minimask) : Bool := miniflowEqual a.masks b.masks

/-- `minimatch_equal`. -/
def minimatchEqual (a b : Minimatch) : Bool :=
  miniflowEqual a.flow b.flow && minimaskEqual a.mask b.mask

/-- `miniflow_equal_in_minimask`. -/
def miniflowEqualInMinimask (a b : Miniflow) (mask : Minimask) : Bool :=
  ((miniOffsets mask.masks.map).zip mask.masks.values).all fun op =>
    (miniflowGet a op.1 ^^^ miniflowGet b op.1) &&& op.2 == 0#32

/-- `miniflow_equal_flow_in_minimask`. -/
def miniflowEqualFlowInMinimask (a : Miniflow) (b : Flow) (mask : Minimask) : Bool :=
  ((miniOffsets mask.masks.map).zip mask.masks.values).all fun op =>
    (miniflowGet a op.1 ^^^ b.u32 op.1) &&& op.2 == 0#32

/-- `minimask_has_extra`. -/
def minimaskHasExtra (a b : Minimask) : Bool :=
  (miniOffsets fun i => a.masks.map i ||| b.masks.map i).any fun ofs =>
    (miniflowGet a.masks ofs &&& miniflowGet b.masks ofs) != miniflowGet b.masks ofs

/-- `minimask_is_catchall`. -/
def minimaskIsCatchall (mask : Minimask) : Bool :=
  mask.masks.map 0 ||| mask.masks.map 1 == 0#32

/-! ## Hashes -/

/-- `miniflow_hash`. -/
def miniflowHash (m : Miniflow) (basis : U32) : U32 :=
  hash3words (m.map 0) (m.map 1) (hashWords (m.values.take (miniflowNValues m)) basis)

/-- `minimask_hash`. -/
def minimaskHash (mask : Minimask) (basis : U32) : U32 := miniflowHash mask.masks basis

/-- `minimatch_hash`. -/
def minimatchHash (m : Minimatch) (basis : U32) : U32 :=
  miniflowHash m.flow (minimaskHash m.mask basis)

/-- `miniflow_hash_in_minimask`. -/
def miniflowHashInMinimask (flow : Miniflow) (mask : Minimask) (basis : U32) : U32 :=
  let ps := (miniOffsets mask.masks.map).zip mask.masks.values
  mhashFinish (ps.foldl (fun h op => mhashAdd h (miniflowGet flow op.1 &&& op.2)) basis)
    (ps.length * 4)

/-- `flow_hash_in_minimask`. -/
def flowHashInMinimask (flow : Flow) (mask : Minimask) (basis : U32) : U32 :=
  let ps := (miniOffsets mask.masks.map).zip mask.masks.values
  mhashFinish (ps.foldl (fun h op => mhashAdd h (flow.u32 op.1 &&& op.2)) basis)
    (ps.length * 4)

/-! ## VLAN -/

/-- `ntohs` on a little-endian machine. -/
def ntohs (x : BitVec 16) : BitVec 16 := (x >>> 8) ||| (x <<< 8)

/-- `miniflow_get_vid`: `vlan_tci` is the upper half of word 35 (byte 142). -/
def miniflowGetVid (m : Miniflow) : BitVec 16 :=
  ntohs ((miniflowGet m 35 >>> 16).setWidth 16) &&& 0x0fff#16

/-- `minimask_get_vid_mask`. -/
def minimaskGetVidMask (mask : Minimask) : BitVec 16 := miniflowGetVid mask.masks

end OvsSgx
