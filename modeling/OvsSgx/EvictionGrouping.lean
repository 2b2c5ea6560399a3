/-
OvsSgx.EvictionGrouping — what the eviction group of a rule depends on.

`eviction_group_hash_rule` hashes for each configured subfield the value of
its field with all other bits zeroed. `bitwise_zero` zeroes a range of bits
of a value in network byte order: the bits of a first byte, whole bytes, and
the bits of a last byte. The group of a rule is thus a function of which
fields are there and of the selected bits.

The table `mf_fields` is not part of the enclave's sources; of an entry the
code relies on `n_bytes` being the size of the value. The hash of a value is
a parameter where it does not matter.
-/
import OvsSgx.OftableTheorems
import OvsSgx.Lib.ByteBits

namespace OvsSgx

open ByteBits

/-! ## Zeroing a range of bits -/

section Zero

variable {l : List U8}

theorem zeroDown_zero (fuel : Nat) (l : List U8) (i : Nat) : zeroDown fuel l i 0 = l := by
  cases fuel <;> simp [zeroDown]

theorem zeroDown_length (fuel : Nat) (l : List U8) (i n : Nat) :
    (zeroDown fuel l i n).length = l.length := by
  induction fuel generalizing l i n with
  | zero => rfl
  | succ fuel ih =>
    rw [zeroDown]
    split
    · rw [ih, List.length_set]
    · split
      · rfl
      · rw [List.length_modify]

/-- From byte `i` downwards `n` bits are zeroed. -/
theorem bit_zeroDown {fuel n : Nat} (hfuel : n < 8 * fuel) : ∀ {l : List U8} {i k : Nat},
    i < l.length → n ≤ 8 * (i + 1) → k < 8 * l.length →
    bit (zeroDown fuel l i n) k = (bit l k && !decide (8 * (l.length - 1 - i) ≤ k ∧
      k < 8 * (l.length - 1 - i) + n)) := by
  induction fuel generalizing n with
  | zero => omega
  | succ fuel ih =>
    intro l i k hi hn hk
    rw [zeroDown]
    by_cases hwhole : 8 ≤ n
    · rw [if_pos hwhole]
      have hset := bit_set_zero hi hk
      by_cases hlast : i = 0
      · -- the first byte of the string is the last one to be zeroed
        have hn8 : n - 8 = 0 := by omega
        have hiff : k / 8 = l.length - 1 - i ↔ (8 * (l.length - 1 - i) ≤ k ∧
            k < 8 * (l.length - 1 - i) + n) := by omega
        rw [hn8, zeroDown_zero, hset]
        simp only [hiff]
      · have hlen : (l.set i 0#8).length = l.length := List.length_set
        rw [ih (by omega) (by rw [hlen]; omega) (by omega) (by rw [hlen]; exact hk), hlen, hset,
          Bool.and_assoc, ← Bool.not_or, ← Bool.decide_or]
        have hiff : (k / 8 = l.length - 1 - i ∨ (8 * (l.length - 1 - (i - 1)) ≤ k ∧
            k < 8 * (l.length - 1 - (i - 1)) + (n - 8))) ↔ (8 * (l.length - 1 - i) ≤ k ∧
            k < 8 * (l.length - 1 - i) + n) := by omega
        simp only [hiff]
    · rw [if_neg hwhole]
      split
      · rename_i hzero
        have hout : ¬ (8 * (l.length - 1 - i) ≤ k ∧ k < 8 * (l.length - 1 - i) + n) := by omega
        simp [hout]
      · have hclear := bit_clear (o := 0) (n := n) (by omega) (by omega) hi hk
        rw [BitVec.shiftLeft_zero] at hclear
        simpa using hclear

theorem bitwiseZero_length (l : List U8) (len ofs n : Nat) :
    (bitwiseZero l len ofs n).length = l.length := by
  unfold bitwiseZero
  split
  · rfl
  · dsimp only
    split
    · exact zeroDown_length ..
    · split
      · rw [List.length_modify]
      · rw [zeroDown_length, List.length_modify]

/-- `bitwise_zero` zeroes the bits `ofs` to `ofs + n - 1` and no others. -/
theorem bit_bitwiseZero {ofs n k : Nat} (hrange : ofs + n ≤ 8 * l.length) (hk : k < 8 * l.length) :
    bit (bitwiseZero l l.length ofs n) k = (bit l k && !decide (ofs ≤ k ∧ k < ofs + n)) := by
  unfold bitwiseZero
  split
  · rename_i hzero
    have hout : ¬ (ofs ≤ k ∧ k < ofs + n) := by omega
    simp [hout]
  · rename_i hpos
    dsimp only
    have hi : l.length - (ofs / 8 + 1) < l.length := by omega
    have hbyte : l.length - 1 - (l.length - (ofs / 8 + 1)) = ofs / 8 := by omega
    split
    · rename_i haligned
      have hbase : 8 * (ofs / 8) = ofs := by omega
      rw [bit_zeroDown (by omega) hi (by omega) hk, hbyte, hbase]
    · rename_i hunaligned
      have hclear := bit_clear (o := ofs % 8) (n := min n (8 - ofs % 8)) (by omega) (by omega) hi hk
      have hbase : 8 * (ofs / 8) + ofs % 8 = ofs := by omega
      rw [hbyte, hbase] at hclear
      split
      · rename_i hdone
        have hmin : min n (8 - ofs % 8) = n := by omega
        rw [hmin] at hclear ⊢
        exact hclear
      · -- the chunk ends at a byte boundary
        rename_i hmore
        have hmin : min n (8 - ofs % 8) = 8 - ofs % 8 := by omega
        rw [hmin] at hclear ⊢
        generalize hl' : (l.modify (l.length - (ofs / 8 + 1)) fun b =>
          b &&& ~~~(((1#8 <<< (8 - ofs % 8)) - 1#8) <<< (ofs % 8))) = l' at hclear ⊢
        have hlen : l'.length = l.length := by rw [← hl', List.length_modify]
        rw [bit_zeroDown (by omega) (by omega) (by omega) (by omega), hclear, hlen,
          Bool.and_assoc, ← Bool.not_or, ← Bool.decide_or]
        have hiff : ((ofs ≤ k ∧ k < ofs + (8 - ofs % 8)) ∨
            (8 * (l.length - 1 - (l.length - (ofs / 8 + 1) - 1)) ≤ k ∧
              k < 8 * (l.length - 1 - (l.length - (ofs / 8 + 1) - 1)) + (n - (8 - ofs % 8)))) ↔
            (ofs ≤ k ∧ k < ofs + n) := by omega
        simp only [hiff]

end Zero

/-! ## The bits of a subfield -/

/-- The entry of `mf_fields` has the size of the value. -/
def MfField.Sized (mf : MfField) : Prop := ∀ flow, (mfGetValue mf flow).length = mf.nBytes

/-- The subfield lies within its field. -/
def MfSubfield.Within (sf : MfSubfield) : Prop := sf.ofs + sf.nBits ≤ 8 * sf.field.nBytes

/-- The value of a subfield's field after the two calls of `bitwise_zero`. -/
def maskSubfield (sf : MfSubfield) (value : List U8) : List U8 :=
  let value := if sf.ofs = 0 then value else bitwiseZero value sf.field.nBytes 0 sf.ofs
  let start := sf.ofs + sf.nBits
  if start < sf.field.nBytes * 8 then
    bitwiseZero value sf.field.nBytes start (sf.field.nBytes * 8 - start)
  else value

/-- The contribution of one subfield, for any `hash_bytes`. -/
def hashSubfieldWith (hash : List U8 → U32 → U32) (flow : Flow) (basis : U32) (sf : MfSubfield) :
    U32 :=
  if mfArePrereqsOk sf.field flow then
    hash ((maskSubfield sf (mfGetValue sf.field flow)).take sf.field.nBytes) basis
  else hashInt basis 0#32

/-- `eviction_group_hash_rule`, for any `hash_bytes`. -/
def evictionGroupHashRuleWith (hash : List U8 → U32 → U32) (tbl : Oftable) (rule : ClsRule) : U32 :=
  (tbl.evictionFields.getD []).foldl (hashSubfieldWith hash (miniflowExpand rule.match.flow))
    tbl.evictionGroupIdBasis

theorem evictionGroupHashRule_eq (tbl : Oftable) (rule : ClsRule) :
    evictionGroupHashRule tbl rule = evictionGroupHashRuleWith hashBytes tbl rule := rfl

section Mask

variable {sf : MfSubfield} {value value' : List U8} {k : Nat}

theorem maskSubfield_length : (maskSubfield sf value).length = value.length := by
  unfold maskSubfield
  dsimp only
  split <;> split <;> simp only [bitwiseZero_length]

/-- The two calls leave exactly the bits of the subfield. -/
theorem bit_maskSubfield (hsf : sf.Within) (hlen : value.length = sf.field.nBytes)
    (hk : k < 8 * value.length) : bit (maskSubfield sf value) k
      = (bit value k && decide (sf.ofs ≤ k ∧ k < sf.ofs + sf.nBits)) := by
  have hwithin : sf.ofs + sf.nBits ≤ 8 * sf.field.nBytes := hsf
  have hlow : bit (if sf.ofs = 0 then value else bitwiseZero value sf.field.nBytes 0 sf.ofs) k
      = (bit value k && decide (sf.ofs ≤ k)) := by
    split
    · rename_i hzero
      simp [hzero]
    · rw [← hlen, bit_bitwiseZero (by omega) hk]
      have hiff : ¬ (0 ≤ k ∧ k < 0 + sf.ofs) ↔ sf.ofs ≤ k := by omega
      rw [← decide_not]
      simp only [hiff]
  have hlowLen : (if sf.ofs = 0 then value
      else bitwiseZero value sf.field.nBytes 0 sf.ofs).length = value.length := by
    split <;> simp only [bitwiseZero_length]
  unfold maskSubfield
  dsimp only
  generalize (if sf.ofs = 0 then value else bitwiseZero value sf.field.nBytes 0 sf.ofs) = low
    at hlow hlowLen
  split
  · rename_i hhigh
    rw [← hlen, ← hlowLen, bit_bitwiseZero (by omega) (by omega), hlow, Bool.and_assoc,
      ← decide_not, ← Bool.decide_and]
    have hiff : (sf.ofs ≤ k ∧ ¬ (sf.ofs + sf.nBits ≤ k ∧ k < sf.ofs + sf.nBits +
        (low.length * 8 - (sf.ofs + sf.nBits)))) ↔ sf.ofs ≤ k ∧ k < sf.ofs + sf.nBits := by omega
    simp only [hiff]
  · rename_i hfull
    have hiff : sf.ofs ≤ k ↔ sf.ofs ≤ k ∧ k < sf.ofs + sf.nBits := by omega
    rw [hlow]
    simp only [← hiff]

/-- Values with the same selected bits are masked to the same value. -/
theorem maskSubfield_congr (hsf : sf.Within) (hlen : value.length = sf.field.nBytes)
    (hlen' : value'.length = sf.field.nBytes)
    (h : ∀ k, sf.ofs ≤ k → k < sf.ofs + sf.nBits → bit value k = bit value' k) :
    maskSubfield sf value = maskSubfield sf value' := by
  refine ext_bits (by rw [maskSubfield_length, maskSubfield_length, hlen, hlen']) fun k hk => ?_
  rw [maskSubfield_length] at hk
  rw [bit_maskSubfield hsf hlen hk, bit_maskSubfield hsf hlen' (by omega)]
  by_cases hsel : sf.ofs ≤ k ∧ k < sf.ofs + sf.nBits
  · rw [h k hsel.1 hsel.2]
  · simp [hsel]

end Mask

/-! ## The group of a rule -/

/-- Two flows look the same to a subfield: they agree on the prerequisites of its field and, if
these hold, on the selected bits. -/
structure MfSubfield.Agree (sf : MfSubfield) (flow flow' : Flow) : Prop where
  prereqs : mfArePrereqsOk sf.field flow = mfArePrereqsOk sf.field flow'
  bits : mfArePrereqsOk sf.field flow = true → ∀ k, sf.ofs ≤ k → k < sf.ofs + sf.nBits →
    bit (mfGetValue sf.field flow) k = bit (mfGetValue sf.field flow') k

section Group

variable {hash : List U8 → U32 → U32} {flow flow' : Flow}

theorem hashSubfieldWith_congr {sf : MfSubfield} (hsf : sf.Within) (hsized : sf.field.Sized)
    (h : sf.Agree flow flow') (basis : U32) :
    hashSubfieldWith hash flow basis sf = hashSubfieldWith hash flow' basis sf := by
  unfold hashSubfieldWith
  rw [← h.prereqs]
  split
  · rename_i hok
    rw [maskSubfield_congr hsf (hsized flow) (hsized flow') (h.bits hok)]
  · rfl

/-- Rules with the same field prerequisites that agree on the selected bits of every subfield are
in one eviction group, whatever the hash of a value is, and of a value nothing but the selected bits
is left when it is hashed. -/
theorem evictionGroup_congr (hash : List U8 → U32 → U32) (tbl : Oftable) (rule rule' : ClsRule)
    (hfields : ∀ sf ∈ tbl.evictionFields.getD [], sf.Within ∧ sf.field.Sized)
    (h : ∀ sf ∈ tbl.evictionFields.getD [],
      sf.Agree (miniflowExpand rule.match.flow) (miniflowExpand rule'.match.flow)) :
    evictionGroupHashRuleWith hash tbl rule = evictionGroupHashRuleWith hash tbl rule' ∧
      ∀ sf ∈ tbl.evictionFields.getD [], ∀ flow,
        (maskSubfield sf (mfGetValue sf.field flow)).length = sf.field.nBytes ∧
        ∀ k < 8 * sf.field.nBytes, bit (maskSubfield sf (mfGetValue sf.field flow)) k
          = (bit (mfGetValue sf.field flow) k && decide (sf.ofs ≤ k ∧ k < sf.ofs + sf.nBits)) := by
  constructor
  · refine List.foldl_ext _ _ _ fun basis sf hsf => ?_
    exact hashSubfieldWith_congr (hfields sf hsf).1 (hfields sf hsf).2 (h sf hsf) basis
  · intro sf hsf flow
    have hlen := (hfields sf hsf).2 flow
    refine ⟨by rw [maskSubfield_length, hlen], fun k hk => ?_⟩
    exact bit_maskSubfield (hfields sf hsf).1 hlen (by omega)

/-- The least significant byte of the tunnel id. -/
def tunIdLowByte : MfSubfield := ⟨⟨.tunId, 8, .none⟩, 0, 8⟩

/-- A table grouped by that byte. -/
def tunIdTable : Oftable :=
  { (ecallOfprotoInitTables 1 fun _ => 5#16).oftable 0 with evictionFields := some [tunIdLowByte] }

theorem tunIdLowByte_agree :
    tunIdLowByte.Agree (miniflowExpand (clsRuleInit (matchFirstWord 7#32) 1).match.flow)
      (miniflowExpand (clsRuleInit (matchFirstWord 8#32) 2).match.flow) := by
  refine ⟨by simp [mfArePrereqsOk, tunIdLowByte], fun _ k _ hk => ?_⟩
  have hbits : ∀ k < 8, bit (mfGetValue tunIdLowByte.field
      (miniflowExpand (clsRuleInit (matchFirstWord 7#32) 1).match.flow)) k
      = bit (mfGetValue tunIdLowByte.field
        (miniflowExpand (clsRuleInit (matchFirstWord 8#32) 2).match.flow)) k := by decide +kernel
  exact hbits k (by simpa [tunIdLowByte] using hk)

/-- Rules for the tunnels 7 << 56 and 8 << 56 are in one group there. -/
theorem tunIdTable_oneGroup :
    evictionGroupHashRuleWith hashBytes tunIdTable (clsRuleInit (matchFirstWord 7#32) 1)
      = evictionGroupHashRuleWith hashBytes tunIdTable (clsRuleInit (matchFirstWord 8#32) 2) := by
  refine (evictionGroup_congr hashBytes tunIdTable _ _ (fun sf hsf => ?_) fun sf hsf => ?_).1
  · rw [show sf = tunIdLowByte from List.mem_singleton.mp hsf]
    exact ⟨by simp [MfSubfield.Within, tunIdLowByte], fun _ => rfl⟩
  · rw [show sf = tunIdLowByte from List.mem_singleton.mp hsf]
    exact tunIdLowByte_agree

end Group

end OvsSgx
