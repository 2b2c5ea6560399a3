/-
OvsSgx.Lib.ByteBits — the bits of a byte string in network byte order.

Bit 0 is the lowest bit of the last byte, bit 8 the lowest bit of the byte
before it, and so on. A byte string is determined by its length and its
bits, and a change of one byte changes the bits of that byte only.
-/
import Mathlib.Data.List.GetD
import Mathlib.Tactic.Common

namespace ByteBits

variable {l l' : List (BitVec 8)} {i k n : Nat}

/-- Bit `k` of the number that `l` is. -/
def bit (l : List (BitVec 8)) (k : Nat) : Bool := (l.getD (l.length - 1 - k / 8) 0#8).getLsbD (k % 8)

/-- The index of the byte that has bit `k`. -/
theorem index_lt (hk : k < 8 * l.length) : l.length - 1 - k / 8 < l.length := by omega

theorem bit_eq (hidx : l.length - 1 - k / 8 < l.length) :
    bit l k = l[l.length - 1 - k / 8].getLsbD (k % 8) := by
  rw [bit, List.getD_eq_getElem]

/-- Two byte strings of one length with the same bits are equal. -/
theorem ext_bits (hlen : l.length = l'.length) (h : ∀ k < 8 * l.length, bit l k = bit l' k) :
    l = l' := by
  refine List.ext_getElem hlen fun i hi hi' => BitVec.eq_of_getLsbD_eq fun j hj => ?_
  have hk : 8 * (l.length - 1 - i) + j < 8 * l.length := by omega
  have hbit := h _ hk
  have hdiv : (8 * (l.length - 1 - i) + j) / 8 = l.length - 1 - i := by omega
  have hmod : (8 * (l.length - 1 - i) + j) % 8 = j := by omega
  have hidx : l.length - 1 - (l.length - 1 - i) = i := by omega
  rw [bit, bit, hdiv, hmod, ← hlen, hidx] at hbit
  rwa [List.getD_eq_getElem _ _ hi, List.getD_eq_getElem _ _ hi'] at hbit

/-- What is done to byte `i` is done to its bits. -/
theorem bit_modify (f : BitVec 8 → BitVec 8) (hi : i < l.length) (hk : k < 8 * l.length) :
    bit (l.modify i f) k
      = if k / 8 = l.length - 1 - i then (f l[i]).getLsbD (k % 8) else bit l k := by
  have hk' : k < 8 * (l.modify i f).length := by rwa [List.length_modify]
  rw [bit_eq (index_lt hk'), List.getElem_modify]
  simp only [List.length_modify]
  by_cases hbyte : k / 8 = l.length - 1 - i
  · have hidx : i = l.length - 1 - k / 8 := by omega
    rw [if_pos hidx, if_pos hbyte]
    simp only [← hidx]
  · have hidx : i ≠ l.length - 1 - k / 8 := by omega
    rw [if_neg hidx, if_neg hbyte, bit_eq (index_lt hk)]

/-- Zeroing a byte. -/
theorem bit_set_zero (hi : i < l.length) (hk : k < 8 * l.length) :
    bit (l.set i 0#8) k = (bit l k && !decide (k / 8 = l.length - 1 - i)) := by
  have hset : l.set i 0#8 = l.modify i fun _ => 0#8 :=
    List.ext_getElem (by simp) fun j _ _ => by rw [List.getElem_set, List.getElem_modify]
  rw [hset, bit_modify _ hi hk]
  by_cases hbyte : k / 8 = l.length - 1 - i
  · simp [hbyte]
  · simp [hbyte]

/-- The bits of a mask of `n` ones, shifted by `o`. -/
theorem getLsbD_mask {o j : Nat} (hn : n < 8) (hj : j < 8) :
    ((((1#8 <<< n) - 1#8) <<< o).getLsbD j) = decide (o ≤ j ∧ j < o + n) := by
  have hmask : ∀ n j : Fin 8, ((1#8 <<< n.val) - 1#8).getLsbD j.val = decide (j.val < n.val) := by
    decide
  rw [BitVec.getLsbD_shiftLeft]
  by_cases ho : j < o
  · have hno : ¬ o ≤ j := by omega
    simp [ho, hno]
  · have hle : o ≤ j := by omega
    rw [hmask ⟨n, hn⟩ ⟨j - o, by omega⟩]
    have hiff : j - o < n ↔ j < o + n := by omega
    simp [hj, ho, hle, hiff]

/-- Zeroing `n` bits of a byte from bit `o` on. -/
theorem bit_clear {o : Nat} (hn : n < 8) (ho : o + n ≤ 8) (hi : i < l.length)
    (hk : k < 8 * l.length) :
    bit (l.modify i fun b => b &&& ~~~(((1#8 <<< n) - 1#8) <<< o)) k
      = (bit l k && !decide (8 * (l.length - 1 - i) + o ≤ k ∧
          k < 8 * (l.length - 1 - i) + o + n)) := by
  have hmod : k % 8 < 8 := Nat.mod_lt _ (by omega)
  rw [bit_modify _ hi hk]
  by_cases hbyte : k / 8 = l.length - 1 - i
  · have hidx : l.length - 1 - k / 8 = i := by omega
    have hiff : (o ≤ k % 8 ∧ k % 8 < o + n) ↔ (8 * (l.length - 1 - i) + o ≤ k ∧
        k < 8 * (l.length - 1 - i) + o + n) := by omega
    rw [if_pos hbyte, BitVec.getLsbD_and, BitVec.getLsbD_not, getLsbD_mask hn hmod, bit_eq (index_lt hk)]
    simp only [hidx, hmod, decide_true, Bool.true_and, hiff]
  · have hout : ¬ (8 * (l.length - 1 - i) + o ≤ k ∧ k < 8 * (l.length - 1 - i) + o + n) := by omega
    rw [if_neg hbyte]
    simp [hout]

end ByteBits
