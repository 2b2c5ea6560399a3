/-
OvsSgx.Lib.BitScan — scanning the one bits of a machine word.

A word is walked from its lowest one bit upwards: take the number of
trailing zeros, clear that bit, repeat until the word is zero. `scan` is
that loop; `ones` is the ascending list of the positions of the one bits.
`scan_eq_ones` says that the loop visits exactly these positions, in this
order, and the remaining lemmas count them and cut them at a position.
-/
import Mathlib.Data.List.Basic
import Mathlib.Data.List.Sort
import Mathlib.Data.List.Nodup
import Mathlib.Data.Nat.Bitwise
import Mathlib.Tactic

namespace BitScan

variable {w : Nat}

/-- The positions of the one bits of `x`, ascending. -/
def ones (x : BitVec w) : List Nat := (List.range w).filter x.getLsbD

/-- `x` with its lowest one bit cleared. -/
def clearLowest (x : BitVec w) : BitVec w := x &&& (x - 1#w)

/-- The walk itself; `fuel` bounds the number of rounds. -/
def scan : Nat → BitVec w → List Nat
  | 0, _ => []
  | fuel + 1, x => if x = 0#w then [] else x.ctz.toNat :: scan fuel (clearLowest x)

/-! ## Clearing the lowest bit -/

/-- On naturals: subtracting one borrows up to the lowest one bit `c`, so
the conjunction with the predecessor drops bit `c` and keeps the rest. -/
theorem testBit_and_pred : ∀ (c x : Nat), x.testBit c = true →
    (∀ j < c, x.testBit j = false) → ∀ i,
      (x &&& (x - 1)).testBit i = (x.testBit i && decide (i ≠ c))
  | 0, x, hc, _, i => by
      have hodd : x % 2 = 1 := by simpa using hc
      have hhalf : (x - 1) / 2 = x / 2 := by omega
      cases i with
      | zero => simp; omega
      | succ i =>
        rw [Nat.testBit_and, Nat.testBit_succ, Nat.testBit_succ, hhalf]
        simp
  | c + 1, x, hc, hlow, i => by
      have heven : x % 2 = 0 := by
        have := hlow 0 (by omega)
        simpa using this
      have hhalf : (x - 1) / 2 = x / 2 - 1 := by omega
      have ih := testBit_and_pred c (x / 2) (by simpa [Nat.testBit_succ] using hc)
        (fun j hj => by simpa [Nat.testBit_succ] using hlow (j + 1) (by omega))
      cases i with
      | zero => simp [heven]
      | succ i =>
        have hi := ih i
        rw [Nat.testBit_and] at hi
        rw [Nat.testBit_and, Nat.testBit_succ, Nat.testBit_succ, hhalf, hi]
        simp

theorem getLsbD_clearLowest {x : BitVec w} (hx : x ≠ 0#w) (i : Nat) :
    (clearLowest x).getLsbD i = (x.getLsbD i && decide (i ≠ x.ctz.toNat)) := by
  have hw : 0 < w := by
    rcases Nat.eq_zero_or_pos w with h | h
    · subst h; exact absurd (BitVec.eq_nil x) hx
    · exact h
  have hpos : 1 ≤ x.toNat := by
    have h0 : x.toNat ≠ 0 := fun h => hx (BitVec.eq_of_toNat_eq (by simpa using h))
    omega
  have hone : (1#w).toNat = 1 := by
    rw [BitVec.toNat_ofNat]
    exact Nat.mod_eq_of_lt (Nat.one_lt_two_pow (by omega))
  have hpred : (x - 1#w).toNat = x.toNat - 1 := by
    rw [BitVec.toNat_sub, hone]
    have hlt := x.isLt
    rw [show 2 ^ w - 1 + x.toNat = (x.toNat - 1) + 2 ^ w by omega, Nat.add_mod_right]
    exact Nat.mod_eq_of_lt (by omega)
  have key := testBit_and_pred x.ctz.toNat x.toNat
    (BitVec.getLsbD_true_ctz_of_ne_zero hx)
    (fun j hj => BitVec.getLsbD_false_of_lt_ctz hj) i
  have hx1 : (clearLowest x).toNat = x.toNat &&& (x.toNat - 1) := by
    show (x &&& (x - 1#w)).toNat = _
    rw [BitVec.toNat_and, hpred]
  rw [← BitVec.testBit_toNat, hx1, key, BitVec.testBit_toNat]

/-! ## The walk -/

theorem mem_ones {x : BitVec w} {i : Nat} : i ∈ ones x ↔ i < w ∧ x.getLsbD i = true := by
  simp [ones]

theorem ones_nodup (x : BitVec w) : (ones x).Nodup :=
  List.nodup_range.filter _

theorem ones_sorted (x : BitVec w) : (ones x).Pairwise (· < ·) :=
  List.pairwise_lt_range.filter _

@[simp] theorem ones_zero : ones (0#w) = [] := by
  simp [ones]

/-- The lowest one bit comes first, and the others are the ones of the
cleared word. -/
theorem ones_eq_cons {x : BitVec w} (hx : x ≠ 0#w) :
    ones x = x.ctz.toNat :: ones (clearLowest x) := by
  have hbit := BitVec.getLsbD_true_ctz_of_ne_zero hx
  have hlt : x.ctz.toNat < w := BitVec.lt_of_getLsbD hbit
  have hmem : ∀ i, i ∈ ones x ↔ i ∈ x.ctz.toNat :: ones (clearLowest x) := by
    intro i
    simp only [List.mem_cons, mem_ones, getLsbD_clearLowest hx, Bool.and_eq_true,
      decide_eq_true_eq]
    by_cases h : i = x.ctz.toNat
    · subst h; simp [hlt, hbit]
    · simp [h]
  have hsorted : (x.ctz.toNat :: ones (clearLowest x)).Pairwise (· < ·) := by
    refine List.pairwise_cons.mpr ⟨fun i hi => ?_, ones_sorted _⟩
    have hi' := (mem_ones.mp hi).2
    simp only [getLsbD_clearLowest hx, Bool.and_eq_true, decide_eq_true_eq] at hi'
    by_contra hle
    have hlow : i < x.ctz.toNat := by omega
    rw [BitVec.getLsbD_false_of_lt_ctz hlow] at hi'
    simp at hi'
  have hperm : (ones x).Perm (x.ctz.toNat :: ones (clearLowest x)) :=
    (List.perm_ext_iff_of_nodup (ones_nodup x) (hsorted.imp (fun h => Nat.ne_of_lt h))).mpr hmem
  exact hperm.eq_of_pairwise (fun a b _ _ h1 h2 => by omega) (ones_sorted x) hsorted

theorem ones_length_clearLowest {x : BitVec w} (hx : x ≠ 0#w) :
    (ones x).length = (ones (clearLowest x)).length + 1 := by
  rw [ones_eq_cons hx, List.length_cons]

/-- With a round per one bit the walk visits every one bit, ascending. -/
theorem scan_eq_ones : ∀ (fuel : Nat) (x : BitVec w), (ones x).length ≤ fuel →
    scan fuel x = ones x
  | 0, x, h => by
      have : ones x = [] := List.length_eq_zero_iff.mp (by omega)
      simp [scan, this]
  | fuel + 1, x, h => by
      by_cases hx : x = 0#w
      · subst hx; simp [scan]
      · have hlen := ones_length_clearLowest hx
        rw [scan, if_neg hx, scan_eq_ones fuel (clearLowest x) (by omega), ← ones_eq_cons hx]

theorem ones_length_le (x : BitVec w) : (ones x).length ≤ w := by
  have := List.length_filter_le x.getLsbD (List.range w)
  simpa [ones] using this

/-! ## Cutting at a position -/

/-- The ones below position `k`. -/
theorem ones_and_lowMask (x : BitVec w) (k : Nat) (hk : k < w) :
    ones (x &&& ((1#w <<< k) - 1#w)) = (ones x).filter (· < k) := by
  have hmask : ∀ i, ((1#w <<< k) - 1#w).getLsbD i = decide (i < k) := by
    intro i
    have hpow : (2 : Nat) ^ k < 2 ^ w := Nat.pow_lt_pow_right (by omega) hk
    have hone : (1 : Nat) % 2 ^ w = 1 := Nat.mod_eq_of_lt (Nat.one_lt_two_pow (by omega))
    have hval : ((1#w <<< k) - 1#w).toNat = 2 ^ k - 1 := by
      have h1 : (1#w <<< k).toNat = 2 ^ k := by
        simp [BitVec.toNat_shiftLeft, hone, Nat.shiftLeft_eq, Nat.mod_eq_of_lt hpow]
      have hpos : 1 ≤ 2 ^ k := Nat.one_le_two_pow
      rw [BitVec.toNat_sub, h1, BitVec.toNat_ofNat, hone,
        show 2 ^ w - 1 + 2 ^ k = (2 ^ k - 1) + 2 ^ w by omega, Nat.add_mod_right]
      exact Nat.mod_eq_of_lt (by omega)
    rw [← BitVec.testBit_toNat, hval, Nat.testBit_two_pow_sub_one]
  unfold ones
  rw [List.filter_filter]
  refine List.filter_congr fun i _ => ?_
  rw [BitVec.getLsbD_and, hmask, Bool.and_comm]

end BitScan
