/-
OvsSgx.Lib.BitFill — filling a number with ones below its highest bit.

Or-ing a number with itself shifted right by 1, 2, 4, ... sets every bit
below the highest one. After each step bit `i` says whether one of the next
bits of the original number is set, twice as many as before.
-/
import Mathlib.Data.Nat.Bitwise
import Mathlib.Tactic

namespace BitFill

variable {x y w : Nat}

/-- Bit `i` of `y` says whether `x` has a one among the `w` bits from `i` on. -/
def Filled (x y w : Nat) : Prop := ∀ i, y.testBit i = true ↔ ∃ d < w, x.testBit (i + d) = true

theorem filled_one (x : Nat) : Filled x x 1 := by
  intro i
  constructor
  · intro h
    exact ⟨0, by omega, h⟩
  · rintro ⟨d, hd, h⟩
    obtain rfl : d = 0 := by omega
    exact h

/-- One step. -/
theorem Filled.step (h : Filled x y w) : Filled x (y ||| (y >>> w)) (w + w) := by
  intro i
  rw [Nat.testBit_or, Bool.or_eq_true, Nat.testBit_shiftRight, h i, h (w + i)]
  constructor
  · rintro (⟨d, hd, hx⟩ | ⟨d, hd, hx⟩)
    · exact ⟨d, by omega, hx⟩
    · exact ⟨w + d, by omega, by rwa [show i + (w + d) = w + i + d by omega]⟩
  · rintro ⟨d, hd, hx⟩
    by_cases hlow : d < w
    · exact Or.inl ⟨d, hlow, hx⟩
    · exact Or.inr ⟨d - w, by omega, by rwa [show w + i + (d - w) = i + d by omega]⟩

/-- With as many bits as the number has, what results is one less than a power of two. -/
theorem Filled.eq_mersenne (h : Filled x y w) (hx : x < 2 ^ w) (hpos : x ≠ 0) :
    ∃ t, y = 2 ^ (t + 1) - 1 := by
  obtain ⟨t, htop, habove⟩ := Nat.exists_most_significant_bit hpos
  have ht : t < w := by
    by_contra hge
    have := Nat.testBit_lt_two_pow (Nat.lt_of_lt_of_le hx
      (Nat.pow_le_pow_right (by omega) (Nat.le_of_not_lt hge)))
    rw [this] at htop
    cases htop
  refine ⟨t, Nat.eq_of_testBit_eq fun i => ?_⟩
  rw [Nat.testBit_two_pow_sub_one, Bool.eq_iff_iff, h i, decide_eq_true_eq]
  constructor
  · rintro ⟨d, -, hd⟩
    by_contra hge
    rw [habove (i + d) (by omega)] at hd
    cases hd
  · intro hi
    exact ⟨t - i, by omega, by rwa [show i + (t - i) = t by omega]⟩

/-- One less than a power of two has no bit in common with that power. -/
theorem mersenne_and_succ (k : Nat) : (2 ^ k - 1) &&& (2 ^ k - 1 + 1) = 0 := by
  rw [Nat.sub_add_cancel Nat.one_le_two_pow]
  refine Nat.eq_of_testBit_eq fun i => ?_
  rw [Nat.testBit_and, Nat.testBit_two_pow_sub_one, Nat.testBit_two_pow, Nat.zero_testBit]
  by_cases h : k = i
  · simp [h]
  · simp [h]

/-- Setting bit 1 if bit 0 is set. -/
theorem mersenne_or_two (t : Nat) :
    (2 ^ (t + 1) - 1) ||| (((2 ^ (t + 1) - 1) &&& 1) <<< 1) = 2 ^ max (t + 1) 2 - 1 := by
  have hodd : (2 ^ (t + 1) - 1) &&& 1 = 1 := by
    rw [Nat.and_one_is_mod, Nat.pow_succ]
    have : 0 < 2 ^ t := Nat.two_pow_pos t
    omega
  have htwo : 1 <<< 1 = 2 ^ 1 := rfl
  rw [hodd, htwo]
  refine Nat.eq_of_testBit_eq fun i => ?_
  rw [Nat.testBit_or, Nat.testBit_two_pow_sub_one, Nat.testBit_two_pow_sub_one,
    Nat.testBit_two_pow, ← Bool.decide_or]
  exact decide_eq_decide.mpr (by omega)

end BitFill
