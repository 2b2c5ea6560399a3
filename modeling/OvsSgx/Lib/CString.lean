/-
OvsSgx.Lib.CString — strings in memory that end at a zero byte.

A piece of memory is the list of its bytes. The functions of the C library
read it byte by byte and are undefined where the list ends first. Callers
look only at whether the difference that `strncmp` returns is zero, and that
is what the lemmas say of it.
-/
import Mathlib.Data.List.Basic
import Mathlib.Tactic.Common

namespace CString

abbrev Byte := BitVec 8

/-- `strncmp`. -/
def strncmp : List Byte → List Byte → Nat → Option Int
  | _, _, 0 => some 0
  | a :: as, b :: bs, n + 1 =>
    if a ≠ b then some (a.toNat - b.toNat)
    else if a = 0#8 then some 0
    else strncmp as bs n
  | _, _, _ + 1 => none

section Compare

variable {a b : List Byte} {n : Nat}

theorem toNat_sub_eq_zero {x y : Byte} : (x.toNat : Int) - y.toNat = 0 ↔ x = y := by
  rw [BitVec.toNat_eq]
  omega

/-- Within both pieces of memory, and before the end of the second string, `strncmp` compares the
first `n` bytes. -/
theorem strncmp_take (ha : n ≤ a.length) (hb : n ≤ b.length) (hend : 0#8 ∉ b.take n) :
    ∃ d, strncmp a b n = some d ∧ (d = 0 ↔ a.take n = b.take n) := by
  induction n generalizing a b with
  | zero => exact ⟨0, by simp [strncmp], by simp⟩
  | succ n ih =>
    cases a with
    | nil => simp at ha
    | cons x a =>
      cases b with
      | nil => simp at hb
      | cons y b =>
        rw [List.take_succ_cons, List.mem_cons, not_or] at hend
        rw [strncmp, List.take_succ_cons, List.take_succ_cons]
        by_cases hxy : x = y
        · subst hxy
          obtain ⟨d, hd, hiff⟩ := ih (Nat.le_of_succ_le_succ ha) (Nat.le_of_succ_le_succ hb) hend.2
          refine ⟨d, ?_, by rw [hiff]; simp⟩
          rw [if_neg (by simp), if_neg (Ne.symm hend.1)]
          exact hd
        · refine ⟨x.toNat - y.toNat, by rw [if_pos hxy], ?_⟩
          rw [toNat_sub_eq_zero]
          simp [hxy]

end Compare

end CString
