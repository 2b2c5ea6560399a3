/-
OvsSgx.Lib.BlockCursor — walking over a list of blocks.

A cursor stands on an element of a block. The next element is the one behind
it in its block or, at the end of the block, the first element of the next
block that has one. `flatMap_behind` says that this is the element behind it
in the concatenation of the blocks.
-/
import OvsSgx.Lib.RankedList

namespace BlockCursor

variable {α β : Type} [DecidableEq α]

/-- What stands behind `a`. -/
def behind (l : List α) (a : α) : List α := (l.dropWhile (· ≠ a)).drop 1

theorem behind_split {pre : List α} (post : List α) {a : α} (h : a ∉ pre) :
    behind (pre ++ a :: post) a = post :=
  (RankedList.takeWhile_ne_split post h).2

theorem behind_cons_self (a : α) (l : List α) : behind (a :: l) a = l := by
  simp [behind]

theorem behind_cons_ne {a x : α} (h : x ≠ a) (l : List α) : behind (x :: l) a = behind l a := by
  simp [behind, h]

/-- Dropping other elements commutes with stepping behind `a`. -/
theorem behind_filter (p : α → Bool) {a : α} (hp : p a = true) (l : List α) :
    behind (l.filter p) a = (behind l a).filter p := by
  induction l with
  | nil => rfl
  | cons x l ih =>
    by_cases hxa : x = a
    · subst hxa
      rw [List.filter_cons_of_pos hp, behind_cons_self, behind_cons_self]
    · rw [behind_cons_ne hxa, ← ih]
      by_cases hx : p x = true
      · rw [List.filter_cons_of_pos hx, behind_cons_ne hxa]
      · rw [List.filter_cons_of_neg hx]

/-- Behind `b` in the concatenation come the rest of its block and the blocks behind that. -/
theorem flatMap_behind {f : α → List β} {l : List α} {a : α} {b : β} {kept rest : List β}
    (hnodup : (l.flatMap f).Nodup) (ha : a ∈ l) (hb : b ∈ f a)
    (h : l.flatMap f = kept ++ b :: rest) :
    ∃ pre post, f a = pre ++ b :: post ∧ rest = post ++ (behind l a).flatMap f := by
  induction l generalizing kept with
  | nil => cases ha
  | cons x l ih =>
    rw [List.flatMap_cons] at h hnodup
    obtain ⟨-, hl, hdisj⟩ := List.nodup_append.mp hnodup
    rcases List.append_eq_append_iff.mp h with ⟨mid, hkept, hmid⟩ | ⟨mid, hx, hmid⟩
    · -- `b` is behind the first block
      have hbl : b ∈ l.flatMap f := hmid ▸ List.mem_append_right mid (List.mem_cons_self ..)
      have hxa : x ≠ a := by
        rintro rfl
        exact hdisj b hb b hbl rfl
      rw [behind_cons_ne hxa]
      exact ih hl ((List.mem_cons.mp ha).resolve_left (Ne.symm hxa)) hmid
    · cases mid with
      | nil =>
        have hbl : b ∈ l.flatMap f := by
          rw [List.nil_append] at hmid
          rw [← hmid]
          exact List.mem_cons_self ..
        have hxa : x ≠ a := by
          rintro rfl
          exact hdisj b hb b hbl rfl
        rw [behind_cons_ne hxa]
        have hsplit : l.flatMap f = [] ++ b :: rest := by
          simpa using hmid.symm
        exact ih hl ((List.mem_cons.mp ha).resolve_left (Ne.symm hxa)) hsplit
      | cons c mid =>
        rw [List.cons_append, List.cons.injEq] at hmid
        obtain ⟨rfl, hrest⟩ := hmid
        -- `b` is in the first block, so that block is `a`
        have hbx : b ∈ f x := hx ▸ List.mem_append_right kept (List.mem_cons_self ..)
        have hxa : x = a := by
          by_contra hne
          have hal : a ∈ l := (List.mem_cons.mp ha).resolve_left (Ne.symm hne)
          exact hdisj b hbx b (List.mem_flatMap.mpr ⟨a, hal, hb⟩) rfl
        subst hxa
        rw [behind_cons_self]
        exact ⟨kept, mid, hx, hrest⟩

end BlockCursor
