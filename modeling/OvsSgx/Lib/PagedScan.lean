/-
OvsSgx.Lib.PagedScan — reading a list through a buffer of fixed size.

A scan goes over a whole list, counts it, skips the first `start` elements
and writes what `f` makes of the following ones until the buffer is full. A
first scan from the beginning says how many elements there are; a second one
that starts where the first buffer ended gets the rest.
-/
import Mathlib.Data.List.Basic

namespace PagedScan

variable {α β : Type*}

/-- The number of elements seen and the buffer. -/
structure Page (β : Type*) where
  count : Nat
  out : List β
deriving DecidableEq, Repr

/-- One round of a scan from `start` with room for `cap` entries. -/
def step (f : α → Option β) (start cap : Nat) (p : Page β) (a : α) : Option (Page β) :=
  if cap ≤ p.out.length ∨ p.count < start then some ⟨p.count + 1, p.out⟩
  else do
    let b ← f a
    return ⟨p.count + 1, p.out ++ [b]⟩

/-- A whole scan. -/
def scan (f : α → Option β) (start cap : Nat) (l : List α) : Option (Page β) :=
  l.foldlM (step f start cap) ⟨0, []⟩

/-- The first `n` of the entries that have been written. -/
def readFirst (out : List β) (n : Nat) : Option (List β) :=
  if n ≤ out.length then some (out.take n) else none

/-- What is in the buffers after a scan with room for `cap` entries and, if they were too
few, a second one for the others. -/
def pages (f : α → Option β) (cap : Nat) (l : List α) : Option (List β) := do
  let p ← scan f 0 cap l
  if p.count = p.out.length then return p.out
  else
    let p' ← scan f p.out.length (p.count - p.out.length) l
    readFirst (p.out ++ p'.out) p.count

section Theorems

variable {f : α → Option β} {g : α → β} {start cap : Nat} {p : Page β} {a : α} {l : List α}

theorem step_skip (h : cap ≤ p.out.length ∨ p.count < start) :
    step f start cap p a = some ⟨p.count + 1, p.out⟩ := by
  unfold step
  rw [if_pos h]

theorem step_write (h : ¬ (cap ≤ p.out.length ∨ p.count < start)) (ha : f a = some (g a)) :
    step f start cap p a = some ⟨p.count + 1, p.out ++ [g a]⟩ := by
  unfold step
  rw [if_neg h, ha]
  rfl

theorem foldlM_step (hf : ∀ a ∈ l, f a = some (g a)) (p : Page β) :
    l.foldlM (step f start cap) p =
      some ⟨p.count + l.length,
        p.out ++ ((l.drop (start - p.count)).take (cap - p.out.length)).map g⟩ := by
  induction l generalizing p with
  | nil => simp
  | cons a l ih =>
    have hrest : ∀ b ∈ l, f b = some (g b) := fun b hb => hf b (List.mem_cons_of_mem a hb)
    have hcount : p.count + 1 + l.length = p.count + (l.length + 1) := by omega
    rw [List.foldlM_cons]
    by_cases hfull : cap ≤ p.out.length
    · rw [step_skip (.inl hfull), Option.bind_eq_bind, Option.bind_some, ih hrest]
      have hzero : cap - p.out.length = 0 := Nat.sub_eq_zero_of_le hfull
      simp [hzero, hcount]
    · by_cases hskip : p.count < start
      · rw [step_skip (.inr hskip), Option.bind_eq_bind, Option.bind_some, ih hrest]
        obtain ⟨k, rfl⟩ : ∃ k, start = p.count + 1 + k := ⟨start - p.count - 1, by omega⟩
        have hk : p.count + 1 + k - p.count = k + 1 := by omega
        simp [hk, hcount]
      · rw [step_write (not_or.mpr ⟨hfull, hskip⟩) (hf a (by simp)), Option.bind_eq_bind,
          Option.bind_some, ih hrest]
        obtain ⟨k, rfl⟩ : ∃ k, cap = p.out.length + 1 + k := ⟨cap - p.out.length - 1, by omega⟩
        have hk : p.out.length + 1 + k - p.out.length = k + 1 := by omega
        have h0 : start - p.count = 0 := by omega
        have h1 : start - (p.count + 1) = 0 := by omega
        simp [hk, hcount, h0, h1]

/-- A scan counts the list and returns one page of it. -/
theorem scan_eq (hf : ∀ a ∈ l, f a = some (g a)) :
    scan f start cap l = some ⟨l.length, ((l.drop start).take cap).map g⟩ := by
  unfold scan
  rw [foldlM_step hf]
  simp

/-- Two pages, the second one starting where the first one ended. -/
theorem readFirst_pages (g : α → β) (cap : Nat) (l : List α) :
    readFirst ((l.take cap).map g ++ ((l.drop cap).take (l.length - cap)).map g) l.length =
      some (l.map g) := by
  have hrest : (l.drop cap).take (l.length - cap) = l.drop cap :=
    List.take_of_length_le (by simp)
  rw [hrest, ← List.map_append, List.take_append_drop, readFirst, if_pos (by simp),
    List.take_of_length_le (by simp)]

/-- Both scans together return the whole list, whatever its length. -/
theorem pages_eq (hf : ∀ a ∈ l, f a = some (g a)) : pages f cap l = some (l.map g) := by
  unfold pages
  rw [scan_eq hf, Option.bind_eq_bind, Option.bind_some]
  dsimp only
  split
  · rename_i hlen
    simp only [List.length_map, List.length_take, List.drop_zero] at hlen
    rw [List.drop_zero, List.take_of_length_le (by omega)]
    rfl
  · rename_i hlen
    simp only [List.length_map, List.length_take, List.drop_zero] at hlen ⊢
    have hmin : min cap l.length = cap := by omega
    rw [scan_eq hf, hmin, Option.bind_some]
    exact readFirst_pages g cap l

end Theorems

end PagedScan
