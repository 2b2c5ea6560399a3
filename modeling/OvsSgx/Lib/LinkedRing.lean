/-
OvsSgx.Lib.LinkedRing — circular doubly linked lists with a head.

The nodes carry their own `prev` and `next` pointers, so a node can be on
one list at a time. `Represents` says which nodes are on the list of a head
and in which order. A node that is not on the list is appended by `insert`
before the head; the first node is taken off by `remove`. `drain` is the
loop that visits the nodes and removes each one after it has been visited.
-/
import Mathlib.Logic.Function.Basic
import Mathlib.Data.List.Nodup
import Mathlib.Data.List.Induction

namespace LinkedRing

/-- The pointers of all nodes. -/
structure Links (α : Type*) where
  prev : α → α
  next : α → α

namespace Links

variable {α : Type*}

/-! ## What a list looks like -/

/-- `b` follows `a`. -/
def Linked (L : Links α) (a b : α) : Prop := L.next a = b ∧ L.prev b = a

/-- From `a` the pointers lead through the nodes `l` to `b`, and back. -/
def Segment (L : Links α) (a : α) : List α → α → Prop
  | [], b => L.Linked a b
  | x :: l, b => L.Linked a x ∧ L.Segment x l b

/-- The list of head `h` has the nodes `l`. -/
structure Represents (L : Links α) (h : α) (l : List α) : Prop where
  nodup : (h :: l).Nodup
  segment : L.Segment h l h

variable {L L' : Links α} {h a b x : α} {l : List α}

theorem segment_append_cons {l₁ l₂ : List α} :
    L.Segment a (l₁ ++ x :: l₂) b ↔ L.Segment a l₁ x ∧ L.Segment x l₂ b := by
  induction l₁ generalizing a with
  | nil => rfl
  | cons y l₁ ih => simp [Segment, ih, and_assoc]

/-- A segment does not depend on other pointers. -/
theorem Segment.congr (hs : L.Segment a l b) (hnext : ∀ y ∈ a :: l, L'.next y = L.next y)
    (hprev : ∀ y ∈ l ++ [b], L'.prev y = L.prev y) : L'.Segment a l b := by
  induction l generalizing a with
  | nil =>
    obtain ⟨h1, h2⟩ := hs
    exact ⟨(hnext a (by simp)).trans h1, (hprev b (by simp)).trans h2⟩
  | cons x l ih =>
    obtain ⟨⟨h1, h2⟩, hrest⟩ := hs
    refine ⟨⟨(hnext a (by simp)).trans h1, (hprev x (by simp)).trans h2⟩, ih hrest ?_ ?_⟩
    · exact fun y hy => hnext y (List.mem_cons_of_mem _ hy)
    · exact fun y hy => hprev y (List.mem_cons_of_mem _ hy)

theorem Represents.next_head (hr : L.Represents h l) : L.next h = l.head?.getD h := by
  cases l with
  | nil => exact hr.segment.1
  | cons x l => exact hr.segment.1.1

/-- The node after the first is first once that is removed. -/
theorem Represents.next_first (hr : L.Represents h (x :: l)) : L.next x = l.head?.getD h := by
  cases l with
  | nil => exact hr.segment.2.1
  | cons y l => exact hr.segment.2.1.1

variable [DecidableEq α]

/-! ## Operations -/

/-- An empty list with head `h`. -/
def clear (L : Links α) (h : α) : Links α :=
  { prev := Function.update L.prev h h
    next := Function.update L.next h h }

/-- Insert `elem` just before `before`, one write after the other. -/
def insert (L : Links α) (before elem : α) : Links α :=
  let L := { L with prev := Function.update L.prev elem (L.prev before) }
  let L := { L with next := Function.update L.next elem before }
  let L := { L with next := Function.update L.next (L.prev before) elem }
  { L with prev := Function.update L.prev before elem }

/-- Remove `elem` from its list, one write after the other. -/
def remove (L : Links α) (elem : α) : Links α :=
  let L := { L with next := Function.update L.next (L.prev elem) (L.next elem) }
  { L with prev := Function.update L.prev (L.next elem) (L.prev elem) }

/-- Visit the nodes from `iter` up to the head and remove each; `none` if the head is not
reached within `fuel` nodes. -/
def drain (h : α) : Nat → Links α → α → Option (List α × Links α)
  | 0, _, _ => none
  | fuel + 1, L, iter =>
    if iter = h then some ([], L)
    else do
      let next := L.next iter
      let (visited, L) ← drain h fuel (L.remove iter) next
      return (iter :: visited, L)

theorem clear_represents (L : Links α) (h : α) : (L.clear h).Represents h [] :=
  ⟨List.nodup_singleton h, by simp [Segment, Linked, clear]⟩

/-! ## Appending a node -/

theorem insert_next (L : Links α) {h x z : α} (hx : x ≠ h) (hz : L.prev h = z) (y : α) :
    (L.insert h x).next y = if y = z then x else if y = x then h else L.next y := by
  have hprev : Function.update L.prev x (L.prev h) h = z := by
    rw [Function.update_of_ne (Ne.symm hx), hz]
  simp only [insert, hprev, Function.update_apply]

theorem insert_prev (L : Links α) {h x z : α} (hz : L.prev h = z) (y : α) :
    (L.insert h x).prev y = if y = h then x else if y = x then z else L.prev y := by
  simp only [insert, Function.update_apply, hz]

/-- Inserting before the head appends. -/
theorem Represents.insert (hr : L.Represents h l) (hx : x ∉ h :: l) :
    (L.insert h x).Represents h (l ++ [x]) := by
  have hxh : x ≠ h := fun heq => hx (heq ▸ List.mem_cons_self ..)
  have hxl : x ∉ l := fun hmem => hx (List.mem_cons_of_mem _ hmem)
  obtain ⟨hhl, hnodup⟩ := List.nodup_cons.mp hr.nodup
  refine ⟨?_, ?_⟩
  · rw [← List.cons_append, List.nodup_append]
    refine ⟨hr.nodup, List.nodup_singleton x, fun y hy z hz hyz => hx ?_⟩
    rw [← List.mem_singleton.mp hz, ← hyz]
    exact hy
  -- `z` is the last node, or the head if there is none
  · cases hl : l using List.reverseRecOn with
    | nil =>
      have hz : L.prev h = h := by
        have := hr.segment
        rw [hl] at this
        exact this.2
      simp [Segment, Linked, insert_next L hxh hz, insert_prev L hz, hxh]
    | append_singleton l₀ z =>
      rw [hl] at hr hxl hhl hnodup
      obtain ⟨hseg, hlast⟩ := segment_append_cons.mp hr.segment
      have hz : L.prev h = z := hlast.2
      have hzl : z ∉ l₀ := by
        intro hmem
        exact (List.nodup_append.mp hnodup).2.2 z hmem z (by simp) rfl
      have hzx : z ≠ x := fun heq => hxl (by simp [heq])
      have hzh : z ≠ h := fun heq => hhl (by simp [heq])
      rw [List.append_assoc]
      refine segment_append_cons.mpr ⟨hseg.congr (fun y hy => ?_) (fun y hy => ?_), ?_⟩
      · have hyz : y ≠ z := by
          rintro rfl
          rcases List.mem_cons.mp hy with heq | hmem
          · exact hzh heq
          · exact hzl hmem
        have hyx : y ≠ x := by
          rintro rfl
          rcases List.mem_cons.mp hy with heq | hmem
          · exact hxh heq
          · exact hxl (by simp [hmem])
        rw [insert_next L hxh hz, if_neg hyz, if_neg hyx]
      · have hyh : y ≠ h := by
          rintro rfl
          exact hhl hy
        have hyx : y ≠ x := by
          rintro rfl
          exact hxl hy
        rw [insert_prev L hz, if_neg hyh, if_neg hyx]
      · simp [Segment, Linked, insert_next L hxh hz, insert_prev L hz, hxh, Ne.symm hzx]

/-! ## Taking nodes off -/

theorem remove_next (L : Links α) (x y : α) :
    (L.remove x).next y = if y = L.prev x then L.next x else L.next y := by
  simp only [remove, Function.update_apply]

/-- The first node is removed; the pointers of the others stay. -/
theorem Represents.remove (hr : L.Represents h (x :: l)) : (L.remove x).Represents h l := by
  obtain ⟨hhl, hnodup⟩ := List.nodup_cons.mp hr.nodup
  obtain ⟨hxl, hnodup⟩ := List.nodup_cons.mp hnodup
  obtain ⟨⟨hhx, hxh⟩, hseg⟩ := hr.segment
  have hhl' : h ∉ l := fun hmem => hhl (List.mem_cons_of_mem _ hmem)
  have hne : x ≠ h := fun heq => hhl (heq ▸ List.mem_cons_self ..)
  have hnext : ∀ y, (L.remove x).next y = if y = h then L.next x else L.next y := by
    intro y
    rw [remove_next, hxh]
  have hprev : ∀ y, (L.remove x).prev y = if y = L.next x then h else L.prev y := by
    intro y
    simp only [Links.remove, Function.update_apply, hxh, if_neg hne]
  refine ⟨List.nodup_cons.mpr ⟨hhl', hnodup⟩, ?_⟩
  cases l with
  | nil =>
    have hxn : L.next x = h := hseg.1
    simp [Segment, Linked, hnext, hprev, hxn]
  | cons y l =>
    obtain ⟨⟨hxy, -⟩, hrest⟩ := hseg
    obtain ⟨hyl, -⟩ := List.nodup_cons.mp hnodup
    refine ⟨by simp [Linked, hnext, hprev, hxy], hrest.congr (fun z hz => ?_) (fun z hz => ?_)⟩
    · rw [hnext, if_neg]
      rintro rfl
      exact hhl' hz
    · rw [hprev, hxy, if_neg]
      rintro rfl
      rcases List.mem_append.mp hz with hmem | hmem
      · exact hyl hmem
      · exact hhl' (by simp [List.mem_singleton.mp hmem])

/-- Draining visits the nodes in order and leaves an empty list. -/
theorem Represents.drain (hr : L.Represents h l) {fuel : Nat} (hfuel : l.length < fuel) :
    ∃ L', Links.drain h fuel L (L.next h) = some (l, L') ∧ L'.Represents h [] := by
  rw [hr.next_head]
  induction l generalizing L fuel with
  | nil =>
    obtain ⟨fuel, rfl⟩ := Nat.exists_eq_add_of_lt hfuel
    exact ⟨L, by simp [Links.drain], hr⟩
  | cons x l ih =>
    obtain ⟨fuel, rfl⟩ : ∃ n, fuel = n + 1 := ⟨fuel - 1, by simp at hfuel; omega⟩
    have hx : x ≠ h := fun heq => (List.nodup_cons.mp hr.nodup).1 (heq ▸ List.mem_cons_self ..)
    have hlen : l.length < fuel := by simpa using hfuel
    obtain ⟨L', h1, h2⟩ := ih hr.remove hlen
    exact ⟨L', by simp [Links.drain, hx, hr.next_first, h1], h2⟩

end Links

end LinkedRing
