/-
OvsSgx.Lib.IndexedHeap — a binary max-heap of handles with back pointers.

Positions are counted from 1. Every handle owns a node that records its
priority and the position at which it stands, so that a handle can be
taken out of the middle of the heap. The nodes live outside the heap (in
the records that are put on it), hence the state is the array, the number
of elements and the node of every handle.

`Ok` is the invariant: back pointers are right (`Idx`) and no element
outranks its parent (`Order`). One lemma for each operation says that it
keeps `Ok`, which handles are on the heap afterwards, and that the nodes
of all other handles are untouched.
-/
import Mathlib.Data.List.Basic
import Mathlib.Data.List.Nodup
import Mathlib.Logic.Function.Basic
import Mathlib.Tactic

namespace IndexedHeap

/-- What a handle knows of itself. -/
structure Node where
  idx : Nat
  priority : Nat
deriving DecidableEq, Repr

/-- The heap together with the nodes of all handles. -/
structure State (α : Type) where
  arr : Nat → α
  n : Nat
  node : α → Node

variable {α : Type}

/-- The priority at position `i`. -/
def prio (s : State α) (i : Nat) : Nat := (s.node (s.arr i)).priority

/-! ## The invariant -/

/-- Back pointers are right. -/
def Idx (s : State α) : Prop := ∀ i, 1 ≤ i → i ≤ s.n → (s.node (s.arr i)).idx = i

/-- No element outranks its parent. -/
def Order (s : State α) : Prop := ∀ i, 2 ≤ i → i ≤ s.n → prio s i ≤ prio s (i / 2)

/-- A well-formed heap. -/
structure Ok (s : State α) : Prop where
  idx : Idx s
  order : Order s

/-- Handle `x` is on the heap. -/
def Mem (s : State α) (x : α) : Prop := ∃ i, 1 ≤ i ∧ i ≤ s.n ∧ s.arr i = x

theorem Idx.inj {s : State α} (h : Idx s) {i j : Nat} (hi : 1 ≤ i) (hin : i ≤ s.n)
    (hj : 1 ≤ j) (hjn : j ≤ s.n) (heq : s.arr i = s.arr j) : i = j := by
  have h1 := h i hi hin
  have h2 := h j hj hjn
  rw [heq] at h1
  omega

theorem Idx.mem {s : State α} (h : Idx s) {x : α} (hx : Mem s x) :
    1 ≤ (s.node x).idx ∧ (s.node x).idx ≤ s.n ∧ s.arr (s.node x).idx = x := by
  obtain ⟨i, h1, h2, rfl⟩ := hx
  rw [h i h1 h2]
  exact ⟨h1, h2, rfl⟩

/-- The heap does not look at the nodes of handles that are not on it. -/
theorem Ok.congr {s : State α} (h : Ok s) {node : α → Node} (hn : ∀ x, Mem s x → node x = s.node x) :
    Ok { s with node := node } := by
  have hat : ∀ i, 1 ≤ i → i ≤ s.n → node (s.arr i) = s.node (s.arr i) :=
    fun i hi hin => hn _ ⟨i, hi, hin, rfl⟩
  refine ⟨fun i hi hin => ?_, fun i hi hin => ?_⟩
  · show (node (s.arr i)).idx = i
    rw [hat i hi hin]
    exact h.idx i hi hin
  · show (node (s.arr i)).priority ≤ (node (s.arr (i / 2))).priority
    have hin' : i ≤ s.n := hin
    rw [hat i (by omega) hin', hat (i / 2) (by omega) (by omega)]
    exact h.order i hi hin

/-- `s'` is `s` with its elements rearranged. -/
structure Moved (s s' : State α) : Prop where
  n : s'.n = s.n
  mem : ∀ x, Mem s' x ↔ Mem s x
  priority : ∀ x, (s'.node x).priority = (s.node x).priority
  other : ∀ x, ¬ Mem s x → s'.node x = s.node x
  idx : Idx s'

theorem Moved.refl {s : State α} (h : Idx s) : Moved s s :=
  ⟨rfl, fun _ => Iff.rfl, fun _ => rfl, fun _ _ => rfl, h⟩

theorem Moved.trans {s s' s'' : State α} (h : Moved s s') (h' : Moved s' s'') : Moved s s'' :=
  ⟨h'.n.trans h.n, fun x => (h'.mem x).trans (h.mem x),
    fun x => (h'.priority x).trans (h.priority x),
    fun x hx => (h'.other x (fun hm => hx ((h.mem x).mp hm))).trans (h.other x hx), h'.idx⟩

/-- What a removal does. -/
structure Removed (s s' : State α) (x : α) : Prop where
  ok : Ok s'
  n : s'.n = s.n - 1
  mem : ∀ y, Mem s' y ↔ y ≠ x ∧ Mem s y
  priority : ∀ y, (s'.node y).priority = (s.node y).priority
  other : ∀ y, ¬ Mem s y → s'.node y = s.node y

theorem Moved.removed {s s1 s' : State α} {x : α} (hm : Moved s1 s') (hok : Ok s')
    (hn : s1.n = s.n - 1) (hmem : ∀ y, Mem s1 y ↔ y ≠ x ∧ Mem s y)
    (hprio : ∀ y, (s1.node y).priority = (s.node y).priority)
    (hother : ∀ y, ¬ Mem s y → s1.node y = s.node y) : Removed s s' x :=
  ⟨hok, hm.n.trans hn, fun y => (hm.mem y).trans (hmem y),
    fun y => (hm.priority y).trans (hprio y),
    fun y hy => (hm.other y (fun h => hy ((hmem y).mp h).2)).trans (hother y hy)⟩

/-! ## Walking over the heap -/

/-- The walk over the heap from handle `x` on: each next position is read
off the current handle's back pointer. -/
def walk (s : State α) : Nat → α → List α
  | 0, _ => []
  | fuel + 1, x =>
    x :: if (s.node x).idx < s.n then walk s fuel (s.arr ((s.node x).idx + 1)) else []

/-- All handles on the heap, in level order. -/
def forEach (s : State α) : List α := if 0 < s.n then walk s s.n (s.arr 1) else []

theorem walk_eq {s : State α} (h : Idx s) : ∀ (fuel i : Nat), 1 ≤ i → i ≤ s.n → s.n ≤ fuel + i →
    walk s (fuel + 1) (s.arr i) = (List.range' i (s.n + 1 - i)).map s.arr
  | 0, i, hi, hin, hf => by
      have : i = s.n := by omega
      subst this
      simp [walk, h s.n hi (le_refl _)]
  | fuel + 1, i, hi, hin, hf => by
      unfold walk
      rw [h i hi hin, show s.n + 1 - i = (s.n - i) + 1 by omega, List.range'_succ, List.map_cons]
      congr 1
      by_cases hlt : i < s.n
      · rw [if_pos hlt, walk_eq h fuel (i + 1) (by omega) (by omega) (by omega),
          show s.n + 1 - (i + 1) = s.n - i by omega]
      · rw [if_neg hlt, show s.n - i = 0 by omega]
        rfl

theorem forEach_eq {s : State α} (h : Idx s) : forEach s = (List.range' 1 s.n).map s.arr := by
  unfold forEach
  split
  · rename_i hn
    obtain ⟨k, hk⟩ : ∃ k, s.n = k + 1 := ⟨s.n - 1, by omega⟩
    have := walk_eq h k 1 (le_refl _) (by omega) (by omega)
    rw [show s.n + 1 - 1 = s.n by omega] at this
    rw [← this, hk]
  · rename_i hn
    rw [show s.n = 0 by omega]
    rfl

theorem mem_forEach {s : State α} (h : Idx s) {x : α} : x ∈ forEach s ↔ Mem s x := by
  rw [forEach_eq h, List.mem_map]
  constructor
  · rintro ⟨i, hi, rfl⟩
    rw [List.mem_range'_1] at hi
    exact ⟨i, by omega, by omega, rfl⟩
  · rintro ⟨i, hi, hin, rfl⟩
    exact ⟨i, by rw [List.mem_range'_1]; omega, rfl⟩

theorem forEach_length {s : State α} (h : Idx s) : (forEach s).length = s.n := by
  rw [forEach_eq h, List.length_map, List.length_range']

theorem forEach_nodup {s : State α} (h : Idx s) : (forEach s).Nodup := by
  rw [forEach_eq h]
  refine List.Nodup.map_on (fun i hi j hj heq => ?_) (List.nodup_range' 1)
  rw [List.mem_range'_1] at hi hj
  exact h.inj (by omega) (by omega) (by omega) (by omega) heq

/-- Nothing outranks the root. -/
theorem Ok.le_root {s : State α} (h : Ok s) {i : Nat} (hi : 1 ≤ i) (hin : i ≤ s.n) :
    prio s i ≤ prio s 1 := by
  induction i using Nat.strong_induction_on with
  | _ i ih =>
    by_cases h1 : i = 1
    · subst h1
      exact le_refl _
    · have hparent := h.order i (by omega) hin
      exact hparent.trans (ih (i / 2) (by omega) (by omega) (by omega))

/-- The walk starts with a handle that no other one outranks. -/
theorem forEach_head {s : State α} (h : Ok s) (hn : 0 < s.n) :
    ∃ x l, forEach s = x :: l ∧ Mem s x ∧
      ∀ y, Mem s y → (s.node y).priority ≤ (s.node x).priority := by
  refine ⟨s.arr 1, (List.range' 2 (s.n - 1)).map s.arr, ?_, ⟨1, le_refl _, hn, rfl⟩, ?_⟩
  · obtain ⟨k, hk⟩ : ∃ k, s.n = k + 1 := ⟨s.n - 1, by omega⟩
    rw [forEach_eq h.idx, hk, List.range'_succ, List.map_cons]
    rfl
  · intro y hy
    obtain ⟨i, hi, hin, rfl⟩ := hy
    exact h.le_root hi hin

variable [DecidableEq α]

/-! ## Operations -/

/-- Put `x` at position `i`. -/
def putNode (s : State α) (x : α) (i : Nat) : State α :=
  { s with arr := Function.update s.arr i x
           node := Function.update s.node x { s.node x with idx := i } }

/-- Exchange positions `i` and `j`. -/
def swapNodes (s : State α) (i j : Nat) : State α :=
  putNode (putNode s (s.arr j) i) (s.arr i) j

/-- Move the element at `i` up while it outranks its parent; the flag says
whether it moved. -/
def floatUp : Nat → State α → Nat → State α × Bool
  | 0, s, _ => (s, false)
  | fuel + 1, s, i =>
    if i ≤ 1 then (s, false)
    else if prio s i ≤ prio s (i / 2) then (s, false)
    else ((floatUp fuel (swapNodes s (i / 2) i) (i / 2)).1, true)

/-- The position of the largest of `i` and its children. -/
def maxChild (s : State α) (i : Nat) : Nat :=
  let m := if prio s i < prio s (2 * i) then 2 * i else i
  if 2 * i + 1 ≤ s.n ∧ prio s m < prio s (2 * i + 1) then 2 * i + 1 else m

/-- Move the element at `i` down while a child outranks it. -/
def floatDown : Nat → State α → Nat → State α
  | 0, s, _ => s
  | fuel + 1, s, i =>
    if s.n < 2 * i then s
    else if maxChild s i = i then s
    else floatDown fuel (swapNodes s (maxChild s i) i) (maxChild s i)

/-- Restore the order after the priority at `i` has changed. -/
def floatUpOrDown (s : State α) (i : Nat) : State α :=
  let r := floatUp i s i
  if r.2 then r.1 else floatDown r.1.n r.1 i

/-- Put handle `x` on the heap with priority `p`. -/
def insert (s : State α) (x : α) (p : Nat) : State α :=
  let s1 := putNode { s with n := s.n + 1 } x (s.n + 1)
  let s2 := { s1 with node := Function.update s1.node x { s1.node x with priority := p } }
  (floatUp (s2.node x).idx s2 (s2.node x).idx).1

/-- Take the last element to the place of `x`, without restoring the order. -/
def rawRemove (s : State α) (x : α) : State α :=
  let i := (s.node x).idx
  let s1 := if i < s.n then putNode s (s.arr s.n) i else s
  { s1 with n := s1.n - 1 }

/-- Take handle `x` off the heap. -/
def remove (s : State α) (x : α) : State α :=
  let i := (s.node x).idx
  let s1 := rawRemove s x
  if i ≤ s1.n then floatUpOrDown s1 i else s1

/-- Give handle `x`, which is on the heap, priority `p`. -/
def change (s : State α) (x : α) (p : Nat) : State α :=
  let s1 := { s with node := Function.update s.node x { s.node x with priority := p } }
  floatUpOrDown s1 (s1.node x).idx

/-! ## Exchanging two positions -/

section Swap

variable {s : State α} {i j : Nat}

theorem swapNodes_arr (hij : i ≠ j) (k : Nat) :
    (swapNodes s i j).arr k = if k = i then s.arr j else if k = j then s.arr i else s.arr k := by
  simp only [swapNodes, putNode, Function.update_apply]
  split
  · rename_i h
    subst h
    simp [hij.symm]
  · rfl

theorem swapNodes_priority (x : α) :
    ((swapNodes s i j).node x).priority = (s.node x).priority := by
  simp only [swapNodes, putNode, Function.update_apply]
  split
  · rename_i h
    subst h
    split
    · rename_i h'
      simp [h']
    · rfl
  · split
    · rename_i h'
      simp [h']
    · rfl

theorem swapNodes_prio (hij : i ≠ j) (k : Nat) :
    prio (swapNodes s i j) k =
      if k = i then prio s j else if k = j then prio s i else prio s k := by
  unfold prio
  rw [swapNodes_priority, swapNodes_arr hij]
  split
  · rfl
  · split
    · rfl
    · rfl

theorem swapNodes_moved (h : Idx s) (hij : i ≠ j) (hi : 1 ≤ i) (hin : i ≤ s.n)
    (hj : 1 ≤ j) (hjn : j ≤ s.n) : Moved s (swapNodes s i j) := by
  have hne : s.arr i ≠ s.arr j := fun heq => hij (h.inj hi hin hj hjn heq)
  refine ⟨rfl, fun x => ⟨?_, ?_⟩, swapNodes_priority, fun x hx => ?_, fun k hk hkn => ?_⟩
  · rintro ⟨k, hk, hkn, rfl⟩
    rw [swapNodes_arr hij]
    split
    · exact ⟨j, hj, hjn, rfl⟩
    · split
      · exact ⟨i, hi, hin, rfl⟩
      · exact ⟨k, hk, hkn, rfl⟩
  · rintro ⟨k, hk, hkn, rfl⟩
    by_cases hki : k = i
    · exact ⟨j, hj, hjn, by rw [swapNodes_arr hij, if_neg hij.symm, if_pos rfl, hki]⟩
    · by_cases hkj : k = j
      · exact ⟨i, hi, hin, by rw [swapNodes_arr hij, if_pos rfl, hkj]⟩
      · exact ⟨k, hk, hkn, by rw [swapNodes_arr hij, if_neg hki, if_neg hkj]⟩
  · have hxi : x ≠ s.arr i := fun heq => hx ⟨i, hi, hin, heq.symm⟩
    have hxj : x ≠ s.arr j := fun heq => hx ⟨j, hj, hjn, heq.symm⟩
    simp only [swapNodes, putNode, Function.update_apply, if_neg hxi, if_neg hxj]
  · have hkn' : k ≤ s.n := hkn
    have hidx : ∀ x, ((swapNodes s i j).node x).idx =
        if x = s.arr i then j else if x = s.arr j then i else (s.node x).idx := by
      intro x
      simp only [swapNodes, putNode, Function.update_apply]
      split
      · rfl
      · split
        · rfl
        · rfl
    rw [hidx, swapNodes_arr hij]
    by_cases hki : k = i
    · simp [hki, hne.symm]
    · by_cases hkj : k = j
      · simp [hkj, hij.symm]
      · have h1 : s.arr k ≠ s.arr i := fun heq => hki (h.inj hk hkn' hi hin heq)
        have h2 : s.arr k ≠ s.arr j := fun heq => hkj (h.inj hk hkn' hj hjn heq)
        simp [hki, hkj, h1, h2, h k hk hkn']

end Swap

/-! ## Floating up and down -/

/-- The order holds except between `hole` and its parent. -/
structure UpOrder (s : State α) (hole : Nat) : Prop where
  off : ∀ j, 2 ≤ j → j ≤ s.n → j ≠ hole → prio s j ≤ prio s (j / 2)
  grand : ∀ j, 2 ≤ j → j ≤ s.n → j / 2 = hole → 2 ≤ hole → prio s j ≤ prio s (hole / 2)

/-- The order holds except between `hole` and its children. -/
structure DownOrder (s : State α) (hole : Nat) : Prop where
  off : ∀ j, 2 ≤ j → j ≤ s.n → j / 2 ≠ hole → prio s j ≤ prio s (j / 2)
  grand : ∀ j, 2 ≤ j → j ≤ s.n → j / 2 = hole → 2 ≤ hole → prio s j ≤ prio s (hole / 2)

/-- The order holds wherever `hole` is not involved. -/
structure HoleOrder (s : State α) (hole : Nat) : Prop where
  off : ∀ j, 2 ≤ j → j ≤ s.n → j ≠ hole → j / 2 ≠ hole → prio s j ≤ prio s (j / 2)
  grand : ∀ j, 2 ≤ j → j ≤ s.n → j / 2 = hole → 2 ≤ hole → prio s j ≤ prio s (hole / 2)

omit [DecidableEq α] in
/-- A new priority at one position breaks the order around that position only. -/
theorem Order.holeOrder {s s1 : State α} {i : Nat} (h : Order s) (hn : s1.n ≤ s.n) (hi : 1 ≤ i)
    (hin : i ≤ s.n) (hprio : ∀ j, 1 ≤ j → j ≤ s.n → j ≠ i → prio s1 j = prio s j) :
    HoleOrder s1 i := by
  constructor
  · intro j hj hjn hji hjp
    rw [hprio j (by omega) (by omega) hji, hprio (j / 2) (by omega) (by omega) hjp]
    exact h j hj (by omega)
  · intro j hj hjn hjp h2
    rw [hprio j (by omega) (by omega) (by omega), hprio (i / 2) (by omega) (by omega) (by omega)]
    -- the children of the position are ordered under its parent
    have hchild := h j hj (by omega)
    have hparent := h i h2 hin
    rw [hjp] at hchild
    omega

theorem UpOrder.move {s : State α} {i : Nat} (h : UpOrder s i) (hi : 2 ≤ i) (hin : i ≤ s.n)
    (hlt : prio s (i / 2) < prio s i) : UpOrder (swapNodes s (i / 2) i) (i / 2) := by
  have hne : i / 2 ≠ i := by omega
  constructor
  · intro j hj hjn hjp
    have hjn' : j ≤ s.n := hjn
    rw [swapNodes_prio hne, swapNodes_prio hne, if_neg hjp]
    by_cases hji : j = i
    · rw [if_pos hji, hji, if_pos rfl]
      omega
    · rw [if_neg hji]
      have hoff := h.off j hj hjn' hji
      by_cases hpar : j / 2 = i / 2
      · rw [if_pos hpar]
        rw [hpar] at hoff
        omega
      · rw [if_neg hpar]
        by_cases hpi : j / 2 = i
        · rw [if_pos hpi]
          exact h.grand j hj hjn' hpi hi
        · rw [if_neg hpi]
          exact hoff
  · intro j hj hjn hjp hp2
    have hjn' : j ≤ s.n := hjn
    have hup : prio s (i / 2) ≤ prio s (i / 2 / 2) := h.off (i / 2) hp2 (by omega) hne
    rw [swapNodes_prio hne, swapNodes_prio hne, if_neg (by omega : j ≠ i / 2),
      if_neg (by omega : i / 2 / 2 ≠ i / 2), if_neg (by omega : i / 2 / 2 ≠ i)]
    by_cases hji : j = i
    · rw [if_pos hji]
      exact hup
    · rw [if_neg hji]
      have hoff := h.off j hj hjn' hji
      rw [hjp] at hoff
      omega

theorem floatUp_ok : ∀ (fuel : Nat) (s : State α) (i : Nat), i ≤ fuel → 1 ≤ i → i ≤ s.n →
    Idx s → UpOrder s i → Moved s (floatUp fuel s i).1 ∧ Order (floatUp fuel s i).1
  | 0, s, i, hf, hi, _, _, _ => by omega
  | fuel + 1, s, i, hf, hi, hin, hidx, hup => by
      unfold floatUp
      by_cases h1 : i ≤ 1
      · rw [if_pos h1]
        exact ⟨Moved.refl hidx, fun j hj hjn => hup.off j hj hjn (by omega)⟩
      · rw [if_neg h1]
        by_cases h2 : prio s i ≤ prio s (i / 2)
        · rw [if_pos h2]
          refine ⟨Moved.refl hidx, fun j hj hjn => ?_⟩
          by_cases hji : j = i
          · rw [hji]; exact h2
          · exact hup.off j hj hjn hji
        · rw [if_neg h2]
          have hsw := swapNodes_moved hidx (by omega : i / 2 ≠ i) (by omega) (by omega) hi hin
          obtain ⟨hm, ho⟩ := floatUp_ok fuel (swapNodes s (i / 2) i) (i / 2) (by omega)
            (by omega) (by have := hsw.n; omega) hsw.idx (hup.move (by omega) hin (by omega))
          exact ⟨hsw.trans hm, ho⟩

omit [DecidableEq α] in
theorem maxChild_spec {s : State α} {i : Nat} :
    (maxChild s i = i ∨ maxChild s i = 2 * i ∨ (maxChild s i = 2 * i + 1 ∧ 2 * i + 1 ≤ s.n)) ∧
      prio s i ≤ prio s (maxChild s i) ∧
      ∀ j, 2 ≤ j → j ≤ s.n → j / 2 = i → prio s j ≤ prio s (maxChild s i) := by
  unfold maxChild
  split
  · rename_i h1
    dsimp only
    split
    · rename_i h2
      refine ⟨.inr (.inr ⟨rfl, h2.1⟩), by omega, fun j hj hjn hji => ?_⟩
      rcases (by omega : j = 2 * i ∨ j = 2 * i + 1) with rfl | rfl
      · omega
      · exact le_refl _
    · rename_i h2
      refine ⟨.inr (.inl rfl), by omega, fun j hj hjn hji => ?_⟩
      rcases (by omega : j = 2 * i ∨ j = 2 * i + 1) with rfl | rfl
      · exact le_refl _
      · omega
  · rename_i h1
    dsimp only
    split
    · rename_i h2
      refine ⟨.inr (.inr ⟨rfl, h2.1⟩), by omega, fun j hj hjn hji => ?_⟩
      rcases (by omega : j = 2 * i ∨ j = 2 * i + 1) with rfl | rfl
      · omega
      · exact le_refl _
    · rename_i h2
      refine ⟨.inl rfl, le_refl _, fun j hj hjn hji => ?_⟩
      rcases (by omega : j = 2 * i ∨ j = 2 * i + 1) with rfl | rfl
      · omega
      · omega

theorem DownOrder.move {s : State α} {i m : Nat} (h : DownOrder s i) (hm : m / 2 = i)
    (hm2 : 2 ≤ m) (hmn : m ≤ s.n) (hge : prio s i ≤ prio s m)
    (hmax : ∀ j, 2 ≤ j → j ≤ s.n → j / 2 = i → prio s j ≤ prio s m) :
    DownOrder (swapNodes s m i) m := by
  have hne : m ≠ i := by omega
  constructor
  · intro j hj hjn hjp
    have hjn' : j ≤ s.n := hjn
    rw [swapNodes_prio hne, swapNodes_prio hne, if_neg hjp]
    by_cases hjm : j = m
    · rw [if_pos hjm, hjm, hm, if_pos rfl]
      exact hge
    · rw [if_neg hjm]
      by_cases hpi : j / 2 = i
      · rw [if_pos hpi, if_neg (by omega : j ≠ i)]
        exact hmax j hj hjn' hpi
      · rw [if_neg hpi]
        by_cases hji : j = i
        · rw [if_pos hji, hji]
          exact h.grand m hm2 hmn hm (by omega)
        · rw [if_neg hji]
          exact h.off j hj hjn' hpi
  · intro j hj hjn hjp _
    have hjn' : j ≤ s.n := hjn
    have hoff := h.off j hj hjn' (by omega)
    rw [hjp] at hoff
    rw [swapNodes_prio hne, swapNodes_prio hne, hm, if_neg (by omega : j ≠ m),
      if_neg (by omega : j ≠ i), if_neg (by omega : i ≠ m), if_pos rfl]
    exact hoff

theorem floatDown_ok : ∀ (fuel : Nat) (s : State α) (i : Nat), s.n ≤ fuel + i → 1 ≤ i →
    i ≤ s.n → Idx s → DownOrder s i →
    Moved s (floatDown fuel s i) ∧ Order (floatDown fuel s i)
  | 0, s, i, hf, hi, hin, hidx, hdown =>
      ⟨Moved.refl hidx, fun j hj hjn =>
        hdown.off j hj hjn (by have : j ≤ s.n := hjn; omega)⟩
  | fuel + 1, s, i, hf, hi, hin, hidx, hdown => by
      unfold floatDown
      by_cases hleaf : s.n < 2 * i
      · rw [if_pos hleaf]
        exact ⟨Moved.refl hidx, fun j hj hjn => hdown.off j hj hjn (by omega)⟩
      · rw [if_neg hleaf]
        obtain ⟨hpos, hge, hmax⟩ := maxChild_spec (s := s) (i := i)
        by_cases hstop : maxChild s i = i
        · rw [if_pos hstop]
          refine ⟨Moved.refl hidx, fun j hj hjn => ?_⟩
          by_cases hji : j / 2 = i
          · rw [hji]
            have := hmax j hj hjn hji
            rwa [hstop] at this
          · exact hdown.off j hj hjn hji
        · rw [if_neg hstop]
          have hpar : maxChild s i / 2 = i := by omega
          have hle : maxChild s i ≤ s.n := by omega
          have hsw := swapNodes_moved hidx hstop (by omega) hle hi hin
          obtain ⟨hm, ho⟩ := floatDown_ok fuel (swapNodes s (maxChild s i) i) (maxChild s i)
            (by have := hsw.n; omega) (by omega) (by have := hsw.n; omega) hsw.idx
            (hdown.move hpar (by omega) hle hge hmax)
          exact ⟨hsw.trans hm, ho⟩

theorem floatUpOrDown_ok {s : State α} {i : Nat} (hidx : Idx s) (hi : 1 ≤ i) (hin : i ≤ s.n)
    (h : HoleOrder s i) : Moved s (floatUpOrDown s i) ∧ Ok (floatUpOrDown s i) := by
  suffices hs : Moved s (floatUpOrDown s i) ∧ Order (floatUpOrDown s i) from
    ⟨hs.1, hs.1.idx, hs.2⟩
  by_cases hup : 1 < i ∧ prio s (i / 2) < prio s i
  · have hmoved : (floatUp i s i).2 = true := by
      obtain ⟨k, rfl⟩ : ∃ k, i = k + 1 := ⟨i - 1, by omega⟩
      unfold floatUp
      rw [if_neg (by omega), if_neg (by omega)]
    have hord : UpOrder s i := by
      refine ⟨fun j hj hjn hji => ?_, h.grand⟩
      by_cases hpar : j / 2 = i
      · have := h.grand j hj hjn hpar (by omega)
        rw [hpar]
        omega
      · exact h.off j hj hjn hji hpar
    unfold floatUpOrDown
    simp only [hmoved, if_true]
    exact floatUp_ok i s i (le_refl _) hi hin hidx hord
  · have hstay : floatUp i s i = (s, false) := by
      obtain ⟨k, rfl⟩ : ∃ k, i = k + 1 := ⟨i - 1, by omega⟩
      unfold floatUp
      by_cases h1 : k + 1 ≤ 1
      · rw [if_pos h1]
      · rw [if_neg h1, if_pos (by omega)]
    have hord : DownOrder s i := by
      refine ⟨fun j hj hjn hpar => ?_, h.grand⟩
      by_cases hji : j = i
      · subst hji; omega
      · exact h.off j hj hjn hji hpar
    unfold floatUpOrDown
    simp only [hstay, Bool.false_eq_true, if_false]
    exact floatDown_ok s.n s i (by omega) hi hin hidx hord

/-! ## Insertion, removal and change of priority -/

/-- What an insertion does. -/
structure Inserted (s s' : State α) (x : α) (p : Nat) : Prop where
  ok : Ok s'
  n : s'.n = s.n + 1
  mem : ∀ y, Mem s' y ↔ y = x ∨ Mem s y
  priority_self : (s'.node x).priority = p
  priority : ∀ y, y ≠ x → (s'.node y).priority = (s.node y).priority
  other : ∀ y, y ≠ x → ¬ Mem s y → s'.node y = s.node y

theorem insert_ok {s : State α} {x : α} (h : Ok s) (hx : ¬ Mem s x) (p : Nat) :
    Inserted s (insert s x p) x p := by
  let s2 : State α :=
    { arr := Function.update s.arr (s.n + 1) x
      n := s.n + 1
      node := Function.update s.node x { idx := s.n + 1, priority := p } }
  have hs2 : insert s x p = (floatUp (s.n + 1) s2 (s.n + 1)).1 := by
    simp [insert, putNode, s2]
  have hold : ∀ i, 1 ≤ i → i ≤ s.n → s2.arr i = s.arr i ∧ s2.node (s.arr i) = s.node (s.arr i) := by
    intro i hi hin
    have hne : s.arr i ≠ x := fun heq => hx ⟨i, hi, hin, heq⟩
    exact ⟨Function.update_of_ne (by omega) _ _, Function.update_of_ne hne _ _⟩
  have hidx : Idx s2 := by
    intro i hi hin
    by_cases hlast : i = s.n + 1
    · subst hlast; simp [s2]
    · have hin' : i ≤ s.n := by have : i ≤ s.n + 1 := hin; omega
      obtain ⟨h1, h2⟩ := hold i hi hin'
      rw [h1, h2, h.idx i hi hin']
  have hprio : ∀ i, 1 ≤ i → i ≤ s.n → prio s2 i = prio s i := by
    intro i hi hin
    obtain ⟨h1, h2⟩ := hold i hi hin
    simp only [prio, h1, h2]
  have hord : UpOrder s2 (s.n + 1) := by
    constructor
    · intro j hj hjn hjl
      have hjn' : j ≤ s.n := by have : j ≤ s.n + 1 := hjn; omega
      rw [hprio j (by omega) hjn', hprio (j / 2) (by omega) (by omega)]
      exact h.order j hj hjn'
    · intro j hj hjn hjp _
      have : j ≤ s.n + 1 := hjn
      omega
  obtain ⟨hm, ho⟩ := floatUp_ok (s.n + 1) s2 (s.n + 1) (le_refl _) (by omega) (le_refl _) hidx hord
  have hmem2 : ∀ y, Mem s2 y ↔ y = x ∨ Mem s y := by
    intro y
    constructor
    · rintro ⟨i, hi, hin, rfl⟩
      by_cases hlast : i = s.n + 1
      · left; simp [s2, hlast]
      · have hin' : i ≤ s.n := by have : i ≤ s.n + 1 := hin; omega
        exact .inr ⟨i, hi, hin', (hold i hi hin').1.symm⟩
    · rintro (rfl | ⟨i, hi, hin, rfl⟩)
      · exact ⟨s.n + 1, by omega, le_refl _, by simp [s2]⟩
      · exact ⟨i, hi, by show i ≤ s.n + 1; omega, (hold i hi hin).1⟩
  rw [hs2]
  refine ⟨⟨hm.idx, ho⟩, hm.n, fun y => (hm.mem y).trans (hmem2 y), ?_, fun y hy => ?_,
    fun y hy hny => ?_⟩
  · rw [hm.priority]
    simp [s2]
  · rw [hm.priority]
    simp [s2, hy]
  · rw [hm.other y (fun hmy => ((hmem2 y).mp hmy).elim hy hny)]
    simp [s2, hy]

section RawRemove

variable {s : State α} {x : α}

theorem rawRemove_n : (rawRemove s x).n = s.n - 1 := by
  simp only [rawRemove, putNode]
  split <;> rfl

theorem rawRemove_arr (j : Nat) : (rawRemove s x).arr j
      = if j = (s.node x).idx ∧ (s.node x).idx < s.n then s.arr s.n else s.arr j := by
  by_cases hlt : (s.node x).idx < s.n
  · simp [rawRemove, putNode, Function.update_apply, hlt]
  · simp [rawRemove, hlt]

theorem rawRemove_node (y : α) : (rawRemove s x).node y
      = if (s.node x).idx < s.n ∧ y = s.arr s.n then { s.node y with idx := (s.node x).idx }
        else s.node y := by
  by_cases hlt : (s.node x).idx < s.n
  · by_cases hy : y = s.arr s.n
    · subst hy
      simp [rawRemove, putNode, hlt]
    · simp [rawRemove, putNode, hlt, hy]
  · simp [rawRemove, hlt]

theorem rawRemove_priority (y : α) :
    ((rawRemove s x).node y).priority = (s.node y).priority := by
  rw [rawRemove_node]
  split <;> rfl

theorem rawRemove_mem (h : Idx s) (hx : Mem s x) (y : α) :
    Mem (rawRemove s x) y ↔ y ≠ x ∧ Mem s y := by
  obtain ⟨hi, hin, harr⟩ := h.mem hx
  constructor
  · rintro ⟨j, hj, hjn, rfl⟩
    rw [rawRemove_n] at hjn
    rw [rawRemove_arr]
    split
    · rename_i hlast
      refine ⟨fun heq => ?_, s.n, by omega, le_refl _, rfl⟩
      have := h.inj (by omega) (le_refl _) hi hin (heq.trans harr.symm)
      omega
    · rename_i hlast
      refine ⟨fun heq => ?_, j, hj, by omega, rfl⟩
      have := h.inj hj (by omega) hi hin (heq.trans harr.symm)
      omega
  · rintro ⟨hyx, j, hj, hjn, rfl⟩
    have hji : j ≠ (s.node x).idx := fun heq => hyx (by rw [heq, harr])
    by_cases hjl : j = s.n
    · -- the last element has taken the place of `x`
      refine ⟨(s.node x).idx, hi, by rw [rawRemove_n]; omega, ?_⟩
      rw [rawRemove_arr, if_pos ⟨rfl, by omega⟩, hjl]
    · refine ⟨j, hj, by rw [rawRemove_n]; omega, ?_⟩
      rw [rawRemove_arr, if_neg (by omega)]

theorem rawRemove_idx (h : Idx s) : Idx (rawRemove s x) := by
  intro j hj hjn
  rw [rawRemove_n] at hjn
  rw [rawRemove_arr, rawRemove_node]
  by_cases hlast : j = (s.node x).idx ∧ (s.node x).idx < s.n
  · rw [if_pos hlast, if_pos ⟨hlast.2, rfl⟩]
    exact hlast.1.symm
  · have hne : s.arr j ≠ s.arr s.n := fun heq => by
      have := h.inj hj (by omega) (by omega) (le_refl _) heq
      omega
    rw [if_neg hlast, if_neg fun hc => hne hc.2]
    exact h j hj (by omega)

theorem rawRemove_prio {j : Nat} (hne : j ≠ (s.node x).idx) :
    prio (rawRemove s x) j = prio s j := by
  unfold prio
  rw [rawRemove_priority, rawRemove_arr, if_neg fun hc => hne hc.1]

end RawRemove

theorem remove_ok {s : State α} {x : α} (h : Ok s) (hx : Mem s x) :
    Removed s (remove s x) x := by
  obtain ⟨hi, hin, -⟩ := h.idx.mem hx
  have hidx : Idx (rawRemove s x) := rawRemove_idx h.idx
  have hother : ∀ y, ¬ Mem s y → (rawRemove s x).node y = s.node y := by
    intro y hy
    rw [rawRemove_node, if_neg]
    rintro ⟨-, rfl⟩
    exact hy ⟨s.n, by omega, le_refl _, rfl⟩
  unfold remove
  dsimp only
  by_cases hle : (s.node x).idx ≤ (rawRemove s x).n
  · -- the order is broken where the last element now is
    have hord : HoleOrder (rawRemove s x) (s.node x).idx :=
      h.order.holeOrder (by rw [rawRemove_n]; omega) hi hin fun j _ _ hji => rawRemove_prio hji
    obtain ⟨hm, hok⟩ := floatUpOrDown_ok hidx hi hle hord
    rw [if_pos hle]
    exact hm.removed hok rawRemove_n (rawRemove_mem h.idx hx) rawRemove_priority hother
  · -- `x` was the last element
    have hord : Order (rawRemove s x) := by
      intro j hj hjn
      rw [rawRemove_prio (by omega), rawRemove_prio (by omega)]
      exact h.order j hj (by rw [rawRemove_n] at hjn; omega)
    rw [if_neg hle]
    exact (Moved.refl hidx).removed ⟨hidx, hord⟩ rawRemove_n (rawRemove_mem h.idx hx)
      rawRemove_priority hother

/-- What a change of priority does. -/
structure Changed (s s' : State α) (x : α) (p : Nat) : Prop where
  ok : Ok s'
  n : s'.n = s.n
  mem : ∀ y, Mem s' y ↔ Mem s y
  priority_self : (s'.node x).priority = p
  priority : ∀ y, y ≠ x → (s'.node y).priority = (s.node y).priority
  other : ∀ y, ¬ Mem s y → s'.node y = s.node y

theorem change_ok {s : State α} {x : α} (h : Ok s) (hx : Mem s x) (p : Nat) :
    Changed s (change s x p) x p := by
  obtain ⟨hi, hin, harr⟩ := h.idx.mem hx
  let s1 : State α :=
    { s with node := Function.update s.node x { s.node x with priority := p } }
  have hs : change s x p = floatUpOrDown s1 (s.node x).idx := by
    simp [change, s1]
  generalize hidef : (s.node x).idx = i at hi hin harr hs
  have hidx1 : ∀ y, (s1.node y).idx = (s.node y).idx := by
    intro y
    simp only [s1, Function.update_apply]
    split
    · rename_i hy; rw [hy]
    · rfl
  have hprio : ∀ j, 1 ≤ j → j ≤ s.n → j ≠ i → prio s1 j = prio s j := by
    intro j hj hjn hji
    have hne : s.arr j ≠ x := fun heq =>
      hji (h.idx.inj hj hjn hi hin (heq.trans harr.symm))
    simp [prio, s1, hne]
  have hord : HoleOrder s1 i := h.order.holeOrder (le_refl _) hi hin hprio
  have hidx : Idx s1 := fun j hj hjn => (hidx1 _).trans (h.idx j hj hjn)
  obtain ⟨hm, hok⟩ := floatUpOrDown_ok hidx hi hin hord
  rw [hs]
  refine ⟨hok, hm.n, hm.mem, ?_, fun y hy => ?_, fun y hy => ?_⟩
  · rw [hm.priority]
    simp [s1]
  · rw [hm.priority]
    simp [s1, hy]
  · rw [hm.other y hy]
    have hyx : y ≠ x := fun heq => hy (heq ▸ hx)
    simp [s1, hyx]

/-! ## Priorities, in any state -/

section Priorities

variable {s : State α}

theorem floatUp_priority (x : α) : ∀ (fuel : Nat) (s : State α) (i : Nat),
    ((floatUp fuel s i).1.node x).priority = (s.node x).priority
  | 0, _, _ => rfl
  | fuel + 1, s, i => by
      unfold floatUp
      split
      · rfl
      · split
        · rfl
        · exact (floatUp_priority x fuel _ _).trans (swapNodes_priority x)

theorem floatDown_priority (x : α) : ∀ (fuel : Nat) (s : State α) (i : Nat),
    ((floatDown fuel s i).node x).priority = (s.node x).priority
  | 0, _, _ => rfl
  | fuel + 1, s, i => by
      unfold floatDown
      split
      · rfl
      · split
        · rfl
        · exact (floatDown_priority x fuel _ _).trans (swapNodes_priority x)

theorem floatUpOrDown_priority (x : α) (i : Nat) :
    ((floatUpOrDown s i).node x).priority = (s.node x).priority := by
  unfold floatUpOrDown
  dsimp only
  split
  · exact floatUp_priority x i s i
  · exact (floatDown_priority x _ _ i).trans (floatUp_priority x i s i)

/-- An insertion gives its priority to one handle, and no other handle has a new one. -/
theorem insert_priority (x y : α) (p : Nat) :
    ((insert s x p).node y).priority = if y = x then p else (s.node y).priority := by
  unfold insert
  dsimp only
  rw [floatUp_priority]
  split
  · rename_i h
    subst h
    simp
  · rename_i h
    simp [h, putNode]

/-- A removal gives no handle a new priority. -/
theorem remove_priority (x y : α) : ((remove s x).node y).priority = (s.node y).priority := by
  unfold remove
  dsimp only
  split
  · exact (floatUpOrDown_priority y _).trans (rawRemove_priority y)
  · exact rawRemove_priority y

end Priorities

end IndexedHeap
