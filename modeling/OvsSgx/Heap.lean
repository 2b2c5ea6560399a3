/-
OvsSgx.Heap — the heaps of trusted/lib/heap.h and heap.c.

A `struct heap` is an array of pointers to nodes that are embedded in the
records on the heap. The nodes are therefore an argument and a result of
every operation: `nodes x` is the `struct heap_node` inside record `x`. The
operations go by the position that a node has stored and do not check that
the node is on the heap. A call returns as long as the positions that it
reads hold elements; otherwise it reads beyond them, and the result is `none`.
-/
import OvsSgx.Lib.IndexedHeap

namespace OvsSgx

/-- `struct heap_node`. -/
abbrev HeapNode := IndexedHeap.Node

/-- `struct heap`. -/
structure Heap where
  array : Nat → Nat
  n : Nat

/-- A heap together with the nodes of all records. -/
def Heap.state (h : Heap) (nodes : Nat → HeapNode) : IndexedHeap.State Nat :=
  ⟨h.array, h.n, nodes⟩

/-- The heap and the nodes again. -/
def heapOf (s : IndexedHeap.State Nat) : Heap × (Nat → HeapNode) := (⟨s.arr, s.n⟩, s.node)

/-- `heap_init_ovs`. -/
def heapInitOvs : Heap := ⟨fun _ => 0, 0⟩

/-- `heap_count_ovs`. -/
def heapCountOvs (h : Heap) : Nat := h.n

/-- `heap_insert_ovs`. -/
def heapInsertOvs (h : Heap) (nodes : Nat → HeapNode) (x priority : Nat) :
    Heap × (Nat → HeapNode) :=
  heapOf (IndexedHeap.insert (h.state nodes) x priority)

/-- `heap_remove_ovs`. The count of an empty heap wraps around. -/
def heapRemoveOvs (h : Heap) (nodes : Nat → HeapNode) (x : Nat) :
    Option (Heap × (Nat → HeapNode)) :=
  if h.n = 0 then none else some (heapOf (IndexedHeap.remove (h.state nodes) x))

/-- `heap_change_ovs`. Position 1 is not read in a heap with fewer than two elements. -/
def heapChangeOvs (h : Heap) (nodes : Nat → HeapNode) (x priority : Nat) :
    Option (Heap × (Nat → HeapNode)) :=
  if 1 ≤ (nodes x).idx ∧ (nodes x).idx ≤ max 1 h.n then
    some (heapOf (IndexedHeap.change (h.state nodes) x priority))
  else none

/-- What `HEAP_FOR_EACH` visits. -/
def heapForEach (h : Heap) (nodes : Nat → HeapNode) : List Nat :=
  IndexedHeap.forEach (h.state nodes)

/-! ## What the operations do -/

section Specs

open IndexedHeap

variable {h : Heap} {nodes : Nat → HeapNode} {x : Nat}

theorem heapInsertOvs_ok (hok : Ok (h.state nodes)) (hx : ¬ Mem (h.state nodes) x) (p : Nat) :
    Inserted (h.state nodes)
      ((heapInsertOvs h nodes x p).1.state (heapInsertOvs h nodes x p).2) x p :=
  insert_ok hok hx p

theorem heapRemoveOvs_ok (hok : Ok (h.state nodes)) (hx : Mem (h.state nodes) x) :
    ∃ h' nodes', heapRemoveOvs h nodes x = some (h', nodes') ∧
      Removed (h.state nodes) (h'.state nodes') x := by
  let s := remove (h.state nodes) x
  refine ⟨(heapOf s).1, (heapOf s).2, ?_, remove_ok hok hx⟩
  have hn : h.n ≠ 0 := by
    intro hzero
    obtain ⟨i, hi, hin, -⟩ := hx
    have hin' : i ≤ h.n := hin
    omega
  rw [heapRemoveOvs, if_neg hn]

theorem heapChangeOvs_ok (hok : Ok (h.state nodes)) (hx : Mem (h.state nodes) x) (p : Nat) :
    ∃ h' nodes', heapChangeOvs h nodes x p = some (h', nodes') ∧
      Changed (h.state nodes) (h'.state nodes') x p := by
  let s := change (h.state nodes) x p
  refine ⟨(heapOf s).1, (heapOf s).2, ?_, change_ok hok hx p⟩
  obtain ⟨hpos, hle, -⟩ := hok.idx.mem hx
  rw [heapChangeOvs, if_pos ⟨hpos, hle.trans (le_max_right _ _)⟩]

theorem mem_heapForEach (hidx : Idx (h.state nodes)) :
    x ∈ heapForEach h nodes ↔ Mem (h.state nodes) x :=
  mem_forEach hidx

/-- The walk over a heap starts with a record of greatest priority. -/
theorem heapForEach_head (hok : Ok (h.state nodes)) (hn : 0 < h.n) :
    ∃ x l, heapForEach h nodes = x :: l ∧ Mem (h.state nodes) x ∧
      ∀ y, Mem (h.state nodes) y → (nodes y).priority ≤ (nodes x).priority :=
  forEach_head hok hn

end Specs

end OvsSgx
