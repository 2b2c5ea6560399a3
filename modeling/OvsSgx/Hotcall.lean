/-
OvsSgx.Hotcall — the queue of calls between the switch and the enclave.

A stub writes a call record into the next of the 20 slots of `pfc.fcs` and
links that slot into `ecall_queue`. The slots are used round and round, and
nobody checks whether a slot is still in the queue. The poller visits the
queue, executes each record and takes it off. `RingOk` says what the slots
and the queue hold as long as at most 20 calls are waiting.
-/
import OvsSgx.Lib.LinkedRing
import Mathlib.Tactic

namespace OvsSgx

open LinkedRing

/-- A node of the queue: `ecall_queue` itself or the `list_node` of a slot. -/
inductive QueueNode where
  | head
  | slot (i : Nat)
deriving DecidableEq, Repr

/-- The length of `pfc.fcs`. -/
def nFcalls : Nat := 20

/-- `pfc.fcs`, `pfc.idx` and the pointers of `ecall_queue`. -/
structure CallRing (κ : Type) where
  fcs : Nat → κ
  idx : Nat
  links : Links QueueNode

variable {κ : Type}

/-- `hotcall_init`, for memory with call records `fcs`. -/
def hotcallInit (fcs : Nat → κ) : CallRing κ :=
  { fcs := fcs
    idx := 0
    links := Links.clear ⟨fun _ => .head, fun _ => .head⟩ .head }

/-- `get_fcall`: the record goes into slot `idx`. -/
def getFcall (q : CallRing κ) (c : κ) : CallRing κ :=
  { q with
    fcs := Function.update q.fcs q.idx c
    idx := if q.idx + 1 = nFcalls then 0 else q.idx + 1 }

/-- `list_insert` of slot `i` into `ecall_queue`. -/
def listInsert (q : CallRing κ) (i : Nat) : CallRing κ :=
  { q with links := q.links.insert .head (.slot i) }

/-- The record of a node. -/
def CallRing.record (q : CallRing κ) : QueueNode → Option κ
  | .head => none
  | .slot i => some (q.fcs i)

/-- The loop of `ecall_start_poller` over `ecall_queue`: the records in the order in which
they are executed. A queue has at most one node for each slot; a loop that visits more does
not end. -/
def pollQueue (q : CallRing κ) : Option (List κ × CallRing κ) := do
  let (visited, links) ← Links.drain .head (nFcalls + 1) q.links (q.links.next .head)
  return (visited.filterMap q.record, { q with links := links })

/-! ## What the ring holds -/

/-- Call `k` of all calls is in this slot. -/
def slotOf (k : Nat) : QueueNode := .slot (k % nFcalls)

/-- Of the calls `issued`, the first `e` have been executed, and those up to `m` are in the
queue. -/
structure RingOk (q : CallRing κ) (issued : List κ) (e m : Nat) : Prop where
  idx : q.idx = issued.length % nFcalls
  le : e ≤ m
  linked : m ≤ issued.length
  room : issued.length ≤ e + nFcalls
  records : ∀ k, e ≤ k → ∀ c, issued[k]? = some c → q.fcs (k % nFcalls) = c
  links : q.links.Represents .head ((List.range' e (m - e)).map slotOf)

variable {q : CallRing κ} {issued : List κ} {e m : Nat} {c : κ}

theorem hotcallInit_ok (fcs : Nat → κ) : RingOk (hotcallInit fcs) [] 0 0 where
  idx := rfl
  le := Nat.le_refl _
  linked := Nat.le_refl _
  room := Nat.zero_le _
  records := by simp
  links := Links.clear_represents _ _

/-- Calls less than 20 apart are in different slots. -/
theorem mod_ne_of_lt {j k : Nat} (h1 : j < k) (h2 : k < j + nFcalls) :
    j % nFcalls ≠ k % nFcalls := by
  simp only [nFcalls] at *
  omega

theorem slotOf_inj {j k : Nat} (hj : e ≤ j) (hk : e ≤ k) (hj' : j < e + nFcalls)
    (hk' : k < e + nFcalls) (heq : slotOf j = slotOf k) : j = k := by
  have hmod : j % nFcalls = k % nFcalls := by simpa [slotOf] using heq
  rcases Nat.lt_trichotomy j k with hlt | heq | hgt
  · exact absurd hmod (mod_ne_of_lt hlt (by omega))
  · exact heq
  · exact absurd hmod.symm (mod_ne_of_lt hgt (by omega))

/-- A record is written into a slot that is not in the queue. -/
theorem RingOk.getFcall (h : RingOk q issued e issued.length) (hroom : issued.length < e + nFcalls)
    (c : κ) : RingOk (OvsSgx.getFcall q c) (issued ++ [c]) e issued.length where
  idx := by
    have hidx := h.idx
    simp only [OvsSgx.getFcall, List.length_append, List.length_singleton, hidx, nFcalls]
    split <;> omega
  le := h.le
  linked := by simp
  room := by
    rw [List.length_append, List.length_singleton]
    omega
  records := by
    intro k hk c' hc
    simp only [OvsSgx.getFcall, h.idx]
    rcases Nat.lt_trichotomy k issued.length with hlt | rfl | hgt
    · rw [List.getElem?_append_left hlt] at hc
      rw [Function.update_of_ne (mod_ne_of_lt hlt (by omega))]
      exact h.records k hk c' hc
    · rw [Function.update_self]
      simpa using hc
    · rw [List.getElem?_eq_none (by rw [List.length_append, List.length_singleton]; omega)] at hc
      cases hc
  links := h.links

/-- The slot with the new record is linked in. -/
theorem RingOk.listInsert (h : RingOk q issued e m) (hm : m + 1 = issued.length) :
    RingOk (OvsSgx.listInsert q (m % nFcalls)) issued e issued.length where
  idx := h.idx
  le := Nat.le_trans h.le h.linked
  linked := Nat.le_refl _
  room := h.room
  records := h.records
  links := by
    have hroom := h.room
    have hle := h.le
    have hnot : slotOf m ∉ QueueNode.head :: (List.range' e (m - e)).map slotOf := by
      intro hmem
      rcases List.mem_cons.mp hmem with heq | hmem
      · cases heq
      · obtain ⟨k, hk, heq⟩ := List.mem_map.mp hmem
        rw [List.mem_range'_1] at hk
        have := slotOf_inj (e := e) hk.1 hle (by omega) (by omega) heq
        omega
    have hlist : (List.range' e (issued.length - e)).map slotOf
        = (List.range' e (m - e)).map slotOf ++ [slotOf m] := by
      have hlen : issued.length - e = m - e + 1 := by omega
      rw [hlen, List.range'_concat, List.map_append]
      have hlast : e + 1 * (m - e) = m := by omega
      rw [hlast]
      rfl
    rw [hlist]
    exact h.links.insert hnot

/-- Reading the positions of a list from `e` on. -/
theorem filterMap_getElem?_range' (l : List κ) (e : Nat) :
    (List.range' e (l.length - e)).filterMap (fun k => l[k]?) = l.drop e := by
  induction hn : l.length - e generalizing e with
  | zero => simp [List.drop_eq_nil_of_le (Nat.le_of_sub_eq_zero hn)]
  | succ n ih =>
    have hlt : e < l.length := by omega
    rw [List.range'_succ, List.drop_eq_getElem_cons hlt, ← ih (e + 1) (by omega)]
    simp [List.getElem?_eq_getElem hlt]

/-- The poller executes the waiting calls in the order in which they were issued and leaves
an empty queue. -/
theorem RingOk.pollQueue (h : RingOk q issued e issued.length) :
    ∃ q', OvsSgx.pollQueue q = some (issued.drop e, q') ∧
      RingOk q' issued issued.length issued.length := by
  have hroom := h.room
  have hlen : ((List.range' e (issued.length - e)).map slotOf).length < nFcalls + 1 := by
    rw [List.length_map, List.length_range']
    omega
  obtain ⟨L, hdrain, hL⟩ := h.links.drain hlen
  have hrecords : ((List.range' e (issued.length - e)).map slotOf).filterMap q.record
      = issued.drop e := by
    rw [List.filterMap_map]
    have hget : ∀ k ∈ List.range' e (issued.length - e),
        (q.record ∘ slotOf) k = issued[k]? := by
      intro k hk
      rw [List.mem_range'_1] at hk
      have hlt : k < issued.length := by omega
      rw [List.getElem?_eq_getElem hlt]
      exact congrArg some (h.records k hk.1 _ (List.getElem?_eq_getElem hlt))
    rw [List.filterMap_congr hget]
    exact filterMap_getElem?_range' issued e
  refine ⟨{ q with links := L }, ?_, ?_⟩
  · rw [OvsSgx.pollQueue, hdrain, ← hrecords]
    rfl
  · exact
      { idx := h.idx
        le := Nat.le_refl _
        linked := Nat.le_refl _
        room := Nat.le_add_right _ _
        records := fun k hk c hc => by
          rw [List.getElem?_eq_none hk] at hc
          cases hc
        links := by simpa using hL }

end OvsSgx
