/-
OvsSgx.MatchingTables — the loop over the tables that a request names.

Models `FOR_EACH_MATCHING_TABLE` of trusted/enclave.h and the functions of
trusted/oftable/oftable.c that it calls. A `struct oftable *` is the index of
its table in `SGX_oftables`. The loop goes on from an 8-bit table number: up
to 255 tables the number after the last one still fits, and the loop visits
what `matchingTables` lists. With 256 tables it would start again from table
0.
-/
import OvsSgx.CollectRules

namespace OvsSgx

/-! ## The loop -/

/-- `next_visible_table`: the first table that is not hidden, from number `tableId` on. -/
def nextVisibleTable (s : Enclave) (nTables : Nat) (tableId : BitVec 8) : Option Nat :=
  (List.range' tableId.toNat (nTables - tableId.toNat)).find? fun j => !(s.oftable j).flags.hidden

/-- `first_matching_table`. -/
def firstMatchingTable (s : Enclave) (nTables : Nat) (tableId : BitVec 8) : Option Nat :=
  if tableId = 0xff#8 then nextVisibleTable s nTables 0#8
  else if tableId.toNat < nTables then some tableId.toNat
  else none

/-- `next_matching_table`. The index of the next table is cut to `uint8_t`. -/
def nextMatchingTable (s : Enclave) (nTables table : Nat) (tableId : BitVec 8) : Option Nat :=
  if tableId = 0xff#8 then nextVisibleTable s nTables (BitVec.ofNat 8 (table + 1)) else none

/-- The rounds of the loop from `table` on, or `none` if there are more than `fuel` of them. -/
def visitTables (s : Enclave) (nTables : Nat) (tableId : BitVec 8) :
    Nat → Option Nat → Option (List Nat)
  | _, none => some []
  | 0, some _ => none
  | fuel + 1, some table =>
    (visitTables s nTables tableId fuel (nextMatchingTable s nTables table tableId)).map (table :: ·)

/-- `FOR_EACH_MATCHING_TABLE`: the tables that it visits within `fuel` rounds. -/
def forEachMatchingTable (s : Enclave) (nTables : Nat) (tableId : BitVec 8) (fuel : Nat) :
    Option (List Nat) :=
  visitTables s nTables tableId fuel (firstMatchingTable s nTables tableId)

section Loop

variable {s : Enclave} {nTables fuel : Nat} {tableId : BitVec 8}

/-! ## Where the loop goes on -/

/-- The visible tables from number `i` on. -/
def visibleFrom (s : Enclave) (nTables i : Nat) : List Nat :=
  (List.range' i (nTables - i)).filter fun j => !(s.oftable j).flags.hidden

/-- What is found is the first of the visible tables. -/
theorem nextVisibleTable_eq (s : Enclave) (nTables : Nat) (tableId : BitVec 8) :
    nextVisibleTable s nTables tableId = (visibleFrom s nTables tableId.toNat).head? := by
  unfold nextVisibleTable visibleFrom
  exact List.head?_filter.symm

/-- The tables after the first visible one. -/
theorem visibleFrom_cons {i t : Nat} {l : List Nat} (h : visibleFrom s nTables i = t :: l) :
    t < nTables ∧ visibleFrom s nTables (t + 1) = l := by
  induction hn : nTables - i generalizing i with
  | zero =>
    simp [visibleFrom, hn] at h
  | succ n ih =>
    have hi : i < nTables := by omega
    have hrange : List.range' i (nTables - i) = i :: List.range' (i + 1) (nTables - (i + 1)) := by
      rw [hn, List.range'_succ]
      congr 2
      omega
    have hstep : visibleFrom s nTables i = if (s.oftable i).flags.hidden then
        visibleFrom s nTables (i + 1) else i :: visibleFrom s nTables (i + 1) := by
      unfold visibleFrom
      rw [hrange]
      cases hhid : (s.oftable i).flags.hidden with
      | false => simp [hhid]
      | true => simp [hhid]
    rw [hstep] at h
    split at h
    · exact ih h (by omega)
    · obtain ⟨rfl, rfl⟩ := List.cons.inj h
      exact ⟨hi, rfl⟩

/-- From a visible table on, the loop visits the visible tables that are left: the number of the
next one never wraps. -/
theorem visitTables_visible (hn : nTables ≤ 255) {fuel : Nat} : ∀ {i : Nat}, i ≤ nTables →
    nTables ≤ i + fuel →
    visitTables s nTables 0xff#8 fuel (visibleFrom s nTables i).head?
      = some (visibleFrom s nTables i) := by
  induction fuel with
  | zero =>
    intro i _ hfuel
    have hzero : nTables - i = 0 := Nat.sub_eq_zero_of_le hfuel
    have hnil : visibleFrom s nTables i = [] := by rw [visibleFrom, hzero]; rfl
    rw [hnil]
    rfl
  | succ fuel ih =>
    intro i hi hfuel
    cases hl : visibleFrom s nTables i with
    | nil => rfl
    | cons t l =>
      obtain ⟨ht, hrest⟩ := visibleFrom_cons hl
      have hle : i ≤ t := by
        have hmem : t ∈ visibleFrom s nTables i := by
          rw [hl]
          exact List.mem_cons_self ..
        exact (List.mem_range'_1.mp (List.mem_of_mem_filter hmem)).1
      -- 255 is the largest number that is passed on
      have hwrap : (BitVec.ofNat 8 (t + 1)).toNat = t + 1 := by
        rw [BitVec.toNat_ofNat]
        exact Nat.mod_eq_of_lt (by omega)
      have hnext : nextMatchingTable s nTables t 0xff#8 = (visibleFrom s nTables (t + 1)).head? := by
        rw [nextMatchingTable, if_pos rfl, nextVisibleTable_eq, hwrap]
      rw [List.head?_cons, visitTables, hnext, ih (by omega) (by omega), hrest]
      rfl

/-! ## What the loop visits -/

/-- The loop ends and visits the tables that `matchingTables` lists. -/
theorem forEachMatchingTable_eq (hn : nTables ≤ 255) (tableId : BitVec 8) (hfuel : nTables ≤ fuel) :
    forEachMatchingTable s nTables tableId fuel
      = some (matchingTables s nTables tableId.toNat) := by
  unfold forEachMatchingTable firstMatchingTable matchingTables
  by_cases hid : tableId = 0xff#8
  · subst hid
    have hvisit := visitTables_visible (s := s) hn (Nat.zero_le nTables)
      (show nTables ≤ 0 + fuel by omega)
    have hff : (0xff#8 : BitVec 8).toNat = 0xff := rfl
    rw [if_pos rfl, nextVisibleTable_eq, if_pos hff, List.range_eq_range']
    exact hvisit
  · have hne : tableId.toNat ≠ 0xff := by
      intro heq
      exact hid (BitVec.eq_of_toNat_eq heq)
    rw [if_neg hid, if_neg hne]
    split
    · rename_i hlt
      cases fuel with
      | zero => omega
      | succ fuel =>
        rw [visitTables, nextMatchingTable, if_neg hid]
        cases fuel <;> rfl
    · cases fuel <;> rfl

/-- The tables of the loop, in increasing order. -/
theorem matchingTables_sorted (s : Enclave) (nTables i : Nat) :
    (matchingTables s nTables i).Pairwise (· < ·) := by
  unfold matchingTables
  split
  · exact List.pairwise_lt_range.filter _
  · split
    · exact List.pairwise_singleton _ _
    · exact List.Pairwise.nil

theorem mem_matchingTables {i j : Nat} : j ∈ matchingTables s nTables i ↔
    j < nTables ∧ if i = 0xff then (s.oftable j).flags.hidden = false else j = i := by
  unfold matchingTables
  split
  · simp
  · split
    · rename_i hlt
      rw [List.mem_singleton]
      exact ⟨fun hj => ⟨hj ▸ hlt, hj⟩, And.right⟩
    · rename_i hlt
      simp only [List.not_mem_nil, false_iff, not_and]
      rintro hj rfl
      exact hlt hj

/-- With up to 255 tables the loop ends after as many rounds as there are tables at most. For table
number 0xff it visits exactly the tables that are not hidden, for another one exactly the table with
that number, hidden or not, and it visits them in increasing order, each once. -/
theorem forEachMatchingTable_visits (s : Enclave) (hn : nTables ≤ 255) (tableId : BitVec 8) :
    ∃ l, (∀ fuel, nTables ≤ fuel → forEachMatchingTable s nTables tableId fuel = some l) ∧
      l.Pairwise (· < ·) ∧ ∀ j, j ∈ l ↔ j < nTables ∧
        if tableId = 0xff#8 then (s.oftable j).flags.hidden = false else j = tableId.toNat := by
  refine ⟨matchingTables s nTables tableId.toNat, fun fuel hfuel => ?_, matchingTables_sorted _ _ _,
    fun j => ?_⟩
  · exact forEachMatchingTable_eq hn tableId hfuel
  · rw [mem_matchingTables]
    have hid : tableId.toNat = 0xff ↔ tableId = 0xff#8 :=
      ⟨fun heq => BitVec.eq_of_toNat_eq heq, fun heq => by rw [heq]; rfl⟩
    simp only [hid]

/-- Three tables, the second one hidden. -/
theorem forEachMatchingTable_visits_three :
    ∃ l, (∀ fuel, 3 ≤ fuel → forEachMatchingTable
        (ecallOftableSetReadonly (ecallOfprotoInitTables 3 fun _ => 0#16) 1) 3 0xff#8 fuel
          = some l) ∧
      l.Pairwise (· < ·) ∧ ∀ j, j ∈ l ↔ j < 3 ∧
        if (0xff#8 : BitVec 8) = 0xff#8 then
          ((ecallOftableSetReadonly (ecallOfprotoInitTables 3 fun _ => 0#16) 1).oftable
            j).flags.hidden = false
        else j = (0xff#8 : BitVec 8).toNat :=
  forEachMatchingTable_visits _ (by decide) 0xff#8

/-- With 256 tables, none of them hidden, the loop would not end. -/
theorem forEachMatchingTable_wraps (hvisible : ∀ j, (s.oftable j).flags.hidden = false)
    (fuel : Nat) : forEachMatchingTable s 256 0xff#8 fuel = none := by
  have hnext : ∀ k : BitVec 8, nextVisibleTable s 256 k = some k.toNat := by
    intro k
    have hpos : 256 - k.toNat = (255 - k.toNat) + 1 := by omega
    unfold nextVisibleTable
    rw [hpos, List.range'_succ, List.find?_cons_of_pos (by simp [hvisible])]
  have hloop : ∀ fuel t, visitTables s 256 0xff#8 fuel (some t) = none := by
    intro fuel
    induction fuel with
    | zero => exact fun _ => rfl
    | succ fuel ih =>
      intro t
      rw [visitTables, nextMatchingTable, if_pos rfl, hnext, ih]
      rfl
  rw [forEachMatchingTable, firstMatchingTable, if_pos rfl, hnext]
  exact hloop fuel _

end Loop

end OvsSgx
