/-
OvsSgx.Taggable — what the enclave keeps for tagging flows.

For each table `SGX_table_dpif` records two subtables: the catch-all one and
the only other one, if there is only one. `ecall_oftable_update_taggable`
records them anew. A tag is a hash of the flow under the mask of a rule or
of the recorded subtable; a subtable that has been destroyed in the
meantime must not be looked at, and then the result is `none`.
-/
import OvsSgx.Enclave

namespace OvsSgx

/-- `struct SGX_table_dpif`. -/
structure TableDpif where
  catchallTable : Option TableId
  otherTable : Option TableId
  basis : U32
deriving DecidableEq, Repr

/-- A bridge with its `SGX_table_dpif`. -/
structure TaggedBridge where
  enclave : Enclave
  dpif : Nat → TableDpif

/-- `cls_table_is_catchall`. -/
def clsTableIsCatchall (tbl : ClsTable) : Bool := minimaskIsCatchall tbl.mask

/-- The loop of `ecall_oftable_update_taggable`, with `catchall` and `other`. -/
def taggableStep (cls : Classifier) (co : Option TableId × Option TableId) (t : TableId) :
    Option TableId × Option TableId :=
  if clsTableIsCatchall (cls.table t) then (some t, co.2)
  else if co.2 = none then (co.1, some t)
  else (co.1, none)

/-- `catchall` and `other` after the `switch`. -/
def taggableTables (cls : Classifier) : Option TableId × Option TableId :=
  if hmapCount cls.tables = 1 ∨ hmapCount cls.tables = 2 then
    cls.tables.values.foldl (taggableStep cls) (none, none)
  else (none, none)

/-- `REV_FLOW_TABLE`, as the enclave returns it. -/
def revFlowTable : Nat := 4

/-- `ecall_oftable_update_taggable`. -/
def ecallOftableUpdateTaggable (s : TaggedBridge) (i : Nat) : TaggedBridge × Nat :=
  let co := taggableTables (s.enclave.oftable i).cls
  if (s.dpif i).catchallTable ≠ co.1 ∨ (s.dpif i).otherTable ≠ co.2 then
    let dpif := { s.dpif i with catchallTable := co.1, otherTable := co.2 }
    ({ s with dpif := Function.update s.dpif i dpif }, revFlowTable)
  else (s, 0)

@[simp] theorem ecallOftableUpdateTaggable_enclave (s : TaggedBridge) (i : Nat) :
    (ecallOftableUpdateTaggable s i).1.enclave = s.enclave := by
  unfold ecallOftableUpdateTaggable
  dsimp only
  split <;> rfl

/-- The subtables recorded for table `i` are those that it has. -/
def TaggedBridge.Recorded (s : TaggedBridge) (i : Nat) : Prop :=
  taggableTables (s.enclave.oftable i).cls = ((s.dpif i).catchallTable, (s.dpif i).otherTable)

section Update

variable {s : TaggedBridge} {i j : Nat}

theorem ecallOftableUpdateTaggable_ne (h : j ≠ i) :
    (ecallOftableUpdateTaggable s i).1.dpif j = s.dpif j := by
  simp only [ecallOftableUpdateTaggable]
  split
  · exact Function.update_of_ne h ..
  · rfl

/-- After the call the subtables are recorded, and if it returns 0 they were before. -/
theorem ecallOftableUpdateTaggable_recorded :
    (ecallOftableUpdateTaggable s i).1.Recorded i ∧
      ((ecallOftableUpdateTaggable s i).2 = 0 →
        (ecallOftableUpdateTaggable s i).1 = s ∧ s.Recorded i) := by
  simp only [ecallOftableUpdateTaggable, TaggedBridge.Recorded]
  split
  · simp [revFlowTable]
  · rename_i hsame
    rw [not_or, not_not, not_not] at hsame
    have hrec : taggableTables (s.enclave.oftable i).cls
        = ((s.dpif i).catchallTable, (s.dpif i).otherTable) := by
      rw [hsame.1, hsame.2]
    exact ⟨hrec, fun _ => ⟨rfl, hrec⟩⟩

end Update

/-- The loop keeps subtables that it has come upon. -/
theorem foldl_taggableStep_mem {cls : Classifier} {t : TableId} {l : List TableId} :
    ∀ {co : Option TableId × Option TableId},
    (l.foldl (taggableStep cls) co).1 = some t ∨ (l.foldl (taggableStep cls) co).2 = some t →
    t ∈ l ∨ co.1 = some t ∨ co.2 = some t := by
  induction l with
  | nil =>
    intro co h
    exact .inr h
  | cons u l ih =>
    intro co h
    rcases ih h with hl | hco
    · exact .inl (List.mem_cons_of_mem _ hl)
    · unfold taggableStep at hco
      split at hco
      · simp only [Option.some.injEq] at hco
        rcases hco with rfl | hco
        · exact .inl (List.mem_cons_self ..)
        · exact .inr (.inr hco)
      · split at hco
        · simp only [Option.some.injEq] at hco
          rcases hco with hco | rfl
          · exact .inr (.inl hco)
          · exact .inl (List.mem_cons_self ..)
        · exact .inr (.inl (hco.resolve_right (by simp)))

/-- The subtables to record are in the classifier. -/
theorem taggableTables_mem {cls : Classifier} {t : TableId}
    (h : (taggableTables cls).1 = some t ∨ (taggableTables cls).2 = some t) :
    t ∈ cls.tables.values := by
  unfold taggableTables at h
  split at h
  · exact (foldl_taggableStep_mem h).resolve_right (by simp)
  · simp at h

/-- `ecall_oftable_is_other_table`. -/
def ecallOftableIsOtherTable (s : TaggedBridge) (i : Nat) : Nat :=
  if (s.dpif i).otherTable.isSome then 100 else 0

/-- `ecall_rule_calculate_tag`. -/
def ecallRuleCalculateTag (s : TaggedBridge) (a : UtAddr) (flow : Flow) (i : Nat) :
    Option U32 := do
  let r ← sgxRuleFromUtCr s.enclave a
  let mask := (s.enclave.clsRule r).match.mask
  if minimaskIsCatchall mask then some 0#32
  else some (flowHashInMinimask flow mask (s.dpif i).basis)

/-- `ecall_rule_calculate_tag_s`. -/
def ecallRuleCalculateTagS (s : TaggedBridge) (i : Nat) (flow : Flow) : Option U32 := do
  let t ← (s.dpif i).otherTable
  let cls := (s.enclave.oftable i).cls
  if t ∈ cls.tables.values then
    if minimaskIsCatchall (cls.table t).mask then some 0#32
    else some (flowHashInMinimask flow (cls.table t).mask (s.dpif i).basis)
  else none

/-- `sgx_table_dpif_init`; `xmalloc` leaves the bases as they are. -/
def sgxTableDpifInit (basis : Nat → U32) (i : Nat) : TableDpif := ⟨none, none, basis i⟩

end OvsSgx
