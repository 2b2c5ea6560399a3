/-
OvsSgx.FiledDeletions — which deletions a call files.

Only `ofoperation_create` puts an operation into the hmap `deletions`, under
a new handle, and only `ofoperation_destroy` takes one out. What a call files
are thus the deletions that it starts: `Files o o' L` says that those of `o'`
were there in `o`, or are new and of rules in `L`.
-/
import OvsSgx.OfprotoSteps

namespace OvsSgx

/-- Entry `e` of the hmap is a deletion of a rule in `L`, under its own key and with a handle from
`n` on. -/
def Ofproto.FiledFrom (o : Ofproto) (n : OpId) (L : List UtAddr) (e : Nat × OpId) : Prop :=
  n ≤ e.2 ∧ e.2 < o.nextOp ∧ (o.op e.2).rule ∈ L ∧ (o.op e.2).hash.toNat = e.1

/-- From `o` to `o'` only deletions of rules in `L` have been filed, and the older operations are
still about the same rules and have the same keys. -/
structure Files (o o' : Ofproto) (L : List UtAddr) : Prop where
  nextOp : o.nextOp ≤ o'.nextOp
  op : ∀ k < o.nextOp, (o'.op k).rule = (o.op k).rule ∧ (o'.op k).hash = (o.op k).hash
  filed : ∀ e ∈ o'.deletions.entries, e ∈ o.deletions.entries ∨ o'.FiledFrom o.nextOp L e

section Files

variable {o o' o'' : Ofproto} {L M : List UtAddr} {a : UtAddr} {k : OpId} {g : GroupId}
  {isHidden : Bool}

/-- The operations and the hmap are untouched. -/
theorem Files.of_eq (hdel : o'.deletions = o.deletions) (hop : o'.op = o.op)
    (hnext : o'.nextOp = o.nextOp) : Files o o' [] :=
  ⟨hnext.ge, fun k _ => by simp [hop], fun e he => .inl (hdel ▸ he)⟩

theorem Files.refl (o : Ofproto) : Files o o [] := Files.of_eq rfl rfl rfl

theorem Files.trans (h : Files o o' L) (h' : Files o' o'' M) : Files o o'' (L ++ M) := by
  refine ⟨h.nextOp.trans h'.nextOp, fun k hk => ?_, fun e he => ?_⟩
  · obtain ⟨hrule, hhash⟩ := h.op k hk
    obtain ⟨hrule', hhash'⟩ := h'.op k (Nat.lt_of_lt_of_le hk h.nextOp)
    exact ⟨hrule'.trans hrule, hhash'.trans hhash⟩
  · rcases h'.filed e he with he | ⟨hle, hlt, hM, hkey⟩
    · rcases h.filed e he with he | ⟨hle, hlt, hL, hkey⟩
      · exact .inl he
      · obtain ⟨hrule, hhash⟩ := h'.op e.2 hlt
        rw [← hrule] at hL
        rw [← hhash] at hkey
        exact .inr ⟨hle, Nat.lt_of_lt_of_le hlt h'.nextOp, List.mem_append_left M hL, hkey⟩
    · exact .inr ⟨h.nextOp.trans hle, hlt, List.mem_append_right L hM, hkey⟩

/-- A step that files nothing, after another. -/
theorem Files.then (h : Files o o' L) (h' : Files o' o'' []) : Files o o'' L := by
  simpa using h.trans h'

/-- A step that files nothing, before another. -/
theorem Files.after (h : Files o o' []) (h' : Files o' o'' L) : Files o o'' L := by
  simpa using h.trans h'

/-! ## Elementary steps -/

theorem addOperation_files (o : Ofproto) (g : GroupId) (a : UtAddr) (type : OfoperationType)
    (hash : U32) :
    Files o (o.addOperation g a type hash) (if type = .delete then [a] else []) := by
  refine ⟨Nat.le_succ _, fun k hk => ?_, fun e he => ?_⟩
  · simp [Ofproto.addOperation, Nat.ne_of_lt hk]
  · by_cases htype : type = .delete
    · simp only [Ofproto.addOperation, htype, if_true] at he
      rcases List.mem_cons.mp ((entries_hmapInsert_perm _ _ _).subset he) with rfl | he
      · refine .inr ⟨Nat.le_refl _, Nat.lt_succ_self _, ?_, ?_⟩
        · simp [Ofproto.addOperation, htype]
        · simp [Ofproto.addOperation]
      · exact .inl he
    · simp only [Ofproto.addOperation, htype, if_false] at he
      exact .inl he

theorem ofoperationDestroy_files (o : Ofproto) (k : OpId) :
    Files o (ofoperationDestroy o k) [] := by
  refine ⟨Nat.le_refl _, fun _ _ => ⟨rfl, rfl⟩, fun e he => .inl ?_⟩
  unfold ofoperationDestroy at he
  dsimp only at he
  split at he
  · rw [hmapRemove, ChainMap.entries_erase_eq] at he
    exact List.mem_of_mem_erase he
  · exact he

theorem Elementary.files (h : Elementary o o') : Files o o' [] := by
  cases h with
  | table h =>
    cases h with
    | bookkeeping h => exact Files.of_eq h.deletions h.op h.nextOp
    | ecall hc hs => exact Files.of_eq rfl rfl rfl
  | update k group hrule htype hhash =>
    refine ⟨Nat.le_refl _, fun j _ => ?_, fun e he => .inl he⟩
    rcases eq_or_ne j k with rfl | hj
    · simp [hrule, hhash]
    · simp [hj]
  | release a => exact Files.of_eq rfl rfl rfl
  | destroy k => exact ofoperationDestroy_files o k

/-- The rules of the deletions among the operations `L`. -/
def deletedRules (L : List (OfoperationType × UtAddr)) : List UtAddr :=
  (L.filter (·.1 = .delete)).map Prod.snd

theorem deletedRules_map (l : List UtAddr) :
    deletedRules (l.map fun a => (OfoperationType.delete, a)) = l := by
  induction l with
  | nil => rfl
  | cons a l ih =>
    rw [List.map_cons]
    simpa [deletedRules] using ih

/-- Steps file the deletions that they create. -/
theorem Steps.files {L : List (OfoperationType × UtAddr)} (h : Steps L o o') :
    Files o o' (deletedRules L) := by
  induction h with
  | refl o => exact Files.refl o
  | elementary hstep _ ih => exact hstep.files.after ih
  | @create L o o' g a type hash _ ih =>
    have hcreate := (addOperation_files o g a type hash).trans ih
    have hsplit : deletedRules ((type, a) :: L)
        = (if type = .delete then [a] else []) ++ deletedRules L := by
      by_cases htype : type = .delete <;> simp [deletedRules, htype]
    rw [hsplit]
    exact hcreate

/-! ## Calls -/

theorem ofopgroupCreate_files (o : Ofproto) (s : Enclave) :
    Files o { (ofopgroupCreate o).1 with enclave := s } [] :=
  Files.of_eq rfl rfl rfl

/-- The deletions of `l` in a new group, after the enclave has done its part. -/
theorem deletions_files {l : List (UtAddr × U32)} {s : Enclave} {o1 : Ofproto}
    (hfold : l.foldlM (startDeletion g) { (ofopgroupCreate o).1 with enclave := s } = some o1)
    (hs : ofopgroupSubmit o1 g isHidden = some o') : Files o o' (l.map Prod.fst) := by
  have hall := (deletions_steps hfold hs).files
  have hmap : (l.map fun e => (OfoperationType.delete, e.1))
      = (l.map Prod.fst).map fun a => (OfoperationType.delete, a) := by simp
  rw [hmap, deletedRules_map] at hall
  exact (ofopgroupCreate_files o s).after hall

theorem ofprotoEvict_files (hs : ofprotoEvict o = some o') : ∃ L, Files o o' L := by
  obtain ⟨⟨s, entries, total⟩, -, hs⟩ := Option.bind_eq_some_iff.mp hs
  obtain ⟨⟨o1, removed⟩, h1, hs⟩ := Option.bind_eq_some_iff.mp hs
  obtain ⟨⟨s2, hidden⟩, -, hs⟩ := Option.bind_eq_some_iff.mp hs
  obtain ⟨o2, h2, hs⟩ := Option.bind_eq_some_iff.mp hs
  obtain ⟨L, -, hL⟩ := evictEntries_steps h1
  have hset : Files o1 { o1 with enclave := s2 } [] := Files.of_eq rfl rfl rfl
  have hdestruct := foldlM_steps_none (fun o a o' hs =>
    (show Steps [] o (o.unlinkExpirable a) from Steps.of_eq rfl rfl rfl rfl rfl).then
      (ruleDestruct_steps hs)) h2
  exact ⟨_, ((ofopgroupCreate_files o s).after hL.files).then
    (hset.after (hdestruct.then (ofopgroupSubmit_steps hs)).files)⟩

/-- A call of `add_flow` files the deletion of the evicted rule, if it succeeds. -/
theorem finishAddFlow_files {cr : UtAddr} {out : AddFlowOut} {construct error : Option Ofperr}
    (hs : finishAddFlow o cr out construct = some (o', error)) :
    Files o o' [] ∨ (error = none ∧ Files o o' out.evict.toList) := by
  rcases finishAddFlow_steps hs with ⟨-, L, hL, h⟩ | ⟨herr, h⟩
  · have hnone : deletedRules L = [] := by
      obtain rfl | rfl := hL <;> rfl
    exact .inl (hnone ▸ h.files)
  · have hall := h.files
    have hskip : deletedRules ((OfoperationType.add, cr) :: out.evict.toList.map fun a => (.delete, a))
        = deletedRules (out.evict.toList.map fun a => (.delete, a)) := rfl
    rw [hskip, deletedRules_map] at hall
    exact .inr ⟨herr, hall⟩

end Files

end OvsSgx
