/-
OvsSgx.Lib.ChainMap — a hash table with separate chaining.

An entry is a pair of a hash and a value. Bucket `hash &&& mask` holds
the entries of that hash, newest first; the two invariants (an entry sits
in the bucket of its hash, the count is the number of entries) are fields
of the structure, so a table that breaks them cannot be built.

`entries` is the order in which an iteration over the table meets the
entries. The lemmas say what each operation does to `entries`:
insertion and rehashing permute, removal and replacement act in place
(`edit_split`), and a search by hash is a filter
(`withHash_eq`).
-/
import Mathlib.Data.List.Basic
import Mathlib.Data.List.Perm.Basic
import Mathlib.Data.List.Range
import Mathlib.Logic.Function.Basic
import Mathlib.Tactic

/-- A table of `mask + 1` chains. -/
structure ChainMap (α : Type) where
  mask : Nat
  bucket : Nat → List (Nat × α)
  count : Nat
  placed : ∀ i, ∀ e ∈ bucket i, e.1 &&& mask = i
  count_eq : count = ((List.range (mask + 1)).flatMap bucket).length

namespace ChainMap

variable {α : Type}

/-- The entries in iteration order: bucket by bucket, each chain from its head. -/
def entries (m : ChainMap α) : List (Nat × α) := (List.range (m.mask + 1)).flatMap m.bucket

/-- The values in iteration order. -/
def values (m : ChainMap α) : List α := m.entries.map Prod.snd

/-! ## One bucket inside the iteration order -/

theorem range_split {n i : Nat} (h : i < n) :
    List.range n = List.range i ++ i :: (List.range (n - i - 1)).map (i + 1 + ·) := by
  conv_lhs => rw [show n = i + (1 + (n - i - 1)) by omega, List.range_add]
  rw [List.range_add]
  simp [Nat.add_assoc, Function.comp_def]

/-- Changing one bucket changes one segment of the concatenation; the
segments around it hold entries of other buckets only. -/
theorem flatMap_update (f : Nat → List (Nat × α)) {n i : Nat} (h : i < n) :
    ∃ A B, (∀ e ∈ A ++ B, ∃ j, j ≠ i ∧ e ∈ f j) ∧
      ∀ l, (List.range n).flatMap (Function.update f i l) = A ++ (l ++ B) := by
  refine ⟨(List.range i).flatMap f,
    ((List.range (n - i - 1)).map (i + 1 + ·)).flatMap f, ?_, fun l => ?_⟩
  · intro e he
    rcases List.mem_append.mp he with he | he
    · obtain ⟨j, hj, hej⟩ := List.mem_flatMap.mp he
      exact ⟨j, by have := List.mem_range.mp hj; omega, hej⟩
    · obtain ⟨j, hj, hej⟩ := List.mem_flatMap.mp he
      obtain ⟨k, _, rfl⟩ := List.mem_map.mp hj
      exact ⟨_, by omega, hej⟩
  · have hleft : (List.range i).flatMap (Function.update f i l) = (List.range i).flatMap f :=
      List.flatMap_congr fun j hj => by
        rw [Function.update_of_ne (by have := List.mem_range.mp hj; omega)]
    have hright : ((List.range (n - i - 1)).map (i + 1 + ·)).flatMap (Function.update f i l)
        = ((List.range (n - i - 1)).map (i + 1 + ·)).flatMap f :=
      List.flatMap_congr fun j hj => by
        obtain ⟨k, _, rfl⟩ := List.mem_map.mp hj
        rw [Function.update_of_ne (by omega)]
    rw [range_split h, List.flatMap_append, List.flatMap_cons, hleft, hright,
      Function.update_self]

theorem and_mask_lt (h mask : Nat) : h &&& mask < mask + 1 :=
  Nat.lt_succ_of_le Nat.and_le_right

/-- The iteration order around the bucket of hash `h`. -/
theorem entries_around (m : ChainMap α) (h : Nat) :
    ∃ A B, (∀ e ∈ A ++ B, e.1 &&& m.mask ≠ h &&& m.mask) ∧
      m.entries = A ++ (m.bucket (h &&& m.mask) ++ B) ∧
      ∀ l, (List.range (m.mask + 1)).flatMap (Function.update m.bucket (h &&& m.mask) l)
        = A ++ (l ++ B) := by
  obtain ⟨A, B, hoff, hup⟩ := flatMap_update m.bucket (and_mask_lt h m.mask)
  refine ⟨A, B, fun e he => ?_, ?_, hup⟩
  · obtain ⟨j, hj, hej⟩ := hoff e he
    rw [m.placed j e hej]
    exact hj
  · have := hup (m.bucket (h &&& m.mask))
    rwa [Function.update_eq_self] at this

theorem mem_bucket_iff {m : ChainMap α} {e : Nat × α} :
    e ∈ m.bucket (e.1 &&& m.mask) ↔ e ∈ m.entries := by
  obtain ⟨A, B, hoff, hent, -⟩ := entries_around m e.1
  rw [hent]
  constructor
  · intro he; simp [he]
  · intro he
    rcases List.mem_append.mp he with he | he
    · exact absurd rfl (hoff e (List.mem_append_left _ he))
    · rcases List.mem_append.mp he with he | he
      · exact he
      · exact absurd rfl (hoff e (List.mem_append_right _ he))

theorem count_eq_length (m : ChainMap α) : m.count = m.entries.length := m.count_eq

/-! ## Empty table and insertion -/

/-- A table without entries. -/
def empty (mask : Nat) : ChainMap α where
  mask := mask
  bucket := fun _ => []
  count := 0
  placed := fun _ e he => by simp at he
  count_eq := by simp

@[simp] theorem entries_empty (mask : Nat) : (empty mask : ChainMap α).entries = [] := by
  simp [entries, empty]

theorem placed_update {mask : Nat} {f : Nat → List (Nat × α)}
    (hf : ∀ i, ∀ e ∈ f i, e.1 &&& mask = i) {i : Nat} {l : List (Nat × α)}
    (hl : ∀ e ∈ l, e.1 &&& mask = i) :
    ∀ j, ∀ e ∈ Function.update f i l j, e.1 &&& mask = j := by
  intro j e he
  by_cases h : j = i
  · subst h; rw [Function.update_self] at he; exact hl e he
  · rw [Function.update_of_ne h] at he; exact hf j e he

/-- Put an entry at the front of its chain. -/
def insert (m : ChainMap α) (hash : Nat) (a : α) : ChainMap α where
  mask := m.mask
  bucket := Function.update m.bucket (hash &&& m.mask)
    ((hash, a) :: m.bucket (hash &&& m.mask))
  count := m.count + 1
  placed := placed_update m.placed fun e he => by
    rcases List.mem_cons.mp he with rfl | he
    · rfl
    · exact m.placed _ e he
  count_eq := by
    obtain ⟨A, B, -, hent, hup⟩ := entries_around m hash
    rw [hup, count_eq_length, hent]
    simp only [List.length_append, List.length_cons]
    omega

theorem insert_split (m : ChainMap α) (hash : Nat) (a : α) :
    ∃ A B, m.entries = A ++ B ∧ (m.insert hash a).entries = A ++ (hash, a) :: B := by
  obtain ⟨A, B, -, hent, hup⟩ := entries_around m hash
  refine ⟨A, m.bucket (hash &&& m.mask) ++ B, hent, ?_⟩
  exact hup ((hash, a) :: m.bucket (hash &&& m.mask))

theorem entries_insert_perm (m : ChainMap α) (hash : Nat) (a : α) :
    (m.insert hash a).entries.Perm ((hash, a) :: m.entries) := by
  obtain ⟨A, B, h1, h2⟩ := insert_split m hash a
  rw [h1, h2]
  exact List.perm_middle

/-! ## Rehashing -/

/-- Move every entry, in iteration order, into a table with another mask.
Every chain comes out reversed. -/
def rehash (m : ChainMap α) (newMask : Nat) : ChainMap α :=
  m.entries.foldl (fun t e => t.insert e.1 e.2) (empty newMask)

theorem foldl_insert_perm (l : List (Nat × α)) (t : ChainMap α) :
    (l.foldl (fun t e => t.insert e.1 e.2) t).entries.Perm (l ++ t.entries) := by
  induction l generalizing t with
  | nil => simp
  | cons e l ih =>
    refine (ih (t.insert e.1 e.2)).trans ?_
    refine ((entries_insert_perm t e.1 e.2).append_left l).trans ?_
    exact List.perm_middle

theorem entries_rehash_perm (m : ChainMap α) (newMask : Nat) :
    (m.rehash newMask).entries.Perm m.entries := by
  have := foldl_insert_perm m.entries (empty newMask)
  simpa [rehash] using this

/-! ## Removal and replacement -/

section Edit

variable [DecidableEq α]

/-- Take the first occurrence of `e` out of its chain. -/
def erase (m : ChainMap α) (e : Nat × α) : ChainMap α where
  mask := m.mask
  bucket := Function.update m.bucket (e.1 &&& m.mask) ((m.bucket (e.1 &&& m.mask)).erase e)
  count := if e ∈ m.bucket (e.1 &&& m.mask) then m.count - 1 else m.count
  placed := placed_update m.placed fun x hx => m.placed _ x (List.mem_of_mem_erase hx)
  count_eq := by
    obtain ⟨A, B, -, hent, hup⟩ := entries_around m e.1
    rw [hup, count_eq_length, hent]
    split
    · rename_i hmem
      have hpos := List.length_pos_of_mem hmem
      simp only [List.length_append, List.length_erase_of_mem hmem]
      omega
    · rename_i hmem
      rw [List.erase_of_not_mem hmem]

/-- Put value `b` in the place of the first occurrence of `e`, under the same hash. -/
def replace (m : ChainMap α) (e : Nat × α) (b : α) : ChainMap α where
  mask := m.mask
  bucket := Function.update m.bucket (e.1 &&& m.mask)
    ((m.bucket (e.1 &&& m.mask)).replace e (e.1, b))
  count := m.count
  placed := placed_update m.placed fun x hx => by
    by_cases hmem : e ∈ m.bucket (e.1 &&& m.mask)
    · obtain ⟨s, t, hl, hs⟩ := List.eq_append_cons_of_mem hmem
      have hx' : x ∈ s ++ (e.1, b) :: t := by
        rw [hl, List.replace_append_right hs] at hx
        simpa using hx
      rcases List.mem_append.mp hx' with h | h
      · exact m.placed _ x (by rw [hl]; simp [h])
      · rcases List.mem_cons.mp h with rfl | h
        · rfl
        · exact m.placed _ x (by rw [hl]; simp [h])
    · rw [List.replace_of_not_mem hmem] at hx
      exact m.placed _ x hx
  count_eq := by
    obtain ⟨A, B, -, hent, hup⟩ := entries_around m e.1
    rw [hup, count_eq_length, hent]
    simp [List.length_replace]

/-- Where `e` stands in the iteration order, and what removing or
replacing it leaves. -/
theorem edit_split {m : ChainMap α} {e : Nat × α} (he : e ∈ m.entries) :
    ∃ A B, m.entries = A ++ e :: B ∧ e ∉ A ∧ (m.erase e).entries = A ++ B ∧
      ∀ b, (m.replace e b).entries = A ++ (e.1, b) :: B := by
  obtain ⟨A, B, hoff, hent, hup⟩ := entries_around m e.1
  obtain ⟨s, t, hl, hs⟩ := List.eq_append_cons_of_mem (mem_bucket_iff.mpr he)
  refine ⟨A ++ s, t ++ B, by simp [hent, hl], ?_, ?_, fun b => ?_⟩
  · intro hmem
    rcases List.mem_append.mp hmem with h | h
    · exact hoff e (List.mem_append_left _ h) rfl
    · exact hs h
  · have hbucket : (m.bucket (e.1 &&& m.mask)).erase e = s ++ t := by
      rw [hl, List.erase_append_right _ hs, List.erase_cons_head]
    have := hup ((m.bucket (e.1 &&& m.mask)).erase e)
    rw [hbucket] at this
    simpa [entries, erase, hbucket] using this
  · have hbucket : (m.bucket (e.1 &&& m.mask)).replace e (e.1, b) = s ++ (e.1, b) :: t := by
      rw [hl, List.replace_append_right hs]
      simp
    have := hup ((m.bucket (e.1 &&& m.mask)).replace e (e.1, b))
    rw [hbucket] at this
    simpa [entries, replace, hbucket] using this

theorem entries_erase {m : ChainMap α} {e : Nat × α} (he : e ∈ m.entries) :
    (m.erase e).entries = m.entries.erase e := by
  obtain ⟨A, B, h1, hA, h2, -⟩ := edit_split he
  rw [h2, h1, List.erase_append_right _ hA, List.erase_cons_head]

/-- The same for any pair: what is not there is not taken out. -/
theorem entries_erase_eq (m : ChainMap α) (e : Nat × α) :
    (m.erase e).entries = m.entries.erase e := by
  by_cases he : e ∈ m.entries
  · exact entries_erase he
  · have hbucket : (m.bucket (e.1 &&& m.mask)).erase e = m.bucket (e.1 &&& m.mask) :=
      List.erase_of_not_mem fun h => he (mem_bucket_iff.mp h)
    rw [List.erase_of_not_mem he]
    simp [entries, erase, hbucket]

theorem entries_erase_sublist (m : ChainMap α) (e : Nat × α) :
    (m.erase e).entries.Sublist m.entries := by
  rw [entries_erase_eq]
  exact List.erase_sublist

theorem values_erase_sublist (m : ChainMap α) (e : Nat × α) :
    (m.erase e).values.Sublist m.values :=
  (m.entries_erase_sublist e).map Prod.snd

theorem values_erase_perm {m : ChainMap α} {e : Nat × α} (he : e ∈ m.entries) :
    m.values.Perm (e.2 :: (m.erase e).values) := by
  unfold values
  rw [entries_erase_eq]
  exact (List.perm_cons_erase he).map Prod.snd

end Edit

/-! ## Search -/

/-- The values of the chain in which `hash` lands, whatever their hash. -/
def inBucket (m : ChainMap α) (hash : Nat) : List α :=
  (m.bucket (hash &&& m.mask)).map Prod.snd

/-- The values stored under exactly `hash`, in chain order. -/
def withHash (m : ChainMap α) (hash : Nat) : List α :=
  ((m.bucket (hash &&& m.mask)).filter (fun e => e.1 == hash)).map Prod.snd

theorem withHash_eq (m : ChainMap α) (hash : Nat) :
    m.withHash hash = (m.entries.filter (fun e => e.1 == hash)).map Prod.snd := by
  obtain ⟨A, B, hoff, hent, -⟩ := entries_around m hash
  have hnone : ∀ l : List (Nat × α), (∀ e ∈ l, e ∈ A ++ B) →
      l.filter (fun e => e.1 == hash) = [] := by
    intro l hl
    refine List.filter_eq_nil_iff.mpr fun e he heq => ?_
    have : e.1 = hash := by simpa using heq
    exact hoff e (hl e he) (by rw [this])
  rw [hent, List.filter_append, List.filter_append,
    hnone A (fun e he => List.mem_append_left _ he),
    hnone B (fun e he => List.mem_append_right _ he)]
  simp [withHash]

theorem mem_withHash {m : ChainMap α} {hash : Nat} {a : α} :
    a ∈ m.withHash hash ↔ (hash, a) ∈ m.entries := by
  rw [withHash_eq]
  simp

theorem mem_inBucket_of_mem {m : ChainMap α} {e : Nat × α} (he : e ∈ m.entries) :
    e.2 ∈ m.inBucket e.1 :=
  List.mem_map.mpr ⟨e, mem_bucket_iff.mpr he, rfl⟩

theorem mem_entries_of_inBucket {m : ChainMap α} {hash : Nat} {a : α}
    (ha : a ∈ m.inBucket hash) : ∃ h, (h, a) ∈ m.entries := by
  obtain ⟨e, he, rfl⟩ := List.mem_map.mp ha
  refine ⟨e.1, mem_bucket_iff.mp ?_⟩
  rwa [m.placed _ e he]

end ChainMap
