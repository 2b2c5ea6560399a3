/-
OvsSgx.TableNames — the names of the tables in the enclave.

`ecall_oftable_set_name` takes the name from untrusted memory, cuts it to
`OFP_MAX_TABLE_NAME_LEN` bytes and keeps it; `ecall_oftable_name` copies it
into a buffer. To find out whether the name is empty the first one looks at
the byte with the number of the bridge. It keeps the old name if that starts
with the new one, and the second one leaves out the zero byte at the end
when the buffer is not longer than the name.
-/
import OvsSgx.ConfigureTable

namespace OvsSgx

/-! ## The two ecalls -/

/-- The names of the tables of all bridges. -/
abbrev TableNames := Nat → Nat → Option (List U8)

/-- `ecall_oftable_set_name`. -/
def TableNames.set (names : TableNames) (bridgeId tableId : Nat) (name : Option (Nat → U8)) :
    TableNames :=
  Function.update names bridgeId (Function.update (names bridgeId) tableId
    (ecallOftableSetName bridgeId (names bridgeId tableId) name))

/-- `ecall_oftable_name`: `buf` after the call, for the name of the table. -/
def ecallOftableName (name : Option (List U8)) (buf : List U8) : List U8 :=
  match name with
  | some name =>
    if name.length < buf.length then name ++ 0#8 :: buf.drop (name.length + 1)
    else name.take buf.length
  | none => List.replicate buf.length 0#8

/-- The names that calls of `ecall_oftable_set_name` lead to. -/
inductive NamesReachable : TableNames → Prop where
  | init : NamesReachable fun _ _ => none
  | set {names : TableNames} (bridgeId tableId : Nat) (name : Option (Nat → U8)) :
      NamesReachable names → NamesReachable (names.set bridgeId tableId name)

/-! ## Strings in memory -/

/-- The string `s` and its end lie at the beginning of `mem`. -/
structure HoldsString (mem : Nat → U8) (s : List U8) : Prop where
  char : ∀ k (h : k < s.length), mem k = s[k]
  nonzero : 0#8 ∉ s
  terminator : mem s.length = 0#8

/-- The string that a pointer leads to; a null pointer stands for the empty one. -/
def NameString (name : Option (Nat → U8)) (s : List U8) : Prop :=
  match name with
  | some mem => HoldsString mem s
  | none => s = []

section Strings

variable {mem : Nat → U8} {s old : List U8} {names : TableNames}

theorem takeWhile_memory (h : HoldsString mem s) (n : Nat) :
    ((List.range n).map mem).takeWhile (· ≠ 0#8) = s.take n := by
  induction n with
  | zero => simp
  | succ n ih =>
    rw [List.range_succ, List.map_append, List.map_singleton, List.takeWhile_append, ih]
    rcases Nat.lt_trichotomy n s.length with hlt | heq | hgt
    · -- the next byte belongs to the string
      have hlen : (s.take n).length = ((List.range n).map mem).length := by simp; omega
      have hne : s[n] ≠ 0#8 := fun hz => h.nonzero (hz ▸ List.getElem_mem hlt)
      have hchars : (List.range n).map mem = s.take n := by
        rw [← ih]
        refine ((List.takeWhile_prefix _).eq_of_length ?_).symm
        rw [ih, hlen]
      rw [if_pos hlen, hchars, List.take_succ_eq_append_getElem hlt, h.char n hlt]
      simp [hne]
    · -- it is the end
      have hlen : (s.take n).length = ((List.range n).map mem).length := by simp; omega
      have hchars : (List.range n).map mem = s.take n := by
        rw [← ih]
        refine ((List.takeWhile_prefix _).eq_of_length ?_).symm
        rw [ih, hlen]
      rw [if_pos hlen, hchars, heq, h.terminator, List.take_of_length_le (Nat.le_refl _),
        List.take_of_length_le (Nat.le_succ _)]
      simp
    · have hlen : (s.take n).length ≠ ((List.range n).map mem).length := by simp; omega
      rw [if_neg hlen, List.take_of_length_le (by omega), List.take_of_length_le (by omega)]

/-- What is kept of a new name. -/
theorem nameChars_eq (h : HoldsString mem s) : nameChars mem = s.take OFP_MAX_TABLE_NAME_LEN :=
  takeWhile_memory h _

theorem nameChars_nonzero (mem : Nat → U8) : 0#8 ∉ nameChars mem := by
  intro hmem
  have := List.mem_takeWhile_imp hmem
  simp at this

theorem ecallOftableSetName_nonzero {bridgeId : Nat} {name : Option (Nat → U8)}
    {o : Option (List U8)} (hold : ∀ l, o = some l → 0#8 ∉ l) :
    ∀ l, ecallOftableSetName bridgeId o name = some l → 0#8 ∉ l := by
  intro l hl
  cases name with
  | none => cases hl
  | some mem =>
    simp only [ecallOftableSetName] at hl
    split at hl
    · cases hl
    · cases o with
      | none =>
        cases hl
        exact nameChars_nonzero mem
      | some old =>
        dsimp only at hl
        split at hl
        · cases hl
          exact nameChars_nonzero mem
        · cases hl
          exact hold _ rfl

/-- A name that is kept has no zero byte. -/
theorem NamesReachable.nonzero (h : NamesReachable names) :
    ∀ b t l, names b t = some l → 0#8 ∉ l := by
  induction h with
  | init =>
    intro b t l hl
    cases hl
  | @set names bridgeId tableId name _ ih =>
    intro b t l hl
    unfold TableNames.set at hl
    rcases eq_or_ne b bridgeId with rfl | hb
    · rw [Function.update_self] at hl
      rcases eq_or_ne t tableId with rfl | ht
      · rw [Function.update_self] at hl
        exact ecallOftableSetName_nonzero (fun l hl => ih b t l hl) l hl
      · rw [Function.update_of_ne ht] at hl
        exact ih b t l hl
    · rw [Function.update_of_ne hb] at hl
      exact ih b t l hl

end Strings

/-! ## Setting and reading a name -/

/-- What setting the name `s` of a table is for: the buffer gets the name, cut to the length of
names and of the buffer, and its end, and the other tables keep their names. -/
structure NameTaken (names names' : TableNames) (bridgeId tableId : Nat) (s buf : List U8) :
    Prop where
  read : ∃ rest, ecallOftableName (names' bridgeId tableId) buf
    = (s.take OFP_MAX_TABLE_NAME_LEN).take (buf.length - 1) ++ 0#8 :: rest
  others : ∀ b t, (b, t) ≠ (bridgeId, tableId) → names' b t = names b t

/-- There is a buffer, and the name is null; or its byte with the number of the bridge is zero and
nothing of it should be read; or this byte is not zero, the buffer is longer than the name and the
old name is no longer name that starts with it. -/
def TakesEffect (bridgeId : Nat) (old : Option (List U8)) (name : Option (Nat → U8))
    (s : List U8) (len : Nat) : Prop :=
  0 < len ∧
  match name with
  | none => True
  | some mem =>
    if mem bridgeId = 0#8 then s = [] ∨ len = 1
    else (s.take OFP_MAX_TABLE_NAME_LEN).length < len ∧
      ∀ l, old = some l → s.take OFP_MAX_TABLE_NAME_LEN <+: l →
        l = s.take OFP_MAX_TABLE_NAME_LEN

section Names

variable {names : TableNames} {bridgeId tableId : Nat} {name : Option (Nat → U8)} {s buf : List U8}

theorem TableNames.set_self : (names.set bridgeId tableId name) bridgeId tableId
    = ecallOftableSetName bridgeId (names bridgeId tableId) name := by
  simp [TableNames.set]

theorem TableNames.set_others {b t : Nat} (h : (b, t) ≠ (bridgeId, tableId)) :
    (names.set bridgeId tableId name) b t = names b t := by
  unfold TableNames.set
  rcases eq_or_ne b bridgeId with rfl | hb
  · have ht : t ≠ tableId := fun heq => h (by rw [heq])
    rw [Function.update_self, Function.update_of_ne ht]
  · rw [Function.update_of_ne hb]

/-- The string at the beginning of a buffer. -/
theorem takeWhile_string {t : List U8} (ht : 0#8 ∉ t) (rest : List U8) :
    (t ++ 0#8 :: rest).takeWhile (· ≠ 0#8) = t := by
  rw [List.takeWhile_append_of_pos fun c hc => by simpa using fun hz : c = 0#8 => ht (hz ▸ hc)]
  simp

/-- A table without a name has the empty string for it. -/
theorem ecallOftableName_none {t : List U8} (ht : 0#8 ∉ t) :
    (∃ rest, ecallOftableName none buf = t ++ 0#8 :: rest) ↔ 0 < buf.length ∧ t = [] := by
  constructor
  · rintro ⟨rest, hrest⟩
    have hlen := congrArg List.length hrest
    simp only [ecallOftableName, List.length_replicate, List.length_append,
      List.length_cons] at hlen
    refine ⟨by omega, ?_⟩
    cases t with
    | nil => rfl
    | cons c t =>
      have hmem : c ∈ List.replicate buf.length 0#8 := by
        rw [show List.replicate buf.length 0#8 = c :: t ++ 0#8 :: rest from hrest]
        exact List.mem_cons_self ..
      have hc := List.eq_of_mem_replicate hmem
      exact absurd (hc ▸ List.mem_cons_self ..) ht
  · rintro ⟨hpos, rfl⟩
    refine ⟨List.replicate (buf.length - 1) 0#8, ?_⟩
    rw [List.nil_append, ← List.replicate_succ, Nat.sub_add_cancel hpos]
    rfl

/-- A name is in the buffer together with its end if that is longer. -/
theorem ecallOftableName_some {l t : List U8} (hl : 0#8 ∉ l) (ht : 0#8 ∉ t) :
    (∃ rest, ecallOftableName (some l) buf = t ++ 0#8 :: rest) ↔ l.length < buf.length ∧ t = l := by
  unfold ecallOftableName
  dsimp only
  split
  · rename_i hlt
    constructor
    · rintro ⟨rest, hrest⟩
      refine ⟨hlt, ?_⟩
      rw [← takeWhile_string ht rest, ← hrest, takeWhile_string hl]
    · rintro ⟨-, rfl⟩
      exact ⟨_, rfl⟩
  · rename_i hge
    constructor
    · rintro ⟨rest, hrest⟩
      have hmem : 0#8 ∈ l.take buf.length := by
        rw [hrest]
        simp
      exact absurd (List.mem_of_mem_take hmem) hl
    · rintro ⟨hlt, -⟩
      exact absurd hlt hge

/-- The name that is kept, either the new one or an old one that starts with it, is what should be
read if it is the new one and fits. -/
theorem read_kept_iff {t l : List U8} (hl : 0#8 ∉ l) (ht : 0#8 ∉ t) (hpre : t <+: l) :
    (∃ rest, ecallOftableName (some l) buf = t.take (buf.length - 1) ++ 0#8 :: rest) ↔
      t.length < buf.length ∧ l = t := by
  have hle := hpre.length_le
  rw [ecallOftableName_some hl fun hz => ht (List.mem_of_mem_take hz)]
  constructor
  · rintro ⟨hlt, heq⟩
    rw [List.take_of_length_le (by omega)] at heq
    exact ⟨by omega, heq.symm⟩
  · rintro ⟨hlt, rfl⟩
    exact ⟨hlt, List.take_of_length_le (by omega)⟩

/-- After the name of a table has been set, the buffer of `ecall_oftable_name` has it, cut to the
two lengths and with its end, and no other name has changed, exactly in the cases of
`TakesEffect`. -/
theorem setName_taken_iff (h : NamesReachable names) (hs : NameString name s) (buf : List U8) :
    NameTaken names (names.set bridgeId tableId name) bridgeId tableId s buf ↔
      TakesEffect bridgeId (names bridgeId tableId) name s buf.length := by
  have hread : NameTaken names (names.set bridgeId tableId name) bridgeId tableId s buf ↔
      ∃ rest, ecallOftableName (ecallOftableSetName bridgeId (names bridgeId tableId) name) buf
        = (s.take OFP_MAX_TABLE_NAME_LEN).take (buf.length - 1) ++ 0#8 :: rest := by
    rw [← TableNames.set_self]
    exact ⟨NameTaken.read, fun hr => ⟨hr, fun b t hne => TableNames.set_others hne⟩⟩
  rw [hread]
  unfold TakesEffect
  cases name with
  | none =>
    obtain rfl : s = [] := hs
    rw [ecallOftableSetName, ecallOftableName_none (by simp)]
    simp
  | some mem =>
    have hmem : HoldsString mem s := hs
    have hchars := nameChars_eq hmem
    set t := s.take OFP_MAX_TABLE_NAME_LEN with htdef
    have ht : 0#8 ∉ t := fun hz => hmem.nonzero (List.mem_of_mem_take hz)
    have htcut : 0#8 ∉ t.take (buf.length - 1) := fun hz => ht (List.mem_of_mem_take hz)
    dsimp only [ecallOftableSetName]
    by_cases hzero : mem bridgeId = 0#8
    · -- the name is taken for an empty one
      rw [if_pos hzero, if_pos hzero, ecallOftableName_none htcut]
      refine and_congr_right fun hpos => ?_
      rw [List.take_eq_nil_iff, htdef, List.take_eq_nil_iff]
      have hmax : OFP_MAX_TABLE_NAME_LEN ≠ 0 := by decide
      have hone : buf.length - 1 = 0 ↔ buf.length = 1 := by omega
      rw [hone]
      simp [hmax, or_comm]
    · rw [if_neg hzero, if_neg hzero, hchars]
      have hpos : t.length < buf.length → 0 < buf.length := fun hlt => Nat.zero_lt_of_lt hlt
      cases hold : names bridgeId tableId with
      | none =>
        rw [read_kept_iff ht ht (List.prefix_refl t)]
        exact ⟨fun hr => ⟨hpos hr.1, hr.1, nofun⟩, fun hr => ⟨hr.2.1, rfl⟩⟩
      | some l =>
        have hl : 0#8 ∉ l := h.nonzero _ _ l hold
        have hpre : t <+: l ↔ l.take t.length = t := by rw [List.prefix_iff_eq_take, eq_comm]
        dsimp only
        by_cases hsame : l.take t.length = t
        · -- the old name is kept
          rw [if_neg (by simpa using hsame), read_kept_iff hl ht (hpre.mpr hsame)]
          refine ⟨fun hr => ⟨hpos hr.1, hr.1, fun l' hl' _ => ?_⟩, fun hr => ⟨hr.2.1, ?_⟩⟩
          · rw [← Option.some.inj hl']
            exact hr.2
          · exact hr.2.2 l rfl (hpre.mpr hsame)
        · rw [if_pos hsame, read_kept_iff ht ht (List.prefix_refl t)]
          refine ⟨fun hr => ⟨hpos hr.1, hr.1, fun l' hl' hpl => ?_⟩, fun hr => ⟨hr.2.1, rfl⟩⟩
          rw [← Option.some.inj hl'] at hpl
          exact absurd (hpre.mp hpl) hsame

/-- The memory with a string and zero bytes after it. -/
def stringMemory (s : List U8) : Nat → U8 := fun k => s.getD k 0#8

theorem stringMemory_holds (s : List U8) (hs : 0#8 ∉ s) : NameString (some (stringMemory s)) s :=
  show HoldsString _ _ from ⟨fun k h => by simp [stringMemory, h], hs, by simp [stringMemory]⟩

/-- The name `a` for a table without a name, and a buffer of two bytes: the name is taken. -/
theorem setName_taken_iff_first :
    TakesEffect 0 none (some (stringMemory [97#8])) [97#8] 2 ∧
      NameTaken (fun _ _ => none)
        (TableNames.set (fun _ _ => none) 0 0 (some (stringMemory [97#8]))) 0 0 [97#8]
        [1#8, 1#8] := by
  have heffect : TakesEffect 0 none (some (stringMemory [97#8])) [97#8] 2 := by
    refine ⟨by decide, ?_⟩
    dsimp only
    rw [if_neg (by decide)]
    exact ⟨by decide, nofun⟩
  exact ⟨heffect, (setName_taken_iff .init (stringMemory_holds [97#8] (by decide))
    [1#8, 1#8]).mpr heffect⟩

/-- A table with the name `ab` keeps it when its name is set to `a`. -/
theorem setName_prefix :
    ¬ ∀ (names : TableNames) (bridgeId tableId : Nat) (name : Option (Nat → U8)) (s buf : List U8),
      NamesReachable names → NameString name s → 0 < buf.length →
      NameTaken names (names.set bridgeId tableId name) bridgeId tableId s buf := by
  intro h
  have hreach : NamesReachable (TableNames.set (fun _ _ => none) 0 0
      (some (stringMemory [97#8, 98#8]))) := NamesReachable.set 0 0 _ .init
  obtain ⟨rest, hrest⟩ := (h _ 0 0 (some (stringMemory [97#8])) [97#8] (List.replicate 10 0#8) hreach
    (stringMemory_holds [97#8] (by decide)) (by decide)).read
  have hkept : (TableNames.set (TableNames.set (fun _ _ => none) 0 0
      (some (stringMemory [97#8, 98#8]))) 0 0 (some (stringMemory [97#8]))) 0 0
        = some [97#8, 98#8] := by
    rw [TableNames.set_self, TableNames.set_self]
    decide
  rw [hkept] at hrest
  have hshort := (read_kept_iff (t := [97#8]) (by decide) (by decide) ⟨[98#8], rfl⟩).mp
    ⟨rest, hrest⟩
  exact absurd hshort.2 (by decide)

end Names

end OvsSgx
