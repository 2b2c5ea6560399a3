/-
OvsSgx.CaServer — the check that the CA server makes before it signs.

Models the part of `main` in CA_server.c that receives a measurement and
compares it with `goodMeasurement`. `SSL_read` is a library function: it
returns the bytes that have arrived, some but not more than were asked for,
or a result that is not positive and no bytes.

The second comparison goes as far as the received message does. A message
with the prefix `IMA` and only the beginning of the measurement, or nothing
of it, passes as well.
-/
import OvsSgx.Lib.CString
import Mathlib.Tactic

namespace OvsSgx

open CString

/-! ## The buffers -/

/-- The bytes of a string constant without its end. -/
def charBytes (l : List Char) : List Byte := l.map fun c => BitVec.ofNat 8 c.toNat

/-- The string in `goodMeasurement`. -/
def measurement : List Byte :=
  charBytes ['s', 'h', 'a', '2', '5', '6', ':', 'T', 'E', 'S', 'T', '_',
    'M', 'E', 'A', 'S', 'S', 'U', 'R', 'E', 'M', 'E', 'N', 'T']

/-- `goodMeasurement`, an array of 256 bytes. -/
def goodMeasurement : List Byte := measurement ++ List.replicate (256 - measurement.length) 0#8

/-- The string `"IMA"`. -/
def imaPrefix : List Byte := charBytes ['I', 'M', 'A']

/-- `ima_buf`. -/
abbrev ImaBuf := { l : List Byte // l.length = 1024 }

/-- What `SSL_read` returns when it is asked for `num` bytes. -/
inductive SslRead (num : Nat) where
  | data (bytes : List Byte) (pos : 0 < bytes.length) (le : bytes.length ≤ num)
  | failed (result : Int) (nonpos : result ≤ 0)

/-- The bytes that have been received. -/
def SslRead.bytes {num : Nat} : SslRead num → List Byte
  | .data bytes _ _ => bytes
  | .failed _ _ => []

/-- The result of the call. -/
def SslRead.result {num : Nat} : SslRead num → Int
  | .data bytes _ _ => bytes.length
  | .failed result _ => result

/-- How many bytes are asked for: `strlen (goodMeasurement) + 3`. -/
def imaLength : Nat := measurement.length + 3

theorem SslRead.length_le (r : SslRead imaLength) : r.bytes.length ≤ imaLength := by
  cases r with
  | data bytes _ le => exact le
  | failed _ _ => exact Nat.zero_le _

/-! ## The check -/

/-- The bytes that have been received, over the first ones of the buffer. -/
def ImaBuf.fill (buf : ImaBuf) (r : SslRead imaLength) : ImaBuf :=
  ⟨r.bytes ++ buf.1.drop r.bytes.length, by
    have hlen := r.length_le
    have himaLength : imaLength = 27 := rfl
    rw [List.length_append, List.length_drop, buf.2]
    omega⟩

/-- `ima_buf` after the call of `SSL_read` and `ima_buf[ima_length] = '\0'`, which is undefined for
a negative index. -/
def receiveIma (buf : ImaBuf) (r : SslRead imaLength) : Option ImaBuf :=
  if r.result < 0 then none
  else some ⟨(buf.fill r).1.set r.result.toNat 0#8, by rw [List.length_set, (buf.fill r).2]⟩

/-- The conversion of an `int` to `size_t`. -/
def sizeOfInt (n : Int) : Nat := (n % 2 ^ 64).toNat

/-- Whether the measurement is refused. -/
def imaDiffers (buf : List Byte) (length : Int) : Option Bool := do
  let c ← strncmp buf (imaPrefix ++ [0#8]) 3
  if c ≠ 0 then return true
  else
    let d ← strncmp (buf.drop 3) goodMeasurement (sizeOfInt (length - 3))
    return decide (d ≠ 0)

/-- What the server has written to the client, and whether it goes on to read and sign a request. -/
structure Verdict where
  written : List Byte
  signs : Bool
deriving DecidableEq

/-- The verdict `NOK`, after which the connection is closed. -/
def verdictNok : Verdict := ⟨charBytes ['N', 'O', 'K'] ++ [0#8], false⟩

/-- The verdict `MOK`. -/
def verdictMok : Verdict := ⟨charBytes ['M', 'O', 'K'] ++ [0#8], true⟩

/-- The part of `main` from `SSL_read` to the verdict. -/
def checkIma (buf : ImaBuf) (r : SslRead imaLength) : Option Verdict := do
  let buf ← receiveIma buf r
  let differs ← imaDiffers buf.1 r.result
  return if differs then verdictNok else verdictMok

/-- The verdict for the bytes that have been received: `MOK` if they are the prefix and the whole
measurement. -/
def expectedVerdict (bytes : List Byte) : Verdict :=
  if bytes = imaPrefix ++ measurement then verdictMok else verdictNok

section Check

variable {buf : ImaBuf} {r : SslRead imaLength}

/-! ## What is compared -/

/-- Unless the result is negative it is the number of bytes. -/
theorem SslRead.result_eq (h : 0 ≤ r.result) : r.result = r.bytes.length := by
  cases r with
  | data bytes _ _ => rfl
  | failed result nonpos =>
    have hzero : result = 0 := Int.le_antisymm nonpos h
    exact hzero

/-- The message, its end and what was in the buffer before. -/
theorem receiveIma_eq (buf : ImaBuf) (h : 0 ≤ r.result) : ∃ buf', receiveIma buf r = some buf' ∧
    buf'.1 = r.bytes ++ 0#8 :: buf.1.drop (r.bytes.length + 1) := by
  have hlen := r.length_le
  have himaLength : imaLength = 27 := rfl
  have hbuf := buf.2
  obtain ⟨b, rest, hrest⟩ : ∃ b rest, buf.1.drop r.bytes.length = b :: rest := by
    refine List.exists_cons_of_length_pos ?_
    rw [List.length_drop]
    omega
  have htail : buf.1.drop (r.bytes.length + 1) = rest := by
    rw [← List.drop_drop, hrest]
    rfl
  refine ⟨_, if_neg (by omega), ?_⟩
  show (r.bytes ++ buf.1.drop r.bytes.length).set r.result.toNat 0#8 = _
  rw [SslRead.result_eq h, Int.toNat_natCast, hrest, htail,
    List.set_append_right _ _ (Nat.le_refl _), Nat.sub_self]
  rfl

theorem noNul_measurement : 0#8 ∉ measurement := by decide

/-- A message that the check lets pass: at least the prefix, and as far as it goes what the prefix
with the measurement is. -/
def Passes (bytes : List Byte) : Prop := 3 ≤ bytes.length ∧ bytes <+: imaPrefix ++ measurement

instance (bytes : List Byte) : Decidable (Passes bytes) :=
  inferInstanceAs (Decidable (_ ∧ _))

theorem passes_iff {bytes : List Byte} :
    Passes bytes ↔ bytes.take 3 = imaPrefix ∧
      bytes.drop 3 = measurement.take (bytes.drop 3).length := by
  have hlen : imaPrefix.length = 3 := rfl
  constructor
  · rintro ⟨hlong, hpre⟩
    have heq := List.prefix_iff_eq_take.mp hpre
    rw [List.take_append, hlen, List.take_of_length_le (by omega)] at heq
    have htake : bytes.take 3 = imaPrefix := by
      rw [heq, List.take_left' hlen]
    refine ⟨htake, ?_⟩
    rw [List.length_drop]
    nth_rewrite 1 [heq]
    rw [List.drop_left' hlen]
  · rintro ⟨htake, hdrop⟩
    have hlong : 3 ≤ bytes.length := by
      have := congrArg List.length htake
      rw [List.length_take, hlen] at this
      omega
    refine ⟨hlong, ?_⟩
    have hsplit := List.take_append_drop 3 bytes
    rw [htake, hdrop] at hsplit
    rw [← hsplit]
    exact (List.prefix_append_right_inj _).mpr (List.take_prefix _ _)

/-- The first comparison fails for a message that is shorter than the prefix. -/
theorem take_imaPrefix {bytes rest : List Byte}
    (h : (bytes ++ 0#8 :: rest).take 3 = imaPrefix) : 3 ≤ bytes.length := by
  by_contra hshort
  have hmem : 0#8 ∈ (bytes ++ 0#8 :: rest).take 3 := by
    rw [List.take_append]
    refine List.mem_append_right _ ?_
    rw [show 3 - bytes.length = (3 - bytes.length - 1) + 1 by omega, List.take_succ_cons]
    exact List.mem_cons_self ..
  rw [h] at hmem
  exact absurd hmem (by decide)

/-- The message is refused unless it passes the two comparisons. -/
theorem imaDiffers_eq (bytes rest : List Byte) (hlen : bytes.length ≤ imaLength)
    (hrest : 4 ≤ rest.length) :
    imaDiffers (bytes ++ 0#8 :: rest) bytes.length = some (decide ¬ Passes bytes) := by
  have himaLength : imaLength = measurement.length + 3 := rfl
  have hmeasure : measurement.length = 24 := by decide
  obtain ⟨c, hc, hciff⟩ := strncmp_take (a := bytes ++ 0#8 :: rest) (b := imaPrefix ++ [0#8])
    (n := 3) (by simp; omega) (by decide) (by decide)
  have htake : (imaPrefix ++ [0#8]).take 3 = imaPrefix := by decide
  rw [htake] at hciff
  rw [imaDiffers, hc, Option.bind_eq_bind, Option.bind_some]
  by_cases hpre : (bytes ++ 0#8 :: rest).take 3 = imaPrefix
  · have hlong := take_imaPrefix hpre
    rw [List.take_append_of_le_length hlong] at hpre
    have hsize : sizeOfInt (bytes.length - 3) = (bytes.drop 3).length := by
      rw [sizeOfInt, List.length_drop, Int.emod_eq_of_lt (by omega) (by omega)]
      omega
    -- no more is compared than the measurement has
    have hq : (bytes.drop 3).length ≤ measurement.length := by
      rw [List.length_drop]
      omega
    have hgood : goodMeasurement.take (bytes.drop 3).length
        = measurement.take (bytes.drop 3).length := List.take_append_of_le_length hq
    have hend : 0#8 ∉ goodMeasurement.take (bytes.drop 3).length := by
      rw [hgood]
      exact fun hmem => noNul_measurement (List.mem_of_mem_take hmem)
    have hgoodLength : measurement.length ≤ goodMeasurement.length := by simp [goodMeasurement]
    obtain ⟨d, hd, hdiff⟩ := strncmp_take (a := (bytes ++ 0#8 :: rest).drop 3)
      (b := goodMeasurement) (n := (bytes.drop 3).length) (by simp; omega)
      (Nat.le_trans hq hgoodLength) hend
    rw [hgood, List.drop_append_of_le_length hlong, List.take_left] at hdiff
    have hz : c = 0 := hciff.mpr (by rw [List.take_append_of_le_length hlong, hpre])
    have hiff : Passes bytes ↔ d = 0 := by
      rw [passes_iff, hdiff]
      simp [hpre]
    rw [if_neg (by simp [hz]), hsize, hd]
    simp [hiff]
  · have hne : c ≠ 0 := fun hz => hpre (hciff.mp hz)
    have hnot : ¬ Passes bytes := by
      rintro ⟨hlong, hp⟩
      have hthree := (passes_iff.mp ⟨hlong, hp⟩).1
      exact hpre (by rw [List.take_append_of_le_length hlong, hthree])
    rw [if_pos hne]
    simp [hnot]

/-- Every verdict that the server reaches. -/
theorem checkIma_eq (h : 0 ≤ r.result) :
    checkIma buf r = some (if Passes r.bytes then verdictMok else verdictNok) := by
  have hlen := r.length_le
  have himaLength : imaLength = 27 := rfl
  have hrest : 4 ≤ (buf.1.drop (r.bytes.length + 1)).length := by
    rw [List.length_drop, buf.2]
    omega
  obtain ⟨buf', hbuf, heq⟩ := receiveIma_eq buf h
  rw [checkIma, hbuf, Option.bind_eq_bind, Option.bind_some, heq, SslRead.result_eq h,
    imaDiffers_eq _ _ hlen hrest, Option.bind_eq_bind, Option.bind_some]
  by_cases hpass : Passes r.bytes
  · simp [hpass]
  · simp [hpass]

/-- The verdict is `MOK` for the prefix with the whole measurement and `NOK` for everything else,
exactly if the read has no negative result and the message is not a proper beginning of these with
the whole prefix. -/
theorem checkIma_expected_iff (buf : ImaBuf) (r : SslRead imaLength) :
    checkIma buf r = some (expectedVerdict r.bytes) ↔ 0 ≤ r.result ∧
      ¬ (3 ≤ r.bytes.length ∧ r.bytes.length < imaLength ∧
        r.bytes <+: imaPrefix ++ measurement) := by
  have hlen : (imaPrefix ++ measurement).length = imaLength := rfl
  by_cases h : 0 ≤ r.result
  · have hne : verdictMok ≠ verdictNok := by decide
    rw [checkIma_eq h, Option.some.injEq, expectedVerdict]
    by_cases hall : r.bytes = imaPrefix ++ measurement
    · have hfull : r.bytes.length = imaLength := by rw [hall, hlen]
      have hpass : Passes r.bytes := ⟨by rw [hfull]; decide, hall ▸ List.prefix_refl _⟩
      rw [if_pos hpass, if_pos hall]
      refine ⟨fun _ => ⟨h, ?_⟩, fun _ => rfl⟩
      rintro ⟨-, hshort, -⟩
      omega
    · rw [if_neg hall]
      by_cases hpass : Passes r.bytes
      · have hshort : r.bytes.length < imaLength := by
          refine Nat.lt_of_le_of_ne r.length_le fun heq => hall ?_
          exact hpass.2.eq_of_length (heq.trans hlen.symm)
        rw [if_pos hpass]
        exact ⟨fun hv => absurd hv hne, fun hno => absurd ⟨hpass.1, hshort, hpass.2⟩ hno.2⟩
      · rw [if_neg hpass]
        exact ⟨fun _ => ⟨h, fun hp => hpass ⟨hp.1, hp.2.2⟩⟩, fun _ => rfl⟩
  · have hnone : checkIma buf r = none := by
      rw [checkIma, receiveIma, if_pos (by omega)]
      rfl
    rw [hnone]
    exact ⟨fun hs => (by cases hs), fun hor => absurd hor.1 h⟩

end Check

/-- The message `IMA` alone is accepted. -/
theorem checkIma_bare :
    ¬ ∀ (buf : ImaBuf) (r : SslRead imaLength),
      checkIma buf r = some (expectedVerdict r.bytes) := by
  intro h
  have hbare := h ⟨List.replicate 1024 0#8, List.length_replicate ..⟩
    (.data imaPrefix (by decide) (by decide))
  rw [checkIma_eq (Int.natCast_nonneg _)] at hbare
  have hpass : Passes imaPrefix := ⟨by decide, List.prefix_append _ _⟩
  have hexp : expectedVerdict imaPrefix = verdictNok := by decide
  rw [SslRead.bytes, if_pos hpass, hexp] at hbare
  exact absurd hbare (by decide)

end OvsSgx
