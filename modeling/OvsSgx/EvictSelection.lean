/-
OvsSgx.EvictSelection — how many rules `ecall_ofproto_evict` selects, and
where it writes.

The ecall reads the limit of a table into an `int`, so that a limit from
2^31 on, the initial one among them, is negative and every table is over
it. It adds up in `n_evictions` how far the tables are over their limits,
which is more than it can select when rules are in no eviction group. And
it trusts its caller that the rules selected are at least `start_index` and
fit into the buffers.
-/
import OvsSgx.EvictionReachable

namespace OvsSgx

variable {P : Match → Prop} {s : Enclave} {i n : Nat}

/-! ## What is to be selected -/

/-- The counters of the tables fit into the `int` and the `unsigned int` that hold them. A table
id is a `uint8_t`. -/
def CountersFit (s : Enclave) : Prop :=
  ∀ i < 256, ecallOftableClsCount s i < 2 ^ 31 ∧ ecallOftableMflows s i < 2 ^ 32

/-- How many rules of table `i` can be selected: as many as it is over its limit, or all that
are in groups if these are fewer. -/
def selectable (s : Enclave) (i : Nat) : Nat :=
  if ecallIsEvictionFieldsEnabled s i then
    min (ecallOftableClsCount s i - ecallOftableMflows s i) (nGrouped s i)
  else 0

/-- How many of the returned rules are in table `i`. -/
def returnedFrom (s : Enclave) (i : Nat) (l : List (UtAddr × U32)) : Nat :=
  l.countP fun e => decide (e.1 ∈ (s.rules i).map s.oClsRule)

/-- With room for the rules, the call returns the selectable rules of each of the first `n`
tables and stores their number. -/
def EvictsExactly (s : Enclave) (n : Nat) : Prop :=
  ∀ start bufSize, totalSelected s n ≤ start + bufSize →
    ∃ res, ecallOfprotoEvict s n start bufSize = some res ∧
      res.nEvictions = ((List.range n).map (selectable s)).sum ∧
      (start = 0 → ∀ i < n, returnedFrom s i res.entries = selectable s i)

/-! ## What is selected -/

theorem intOf_of_ge {m : Nat} (h : 2 ^ 31 ≤ m) (hlt : m < 2 ^ 32) : intOf m = m - 2 ^ 32 := by
  unfold intOf
  rw [BitVec.toInt_eq_toNat_cond, BitVec.toNat_ofNat, Nat.mod_eq_of_lt hlt]
  split <;> omega

/-- An `int` difference that fits in 32 bits, before it is widened to `size_t`. -/
theorem toNat_ofInt_32 {d : Int} (h0 : 0 ≤ d) (h : d < 2 ^ 32) :
    (BitVec.ofInt 32 d).toNat = d.toNat := by
  rw [BitVec.toNat_ofInt]
  omega

theorem widened_of_lt {d : Int} (h0 : 0 ≤ d) (h : d < 2 ^ 31) :
    ((BitVec.ofInt 32 d).signExtend 64).toNat = d.toNat := by
  have hn := toNat_ofInt_32 h0 (by omega)
  rw [BitVec.toNat_signExtend, BitVec.toNat_setWidth,
    BitVec.msb_eq_false_iff_two_mul_lt.mpr (by omega), hn]
  simp only [Bool.false_eq_true, if_false]
  omega

theorem widened_ne_zero {d : Int} (h0 : 0 < d) (h : d < 2 ^ 32) :
    ((BitVec.ofInt 32 d).signExtend 64).toNat ≠ 0 := by
  have hn := toNat_ofInt_32 h0.le h
  rw [BitVec.toNat_signExtend, BitVec.toNat_setWidth, hn]
  omega

theorem evictionsOf_lt (s : Enclave) (i : Nat) : evictionsOf s i < 2 ^ 64 := by
  unfold evictionsOf
  dsimp only
  split
  · split
    · exact BitVec.isLt _
    · decide
  · decide

/-- With a limit below 2^31 a table adds how far it is over it. -/
theorem evictionsOf_of_lt (hen : ecallIsEvictionFieldsEnabled s i = true)
    (hc : ecallOftableClsCount s i < 2 ^ 31) (hm : ecallOftableMflows s i < 2 ^ 31) :
    evictionsOf s i = ecallOftableClsCount s i - ecallOftableMflows s i := by
  unfold evictionsOf
  simp only [hen, if_true, intOf_of_lt hc, intOf_of_lt hm]
  split
  · rename_i hlt
    rw [widened_of_lt (by omega) (by omega)]
    omega
  · omega

/-- With a limit from 2^31 on it adds something. -/
theorem evictionsOf_of_ge (hen : ecallIsEvictionFieldsEnabled s i = true)
    (hc : ecallOftableClsCount s i < 2 ^ 31) (hm : 2 ^ 31 ≤ ecallOftableMflows s i)
    (hlt : ecallOftableMflows s i < 2 ^ 32) : evictionsOf s i ≠ 0 := by
  unfold evictionsOf
  simp only [hen, if_true, intOf_of_lt hc, intOf_of_ge hm hlt]
  rw [if_pos (by omega)]
  exact widened_ne_zero (by omega) (by omega)

theorem evictionsOf_disabled (hen : ecallIsEvictionFieldsEnabled s i = false) :
    evictionsOf s i = 0 := by
  simp [evictionsOf, hen]

theorem nSelected_of_lt (hc : ecallOftableClsCount s i < 2 ^ 31)
    (hm : ecallOftableMflows s i < 2 ^ 31) : nSelected s i = selectable s i := by
  unfold nSelected selectable
  rw [intOf_of_lt hc, intOf_of_lt hm, Int.toNat_sub]

/-- The returned rules of a table are those selected from it. -/
theorem returnedFrom_eq (h : BridgeOk P s) {out : List EvictEntry} {T : List RuleId}
    (hent : List.Forall₂ (EntryOf s) out T) (i : Nat) :
    returnedFrom s i (out.map fun e => (e.rule, e.hash)) = T.countP (· ∈ s.rules i) := by
  induction hent with
  | nil => rfl
  | @cons e r out T he _ ih =>
    have hr := h.installed _ r he.grouped
    have hiff : e.rule ∈ (s.rules i).map s.oClsRule ↔ r ∈ s.rules i := by
      rw [he.rule, List.mem_map]
      constructor
      · rintro ⟨q, hq, heq⟩
        rwa [h.shadows.inj (h.live _ r hr) (h.live i q hq) (congrArg addrHash heq.symm)]
      · exact fun hri => ⟨r, hri, rfl⟩
    unfold returnedFrom at ih ⊢
    rw [List.map_cons, List.countP_cons, List.countP_cons, ih]
    simp only [hiff]

/-- What the call returns when the buffers have room. -/
theorem ecallOfprotoEvict_returns (h : BridgeOk P s) {start bufSize : Nat}
    (hroom : totalSelected s n ≤ start + bufSize) :
    ∃ res, ecallOfprotoEvict s n start bufSize = some res ∧
      res.nEvictions = totalEvictions s n ∧
      res.result = (totalSelected s n + 2 ^ 64 - start) % 2 ^ 64 ∧
      (start = 0 → ∀ i < n, returnedFrom s i res.entries = nSelected s i) := by
  rcases ecallOfprotoEvict_spec h n start bufSize with
    ⟨-, hlt⟩ | ⟨s', out, T, hs, -, -, -, hent, -, -, hlen, -, hcnt⟩
  · exact absurd hroom (Nat.not_le.mpr hlt)
  · refine ⟨_, hs, rfl, ?_, fun h0 i hi => ?_⟩
    · rw [hent.length_eq, hlen]
      rfl
    · subst h0
      rw [List.drop_zero, returnedFrom_eq h hent i, hcnt i hi]

/-! ## Limits and permanent rules -/

/-- The limit of table `i` is below 2^31, and the rules in groups are enough to come down to
it. -/
def LimitReachable (s : Enclave) (i : Nat) : Prop :=
  ecallOftableMflows s i < 2 ^ 31 ∧
    ecallOftableClsCount s i - ecallOftableMflows s i ≤ nGrouped s i

theorem evictionsOf_eq_selectable (hc : ecallOftableClsCount s i < 2 ^ 31)
    (hlim : ecallIsEvictionFieldsEnabled s i = true → LimitReachable s i) :
    evictionsOf s i = selectable s i ∧ nSelected s i = selectable s i := by
  cases hen : ecallIsEvictionFieldsEnabled s i with
  | false => simp [evictionsOf_disabled hen, nSelected, selectable, hen]
  | true =>
    obtain ⟨hm, hle⟩ := hlim hen
    refine ⟨?_, nSelected_of_lt hc hm⟩
    rw [evictionsOf_of_lt hen hc hm, selectable, if_pos hen, Nat.min_eq_left hle]

theorem selectable_lt (hc : ecallOftableClsCount s i < 2 ^ 31) : selectable s i < 2 ^ 31 := by
  unfold selectable
  split <;> omega

theorem sum_selectable_le (hc : CountersFit s) (hn : n ≤ 256) :
    ((List.range n).map (selectable s)).sum ≤ n * 2 ^ 31 := by
  induction n with
  | zero => simp
  | succ n ih =>
    have hlt := selectable_lt (hc n (by omega)).1
    have hsum := ih (by omega)
    rw [List.range_succ, List.map_append, List.sum_append, List.map_singleton, List.sum_singleton]
    omega

theorem evictsExactly_of_limits (h : BridgeOk P s) (hc : CountersFit s) (hn : n ≤ 256)
    (hlim : ∀ i < n, ecallIsEvictionFieldsEnabled s i = true → LimitReachable s i) :
    EvictsExactly s n := by
  have hone : ∀ i < n, evictionsOf s i = selectable s i ∧ nSelected s i = selectable s i :=
    fun i hi => evictionsOf_eq_selectable (hc i (by omega)).1 (hlim i hi)
  have htotal : totalEvictions s n = ((List.range n).map (selectable s)).sum := by
    have hmap : (List.range n).map (evictionsOf s) = (List.range n).map (selectable s) :=
      List.map_congr_left fun i hi => (hone i (List.mem_range.mp hi)).1
    rw [totalEvictions, hmap, Nat.mod_eq_of_lt]
    calc ((List.range n).map (selectable s)).sum ≤ n * 2 ^ 31 := sum_selectable_le hc hn
      _ ≤ 256 * 2 ^ 31 := Nat.mul_le_mul_right _ hn
      _ < 2 ^ 64 := by decide
  intro start bufSize hroom
  obtain ⟨res, hs, hev, -, hret⟩ := ecallOfprotoEvict_returns h hroom
  refine ⟨res, hs, hev.trans htotal, fun h0 i hi => ?_⟩
  rw [hret h0 i hi, (hone i hi).2]

/-- The counts for `i` and for `i + 1` tables give that of table `i`. -/
theorem evictionsOf_of_exact (h : BridgeOk P s) (hc : ecallOftableClsCount s i < 2 ^ 31)
    (h0 : EvictsExactly s i) (h1 : EvictsExactly s (i + 1)) :
    evictionsOf s i = selectable s i := by
  have htotal : ∀ n, EvictsExactly s n →
      totalEvictions s n = ((List.range n).map (selectable s)).sum := by
    intro n hex
    obtain ⟨res, hs, hsum, -⟩ := hex 0 (totalSelected s n) (by omega)
    have hroom : totalSelected s n ≤ 0 + totalSelected s n := by omega
    obtain ⟨res', hs', hev, -⟩ := ecallOfprotoEvict_returns h hroom
    rw [hs, Option.some.injEq] at hs'
    rw [← hev, ← hs', hsum]
  have e0 := htotal i h0
  have e1 := htotal (i + 1) h1
  have hlt := evictionsOf_lt s i
  have hsel := selectable_lt hc
  simp only [totalEvictions, List.range_succ, List.map_append, List.sum_append, List.map_singleton,
    List.sum_singleton] at e0 e1
  omega

theorem limitReachable_of_exact (h : BridgeOk P s) (hc : CountersFit s) (hi : i < 256)
    (h0 : EvictsExactly s i) (h1 : EvictsExactly s (i + 1))
    (hen : ecallIsEvictionFieldsEnabled s i = true) : LimitReachable s i := by
  obtain ⟨hcount, hlimit⟩ := hc i hi
  have heq := evictionsOf_of_exact h hcount h0 h1
  rw [selectable, if_pos hen] at heq
  by_cases hm : ecallOftableMflows s i < 2 ^ 31
  · rw [evictionsOf_of_lt hen hcount hm] at heq
    exact ⟨hm, by omega⟩
  · have hne := evictionsOf_of_ge hen hcount (Nat.le_of_not_lt hm) hlimit
    omega

/-- The ecall selects and counts the selectable rules, however many tables it is told of, if and
only if each table with eviction has a limit below 2^31 and enough rules in groups to come down
to it. -/
theorem evictsExactly_iff (h : GroupsReachable s) (hc : CountersFit s) :
    (∀ n ≤ 256, EvictsExactly s n) ↔
      ∀ i < 256, ecallIsEvictionFieldsEnabled s i = true → LimitReachable s i := by
  constructor
  · intro hex i hi hen
    exact limitReachable_of_exact h.bridge hc hi (hex i (by omega)) (hex (i + 1) (by omega)) hen
  · intro hlim n hn
    exact evictsExactly_of_limits h.bridge hc hn fun i hi => hlim i (by omega)

/-- The bridge with three expiring rules, of which it may keep one. -/
def limitedBridge : Enclave := evictingBridge.after (.oftableMflowsSet 0 1)

theorem limitedBridge_reachable : GroupsReachable limitedBridge :=
  evictingBridge_reachable.after trivial

theorem limitedBridge_evicts :
    selectable limitedBridge 0 = 2 ∧ ∀ n ≤ 256, EvictsExactly limitedBridge n :=
  ⟨by decide +kernel, (evictsExactly_iff limitedBridge_reachable
    (by unfold CountersFit; decide +kernel)).mpr
    (by unfold LimitReachable; decide +kernel)⟩

/-- With the initial limit all rules are selected, and four are counted. -/
theorem evictingBridge_selects_all :
    ¬ ∀ s, GroupsReachable s → CountersFit s → ∀ n ≤ 256, EvictsExactly s n := by
  intro hall
  have hcall : (ecallOfprotoEvict evictingBridge 1 0 4).map EvictResult.nEvictions = some 4 := by
    decide +kernel
  obtain ⟨res, hs, hsum, -⟩ := hall evictingBridge evictingBridge_reachable
    (by unfold CountersFit; decide +kernel) 1 (by decide) 0 4 (by decide +kernel)
  rw [hs, Option.map_some, Option.some.injEq, hsum] at hcall
  exact absurd hcall (by decide +kernel)

/-! ## The buffers -/

/-- Nothing is written beyond the buffers, whose sizes are what they are meant to be, and the
result is at most `buf_size`. -/
def EvictSafe (s : Enclave) (n start bufSize : Nat) : Prop :=
  start + bufSize < 2 ^ 64 ∧
    ∃ res, ecallOfprotoEvict s n start bufSize = some res ∧ res.entries.length ≤ bufSize ∧
      res.result ≤ bufSize

/-- The call keeps to its buffers if and only if the number of rules that it selects lies
between `start_index` and `start_index + buf_size`. -/
theorem evictSafe_iff (h : GroupsReachable s) (n start bufSize : Nat) :
    EvictSafe s n start bufSize ↔ start + bufSize < 2 ^ 64 ∧
      start ≤ totalSelected s n ∧ totalSelected s n ≤ start + bufSize := by
  refine and_congr_right fun hsum => ?_
  rcases ecallOfprotoEvict_spec h.bridge n start bufSize with
    ⟨hnone, hlt⟩ | ⟨s', out, T, hs, -, -, -, hent, -, hcap, hlen, -⟩
  · have hlt' : start + bufSize < totalSelected s n := hlt
    simp only [hnone, reduceCtorEq, false_and, exists_false, false_iff]
    omega
  · have htotal : out.length = totalSelected s n := hent.length_eq.trans hlen
    have hroom : totalSelected s n ≤ start + bufSize := by
      rw [← htotal, hent.length_eq]
      exact hcap
    simp only [hs, Option.some.injEq, exists_eq_left', List.length_map, List.length_drop, htotal]
    omega

theorem limitedBridge_safe :
    totalSelected limitedBridge 1 = 2 ∧ EvictSafe limitedBridge 1 1 4 :=
  ⟨by decide +kernel, (evictSafe_iff limitedBridge_reachable 1 1 4).mpr (by decide +kernel)⟩

/-- Two rules are selected into buffers for one. -/
theorem limitedBridge_overruns :
    ¬ ∀ s, GroupsReachable s → ∀ n start bufSize, EvictSafe s n start bufSize := by
  intro hall
  obtain ⟨-, res, hs, -⟩ := hall limitedBridge limitedBridge_reachable 1 0 1
  have hnone : (ecallOfprotoEvict limitedBridge 1 0 1).isNone = true := by decide +kernel
  rw [hs] at hnone
  cases hnone

end OvsSgx
