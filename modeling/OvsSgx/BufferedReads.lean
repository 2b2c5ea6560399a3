/-
OvsSgx.BufferedReads — the calls that count first and read afterwards.

Seven requests of the unoptimized build come as a pair of ecalls: `_c`
returns how many rules there are, the untrusted side allocates a buffer for
that many, and `_r` fills it. Each `_c` is its `_r` with a NULL buffer. The
seven bodies have one loop in common, which is `readTables` here: it counts,
or writes one address for each rule. Its bound test is `p > elem`, so one
write at index `elem` passes: `boundedRead_iff` says that the calls keep
within the buffer exactly when the state holds no more rules than it was
allocated for. The callers that count first get every rule,
`filled_readTables`.
-/
import OvsSgx.OftableTheorems

namespace OvsSgx

/-! ## The matching rules -/

/-- What `FOR_EACH_MATCHING_TABLE` visits. -/
def matchingTables (s : Enclave) (nTables i : Nat) : List Nat :=
  if i = 0xff then (List.range nTables).filter fun j => !(s.oftable j).flags.hidden
  else if i < nTables then [i]
  else []

/-- The rules that the loops of `collect_rules_loose` visit. -/
def looseMatches (s : Enclave) (nTables i : Nat) (m : Match) : List RuleId :=
  (matchingTables s nTables i).flatMap fun j =>
    clsCursorRules s.clsRule (s.oftable j).cls (some (clsRuleInit m 0))

/-- The rules that the loop of `collect_rules_strict` finds. -/
def strictMatches (s : Enclave) (nTables i : Nat) (m : Match) (priority : Nat) : List RuleId :=
  (matchingTables s nTables i).filterMap fun j =>
    classifierFindRuleExactly s.clsRule (s.oftable j).cls (clsRuleInit m priority)

namespace BufferedRead

/-! ## The loop -/

/-- `NULL`. -/
def NULL : UtAddr := 0#64

/-- The running position and the writes to the buffer, each with its index. -/
structure ReadOut where
  p : Nat
  writes : List (UtAddr × Nat)
deriving DecidableEq, Repr

/-- What a buffer of `n` entries holds afterwards, if no write is beyond it. The writes come
in the order of their indices. -/
def ReadOut.filled (out : ReadOut) (n : Nat) : Option (List UtAddr) :=
  if ∀ w ∈ out.writes, w.2 < n then some (out.writes.map Prod.fst) else none

/-- `p > elem` compares a `size_t` with an `int`, which is converted. The loops get the
converted number. -/
def sizeOfInt (elem : BitVec 32) : Nat := (elem.signExtend 64).toNat

/-- The body of the innermost loop: count, return, or write. -/
def readRound (s : Enclave) (buf : UtAddr) (elem : Nat) (out : ReadOut) (r : RuleId) :
    Except ReadOut ReadOut :=
  if buf = NULL then .ok { out with p := out.p + 1 }
  else if elem < out.p then .error out
  else .ok ⟨out.p + 1, out.writes ++ [(s.oClsRule r, out.p)]⟩

/-- Where a loop stands when it is left, early or not. -/
def left : Except ReadOut ReadOut → ReadOut
  | .ok out => out
  | .error out => out

/-- The loop over tables around the one over the rules found in each of them. -/
def readTables (s : Enclave) (buf : UtAddr) (elem : Nat) (tables : List Nat)
    (found : Nat → List RuleId) : ReadOut :=
  left (tables.foldlM (fun out j => (found j).foldlM (readRound s buf elem) out) ⟨0, []⟩)

/-! ## The ecalls -/

/-- `SGX_n_tables` tables, of which some are skipped. -/
def ownTables (s : Enclave) : List Nat := List.range s.nTables

/-- `ecall_collect_rules_loose_r`. -/
def ecallCollectRulesLooseR (s : Enclave) (nTables : Nat) (buf : UtAddr) (elem : Nat)
    (i : Nat) (m : Match) : ReadOut :=
  readTables s buf elem (matchingTables s nTables i) fun j =>
    clsCursorRules s.clsRule (s.oftable j).cls (some (clsRuleInit m 0))

/-- `ecall_collect_rules_loose_c`. -/
def ecallCollectRulesLooseC (s : Enclave) (nTables i : Nat) (m : Match) : Nat :=
  (ecallCollectRulesLooseR s nTables NULL (sizeOfInt (-1#32)) i m).p

/-- `ecall_collect_rules_strict_r`. -/
def ecallCollectRulesStrictR (s : Enclave) (nTables : Nat) (buf : UtAddr) (elem : Nat)
    (i : Nat) (m : Match) (priority : Nat) : ReadOut :=
  readTables s buf elem (matchingTables s nTables i) fun j =>
    (classifierFindRuleExactly s.clsRule (s.oftable j).cls (clsRuleInit m priority)).toList

/-- `ecall_collect_rules_strict_c`. -/
def ecallCollectRulesStrictC (s : Enclave) (nTables i : Nat) (m : Match) (priority : Nat) : Nat :=
  (ecallCollectRulesStrictR s nTables NULL (sizeOfInt (-1#32)) i m priority).p

/-- `ecall_flush_r`. -/
def ecallFlushR (s : Enclave) (buf : UtAddr) (elem : Nat) : ReadOut :=
  readTables s buf elem ((ownTables s).filter fun j => !(s.oftable j).flags.hidden) fun j =>
    clsCursorRules s.clsRule (s.oftable j).cls none

/-- `ecall_flush_c`. -/
def ecallFlushC (s : Enclave) : Nat := (ecallFlushR s NULL (sizeOfInt (-1#32))).p

/-- `ecall_oftable_enable_eviction_r`. -/
def ecallOftableEnableEvictionR (s : Enclave) (buf : UtAddr) (elem : Nat) (i : Nat) :
    ReadOut :=
  readTables s buf elem [i] fun j => clsCursorRules s.clsRule (s.oftable j).cls none

/-- `ecall_oftable_enable_eviction_c`. -/
def ecallOftableEnableEvictionC (s : Enclave) (i : Nat) : Nat :=
  (ecallOftableEnableEvictionR s NULL (sizeOfInt (-1#32)) i).p

/-- `ecall_flow_stats_r`. -/
def ecallFlowStatsR (s : Enclave) (buf : UtAddr) (elem : Nat) : ReadOut :=
  readTables s buf elem (ownTables s) fun j => clsCursorRules s.clsRule (s.oftable j).cls none

/-- `ecall_flow_stats_c`. -/
def ecallFlowStatsC (s : Enclave) : Nat := (ecallFlowStatsR s NULL (sizeOfInt (-1#32))).p

/-- `ecall_collect_ofmonitor_util_r`. -/
def ecallCollectOfmonitorUtilR (s : Enclave) (nTables : Nat) (buf : UtAddr) (elem : Nat)
    (i : Nat) (m : Minimatch) : ReadOut :=
  readTables s buf elem (matchingTables s nTables i) fun j =>
    clsCursorRules s.clsRule (s.oftable j).cls (some ⟨0#32, m, 0⟩)

/-- `ecall_collect_ofmonitor_util_c`. -/
def ecallCollectOfmonitorUtilC (s : Enclave) (nTables i : Nat) (m : Minimatch) : Nat :=
  (ecallCollectOfmonitorUtilR s nTables NULL (sizeOfInt (-1#32)) i m).p

/-- `ecall_dpif_destroy_r`. -/
def ecallDpifDestroyR (s : Enclave) (buf : UtAddr) (elem : Nat) : ReadOut :=
  readTables s buf elem (ownTables s) fun j => clsCursorRules s.clsRule (s.oftable j).cls none

/-- `ecall_dpif_destroy_c`. -/
def ecallDpifDestroyC (s : Enclave) : Nat := (ecallDpifDestroyR s NULL (sizeOfInt (-1#32))).p

/-- A pair of ecalls with the arguments that both of them get. -/
inductive Request where
  | collectRulesLoose (nTables i : Nat) (m : Match)
  | collectRulesStrict (nTables i : Nat) (m : Match) (priority : Nat)
  | flush
  | oftableEnableEviction (i : Nat)
  | flowStats
  | collectOfmonitorUtil (nTables i : Nat) (m : Minimatch)
  | dpifDestroy

/-- The `_r` call. -/
def Request.read (s : Enclave) (buf : UtAddr) (elem : BitVec 32) : Request → ReadOut
  | .collectRulesLoose n i m => ecallCollectRulesLooseR s n buf (sizeOfInt elem) i m
  | .collectRulesStrict n i m p => ecallCollectRulesStrictR s n buf (sizeOfInt elem) i m p
  | .flush => ecallFlushR s buf (sizeOfInt elem)
  | .oftableEnableEviction i => ecallOftableEnableEvictionR s buf (sizeOfInt elem) i
  | .flowStats => ecallFlowStatsR s buf (sizeOfInt elem)
  | .collectOfmonitorUtil n i m => ecallCollectOfmonitorUtilR s n buf (sizeOfInt elem) i m
  | .dpifDestroy => ecallDpifDestroyR s buf (sizeOfInt elem)

/-- The `_c` call. -/
def Request.count (s : Enclave) : Request → Nat
  | .collectRulesLoose n i m => ecallCollectRulesLooseC s n i m
  | .collectRulesStrict n i m p => ecallCollectRulesStrictC s n i m p
  | .flush => ecallFlushC s
  | .oftableEnableEviction i => ecallOftableEnableEvictionC s i
  | .flowStats => ecallFlowStatsC s
  | .collectOfmonitorUtil n i m => ecallCollectOfmonitorUtilC s n i m
  | .dpifDestroy => ecallDpifDestroyC s

/-! ## What the loop does -/

section Loop

variable {s : Enclave} {buf : UtAddr} {elem : Nat}

theorem foldlM_tables (tables : List Nat) (found : Nat → List RuleId) (out : ReadOut) :
    tables.foldlM (fun out j => (found j).foldlM (readRound s buf elem) out) out =
      (tables.flatMap found).foldlM (readRound s buf elem) out := by
  induction tables generalizing out with
  | nil => rfl
  | cons j tables ih =>
    rw [List.foldlM_cons, List.flatMap_cons, List.foldlM_append]
    exact congrArg _ (funext ih)

theorem readTables_eq (tables : List Nat) (found : Nat → List RuleId) :
    readTables s buf elem tables found =
      left ((tables.flatMap found).foldlM (readRound s buf elem) ⟨0, []⟩) := by
  unfold readTables
  rw [foldlM_tables]

/-- With a NULL buffer the loop counts. -/
theorem foldlM_count (hbuf : buf = NULL) (l : List RuleId) (out : ReadOut) :
    l.foldlM (readRound s buf elem) out = .ok { out with p := out.p + l.length } := by
  induction l generalizing out with
  | nil => rfl
  | cons r l ih =>
    rw [List.foldlM_cons, readRound, if_pos hbuf]
    refine (ih _).trans ?_
    simp only [List.length_cons]
    congr 2
    omega

/-- With a buffer it writes as long as the position has not gone beyond `elem`. -/
theorem foldlM_write (hbuf : buf ≠ NULL) (l : List RuleId) (p : Nat) (w : List (UtAddr × Nat))
    (hp : p ≤ elem + 1) :
    left (l.foldlM (readRound s buf elem) ⟨p, w⟩) =
      ⟨min (p + l.length) (elem + 1),
        w ++ ((l.map s.oClsRule).take (elem + 1 - p)).zipIdx p⟩ := by
  induction l generalizing p w with
  | nil =>
    have : min p (elem + 1) = p := by omega
    simp [left, pure, Except.pure, this]
  | cons r l ih =>
    rw [List.foldlM_cons, readRound, if_neg hbuf]
    by_cases hlt : elem < p
    · -- the early return
      have hmin : min (p + (r :: l).length) (elem + 1) = p := by
        rw [List.length_cons]
        omega
      have hfull : elem + 1 - p = 0 := by omega
      rw [if_pos hlt, hmin, hfull]
      simp [left, bind, Except.bind]
    · have hroom : elem + 1 - p = (elem + 1 - (p + 1)) + 1 := by omega
      rw [if_neg hlt]
      refine (ih (p + 1) _ (by omega)).trans ?_
      rw [hroom, List.map_cons, List.take_succ_cons, List.zipIdx_cons, List.length_cons,
        List.append_assoc, Nat.add_right_comm p 1, Nat.add_assoc p]
      rfl

/-- Without a buffer the loops count the rules they find. -/
theorem readTables_null (tables : List Nat) (found : Nat → List RuleId) :
    readTables s NULL elem tables found = ⟨(tables.flatMap found).length, []⟩ := by
  rw [readTables_eq, foldlM_count rfl, Nat.zero_add]
  rfl

/-- With one they write one more than `elem` if there are as many. -/
theorem readTables_buffer (hbuf : buf ≠ NULL) (tables : List Nat) (found : Nat → List RuleId) :
    readTables s buf elem tables found = ⟨min (tables.flatMap found).length (elem + 1),
      (((tables.flatMap found).map s.oClsRule).take (elem + 1)).zipIdx⟩ := by
  rw [readTables_eq, foldlM_write hbuf _ 0 [] (by omega), Nat.zero_add, Nat.sub_zero,
    List.nil_append]

/-- A buffer of the size that was counted holds the address of every rule. -/
theorem filled_readTables (hbuf : buf ≠ NULL) (tables : List Nat) (found : Nat → List RuleId) :
    (readTables s buf (tables.flatMap found).length tables found).filled
        (tables.flatMap found).length = some ((tables.flatMap found).map s.oClsRule) := by
  have hall : ((tables.flatMap found).map s.oClsRule).length ≤
      (tables.flatMap found).length + 1 := by
    rw [List.length_map]
    exact Nat.le_succ _
  rw [readTables_buffer hbuf, List.take_of_length_le hall, ReadOut.filled, if_pos]
  · exact congrArg some (List.zipIdx_map_fst 0 _)
  · intro w hw
    simpa using (List.mem_zipIdx hw).2.1

end Loop

/-! ## What the calls select -/

/-- The tables that the loop of a request goes over. -/
def Request.tables (s : Enclave) : Request → List Nat
  | .collectRulesLoose n i _ => matchingTables s n i
  | .collectRulesStrict n i _ _ => matchingTables s n i
  | .flush => (ownTables s).filter fun j => !(s.oftable j).flags.hidden
  | .oftableEnableEviction i => [i]
  | .flowStats => ownTables s
  | .collectOfmonitorUtil n i _ => matchingTables s n i
  | .dpifDestroy => ownTables s

/-- What a request finds in a table. -/
def Request.found (s : Enclave) (q : Request) (j : Nat) : List RuleId :=
  match q with
  | .collectRulesLoose _ _ m =>
    clsCursorRules s.clsRule (s.oftable j).cls (some (clsRuleInit m 0))
  | .collectRulesStrict _ _ m p =>
    (classifierFindRuleExactly s.clsRule (s.oftable j).cls (clsRuleInit m p)).toList
  | .collectOfmonitorUtil _ _ m =>
    clsCursorRules s.clsRule (s.oftable j).cls (some ⟨0#32, m, 0⟩)
  | .flush | .oftableEnableEviction _ | .flowStats | .dpifDestroy =>
    clsCursorRules s.clsRule (s.oftable j).cls none

/-- The rules that the state holds for a request. -/
def Request.selected (s : Enclave) (q : Request) : List RuleId :=
  (q.tables s).flatMap (q.found s)

section Requests

variable {s : Enclave} {buf : UtAddr} {elem : BitVec 32}

theorem Request.read_eq (q : Request) :
    q.read s buf elem = readTables s buf (sizeOfInt elem) (q.tables s) (q.found s) := by
  cases q <;> rfl

theorem Request.read_null (q : Request) (hbuf : buf = NULL) :
    q.read s buf elem = ⟨(q.selected s).length, []⟩ := by
  rw [Request.read_eq, hbuf, readTables_null]
  rfl

/-- The `_c` call is the `_r` call with a NULL buffer and the capacity -1. -/
theorem Request.count_read (q : Request) : q.count s = (q.read s NULL (-1#32)).p := by
  cases q <;> rfl

/-- The `_c` call returns the number of rules. -/
theorem Request.count_eq (q : Request) : q.count s = (q.selected s).length := by
  rw [Request.count_read, q.read_null rfl]

/-- The `_r` call writes one more than `elem` if there are as many. -/
theorem Request.read_buffer (q : Request) (hbuf : buf ≠ NULL) :
    q.read s buf elem = ⟨min (q.selected s).length (sizeOfInt elem + 1),
      (((q.selected s).map s.oClsRule).take (sizeOfInt elem + 1)).zipIdx⟩ := by
  rw [Request.read_eq, readTables_buffer hbuf]
  rfl

theorem sizeOfInt_of_nonneg (h : 0 ≤ elem.toInt) : sizeOfInt elem = elem.toNat := by
  have hmsb : elem.msb = false := by
    rw [BitVec.msb_eq_toInt, decide_eq_false_iff_not]
    omega
  unfold sizeOfInt
  rw [BitVec.signExtend_eq_setWidth_of_msb_false hmsb, BitVec.toNat_setWidth]
  exact Nat.mod_eq_of_lt (by omega)

end Requests

/-! ## Bounded writes -/

/-- A read of `items` into a buffer of `elem` entries, after a count of `c`: only indices
of the buffer are written, with the first `min elem c` items, and the result is the number
of entries written. -/
structure BoundedRead (items : List UtAddr) (elem c : Nat) (out : ReadOut) : Prop where
  below : ∀ w ∈ out.writes, w.2 < elem
  items : out.writes = (items.take (min elem c)).zipIdx
  returned : out.p = out.writes.length

/-- A full read keeps within its buffer. -/
theorem boundedRead_of_le {items : List UtAddr} {elem : Nat} (h : items.length ≤ elem) :
    BoundedRead items elem items.length ⟨items.length, items.zipIdx⟩ where
  below := by
    intro w hw
    have := (List.mem_zipIdx hw).2.1
    omega
  items := by
    rw [Nat.min_eq_right h, List.take_length]
  returned := by
    rw [List.length_zipIdx]

/-- The write at index `elem`. -/
theorem mem_zipIdx_beyond {items : List UtAddr} {elem : Nat} (h : elem < items.length) :
    (items.get ⟨elem, h⟩, elem) ∈ ((items.take (elem + 1)).zipIdx) := by
  rw [List.mem_zipIdx_iff_getElem?]
  simp [h]

/-- For each of the seven requests: a read into a buffer of `elem` entries is bounded exactly
when there is a buffer and no more rules than entries, or no rule at all. -/
theorem boundedRead_iff (s : Enclave) (q : Request) (buf : UtAddr) (elem : BitVec 32)
    (helem : 0 ≤ elem.toInt) :
    BoundedRead ((q.selected s).map s.oClsRule) elem.toNat (q.count s) (q.read s buf elem) ↔
      buf ≠ NULL ∧ (q.selected s).length ≤ elem.toNat ∨ q.selected s = [] := by
  rw [q.count_eq]
  by_cases hbuf : buf = NULL
  · rw [q.read_null hbuf]
    constructor
    · intro h
      exact Or.inr (List.eq_nil_of_length_eq_zero h.returned)
    · intro h
      obtain hl | hl := h
      · exact absurd hbuf hl.1
      · rw [hl]
        exact boundedRead_of_le (Nat.zero_le _)
  · rw [q.read_buffer hbuf, sizeOfInt_of_nonneg helem]
    constructor
    · intro h
      refine Or.inl ⟨hbuf, ?_⟩
      by_contra hlt
      have hbound : elem.toNat < ((q.selected s).map s.oClsRule).length := by
        rw [List.length_map]
        omega
      exact absurd (h.below _ (mem_zipIdx_beyond hbound)) (Nat.lt_irrefl _)
    · intro h
      have hle : (q.selected s).length ≤ elem.toNat := by
        obtain hl | hl := h
        · exact hl.2
        · simp [hl]
      have hall : ((q.selected s).map s.oClsRule).length ≤ elem.toNat + 1 := by
        rw [List.length_map]
        omega
      rw [List.take_of_length_le hall, Nat.min_eq_left (by omega)]
      have hfit : ((q.selected s).map s.oClsRule).length ≤ elem.toNat := by
        rw [List.length_map]
        exact hle
      have hread := boundedRead_of_le hfit
      rwa [List.length_map] at hread

/-- A read of the two rules of a table into a buffer for two. -/
theorem sampleBridge_boundedRead :
    (0 ≤ (2#32).toInt) ∧
      BoundedRead ((Request.selected sampleBridge .flush).map sampleBridge.oClsRule) 2
        (Request.count sampleBridge .flush) (Request.read sampleBridge 1#64 2#32 .flush) :=
  ⟨by decide, (boundedRead_iff sampleBridge .flush 1#64 2#32 (by decide)).mpr
    (Or.inl ⟨by decide, by decide +kernel⟩)⟩

/-- A buffer for one rule, after a second one has been added. -/
theorem sampleBridge_overrun :
    ¬ ∀ (s : Enclave) (q : Request) (buf : UtAddr) (elem : BitVec 32), buf ≠ NULL →
      0 ≤ elem.toInt → BoundedRead ((q.selected s).map s.oClsRule) elem.toNat (q.count s)
        (q.read s buf elem) := by
  intro h
  have hread := h sampleBridge .flush 1#64 1#32 (by decide) (by decide)
  have hout : ∃ w ∈ (Request.read sampleBridge 1#64 1#32 .flush).writes, ¬ w.2 < 1 := by
    decide +kernel
  obtain ⟨w, hw, hbeyond⟩ := hout
  exact hbeyond (hread.below w hw)

end BufferedRead

end OvsSgx
