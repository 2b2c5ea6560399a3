/-
OvsSgx.VlanUsage — which VLANs the flows of a bridge use.

`ofproto_get_vlan_usage` sets a bit of a bitmap for each VLAN ID that some
flow matches exactly. In the optimized build the IDs come from the enclave, in
one page or two. Its loop reads the table through a pointer `oftable` that
nothing is ever assigned to: what is there is a parameter here, and `none` if
it is no table. The loop has an `i` of its own, which hides the one that is
returned in the end as the number of IDs.
-/
import OvsSgx.CollectRulesTheorems
import OvsSgx.OftableTheorems
import OvsSgx.Lib.PagedScan

namespace OvsSgx

/-! ## Bitmaps -/

/-- `VLAN_VID_MASK`. -/
def VLAN_VID_MASK : BitVec 16 := 0x0fff#16

/-- The bits of an array with 4096 of them. -/
abbrev VlanBitmap := Nat → Bool

/-- `bitmap_allocate`. -/
def bitmapAllocate : VlanBitmap := fun _ => false

/-- `bitmap_is_set`, undefined outside of the array. -/
def bitmapIsSet (b : VlanBitmap) (vid : BitVec 16) : Option Bool :=
  if vid.toNat < 4096 then some (b vid.toNat) else none

/-- `bitmap_set1`. -/
def bitmapSet1 (b : VlanBitmap) (vid : BitVec 16) : Option VlanBitmap :=
  if vid.toNat < 4096 then some (Function.update b vid.toNat true) else none

/-- The members `vlan_bitmap`, which may be NULL, and `vlans_changed` of `struct ofproto`. -/
structure VlanState where
  vlanBitmap : Option VlanBitmap
  vlansChanged : Bool

/-! ## The ecall -/

/-- What a pointer to a `struct oftable` leads to: a classifier and the rules it refers to. -/
structure Pointee where
  clsRule : RuleStore
  cls : Classifier

/-- The running position, which is also the table index, and `vlan_buffer`. -/
structure VlanScan where
  i : Nat
  out : List (BitVec 16)

/-- The body of the innermost loop; an `end_index` of `none` is -1. -/
def vlanRound (t : Pointee) (bufSize start : Nat) (endIndex : Option Nat) (st : VlanScan)
    (c : RuleChain) : VlanScan :=
  let bufferIsFull := decide (bufSize ≤ st.out.length)
  let isOutsideRange := decide (st.i < start) || endIndex.any (· ≤ st.i)
  if isOutsideRange || bufferIsFull then { st with i := st.i + 1 }
  else ⟨st.i + 1, st.out ++ [miniflowGetVid (t.clsRule c.head).match.flow]⟩

/-- The loop over the subtables of a table. -/
def vlanSubtables (t : Pointee) (bufSize start : Nat) (endIndex : Option Nat) (st : VlanScan) :
    VlanScan :=
  t.cls.tables.values.foldl (fun st u =>
    if minimaskGetVidMask (t.cls.table u).mask = VLAN_VID_MASK then
      (t.cls.table u).rules.values.foldl (vlanRound t bufSize start endIndex) st
    else st) st

/-- The heads in the subtables whose mask matches the VID exactly. -/
def exactVidHeads (cls : Classifier) : List RuleChain :=
  (cls.tables.values.filter fun u => minimaskGetVidMask (cls.table u).mask = VLAN_VID_MASK).flatMap
    fun u => (cls.table u).rules.values

section Scan

variable {t : Pointee} {bufSize start : Nat} {endIndex : Option Nat}

theorem vlanSubtables_eq (st : VlanScan) : vlanSubtables t bufSize start endIndex st =
    (exactVidHeads t.cls).foldl (vlanRound t bufSize start endIndex) st := by
  unfold vlanSubtables exactVidHeads
  induction t.cls.tables.values generalizing st with
  | nil => rfl
  | cons u l ih =>
    rw [List.foldl_cons, ih]
    by_cases hu : minimaskGetVidMask (t.cls.table u).mask = VLAN_VID_MASK
    · simp [hu]
    · simp [hu]

theorem vlanRound_i (st : VlanScan) (c : RuleChain) :
    (vlanRound t bufSize start endIndex st c).i = st.i + 1 := by
  unfold vlanRound
  dsimp only
  split <;> rfl

theorem foldl_vlanRound_i (l : List RuleChain) (st : VlanScan) :
    (l.foldl (vlanRound t bufSize start endIndex) st).i = st.i + l.length := by
  induction l generalizing st with
  | nil => rfl
  | cons c l ih =>
    rw [List.foldl_cons, ih, vlanRound_i, List.length_cons]
    omega

end Scan

/-- The loop over the tables. -/
def vlanTables (t : Pointee) (nTables bufSize start : Nat) (endIndex : Option Nat)
    (st : VlanScan) : VlanScan :=
  if st.i < nTables then
    let st' := vlanSubtables t bufSize start endIndex st
    vlanTables t nTables bufSize start endIndex { st' with i := st'.i + 1 }
  else st
termination_by nTables - st.i
decreasing_by
  rw [vlanSubtables_eq, foldl_vlanRound_i]
  omega

/-- `ecall_ofproto_get_vlan_usage`: what it has written to `vlan_buffer`, and `*n_vlan`, which
comes from the outer `i`. -/
def ecallOfprotoGetVlanUsage (s : Enclave) (oftable : Option Pointee) (bufSize start : Nat)
    (endIndex : Option Nat) : Option (List (BitVec 16) × Nat) :=
  let i := 0
  if s.nTables = 0 then some ([], i)
  else do
    let t ← oftable
    return ((vlanTables t s.nTables bufSize start endIndex ⟨0, []⟩).out, i)

/-! ## The untrusted side -/

/-- What `ofproto_get_vlan_usage` has in its buffers after its one or two calls of
`SGX_ofproto_get_vlan_usage`, and `n_vlan`. Both calls have the `end_index` -1. -/
def vlanPages (s : Enclave) (oftable : Option Pointee) (bufSize : Nat) :
    Option (List (BitVec 16) × Nat) := do
  let (out, nVlan) ← ecallOfprotoGetVlanUsage s oftable bufSize 0 none
  let leftoverVlan := (nVlan + 2 ^ 64 - out.length) % 2 ^ 64
  if leftoverVlan = 0 then return (out, nVlan)
  -- the whole `vlan_buffer` is copied to the extended one, which has `n_vlan` entries
  else if nVlan < bufSize then none
  else
    let (out', nVlan') ← ecallOfprotoGetVlanUsage s oftable leftoverVlan out.length none
    return (out ++ out', nVlan')

/-- `ofproto_get_vlan_usage`: the new members of the bridge and the caller's bitmap. -/
def ofprotoGetVlanUsage (s : Enclave) (oftable : Option Pointee) (bufSize : Nat)
    (vlanBitmap : VlanBitmap) : Option (VlanState × VlanBitmap) := do
  let (buffer, nVlan) ← vlanPages s oftable bufSize
  let read ← PagedScan.readFirst buffer nVlan
  let own ← read.foldlM bitmapSet1 bitmapAllocate
  let vlanBitmap ← read.foldlM bitmapSet1 vlanBitmap
  return (⟨some own, false⟩, vlanBitmap)

/-! ## What is found through the pointer -/

section Found

variable {t : Pointee} {nTables bufSize start : Nat} {endIndex : Option Nat}
  {p : List (BitVec 16) → Prop}

theorem foldl_vlanRound_out (l : List RuleChain)
    (hround : ∀ st, ∀ c ∈ l, p st.out → p (vlanRound t bufSize start endIndex st c).out)
    (st : VlanScan) (h : p st.out) : p (l.foldl (vlanRound t bufSize start endIndex) st).out := by
  induction l generalizing st with
  | nil => exact h
  | cons c l ih =>
    rw [List.foldl_cons]
    exact ih (fun st d hd => hround st d (List.mem_cons_of_mem c hd)) _ (hround st c (by simp) h)

/-- What every round keeps true of the buffer is true in the end. -/
theorem vlanTables_out
    (hround : ∀ st, ∀ c ∈ exactVidHeads t.cls,
      p st.out → p (vlanRound t bufSize start endIndex st c).out)
    (st : VlanScan) (h : p st.out) : p (vlanTables t nTables bufSize start endIndex st).out := by
  induction st using vlanTables.induct t nTables bufSize start endIndex with
  | case1 st hlt st' ih =>
    have hst' : p st'.out := by
      show p (vlanSubtables t bufSize start endIndex st).out
      rw [vlanSubtables_eq]
      exact foldl_vlanRound_out _ hround st h
    rw [vlanTables, if_pos hlt]
    exact ih hst'
  | case2 st hle =>
    rw [vlanTables, if_neg hle]
    exact h

theorem vlanRound_ne_nil (st : VlanScan) (c : RuleChain) (h : st.out ≠ []) :
    (vlanRound t bufSize start endIndex st c).out ≠ [] := by
  unfold vlanRound
  dsimp only
  split
  · exact h
  · simp

theorem vlanTables_length :
    (vlanTables t nTables bufSize start endIndex ⟨0, []⟩).out.length ≤ bufSize := by
  refine vlanTables_out (p := (·.length ≤ bufSize)) (fun st c _ hst => ?_) _ (Nat.zero_le _)
  unfold vlanRound
  dsimp only
  split
  · exact hst
  · rename_i hroom
    simp only [Bool.or_eq_true, decide_eq_true_eq, not_or, Nat.not_le] at hroom
    rw [List.length_append, List.length_singleton]
    exact hroom.2

/-- Nothing is written if there is no head or no room, -/
theorem vlanTables_nil (h : bufSize = 0 ∨ exactVidHeads t.cls = []) :
    (vlanTables t nTables bufSize start endIndex ⟨0, []⟩).out = [] := by
  refine vlanTables_out (p := (· = [])) (fun st c hc hst => ?_) _ rfl
  obtain hroom | hnone := h
  · simp [vlanRound, hroom, hst]
  · rw [hnone] at hc
    cases hc

/-- and otherwise at least the first head is. -/
theorem vlanTables_ne_nil (hn : 0 < nTables) (hroom : 0 < bufSize)
    (h : exactVidHeads t.cls ≠ []) : (vlanTables t nTables bufSize 0 none ⟨0, []⟩).out ≠ [] := by
  have hfirst : (vlanSubtables t bufSize 0 none ⟨0, []⟩).out ≠ [] := by
    obtain ⟨c, l, hl⟩ := List.exists_cons_of_ne_nil h
    rw [vlanSubtables_eq, hl, List.foldl_cons]
    refine foldl_vlanRound_out (p := (· ≠ [])) l (fun st d _ => vlanRound_ne_nil st d) _ ?_
    simp [vlanRound, Nat.not_le_of_lt hroom]
  rw [vlanTables, if_pos hn]
  exact vlanTables_out (p := (· ≠ [])) (fun st d _ => vlanRound_ne_nil st d) _ hfirst

end Found

/-! ## What is read -/

section Pages

variable {s : Enclave} {oftable : Option Pointee} {bufSize : Nat}

/-- The pointer leads to a table without a rule that matches a VID exactly, or it is not used. -/
def NoVlanFound (s : Enclave) (oftable : Option Pointee) (bufSize : Nat) : Prop :=
  s.nTables = 0 ∨ ∃ t, oftable = some t ∧ (bufSize = 0 ∨ exactVidHeads t.cls = [])

theorem vlanPages_none (h : NoVlanFound s oftable bufSize) :
    vlanPages s oftable bufSize = some ([], 0) := by
  have hcall : ecallOfprotoGetVlanUsage s oftable bufSize 0 none = some ([], 0) := by
    unfold ecallOfprotoGetVlanUsage
    obtain hn | ⟨t, rfl, hnone⟩ := h
    · simp [hn]
    · simp [vlanTables_nil hnone]
  simp [vlanPages, hcall]

/-- If something is found, copying it overruns the extended buffer, which has no entry. -/
theorem vlanPages_found (hsize : bufSize < 2 ^ 64) (h : ¬ NoVlanFound s oftable bufSize) :
    vlanPages s oftable bufSize = none := by
  obtain ⟨hn, hfound⟩ := not_or.mp h
  unfold vlanPages ecallOfprotoGetVlanUsage
  rw [if_neg hn]
  cases oftable with
  | none => rfl
  | some t =>
    have hroom : 0 < bufSize := by
      by_contra hzero
      exact hfound ⟨t, rfl, Or.inl (by omega)⟩
    have hheads : exactVidHeads t.cls ≠ [] := fun hnil => hfound ⟨t, rfl, Or.inr hnil⟩
    have hout := vlanTables_ne_nil (Nat.pos_of_ne_zero hn) hroom hheads
    have hlen : (vlanTables t s.nTables bufSize 0 none ⟨0, []⟩).out.length ≤ bufSize :=
      vlanTables_length
    have hpos := List.length_pos_iff.mpr hout
    have hleftover : (0 + 2 ^ 64 -
        (vlanTables t s.nTables bufSize 0 none ⟨0, []⟩).out.length) % 2 ^ 64 ≠ 0 := by omega
    simp only [Option.bind_eq_bind, Option.bind_some, Option.pure_def]
    rw [if_neg hleftover, if_pos hroom]

/-- A flow of the bridge matches VLAN `v` exactly. -/
def Enclave.UsesVlan (s : Enclave) (v : Nat) : Prop :=
  ∃ j < s.nTables, ∃ r ∈ s.rules j,
    minimaskGetVidMask (s.clsRule r).match.mask = VLAN_VID_MASK ∧
      (miniflowGetVid (s.clsRule r).match.flow).toNat = v

/-- The VIDs of the heads in all subtables that match a VID exactly. -/
def Enclave.vlanHeads (s : Enclave) : List (BitVec 16) :=
  (List.range s.nTables).flatMap fun j =>
    (exactVidHeads (s.oftable j).cls).map fun c => miniflowGetVid (s.clsRule c.head).match.flow

/-- A subtable that matches a VID exactly has a head if and only if it has a rule. -/
theorem exactVidHeads_eq_nil {R : RuleStore} {cls : Classifier} (h : ClassifierOk R cls) :
    exactVidHeads cls = [] ↔
      ∀ r ∈ cls.rules, minimaskGetVidMask (R r).match.mask ≠ VLAN_VID_MASK := by
  constructor
  · intro hnil r hr hmask
    obtain ⟨u, hu, hru⟩ := h.mem_rules.mp hr
    obtain ⟨e, he, -⟩ := mem_chainRules.mp hru
    have hexact : minimaskGetVidMask (cls.table u).mask = VLAN_VID_MASK := by
      rw [← h.rule_mask hu hru]
      exact hmask
    have hmem : e.2 ∈ exactVidHeads cls := by
      refine List.mem_flatMap.mpr ⟨u, List.mem_filter.mpr ⟨h.mem_values.mpr hu, ?_⟩,
        List.mem_map_of_mem he⟩
      simpa using hexact
    rw [hnil] at hmem
    cases hmem
  · intro hnone
    rw [List.eq_nil_iff_forall_not_mem]
    intro c hc
    obtain ⟨u, hu, hcu⟩ := List.mem_flatMap.mp hc
    obtain ⟨hu, hexact⟩ := List.mem_filter.mp hu
    have hr : c.head ∈ chainRules (cls.table u).rules :=
      List.mem_flatMap.mpr ⟨c, hcu, by simp [RuleChain.rules]⟩
    have hu := h.mem_values.mp hu
    refine hnone c.head (h.mem_rules.mpr ⟨u, hu, hr⟩) ?_
    rw [h.rule_mask hu hr]
    simpa using hexact

theorem vlanHeads_eq_nil {P : Match → Prop} (h : EnclaveOk P s) :
    s.vlanHeads = [] ↔ ∀ v, ¬ s.UsesVlan v := by
  unfold Enclave.vlanHeads
  rw [List.flatMap_eq_nil_iff]
  constructor
  · intro hnil v huses
    obtain ⟨j, hj, r, hr, hmask, -⟩ := huses
    have hj' := List.map_eq_nil_iff.mp (hnil j (List.mem_range.mpr hj))
    exact (exactVidHeads_eq_nil (h.cls j)).mp hj' r hr hmask
  · intro hnone j hj
    refine List.map_eq_nil_iff.mpr ((exactVidHeads_eq_nil (h.cls j)).mpr fun r hr hmask => ?_)
    exact hnone _ ⟨j, List.mem_range.mp hj, r, hr, hmask, rfl⟩

/-- The bitmap has the VLANs that are used, and the pages the VIDs of all heads. -/
structure VlanUsageExact (s : Enclave) (oftable : Option Pointee) (bufSize : Nat)
    (vlanBitmap : VlanBitmap) : Prop where
  bitmap : ∃ o b bits, ofprotoGetVlanUsage s oftable bufSize vlanBitmap = some (o, b) ∧
    o.vlanBitmap = some bits ∧ ∀ v, bits v = true ↔ s.UsesVlan v
  pages : vlanPages s oftable bufSize = some (s.vlanHeads, s.vlanHeads.length)

/-- The VLANs are found exactly if none is used and none is found through the pointer. -/
theorem vlanUsageExact_iff {P : Match → Prop} (h : Reachable P s) (oftable : Option Pointee)
    (hsize : bufSize < 2 ^ 64) (vlanBitmap : VlanBitmap) :
    VlanUsageExact s oftable bufSize vlanBitmap ↔
      (∀ v, ¬ s.UsesVlan v) ∧ NoVlanFound s oftable bufSize := by
  constructor
  · intro hexact
    have hfound : NoVlanFound s oftable bufSize := by
      by_contra hnot
      have hpages := hexact.pages
      rw [vlanPages_found hsize hnot] at hpages
      cases hpages
    have hpages := hexact.pages
    rw [vlanPages_none hfound, Option.some.injEq, Prod.mk.injEq] at hpages
    exact ⟨(vlanHeads_eq_nil h.ok).mp hpages.1.symm, hfound⟩
  · intro hcond
    obtain ⟨hunused, hfound⟩ := hcond
    have hpages := vlanPages_none hfound
    constructor
    · refine ⟨⟨some bitmapAllocate, false⟩, vlanBitmap, bitmapAllocate, ?_, rfl, fun v => ?_⟩
      · simp [ofprotoGetVlanUsage, hpages, PagedScan.readFirst]
      · exact iff_of_false (by simp [bitmapAllocate]) (hunused v)
    · rw [hpages, (vlanHeads_eq_nil h.ok).mpr hunused]
      rfl

end Pages

/-- No flow of the sample bridge matches a VLAN, and the pointer leads to its table. -/
theorem sampleBridge_vlanUsage : Reachable ZeroMatch sampleBridge ∧ 32 < 2 ^ 64 ∧
    VlanUsageExact sampleBridge (some ⟨sampleBridge.clsRule, (sampleBridge.oftable 0).cls⟩) 32
      bitmapAllocate := by
  refine ⟨sampleBridge_reachable, by decide, (vlanUsageExact_iff sampleBridge_reachable _
    (by decide) _).mpr ⟨fun v huses => ?_, Or.inr ⟨_, rfl, Or.inr (by decide +kernel)⟩⟩⟩
  have hnone : ∀ j < sampleBridge.nTables, ∀ r ∈ sampleBridge.rules j,
      minimaskGetVidMask (sampleBridge.clsRule r).match.mask ≠ VLAN_VID_MASK := by decide +kernel
  obtain ⟨j, hj, r, hr, hmask, -⟩ := huses
  exact hnone j hj r hr hmask

/-- A match on VLAN 5, in the upper half of word 35. -/
def matchVlanFive : Match :=
  ⟨fun k => if k.val = 35 then 0x05000000#32 else 0#32,
    ⟨fun k => if k.val = 35 then 0xff0f0000#32 else 0#32⟩⟩

/-- A bridge with one flow, which matches VLAN 5. -/
def vlanBridge : Enclave :=
  (ecallOfprotoInitTables 1 fun _ => 0#16).after (.addFlow (sampleFlow 1#64 matchVlanFive 10))

/-- Wherever the pointer leads, VLAN 5 is not found. -/
theorem vlanBridge_vlanUsage : Reachable ZeroMatch vlanBridge ∧
    ∀ oftable, ¬ VlanUsageExact vlanBridge oftable 32 bitmapAllocate := by
  refine ⟨(Reachable.init (P := ZeroMatch) 1 fun _ => 0#16).after
    (c := .addFlow (sampleFlow 1#64 matchVlanFive 10)) ⟨by decide +kernel, by decide +kernel⟩,
    fun oftable hexact => ?_⟩
  have hheads : vlanBridge.vlanHeads = [5#16] := by decide +kernel
  have hpages := hexact.pages
  rw [hheads] at hpages
  by_cases hfound : NoVlanFound vlanBridge oftable 32
  · rw [vlanPages_none hfound] at hpages
    cases hpages
  · rw [vlanPages_found (by decide) hfound] at hpages
    cases hpages

end OvsSgx
