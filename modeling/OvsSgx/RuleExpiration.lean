/-
OvsSgx.RuleExpiration — when the rules of a bridge expire.

Models `rule_eviction_priority` and `ofproto_rule_update_used` of
ovs_modified/ovs_sgx/ofproto.c, and once more `add_flow`, with the times
that it writes into the new rule. A time is in milliseconds; `boot` is what
`time_boot_msec` returns, and `now` what `time_msec` does.

The member `eviction_group` of a rule points to a group of untrusted memory,
with a heap of its own. With SGX it is `NULL` in a new rule, and nothing
sets it.
-/
import OvsSgx.OfprotoRuns

namespace OvsSgx

/-- `LLONG_MAX`. -/
def LLONG_MAX : Int := 9223372036854775807

/-- `UINT32_MAX`. -/
def UINT32_MAX : U32 := 0xffffffff#32

/-! ## State -/

/-- The members of `struct rule` that say when it was used, and by what it could be told to a
heap. -/
structure ExpirationTimes where
  modified : Int
  used : Int
  evictionGroup : Option EvgId

/-- The heap `rules` of a `struct eviction_group` of untrusted memory. -/
structure EvictionGroup where
  array : Nat → UtAddr
  n : Nat

/-- A bridge, the times of its rules, and the eviction groups in untrusted memory. -/
structure TimedOfproto where
  ofproto : Ofproto
  times : UtAddr → ExpirationTimes
  evictionGroup : EvgId → EvictionGroup

/-- `ofproto_create`. -/
def timedOfprotoCreate (nTables : Nat) (enclaveRandom random : Nat → BitVec 16) : TimedOfproto :=
  { ofproto := ofprotoCreate nTables enclaveRandom random
    times := fun _ => ⟨0, 0, none⟩
    evictionGroup := fun _ => ⟨fun _ => 0#64, 0⟩ }

/-! ## The priority of a rule -/

/-- `t >> 10`, a time in steps of 1024 ms. -/
def timeSlot (t : Int) : Int := t >>> (10 : Nat)

/-- `expiration` in `rule_eviction_priority`: when the rule expires, unless it is used before. -/
def ruleExpiration (rule : Rule) (t : ExpirationTimes) : Int :=
  let hardExpiration :=
    if rule.hardTimeout ≠ 0 then t.modified + (rule.hardTimeout : Int) * 1000 else LLONG_MAX
  let idleExpiration :=
    if rule.idleTimeout ≠ 0 then t.used + (rule.idleTimeout : Int) * 1000 else LLONG_MAX
  min hardExpiration idleExpiration

/-- `rule_eviction_priority`. -/
def ruleEvictionPriority (boot : Int) (rule : Rule) (t : ExpirationTimes) : Nat :=
  let expiration := ruleExpiration rule t
  if expiration = LLONG_MAX then 0
  else
    let expirationOffset : U32 := BitVec.ofInt 32 (timeSlot expiration - timeSlot boot)
    (UINT32_MAX - expirationOffset).toNat

namespace TimedOfproto

/-- When the rule at address `a` expires. -/
def expiration (s : TimedOfproto) (a : UtAddr) : Int :=
  ruleExpiration (s.ofproto.rule a) (s.times a)

/-- `rule_eviction_priority` for the rule at address `a`. -/
def evictionPriority (boot : Int) (s : TimedOfproto) (a : UtAddr) : Nat :=
  ruleEvictionPriority boot (s.ofproto.rule a) (s.times a)

/-! ## The operations -/

/-- Write the member `used` of a rule, and with it what `rule_eviction_priority` computes. -/
def setUsed (boot : Int) (s : TimedOfproto) (a : UtAddr) (used : Int) : TimedOfproto :=
  let t := { s.times a with used := used }
  { s with
    times := Function.update s.times a t
    ofproto := { s.ofproto with
      rule := Function.update s.ofproto.rule a { s.ofproto.rule a with
        evictionPriority := ruleEvictionPriority boot (s.ofproto.rule a) t } } }

/-- `heap_change` on the heap of group `g` in untrusted memory. -/
def heapChange (s : TimedOfproto) (g : EvgId) (a : UtAddr) (priority : Nat) : TimedOfproto :=
  let group := s.evictionGroup g
  let heap := IndexedHeap.change
    ⟨group.array, group.n, fun b => (s.ofproto.rule b).evgNode⟩ a priority
  { s with
    evictionGroup := Function.update s.evictionGroup g ⟨heap.arr, heap.n⟩
    ofproto := { s.ofproto with
      rule := fun b => { s.ofproto.rule b with evgNode := heap.node b } } }

/-- `ofproto_rule_update_used`. -/
def ofprotoRuleUpdateUsed (boot : Int) (s : TimedOfproto) (a : UtAddr) (used : Int) :
    TimedOfproto :=
  if (s.times a).used < used then
    let evg := (s.times a).evictionGroup
    let s := s.setUsed boot a used
    match evg with
    | none => s
    | some g => s.heapChange g a (s.evictionPriority boot a)
  else s

/-- `add_flow`; `cr` and `evgNode` are what `rule_alloc` returns. -/
def addFlow (boot now : Int) (s : TimedOfproto) (fm : FlowMod) (cr : UtAddr) (evgNode : HeapNode)
    (construct : Option Ofperr) : Option (TimedOfproto × Option Ofperr) :=
  if fm.tableId ≠ 0xff ∧ s.ofproto.nTables ≤ fm.tableId then some (s, some .badTableId)
  else do
    let t : ExpirationTimes := ⟨now, now, none⟩
    let rule := (allocRule s.ofproto fm ⟨cr, evgNode, 0⟩).rule cr
    let (o, error) ← OvsSgx.addFlow s.ofproto fm ⟨cr, evgNode, ruleEvictionPriority boot rule t⟩
      construct
    return ({ s with ofproto := o, times := Function.update s.times cr t }, error)

end TimedOfproto

/-! ## Runs -/

/-- A call into a bridge, with the time at which a flow is added. -/
inductive TimedCall where
  | addFlow (fm : FlowMod) (cr : UtAddr) (evgNode : HeapNode) (construct : Option Ofperr)
      (now : Int)
  | updateUsed (a : UtAddr) (used : Int)
  | call (c : BridgeCall)

/-- The state after a call, `none` if the call is undefined. -/
def TimedCall.run (boot : Int) (s : TimedOfproto) : TimedCall → Option TimedOfproto
  | .addFlow fm cr evgNode construct now => (s.addFlow boot now fm cr evgNode construct).map Prod.fst
  | .updateUsed a used => some (s.ofprotoRuleUpdateUsed boot a used)
  | .call c => (c.run s.ofproto).map fun o => { s with ofproto := o }

/-- Time `t` is on the clock of a program that runs for `UINT32_MAX` seconds or less. -/
structure Clocked (boot t : Int) : Prop where
  start : boot ≤ t
  run : t ≤ boot + (UINT32_MAX.toNat : Int) * 1000
  small : t + (UINT16_MAX : Int) * 1000 < LLONG_MAX

/-- The timeouts fit into their `uint16_t`. -/
def FlowMod.TimeoutsFit (fm : FlowMod) : Prop :=
  fm.idleTimeout ≤ UINT16_MAX ∧ fm.hardTimeout ≤ UINT16_MAX

/-- What the caller promises. Flows are added with `.addFlow`, and `eviction_group_add_rule`
passes what `rule_eviction_priority` returns, for rules with a timeout. -/
def TimedCall.Allowed (boot : Int) (s : TimedOfproto) : TimedCall → Prop
  | .addFlow fm cr _ _ now =>
    s.ofproto.enclave.NewAddr cr ∧ fm.TimeoutsFit ∧ Clocked boot now
  | .updateUsed a used => (s.times a).used < used → Clocked boot used
  | .call (.addFlow _ _ _) => False
  | .call (.configure (.evgAddRule i a p q node)) =>
    (BridgeCall.configure (.evgAddRule i a p q node)).Allowed s.ofproto ∧
      (s.ofproto.rule a).mayExpire = true ∧ q = s.evictionPriority boot a
  | .call c => c.Allowed s.ofproto

/-- The states of a bridge that calls with property `G` lead to. -/
inductive TimedReachable (boot : Int) (G : TimedOfproto → TimedCall → Prop) :
    TimedOfproto → Prop where
  | create (nTables : Nat) (enclaveRandom random : Nat → BitVec 16) :
      0 < nTables → TimedReachable boot G (timedOfprotoCreate nTables enclaveRandom random)
  | step {s s' : TimedOfproto} (c : TimedCall) :
      TimedReachable boot G s → G s c → c.run boot s = some s' → TimedReachable boot G s'

/-- The state after a call, unchanged if the call is undefined. -/
def TimedOfproto.after (boot : Int) (s : TimedOfproto) (c : TimedCall) : TimedOfproto :=
  (c.run boot s).getD s

theorem TimedReachable.after {boot : Int} {G : TimedOfproto → TimedCall → Prop}
    {s : TimedOfproto} {c : TimedCall} (h : TimedReachable boot G s) (hc : G s c) :
    TimedReachable boot G (s.after boot c) := by
  unfold TimedOfproto.after
  cases hs : c.run boot s with
  | none => exact h
  | some s' => exact h.step c hc hs

/-! ## The order of the priorities -/

section Order

variable {boot t : Int} {rule rule' : Rule} {time time' : ExpirationTimes}

theorem timeSlot_eq (t : Int) : timeSlot t = t / 1024 := by
  rw [timeSlot, Int.shiftRight_eq_div_pow]
  rfl

/-- The timeouts of a rule fit, and the rule may expire. -/
structure Expiring (boot : Int) (rule : Rule) (t : ExpirationTimes) : Prop where
  mayExpire : rule.mayExpire = true
  idle : rule.idleTimeout ≤ UINT16_MAX
  hard : rule.hardTimeout ≤ UINT16_MAX
  modified : Clocked boot t.modified
  used : Clocked boot t.used

/-- Such a rule expires at a time that its priority can tell. -/
theorem Expiring.expiration (h : Expiring boot rule time) :
    boot ≤ ruleExpiration rule time ∧ ruleExpiration rule time < LLONG_MAX ∧
      ruleExpiration rule time ≤ boot + (UINT32_MAX.toNat : Int) * 1000 + (UINT16_MAX : Int) * 1000 := by
  obtain ⟨hexp, hidle, hhard, ⟨m1, m2, m3⟩, ⟨u1, u2, u3⟩⟩ := h
  have hany : rule.hardTimeout ≠ 0 ∨ rule.idleTimeout ≠ 0 := by
    simpa [Rule.mayExpire] using hexp
  have hu32 : (UINT32_MAX.toNat : Int) = 4294967295 := by decide
  unfold ruleExpiration
  rw [hu32] at m2 u2 ⊢
  unfold LLONG_MAX UINT16_MAX at *
  dsimp only
  split <;> split <;> omega

/-- The earlier the rule expires, the higher is its priority. -/
theorem Expiring.priority (h : Expiring boot rule time) :
    (ruleEvictionPriority boot rule time : Int) =
      4294967295 - (timeSlot (ruleExpiration rule time) - timeSlot boot) := by
  obtain ⟨hstart, hsmall, hrun⟩ := h.expiration
  have hu32 : (UINT32_MAX.toNat : Int) = 4294967295 := by decide
  rw [hu32, UINT16_MAX] at hrun
  unfold ruleEvictionPriority
  dsimp only
  rw [if_neg (Int.ne_of_lt hsmall), timeSlot_eq, timeSlot_eq]
  generalize hd : ruleExpiration rule time / 1024 - boot / 1024 = d
  have hd0 : 0 ≤ d := by omega
  have hd1 : d < 4294967296 := by omega
  have hoffset : (BitVec.ofInt 32 d).toNat = d.toNat := by
    rw [BitVec.toNat_ofInt]
    omega
  rw [BitVec.toNat_sub, hoffset]
  have hmax : UINT32_MAX.toNat = 4294967295 := by decide
  rw [hmax]
  omega

/-- Priorities compare as the times of expiration do, in steps of 1024 ms. -/
theorem Expiring.priority_le_iff (h : Expiring boot rule time) (h' : Expiring boot rule' time') :
    ruleEvictionPriority boot rule time ≤ ruleEvictionPriority boot rule' time' ↔
      timeSlot (ruleExpiration rule' time') ≤ timeSlot (ruleExpiration rule time) := by
  have hp := h.priority
  have hp' := h'.priority
  omega

theorem Expiring.priority_eq_iff (h : Expiring boot rule time) (h' : Expiring boot rule' time') :
    ruleEvictionPriority boot rule time = ruleEvictionPriority boot rule' time' ↔
      timeSlot (ruleExpiration rule' time') = timeSlot (ruleExpiration rule time) := by
  rw [Nat.le_antisymm_iff, h.priority_le_iff h', h'.priority_le_iff h, Int.le_antisymm_iff]

end Order

end OvsSgx
