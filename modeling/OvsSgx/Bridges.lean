/-
OvsSgx.Bridges — all bridges of the switch and their places in the enclave.

The enclave keeps a bridge in entry `bridge_id` of four arrays with 100
entries. The untrusted side numbers the bridges with an 8-bit counter that
is never set back, and nothing compares a number with the length of the
arrays. As long as fewer than 100 bridges have been created the numbers of
live bridges are distinct indices, and every operation leaves the entries
of all other bridges alone.
-/
import OvsSgx.EnclaveRuns
import OvsSgx.Taggable

namespace OvsSgx

/-- The length of `SGX_oftables`, `SGX_table_dpif`, `SGX_n_tables` and `SGX_hmap_table`. -/
def nBridges : Nat := 100

/-- The whole system. `slot b` is entry `b` of the four arrays with what it points to, `none`
after `free`; entries from 100 on are the memory behind the arrays. `live` lists the ofprotos:
the number of its creation and its `bridge_id`. -/
structure Bridges where
  bridgeCounter : Nat
  slot : Nat → Option TaggedBridge
  live : List (Nat × Nat)
  created : Nat

/-- Before the first bridge. -/
def Bridges.init : Bridges := ⟨0, fun _ => none, [], 0⟩

/-- `sgx_ofproto_init_tables`, for an enclave that could be started. -/
def sgxOfprotoInitTables (s : Bridges) (nTables : Nat) (random : Nat → BitVec 16)
    (basis : Nat → U32) : Bridges :=
  let bridgeId := s.bridgeCounter
  { bridgeCounter := (s.bridgeCounter + 1) % 2 ^ 8
    slot := Function.update s.slot bridgeId
      (some ⟨ecallOfprotoInitTables nTables random, sgxTableDpifInit basis⟩)
    live := (s.created, bridgeId) :: s.live
    created := s.created + 1 }

/-- `sgx_oftable_destroy`, up to `classifier_destroy`; the assertion is checked. -/
def sgxOftableDestroy (s : Enclave) (i : Nat) : Option Enclave :=
  if classifierCount (s.oftable i).cls = 0 then ecallOftableDisableEviction s i else none

/-- `ecall_ofproto_destroy`, up to `free`. -/
def ecallOfprotoDestroy (s : Enclave) : Option Enclave :=
  (List.range s.nTables).foldlM sgxOftableDestroy s

/-- What the switch does: it creates or destroys a bridge or calls an ecall for one. A bridge
is named by the number of its creation. -/
inductive SwitchOp where
  | create (nTables : Nat) (random : Nat → BitVec 16) (basis : Nat → U32)
  | destroy (k : Nat)
  | call (k : Nat) (c : Call)
  | updateTaggable (k i : Nat)

/-- The bridge that an operation is for. -/
def SwitchOp.target : SwitchOp → Option Nat
  | .create _ _ _ => none
  | .destroy k => some k
  | .call k _ => some k
  | .updateTaggable k _ => some k

/-- The `bridge_id` of a live bridge, and its entry. -/
def Bridges.entry (s : Bridges) (k : Nat) : Option (Nat × TaggedBridge) := do
  let b ← s.live.lookup k
  let bridge ← s.slot b
  return (b, bridge)

/-- The system after an operation, `none` if the operation is undefined. -/
def Bridges.step (s : Bridges) : SwitchOp → Option Bridges
  | .create n random basis => some (sgxOfprotoInitTables s n random basis)
  | .destroy k => do
    let (b, bridge) ← s.entry k
    let _ ← ecallOfprotoDestroy bridge.enclave
    return { s with
      slot := Function.update s.slot b none
      live := s.live.filter (fun e => e.1 != k) }
  | .call k c => do
    let (b, bridge) ← s.entry k
    let enclave ← exec bridge.enclave c
    return { s with slot := Function.update s.slot b (some { bridge with enclave := enclave }) }
  | .updateTaggable k i => do
    let (b, bridge) ← s.entry k
    return { s with slot := Function.update s.slot b (ecallOftableUpdateTaggable bridge i).1 }

/-- The systems that operations with property `G` lead to. -/
inductive BridgesReachable (G : Bridges → SwitchOp → Prop) : Bridges → Prop where
  | init : BridgesReachable G Bridges.init
  | step {s s' : Bridges} (op : SwitchOp) :
      BridgesReachable G s → G s op → s.step op = some s' → BridgesReachable G s'

/-! ## Isolation -/

/-- The `bridge_id`s of live bridges are distinct and valid indices. -/
structure IdsOk (s : Bridges) : Prop where
  distinct : (s.live.map Prod.snd).Nodup
  valid : ∀ e ∈ s.live, e.2 < nBridges

/-- An operation leaves every other live bridge alive, with its tables, its shadow map, its
taggable pointers and its number of tables. -/
def Isolates (s : Bridges) (op : SwitchOp) (s' : Bridges) : Prop :=
  ∀ e ∈ s.live, op.target ≠ some e.1 → e ∈ s'.live ∧ s'.slot e.2 = s.slot e.2

/-- A bridge is created only when fewer than 100 have been created before. -/
def FewBridges (s : Bridges) : SwitchOp → Prop
  | .create _ _ _ => s.created < nBridges
  | _ => True

/-- The `bridge_id` of a live bridge is the number of its creation. -/
structure BridgesOk (s : Bridges) : Prop where
  counter : s.bridgeCounter = s.created
  bound : s.created ≤ nBridges
  ids : ∀ e ∈ s.live, e.2 = e.1 ∧ e.1 < s.created
  distinct : (s.live.map Prod.fst).Nodup

variable {s s' : Bridges} {op : SwitchOp}

theorem BridgesOk.init : BridgesOk Bridges.init where
  counter := rfl
  bound := Nat.zero_le _
  ids := by simp [Bridges.init]
  distinct := List.nodup_nil

theorem BridgesOk.idsOk (h : BridgesOk s) : IdsOk s where
  distinct := by
    have hsame : s.live.map Prod.snd = s.live.map Prod.fst :=
      List.map_congr_left (fun e he => (h.ids e he).1)
    rw [hsame]
    exact h.distinct
  valid := by
    intro e he
    obtain ⟨heq, hlt⟩ := h.ids e he
    have hbound := h.bound
    omega

/-- The entry of a live bridge has the bridge's number. -/
theorem BridgesOk.entry (h : BridgesOk s) {k b : Nat} {bridge : TaggedBridge}
    (hentry : s.entry k = some (b, bridge)) : b = k ∧ k < s.created := by
  simp only [Bridges.entry, Option.bind_eq_bind, Option.bind_eq_some_iff, Option.pure_def,
    Option.some.injEq, Prod.mk.injEq] at hentry
  obtain ⟨b', hlookup, -, -, rfl, -⟩ := hentry
  have hmem : (k, b') ∈ s.live := by
    obtain ⟨l₁, l₂, heq, -⟩ := List.lookup_eq_some_iff.mp hlookup
    rw [heq]
    simp
  exact h.ids _ hmem

/-- What an operation does: it writes one entry, and `live` changes with it. -/
theorem Bridges.step_cases (hs : s.step op = some s') :
    (∃ n random basis, op = .create n random basis ∧
      s' = sgxOfprotoInitTables s n random basis) ∨
    (∃ k b bridge x, op.target = some k ∧ s.entry k = some (b, bridge) ∧
      s'.slot = Function.update s.slot b x ∧ s'.bridgeCounter = s.bridgeCounter ∧
      s'.created = s.created ∧
      (s'.live = s.live ∨ s'.live = s.live.filter (fun e => e.1 != k))) := by
  cases op with
  | create n random basis => exact .inl ⟨n, random, basis, rfl, (Option.some.inj hs).symm⟩
  | destroy k =>
    simp only [Bridges.step, Option.bind_eq_bind, Option.bind_eq_some_iff] at hs
    obtain ⟨⟨b, bridge⟩, hentry, _, _, hs⟩ := hs
    cases hs
    exact .inr ⟨k, b, bridge, none, rfl, hentry, rfl, rfl, rfl, .inr rfl⟩
  | call k c =>
    simp only [Bridges.step, Option.bind_eq_bind, Option.bind_eq_some_iff] at hs
    obtain ⟨⟨b, bridge⟩, hentry, enclave, _, hs⟩ := hs
    cases hs
    exact .inr ⟨k, b, bridge, _, rfl, hentry, rfl, rfl, rfl, .inl rfl⟩
  | updateTaggable k i =>
    simp only [Bridges.step, Option.bind_eq_bind, Option.bind_eq_some_iff] at hs
    obtain ⟨⟨b, bridge⟩, hentry, hs⟩ := hs
    cases hs
    exact .inr ⟨k, b, bridge, _, rfl, hentry, rfl, rfl, rfl, .inl rfl⟩

theorem BridgesOk.step (h : BridgesOk s) (hfew : FewBridges s op) (hs : s.step op = some s') :
    BridgesOk s' := by
  rcases Bridges.step_cases hs with ⟨n, random, basis, rfl, rfl⟩ |
    ⟨k, b, bridge, x, -, -, -, hcounter, hcreated, hlive⟩
  · have hlt : s.created < nBridges := hfew
    exact
      { counter := by
          simp only [sgxOfprotoInitTables, h.counter]
          simp only [nBridges] at hlt
          omega
        bound := hlt
        ids := by
          intro e he
          rcases List.mem_cons.mp he with rfl | he
          · exact ⟨h.counter, Nat.lt_succ_self _⟩
          · obtain ⟨heq, hlt⟩ := h.ids e he
            exact ⟨heq, Nat.lt_succ_of_lt hlt⟩
        distinct := by
          refine List.nodup_cons.mpr ⟨fun hmem => ?_, h.distinct⟩
          obtain ⟨e, he, heq⟩ := List.mem_map.mp hmem
          have := (h.ids e he).2
          omega }
  · have hsub : s'.live.Sublist s.live := by
      rcases hlive with heq | heq
      · rw [heq]
      · rw [heq]
        exact List.filter_sublist
    exact
      { counter := by rw [hcounter, hcreated, h.counter]
        bound := by rw [hcreated]; exact h.bound
        ids := by
          rw [hcreated]
          exact fun e he => h.ids e (hsub.subset he)
        distinct := h.distinct.sublist (hsub.map Prod.fst) }

theorem BridgesOk.isolates (h : BridgesOk s) (hs : s.step op = some s') : Isolates s op s' := by
  intro e he hother
  obtain ⟨heq, hlt⟩ := h.ids e he
  rcases Bridges.step_cases hs with ⟨n, random, basis, rfl, rfl⟩ |
    ⟨k, b, bridge, x, htarget, hentry, hslot, -, -, hlive⟩
  · refine ⟨List.mem_cons_of_mem _ he, Function.update_of_ne ?_ _ _⟩
    have hcounter := h.counter
    omega
  · have hne : e.1 ≠ k := fun hk => hother (by rw [htarget, hk])
    have hb := (h.entry hentry).1
    refine ⟨?_, ?_⟩
    · rcases hlive with heq | heq
      · rw [heq]
        exact he
      · rw [heq]
        exact List.mem_filter.mpr ⟨he, by simpa using hne⟩
    · rw [hslot, Function.update_of_ne (by omega)]

theorem BridgesReachable.ok (h : BridgesReachable FewBridges s) : BridgesOk s := by
  induction h with
  | init => exact BridgesOk.init
  | step op _ hfew hs ih => exact ih.step hfew hs

/-- In every run that creates at most 100 bridges the live bridges have distinct, valid
numbers, and every operation leaves the other live bridges alone. -/
theorem bridges_isolated (h : BridgesReachable FewBridges s) :
    IdsOk s ∧ ∀ (op : SwitchOp) (s' : Bridges), FewBridges s op → s.step op = some s' →
      IdsOk s' ∧ Isolates s op s' := by
  have hok := h.ok
  exact ⟨hok.idsOk, fun op s' hfew hs => ⟨(hok.step hfew hs).idsOk, hok.isolates hs⟩⟩

/-- A run that only creates bridges, the one with number `k` with `k + 1` tables. -/
def createBridges : Nat → Bridges
  | 0 => Bridges.init
  | n + 1 => sgxOfprotoInitTables (createBridges n) (n + 1) (fun _ => 0#16) (fun _ => 0#32)

theorem createBridges_created (n : Nat) : (createBridges n).created = n := by
  induction n with
  | zero => rfl
  | succ n ih => exact congrArg (· + 1) ih

theorem createBridges_reachable {G : Bridges → SwitchOp → Prop} (n : Nat)
    (hG : ∀ m < n, ∀ random basis, G (createBridges m) (.create (m + 1) random basis)) :
    BridgesReachable G (createBridges n) := by
  induction n with
  | zero => exact .init
  | succ n ih =>
    have hprev := ih (fun m hm => hG m (Nat.lt_succ_of_lt hm))
    exact hprev.step _ (hG n (Nat.lt_succ_self n) _ _) rfl

theorem twoBridges_isolated :
    BridgesReachable FewBridges (createBridges 2) ∧ IdsOk (createBridges 2) := by
  have hreach : BridgesReachable FewBridges (createBridges 2) := by
    refine createBridges_reachable 2 (fun m hm random basis => ?_)
    show (createBridges m).created < nBridges
    rw [createBridges_created, nBridges]
    omega
  exact ⟨hreach, (bridges_isolated hreach).1⟩

/-- The hundred and first bridge has no place in the arrays, and the two hundred and
fifty-seventh takes that of the first. -/
theorem manyBridges_not_isolated :
    BridgesReachable (fun _ _ => True) (createBridges 101) ∧ ¬ IdsOk (createBridges 101) ∧
      (0, 0) ∈ (createBridges 257).live ∧ (256, 0) ∈ (createBridges 257).live ∧
      ((createBridges 257).slot 0).map (·.enclave.nTables) = some 257 := by
  refine ⟨createBridges_reachable 101 (fun _ _ _ _ => trivial), fun h => ?_, ?_⟩
  · have hlast : (100, 100) ∈ (createBridges 101).live := by decide +kernel
    exact absurd (h.valid _ hlast) (by decide)
  · decide +kernel

end OvsSgx
