/-
OvsSgx.OfprotoRuns — runs of a whole bridge.

`BridgeCall` is one call into the bridge, `run` its effect and `Allowed`
what the caller promises: a new rule lies at an address whose low 32 bits no
live rule has, the rules of a list to delete are installed and named once,
and a rule that expires is on the list `expirable`. The provider may be
clogged or not at any time. The invariant `Sane` holds in every state that
allowed calls lead to.
-/
import OvsSgx.AddFlowOutcome
import OvsSgx.OfprotoDeletions
import OvsSgx.EvictionReachable

namespace OvsSgx

/-! ## Calls -/

/-- A call into a bridge. `construct` is what the provider's `rule_construct` returns. -/
inductive BridgeCall where
  | addFlow (fm : FlowMod) (new : NewRule) (construct : Option Ofperr)
  | deleteFlows (rules : List UtAddr)
  | flush
  | evict
  | ruleExpire (a : UtAddr)
  | completeOperations
  | clog (clogged : Bool)
  | configure (c : Call)

/-- The ecalls by which the configuration of a table and its eviction groups change. -/
def Call.isConfig : Call → Bool
  | .evgAddRule _ _ _ _ _ => true
  | .evgRemoveRule _ _ => true
  | .oftableEnableEviction _ _ _ => true
  | .oftableDisableEviction _ => true
  | .oftableMflowsSet _ _ => true
  | .oftableSetReadonly _ => true
  | _ => false

/-- The state after a call, `none` if the call is undefined. -/
def BridgeCall.run (o : Ofproto) : BridgeCall → Option Ofproto
  | .addFlow fm new construct => (OvsSgx.addFlow o fm new construct).map Prod.fst
  | .deleteFlows rules => OvsSgx.deleteFlows o rules
  | .flush => ofprotoFlush o
  | .evict => ofprotoEvict o
  | .ruleExpire a => ofprotoRuleExpire o a
  | .completeOperations => OvsSgx.completeOperations o
  | .clog clogged => some { o with clogged := clogged }
  | .configure c => (exec o.enclave c).map fun s => { o with enclave := s }

/-- What the caller promises. -/
def BridgeCall.Allowed (o : Ofproto) : BridgeCall → Prop
  | .addFlow _ new _ => o.enclave.NewAddr new.cr
  | .deleteFlows rules => (∀ a ∈ rules, ∃ i, o.enclave.Installed i a) ∧ rules.Nodup
  | .ruleExpire a => a ∈ o.expirable
  | .configure c => c.isConfig = true ∧ GroupsAllowed o.enclave c
  | _ => True

/-- The states of a bridge that calls with property `G` lead to. -/
inductive OfprotoReachable (G : Ofproto → BridgeCall → Prop) : Ofproto → Prop where
  | create (nTables : Nat) (enclaveRandom random : Nat → BitVec 16) :
      0 < nTables → OfprotoReachable G (ofprotoCreate nTables enclaveRandom random)
  | step {o o' : Ofproto} (c : BridgeCall) :
      OfprotoReachable G o → G o c → c.run o = some o' → OfprotoReachable G o'

/-- The state after a call, unchanged if the call is undefined. -/
def Ofproto.after (o : Ofproto) (c : BridgeCall) : Ofproto := (c.run o).getD o

section Runs

variable {G : Ofproto → BridgeCall → Prop} {o o' : Ofproto} {c : BridgeCall}

theorem OfprotoReachable.after (h : OfprotoReachable G o) (hc : G o c) :
    OfprotoReachable G (o.after c) := by
  unfold Ofproto.after
  cases hs : c.run o with
  | none => exact h
  | some o' => exact h.step c hc hs

/-! ## The invariant along a run -/

/-- A change of the configuration leaves the rules and the classifiers alone. -/
theorem exec_config {s s' : Enclave} {c : Call} (hc : c.isConfig = true)
    (hs : exec s c = some s') :
    s'.nTables = s.nTables ∧ (∀ i, (s'.oftable i).cls = (s.oftable i).cls) ∧
      s'.clsRules = s.clsRules ∧ s'.oClsRule = s.oClsRule := by
  have hsame : SameRules s s' → s'.nTables = s.nTables ∧
      (∀ i, (s'.oftable i).cls = (s.oftable i).cls) ∧ s'.clsRules = s.clsRules ∧
      s'.oClsRule = s.oClsRule := fun h =>
    ⟨h.nTables, h.cls, h.clsRules, h.oClsRule⟩
  have hset : ∀ i tbl, tbl.cls = (s.oftable i).cls →
      ∀ j, ((s.setOftable i tbl).oftable j).cls = (s.oftable j).cls := by
    intro i tbl hcls j
    rcases eq_or_ne j i with rfl | hji
    · rw [setOftable_oftable_self, hcls]
    · rw [setOftable_oftable_ne _ _ hji]
  cases c with
  | evgAddRule i a p q node => exact hsame (ecallEvgAddRule_sameRules hs)
  | evgRemoveRule i a => exact hsame (ecallEvgRemoveRule_sameRules hs)
  | oftableEnableEviction i fields v =>
    obtain ⟨⟨s1, b⟩, h1, rfl⟩ := Option.map_eq_some_iff.mp hs
    exact hsame (ecallOftableEnableEviction_sameRules h1)
  | oftableDisableEviction i => exact hsame (ecallOftableDisableEviction_sameRules hs)
  | oftableMflowsSet i v =>
    cases hs
    exact ⟨rfl, hset i _ rfl, rfl, rfl⟩
  | oftableSetReadonly i =>
    cases hs
    exact ⟨rfl, hset i _ rfl, rfl, rfl⟩
  | _ => cases hc

theorem configure_sane {s' : Enclave} {c : Call} (h : Sane o) (hc : c.isConfig = true)
    (hallowed : GroupsAllowed o.enclave c) (hs : exec o.enclave c = some s') :
    Sane { o with enclave := s' } ∧ (Tracks o → Tracks { o with enclave := s' }) := by
  obtain ⟨hn, htables, hcls, haddr⟩ := exec_config hc hs
  have hrules : ∀ i, s'.rules i = o.enclave.rules i := fun i => by
    rw [Enclave.rules, htables i]
    rfl
  have hlive : ∀ a, s'.Live a ↔ o.enclave.Live a := by
    intro a
    simp only [Enclave.Live, Enclave.LiveRule, hcls, haddr]
  have hinst : ∀ i a, s'.Installed i a ↔ o.enclave.Installed i a := by
    intro i a
    simp only [Enclave.Installed, Enclave.LiveRule, hcls, haddr, hrules]
  have hops : SameOps o { o with enclave := s' } :=
    ⟨rfl, rfl, Nat.le_refl _, Nat.le_refl _, fun _ _ => rfl, fun _ _ => rfl⟩
  refine ⟨h.keep hops (exec_bridge h.enclave hallowed hs) hn
    (fun i a ha => h.tableId i a ((hinst i a).mp ha)) h.expirable
    (fun a ha => (hlive a).mpr (h.onList a ha)) fun a ha => ?_, fun ht => ⟨fun a => ?_, ht.nodup⟩⟩
  · obtain ⟨b1, b2, b3⟩ := h.inFlight.victim a ha
    exact ⟨(hlive a).mpr b1, fun i hi => b2 i ((hinst i a).mp hi), b3⟩
  · exact (hlive a).trans (ht.live a)

theorem ofprotoCreate_sane {nTables : Nat} (hn : 0 < nTables)
    (enclaveRandom random : Nat → BitVec 16) : Sane (ofprotoCreate nTables enclaveRandom random) := by
  have hno : ∀ i a, ¬ (ofprotoCreate nTables enclaveRandom random).enclave.Installed i a := by
    rintro i a ⟨r, hr, -⟩
    simp [Enclave.LiveRule, ChainMap.values, ofprotoCreate, ecallOfprotoInitTables, hmapInit] at hr
  refine ⟨ecallOfprotoInitTables_bridge _ nTables enclaveRandom, hn, rfl,
    fun i a ha => absurd ha (hno i a), List.nodup_nil, by simp [ofprotoCreate],
    by simp [ofprotoCreate], ?_⟩
  constructor <;> simp [Ofproto.waiting, ofprotoCreate, Ofproto.victims]

end Runs

/-! ## When the shadows go with the memory -/

/-- The call frees a rule together with its shadow, or frees none. A deletion that is
completed frees the rule and leaves the shadow; `ofproto_evict` destroys the shadows even
if the deletions have to wait. -/
def BridgeCall.Clean (o : Ofproto) : BridgeCall → Prop
  | .addFlow fm new construct => o.clogged = true ∨ construct ≠ none ∨
      (fm.tableId ≠ 0xff ∧ o.nTables ≤ fm.tableId) ∨
      ∀ e victim, EvictsFor o fm new e victim →
        isPending o (some e) = true ∨ isPending o victim = true
  | .deleteFlows rules => o.clogged = true ∨ rules = []
  | .flush => o.clogged = true ∨ allFlushable o.enclave = []
  | .evict => o.clogged = false ∨ totalSelected o.enclave o.nTables = 0
  | .ruleExpire a => o.clogged = true ∨ isPending o (some a) = true
  | .completeOperations => o.clogged = true ∨ ∀ k ∈ o.waiting, (o.op k).type ≠ .delete
  | _ => True

section Invariant

variable {o o' : Ofproto} {c : BridgeCall}

/-- One allowed call keeps the invariant, and a clean one keeps shadows and memory
together. -/
theorem run_sane (h : Sane o) (hc : c.Allowed o) (hs : c.run o = some o') :
    Sane o' ∧ (c.Clean o → Tracks o → Tracks o') := by
  cases c with
  | addFlow fm new construct =>
    obtain ⟨⟨o1, error⟩, h1, rfl⟩ := Option.map_eq_some_iff.mp hs
    exact addFlow_sane h hc h1
  | deleteFlows rules => exact deleteFlows_sane h hc.1 hc.2 hs
  | flush => exact ofprotoFlush_sane h hs
  | evict => exact ofprotoEvict_sane h hs
  | ruleExpire a => exact ofprotoRuleExpire_sane h hc hs
  | completeOperations => exact completeOperations_sane h hs
  | clog clogged =>
    cases hs
    refine ⟨SaneWith.congr h rfl rfl (fun _ => rfl) rfl (Nat.le_refl _)
      (fun k hk => ⟨rfl, h.inFlight.error k hk⟩) h.groups, fun _ ht => ⟨ht.live, ht.nodup⟩⟩
  | configure c =>
    obtain ⟨s', h1, rfl⟩ := Option.map_eq_some_iff.mp hs
    obtain ⟨hsane, htracks⟩ := configure_sane h hc.1 hc.2 h1
    exact ⟨hsane, fun _ ht => htracks ht⟩

/-- The invariant holds in every state of every run. -/
theorem OfprotoReachable.sane {G : Ofproto → BridgeCall → Prop} (hG : ∀ o c, G o c → c.Allowed o)
    (h : OfprotoReachable G o) : Sane o := by
  induction h with
  | create nTables enclaveRandom random hn => exact ofprotoCreate_sane hn enclaveRandom random
  | step c _ hc hs ih => exact (run_sane ih (hG _ c hc) hs).1

end Invariant

/-! ## Small bridges -/

/-- A flow for table 0 on the first word of the flow, with an idle timeout. -/
def expiringFlow (value : U32) (priority : Nat) : FlowMod :=
  ⟨0, matchFirstWord value, priority, false, 60, 0⟩

/-- Memory for a rule. -/
def ruleAt (a : UtAddr) : NewRule := ⟨a, ⟨0, 0⟩, 7⟩

/-- A bridge with one table and eviction by tunnel id. -/
def newBridge : Ofproto :=
  (ofprotoCreate 1 (fun _ => 5#16) fun _ => 6#16).after
    (.configure (.oftableEnableEviction 0 [tunIdSubfield] 9#32))

theorem newBridge_reachable {G : Ofproto → BridgeCall → Prop}
    (hG : ∀ o i fields v, G o (.configure (.oftableEnableEviction i fields v))) :
    OfprotoReachable G newBridge :=
  (OfprotoReachable.create 1 (fun _ => 5#16) (fun _ => 6#16) Nat.one_pos).after (hG _ _ _ _)

/-- A bridge with a flow that expires. -/
def oneFlow : Ofproto := newBridge.after (.addFlow (expiringFlow 7#32 1) (ruleAt 1#64) none)

theorem oneFlow_reachable : OfprotoReachable (fun o c => c.Allowed o) oneFlow :=
  (newBridge_reachable fun _ _ _ _ => ⟨rfl, trivial⟩).after
    (show Enclave.NewAddr _ 1#64 by decide +kernel)

/-- A flow for which no rule is evicted. -/
theorem not_evictsFor {o : Ofproto} {fm : FlowMod} {new : NewRule}
    (h : (ecallAddFlow o.enclave (flowArgs o fm new)).map (fun res => res.2.evict) = some none)
    {e : UtAddr} {victim : Option UtAddr} : ¬ EvictsFor o fm new e victim := by
  rintro ⟨s', out, hs, hev, -⟩
  rw [hs, Option.map_some, hev] at h
  cases h

end OvsSgx
