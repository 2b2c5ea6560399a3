/-
OvsSgx.EvictionOrder — does the order of eviction follow use?

The enclave orders a group by priorities that it got from untrusted memory,
when the rules joined. `ofproto_rule_update_used` changes what
`rule_eviction_priority` computes for a rule, and would have to tell it, but
the member `eviction_group`, by which the rule is found to be in a group, is
`NULL`. The order follows use as long as no use of a rule in a group moves
its expiration to another 1024 ms.
-/
import OvsSgx.BridgePriorities
import OvsSgx.EvictionChoice
import OvsSgx.RuleExpiration
import OvsSgx.OfprotoRuns

namespace OvsSgx

/-! ## Eviction order -/

/-- The priorities in the heaps are those of the rules, and each group has a rule on top that
expires first, up to 1024 ms. -/
structure EvictionOrdered (boot : Int) (s : TimedOfproto) : Prop where
  stored : ∀ i r, s.ofproto.enclave.GroupedIn i r →
    (s.ofproto.enclave.ruleEvgNode r).priority =
      s.evictionPriority boot (s.ofproto.enclave.oClsRule r)
  first : ∀ i g, g ∈ s.ofproto.enclave.groups i →
    ∃ r l, heapForEach (s.ofproto.enclave.evgRules g) s.ofproto.enclave.ruleEvgNode = r :: l ∧
      s.ofproto.enclave.evictGroup r = some g ∧
      ∀ q, s.ofproto.enclave.evictGroup q = some g →
        timeSlot (s.expiration (s.ofproto.enclave.oClsRule r)) ≤
          timeSlot (s.expiration (s.ofproto.enclave.oClsRule q))

/-- Rule `a` is in an eviction group of the enclave. -/
def Ofproto.InGroup (o : Ofproto) (a : UtAddr) : Prop :=
  ∃ i r, o.enclave.GroupedIn i r ∧ o.enclave.oClsRule r = a

/-- A use of a rule in a group that moves `used` on leaves the expiration of the rule in the same
1024 ms. -/
def TimedCall.KeepsSlot (s : TimedOfproto) : TimedCall → Prop
  | .updateUsed a used => (s.times a).used < used → s.ofproto.InGroup a →
      timeSlot (ruleExpiration (s.ofproto.rule a) { s.times a with used := used }) =
        timeSlot (s.expiration a)
  | _ => True

/-! ## The invariant -/

/-- The members of rules that say when they expire are in order, and no rule knows of a group in
untrusted memory. -/
structure TimedOk (boot : Int) (s : TimedOfproto) : Prop where
  sane : Sane s.ofproto
  expiring : ∀ a, (s.ofproto.rule a).mayExpire = true →
    Expiring boot (s.ofproto.rule a) (s.times a)
  priority : ∀ a, (s.ofproto.rule a).mayExpire = true →
    (s.ofproto.rule a).evictionPriority = s.evictionPriority boot a
  group : ∀ a, (s.times a).evictionGroup = none

section Invariant

variable {boot now : Int} {s s' : TimedOfproto} {o : Ofproto} {fm : FlowMod} {a cr : UtAddr}
  {evgNode : HeapNode} {construct error : Option Ofperr} {used : Int}

theorem timedOfprotoCreate_ok {nTables : Nat} (hn : 0 < nTables)
    (enclaveRandom random : Nat → BitVec 16) :
    TimedOk boot (timedOfprotoCreate nTables enclaveRandom random) where
  sane := ofprotoCreate_sane hn enclaveRandom random
  expiring := fun a ha => by cases ha
  priority := fun a ha => by cases ha
  group := fun _ => rfl

/-- A bridge without rules stores nothing. -/
theorem timedOfprotoCreate_synced (nTables : Nat) (enclaveRandom random : Nat → BitVec 16) :
    (timedOfprotoCreate nTables enclaveRandom random).ofproto.Synced := by
  intro r hr
  exact absurd rfl hr

/-! ### Calls of the bridge -/

/-- What a call of the bridge writes to the rules does not count here. -/
theorem TimedOk.sameButPending (h : TimedOk boot s) (hsane : Sane o)
    (hsame : SameButPending s.ofproto o) : TimedOk boot { s with ofproto := o } where
  sane := hsane
  expiring a ha := by
    rw [hsame a] at ha ⊢
    obtain ⟨h1, h2, h3, h4, h5⟩ := h.expiring a ha
    exact ⟨h1, h2, h3, h4, h5⟩
  priority a ha := by
    unfold TimedOfproto.evictionPriority
    rw [hsame a] at ha ⊢
    exact h.priority a ha
  group := h.group

theorem TimedCall.Allowed.call {c : BridgeCall} (hc : (TimedCall.call c).Allowed boot s) :
    c.Allowed s.ofproto ∧ (∀ fm new construct, c ≠ .addFlow fm new construct) ∧
      ∀ i a p q node, c = .configure (.evgAddRule i a p q node) →
        (s.ofproto.rule a).mayExpire = true ∧ q = s.evictionPriority boot a := by
  cases c with
  | addFlow fm new construct => exact hc.elim
  | configure c =>
    cases c with
    | evgAddRule i a p q node =>
      obtain ⟨hallowed, hexp, hq⟩ := hc
      refine ⟨hallowed, fun _ _ _ => by simp, fun _ _ _ _ _ heq => ?_⟩
      cases heq
      exact ⟨hexp, hq⟩
    | _ => exact ⟨hc, fun _ _ _ => by simp, fun _ _ _ _ _ heq => by cases heq⟩
  | _ => exact ⟨hc, fun _ _ _ => by simp, fun _ _ _ _ _ heq => by cases heq⟩

theorem TimedOk.call {c : BridgeCall} (h : TimedOk boot s) (hst : s.ofproto.Synced)
    (hc : (TimedCall.call c).Allowed boot s) (hs : c.run s.ofproto = some o) :
    TimedOk boot { s with ofproto := o } ∧ o.Synced := by
  obtain ⟨hallowed, hflow, hadd⟩ := hc.call
  obtain ⟨hsynced, hsame⟩ := run_synced h.sane hst hallowed hflow
    (fun i a p q node heq => by
      obtain ⟨hexp, rfl⟩ := hadd i a p q node heq
      exact ⟨hexp, (h.priority a hexp).symm⟩) hs
  exact ⟨h.sameButPending (run_sane h.sane hallowed hs).1 hsame, hsynced⟩

/-! ### Adding a flow -/

/-- `add_flow` gives the new rule its times, and the priority that goes with them. -/
theorem TimedOk.addFlow (h : TimedOk boot s) (hst : s.ofproto.Synced)
    (hc : (TimedCall.addFlow fm cr evgNode construct now).Allowed boot s)
    (hs : s.addFlow boot now fm cr evgNode construct = some (s', error)) :
    TimedOk boot s' ∧ s'.ofproto.Synced := by
  obtain ⟨hnew, ⟨hidle, hhard⟩, hclock⟩ := hc
  unfold TimedOfproto.addFlow at hs
  split at hs
  · cases hs
    exact ⟨h, hst⟩
  · rename_i hgood
    obtain ⟨⟨o, e⟩, hadd, hs⟩ := Option.bind_eq_some_iff.mp hs
    cases hs
    have hsane := (addFlow_sane h.sane hnew hadd).1
    obtain ⟨hsynced, hbad | hsame⟩ := addFlow_synced h.sane hst hnew hadd
    · exact absurd hbad hgood
    refine ⟨⟨hsane, fun a ha => ?_, fun a ha => ?_, fun a => ?_⟩, hsynced⟩
    · dsimp only at ha ⊢
      rw [hsame a] at ha ⊢
      rcases eq_or_ne a cr with rfl | hne
      · simp only [allocRule, Function.update_self] at ha ⊢
        exact ⟨ha, hidle, hhard, hclock, hclock⟩
      · simp only [allocRule, Function.update_of_ne hne] at ha ⊢
        obtain ⟨h1, h2, h3, h4, h5⟩ := h.expiring a ha
        exact ⟨h1, h2, h3, h4, h5⟩
    · unfold TimedOfproto.evictionPriority
      dsimp only at ha ⊢
      rw [hsame a] at ha ⊢
      rcases eq_or_ne a cr with rfl | hne
      · simp only [allocRule, Function.update_self]
        rfl
      · simp only [allocRule, Function.update_of_ne hne] at ha ⊢
        exact h.priority a ha
    · dsimp only
      rcases eq_or_ne a cr with rfl | hne
      · rw [Function.update_self]
      · rw [Function.update_of_ne hne]
        exact h.group a

/-! ### A use of a rule -/

/-- The rule has no group that could be told. -/
theorem TimedOk.updateUsed_eq (h : TimedOk boot s) (hlt : (s.times a).used < used) :
    s.ofprotoRuleUpdateUsed boot a used = s.setUsed boot a used := by
  unfold TimedOfproto.ofprotoRuleUpdateUsed
  rw [if_pos hlt]
  dsimp only
  rw [h.group a]

theorem setUsed_rule (b : UtAddr) :
    ((s.setUsed boot a used).ofproto.rule b).mayExpire = (s.ofproto.rule b).mayExpire ∧
      ((s.setUsed boot a used).ofproto.rule b).tableId = (s.ofproto.rule b).tableId := by
  unfold TimedOfproto.setUsed
  dsimp only
  rcases eq_or_ne b a with rfl | hne
  · rw [Function.update_self]
    exact ⟨rfl, rfl⟩
  · rw [Function.update_of_ne hne]
    exact ⟨rfl, rfl⟩

theorem setUsed_ne {b : UtAddr} (hne : b ≠ a) :
    (s.setUsed boot a used).ofproto.rule b = s.ofproto.rule b ∧
      (s.setUsed boot a used).times b = s.times b :=
  ⟨Function.update_of_ne hne _ _, Function.update_of_ne hne _ _⟩

theorem TimedOk.setUsed (h : TimedOk boot s) (hclock : Clocked boot used) :
    TimedOk boot (s.setUsed boot a used) where
  sane := SaneWith.congr h.sane rfl rfl (fun b => (setUsed_rule b).2) rfl (Nat.le_refl _)
    (fun k hk => ⟨rfl, h.sane.inFlight.error k hk⟩) h.sane.groups
  expiring b hb := by
    rw [(setUsed_rule b).1] at hb
    obtain ⟨h1, h2, h3, h4, h5⟩ := h.expiring b hb
    rcases eq_or_ne b a with rfl | hne
    · simp only [TimedOfproto.setUsed, Function.update_self]
      exact ⟨h1, h2, h3, h4, hclock⟩
    · rw [(setUsed_ne hne).1, (setUsed_ne hne).2]
      exact ⟨h1, h2, h3, h4, h5⟩
  priority b hb := by
    rw [(setUsed_rule b).1] at hb
    rcases eq_or_ne b a with rfl | hne
    · simp only [TimedOfproto.setUsed, TimedOfproto.evictionPriority, Function.update_self]
      rfl
    · unfold TimedOfproto.evictionPriority
      rw [(setUsed_ne hne).1, (setUsed_ne hne).2]
      exact h.priority b hb
  group b := by
    rcases eq_or_ne b a with rfl | hne
    · simp only [TimedOfproto.setUsed, Function.update_self]
      exact h.group b
    · rw [(setUsed_ne hne).2]
      exact h.group b

/-- The priority of a rule in a group stays what the enclave has stored if its expiration stays
in the same 1024 ms. -/
theorem TimedOk.slot_iff (h : TimedOk boot s) (hclock : Clocked boot used)
    (ha : (s.ofproto.rule a).mayExpire = true) :
    s.evictionPriority boot a =
        ruleEvictionPriority boot (s.ofproto.rule a) { s.times a with used := used } ↔
      timeSlot (ruleExpiration (s.ofproto.rule a) { s.times a with used := used }) =
        timeSlot (s.expiration a) := by
  have hold := h.expiring a ha
  have hnew : Expiring boot (s.ofproto.rule a) { s.times a with used := used } :=
    ⟨hold.mayExpire, hold.idle, hold.hard, hold.modified, hclock⟩
  exact hold.priority_eq_iff hnew

/-- When `used` is written, the enclave stays in step with the rules exactly if this moves no
rule of a group to another 1024 ms. -/
theorem TimedOk.setUsed_synced_iff (h : TimedOk boot s) (hst : s.ofproto.Synced)
    (hclock : Clocked boot used) :
    (s.setUsed boot a used).ofproto.Synced ↔ (s.ofproto.InGroup a →
      timeSlot (ruleExpiration (s.ofproto.rule a) { s.times a with used := used }) =
        timeSlot (s.expiration a)) := by
  have hself : ((s.setUsed boot a used).ofproto.rule a).evictionPriority =
      ruleEvictionPriority boot (s.ofproto.rule a) { s.times a with used := used } := by
    simp [TimedOfproto.setUsed]
  constructor
  · rintro hsynced ⟨i, r, ⟨g, hg, hr⟩, rfl⟩
    have hgroup : s.ofproto.enclave.evictGroup r ≠ none := by simp [hr]
    obtain ⟨hexp, hold⟩ := hst r hgroup
    obtain ⟨-, hnew⟩ := hsynced r hgroup
    have hnew' : (s.ofproto.enclave.ruleEvgNode r).priority = _ := hnew.trans hself
    rw [hold, h.priority _ hexp] at hnew'
    exact (h.slot_iff hclock hexp).mp hnew'
  · intro hslot r hgroup
    have hgroup' : s.ofproto.enclave.evictGroup r ≠ none := hgroup
    obtain ⟨hexp, hold⟩ := hst r hgroup'
    refine ⟨((setUsed_rule _).1).trans hexp, ?_⟩
    show (s.ofproto.enclave.ruleEvgNode r).priority = _
    have haddr : (s.setUsed boot a used).ofproto.enclave.oClsRule r =
        s.ofproto.enclave.oClsRule r := rfl
    rw [haddr, hold]
    rcases eq_or_ne (s.ofproto.enclave.oClsRule r) a with rfl | hne
    · obtain ⟨g, hg⟩ := Option.ne_none_iff_exists'.mp hgroup'
      obtain ⟨i, hi⟩ := h.sane.enclave.eviction.groupedIn hg
      rw [hself, h.priority _ hexp]
      exact (h.slot_iff hclock hexp).mpr (hslot ⟨i, r, hi, rfl⟩)
    · rw [(setUsed_ne hne).1]

theorem TimedOk.updateUsed (h : TimedOk boot s) (hst : s.ofproto.Synced)
    (hc : (TimedCall.updateUsed a used).Allowed boot s)
    (hk : (TimedCall.updateUsed a used).KeepsSlot s) :
    TimedOk boot (s.ofprotoRuleUpdateUsed boot a used) ∧
      (s.ofprotoRuleUpdateUsed boot a used).ofproto.Synced := by
  by_cases hlt : (s.times a).used < used
  · rw [h.updateUsed_eq hlt]
    exact ⟨h.setUsed (hc hlt), (h.setUsed_synced_iff hst (hc hlt)).mpr (hk hlt)⟩
  · rw [TimedOfproto.ofprotoRuleUpdateUsed, if_neg hlt]
    exact ⟨h, hst⟩

end Invariant

/-! ## Runs -/

section Runs

variable {boot : Int} {s s' : TimedOfproto} {c : TimedCall}

/-- One call that keeps the slots of the rules in groups. -/
theorem TimedOk.step (h : TimedOk boot s) (hst : s.ofproto.Synced) (hc : c.Allowed boot s)
    (hk : c.KeepsSlot s) (hs : c.run boot s = some s') : TimedOk boot s' ∧ s'.ofproto.Synced := by
  cases c with
  | addFlow fm cr evgNode construct now =>
    obtain ⟨⟨s1, error⟩, h1, rfl⟩ := Option.map_eq_some_iff.mp hs
    exact h.addFlow hst hc h1
  | updateUsed a used =>
    cases hs
    exact h.updateUsed hst hc hk
  | call c =>
    obtain ⟨o, h1, rfl⟩ := Option.map_eq_some_iff.mp hs
    exact h.call hst hc h1

theorem TimedReachable.ok (h : TimedReachable boot (fun s c => c.Allowed boot s ∧ c.KeepsSlot s) s) :
    TimedOk boot s ∧ s.ofproto.Synced := by
  induction h with
  | create nTables enclaveRandom random hn =>
    exact ⟨timedOfprotoCreate_ok hn enclaveRandom random,
      timedOfprotoCreate_synced nTables enclaveRandom random⟩
  | step c _ hc hs ih => exact ih.1.step ih.2 hc.1 hc.2 hs

/-- Where the enclave is in step with the rules, the groups are in the order of expiration. -/
theorem TimedOk.ordered (h : TimedOk boot s) (hst : s.ofproto.Synced) : EvictionOrdered boot s := by
  have hstored : ∀ r, s.ofproto.enclave.evictGroup r ≠ none →
      (s.ofproto.rule (s.ofproto.enclave.oClsRule r)).mayExpire = true ∧
        (s.ofproto.enclave.ruleEvgNode r).priority =
          s.evictionPriority boot (s.ofproto.enclave.oClsRule r) := by
    intro r hr
    obtain ⟨hexp, hprio⟩ := hst r hr
    exact ⟨hexp, hprio.trans (h.priority _ hexp)⟩
  refine ⟨fun i r ⟨g, _, hr⟩ => (hstored r (by simp [hr])).2, fun i g hg => ?_⟩
  obtain ⟨r, l, hwalk, hr, hmax⟩ := h.sane.enclave.eviction.rules_head hg
  refine ⟨r, l, hwalk, hr, fun q hq => ?_⟩
  obtain ⟨hexpr, hprior⟩ := hstored r (by simp [hr])
  obtain ⟨hexpq, hprioq⟩ := hstored q (by simp [hq])
  have hle := hmax q hq
  rw [hprior, hprioq] at hle
  exact ((h.expiring _ hexpq).priority_le_iff (h.expiring _ hexpr)).mp hle

/-- In every state of every run in which no use of a rule in a group moves its expiration to
another 1024 ms, the groups are in the order of expiration. -/
theorem evictionOrder_follows_use
    (h : TimedReachable boot (fun s c => c.Allowed boot s ∧ c.KeepsSlot s) s) :
    EvictionOrdered boot s :=
  h.ok.1.ordered h.ok.2

/-! ### Two flows in one group -/

/-- A flow for the first tunnel id, that expires when it has not been used for `idle` seconds. -/
def idleFlow (priority idle : Nat) : FlowMod :=
  { expiringFlow 7#32 priority with idleTimeout := idle }

/-- Two flows in one group are added at time 0. They expire after 10 and 15 seconds. -/
def twoTimedFlows : TimedOfproto :=
  (((timedOfprotoCreate 1 (fun _ => 5#16) fun _ => 6#16).after 0
    (.call (.configure (.oftableEnableEviction 0 [tunIdSubfield] 9#32)))).after 0
    (.addFlow (idleFlow 1 10) 1#64 ⟨0, 0⟩ none 0)).after 0
    (.addFlow (idleFlow 2 15) 2#64 ⟨0, 0⟩ none 0)

theorem clocked_small {t : Int} (h0 : 0 ≤ t) (h1 : t ≤ 1000000) : Clocked 0 t := by
  have hu32 : (UINT32_MAX.toNat : Int) = 4294967295 := by decide
  refine ⟨h0, ?_, ?_⟩
  · rw [hu32]
    omega
  · unfold UINT16_MAX LLONG_MAX
    omega

theorem twoTimedFlows_reachable {G : TimedOfproto → TimedCall → Prop}
    (hG : ∀ s c, c.Allowed 0 s → c.KeepsSlot s → G s c) : TimedReachable 0 G twoTimedFlows := by
  have hempty : TimedReachable 0 G (timedOfprotoCreate 1 (fun _ => 5#16) fun _ => 6#16) :=
    TimedReachable.create 1 (fun _ => 5#16) (fun _ => 6#16) Nat.one_pos
  have h0 := hempty.after
    (c := .call (.configure (.oftableEnableEviction 0 [tunIdSubfield] 9#32)))
    (hG _ _ ⟨rfl, trivial⟩ trivial)
  have hclock : Clocked 0 0 := clocked_small (by decide) (by decide)
  have h1 := h0.after (c := .addFlow (idleFlow 1 10) 1#64 ⟨0, 0⟩ none 0)
    (hG _ _ ⟨show Enclave.NewAddr _ 1#64 by decide +kernel, ⟨by decide, by decide⟩, hclock⟩ trivial)
  exact h1.after (c := .addFlow (idleFlow 2 15) 2#64 ⟨0, 0⟩ none 0)
    (hG _ _ ⟨show Enclave.NewAddr _ 2#64 by decide +kernel, ⟨by decide, by decide⟩, hclock⟩ trivial)

/-- The first flow is used after 100 ms, which leaves its expiration in the same 1024 ms. -/
theorem twoTimedFlows_ordered :
    TimedReachable 0 (fun s c => c.Allowed 0 s ∧ c.KeepsSlot s)
      (twoTimedFlows.after 0 (.updateUsed 1#64 100)) ∧
    EvictionOrdered 0 (twoTimedFlows.after 0 (.updateUsed 1#64 100)) := by
  have hreach : TimedReachable 0 (fun s c => c.Allowed 0 s ∧ c.KeepsSlot s)
      (twoTimedFlows.after 0 (.updateUsed 1#64 100)) :=
    (twoTimedFlows_reachable fun _ _ hc hk => ⟨hc, hk⟩).after
      ⟨fun _ => clocked_small (by decide) (by decide), fun _ _ => by decide +kernel⟩
  exact ⟨hreach, evictionOrder_follows_use hreach⟩

/-- The first flow is used after 8 seconds, and now expires 3 seconds after the second. It stays on
top of their group. -/
theorem evictionOrder_ignores_use :
    ¬ ∀ boot s, TimedReachable boot (fun s c => c.Allowed boot s) s → EvictionOrdered boot s := by
  intro hall
  have hreach : TimedReachable 0 (fun s c => c.Allowed 0 s)
      (twoTimedFlows.after 0 (.updateUsed 1#64 8000)) :=
    (twoTimedFlows_reachable fun _ _ hc _ => hc).after
      fun _ => clocked_small (by decide) (by decide)
  obtain ⟨r, l, hwalk, -, hfirst⟩ := (hall 0 _ hreach).first 0 0 (by decide +kernel)
  have htop : r = 0 := by
    have hhead := congrArg List.head? hwalk
    rw [List.head?_cons] at hhead
    exact (Option.some.inj ((show some 0 = _ by decide +kernel).trans hhead)).symm
  subst htop
  exact absurd (hfirst 1 (by decide +kernel)) (by decide +kernel)

end Runs

end OvsSgx
