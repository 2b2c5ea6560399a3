/-
OvsSgx.AddFlowAtomic — what `add_flow` leaves behind when it fails.

The back-out of `add_flow` takes the new rule out again and puts the victim
back at the end of the list `expirable`. A rule that `SGX_add_flow` evicted
is not put back. The module says exactly which failing calls leave the
tables, the eviction groups and the list as they were.
-/
import OvsSgx.OfprotoRuns

namespace OvsSgx

/-- The rules in the tables, the rules in eviction groups and the list `expirable` are the
same. -/
structure SameTables (o o' : Ofproto) : Prop where
  rules : ∀ j q, q ∈ o'.enclave.rules j ↔ q ∈ o.enclave.rules j
  groupedIn : ∀ j q, o'.enclave.GroupedIn j q ↔ o.enclave.GroupedIn j q
  expirable : o'.expirable = o.expirable

/-! ## When a failing call changes nothing -/

/-- The table has more rules than it may once the flow is in it. -/
def Overflows (o : Ofproto) (fm : FlowMod) : Prop :=
  ecallOftableMflows o.enclave fm.table < ecallOftableClsCount o.enclave fm.table ∨
    (ecallOftableMflows o.enclave fm.table = ecallOftableClsCount o.enclave fm.table ∧
      ∀ v, ¬ IsVictim o.enclave fm.table fm.match fm.priority v)

/-- Rule `v` is where the back-out puts it: in an eviction group if it expires and the table
has them, and at the end of the list `expirable` if it expires. -/
structure Restorable (o : Ofproto) (i : Nat) (v : RuleId) : Prop where
  grouped : o.enclave.GroupedIn i v ↔ ecallIsEvictionFieldsEnabled o.enclave i = true ∧
    (o.rule (o.enclave.oClsRule v)).mayExpire = true
  last : (o.rule (o.enclave.oClsRule v)).mayExpire = true →
    o.expirable.getLast? = some (o.enclave.oClsRule v)
  off : (o.rule (o.enclave.oClsRule v)).mayExpire = false → o.enclave.oClsRule v ∉ o.expirable

/-- A failing `add_flow` changes nothing: there is no such table, the flow is refused, or no
rule has to be evicted or can be, and the victim, if any, can be put back. -/
def FailsClean (o : Ofproto) (fm : FlowMod) (new : NewRule) : Prop :=
  (fm.tableId ≠ 0xff ∧ o.nTables ≤ fm.tableId) ∨ FlowRefused o.enclave (flowArgs o fm new) ∨
    ((¬ Overflows o fm ∨ ∀ q, o.enclave.GroupedIn fm.table q →
        IsVictim o.enclave fm.table fm.match fm.priority q) ∧
      ∀ v, IsVictim o.enclave fm.table fm.match fm.priority v → Restorable o fm.table v)

section Failed

variable {o o' : Ofproto} {fm : FlowMod} {new : NewRule} {construct : Option Ofperr}
  {out : AddFlowOut} {s' : Enclave} {V E : Option RuleId} {i : Nat}

/-- Appending the rule that was erased gives the list back exactly if it was last. -/
theorem erase_append_eq {l : List UtAddr} (hl : l.Nodup) {a : UtAddr} :
    l.erase a ++ [a] = l ↔ l.getLast? = some a := by
  constructor
  · intro heq
    rw [← heq]
    simp
  · intro hlast
    obtain ⟨l', rfl⟩ := List.getLast?_eq_some_iff.mp hlast
    have hnot : a ∉ l' := fun ha => (List.nodup_append.mp hl).2.2 a ha a (by simp) rfl
    rw [List.erase_append_right _ hnot]
    simp

/-- The back-out restores the tables exactly if nothing was evicted and the victim is where
it was. -/
theorem BackedOut.sameTables_iff (h : Sane o) (hb : BackedOut o o' i V E)
    (hE : ∀ e, E = some e → o.enclave.GroupedIn i e)
    (hV : ∀ v, V = some v → v ∈ o.enclave.rules i) :
    SameTables o o' ↔ E = none ∧ ∀ v, V = some v → Restorable o i v := by
  have hrest : ∀ v, Restorable o i v ↔ (o.enclave.GroupedIn i v ↔
      ecallIsEvictionFieldsEnabled o.enclave i = true ∧
        (o.rule (o.enclave.oClsRule v)).mayExpire = true) ∧
      o.expirable.erase (o.enclave.oClsRule v) ++
        (if (o.rule (o.enclave.oClsRule v)).mayExpire then [o.enclave.oClsRule v] else [])
        = o.expirable := by
    intro v
    have hlist := erase_append_eq h.expirable (a := o.enclave.oClsRule v)
    have herase := List.erase_eq_self_iff (a := o.enclave.oClsRule v) (l := o.expirable)
    cases hexp : (o.rule (o.enclave.oClsRule v)).mayExpire with
    | true =>
      rw [if_pos rfl, hlist]
      exact ⟨fun hr => ⟨hexp ▸ hr.grouped, hr.last hexp⟩,
        fun hr => ⟨hexp ▸ hr.1, fun _ => hr.2, fun hf => absurd (hexp.symm.trans hf) (by simp)⟩⟩
    | false =>
      rw [if_neg (by simp), List.append_nil, herase]
      exact ⟨fun hr => ⟨hexp ▸ hr.grouped, hr.off hexp⟩,
        fun hr => ⟨hexp ▸ hr.1, fun ht => absurd (hexp.symm.trans ht) (by simp), fun _ => hr.2⟩⟩
  simp only [hrest]
  constructor
  · intro hsame
    have hnone : E = none := by
      cases hEe : E with
      | none => rfl
      | some e =>
        have hmem := h.enclave.installed i e (hE e hEe)
        exact absurd hEe ((hb.rules i e).mp ((hsame.rules i e).mpr hmem)).2
    refine ⟨hnone, fun v hv => ⟨?_, ?_⟩⟩
    · rw [← hsame.groupedIn, hb.groupedIn]
      simp [hv]
    · rw [← hb.expirableSome v hv]
      exact hsame.expirable
  · rintro ⟨rfl, hback⟩
    refine ⟨fun j q => by rw [hb.rules]; simp, fun j q => ?_, ?_⟩
    · rw [hb.groupedIn]
      cases hv : V with
      | none => simp
      | some v =>
        rcases eq_or_ne q v with rfl | hqv
        · have hgr := (hback q hv).1
          simp only [ne_eq, not_true, false_and, and_false, true_and, false_or]
          constructor
          · rintro ⟨rfl, hen, hexp⟩
            exact hgr.mpr ⟨hen, hexp⟩
          · intro hq
            have hji : j = i :=
              h.enclave.disjoint j i q (h.enclave.installed j q hq) (hV q hv)
            subst hji
            exact ⟨rfl, hgr.mp hq⟩
        · simp [Ne.symm hqv]
    · cases hv : V with
      | none => exact hb.expirableNone hv
      | some v => rw [hb.expirableSome v hv, (hback v hv).2]

/-- When no rule is evicted, in terms of the state before the call. -/
theorem FlowAdded.notEvicted_iff
    (hadd : FlowAdded (fun _ => True) o.enclave (flowArgs o fm new) s' out V E) :
    E = none ↔ ¬ Overflows o fm ∨ ∀ q, o.enclave.GroupedIn fm.table q →
      IsVictim o.enclave fm.table fm.match fm.priority q := by
  have hcount : ecallOftableClsCount o.enclave fm.table + (if V.isSome then 0 else 1)
      ≤ ecallOftableMflows o.enclave fm.table ↔ ¬ Overflows o fm := by
    cases hV : V with
    | none =>
      have hno : ∀ v, ¬ IsVictim o.enclave fm.table fm.match fm.priority v := fun v hv => by
        have := (hadd.victim v).mpr hv
        rw [hV] at this
        cases this
      simp only [Overflows, hno, not_false_eq_true, implies_true, and_true, Option.isSome_none,
        Bool.false_eq_true, if_false]
      omega
    | some v =>
      have hv : ¬ ∀ v, ¬ IsVictim o.enclave fm.table fm.match fm.priority v := fun hno =>
        hno v ((hadd.victim v).mp hV)
      simp only [Overflows, hv, and_false, or_false, Option.isSome_some, if_true]
      omega
  rw [hadd.notEvicted, ← hcount]
  refine or_congr Iff.rfl (forall_congr' fun q => imp_congr Iff.rfl ?_)
  exact hadd.victim q

/-- A call that is backed out changes nothing exactly if no rule was evicted and the victim
can be put back. -/
theorem BackedOut.sameTables_iff_restorable (h : Sane o)
    (hadd : FlowAdded (fun _ => True) o.enclave (flowArgs o fm new) s' out V E)
    (hb : BackedOut o o' fm.table V E) :
    SameTables o o' ↔ (¬ Overflows o fm ∨ ∀ q, o.enclave.GroupedIn fm.table q →
        IsVictim o.enclave fm.table fm.match fm.priority q) ∧
      ∀ v, IsVictim o.enclave fm.table fm.match fm.priority v → Restorable o fm.table v := by
  rw [hb.sameTables_iff h (fun e he => (hadd.evicted e he).1)
    (fun v hv => ((hadd.victim v).mp hv).1), hadd.notEvicted_iff]
  refine and_congr Iff.rfl (forall_congr' fun v => imp_congr ?_ Iff.rfl)
  exact hadd.victim v

/-- A refused flow leaves the tables alone. -/
theorem refused_sameTables (h : Sane o) (hnew : o.enclave.NewAddr new.cr)
    (hs' : s' = o.enclave ∨ ecallClsRuleDestroy (ecallClsRuleInit o.enclave new.cr fm.match
      fm.priority) new.cr = some s') :
    SameTables o (ruleDealloc (entered o fm new s') new.cr) := by
  rcases hs' with rfl | hdes
  · exact ⟨fun _ _ => Iff.rfl, fun _ _ => Iff.rfl, rfl⟩
  · obtain ⟨s1, h1, -, -, htables, hgroup, -⟩ :=
      initDestroy_bridge h.enclave hnew (m := fm.match) trivial fm.priority
    obtain rfl := Option.some.inj (h1.symm.trans hdes)
    refine ⟨fun j q => ?_, fun j q => ?_, rfl⟩
    · show q ∈ s1.rules j ↔ _
      rw [Enclave.rules, htables]
      rfl
    · show s1.GroupedIn j q ↔ _
      simp only [Enclave.GroupedIn, Enclave.groups, htables, hgroup]

/-- A call of `add_flow` that fails leaves the tables, the eviction groups and the list
`expirable` as they were if and only if it fails clean. -/
theorem addFlow_failed_iff (hrun : OfprotoReachable (fun o c => c.Allowed o) o)
    (hnew : o.enclave.NewAddr new.cr) {error : Ofperr}
    (hs : addFlow o fm new construct = some (o', some error)) :
    SameTables o o' ↔ FailsClean o fm new := by
  have h := hrun.sane fun _ _ hc => hc
  rcases addFlow_cases h hnew hs with
    ⟨hbad, rfl, -⟩ | ⟨s', href, -, hs', rfl⟩ | ⟨s', out, V, E, hgood, hnot, -, hadd, hend⟩
  · exact iff_of_true ⟨fun _ _ => Iff.rfl, fun _ _ => Iff.rfl, rfl⟩ (.inl hbad)
  · exact iff_of_true (refused_sameTables h hnew hs') (.inr (.inl href))
  · rcases hend with ⟨-, hb⟩ | ⟨o3, herr, -⟩
    · rw [hb.sameTables_iff_restorable h hadd]
      exact ⟨fun hc => .inr (.inr hc), fun hc => (hc.resolve_left hgood).resolve_left hnot⟩
    · cases herr

end Failed

/-! ## Two failing calls -/

theorem addFlow_after (o : Ofproto) (fm : FlowMod) (new : NewRule) (construct error : Option Ofperr)
    (h : (addFlow o fm new construct).map Prod.snd = some error) :
    addFlow o fm new construct = some (o.after (.addFlow fm new construct), error) := by
  obtain ⟨⟨o', e⟩, hs, rfl⟩ := Option.map_eq_some_iff.mp h
  simp [Ofproto.after, BridgeCall.run, hs]

theorem oneFlow_rules {q : RuleId} (hq : q ∈ oneFlow.enclave.rules 0) : q = 0 := by
  have hrules : oneFlow.enclave.rules 0 = [0] := by decide +kernel
  rw [hrules] at hq
  exact List.mem_singleton.mp hq

/-- The same flow again, and `rule_construct` fails: the first flow is put back. -/
theorem oneFlow_putBack :
    FailsClean oneFlow (expiringFlow 7#32 1) (ruleAt 2#64) ∧
      SameTables oneFlow
        (oneFlow.after (.addFlow (expiringFlow 7#32 1) (ruleAt 2#64) (some (.construct 12)))) := by
  have hclean : FailsClean oneFlow (expiringFlow 7#32 1) (ruleAt 2#64) := by
    refine .inr (.inr ⟨.inl ?_, fun v hv => ?_⟩)
    · rintro (hlt | ⟨heq, -⟩)
      · exact absurd hlt (by decide +kernel)
      · exact absurd heq (by decide +kernel)
    · obtain rfl := oneFlow_rules hv.1
      exact ⟨iff_of_true (by unfold Enclave.GroupedIn; decide +kernel) (by decide +kernel),
        fun _ => by decide +kernel, by decide +kernel⟩
  have hfails := addFlow_after oneFlow (expiringFlow 7#32 1) (ruleAt 2#64)
    (some (.construct 12)) (some (.construct 12)) (by decide +kernel)
  exact ⟨hclean, (addFlow_failed_iff oneFlow_reachable
    (show Enclave.NewAddr _ 2#64 by decide +kernel) hfails).mpr hclean⟩

/-- A table that may have one flow has one, whose operation has not completed. -/
def fullTable : Ofproto :=
  ((newBridge.after (.configure (.oftableMflowsSet 0 1))).after (.clog true)).after
    (.addFlow (expiringFlow 7#32 1) (ruleAt 1#64) none)

/-- A second flow is postponed because the first is pending, and the first is gone. -/
theorem fullTable_not_atomic :
    ¬ ∀ o o' fm new construct error, OfprotoReachable (fun o c => c.Allowed o) o →
      o.enclave.NewAddr new.cr → addFlow o fm new construct = some (o', some error) →
      SameTables o o' := by
  intro hall
  have h0 : OfprotoReachable (fun o c => c.Allowed o) newBridge :=
    newBridge_reachable fun _ _ _ _ => ⟨rfl, trivial⟩
  have h1 := (h0.after (c := .configure (.oftableMflowsSet 0 1)) ⟨rfl, trivial⟩).after
    (c := .clog true) trivial
  have h2 : OfprotoReachable (fun o c => c.Allowed o) fullTable :=
    h1.after (show Enclave.NewAddr _ 1#64 by decide +kernel)
  have hsame := hall _ _ (expiringFlow 8#32 1) (ruleAt 2#64) none .postpone h2
    (show Enclave.NewAddr _ 2#64 by decide +kernel) (addFlow_after _ _ _ _ _ (by decide +kernel))
  have hgone := (hsame.rules 0 0).mpr (by decide +kernel)
  exact absurd hgone (by decide +kernel)

end OvsSgx
