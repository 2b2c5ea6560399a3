/-
OvsSgx.SubtableLifetime — which subtables are still there after a call.

A subtable is made with its first rule and destroyed with its last one. As
long as rules are only taken out, a subtable that keeps a rule stays, and
`classifier_replace` destroys none. The error exits of `add_flow` first put
a rule in and then take it out again; the subtables with a rule that has
not been evicted are there afterwards, at the same address.
-/
import OvsSgx.TableFrames
import OvsSgx.AddFlowOutcome

namespace OvsSgx

/-- Subtable `t` is in the classifier of table `i`. -/
def Enclave.HasSubtable (s : Enclave) (i : Nat) (t : TableId) : Prop :=
  t ∈ (s.oftable i).cls.tables.values

/-- The rules of subtable `t` of table `i`. -/
def Enclave.subtableRules (s : Enclave) (i : Nat) (t : TableId) : List RuleId :=
  chainRules ((s.oftable i).cls.table t).rules

/-- The mask of subtable `t` of table `i`. -/
def Enclave.subtableMask (s : Enclave) (i : Nat) (t : TableId) : Minimask :=
  ((s.oftable i).cls.table t).mask

section Subtables

variable {P : Match → Prop} {s s' : Enclave} {i : Nat} {t : TableId} {q : RuleId}

theorem Enclave.HasSubtable.lt (h : EnclaveOk P s) (ht : s.HasSubtable i t) :
    t < (s.oftable i).cls.nextTable :=
  (h.cls i).fresh t ((h.cls i).mem_values.mp ht)

/-- A rule of a subtable is in the table and has the subtable's mask. -/
theorem Enclave.HasSubtable.rule (h : EnclaveOk P s) (ht : s.HasSubtable i t)
    (hq : q ∈ s.subtableRules i t) :
    q ∈ s.rules i ∧ (s.clsRule q).match.mask = s.subtableMask i t := by
  have ht' := (h.cls i).mem_values.mp ht
  exact ⟨(h.cls i).mem_rules.mpr ⟨t, ht', hq⟩, (h.cls i).rule_mask ht' hq⟩

/-- A subtable has a rule. -/
theorem Enclave.HasSubtable.nonempty (h : EnclaveOk P s) (ht : s.HasSubtable i t) :
    ∃ q, q ∈ s.subtableRules i t := by
  have ht' := (h.cls i).mem_values.mp ht
  have hpos := (h.cls i).positive t ht'
  rw [((h.cls i).table t ht').count] at hpos
  exact List.exists_mem_of_length_pos hpos

theorem Kept.subtableMask (hk : Kept s s') (h : EnclaveOk P s) (ht : s.HasSubtable i t) :
    s'.subtableMask i t = s.subtableMask i t :=
  (hk.cls i).mask t (ht.lt h)

theorem Kept.ruleMask (hk : Kept s s') (h : EnclaveOk P s) {j : Nat} (hq : q ∈ s.rules j) :
    (s'.clsRule q).match = (s.clsRule q).match :=
  (hk.rule q (h.shadows.rule_lt (h.live j q hq))).1

/-- A subtable stays if a rule with its mask is left. -/
theorem Shrunk.hasSubtable_of_mask (hsh : Shrunk s s') (h : EnclaveOk P s) (h' : EnclaveOk P s')
    (ht : s.HasSubtable i t) (hq : q ∈ s'.rules i)
    (hmask : (s'.clsRule q).match.mask = s.subtableMask i t) : s'.HasSubtable i t := by
  have hfind := (hsh.cls i).findTable (h.cls i) (h'.cls i) (hsh.noNew i) hq
  have hself : findTable (s.oftable i).cls (s.subtableMask i t) = some t :=
    findTable_of_mem (h.cls i).toTablesOk ((h.cls i).mem_values.mp ht)
  rw [hmask, hself] at hfind
  exact (h'.cls i).mem_values.mpr (findTable_some (h'.cls i).toTablesOk hfind).1

/-- A subtable stays as long as it keeps one of its rules. -/
theorem Shrunk.hasSubtable (hsh : Shrunk s s') (h : EnclaveOk P s) (h' : EnclaveOk P s')
    (ht : s.HasSubtable i t) (hq : q ∈ s.subtableRules i t) (hq' : q ∈ s'.rules i) :
    s'.HasSubtable i t := by
  obtain ⟨hmem, hmask⟩ := ht.rule h hq
  refine hsh.hasSubtable_of_mask h h' ht hq' ?_
  rw [hsh.ruleMask h hmem, hmask]

end Subtables

/-! ## Putting a rule in -/

section Replace

variable {P : Match → Prop} {s s' : Enclave} {i : Nat} {t : TableId} {q r : RuleId}

theorem insertRule_tables (R : RuleStore) (cls : Classifier) (t : TableId) (r : RuleId) :
    (insertRule R cls t r).1.tables = cls.tables := by
  unfold insertRule updateTablesAfterInsertion
  dsimp only
  split
  · split
    · rfl
    · split <;> rfl
  · rfl

/-- `classifier_replace` destroys no subtable. -/
theorem classifierReplace_tables (R : RuleStore) (cls : Classifier) (r : RuleId) :
    cls.tables.values ⊆ (classifierReplace R cls r).1.tables.values := by
  have hfind : cls.tables.values ⊆ (findOrInsertTable cls (R r).match.mask).1.tables.values := by
    unfold findOrInsertTable
    split
    · exact List.Subset.refl _
    · intro t ht
      exact (values_hmapInsert_perm cls.tables cls.nextTable _).mem_iff.mpr
        (List.mem_cons_of_mem _ ht)
  have htables : (classifierReplace R cls r).1.tables
      = (findOrInsertTable cls (R r).match.mask).1.tables := by
    rw [← insertRule_tables (setRuleHash R r) (findOrInsertTable cls (R r).match.mask).1
      (findOrInsertTable cls (R r).match.mask).2 r]
    unfold classifierReplace
    dsimp only
    split <;> rfl
  rw [htables]
  exact hfind

theorem replaceState_hasSubtable {j : Nat} (ht : s.HasSubtable i t) :
    (replaceState s j r).HasSubtable i t := by
  show t ∈ ((s.setOftable j _).oftable i).cls.tables.values
  rcases eq_or_ne i j with rfl | hij
  · rw [setOftable_oftable_self]
    exact classifierReplace_tables _ _ _ ht
  · rw [setOftable_oftable_ne _ _ hij]
    exact ht

theorem SameRules.hasSubtable_iff (h : SameRules s s') :
    s'.HasSubtable i t ↔ s.HasSubtable i t := by
  unfold Enclave.HasSubtable
  rw [h.cls i]

/-- `ecall_add_flow` keeps a subtable if a rule with its mask is in the table afterwards. -/
theorem ecallAddFlow_hasSubtable {args : AddFlowArgs} {out : AddFlowOut} (h : EnclaveOk P s)
    (hnew : s.NewAddr args.cr) (hm : P args.match) (hnot : ¬ FlowRefused s args)
    (hs : ecallAddFlow s args = some (s', out)) (ht : s.HasSubtable i t) (hq : q ∈ s'.rules i)
    (hmask : (s'.clsRule q).match.mask = s.subtableMask i t) : s'.HasSubtable i t := by
  have hinst : installFlow (ecallClsRuleInit s args.cr args.match args.priority) args
      AddFlowOut.init = some (s', out) := by
    rcases ecallAddFlow_cases hs with ⟨href, -⟩ | ⟨href, -⟩ | ⟨-, hinst⟩
    · exact absurd href hnot
    · exact absurd href hnot
    · exact hinst
  have hok' : EnclaveOk P s' := ecallAddFlow_ok h hnew hm hs
  have hlook := ecallClsRuleInit_lookup (m := args.match) (p := args.priority) h.shadows hnew
  have hok0 : EnclaveOk P (ecallClsRuleInit s args.cr args.match args.priority) :=
    ecallClsRuleInit_ok h hnew hm
  obtain ⟨s2, s3, h2, h3, hcases⟩ := installFlow_cases hlook hinst
  have hsame := (evgRemoveVictim_sameRules h2).trans (evgAddFlow_sameRules h3)
  have hok3 : EnclaveOk P s3 := hsame.ok (replaceState_ok hok0
    (hok0.shadows.live_of_lookup hlook) fun j => h.nextRule_not_mem j)
  have hkept3 : Kept s s3 := ((ecallClsRuleInit_kept s args.cr args.match args.priority).trans
    (replaceState_kept _ args.tableId _)).trans hsame.kept
  have ht3 : s3.HasSubtable i t := hsame.hasSubtable_iff.mpr (replaceState_hasSubtable ht)
  have hshrunk : Shrunk s3 s' := by
    rcases hcases with ⟨-, -, rfl, -⟩ | ⟨-, out3, -, -, h4, -⟩
    · exact Shrunk.refl _
    · exact evictForFlow_shrunk h4
  refine hshrunk.hasSubtable_of_mask hok3 hok' ht3 hq ?_
  rw [hkept3.subtableMask h ht]
  exact hmask

end Replace

/-! ## The error exits of `add_flow` -/

section BackOut

variable {o o' : Ofproto} {cr : UtAddr} {error : Ofperr} {err : Option Ofperr} {i : Nat}
  {t : TableId}

/-- The back-out without a victim only takes the new rule out. -/
theorem backOut_none_shrunk (hs : backOut o cr none error = some (o', err)) :
    Shrunk o.enclave o'.enclave := by
  simp only [backOut, oftableSubstituteRule, oftableRemoveRule, evictionGroupRemoveRule,
    ofprotoRuleDestroy, Option.bind_eq_bind, Option.bind_eq_some_iff] at hs
  obtain ⟨o1, ⟨s1, h1, o2, ⟨s2, h2, heq2⟩, heq1⟩, o3, ⟨s3, h3, heq3⟩, hres⟩ := hs
  cases heq2
  cases heq1
  cases heq3
  cases hres
  exact (clsRemove_evgRemove_shrunk h1 h2).trans (ecallClsRuleDestroy_shrunk h3)

theorem ecallClsRuleDestroy_oftable {s s' : Enclave} {a : UtAddr}
    (hs : ecallClsRuleDestroy s a = some s') : s'.oftable = s.oftable := by
  simp only [ecallClsRuleDestroy, nodeDelete, Option.bind_eq_bind, Option.bind_eq_some_iff] at hs
  obtain ⟨_, -, _, -, hs⟩ := hs
  cases hs
  rfl

theorem evictionGroupRemoveRule_sameRules {a : UtAddr}
    (hs : evictionGroupRemoveRule o a = some o') : SameRules o.enclave o'.enclave := by
  obtain ⟨s1, h1, heq⟩ := Option.bind_eq_some_iff.mp hs
  cases heq
  exact ecallEvgRemoveRule_sameRules h1

theorem evictionGroupAddRule_sameRules {a : UtAddr}
    (hs : evictionGroupAddRule o a = some o') : SameRules o.enclave o'.enclave := by
  unfold evictionGroupAddRule at hs
  split at hs
  · obtain ⟨s1, h1, heq⟩ := Option.bind_eq_some_iff.mp hs
    cases heq
    exact ecallEvgAddRule_sameRules h1
  · cases hs
    exact SameRules.refl _

theorem unlinkVictim_sameRules {victim : Option UtAddr} (hs : unlinkVictim o victim = some o') :
    SameRules o.enclave o'.enclave := by
  cases victim with
  | none =>
    cases hs
    exact SameRules.refl _
  | some v => exact evictionGroupRemoveRule_sameRules (o := o.unlinkExpirable v) hs

/-- The back-out with a victim puts it in the new rule's place. -/
theorem backOut_some_kept {v : UtAddr} (hs : backOut o cr (some v) error = some (o', err)) :
    Kept o.enclave o'.enclave ∧
      ∀ i t, o.enclave.HasSubtable i t → o'.enclave.HasSubtable i t := by
  simp only [backOut, oftableSubstituteRule, ofprotoRuleDestroy, Option.bind_eq_bind,
    Option.bind_eq_some_iff] at hs
  obtain ⟨o1, h1, o2, ⟨s2, h2, heq2⟩, hres⟩ := hs
  cases heq2
  cases hres
  obtain ⟨⟨s3, victim⟩, h3, h1⟩ := Option.bind_eq_some_iff.mp h1
  obtain ⟨o4, h4, h5⟩ := Option.bind_eq_some_iff.mp h1
  obtain ⟨r, hlook, -⟩ := Option.bind_eq_some_iff.mp h3
  rw [ecallOftableClassifierReplace_eq hlook, Option.some.injEq, Prod.mk.injEq] at h3
  obtain ⟨rfl, -⟩ := h3
  have hsame := (unlinkVictim_sameRules h4).trans (evictionGroupAddRule_sameRules h5)
  have henc : (if (o.rule v).mayExpire = true then o.linkExpirable v else o).enclave = o.enclave := by
    split <;> rfl
  refine ⟨(Kept.trans ?_ hsame.kept).trans (ecallClsRuleDestroy_shrunk h2).toKept,
    fun j u hu => ?_⟩
  · rw [← henc]
    exact replaceState_kept _ _ r
  · have hu1 : o1.enclave.HasSubtable j u :=
      hsame.hasSubtable_iff.mpr (replaceState_hasSubtable (henc.symm ▸ hu))
    show u ∈ (s2.oftable j).cls.tables.values
    rw [ecallClsRuleDestroy_oftable h2]
    exact hu1

/-- A call of `add_flow` that fails after `SGX_add_flow` has put the rule in backs out. -/
theorem finishAddFlow_backOut {out : AddFlowOut} {construct : Option Ofperr} {error : Ofperr}
    (hp : (o.rule cr).pending = none) (hg : o.nextGroup ∉ o.pending)
    (hacc : out.isReadOnly = false ∧ out.isDeletionPending = false ∧ out.isRuleOverlapping = false)
    (hs : finishAddFlow o cr out construct = some (o', some error)) :
    ∃ o2 error2, o2.enclave = o.enclave ∧ backOut o2 cr out.victim error2 = some (o', some error) := by
  simp only [finishAddFlow, hacc.1, hacc.2.1, hacc.2.2, Bool.false_eq_true, if_false] at hs
  split at hs
  · exact ⟨relinkExpirable o cr out.victim, _, rfl, hs⟩
  · cases construct with
    | none =>
      rw [operateAddFlow_eq (o := relinkExpirable o cr out.victim) hp] at hs
      simp only [Option.bind_eq_some_iff, Option.map_eq_some_iff] at hs
      obtain ⟨_, _, _, _, _, _, heq⟩ := hs
      cases (Prod.mk.inj heq).2
    | some error2 =>
      obtain ⟨o2, hop, henc, -⟩ := operateAddFlow_failed out (o := relinkExpirable o cr out.victim)
        hp hg error2
      exact ⟨o2, error2, henc, hop ▸ hs⟩

/-- While the new rule is in, a subtable with a rule that is not evicted has this rule or, in its
place, the new one. -/
theorem FlowAdded.hasSubtable {fm : FlowMod} {new : NewRule} {s' : Enclave} {out : AddFlowOut}
    {V E : Option RuleId} {q : RuleId} (h : Sane o) (hnew : o.enclave.NewAddr new.cr)
    (hnot : ¬ FlowRefused o.enclave (flowArgs o fm new))
    (hecall : ecallAddFlow o.enclave (flowArgs o fm new) = some (s', out))
    (hadd : FlowAdded (fun _ => True) o.enclave (flowArgs o fm new) s' out V E)
    (ht : o.enclave.HasSubtable i t) (hq : q ∈ o.enclave.subtableRules i t) (hqE : E ≠ some q) :
    s'.HasSubtable i t := by
  obtain ⟨hmem, hmask⟩ := ht.rule h.enclave.toEnclaveOk hq
  have hstay : ∀ p, p ∈ s'.rules i → (s'.clsRule p).match = (o.enclave.clsRule q).match →
      s'.HasSubtable i t := fun p hp hmatch =>
    ecallAddFlow_hasSubtable h.enclave.toEnclaveOk hnew trivial hnot hecall ht hp
      (by rw [hmatch, hmask])
  by_cases hV : V = some q
  · obtain ⟨hq', hmatch, -⟩ := (hadd.victim q).mp hV
    have hi : i = (flowArgs o fm new).tableId := h.enclave.disjoint _ _ q hmem hq'
    refine hstay o.enclave.nextRule ((hadd.rules _ _).mpr (.inl ⟨hi, rfl⟩)) ?_
    rw [hadd.newRule.1, hmatch]
  · exact hstay q ((hadd.rules i q).mpr (.inr ⟨hmem, hV, hqE⟩))
      (hadd.store q (h.enclave.live i q hmem)).1

/-- After an error exit of `add_flow`, a subtable that had a rule besides the evicted one is still
there, with its mask. -/
theorem addFlow_error_hasSubtable {fm : FlowMod} {new : NewRule} {construct : Option Ofperr}
    {error : Ofperr} {q : RuleId} (h : Sane o) (hnew : o.enclave.NewAddr new.cr)
    (hs : addFlow o fm new construct = some (o', some error)) (ht : o.enclave.HasSubtable i t)
    (hq : q ∈ o.enclave.subtableRules i t)
    (hevict : ∀ e victim, EvictsFor o fm new e victim → o.enclave.oClsRule q ≠ e) :
    o'.enclave.HasSubtable i t ∧ o'.enclave.subtableMask i t = o.enclave.subtableMask i t := by
  have hok := h.enclave.toEnclaveOk
  obtain ⟨hmem, hmask⟩ := ht.rule hok hq
  rcases addFlow_cases h hnew hs with
    ⟨-, rfl, -⟩ | ⟨s', -, -, hs', rfl⟩ | ⟨s', out, V, E, hgood, hnot, hecall, hadd, hend⟩
  · exact ⟨ht, rfl⟩
  · have htables : s'.oftable = o.enclave.oftable := by
      rcases hs' with rfl | hdes
      · rfl
      · rw [ecallClsRuleDestroy_oftable hdes, ecallClsRuleInit_oftable]
    show t ∈ (s'.oftable i).cls.tables.values ∧ ((s'.oftable i).cls.table t).mask = _
    rw [htables]
    exact ⟨ht, rfl⟩
  · have hb : BackedOut o o' fm.table V E := by
      rcases hend with ⟨-, hb⟩ | ⟨o3, hnone, -⟩
      · exact hb
      · cases hnone
    have hqE : E ≠ some q := by
      rintro rfl
      exact hevict _ _ ⟨s', out, hecall, by rw [hadd.outEvict]; rfl, rfl⟩ rfl
    have hmid := hadd.hasSubtable h hnew hnot hecall ht hq hqE
    have hkept : Kept o.enclave s' := ecallAddFlow_kept hok hnew hecall
    have hmaskMid := hkept.subtableMask hok ht
    have hfin : finishAddFlow (entered o fm new s') new.cr out construct
        = some (o', some error) := by
      rw [addFlow, if_neg hgood] at hs
      obtain ⟨⟨s1, out1⟩, h1, h2⟩ := Option.bind_eq_some_iff.mp hs
      obtain ⟨rfl, rfl⟩ := Prod.mk.inj (Option.some.inj (hecall.symm.trans h1))
      exact h2
    obtain ⟨o2, error2, henc, hback⟩ := finishAddFlow_backOut (o := entered o fm new s')
      (by simp [entered, evictionGroupPriority, allocRule])
      (fun hg => Nat.lt_irrefl _ (h.groups _ hg))
      ⟨hadd.accepted.1, hadd.accepted.2.1, hadd.accepted.2.2.1⟩ hfin
    have henc2 : o2.enclave = s' := henc
    cases hv : out.victim with
    | none =>
      rw [hv] at hback
      have hsh : Shrunk s' o'.enclave := henc2 ▸ backOut_none_shrunk hback
      refine ⟨hsh.hasSubtable_of_mask hadd.ok.toEnclaveOk hb.ok.toEnclaveOk hmid
        ((hb.rules i q).mpr ⟨hmem, hqE⟩) ?_, ?_⟩
      · rw [(hkept.trans hsh.toKept).ruleMask hok hmem, hmask, hmaskMid]
      · rw [hsh.subtableMask hadd.ok.toEnclaveOk hmid, hmaskMid]
    | some v =>
      rw [hv] at hback
      obtain ⟨hkept2, hstay⟩ := backOut_some_kept hback
      rw [henc2] at hkept2 hstay
      exact ⟨hstay i t hmid, by rw [hkept2.subtableMask hadd.ok.toEnclaveOk hmid, hmaskMid]⟩

end BackOut

end OvsSgx
