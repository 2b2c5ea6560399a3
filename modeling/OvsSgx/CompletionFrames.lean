/-
OvsSgx.CompletionFrames — what completing operations leaves alone.

An operation that is completed destroys at most one shadow, that of the
victim of an addition. The victims of the operations in flight are displaced,
so what is known about a rule that is none of them survives whenever it
survives the destruction of a displaced rule's shadow.
-/
import OvsSgx.OfprotoInvariant

namespace OvsSgx

/-! ## The rest of a round -/

section Rest

variable {τ : Type} (rest : Ofproto → OpId → Ofproto → τ → Option τ)

/-- One round of the loop of `ofopgroup_complete` where there is more state than the bridge, which
the rest of the round works on: it has the bridge before and after `completeOp`. -/
def completeOpWith (isHidden : Bool) (s : Ofproto × τ) (k : OpId) : Option (Ofproto × τ) := do
  let o ← completeOp isHidden s.1 k
  let t ← rest s.1 k o s.2
  return (o, t)

/-- `ofopgroup_complete`. -/
def ofopgroupCompleteWith (s : Ofproto × τ) (g : GroupId) (isHidden : Bool) :
    Option (Ofproto × τ) := do
  let s ← (s.1.group g).ops.foldlM (completeOpWith rest isHidden) s
  return ({ s.1 with pending := s.1.pending.erase g }, s.2)

/-- `ofopgroup_submit`. -/
def ofopgroupSubmitWith (s : Ofproto × τ) (g : GroupId) (isHidden : Bool) : Option (Ofproto × τ) :=
  if (s.1.group g).nRunning = 0 then ofopgroupCompleteWith rest s g isHidden
  else some ({ s.1 with pending := s.1.pending ++ [g] }, s.2)

/-- `ofoperation_complete`, for an operation that succeeds. -/
def ofoperationCompleteWith (s : Ofproto × τ) (k : OpId) : Option (Ofproto × τ) :=
  let op := s.1.op k
  let group := s.1.group op.group
  if (s.1.rule op.rule).pending = some k ∧ 0 < group.nRunning then
    let o := s.1.markCompleted k none
    if group.nRunning = 1 ∧ op.group ∈ s.1.pending then
      ofopgroupCompleteWith rest (o, s.2) op.group false
    else some (o, s.2)
  else none

/-- `complete_operations`. -/
def completeOperationsWith (s : Ofproto × τ) : Option (Ofproto × τ) :=
  if s.1.clogged then some s
  else do
    let s ← s.1.completions.foldlM (ofoperationCompleteWith rest) s
    return ({ s.1 with completions := [] }, s.2)

variable {rest} {s s' : Ofproto × τ} {o' : Ofproto} {k : OpId} {g : GroupId} {isHidden : Bool}

/-! What the bridge itself does is as before. -/

theorem completeOpWith_fst (hs : completeOpWith rest isHidden s k = some s') :
    completeOp isHidden s.1 k = some s'.1 ∧ rest s.1 k s'.1 s.2 = some s'.2 := by
  simp only [completeOpWith, Option.bind_eq_bind, Option.bind_eq_some_iff] at hs
  obtain ⟨o, h1, t, h2, hs⟩ := hs
  cases hs
  exact ⟨h1, h2⟩

theorem foldlM_fst {α : Type} {f : Ofproto × τ → α → Option (Ofproto × τ)}
    {g : Ofproto → α → Option Ofproto} (hf : ∀ s a s', f s a = some s' → g s.1 a = some s'.1)
    (l : List α) : ∀ {s s' : Ofproto × τ}, l.foldlM f s = some s' →
      l.foldlM g s.1 = some s'.1 := by
  induction l with
  | nil =>
    intro s s' hs
    cases hs
    rfl
  | cons a l ih =>
    intro s s' hs
    rw [List.foldlM_cons, Option.bind_eq_bind, Option.bind_eq_some_iff] at hs
    obtain ⟨s1, h1, h2⟩ := hs
    rw [List.foldlM_cons, hf _ _ _ h1]
    exact ih h2

theorem ofopgroupCompleteWith_fst (hs : ofopgroupCompleteWith rest s g isHidden = some s') :
    ofopgroupComplete s.1 g isHidden = some s'.1 := by
  obtain ⟨s1, h1, hs⟩ := Option.bind_eq_some_iff.mp hs
  cases hs
  have hfold := foldlM_fst (fun s k s' hs => (completeOpWith_fst hs).1) _ h1
  rw [ofopgroupComplete, hfold]
  rfl

theorem ofopgroupSubmitWith_fst (hs : ofopgroupSubmitWith rest s g isHidden = some s') :
    ofopgroupSubmit s.1 g isHidden = some s'.1 := by
  unfold ofopgroupSubmitWith at hs
  unfold ofopgroupSubmit
  split at hs
  · rename_i hzero
    rw [if_pos hzero]
    exact ofopgroupCompleteWith_fst hs
  · rename_i hrun
    cases hs
    rw [if_neg hrun]

theorem ofoperationCompleteWith_fst (hs : ofoperationCompleteWith rest s k = some s') :
    ofoperationComplete s.1 k none = some s'.1 := by
  simp only [ofoperationCompleteWith] at hs
  split at hs
  · rename_i hrun
    unfold ofoperationComplete
    dsimp only
    rw [if_pos ⟨hrun.1, hrun.2, .inl rfl⟩]
    split at hs
    · rename_i hlast
      rw [if_pos hlast]
      exact ofopgroupCompleteWith_fst hs
    · rename_i hlast
      cases hs
      rw [if_neg hlast]
      rfl
  · cases hs

theorem completeOperationsWith_fst (hs : completeOperationsWith rest s = some s') :
    completeOperations s.1 = some s'.1 := by
  unfold completeOperationsWith at hs
  unfold completeOperations
  split at hs
  · rename_i hclog
    cases hs
    rw [if_pos hclog]
  · rename_i hclog
    obtain ⟨s1, h1, hs⟩ := Option.bind_eq_some_iff.mp hs
    cases hs
    have hfold := foldlM_fst (g := fun o k => ofoperationComplete o k none)
      (fun s k s' hs => ofoperationCompleteWith_fst hs) _ h1
    rw [if_neg hclog, hfold]
    rfl

/-! Without such a rest there is only the bridge. -/

/-- A round that has no rest. -/
def noRest (_ : Ofproto) (_ : OpId) (_ : Ofproto) (t : τ) : Option τ := some t

theorem foldlM_map {α : Type} {f : Ofproto × τ → α → Option (Ofproto × τ)}
    {f' : Ofproto → α → Option Ofproto} (hf : ∀ o t a, f (o, t) a = (f' o a).map (·, t))
    (l : List α) (t : τ) : ∀ o, l.foldlM f (o, t) = (l.foldlM f' o).map (·, t) := by
  induction l with
  | nil => exact fun _ => rfl
  | cons a l ih =>
    intro o
    rw [List.foldlM_cons, List.foldlM_cons, hf]
    cases f' o a with
    | none => rfl
    | some o1 => exact ih o1

theorem completeOpWith_noRest (isHidden : Bool) (o : Ofproto) (t : τ) (k : OpId) :
    completeOpWith noRest isHidden (o, t) k = (completeOp isHidden o k).map (·, t) := by
  unfold completeOpWith
  cases completeOp isHidden o k with
  | none => rfl
  | some o1 => rfl

theorem ofopgroupCompleteWith_noRest (o : Ofproto) (t : τ) (g : GroupId) (isHidden : Bool) :
    ofopgroupCompleteWith noRest (o, t) g isHidden
      = (ofopgroupComplete o g isHidden).map (·, t) := by
  unfold ofopgroupCompleteWith ofopgroupComplete
  rw [foldlM_map (completeOpWith_noRest isHidden)]
  cases (o.group g).ops.foldlM (completeOp isHidden) o with
  | none => rfl
  | some o1 => rfl

theorem ofopgroupSubmitWith_noRest (o : Ofproto) (t : τ) (g : GroupId) (isHidden : Bool) :
    ofopgroupSubmitWith noRest (o, t) g isHidden = (ofopgroupSubmit o g isHidden).map (·, t) := by
  unfold ofopgroupSubmitWith ofopgroupSubmit
  split
  · exact ofopgroupCompleteWith_noRest o t g isHidden
  · rfl

theorem ofoperationCompleteWith_noRest (o : Ofproto) (t : τ) (k : OpId) :
    ofoperationCompleteWith noRest (o, t) k = (ofoperationComplete o k none).map (·, t) := by
  simp only [ofoperationCompleteWith, ofoperationComplete, true_or, and_true,
    ofopgroupCompleteWith_noRest]
  split
  · split <;> rfl
  · rfl

theorem completeOperationsWith_noRest (o : Ofproto) (t : τ) :
    completeOperationsWith noRest (o, t) = (completeOperations o).map (·, t) := by
  unfold completeOperationsWith completeOperations
  split
  · rfl
  · rw [foldlM_map ofoperationCompleteWith_noRest]
    cases o.completions.foldlM (fun o k => ofoperationComplete o k none) o with
    | none => rfl
    | some o1 => rfl

end Rest

/-! ## Invariants of completions -/

/-- A property with the operations `W` still to be completed that is kept when operations are
completed: it holds after each one, of fewer operations, and as long as the enclave, the rules and
what the operations are about stay the same. -/
structure CompletionInvariant {τ : Type} (rest : Ofproto → OpId → Ofproto → τ → Option τ)
    (I : List OpId → Ofproto × τ → Prop) : Prop where
  complete : ∀ {W s s' k isHidden}, SaneWith (k :: W) s.1 →
    completeOpWith rest isHidden s k = some s' → I (k :: W) s → I W s'
  fewer : ∀ {W W' s}, W'.Subperm W → I W s → I W' s
  congr : ∀ {W o o' t}, o'.enclave = o.enclave → o'.rule = o.rule →
    (∀ k, (o'.op k).rule = (o.op k).rule ∧ (o'.op k).type = (o.op k).type ∧
      (o'.op k).victim = (o.op k).victim) → I W (o, t) → I W (o', t)

namespace CompletionInvariant

variable {τ : Type} {rest : Ofproto → OpId → Ofproto → τ → Option τ}
  {I : List OpId → Ofproto × τ → Prop} {s s' : Ofproto × τ} {W : List OpId} {k : OpId}
  {g : GroupId} {isHidden : Bool}

theorem foldlM (hI : CompletionInvariant rest I) {ks : List OpId} : ∀ {s : Ofproto × τ},
    SaneWith (ks ++ W) s.1 → ks.foldlM (completeOpWith rest isHidden) s = some s' →
    I (ks ++ W) s → I W s' := by
  induction ks with
  | nil =>
    intro s _ hs hi
    cases hs
    exact hi
  | cons k ks ih =>
    intro s h hs hi
    rw [List.foldlM_cons, Option.bind_eq_bind, Option.bind_eq_some_iff] at hs
    obtain ⟨s1, h1, h2⟩ := hs
    exact ih (completeOp_sane h (completeOpWith_fst h1).1).1 h2 (hI.complete h h1 hi)

theorem complete_group (hI : CompletionInvariant rest I)
    (h : SaneWith ((s.1.group g).ops ++ s.1.others g) s.1)
    (hs : ofopgroupCompleteWith rest s g isHidden = some s')
    (hi : I ((s.1.group g).ops ++ s.1.others g) s) : I s'.1.waiting s' := by
  obtain ⟨s1, hfold, hs⟩ := Option.bind_eq_some_iff.mp hs
  cases hs
  have hdone := (foldlM_completeOp_sane h
    (foldlM_fst (fun s k s' hs => (completeOpWith_fst hs).1) _ hfold)).2.1
  have hsub : (Ofproto.waiting { s1.1 with pending := s1.1.pending.erase g }).Sublist
      (s.1.others g) := by
    unfold Ofproto.waiting Ofproto.others
    rw [← hdone.pending]
    exact flatMap_sublist hdone.group
  have hi1 := hI.fewer hsub.subperm (hI.foldlM h hfold hi)
  exact hI.congr (o := s1.1) rfl rfl (fun _ => ⟨rfl, rfl, rfl⟩) hi1

/-- Submitting a group whose operations have just been started. -/
theorem submit (hI : CompletionInvariant rest I)
    (h : SaneWith ((s.1.group g).ops ++ s.1.waiting) s.1) (hg : g ∉ s.1.pending)
    (hs : ofopgroupSubmitWith rest s g isHidden = some s')
    (hi : I ((s.1.group g).ops ++ s.1.waiting) s) : I s'.1.waiting s' := by
  unfold ofopgroupSubmitWith at hs
  split at hs
  · have hothers : s.1.others g = s.1.waiting := by
      rw [Ofproto.others, List.erase_of_not_mem hg]
      rfl
    rw [← hothers] at h hi
    exact hI.complete_group h hs hi
  · cases hs
    have hperm : (Ofproto.waiting { s.1 with pending := s.1.pending ++ [g] }).Perm
        ((s.1.group g).ops ++ s.1.waiting) := by
      unfold Ofproto.waiting
      rw [List.flatMap_append, List.flatMap_singleton]
      exact List.perm_append_comm
    have hi1 := hI.fewer hperm.subperm hi
    exact hI.congr (o := s.1) rfl rfl (fun _ => ⟨rfl, rfl, rfl⟩) hi1

theorem mark (hI : CompletionInvariant rest I) (k : OpId) (hi : I s.1.waiting s) :
    I (s.1.markCompleted k none).waiting (s.1.markCompleted k none, s.2) := by
  rw [markCompleted_waiting]
  exact hI.congr (o := s.1) rfl rfl (fun j => markCompleted_op s.1 k j none) hi

theorem complete_operation (hI : CompletionInvariant rest I) (h : Sane s.1)
    (hs : ofoperationCompleteWith rest s k = some s') (hi : I s.1.waiting s) :
    I s'.1.waiting s' := by
  have hi1 := hI.mark k hi
  simp only [ofoperationCompleteWith] at hs
  split at hs
  · split at hs
    · rename_i hlast
      have hperm := Ofproto.waiting_perm (o := s.1.markCompleted k none) hlast.2
      exact hI.complete_group ((markCompleted_sane h k).subperm hperm.symm.subperm) hs
        (hI.fewer hperm.symm.subperm hi1)
    · cases hs
      exact hi1
  · cases hs

theorem foldlM_operations (hI : CompletionInvariant rest I) {ks : List OpId} :
    ∀ {s : Ofproto × τ}, Sane s.1 → ks.foldlM (ofoperationCompleteWith rest) s = some s' →
    I s.1.waiting s → I s'.1.waiting s' := by
  induction ks with
  | nil =>
    intro s _ hs hi
    cases hs
    exact hi
  | cons k ks ih =>
    intro s h hs hi
    rw [List.foldlM_cons, Option.bind_eq_bind, Option.bind_eq_some_iff] at hs
    obtain ⟨s1, h1, h2⟩ := hs
    exact ih (ofoperationComplete_sane h (ofoperationCompleteWith_fst h1)).1 h2
      (hI.complete_operation h h1 hi)

theorem operations (hI : CompletionInvariant rest I) (h : Sane s.1)
    (hs : completeOperationsWith rest s = some s') (hi : I s.1.waiting s) : I s'.1.waiting s' := by
  unfold completeOperationsWith at hs
  split at hs
  · cases hs
    exact hi
  · obtain ⟨s1, h1, hs⟩ := Option.bind_eq_some_iff.mp hs
    cases hs
    have hi1 := hI.foldlM_operations h h1 hi
    exact hI.congr (o := s1.1) rfl rfl (fun _ => ⟨rfl, rfl, rfl⟩) hi1

end CompletionInvariant

/-- Such a property of the bridge alone. -/
abbrev BridgeInvariant (I : List OpId → Ofproto → Prop) : Prop :=
  CompletionInvariant (τ := Unit) noRest fun W s => I W s.1

namespace BridgeInvariant

variable {I : List OpId → Ofproto → Prop} {o o' : Ofproto} {W ks : List OpId} {g : GroupId}
  {isHidden : Bool}

theorem foldlM (hI : BridgeInvariant I) (h : SaneWith (ks ++ W) o)
    (hs : ks.foldlM (completeOp isHidden) o = some o') (hi : I (ks ++ W) o) : I W o' := by
  have hs' : ks.foldlM (completeOpWith noRest isHidden) (o, ()) = some (o', ()) := by
    rw [foldlM_map (completeOpWith_noRest isHidden), hs]
    rfl
  exact CompletionInvariant.foldlM hI h hs' hi

theorem submit (hI : BridgeInvariant I) (h : SaneWith ((o.group g).ops ++ o.waiting) o)
    (hg : g ∉ o.pending) (hs : ofopgroupSubmit o g isHidden = some o')
    (hi : I ((o.group g).ops ++ o.waiting) o) : I o'.waiting o' := by
  have hs' : ofopgroupSubmitWith noRest (o, ()) g isHidden = some (o', ()) := by
    rw [ofopgroupSubmitWith_noRest, hs]
    rfl
  exact CompletionInvariant.submit hI h hg hs' hi

theorem complete_operation {k : OpId} (hI : BridgeInvariant I) (h : Sane o)
    (hs : ofoperationComplete o k none = some o') (hi : I o.waiting o) : I o'.waiting o' := by
  have hs' : ofoperationCompleteWith noRest (o, ()) k = some (o', ()) := by
    rw [ofoperationCompleteWith_noRest, hs]
    rfl
  exact CompletionInvariant.complete_operation hI h hs' hi

theorem foldlM_operations (hI : BridgeInvariant I) (h : Sane o)
    (hs : ks.foldlM (fun o k => ofoperationComplete o k none) o = some o') (hi : I o.waiting o) :
    I o'.waiting o' := by
  have hs' : ks.foldlM (ofoperationCompleteWith noRest) (o, ()) = some (o', ()) := by
    rw [foldlM_map ofoperationCompleteWith_noRest, hs]
    rfl
  exact CompletionInvariant.foldlM_operations hI h hs' hi

theorem mark (hI : BridgeInvariant I) (k : OpId) (hi : I o.waiting o) :
    I (o.markCompleted k none).waiting (o.markCompleted k none) :=
  CompletionInvariant.mark (s := (o, ())) hI k hi

theorem operations (hI : BridgeInvariant I) (h : Sane o) (hs : completeOperations o = some o')
    (hi : I o.waiting o) : I o'.waiting o' := by
  have hs' : completeOperationsWith noRest (o, ()) = some (o', ()) := by
    rw [completeOperationsWith_noRest, hs]
    rfl
  exact CompletionInvariant.operations hI h hs' hi

end BridgeInvariant

/-! ## The enclave and the rules -/

section Completions

variable {o o' : Ofproto} {W W' : List OpId} {a : UtAddr} {k : OpId} {isHidden : Bool}

theorem victims_subset (hsub : W' ⊆ W) : o.victims W' ⊆ o.victims W := by
  intro a ha
  obtain ⟨k, hk, hv⟩ := List.mem_filterMap.mp ha
  exact List.mem_filterMap.mpr ⟨k, hsub hk, hv⟩

/-- Completing an operation destroys the shadow of its victim, or none. -/
theorem completeOp_enclave (herr : (o.op k).error = none)
    (hs : completeOp isHidden o k = some o') :
    o'.op = o.op ∧ (o'.enclave = o.enclave ∨
      ∃ v, (o.op k).victim = some v ∧ ecallClsRuleDestroy o.enclave v = some o'.enclave) := by
  obtain ⟨_, _, hs⟩ := Option.bind_eq_some_iff.mp hs
  obtain ⟨o1, hcommit, hs⟩ := Option.bind_eq_some_iff.mp hs
  cases hs
  suffices hsame : o1.op = o.op ∧ (o1.enclave = o.enclave ∨
      ∃ v, (o.op k).victim = some v ∧ ecallClsRuleDestroy o.enclave v = some o1.enclave) from hsame
  unfold commitOperation at hcommit
  rw [herr] at hcommit
  cases htype : (o.op k).type with
  | add =>
    rw [htype] at hcommit
    cases hv : (o.op k).victim with
    | none =>
      rw [hv] at hcommit
      cases hcommit
      exact ⟨rfl, Or.inl rfl⟩
    | some v =>
      rw [hv] at hcommit
      obtain ⟨s1, hdes, hres⟩ := Option.bind_eq_some_iff.mp hcommit
      cases hres
      exact ⟨rfl, Or.inr ⟨v, rfl, hdes⟩⟩
  | delete =>
    rw [htype] at hcommit
    cases hcommit
    exact ⟨rfl, Or.inl rfl⟩
  | modify =>
    rw [htype] at hcommit
    cases hcommit
    exact ⟨rfl, Or.inl rfl⟩

/-! ## Rules that are no victims -/

/-- `Q` survives the destruction of the shadow of any rule but the one at `a` that is in no
table. -/
def Survives (Q : Enclave → Prop) (a : UtAddr) : Prop :=
  ∀ s s' v, BridgeOk (fun _ => True) s → s.Live v → (∀ i, ¬ s.Installed i v) → v ≠ a →
    ecallClsRuleDestroy s v = some s' → Q s → Q s'

/-- `Q` holds of the enclave, and the rule at `a` is no victim of the operations `W`. -/
structure Ofproto.Spared (Q : Enclave → Prop) (a : UtAddr) (o : Ofproto) (W : List OpId) :
    Prop where
  holds : Q o.enclave
  victim : a ∉ o.victims W

theorem completeOp_spared {Q : Enclave → Prop} (hQ : Survives Q a) (h : SaneWith (k :: W) o)
    (hs : completeOp isHidden o k = some o') (ha : o.Spared Q a (k :: W)) : o'.Spared Q a W := by
  obtain ⟨hop, henc⟩ := completeOp_enclave (h.inFlight.error k (List.mem_cons_self ..)) hs
  constructor
  · obtain henc | ⟨v, hv, hdes⟩ := henc
    · rw [henc]
      exact ha.holds
    · have hmem : v ∈ o.victims (k :: W) :=
        List.mem_filterMap.mpr ⟨k, List.mem_cons_self .., hv⟩
      have hdisp := h.inFlight.victim v hmem
      have hne : v ≠ a := fun heq => ha.victim (heq ▸ hmem)
      exact hQ _ _ v h.enclave hdisp.live hdisp.installed hne hdes ha.holds
  · intro hv
    unfold Ofproto.victims at hv
    rw [hop] at hv
    exact ha.victim (victims_subset (List.subset_cons_self k W) hv)

theorem spared_invariant {Q : Enclave → Prop} (hQ : Survives Q a) :
    BridgeInvariant fun W o => o.Spared Q a W where
  complete h hs ha := completeOp_spared hQ h (completeOpWith_fst hs).1 ha
  fewer hsub h := ⟨h.holds, fun hv => h.victim (victims_subset hsub.subset hv)⟩
  congr {W o o' _} henc _ hop h := by
    have hvic : o'.victims W = o.victims W := List.filterMap_congr fun k _ => (hop k).2.2
    exact ⟨by rw [henc]; exact h.holds, by rw [hvic]; exact h.victim⟩

end Completions

end OvsSgx
