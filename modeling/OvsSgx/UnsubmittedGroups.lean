/-
OvsSgx.UnsubmittedGroups — operations up to the submission of their group.

Until a group is submitted its operations are created and may be completed
one by one, which reaches neither into the enclave nor into the other
groups. Its submission may complete the group. Unless an operation has
failed this destroys the shadows of victims, and nothing else in the enclave
changes.
-/
import OvsSgx.CompletionFrames

namespace OvsSgx

/-! ## Destroying shadows -/

/-- Nothing of the enclave has changed but which shadows there are. -/
def OnlyShadows (s s' : Enclave) : Prop := s' = { s with clsRules := s'.clsRules }

section OnlyShadows

variable {s s' s'' : Enclave}

theorem OnlyShadows.refl (s : Enclave) : OnlyShadows s s := rfl

theorem OnlyShadows.trans (h : OnlyShadows s s') (h' : OnlyShadows s' s'') :
    OnlyShadows s s'' := by
  unfold OnlyShadows at h h' ⊢
  calc s'' = { s' with clsRules := s''.clsRules } := h'
    _ = { s with clsRules := s''.clsRules } := by rw [h]

theorem OnlyShadows.oftable (h : OnlyShadows s s') : s'.oftable = s.oftable := by
  unfold OnlyShadows at h
  rw [h]

theorem ecallClsRuleDestroy_onlyShadows {a : UtAddr} (hs : ecallClsRuleDestroy s a = some s') :
    OnlyShadows s s' := by
  simp only [ecallClsRuleDestroy, nodeDelete, Option.bind_eq_bind, Option.bind_eq_some_iff] at hs
  obtain ⟨r, -, q, -, hs⟩ := hs
  cases hs
  rfl

end OnlyShadows

/-! ## A group that is not submitted -/

/-- Group `g` is not submitted, and no operation in it has failed. -/
structure Unsubmitted (g : GroupId) (o : Ofproto) : Prop where
  pending : g ∉ o.pending
  error : ∀ k ∈ (o.group g).ops, (o.op k).error = none

section Unsubmitted

variable {o o' : Ofproto} {g : GroupId} {a : UtAddr} {k : OpId} {isHidden : Bool}

theorem ofopgroupCreate_unsubmitted (h : Sane o) :
    Unsubmitted o.nextGroup (ofopgroupCreate o).1 :=
  ⟨fun hmem => Nat.lt_irrefl _ (h.groups _ hmem), by simp [ofopgroupCreate]⟩

/-- A new operation of the group is pending on its rule. -/
theorem ofoperationCreate_unsubmitted {type : OfoperationType} {hashes : Option U32}
    (h : Unsubmitted g o) (hs : ofoperationCreate o g a type hashes = some (o', k)) :
    Unsubmitted g o' ∧ o'.enclave = o.enclave ∧
      (∀ b, (o'.rule b).tableId = (o.rule b).tableId) ∧
      (o'.rule a).pending = some k ∧ (o'.op k).group = g := by
  obtain ⟨hash, rfl, rfl⟩ := ofoperationCreate_some hs
  refine ⟨⟨h.pending, fun j hj => ?_⟩, rfl, fun b => (setPending_rule o a b _).1, ?_, ?_⟩
  · show (Function.update o.op o.nextOp _ j).error = none
    rcases eq_or_ne j o.nextOp with rfl | hne
    · rw [Function.update_self]
    · rw [Function.update_of_ne hne]
      refine h.error j ?_
      simpa [Ofproto.addOperation, hne] using hj
  · simp [Ofproto.addOperation, Ofproto.setPending]
  · simp [Ofproto.addOperation]

/-- A group of deletions that nothing has been told about. -/
theorem Unsubmitted.of_deletions {l : List (UtAddr × U32)} (hg : g ∉ o.pending)
    (hops : (o.group g).ops.map o.op = l.map (deletionOp g)) : Unsubmitted g o := by
  refine ⟨hg, fun k hk => ?_⟩
  have hop : o.op k ∈ l.map (deletionOp g) := by
    rw [← hops]
    exact List.mem_map_of_mem hk
  obtain ⟨e, -, he⟩ := List.mem_map.mp hop
  rw [← he]
  rfl

/-- The deletions that the first loop of `ofproto_evict` creates. -/
theorem OpsCreated.unsubmitted {l : List (UtAddr × U32)} (hcr : OpsCreated g o o' l)
    (hg : g ∉ o.pending) (hempty : (o.group g).ops = []) : Unsubmitted g o' := by
  have hops : (o'.group g).ops.map o'.op = l.map (deletionOp g) := by
    rw [hcr.ops, hempty, List.nil_append]
    exact hcr.newOps
  exact .of_deletions (by rw [hcr.pending]; exact hg) hops

/-- The deletions that have been started in a new group. -/
theorem OpsStarted.unsubmitted {l : List (UtAddr × U32)} (hst : OpsStarted g o o' l)
    (hg : g ∉ o.pending) (hempty : (o.group g).ops = []) : Unsubmitted g o' := by
  have hops : (o'.group g).ops.map o'.op = l.map (deletionOp g) := by
    rw [hst.ops, hempty, List.nil_append]
    exact hst.newOps
  exact .of_deletions (by rw [hst.pending]; exact hg) hops

/-- Completing an operation of the group leaves the enclave and the rules alone. -/
theorem completeOperation_unsubmitted (h : Unsubmitted g o) (hp : (o.rule a).pending = some k)
    (hk : (o.op k).group = g) (hs : completeOperation o a = some o') :
    Unsubmitted g o' ∧ o'.enclave = o.enclave ∧ o'.rule = o.rule ∧
      ∀ j, (o'.op j).group = (o.op j).group := by
  rw [completeOperation, hp, Option.bind_eq_bind, Option.bind_some] at hs
  split at hs
  · cases hs
    exact ⟨⟨h.pending, h.error⟩, rfl, rfl, fun _ => rfl⟩
  · unfold ofoperationComplete at hs
    dsimp only at hs
    split at hs
    · rw [if_neg (fun hlast => h.pending (hk ▸ hlast.2))] at hs
      cases hs
      refine ⟨⟨h.pending, fun j hj => ?_⟩, rfl, rfl, fun j => ?_⟩
      · show (Function.update o.op k _ j).error = none
        rcases eq_or_ne j k with rfl | hne
        · rw [Function.update_self]
        · rw [Function.update_of_ne hne]
          refine h.error j ?_
          simpa [hk] using hj
      · show (Function.update o.op k _ j).group = _
        rcases eq_or_ne j k with rfl | hne
        · rw [Function.update_self]
        · rw [Function.update_of_ne hne]
    · cases hs

/-- Completing an operation that has not failed destroys a shadow at most. -/
theorem completeOp_onlyShadows (herr : (o.op k).error = none)
    (hs : completeOp isHidden o k = some o') :
    OnlyShadows o.enclave o'.enclave ∧ o'.op = o.op := by
  obtain ⟨hop, henc⟩ := completeOp_enclave herr hs
  refine ⟨?_, hop⟩
  obtain henc | ⟨v, -, hdes⟩ := henc
  · rw [henc]
    exact OnlyShadows.refl _
  · exact ecallClsRuleDestroy_onlyShadows hdes

theorem foldlM_completeOp_onlyShadows {ks : List OpId} : ∀ {o : Ofproto},
    (∀ k ∈ ks, (o.op k).error = none) → ks.foldlM (completeOp isHidden) o = some o' →
    OnlyShadows o.enclave o'.enclave := by
  induction ks with
  | nil =>
    intro o _ hs
    cases hs
    exact OnlyShadows.refl _
  | cons k ks ih =>
    intro o herr hs
    rw [List.foldlM_cons, Option.bind_eq_bind, Option.bind_eq_some_iff] at hs
    obtain ⟨o1, h1, h2⟩ := hs
    obtain ⟨hfirst, hop⟩ := completeOp_onlyShadows (herr k (List.mem_cons_self ..)) h1
    exact hfirst.trans (ih (fun j hj => by rw [hop]; exact herr j (List.mem_cons_of_mem _ hj)) h2)

/-- Submitting the group destroys shadows at most. -/
theorem Unsubmitted.submit (h : Unsubmitted g o) (hs : ofopgroupSubmit o g isHidden = some o') :
    OnlyShadows o.enclave o'.enclave := by
  unfold ofopgroupSubmit at hs
  split at hs
  · obtain ⟨o1, hfold, hres⟩ := Option.bind_eq_some_iff.mp hs
    cases hres
    exact (foldlM_completeOp_onlyShadows h.error hfold : OnlyShadows o.enclave o1.enclave)
  · cases hs
    exact OnlyShadows.refl _

/-- So do the deferred completions. -/
theorem completeOperations_onlyShadows (h : Sane o) (hs : completeOperations o = some o') :
    OnlyShadows o.enclave o'.enclave := by
  have hI : BridgeInvariant fun _ o1 => OnlyShadows o.enclave o1.enclave :=
    { complete := fun h hs hi => hi.trans (completeOp_onlyShadows
        (h.inFlight.error _ (List.mem_cons_self ..)) (completeOpWith_fst hs).1).1
      fewer := fun _ hi => hi
      congr := fun henc _ _ hi => (congrArg (OnlyShadows o.enclave) henc).mpr hi }
  exact BridgeInvariant.operations hI h hs (OnlyShadows.refl _)

end Unsubmitted

end OvsSgx
