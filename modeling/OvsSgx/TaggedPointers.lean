/-
OvsSgx.TaggedPointers — recording subtables anew, rule by rule.

After a bulk removal the rules that are out of their tables are destructed
one after the other. `rule_destruct` first revalidates the facets of its
rule and then has the subtables of the rule's table recorded anew, so what
is translated for a rule finds the tables of the rules before it refreshed
and no others. Until the group of the deletions is submitted, and also when
it is, the classifiers stay as they are.
-/
import OvsSgx.UnsubmittedGroups
import OvsSgx.TaggedOfproto
import OvsSgx.SubtableLifetime

namespace OvsSgx

/-! ## What is recorded -/

/-- The subtables recorded for table `i` are in its classifier. -/
def TagView.LiveAt (v : TagView) (i : Nat) : Prop :=
  ∀ t, v.Recorded i t → t ∈ (v.cls i).tables.values

/-- The recorded subtables have the masks that they had then. -/
def TagView.MasksKept (v : TagView) : Prop :=
  ∀ i t, v.Recorded i t → ((v.cls i).table t).mask = v.recordedMask i t

theorem TagView.pointersLive_iff {v : TagView} :
    v.PointersLive ↔ (∀ i, v.LiveAt i) ∧ v.MasksKept :=
  ⟨fun h => ⟨fun i t ht => (h i t ht).1, fun i t ht => (h i t ht).2⟩,
    fun h i t ht => ⟨h.1 i t ht, h.2 i t ht⟩⟩

/-- There is a translation for a rule before its table is refreshed. -/
def Translations.looks (tags : Translations) (a : UtAddr) : Bool := tags.removed a || tags.facets a

namespace TaggedOfproto

variable {s s' : TaggedOfproto} {i j : Nat} {a : UtAddr}

theorem updateTaggable_dpif_ne (h : j ≠ i) : (s.updateTaggable i).dpif j = s.dpif j :=
  ecallOftableUpdateTaggable_ne (s := ⟨s.ofproto.enclave, s.dpif⟩) h

/-- After `rule_invalidate` the subtables of the table are recorded. -/
theorem updateTaggable_liveAt : (s.updateTaggable i).view.LiveAt i := by
  intro t ht
  show t ∈ (s.ofproto.enclave.oftable i).cls.tables.values
  refine taggableTables_mem ?_
  have hrec := (ecallOftableUpdateTaggable_recorded (s := ⟨s.ofproto.enclave, s.dpif⟩) (i := i)).1
  unfold TaggedBridge.Recorded at hrec
  rw [ecallOftableUpdateTaggable_enclave] at hrec
  rw [hrec]
  exact ht

theorem updateTaggable_masksKept (h : s.view.MasksKept) : (s.updateTaggable i).view.MasksKept := by
  intro j t ht
  show ((s.ofproto.enclave.oftable j).cls.table t).mask = (s.updateTaggable i).recordedMask j t
  rcases eq_or_ne j i with rfl | hji
  · simp only [updateTaggable]
    split
    · rw [Function.update_self]
    · rename_i htodo
      have hzero : (ecallOftableUpdateTaggable ⟨s.ofproto.enclave, s.dpif⟩ j).2 = 0 := by
        unfold ecallOftableUpdateTaggable at htodo ⊢
        dsimp only at htodo ⊢
        split at htodo
        · exact absurd rfl htodo
        · rename_i hsame
          rw [if_neg hsame]
      have hsame := (ecallOftableUpdateTaggable_recorded.2 hzero).1
      refine h j t ?_
      have hdpif : (s.updateTaggable j).dpif = s.dpif := congrArg TaggedBridge.dpif hsame
      unfold TagView.Recorded at ht ⊢
      rw [show (s.updateTaggable j).view.dpif = s.dpif from hdpif] at ht
      exact ht
  · have hmask : (s.updateTaggable i).recordedMask j = s.recordedMask j := by
      simp only [updateTaggable]
      split
      · exact Function.update_of_ne hji ..
      · rfl
    rw [hmask]
    refine h j t ?_
    unfold TagView.Recorded at ht ⊢
    rw [show (s.updateTaggable i).view.dpif j = s.dpif j from updateTaggable_dpif_ne hji] at ht
    exact ht

end TaggedOfproto

/-! ## Destructing rules -/

/-- From `v` to `v'` the subtables were recorded anew for the tables of `rules`, and nothing else
has changed. -/
structure Refreshed (table : UtAddr → Nat) (v : TagView) (rules : List UtAddr) (v' : TagView) :
    Prop where
  cls : v'.cls = v.cls
  masks : v'.MasksKept
  updated : ∀ a ∈ rules, v'.LiveAt (table a)
  same : ∀ i, (∀ a ∈ rules, table a ≠ i) → v'.dpif i = v.dpif i

section Refreshed

variable {table : UtAddr → Nat} {v v' v'' : TagView} {L L' : List UtAddr} {i : Nat}

theorem TagView.LiveAt.congr (h : v.LiveAt i) (hcls : v'.cls = v.cls)
    (hdpif : v'.dpif i = v.dpif i) : v'.LiveAt i := by
  intro t ht
  rw [hcls]
  refine h t ?_
  unfold TagView.Recorded at ht ⊢
  rwa [hdpif] at ht

theorem Refreshed.refl (h : v.MasksKept) : Refreshed table v [] v :=
  ⟨rfl, h, by simp, fun _ _ => rfl⟩

theorem Refreshed.trans (h : Refreshed table v L v') (h' : Refreshed table v' L' v'') :
    Refreshed table v (L ++ L') v'' := by
  refine ⟨h'.cls.trans h.cls, h'.masks, fun a ha => ?_, fun i hi => ?_⟩
  · by_cases hlater : ∃ b ∈ L', table b = table a
    · obtain ⟨b, hb, heq⟩ := hlater
      exact heq ▸ h'.updated b hb
    · have hsame := h'.same (table a) fun b hb heq => hlater ⟨b, hb, heq⟩
      rcases List.mem_append.mp ha with ha | ha
      · exact (h.updated a ha).congr h'.cls hsame
      · exact absurd ⟨a, ha, rfl⟩ hlater
  · rw [h'.same i fun a ha => hi a (List.mem_append_right _ ha),
      h.same i fun a ha => hi a (List.mem_append_left _ ha)]

/-- If each stale subtable belongs to a table that has been refreshed, none is stale. -/
theorem Refreshed.pointersLive (h : Refreshed table v L v')
    (hstale : ∀ i t, v.Recorded i t → t ∉ (v.cls i).tables.values → ∃ a ∈ L, table a = i) :
    v'.PointersLive := by
  refine TagView.pointersLive_iff.mpr ⟨fun i t ht => ?_, h.masks⟩
  by_cases hi : ∃ a ∈ L, table a = i
  · obtain ⟨a, ha, rfl⟩ := hi
    exact h.updated a ha t ht
  · have hsame := h.same i fun a ha heq => hi ⟨a, ha, heq⟩
    have hrec : v.Recorded i t := by
      unfold TagView.Recorded at ht ⊢
      rwa [hsame] at ht
    rw [h.cls]
    by_contra hgone
    exact hi (hstale i t hrec hgone)

end Refreshed

/-- The table of a rule. -/
def TaggedOfproto.tableOf (s : TaggedOfproto) (a : UtAddr) : Nat := (s.ofproto.rule a).tableId

/-- The rules of a list have been destructed, one after the other: what is translated for a rule
finds the tables of the rules before it refreshed. -/
structure Destructed (looks : UtAddr → Bool) (s s' : TaggedOfproto) (rules : List UtAddr) :
    Prop where
  refreshed : Refreshed s.tableOf s.view rules s'.view
  tableOf : s'.tableOf = s.tableOf
  consults : ∀ v ∈ s'.consults, v ∈ s.consults ∨ ∃ before a, before ++ [a] <+: rules ∧
    looks a = true ∧ Refreshed s.tableOf s.view before v

section Destructed

variable {s s' s1 : TaggedOfproto} {tags : Translations} {looks : UtAddr → Bool} {a : UtAddr}
  {L : List UtAddr} {g : GroupId}

theorem Destructed.nil (h : s.view.MasksKept) : Destructed looks s s [] :=
  ⟨Refreshed.refl h, rfl, fun _ hv => .inl hv⟩

theorem Destructed.cons (h : Destructed looks s s1 [a]) (h' : Destructed looks s1 s' L) :
    Destructed looks s s' (a :: L) := by
  have href := h'.refreshed
  have hcons := h'.consults
  rw [h.tableOf] at href hcons
  refine ⟨h.refreshed.trans href, h'.tableOf.trans h.tableOf, fun v hv => ?_⟩
  rcases hcons v hv with hv | ⟨before, b, hpre, hb, hv⟩
  · rcases h.consults v hv with hv | ⟨before, b, hpre, hb, hv⟩
    · exact .inl hv
    · exact .inr ⟨before, b, hpre.trans (List.prefix_append [a] L), hb, hv⟩
  · exact .inr ⟨a :: before, b, List.cons_prefix_cons.mpr ⟨rfl, hpre⟩, hb, h.refreshed.trans hv⟩

/-- One rule is destructed, in a step that leaves the tables of the bridge alone. -/
theorem destructed_single {o : Ofproto} (hm : s.view.MasksKept)
    (htables : o.enclave.oftable = s.ofproto.enclave.oftable)
    (hrule : ∀ b, (o.rule b).tableId = s.tableOf b) :
    Destructed looks s { s.updateTaggable (s.tableOf a) with
      ofproto := o
      consults := s.consults ++ if looks a then [s.view] else [] } [a] := by
  have hcls : (fun i => (o.enclave.oftable i).cls) = s.view.cls := by
    rw [htables]
    rfl
  refine ⟨⟨hcls, ?_, fun b hb => ?_, fun i hi => ?_⟩, funext hrule, fun v hv => ?_⟩
  · intro i t ht
    show ((o.enclave.oftable i).cls.table t).mask = _
    rw [htables]
    exact TaggedOfproto.updateTaggable_masksKept hm i t ht
  · rw [List.mem_singleton.mp hb]
    exact TagView.LiveAt.congr TaggedOfproto.updateTaggable_liveAt hcls rfl
  · exact TaggedOfproto.updateTaggable_dpif_ne (hi a (List.mem_singleton.mpr rfl)).symm
  · rcases List.mem_append.mp hv with hv | hv
    · exact .inl hv
    · by_cases hf : looks a = true
      · rw [if_pos hf, List.mem_singleton] at hv
        subst hv
        exact .inr ⟨[], a, List.prefix_rfl, hf, Refreshed.refl hm⟩
      · rw [if_neg hf] at hv
        cases hv

/-- The table of a rule is refreshed without a consultation. -/
theorem refreshed_updateTaggable (hm : s.view.MasksKept) (a : UtAddr) :
    Refreshed s.tableOf s.view [a] (s.updateTaggable (s.tableOf a)).view := by
  have hd : Destructed (fun _ => false) s { s.updateTaggable (s.tableOf a) with
      ofproto := s.ofproto
      consults := s.consults ++ if false then [s.view] else [] } [a] :=
    destructed_single hm rfl fun _ => rfl
  exact hd.refreshed

/-- `complete_operation` on a rule whose operation is in a group that is not submitted. -/
theorem TaggedOfproto.completeOperation_some {k : OpId} (h : Unsubmitted g s.ofproto)
    (hp : (s.ofproto.rule a).pending = some k) (hk : (s.ofproto.op k).group = g)
    (hs : s.completeOperation a = some s') :
    ∃ o, s' = (s.updateTaggable (s.tableOf a)).withOfproto o ∧ Unsubmitted g o ∧
      o.enclave = s.ofproto.enclave ∧ o.rule = s.ofproto.rule ∧
      ∀ j, (o.op j).group = (s.ofproto.op j).group := by
  obtain ⟨o, hcomp, rfl⟩ := Option.map_eq_some_iff.mp hs
  exact ⟨o, rfl, completeOperation_unsubmitted h hp hk hcomp⟩

/-- `rule_destruct` on such a rule. -/
theorem TaggedOfproto.ruleDestruct_some {k : OpId} (h : Unsubmitted g s.ofproto)
    (hm : s.view.MasksKept) (hp : (s.ofproto.rule a).pending = some k)
    (hk : (s.ofproto.op k).group = g) (hs : s.ruleDestruct tags a = some s') :
    Destructed tags.facets s s' [a] ∧ Unsubmitted g s'.ofproto ∧
      s'.ofproto.enclave = s.ofproto.enclave ∧ s'.ofproto.rule = s.ofproto.rule ∧
      ∀ j, (s'.ofproto.op j).group = (s.ofproto.op j).group := by
  have hstart : ∃ s0 : TaggedOfproto, s0.completeOperation a = some s' ∧
      s0.ofproto = { s.ofproto with log := s.ofproto.log ++ [.destruct a] } ∧
      s0.dpif = s.dpif ∧ s0.recordedMask = s.recordedMask ∧
      s0.consults = s.consults ++ if tags.facets a then [s.view] else [] := by
    refine ⟨_, hs, ?_, ?_, ?_, ?_⟩
    all_goals
      cases tags.facets a <;>
        simp [TaggedOfproto.withOfproto, TaggedOfproto.consultIf, TaggedOfproto.consult]
  obtain ⟨s0, hcomp, ho, hdpif, hmask, hcons⟩ := hstart
  obtain ⟨o, rfl, hun, henc, hrule, hop⟩ := TaggedOfproto.completeOperation_some (g := g) (s := s0)
    (by rw [ho]; exact ⟨h.pending, h.error⟩) (by rw [ho]; exact hp) (by rw [ho]; exact hk) hcomp
  rw [ho] at henc hrule hop
  refine ⟨?_, hun, henc, hrule, hop⟩
  have hres : (s0.updateTaggable (s0.tableOf a)).withOfproto o
      = { s.updateTaggable (s.tableOf a) with
        ofproto := o
        consults := s.consults ++ if tags.facets a then [s.view] else [] } := by
    obtain ⟨o0, d0, m0, c0⟩ := s0
    dsimp only at ho hdpif hmask hcons
    subst ho hdpif hmask hcons
    rfl
  rw [hres]
  exact destructed_single hm (by rw [henc]) fun b => by rw [hrule]; rfl

@[simp] theorem TaggedOfproto.consultIf_view (translated : Bool) :
    (s.consultIf translated).view = s.view := by
  cases translated <;> rfl

@[simp] theorem TaggedOfproto.consultIf_tableOf (translated : Bool) :
    (s.consultIf translated).tableOf = s.tableOf := by
  cases translated <;> rfl

theorem TaggedOfproto.mem_consultIf {translated : Bool} {v : TagView}
    (hv : v ∈ (s.consultIf translated).consults) :
    v ∈ s.consults ∨ translated = true ∧ v = s.view := by
  cases translated with
  | false => exact .inl hv
  | true =>
    rcases List.mem_append.mp hv with hv | hv
    · exact .inl hv
    · exact .inr ⟨rfl, List.mem_singleton.mp hv⟩

/-- A deletion is started. -/
theorem TaggedOfproto.startDeletion_some {e : UtAddr × U32} (h : Unsubmitted g s.ofproto)
    (hm : s.view.MasksKept) (hs : s.startDeletion tags g e = some s') :
    Destructed tags.looks s s' [e.1] ∧ Unsubmitted g s'.ofproto := by
  let s0 := s.consultIf (tags.removed e.1)
  have ho : s0.ofproto = s.ofproto := s.consultIf_ofproto _
  have hview0 : s0.view = s.view := TaggedOfproto.consultIf_view _
  have htables0 : s0.tableOf = s.tableOf := TaggedOfproto.consultIf_tableOf _
  obtain ⟨⟨o, k⟩, hcreate, hs⟩ := Option.bind_eq_some_iff.mp hs
  obtain ⟨hun, henc, htable, hp, hk⟩ := ofoperationCreate_unsubmitted (ho ▸ h) hcreate
  let s1 := s0.withOfproto (o.unlinkExpirable e.1)
  have hview : s1.view = s.view := by
    rw [← hview0]
    show (⟨fun i => (o.enclave.oftable i).cls, s0.dpif, s0.recordedMask⟩ : TagView) = s0.view
    rw [henc]
    rfl
  have htables : s1.tableOf = s.tableOf := (show s1.tableOf = s0.tableOf from
    funext htable).trans htables0
  obtain ⟨hd, hun', -⟩ := TaggedOfproto.ruleDestruct_some (s := s1) (g := g)
    ⟨hun.pending, hun.error⟩ (by rw [hview]; exact hm) hp hk hs
  have href := hd.refreshed
  have hcons := hd.consults
  rw [hview, htables] at href hcons
  refine ⟨⟨href, by rw [← htables]; exact hd.tableOf, fun v hv => ?_⟩, hun'⟩
  rcases hcons v hv with hv | ⟨before, b, hpre, hb, hv⟩
  · -- the message about the rule is sent before anything is refreshed
    rcases TaggedOfproto.mem_consultIf hv with hv | ⟨hsent, rfl⟩
    · exact .inl hv
    · exact .inr ⟨[], e.1, List.prefix_rfl, by simp [Translations.looks, hsent],
        Refreshed.refl hm⟩
  · exact .inr ⟨before, b, hpre, by simp [Translations.looks, hb], hv⟩

theorem TaggedOfproto.foldlM_startDeletion_destructed {l : List (UtAddr × U32)} :
    ∀ {s : TaggedOfproto}, Unsubmitted g s.ofproto → s.view.MasksKept →
    l.foldlM (startDeletion tags g) s = some s' →
    Destructed tags.looks s s' (l.map Prod.fst) ∧ Unsubmitted g s'.ofproto := by
  induction l with
  | nil =>
    intro s h hm hs
    cases hs
    exact ⟨Destructed.nil hm, h⟩
  | cons e l ih =>
    intro s h hm hs
    rw [List.foldlM_cons, Option.bind_eq_bind, Option.bind_eq_some_iff] at hs
    obtain ⟨s1, h1, h2⟩ := hs
    obtain ⟨hd1, hun1⟩ := TaggedOfproto.startDeletion_some h hm h1
    obtain ⟨hd2, hun2⟩ := ih hun1 hd1.refreshed.masks h2
    exact ⟨hd1.cons hd2, hun2⟩

/-- The second loop of `ofproto_evict`, on rules whose deletions `ks` are in the group. -/
theorem TaggedOfproto.foldlM_ruleDestruct_destructed {L : List UtAddr} :
    ∀ {ks : List OpId} {s : TaggedOfproto}, Unsubmitted g s.ofproto → s.view.MasksKept →
    List.Forall₂ (fun a k => (s.ofproto.rule a).pending = some k ∧ (s.ofproto.op k).group = g) L ks →
    L.foldlM (fun s a => (s.withOfproto (s.ofproto.unlinkExpirable a)).ruleDestruct tags a) s
      = some s' →
    Destructed tags.facets s s' L ∧ Unsubmitted g s'.ofproto := by
  induction L with
  | nil =>
    intro ks s h hm _ hs
    cases hs
    exact ⟨Destructed.nil hm, h⟩
  | cons a L ih =>
    intro ks s h hm hpend hs
    rw [List.foldlM_cons, Option.bind_eq_bind, Option.bind_eq_some_iff] at hs
    obtain ⟨s1, h1, h2⟩ := hs
    cases hpend with
    | cons hk hrest =>
      obtain ⟨hd1, hun1, -, hrule, hop⟩ := TaggedOfproto.ruleDestruct_some
        (s := s.withOfproto (s.ofproto.unlinkExpirable a)) (g := g) ⟨h.pending, h.error⟩ hm
        hk.1 hk.2 h1
      have hrest1 := hrest.imp fun b j hj =>
        show (s1.ofproto.rule b).pending = some j ∧ (s1.ofproto.op j).group = g by
          rw [hrule, hop]
          exact hj
      obtain ⟨hd2, hun2⟩ := ih hun1 hd1.refreshed.masks hrest1 h2
      have hd1' : Destructed tags.facets s s1 [a] := ⟨hd1.refreshed, hd1.tableOf, hd1.consults⟩
      exact ⟨hd1'.cons hd2, hun2⟩

end Destructed

end OvsSgx
