/-
OvsSgx.OfprotoInvariant — what every state of a bridge keeps.

The enclave is seen here by addresses only: which rules are installed in
which table and which are live. The invariant `SaneWith W` ties the memory
of the rules and the list `expirable` to that, and says of the operations
`W` that are still to be completed that their victims are out of the tables
and all different. Completing an operation keeps it.
-/
import OvsSgx.OfprotoTheorems
import OvsSgx.AddFlowTheorems

namespace OvsSgx

/-! ## The enclave by addresses -/

/-- What a call has made of the bridge `s`: the rules that are then installed and the rules
that are then live. -/
structure Outcome (s s' : Enclave) (installed : Nat → UtAddr → Prop) (live : UtAddr → Prop) :
    Prop where
  ok : BridgeOk (fun _ => True) s'
  nTables : s'.nTables = s.nTables
  installed : ∀ j a, s'.Installed j a ↔ installed j a
  live : ∀ a, s'.Live a ↔ live a

/-- The enclave without the shadow of rule `r`. -/
def Enclave.without (s : Enclave) (r : RuleId) : Enclave :=
  { s with clsRules := hmapRemove s.clsRules r (addrHash (s.oClsRule r)) }

section Addresses

variable {P : Match → Prop} {s s' : Enclave} {i : Nat} {a : UtAddr} {r : RuleId} {T : List RuleId}

theorem EnclaveOk.installed_self (h : EnclaveOk P s) (hr : r ∈ s.rules i) :
    s.Installed i (s.oClsRule r) :=
  ⟨r, h.live i r hr, rfl, hr⟩

theorem ShadowsOk.eq_of_oClsRule (h : ShadowsOk s) {q : RuleId} (hr : s.LiveRule r)
    (hq : s.LiveRule q) (heq : s.oClsRule r = s.oClsRule q) : r = q :=
  h.inj hr hq (by rw [heq])

theorem Enclave.Installed.live (h : s.Installed i a) : s.Live a := by
  obtain ⟨r, hlive, rfl, -⟩ := h
  exact ⟨r, hlive, rfl⟩

/-- Taking rules out of their tables. -/
theorem Cleared.outcome (h : BridgeOk (fun _ => True) s) (hcl : Cleared (fun _ => True) s s' T)
    (hT : ∀ t ∈ T, s.LiveRule t) :
    Outcome s s' (fun j b => s.Installed j b ∧ b ∉ T.map s.oClsRule) s.Live := by
  refine ⟨hcl.ok, hcl.nTables, fun j b => ?_, fun b => ?_⟩
  · constructor
    · rintro ⟨q, hq, rfl, hmem⟩
      rw [hcl.liveRule] at hq
      rw [hcl.oClsRule]
      obtain ⟨hmem, hqT⟩ := hcl.mem_rules.mp hmem
      refine ⟨⟨q, hq, rfl, hmem⟩, fun hb => hqT ?_⟩
      obtain ⟨t, ht, heq⟩ := List.mem_map.mp hb
      rwa [← h.shadows.eq_of_oClsRule (hT t ht) hq heq]
    · rintro ⟨⟨q, hq, rfl, hmem⟩, hb⟩
      refine ⟨q, hcl.liveRule.mpr hq, by rw [hcl.oClsRule], hcl.mem_rules.mpr ⟨hmem, fun hqT => ?_⟩⟩
      exact hb (List.mem_map_of_mem hqT)
  · simp only [Enclave.Live, hcl.liveRule, hcl.oClsRule]

/-- Destroying a shadow that is installed nowhere. -/
theorem without_outcome (h : BridgeOk (fun _ => True) s) (hr : s.LiveRule r)
    (hnot : ∀ i, r ∉ s.rules i) :
    Outcome s (s.without r) s.Installed fun b => s.Live b ∧ b ≠ s.oClsRule r := by
  have hlive : ∀ q, (s.without r).LiveRule q ↔ q ≠ r ∧ s.LiveRule q := fun q =>
    destroy_liveRule h.shadows hr
  refine ⟨destroy_bridge h hr hnot, rfl, fun j b => ?_, fun b => ?_⟩
  · constructor
    · rintro ⟨q, hq, hb, hmem⟩
      exact ⟨q, ((hlive q).mp hq).2, hb, hmem⟩
    · rintro ⟨q, hq, hb, hmem⟩
      exact ⟨q, (hlive q).mpr ⟨ne_of_mem_of_not_mem hmem (hnot j), hq⟩, hb, hmem⟩
  · constructor
    · rintro ⟨q, hq, rfl⟩
      obtain ⟨hne, hq⟩ := (hlive q).mp hq
      exact ⟨⟨q, hq, rfl⟩, fun heq => hne (h.shadows.eq_of_oClsRule hq hr heq)⟩
    · rintro ⟨⟨q, hq, rfl⟩, hne⟩
      refine ⟨q, (hlive q).mpr ⟨?_, hq⟩, rfl⟩
      rintro rfl
      exact hne rfl

theorem ecallClsRuleDestroy_without (h : ShadowsOk s) (hlook : sgxRuleFromUtCr s a = some r) :
    ecallClsRuleDestroy s a = some (s.without r) := by
  have hself := h.lookup_self (h.live_of_lookup hlook)
  have hdes : ecallClsRuleDestroy s a = ecallClsRuleDestroy s (s.oClsRule r) := by
    simp only [ecallClsRuleDestroy, hlook, hself]
  rw [hdes, ecallClsRuleDestroy_eq h (h.live_of_lookup hlook)]
  rfl

/-- The same by the address of the rule. -/
theorem ecallClsRuleDestroy_outcome (h : BridgeOk (fun _ => True) s) (hlive : s.Live a)
    (hnot : ∀ i, ¬ s.Installed i a) :
    ∃ s', ecallClsRuleDestroy s a = some s' ∧
      Outcome s s' s.Installed fun b => s.Live b ∧ b ≠ a := by
  obtain ⟨r, hr, rfl⟩ := hlive
  exact ⟨_, ecallClsRuleDestroy_without h.shadows (h.shadows.lookup_self hr),
    without_outcome h hr fun i hmem => hnot i ⟨r, hr, rfl, hmem⟩⟩

end Addresses

/-! ## The invariant -/

/-- The operations of the submitted groups. -/
def Ofproto.waiting (o : Ofproto) : List OpId := o.pending.flatMap fun g => (o.group g).ops

/-- The victims of the operations `W`. -/
def Ofproto.victims (o : Ofproto) (W : List OpId) : List UtAddr :=
  W.filterMap fun k => (o.op k).victim

/-- The rule at address `a` is live, but in no table and not on the list `expirable`. -/
structure Ofproto.Displaced (o : Ofproto) (a : UtAddr) : Prop where
  live : o.enclave.Live a
  installed : ∀ i, ¬ o.enclave.Installed i a
  expirable : a ∉ o.expirable

/-- The operations `W` can be completed: their victims are displaced and all different. -/
structure InFlight (o : Ofproto) (W : List OpId) : Prop where
  lt : ∀ k ∈ W, k < o.nextOp
  error : ∀ k ∈ W, (o.op k).error = none
  nodup : (o.victims W).Nodup
  victim : ∀ a ∈ o.victims W, o.Displaced a

/-- The invariant of a bridge with the operations `W` still to be completed. -/
structure SaneWith (W : List OpId) (o : Ofproto) : Prop where
  enclave : BridgeOk (fun _ => True) o.enclave
  nTables : 0 < o.nTables
  enclaveTables : o.enclave.nTables = o.nTables
  tableId : ∀ i a, o.enclave.Installed i a → i < o.nTables ∧ (o.rule a).tableId = i
  expirable : o.expirable.Nodup
  onList : ∀ a ∈ o.expirable, o.enclave.Live a
  groups : ∀ g ∈ o.pending, g < o.nextGroup
  inFlight : InFlight o W

/-- The invariant between two calls: all operations are in submitted groups. -/
def Sane (o : Ofproto) : Prop := SaneWith o.waiting o

/-- The shadows in the enclave are those of the rules in memory. -/
structure Tracks (o : Ofproto) : Prop where
  live : ∀ a, o.enclave.Live a ↔ a ∈ o.allocated
  nodup : o.allocated.Nodup

section Invariant

variable {o o' : Ofproto} {W W' : List OpId} {a : UtAddr} {k : OpId} {g : GroupId}

theorem InFlight.subperm (h : InFlight o W) (hsub : W'.Subperm W) : InFlight o W' := by
  obtain ⟨l, hperm, hl⟩ := hsub
  have hmem : ∀ k ∈ W', k ∈ W := fun k hk => hl.subset (hperm.symm.subset hk)
  have hvic : (o.victims W').Subperm (o.victims W) :=
    ⟨o.victims l, hperm.filterMap _, hl.filterMap _⟩
  refine ⟨fun k hk => h.lt k (hmem k hk), fun k hk => h.error k (hmem k hk), ?_,
    fun a ha => h.victim a (hvic.subset ha)⟩
  exact (hperm.filterMap _).nodup_iff.mp (h.nodup.sublist (hl.filterMap _))

theorem SaneWith.subperm (h : SaneWith W o) (hsub : W'.Subperm W) : SaneWith W' o :=
  { h with inFlight := h.inFlight.subperm hsub }

/-- The invariant reads little of the operations. -/
theorem SaneWith.congr (h : SaneWith W o) (henc : o'.enclave = o.enclave)
    (hn : o'.nTables = o.nTables) (htable : ∀ a, (o'.rule a).tableId = (o.rule a).tableId)
    (hexp : o'.expirable = o.expirable) (hlt : o.nextOp ≤ o'.nextOp)
    (hop : ∀ k ∈ W, (o'.op k).victim = (o.op k).victim ∧ (o'.op k).error = none)
    (hgroups : ∀ g ∈ o'.pending, g < o'.nextGroup) : SaneWith W o' := by
  have hvic : o'.victims W = o.victims W := List.filterMap_congr fun k hk => (hop k hk).1
  obtain ⟨h1, h2, h3, h4, h5, h6, -, h8⟩ := h
  refine ⟨henc ▸ h1, hn ▸ h2, by rw [henc, hn]; exact h3, fun i a ha => ?_, hexp ▸ h5, ?_, hgroups,
    fun k hk => Nat.lt_of_lt_of_le (h8.lt k hk) hlt, fun k hk => (hop k hk).2, hvic ▸ h8.nodup,
    fun a ha => ?_⟩
  · rw [hn, htable]
    exact h4 i a (henc ▸ ha)
  · rw [hexp, henc]
    exact h6
  · obtain ⟨b1, b2, b3⟩ := h8.victim a (hvic ▸ ha)
    exact ⟨henc ▸ b1, henc ▸ b2, hexp ▸ b3⟩

/-- Memory that is new to the enclave is not on the list `expirable`. -/
theorem SaneWith.not_expirable (h : SaneWith W o) (hnew : o.enclave.NewAddr a) :
    a ∉ o.expirable :=
  fun ha => hnew a (h.onList a ha) rfl

end Invariant

/-! ## Completing operations -/

/-- Operations have been completed: what they leave as it was, and groups only lose
operations. -/
structure OpsDone (o o' : Ofproto) : Prop where
  nTables : o'.nTables = o.nTables
  tableId : ∀ a, (o'.rule a).tableId = (o.rule a).tableId
  expirable : o'.expirable = o.expirable
  op : o'.op = o.op
  nextOp : o'.nextOp = o.nextOp
  nextGroup : o'.nextGroup = o.nextGroup
  pending : o'.pending = o.pending
  group : ∀ g, (o'.group g).ops.Sublist (o.group g).ops

section Complete

variable {o o' : Ofproto} {W W' : List OpId} {a : UtAddr} {k : OpId} {g : GroupId} {isHidden : Bool}

theorem OpsDone.refl (o : Ofproto) : OpsDone o o :=
  ⟨rfl, fun _ => rfl, rfl, rfl, rfl, rfl, rfl, fun _ => List.Sublist.refl _⟩

theorem OpsDone.trans {o'' : Ofproto} (h : OpsDone o o') (h' : OpsDone o' o'') :
    OpsDone o o'' :=
  ⟨h'.nTables.trans h.nTables, fun a => (h'.tableId a).trans (h.tableId a),
    h'.expirable.trans h.expirable, h'.op.trans h.op, h'.nextOp.trans h.nextOp,
    h'.nextGroup.trans h.nextGroup, h'.pending.trans h.pending,
    fun g => (h'.group g).trans (h.group g)⟩

/-- The operation's own step: an addition destroys the shadow of its victim and frees it, a
deletion frees its rule. -/
theorem commitOperation_spec (h : SaneWith (k :: W) o)
    (hs : commitOperation (o.setPending (o.op k).rule none) (o.op k) = some o') :
    ∃ s' l, o' = { o.setPending (o.op k).rule none with enclave := s', allocated := l } ∧
      Outcome o.enclave s' o.enclave.Installed (fun b => o.enclave.Live b ∧
        ((o.op k).type = .add → (o.op k).victim ≠ some b)) ∧
      ((o.op k).type ≠ .delete → Tracks o → Tracks o') := by
  have herr := h.inFlight.error k (List.mem_cons_self ..)
  have hsame : ∀ live : UtAddr → Prop, (∀ b, o.enclave.Live b ↔ live b) →
      Outcome o.enclave o.enclave o.enclave.Installed live := fun live hlive =>
    ⟨h.enclave, rfl, fun _ _ => Iff.rfl, hlive⟩
  cases htype : (o.op k).type with
  | add =>
    simp only [commitOperation, htype, herr] at hs
    cases hv : (o.op k).victim with
    | none =>
      rw [hv, ofprotoRuleDestroy, Option.some.injEq] at hs
      subst hs
      exact ⟨_, _, rfl, hsame _ (by simp), fun _ ht => ⟨ht.live, ht.nodup⟩⟩
    | some v =>
      have hmem : v ∈ o.victims (k :: W) := by simp [Ofproto.victims, hv]
      obtain ⟨hlive, hnot, -⟩ := h.inFlight.victim v hmem
      obtain ⟨s', hdes, hout⟩ := ecallClsRuleDestroy_outcome h.enclave hlive hnot
      have hres : some (ruleDealloc { o.setPending (o.op k).rule none with enclave := s' } v)
          = some o' := by
        rw [← hs, hv, ofprotoRuleDestroy]
        simp only [Ofproto.setPending, hdes, Option.bind_eq_bind, Option.bind_some]
        rfl
      cases hres
      refine ⟨s', _, rfl, ⟨hout.ok, hout.nTables, hout.installed, fun b => ?_⟩, fun _ ht => ?_⟩
      · rw [hout.live]
        simp [eq_comm]
      · refine ⟨fun b => ?_, ht.nodup.erase v⟩
        show s'.Live b ↔ b ∈ o.allocated.erase v
        rw [hout.live, ht.live, ht.nodup.mem_erase_iff]
        exact and_comm
  | delete =>
    simp only [commitOperation, htype, herr, Option.some.injEq] at hs
    subst hs
    exact ⟨_, _, rfl, hsame _ (by simp), fun hne => absurd rfl hne⟩
  | modify =>
    simp only [commitOperation, htype, Option.some.injEq] at hs
    subst hs
    exact ⟨_, _, rfl, hsame _ (by simp), fun _ ht => ⟨ht.live, ht.nodup⟩⟩

theorem completeOp_sane (h : SaneWith (k :: W) o) (hs : completeOp isHidden o k = some o') :
    SaneWith W o' ∧ OpsDone o o' ∧ ((o.op k).type ≠ .delete → Tracks o → Tracks o') := by
  simp only [completeOp, Option.bind_eq_bind, Option.bind_eq_some_iff] at hs
  obtain ⟨_, _, o1, hcommit, hres⟩ := hs
  cases hres
  obtain ⟨s', l, rfl, hout, htracks⟩ := commitOperation_spec h hcommit
  have htable : ∀ b, ((ofoperationDestroy { o.setPending (o.op k).rule none with
      enclave := s', allocated := l } k).rule b).tableId = (o.rule b).tableId := fun b =>
    (setPending_rule _ _ b none).1.trans (setPending_rule o _ b none).1
  refine ⟨?_, ⟨rfl, htable, rfl, rfl, rfl, rfl, rfl, fun g => ?_⟩, fun hne ht => ?_⟩
  · refine ⟨hout.ok, h.nTables, hout.nTables.trans h.enclaveTables, fun i b hb => ?_,
      h.expirable, fun b hb => ?_, h.groups, ?_⟩
    · rw [htable]
      exact h.tableId i b ((hout.installed i b).mp hb)
    · refine (hout.live b).mpr ⟨h.onList b hb, fun _ hkb => ?_⟩
      exact (h.inFlight.victim b (by simp [Ofproto.victims, hkb])).expirable hb
    · obtain ⟨hlt, herr, hnodup, hvic⟩ := h.inFlight
      refine ⟨fun j hj => hlt j (List.mem_cons_of_mem _ hj),
        fun j hj => herr j (List.mem_cons_of_mem _ hj), ?_, fun b hb => ?_⟩
      · exact hnodup.sublist ((List.sublist_cons_self k W).filterMap _)
      · have hbW : b ∈ o.victims W := hb
        have hb' : b ∈ o.victims (k :: W) :=
          ((List.sublist_cons_self k W).filterMap _).subset hbW
        refine ⟨(hout.live b).mpr ⟨(hvic b hb').live, fun _ hkb => ?_⟩,
          fun i hi => (hvic b hb').installed i ((hout.installed i b).mp hi),
          (hvic b hb').expirable⟩
        -- the victims are all different
        have hsplit : o.victims (k :: W) = b :: o.victims W := by simp [Ofproto.victims, hkb]
        rw [hsplit] at hnodup
        exact (List.nodup_cons.mp hnodup).1 hbW
  · show (Function.update o.group (o.op k).group _ g).ops.Sublist _
    rcases eq_or_ne g (o.op k).group with rfl | hg
    · rw [Function.update_self]
      exact List.erase_sublist
    · rw [Function.update_of_ne hg]
  · exact ⟨(htracks hne ht).live, (htracks hne ht).nodup⟩

theorem foldlM_completeOp_sane {ks : List OpId} : ∀ {o : Ofproto}, SaneWith (ks ++ W) o →
    ks.foldlM (completeOp isHidden) o = some o' →
    SaneWith W o' ∧ OpsDone o o' ∧
      ((∀ k ∈ ks, (o.op k).type ≠ .delete) → Tracks o → Tracks o') := by
  induction ks with
  | nil =>
    intro o h hs
    cases hs
    exact ⟨h, OpsDone.refl _, fun _ ht => ht⟩
  | cons k ks ih =>
    intro o h hs
    rw [List.foldlM_cons, Option.bind_eq_bind, Option.bind_eq_some_iff] at hs
    obtain ⟨o1, h1, h2⟩ := hs
    obtain ⟨hsane1, hdone1, htracks1⟩ := completeOp_sane h h1
    obtain ⟨hsane, hdone, htracks⟩ := ih hsane1 h2
    refine ⟨hsane, hdone1.trans hdone, fun hne ht => ?_⟩
    refine htracks (fun j hj => ?_) (htracks1 (hne k (List.mem_cons_self ..)) ht)
    rw [hdone1.op]
    exact hne j (List.mem_cons_of_mem _ hj)

/-- The operations of the groups that stay submitted when `g` is completed. -/
def Ofproto.others (o : Ofproto) (g : GroupId) : List OpId :=
  (o.pending.erase g).flatMap fun g => (o.group g).ops

/-- `o'` waits only for operations that `o` waits for. -/
def WaitsLess (o o' : Ofproto) : Prop :=
  ∀ k ∈ o'.waiting, k ∈ o.waiting ∧ (o'.op k).type = (o.op k).type

theorem flatMap_sublist {l : List GroupId} {f f' : GroupId → List OpId}
    (h : ∀ g, (f' g).Sublist (f g)) : (l.flatMap f').Sublist (l.flatMap f) := by
  induction l with
  | nil => exact List.Sublist.refl _
  | cons g l ih =>
    rw [List.flatMap_cons, List.flatMap_cons]
    exact (h g).append ih

theorem Ofproto.waiting_perm (hg : g ∈ o.pending) :
    o.waiting.Perm ((o.group g).ops ++ o.others g) := by
  have := (List.perm_cons_erase hg).flatMap_right fun g => (o.group g).ops
  rwa [List.flatMap_cons] at this

theorem Ofproto.others_subset {j : OpId} (hj : j ∈ o.others g) : j ∈ o.waiting := by
  obtain ⟨g', hg', hj⟩ := List.mem_flatMap.mp hj
  exact List.mem_flatMap.mpr ⟨g', List.mem_of_mem_erase hg', hj⟩

theorem ofopgroupComplete_sane (h : SaneWith ((o.group g).ops ++ o.others g) o)
    (hs : ofopgroupComplete o g isHidden = some o') :
    Sane o' ∧ WaitsLess o o' ∧
      ((∀ k ∈ (o.group g).ops, (o.op k).type ≠ .delete) → Tracks o → Tracks o') := by
  simp only [ofopgroupComplete, Option.bind_eq_bind, Option.bind_eq_some_iff] at hs
  obtain ⟨o1, hfold, hres⟩ := hs
  cases hres
  obtain ⟨hsane, hdone, htracks⟩ := foldlM_completeOp_sane h hfold
  have hsub : (Ofproto.waiting { o1 with pending := o1.pending.erase g }).Sublist (o.others g) := by
    unfold Ofproto.waiting Ofproto.others
    rw [← hdone.pending]
    exact flatMap_sublist hdone.group
  refine ⟨?_, fun k hk => ⟨Ofproto.others_subset (hsub.subset hk), by rw [← hdone.op]⟩,
    fun hne ht => ⟨(htracks hne ht).live, (htracks hne ht).nodup⟩⟩
  have hless := hsane.subperm hsub.subperm
  exact hless.congr rfl rfl (fun _ => rfl) rfl (Nat.le_refl _)
    (fun k hk => ⟨rfl, hless.inFlight.error k hk⟩)
    fun j hj => hless.groups j (List.mem_of_mem_erase hj)

/-- Submitting a group whose operations have just been started. -/
theorem ofopgroupSubmit_sane (h : SaneWith ((o.group g).ops ++ o.waiting) o) (hg : g ∉ o.pending)
    (hlt : g < o.nextGroup) (hs : ofopgroupSubmit o g isHidden = some o') :
    Sane o' ∧ ((0 < (o.group g).nRunning ∨ ∀ k ∈ (o.group g).ops, (o.op k).type ≠ .delete) →
      Tracks o → Tracks o') := by
  unfold ofopgroupSubmit at hs
  split at hs
  · rename_i hzero
    have hothers : o.others g = o.waiting := by
      rw [Ofproto.others, List.erase_of_not_mem hg]
      rfl
    obtain ⟨hsane, -, htracks⟩ := ofopgroupComplete_sane (by rw [hothers]; exact h) hs
    exact ⟨hsane, fun hor => htracks (hor.resolve_left (by omega))⟩
  · cases hs
    have hperm : (Ofproto.waiting { o with pending := o.pending ++ [g] }).Perm
        ((o.group g).ops ++ o.waiting) := by
      unfold Ofproto.waiting
      rw [List.flatMap_append, List.flatMap_singleton]
      exact List.perm_append_comm
    have hall := h.subperm hperm.subperm
    refine ⟨hall.congr rfl rfl (fun _ => rfl) rfl (Nat.le_refl _)
      (fun k hk => ⟨rfl, hall.inFlight.error k hk⟩) fun j hj => ?_,
      fun _ ht => ⟨ht.live, ht.nodup⟩⟩
    rcases List.mem_append.mp hj with hj | hj
    · exact hall.groups j hj
    · rw [List.mem_singleton.mp hj]
      exact hlt

/-- The first half of `ofoperation_complete`: operation `k` is no longer running. -/
def Ofproto.markCompleted (o : Ofproto) (k : OpId) (error : Option Ofperr) : Ofproto :=
  { o with
    op := Function.update o.op k { o.op k with error := error }
    group := Function.update o.group (o.op k).group
      { o.group (o.op k).group with nRunning := (o.group (o.op k).group).nRunning - 1 } }

theorem markCompleted_op (o : Ofproto) (k j : OpId) (error : Option Ofperr) :
    ((o.markCompleted k error).op j).rule = (o.op j).rule ∧
      ((o.markCompleted k error).op j).type = (o.op j).type ∧
      ((o.markCompleted k error).op j).victim = (o.op j).victim := by
  show (Function.update o.op k _ j).rule = _ ∧ (Function.update o.op k _ j).type = _ ∧
    (Function.update o.op k _ j).victim = _
  rcases eq_or_ne j k with rfl | hj
  · simp
  · simp [hj]

theorem markCompleted_ops (o : Ofproto) (k : OpId) (error : Option Ofperr) (g : GroupId) :
    ((o.markCompleted k error).group g).ops = (o.group g).ops := by
  show (Function.update o.group (o.op k).group _ g).ops = _
  rcases eq_or_ne g (o.op k).group with rfl | hg
  · rw [Function.update_self]
  · rw [Function.update_of_ne hg]

@[simp] theorem markCompleted_waiting (o : Ofproto) (k : OpId) (error : Option Ofperr) :
    (o.markCompleted k error).waiting = o.waiting := by
  simp only [Ofproto.waiting, markCompleted_ops]
  rfl

theorem markCompleted_sane (h : Sane o) (k : OpId) : Sane (o.markCompleted k none) := by
  have herr : ∀ j, (o.op j).error = none → ((o.markCompleted k none).op j).error = none := by
    intro j hj
    show (Function.update o.op k _ j).error = none
    rcases eq_or_ne j k with rfl | hne
    · simp
    · rw [Function.update_of_ne hne]
      exact hj
  have hsane : SaneWith o.waiting (o.markCompleted k none) :=
    h.congr rfl rfl (fun _ => rfl) rfl (Nat.le_refl _)
      (fun j hj => ⟨(markCompleted_op o k j none).2.2, herr j (h.inFlight.error j hj)⟩) h.groups
  rw [Sane, markCompleted_waiting]
  exact hsane

/-- Completing one operation: it is marked as completed, and then its group is completed if it
was the last one running. -/
theorem ofoperationComplete_cases (hs : ofoperationComplete o k none = some o') :
    o' = o.markCompleted k none ∨ ∃ g ∈ (o.markCompleted k none).pending,
      ofopgroupComplete (o.markCompleted k none) g false = some o' := by
  simp only [ofoperationComplete] at hs
  split at hs
  · split at hs
    · rename_i hlast
      exact .inr ⟨(o.op k).group, hlast.2, hs⟩
    · cases hs
      exact .inl rfl
  · cases hs

/-- Completing one operation, and its group if it was the last one running. -/
theorem ofoperationComplete_sane (h : Sane o) (hs : ofoperationComplete o k none = some o') :
    Sane o' ∧ WaitsLess o o' ∧
      ((∀ k ∈ o.waiting, (o.op k).type ≠ .delete) → Tracks o → Tracks o') := by
  have hop := fun j => (markCompleted_op o k j none).2.1
  have hwait := markCompleted_waiting o k none
  have hsane1 := markCompleted_sane h k
  have hless1 : WaitsLess o (o.markCompleted k none) := fun j hj => ⟨hwait ▸ hj, hop j⟩
  have htracks1 : Tracks o → Tracks (o.markCompleted k none) := fun ht => ⟨ht.live, ht.nodup⟩
  rcases ofoperationComplete_cases hs with rfl | ⟨g, hmem, hcomp⟩
  · exact ⟨hsane1, hless1, fun _ => htracks1⟩
  · have hperm := Ofproto.waiting_perm hmem
    obtain ⟨hsane, hless, htracks⟩ :=
      ofopgroupComplete_sane (hsane1.subperm hperm.symm.subperm) hcomp
    refine ⟨hsane, fun j hj => ?_, fun hne ht => htracks (fun j hj => ?_) (htracks1 ht)⟩
    · have h1 := hless j hj
      have h2 := hless1 j h1.1
      exact ⟨h2.1, h1.2.trans h2.2⟩
    · rw [hop]
      exact hne j (hwait ▸ hperm.symm.subset (List.mem_append_left _ hj))

theorem foldlM_ofoperationComplete_sane {ks : List OpId} : ∀ {o : Ofproto}, Sane o →
    ks.foldlM (fun o k => ofoperationComplete o k none) o = some o' →
    Sane o' ∧ ((∀ k ∈ o.waiting, (o.op k).type ≠ .delete) → Tracks o → Tracks o') := by
  induction ks with
  | nil =>
    intro o h hs
    cases hs
    exact ⟨h, fun _ ht => ht⟩
  | cons k ks ih =>
    intro o h hs
    rw [List.foldlM_cons, Option.bind_eq_bind, Option.bind_eq_some_iff] at hs
    obtain ⟨o1, h1, h2⟩ := hs
    obtain ⟨hsane1, hless1, htracks1⟩ := ofoperationComplete_sane h h1
    obtain ⟨hsane, htracks⟩ := ih hsane1 h2
    refine ⟨hsane, fun hne ht => htracks (fun j hj => ?_) (htracks1 hne ht)⟩
    rw [(hless1 j hj).2]
    exact hne j (hless1 j hj).1

/-- The deferred completions keep the invariant; the shadows go with the memory unless a
deletion is completed. -/
theorem completeOperations_sane (h : Sane o) (hs : completeOperations o = some o') :
    Sane o' ∧ ((o.clogged = true ∨ ∀ k ∈ o.waiting, (o.op k).type ≠ .delete) →
      Tracks o → Tracks o') := by
  unfold completeOperations at hs
  split at hs
  · cases hs
    exact ⟨h, fun _ ht => ht⟩
  · rename_i hclog
    obtain ⟨o1, h1, h2⟩ := Option.bind_eq_some_iff.mp hs
    cases h2
    obtain ⟨hsane, htracks⟩ := foldlM_ofoperationComplete_sane h h1
    refine ⟨hsane.congr rfl rfl (fun _ => rfl) rfl (Nat.le_refl _)
      (fun k hk => ⟨rfl, hsane.inFlight.error k hk⟩) hsane.groups, fun hor ht => ?_⟩
    have ht' := htracks (hor.resolve_left hclog) ht
    exact ⟨ht'.live, ht'.nodup⟩

end Complete

/-! ## Starting operations -/

/-- `o'` has the operations of `o`, and maybe new ones in groups that are not submitted. -/
structure SameOps (o o' : Ofproto) : Prop where
  nTables : o'.nTables = o.nTables
  pending : o'.pending = o.pending
  nextOp : o.nextOp ≤ o'.nextOp
  nextGroup : o.nextGroup ≤ o'.nextGroup
  op : ∀ k < o.nextOp, o'.op k = o.op k
  group : ∀ g < o.nextGroup, (o'.group g).ops = (o.group g).ops

section Start

variable {o o' o1 : Ofproto} {g : GroupId} {s' : Enclave} {isHidden : Bool}

theorem SameOps.waiting (h : SameOps o o') (hg : ∀ g ∈ o.pending, g < o.nextGroup) :
    o'.waiting = o.waiting := by
  unfold Ofproto.waiting
  rw [h.pending]
  exact List.flatMap_congr fun g hmem => h.group g (hg g hmem)

theorem SameOps.trans {o'' : Ofproto} (h : SameOps o o') (h' : SameOps o' o'') :
    SameOps o o'' :=
  ⟨h'.nTables.trans h.nTables, h'.pending.trans h.pending, h.nextOp.trans h'.nextOp,
    h.nextGroup.trans h'.nextGroup,
    fun k hk => (h'.op k (Nat.lt_of_lt_of_le hk h.nextOp)).trans (h.op k hk),
    fun g hg => (h'.group g (Nat.lt_of_lt_of_le hg h.nextGroup)).trans (h.group g hg)⟩

/-- The invariant with the new operations `N`, given what it says of the tables and of the
victims. -/
theorem Sane.extend (h : Sane o) (hops : SameOps o o')
    (hok : BridgeOk (fun _ => True) o'.enclave) (hn : o'.enclave.nTables = o.enclave.nTables)
    (htable : ∀ i a, o'.enclave.Installed i a → i < o.nTables ∧ (o'.rule a).tableId = i)
    (hexp : o'.expirable.Nodup) (hlist : ∀ a ∈ o'.expirable, o'.enclave.Live a)
    (hold : ∀ a ∈ o.victims o.waiting, o'.Displaced a) {N : List OpId}
    (hlt : ∀ k ∈ N, k < o'.nextOp) (herr : ∀ k ∈ N, (o'.op k).error = none)
    (hnodup : (o'.victims N).Nodup)
    (hnew : ∀ a ∈ o'.victims N, a ∉ o.victims o.waiting ∧ o'.Displaced a) :
    SaneWith (N ++ o'.waiting) o' := by
  have hwait := hops.waiting h.groups
  have hvic : o'.victims o.waiting = o.victims o.waiting :=
    List.filterMap_congr fun k hk => by rw [hops.op k (h.inFlight.lt k hk)]
  have hsplit : o'.victims (N ++ o.waiting) = o'.victims N ++ o.victims o.waiting := by
    rw [← hvic]
    exact List.filterMap_append
  rw [hwait]
  refine ⟨hok, hops.nTables ▸ h.nTables, ?_, fun i a ha => hops.nTables ▸ htable i a ha, hexp,
    hlist, fun g hg => ?_, fun k hk => ?_, fun k hk => ?_, ?_, fun a ha => ?_⟩
  · rw [hn, hops.nTables]
    exact h.enclaveTables
  · rw [hops.pending] at hg
    exact Nat.lt_of_lt_of_le (h.groups g hg) hops.nextGroup
  · rcases List.mem_append.mp hk with hk | hk
    · exact hlt k hk
    · exact Nat.lt_of_lt_of_le (h.inFlight.lt k hk) hops.nextOp
  · rcases List.mem_append.mp hk with hk | hk
    · exact herr k hk
    · rw [hops.op k (h.inFlight.lt k hk)]
      exact h.inFlight.error k hk
  · rw [hsplit, List.nodup_append]
    refine ⟨hnodup, h.inFlight.nodup, fun a ha b hb hab => ?_⟩
    exact (hnew a ha).1 (hab ▸ hb)
  · rw [hsplit] at ha
    rcases List.mem_append.mp ha with ha | ha
    · exact (hnew a ha).2
    · exact hold a ha

/-- The same without new operations. -/
theorem Sane.keep (h : Sane o) (hops : SameOps o o')
    (hok : BridgeOk (fun _ => True) o'.enclave) (hn : o'.enclave.nTables = o.enclave.nTables)
    (htable : ∀ i a, o'.enclave.Installed i a → i < o.nTables ∧ (o'.rule a).tableId = i)
    (hexp : o'.expirable.Nodup) (hlist : ∀ a ∈ o'.expirable, o'.enclave.Live a)
    (hold : ∀ a ∈ o.victims o.waiting, o'.Displaced a) : Sane o' := by
  have hall := h.extend (N := []) hops hok hn htable hexp hlist hold (by simp) (by simp)
    (by simp [Ofproto.victims]) (by simp [Ofproto.victims])
  exact hall

/-- The operations of a list of deletions, in a new group of bridge `o`. -/
theorem OpsStarted.sameOps {l : List (UtAddr × U32)} {s0 : Enclave}
    (hall : OpsStarted o.nextGroup { (ofopgroupCreate o).1 with enclave := s0 } o1 l) :
    SameOps o o1 := by
  refine ⟨hall.nTables, hall.pending, ?_, ?_, hall.oldOp, fun g hg => ?_⟩
  · rw [hall.nextOp]
    exact Nat.le_add_right _ _
  · rw [hall.nextGroup]
    exact Nat.le_succ _
  · rw [hall.otherGroups g (Nat.ne_of_lt hg)]
    exact congrArg Ofopgroup.ops (Function.update_of_ne (Nat.ne_of_lt hg) _ _)

theorem OpsStarted.newGroup {l : List (UtAddr × U32)} {s0 : Enclave}
    (hall : OpsStarted o.nextGroup { (ofopgroupCreate o).1 with enclave := s0 } o1 l) :
    (o1.group o.nextGroup).ops = List.range' o.nextOp l.length ∧
      ∀ k ∈ List.range' o.nextOp l.length, ∃ e ∈ l, o1.op k = deletionOp o.nextGroup e := by
  refine ⟨?_, fun k hk => ?_⟩
  · rw [hall.ops]
    simp [ofopgroupCreate]
  · have hmem : o1.op k ∈ l.map (deletionOp o.nextGroup) := hall.newOps ▸ List.mem_map_of_mem hk
    obtain ⟨e, he, heq⟩ := List.mem_map.mp hmem
    exact ⟨e, he, heq.symm⟩

/-- Deletions have no victims. -/
theorem OpsStarted.no_victims {l : List (UtAddr × U32)} {s0 : Enclave}
    (hall : OpsStarted o.nextGroup { (ofopgroupCreate o).1 with enclave := s0 } o1 l) :
    o1.victims (o1.group o.nextGroup).ops = [] := by
  obtain ⟨hops, hnew⟩ := hall.newGroup
  rw [hops]
  refine List.filterMap_eq_nil_iff.mpr fun k hk => ?_
  obtain ⟨e, -, he⟩ := hnew k hk
  rw [he]
  rfl

/-- The operations of a list of deletions are in a new group, and the enclave has taken
rules out of its tables: the invariant up to the submission of the group. -/
theorem opsStarted_sane {l : List (UtAddr × U32)} {s0 : Enclave} (h : Sane o)
    (hall : OpsStarted o.nextGroup { (ofopgroupCreate o).1 with enclave := s0 } o1 l)
    (hok : BridgeOk (fun _ => True) o1.enclave) (hn : o1.enclave.nTables = o.enclave.nTables)
    (hinst : ∀ i a, o1.enclave.Installed i a → o.enclave.Installed i a)
    (hexp : o1.expirable.Sublist o.expirable)
    (hlist : ∀ a ∈ o1.expirable, o1.enclave.Live a)
    (hold : ∀ a, o.enclave.Live a → (∀ i, ¬ o.enclave.Installed i a) → o1.enclave.Live a) :
    SaneWith ((o1.group o.nextGroup).ops ++ o1.waiting) o1 ∧ o.nextGroup ∉ o1.pending ∧
      o.nextGroup < o1.nextGroup := by
  have hg : o.nextGroup ∉ o.pending := fun hmem => Nat.lt_irrefl _ (h.groups _ hmem)
  obtain ⟨hopsg, hnew⟩ := hall.newGroup
  refine ⟨?_, by rw [hall.pending]; exact hg, by rw [hall.nextGroup]; exact Nat.lt_succ_self _⟩
  refine h.extend hall.sameOps hok hn (fun i a ha => ?_) (h.expirable.sublist hexp) hlist
    (fun a ha => ?_) (fun k hk => ?_) (fun k hk => ?_) ?_ (by simp [hall.no_victims])
  · rw [hall.tableId]
    exact h.tableId i a (hinst i a ha)
  · obtain ⟨b1, b2, b3⟩ := h.inFlight.victim a ha
    exact ⟨hold a b1 b2, fun i hi => b2 i (hinst i a hi), fun hmem => b3 (hexp.subset hmem)⟩
  · rw [hopsg] at hk
    rw [hall.nextOp]
    exact (List.mem_range'_1.mp hk).2
  · rw [hopsg] at hk
    obtain ⟨e, -, he⟩ := hnew k hk
    rw [he]
    rfl
  · rw [hall.no_victims]
    exact List.nodup_nil

end Start

end OvsSgx
