/-
OvsSgx.OfprotoDeletions — the calls of a bridge that delete rules.

`delete_flows__`, `ofproto_flush__`, `ofproto_rule_expire` and
`ofproto_evict` keep the invariant of the bridge. The first three free the
memory of a rule without the shadow as soon as the deletion is completed;
`ofproto_evict` destroys the shadows before the deletions are completed.
-/
import OvsSgx.OfprotoInvariant
import OvsSgx.OfprotoFlushTheorems
import OvsSgx.OfprotoEvictTheorems

namespace OvsSgx

variable {P : Match → Prop} {o o' o1 : Ofproto} {s s' : Enclave} {a : UtAddr} {g : GroupId}
  {isHidden : Bool}

/-! ## Rules taken out of their tables -/

theorem Cleared.installed {T : List RuleId} (hcl : Cleared P s s' T) {j : Nat}
    (ha : s'.Installed j a) : s.Installed j a := by
  obtain ⟨q, hq, rfl, hmem⟩ := ha
  exact ⟨q, hcl.liveRule.mp hq, by rw [hcl.oClsRule], (hcl.mem_rules.mp hmem).1⟩

theorem Cleared.live {T : List RuleId} (hcl : Cleared P s s' T) (a : UtAddr) :
    s'.Live a ↔ s.Live a := by
  simp only [Enclave.Live, hcl.liveRule, hcl.oClsRule]

/-- Installed rules `T` have been taken out of their tables, and deletions `l` of some of them have
been started in a new group, which is not submitted yet. -/
def DeletesStarted (o o1 : Ofproto) (l : List (UtAddr × U32)) : Prop :=
  ∃ s' T, Cleared (fun _ => True) o.enclave s' T ∧ (∀ r ∈ T, ∃ i, r ∈ o.enclave.rules i) ∧
    (∀ e ∈ l, e.1 ∈ T.map o.enclave.oClsRule) ∧
    l.foldlM (startDeletion o.nextGroup) { (ofopgroupCreate o).1 with enclave := s' } = some o1

/-- The same with the group submitted. -/
def DeletesCleared (o o' : Ofproto) (l : List (UtAddr × U32)) : Prop :=
  ∃ s' T o1, Cleared (fun _ => True) o.enclave s' T ∧ (∀ r ∈ T, ∃ i, r ∈ o.enclave.rules i) ∧
    (∀ e ∈ l, e.1 ∈ T.map o.enclave.oClsRule) ∧
    l.foldlM (startDeletion o.nextGroup) { (ofopgroupCreate o).1 with enclave := s' } = some o1 ∧
    ofopgroupSubmit o1 o.nextGroup false = some o'

section DeletesStarted

variable {l : List (UtAddr × U32)}

theorem DeletesStarted.cleared (hd : DeletesStarted o o1 l)
    (hsubmit : ofopgroupSubmit o1 o.nextGroup false = some o') : DeletesCleared o o' l := by
  obtain ⟨s', T, hcl, hT, hl, hfold⟩ := hd
  exact ⟨s', T, o1, hcl, hT, hl, hfold, hsubmit⟩

theorem DeletesCleared.start (hd : DeletesCleared o o' l) :
    ∃ o1, DeletesStarted o o1 l ∧ ofopgroupSubmit o1 o.nextGroup false = some o' := by
  obtain ⟨s', T, o1, hcl, hT, hl, hfold, hsubmit⟩ := hd
  exact ⟨o1, ⟨s', T, hcl, hT, hl, hfold⟩, hsubmit⟩

/-- The deletions up to the submission of their group: no rule had an operation pending. -/
theorem DeletesStarted.spec (h : Sane o) (hd : DeletesStarted o o1 l) :
    ∃ s' T, Cleared (fun _ => True) o.enclave s' T ∧ (∀ r ∈ T, ∃ i, r ∈ o.enclave.rules i) ∧
      (∀ e ∈ l, e.1 ∈ T.map o.enclave.oClsRule) ∧
      StartedAll o.nextGroup { (ofopgroupCreate o).1 with enclave := s' } o1 l ∧
      (∀ e ∈ l, (o.rule e.1).pending = none) ∧
      SaneWith ((o1.group o.nextGroup).ops ++ o1.waiting) o1 ∧ o.nextGroup ∉ o1.pending ∧
      o.nextGroup < o1.nextGroup := by
  obtain ⟨s', T, hcl, hT, hl, hfold⟩ := hd
  have hg : o.nextGroup ∉ o.pending := fun hmem => Nat.lt_irrefl _ (h.groups _ hmem)
  obtain ⟨hall, hidle⟩ := foldlM_startDeletion_some (by exact hg) hfold
  have henc : o1.enclave = s' := hall.enclave
  have hexp : o1.expirable.Sublist o.expirable := by
    rw [hall.expirable]
    exact List.diff_sublist _ _
  obtain ⟨hsane, hg1, hlt1⟩ := opsStarted_sane h hall.toOpsStarted (by rw [henc]; exact hcl.ok)
    (by rw [henc]; exact hcl.nTables) (by rw [henc]; exact fun _ _ ha => hcl.installed ha) hexp
    (fun a ha => by rw [henc, hcl.live]; exact h.onList a (hexp.subset ha))
    (fun a ha _ => by rw [henc, hcl.live]; exact ha)
  exact ⟨s', T, hcl, hT, hl, hall, hidle, hsane, hg1, hlt1⟩

theorem DeletesCleared.started (h : Sane o) (hd : DeletesCleared o o' l) :
    ∃ s' T o1, Cleared (fun _ => True) o.enclave s' T ∧ (∀ r ∈ T, ∃ i, r ∈ o.enclave.rules i) ∧
      (∀ e ∈ l, e.1 ∈ T.map o.enclave.oClsRule) ∧
      StartedAll o.nextGroup { (ofopgroupCreate o).1 with enclave := s' } o1 l ∧
      (∀ e ∈ l, (o.rule e.1).pending = none) ∧
      SaneWith ((o1.group o.nextGroup).ops ++ o1.waiting) o1 ∧ o.nextGroup ∉ o1.pending ∧
      ofopgroupSubmit o1 o.nextGroup false = some o' := by
  obtain ⟨o1, hst, hsubmit⟩ := hd.start
  obtain ⟨s', T, hcl, hT, hl, hall, hidle, hsane, hg, -⟩ := hst.spec h
  exact ⟨s', T, o1, hcl, hT, hl, hall, hidle, hsane, hg, hsubmit⟩

/-- Starting deletions frees nothing and destroys no shadow. -/
theorem DeletesStarted.tracks (h : Sane o) (hd : DeletesStarted o o1 l) (ht : Tracks o) :
    Tracks o1 := by
  obtain ⟨s', T, hcl, -, -, hall, -⟩ := hd.spec h
  refine ⟨fun a => ?_, ?_⟩
  · rw [hall.enclave, hall.allocated, hcl.live]
    exact ht.live a
  · rw [hall.allocated]
    exact ht.nodup

/-- If the deletions have to wait, or there are none, no deletion is completed when the group is
submitted. -/
theorem DeletesStarted.waits (h : Sane o) (hd : DeletesStarted o o1 l)
    (hclean : o.clogged = true ∨ l = []) : 0 < (o1.group o.nextGroup).nRunning ∨
      ∀ k ∈ (o1.group o.nextGroup).ops, (o1.op k).type ≠ .delete := by
  obtain ⟨s', T, -, -, -, hall, -⟩ := hd.spec h
  cases l with
  | nil =>
    right
    simp [hall.newGroup.1]
  | cons e l =>
    have hclog := hclean.resolve_right (by simp)
    left
    rw [hall.nRunning]
    simp [ofopgroupCreate, hclog]

/-- A list of deletions: the rules are freed at once or when the provider is no longer clogged. -/
theorem DeletesCleared.sane (h : Sane o) (hd : DeletesCleared o o' l) :
    Sane o' ∧ (o.clogged = true ∨ l = [] → Tracks o → Tracks o') := by
  obtain ⟨o1, hst, hsubmit⟩ := hd.start
  obtain ⟨-, -, -, -, -, -, -, hsane, hg, hlt⟩ := hst.spec h
  obtain ⟨hsane', htracks⟩ := ofopgroupSubmit_sane hsane hg hlt hsubmit
  exact ⟨hsane', fun hclean ht => htracks (hst.waits h hclean) (hst.tracks h ht)⟩

end DeletesStarted

/-! ## Deleting a list of rules -/

/-- Installed rules, in the tables that `table_id` names. -/
theorem allInstalled_tableId {rules : List UtAddr} (h : Sane o)
    (hinst : ∀ a ∈ rules, ∃ i, o.enclave.Installed i a) (hnodup : rules.Nodup) :
    o.enclave.AllInstalled (rules.map fun a => ((o.rule a).tableId, a)) := by
  refine ⟨fun e he => ?_, by simpa [Function.comp_def] using hnodup⟩
  obtain ⟨a, ha, rfl⟩ := List.mem_map.mp he
  obtain ⟨i, hi⟩ := hinst a ha
  rw [(h.tableId i a hi).2]
  exact hi

/-- `delete_flows__` up to the submission of its group. -/
def startDeleteFlows (o : Ofproto) (rules : List UtAddr) : Option Ofproto := do
  let (o, g) := ofopgroupCreate o
  let (s, deleted) ← ecallDeleteFlows o.enclave (rules.map fun a => ((o.rule a).tableId, a))
  (rules.zip (deleted.map DeletedFlow.hash)).foldlM (startDeletion g) { o with enclave := s }

theorem deleteFlows_submits (o : Ofproto) (rules : List UtAddr) :
    deleteFlows o rules
      = (startDeleteFlows o rules).bind fun o1 => ofopgroupSubmit o1 o.nextGroup false := by
  simp only [deleteFlows, startDeleteFlows, ofopgroupCreate, Option.bind_eq_bind,
    Option.bind_assoc]

theorem startDeleteFlows_deletes {rules : List UtAddr} (h : Sane o)
    (hinst : ∀ a ∈ rules, ∃ i, o.enclave.Installed i a) (hnodup : rules.Nodup)
    (hs : startDeleteFlows o rules = some o1) :
    ∃ l, DeletesStarted o o1 l ∧ (rules = [] → l = []) := by
  obtain ⟨s', d, T, hdel, hcl, hT, hmem⟩ :=
    ecallDeleteFlows_bridge h.enclave (allInstalled_tableId h hinst hnodup)
  obtain ⟨⟨s1, d1⟩, h1, hfold⟩ := Option.bind_eq_some_iff.mp hs
  obtain ⟨rfl, rfl⟩ := Prod.mk.inj (Option.some.inj (hdel.symm.trans h1))
  rw [List.map_map] at hT
  have hrules : T.map o.enclave.oClsRule = rules := by
    simpa [Function.comp_def] using hT
  refine ⟨_, ⟨s', T, hcl, hmem, fun e he => ?_, hfold⟩, fun hnil => by simp [hnil]⟩
  rw [hrules]
  exact (List.of_mem_zip he).1

theorem deleteFlows_deletes {rules : List UtAddr} (h : Sane o)
    (hinst : ∀ a ∈ rules, ∃ i, o.enclave.Installed i a) (hnodup : rules.Nodup)
    (hs : deleteFlows o rules = some o') :
    ∃ l, DeletesCleared o o' l ∧ (rules = [] → l = []) := by
  rw [deleteFlows_submits] at hs
  obtain ⟨o1, h1, hsubmit⟩ := Option.bind_eq_some_iff.mp hs
  obtain ⟨l, hst, hnil⟩ := startDeleteFlows_deletes h hinst hnodup h1
  exact ⟨l, hst.cleared hsubmit, hnil⟩

theorem deleteFlows_sane {rules : List UtAddr} (h : Sane o)
    (hinst : ∀ a ∈ rules, ∃ i, o.enclave.Installed i a) (hnodup : rules.Nodup)
    (hs : deleteFlows o rules = some o') :
    Sane o' ∧ (o.clogged = true ∨ rules = [] → Tracks o → Tracks o') := by
  obtain ⟨l, hd, hnil⟩ := deleteFlows_deletes h hinst hnodup hs
  obtain ⟨hsane, htracks⟩ := hd.sane h
  exact ⟨hsane, fun hclean => htracks (hclean.imp id hnil)⟩

/-! ## Flushing the tables -/

theorem readEntries_subset {entries read : List (UtAddr × U32)} {n : Nat}
    (hs : readEntries entries n = some read) : read ⊆ entries := by
  unfold readEntries at hs
  split at hs
  · cases hs
    exact List.take_subset _ _
  · cases hs

/-- `ofproto_flush__` up to the submission of its group. -/
def startFlush (o : Ofproto) : Option Ofproto := do
  let (o, g) := ofopgroupCreate o
  let (s, entries, nRules) ← flushPages o.enclave
  let read ← readEntries entries nRules
  let hash := ((entries.map Prod.snd).head?).getD 0#32
  (read.map fun e => (e.1, hash)).foldlM (startDeletion g) { o with enclave := s }

theorem ofprotoFlush_submits (o : Ofproto) :
    ofprotoFlush o = (startFlush o).bind fun o1 => ofopgroupSubmit o1 o.nextGroup false := by
  simp only [ofprotoFlush, startFlush, ofopgroupCreate, Option.bind_eq_bind, Option.bind_assoc]

theorem startFlush_deletes (h : Sane o) (hs : startFlush o = some o1) :
    ∃ l, DeletesStarted o o1 l ∧ (allFlushable o.enclave = [] → l = []) := by
  obtain ⟨s', hcl, hpages⟩ := flushPages_spec h.enclave
  obtain ⟨⟨s1, entries, n⟩, h1, hs⟩ := Option.bind_eq_some_iff.mp hs
  obtain ⟨rfl, heq⟩ := Prod.mk.inj (Option.some.inj (hpages.symm.trans h1))
  obtain ⟨rfl, rfl⟩ := Prod.mk.inj heq
  obtain ⟨read, hread, hfold⟩ := Option.bind_eq_some_iff.mp hs
  have hsub := readEntries_subset hread
  refine ⟨_, ⟨s', _, hcl, ?_, ?_, hfold⟩, fun hnil => ?_⟩
  · intro r hr
    obtain ⟨e, he, rfl⟩ := List.mem_map.mp hr
    exact ⟨e.1, (mem_flushList.mp he).2.2⟩
  · intro e he
    obtain ⟨e', he', rfl⟩ := List.mem_map.mp he
    obtain ⟨f, hf, rfl⟩ := List.mem_map.mp (hsub he')
    rw [List.map_map]
    exact List.mem_map.mpr ⟨f, hf, rfl⟩
  · rw [hnil] at hsub
    simpa using List.eq_nil_of_subset_nil hsub

theorem ofprotoFlush_deletes (h : Sane o) (hs : ofprotoFlush o = some o') :
    ∃ l, DeletesCleared o o' l ∧ (allFlushable o.enclave = [] → l = []) := by
  rw [ofprotoFlush_submits] at hs
  obtain ⟨o1, h1, hsubmit⟩ := Option.bind_eq_some_iff.mp hs
  obtain ⟨l, hst, hnil⟩ := startFlush_deletes h h1
  exact ⟨l, hst.cleared hsubmit, hnil⟩

theorem ofprotoFlush_sane (h : Sane o) (hs : ofprotoFlush o = some o') :
    Sane o' ∧ (o.clogged = true ∨ allFlushable o.enclave = [] → Tracks o → Tracks o') := by
  obtain ⟨l, hd, hnil⟩ := ofprotoFlush_deletes h hs
  obtain ⟨hsane, htracks⟩ := hd.sane h
  exact ⟨hsane, fun hclean => htracks (hclean.imp id hnil)⟩

/-! ## Expiry of a rule -/

/-- `ofproto_rule_expire` up to the submission of its group, if no operation is pending. -/
def startExpire (o : Ofproto) (a : UtAddr) : Option Ofproto := do
  let _ ← ofprotoRuleIsHidden o a
  let (o, g) := ofopgroupCreate o
  let (o, _) ← ofoperationCreate o g a .delete none
  let o ← oftableRemoveRule o a
  ruleDestruct o a

theorem ofprotoRuleExpire_submits (hp : (o.rule a).pending = none) :
    ofprotoRuleExpire o a
      = (startExpire o a).bind fun o1 => ofopgroupSubmit o1 o.nextGroup false := by
  simp only [ofprotoRuleExpire, startExpire, hp, Option.isSome_none, Bool.false_eq_true, if_false,
    ofopgroupCreate, Option.bind_eq_bind, Option.bind_assoc]

theorem startExpire_deletes (h : Sane o) (ha : a ∈ o.expirable) (hp : (o.rule a).pending = none)
    (hs : startExpire o a = some o1) : ∃ l, DeletesStarted o o1 l := by
  obtain ⟨r, hr, rfl⟩ := h.onList a ha
  have hlook := h.enclave.shadows.lookup_self hr
  have haddr : o.enclave.oClsRule r ∈ [r].map o.enclave.oClsRule := by simp
  generalize o.enclave.oClsRule r = a at *
  obtain ⟨_, _, hs⟩ := Option.bind_eq_some_iff.mp hs
  obtain ⟨⟨o2, k⟩, hcreate, hs⟩ := Option.bind_eq_some_iff.mp hs
  obtain ⟨o3, hremove, hdestruct⟩ := Option.bind_eq_some_iff.mp hs
  -- the key of the deletion is the rule's own hash
  have hhash : ∃ hash, ofoperationCreate (ofopgroupCreate o).1 o.nextGroup a .delete none
      = some ((ofopgroupCreate o).1.addOperation o.nextGroup a .delete hash, o.nextOp) := by
    refine ⟨clsRuleHash (o.enclave.clsRule r) (BitVec.ofNat 32 (o.rule a).tableId), ?_⟩
    simp [ofoperationCreate, ofopgroupCreate, hp, deletionHash, ecallClsRuleHash, hlook]
  obtain ⟨hash, hhash⟩ := hhash
  obtain ⟨rfl, -⟩ := Prod.mk.inj (Option.some.inj (hhash.symm.trans hcreate))
  have htable : (((ofopgroupCreate o).1.addOperation o.nextGroup a .delete hash).rule a).tableId
      = (o.rule a).tableId := (setPending_rule (ofopgroupCreate o).1 a a _).1
  obtain ⟨s1, h1, hremove⟩ := Option.bind_eq_some_iff.mp hremove
  obtain ⟨o5, h5, hremove⟩ := Option.bind_eq_some_iff.mp hremove
  obtain ⟨s2, h2, h5⟩ := Option.bind_eq_some_iff.mp h5
  cases h5
  cases hremove
  have h1' : ecallClsRemove o.enclave (o.rule a).tableId a = some s1 := htable ▸ h1
  have h2' : ecallEvgRemoveRule s1 (o.rule a).tableId a = some s2 := htable ▸ h2
  have hmem : r ∈ o.enclave.rules (o.rule a).tableId := by
    obtain ⟨q, hq, hun, -⟩ := ecallClsRemove_uninstalled h.enclave.toEnclaveOk h1'
    rw [hlook, Option.some.injEq] at hq
    exact hq ▸ hun.mem
  obtain ⟨t1, t2, ht1, ht2, hcl⟩ := takeOut h.enclave hlook hmem
  obtain rfl := Option.some.inj (h1'.symm.trans ht1)
  obtain rfl := Option.some.inj (h2'.symm.trans ht2)
  have hstart : startDeletion o.nextGroup { (ofopgroupCreate o).1 with enclave := s2 } (a, hash)
      = some o1 := by
    rw [startDeletion, ofoperationCreate_delete (by exact hp)]
    exact hdestruct
  have hfold : [(a, hash)].foldlM (startDeletion o.nextGroup)
      { (ofopgroupCreate o).1 with enclave := s2 } = some o1 := by
    rw [List.foldlM_cons, hstart]
    rfl
  refine ⟨_, s2, [r], hcl, fun q hq => ?_, fun e he => ?_, hfold⟩
  · rw [List.mem_singleton.mp hq]
    exact ⟨_, hmem⟩
  · rw [List.mem_singleton.mp he]
    exact haddr

theorem ofprotoRuleExpire_deletes (h : Sane o) (ha : a ∈ o.expirable)
    (hs : ofprotoRuleExpire o a = some o') :
    (isPending o (some a) = true ∧ o' = o) ∨
      (isPending o (some a) = false ∧ ∃ l, DeletesCleared o o' l) := by
  cases hp : (o.rule a).pending with
  | some k =>
    simp only [ofprotoRuleExpire, hp, Option.isSome_some, if_true, Option.some.injEq] at hs
    exact .inl ⟨by simp [isPending, hp], hs.symm⟩
  | none =>
    rw [ofprotoRuleExpire_submits hp] at hs
    obtain ⟨o1, h1, hsubmit⟩ := Option.bind_eq_some_iff.mp hs
    obtain ⟨l, hst⟩ := startExpire_deletes h ha hp h1
    exact .inr ⟨by simp [isPending, hp], l, hst.cleared hsubmit⟩

theorem ofprotoRuleExpire_sane (h : Sane o) (ha : a ∈ o.expirable)
    (hs : ofprotoRuleExpire o a = some o') :
    Sane o' ∧ (o.clogged = true ∨ isPending o (some a) = true → Tracks o → Tracks o') := by
  rcases ofprotoRuleExpire_deletes h ha hs with ⟨-, rfl⟩ | ⟨hp, l, hd⟩
  · exact ⟨h, fun _ ht => ht⟩
  · obtain ⟨hsane, htracks⟩ := hd.sane h
    refine ⟨hsane, fun hclean => htracks (hclean.imp id fun hpend => ?_)⟩
    rw [hp] at hpend
    cases hpend

/-! ## Evicting rules -/

/-- What `ofproto_evict` has done when it submits its group: the rules `T` are destroyed in
the enclave, with the entries `l`, and their deletions have been started. -/
structure EvictionStarted (o o' : Ofproto) (l : List (UtAddr × U32)) (T : List RuleId) : Prop where
  rules : l.map Prod.fst = T.map o.enclave.oClsRule
  nodup : T.Nodup
  grouped : ∀ r ∈ T, ∃ i < o.nTables, o.enclave.GroupedIn i r
  notPending : ∀ e ∈ l, (o.rule e.1).pending = none
  purged : Purged (fun _ => True) o.enclave o'.enclave T
  ops : ∃ s0, OpsStarted o.nextGroup { (ofopgroupCreate o).1 with enclave := s0 } o' l
  expirable : o'.expirable = o.expirable.diff (l.map Prod.fst)
  log : o'.log = o.log ++ (l.map fun e => .create e.1 .delete e.2) ++ l.map fun e => .destruct e.1

theorem Regrouped.purged {P : Match → Prop} (h : BridgeOk P s) (hre : Regrouped s s' s.GroupedIn)
    (hf : SameFields s s') : Purged P s s' [] :=
  ⟨hre.bridge h h.installed, fun j => by simp [hre.same.rules],
    fun j q => by simp [hre.groupedIn], fun q => by simp [hre.same.liveRule], hre.same.nTables,
    hre.same.clsRule, hre.same.oClsRule, hre.same.maxFlows, hf⟩

/-- Different rules in groups have different addresses. -/
theorem nodup_addresses (h : BridgeOk P s) {T : List RuleId} (hT : T.Nodup)
    (hlive : ∀ r ∈ T, s.LiveRule r) : (T.map s.oClsRule).Nodup :=
  hT.map_on fun r hr q hq heq => h.shadows.eq_of_oClsRule (hlive r hr) (hlive q hq) heq

theorem ShadowsOk.map_oClsRule_inj (h : ShadowsOk s) {T T' : List RuleId}
    (hT : ∀ r ∈ T, s.LiveRule r) (hT' : ∀ r ∈ T', s.LiveRule r)
    (heq : T.map s.oClsRule = T'.map s.oClsRule) : T = T' := by
  induction T generalizing T' with
  | nil => exact (List.map_eq_nil_iff.mp heq.symm).symm
  | cons r T ih =>
    obtain ⟨q, T2, rfl, hq, hrest⟩ := List.map_eq_cons_iff.mp heq.symm
    rw [h.eq_of_oClsRule (hT r (List.mem_cons_self ..)) (hT' q (List.mem_cons_self ..)) hq.symm,
      ih (fun x hx => hT x (List.mem_cons_of_mem _ hx))
        (fun x hx => hT' x (List.mem_cons_of_mem _ hx)) hrest.symm]

theorem entryOf_addresses {out : List EvictEntry} {T : List RuleId}
    (hent : List.Forall₂ (EntryOf s) out T) :
    (out.map fun e => (e.rule, e.hash)).map Prod.fst = T.map s.oClsRule := by
  rw [List.map_map, ← List.forall₂_eq_eq_eq, List.forall₂_map_left_iff,
    List.forall₂_map_right_iff]
  exact hent.imp fun e r he => he.rule

/-- Rules that are in groups are installed in the tables that the rules in memory name. -/
theorem Regrouped.allInstalled {L : List RuleId} {tableId : UtAddr → Nat} (h : Sane o)
    (hre : Regrouped o.enclave s' o.enclave.GroupedIn) (hf : SameFields o.enclave s')
    (hL : L.Nodup) (hgr : ∀ r ∈ L, ∃ i < o.nTables, o.enclave.GroupedIn i r)
    (htable : ∀ a, tableId a = (o.rule a).tableId) :
    s'.AllInstalled ((L.map o.enclave.oClsRule).map fun a => (tableId a, a)) := by
  have hpurged := hre.purged h.enclave hf
  have hlive : ∀ r ∈ L, o.enclave.LiveRule r := by
    intro r hr
    obtain ⟨i, -, hi⟩ := hgr r hr
    exact h.enclave.live i r (h.enclave.installed i r hi)
  refine ⟨fun e he => ?_, ?_⟩
  · obtain ⟨a, ha, rfl⟩ := List.mem_map.mp he
    obtain ⟨r, hr, rfl⟩ := List.mem_map.mp ha
    obtain ⟨i, -, hi⟩ := hgr r hr
    have hmem := h.enclave.installed i r hi
    refine ⟨r, (hpurged.liveRule r).mpr ⟨hlive r hr, by simp⟩, by rw [hpurged.oClsRule], ?_⟩
    rw [htable, (h.tableId i _ (h.enclave.installed_self hmem)).2, hre.same.rules]
    exact hmem
  · rw [List.map_map]
    simpa [Function.comp_def] using nodup_addresses h.enclave hL hlive

/-- `ecall_oftable_remove_rules` on rules that are in groups destroys them, and says which of them
were hidden. -/
theorem ecallOftableRemoveRules_purged {L : List RuleId} {tableId : UtAddr → Nat} (h : Sane o)
    (hre : Regrouped o.enclave s' o.enclave.GroupedIn) (hf : SameFields o.enclave s')
    (hL : L.Nodup) (hgr : ∀ r ∈ L, ∃ i < o.nTables, o.enclave.GroupedIn i r)
    (htable : ∀ a, tableId a = (o.rule a).tableId) :
    ∃ s, ecallOftableRemoveRules s' ((L.map o.enclave.oClsRule).map fun a => (tableId a, a))
        = some (s, L.map o.enclave.hidden) ∧ Purged (fun _ => True) o.enclave s L := by
  have hpurged := hre.purged h.enclave hf
  obtain ⟨s2, T2, h2, hpurged2, hT2, hlive2⟩ :=
    ecallOftableRemoveRules_bridge hpurged.ok (hre.allInstalled h hf hL hgr htable)
  -- the rules that are found for the addresses are the ones that have them
  have hTeq : T2 = L := by
    refine h.enclave.shadows.map_oClsRule_inj
      (fun r hr => ((hpurged.liveRule r).mp (hlive2 r hr)).1) (fun r hr => ?_) ?_
    · obtain ⟨i, -, hi⟩ := hgr r hr
      exact h.enclave.live i r (h.enclave.installed i r hi)
    · rw [← hpurged.oClsRule, hT2, List.map_map]
      simp [Function.comp_def, hpurged.oClsRule]
  have hall := hpurged.trans hpurged2
  rw [List.nil_append, hTeq] at hall
  have hhidden : s'.hidden = o.enclave.hidden := by
    funext q
    rw [Enclave.hidden, hpurged.clsRule, Enclave.hidden]
  rw [hTeq, hhidden] at h2
  exact ⟨s2, h2, hall⟩

/-- Destructing the rules whose deletions have been created starts the deletions. -/
theorem OpsCreated.destructed {l : List (UtAddr × U32)} {g : GroupId} (hcr : OpsCreated g o o1 l)
    (hempty : o.group g = ⟨[], 0⟩) (s : Enclave) :
    OpsStarted g o (destructed g { o1 with enclave := s } (l.map Prod.fst)
      (List.range' o.nextOp l.length)) l where
  nTables := hcr.nTables
  allocated := hcr.allocated
  pending := hcr.pending
  clogged := hcr.clogged
  nextGroup := hcr.nextGroup
  nextOp := hcr.nextOp
  oldOp := hcr.oldOp
  newOps := hcr.newOps
  rule := hcr.rule
  tableId := hcr.tableId
  ops := by simp [OvsSgx.destructed, hcr.ops]
  nRunning := by
    simp only [OvsSgx.destructed, Function.update_self, hcr.nRunning, hempty, hcr.clogged,
      List.length_map]
    by_cases hc : o.clogged = true <;> simp [hc]
  otherGroups g' hg' := by
    rw [← hcr.otherGroups g' hg']
    exact Function.update_of_ne hg' _ _
  deletions := hcr.deletions
  completions := by simp [OvsSgx.destructed, hcr.completions, hcr.clogged]

/-- The two loops of `ofproto_evict` over the entries of rules that are all different. -/
theorem evictLoops_spec {entries : List (UtAddr × U32)} {T : List RuleId} {total : Nat}
    {removed : List UtAddr} (h : Sane o)
    (hre : Regrouped o.enclave s' o.enclave.GroupedIn) (hf : SameFields o.enclave s')
    (hent : entries.map Prod.fst = T.map o.enclave.oClsRule) (hT : T.Nodup)
    (hgr : ∀ r ∈ T, ∃ i < o.nTables, o.enclave.GroupedIn i r)
    (hcreate : evictEntries o.nextGroup entries total 0
      { (ofopgroupCreate o).1 with enclave := s' } [] = some (o1, removed)) :
    ∃ s o2 n,
      ecallOftableRemoveRules o1.enclave (removed.map fun a => ((o1.rule a).tableId, a))
        = some (s, (T.take n).map o.enclave.hidden) ∧
      removed.foldlM (fun o a => ruleDestruct (o.unlinkExpirable a) a) { o1 with enclave := s }
        = some o2 ∧
      o2.enclave = s ∧ removed = (entries.take n).map Prod.fst ∧
      OpsCreated o.nextGroup { (ofopgroupCreate o).1 with enclave := s' } o1 (entries.take n) ∧
      EvictionStarted o o2 (entries.take n) (T.take n) ∧ (entries.take n).length ≤ total ∧
      ((entries.take n).length = total ∨ ∃ e, entries[(entries.take n).length]? = some e ∧
        (o.rule e.1).pending ≠ none) := by
  have hlive : ∀ r ∈ T, o.enclave.LiveRule r := by
    intro r hr
    obtain ⟨i, -, hi⟩ := hgr r hr
    exact h.enclave.live i r (h.enclave.installed i r hi)
  have hnodup : (entries.map Prod.fst).Nodup := hent ▸ nodup_addresses h.enclave hT hlive
  obtain ⟨l, n, hl, hremoved, hcr, hpend, hlen, hstop⟩ := evictEntries_spec hnodup total hcreate
  rw [List.drop_zero] at hl
  rw [List.nil_append] at hremoved
  rw [Nat.zero_add] at hstop
  subst hl
  have htake : (entries.take n).map Prod.fst = (T.take n).map o.enclave.oClsRule := by
    rw [List.map_take, hent, List.map_take]
  have hTn : (T.take n).Nodup := hT.sublist (List.take_sublist n T)
  have hgrn : ∀ r ∈ T.take n, ∃ i < o.nTables, o.enclave.GroupedIn i r := fun r hr =>
    hgr r (List.mem_of_mem_take hr)
  -- the enclave destroys the rules
  have henc1 : o1.enclave = s' := hcr.enclave
  obtain ⟨s2, h2, hpurged⟩ := ecallOftableRemoveRules_purged h hre hf hTn hgrn hcr.tableId
  rw [← htake, ← hremoved] at h2
  -- then the rules are destructed
  have hempty : (ofopgroupCreate o).1.group o.nextGroup = ⟨[], 0⟩ := by simp [ofopgroupCreate]
  have hrunning := hcr.forall₂
  rw [← hremoved] at hrunning
  have hdes := foldlM_ruleDestruct (o := { o1 with enclave := s2 }) hrunning (by
      show o.nextGroup ∉ o1.pending
      rw [hcr.pending]
      exact fun hmem => Nat.lt_irrefl _ (h.groups _ hmem))
    (by
      show removed.length ≤ (o1.group o.nextGroup).nRunning
      rw [hcr.nRunning, hremoved, List.length_map]
      exact Nat.le_add_left _ _)
  have hstarted := hcr.destructed hempty s2
  rw [← hremoved] at hstarted
  refine ⟨s2, _, n, by rw [henc1, h2], hdes, rfl, hremoved, hcr,
    ⟨htake, hTn, hgrn, hpend, hpurged, ⟨s', hstarted⟩, ?_, ?_⟩, hlen, hstop⟩
  · simp only [destructed, hcr.expirable, hremoved]
    rfl
  · simp only [destructed, hcr.log, hremoved, List.map_map]
    rfl

/-- The two loops of `ofproto_evict` over the entries that the enclave has returned. -/
theorem evictLoops_pages {entries : List (UtAddr × U32)} {total : Nat} {removed : List UtAddr}
    (h : Sane o) (hpages : evictPages o.enclave o.nTables = some (s', entries, total))
    (hcreate : evictEntries o.nextGroup entries total 0
      { (ofopgroupCreate o).1 with enclave := s' } [] = some (o1, removed)) :
    Regrouped o.enclave s' o.enclave.GroupedIn ∧
      ∃ (s : Enclave) (hidden : List Bool) (o2 : Ofproto) (n : Nat) (T : List RuleId),
      ecallOftableRemoveRules o1.enclave (removed.map fun a => ((o1.rule a).tableId, a))
        = some (s, hidden) ∧
      removed.foldlM (fun o a => ruleDestruct (o.unlinkExpirable a) a) { o1 with enclave := s }
        = some o2 ∧
      o2.enclave = s ∧ removed = (entries.take n).map Prod.fst ∧
      OpsCreated o.nextGroup { (ofopgroupCreate o).1 with enclave := s' } o1 (entries.take n) ∧
      EvictionStarted o o2 (entries.take n) (T.take n) := by
  obtain ⟨hnone, -⟩ | ⟨s1, out, T, hsome, -, -, -, hre, hf, hent, hnodup, -, hgr, -⟩ :=
    evictPages_spec h.enclave o.nTables
  · exact absurd (hnone.symm.trans hpages) (by simp)
  · obtain ⟨rfl, heq⟩ := Prod.mk.inj (Option.some.inj (hsome.symm.trans hpages))
    obtain ⟨rfl, rfl⟩ := Prod.mk.inj heq
    obtain ⟨s2, o2, n, hremove, hdestruct, henc, hremoved, hcr, hst, -⟩ :=
      evictLoops_spec h hre hf (entryOf_addresses hent) hnodup hgr hcreate
    exact ⟨hre, s2, _, o2, n, T, hremove, hdestruct, henc, hremoved, hcr, hst⟩

/-- One of the rules that the enclave returns on the first page is pending. -/
def SelectsPending (o : Ofproto) : Prop :=
  ∃ page, ecallOfprotoEvict o.enclave o.nTables 0 defaultBufferSize = some page ∧
    ∃ e ∈ page.entries, isPending o (some e.1) = true

/-- `ofproto_evict` reads no entry that the enclave has not returned: what is selected fits on
one page, and either the reported total is the number of selected rules, or the total is at
least a page and the loop stops at a pending rule. -/
def EvictReads (o : Ofproto) : Prop :=
  totalSelected o.enclave o.nTables ≤ defaultBufferSize ∧
    (totalEvictions o.enclave o.nTables = totalSelected o.enclave o.nTables ∨
      (defaultBufferSize ≤ totalEvictions o.enclave o.nTables ∧ SelectsPending o))

/-- `ofproto_evict` up to the submission of its group, and the array `is_hidden`. -/
def startEviction (o : Ofproto) : Option (Ofproto × List Bool) := do
  let (o, g) := ofopgroupCreate o
  let (s, entries, total) ← evictPages o.enclave o.nTables
  let (o, removed) ← evictEntries g entries total 0 { o with enclave := s } []
  let (s, hidden) ← ecallOftableRemoveRules o.enclave (removed.map fun a => ((o.rule a).tableId, a))
  let o ← removed.foldlM (fun o a => ruleDestruct (o.unlinkExpirable a) a) { o with enclave := s }
  return (o, hidden)

theorem ofprotoEvict_eq (o : Ofproto) :
    ofprotoEvict o = (startEviction o).bind fun e => ofopgroupSubmit e.1 o.nextGroup true := by
  simp only [ofprotoEvict, startEviction, ofopgroupCreate, Option.bind_eq_bind, Option.bind_assoc,
    Option.pure_def, Option.bind_some]

/-- The rules whose deletion `ofproto_evict` starts. -/
def Ofproto.evicted (o : Ofproto) : List UtAddr :=
  let removed := do
    let (s, entries, total) ← evictPages o.enclave o.nTables
    let (_, removed) ← evictEntries o.nextGroup entries total 0
      { (ofopgroupCreate o).1 with enclave := s } []
    return removed
  removed.getD []

/-- What `ofproto_evict` has done when it submits its group, if it gets there, and when it does. -/
theorem startEviction_spec (h : Sane o) :
    (startEviction o = none ∧ ¬ EvictReads o) ∨
    ∃ (o2 : Ofproto) (entries : List (UtAddr × U32)) (T : List RuleId) (n : Nat),
      startEviction o = some (o2, (T.take n).map o.enclave.hidden) ∧
      o.evicted = (entries.take n).map Prod.fst ∧ EvictReads o ∧
      entries.map Prod.fst = T.map o.enclave.oClsRule ∧ T.Nodup ∧
      T.length = totalSelected o.enclave o.nTables ∧
      (∀ r ∈ T, ∃ i < o.nTables, o.enclave.GroupedIn i r) ∧
      (∀ i < o.nTables, T.countP (· ∈ o.enclave.rules i) = nSelected o.enclave i) ∧
      EvictionStarted o o2 (entries.take n) (T.take n) ∧
      (entries.take n).length ≤ totalEvictions o.enclave o.nTables ∧
      ((entries.take n).length = totalEvictions o.enclave o.nTables ∨
        ∃ e, entries[(entries.take n).length]? = some e ∧ (o.rule e.1).pending ≠ none) := by
  rcases evictPages_spec h.enclave o.nTables with ⟨hnone, hbad⟩ | ⟨s', out, T, hpages, hfit, htot,
    -, hre, hf, hent, hnodup, hlen, hgr, hcnt, page, hpage, hentries⟩
  · refine .inl ⟨?_, ?_⟩
    · show (evictPages o.enclave o.nTables).bind _ = none
      rw [hnone]
      rfl
    · rintro ⟨hfit, hor⟩
      rcases hbad with hlt | ⟨hne, hsmall⟩
      · omega
      · rcases hor with heq | ⟨hge, -⟩
        · exact hne heq
        · omega
  · generalize hE : (out.map fun e => (e.rule, e.hash)) = entries at hpages hentries
    have hlenE : entries.length = totalSelected o.enclave o.nTables := by
      rw [← hE, List.length_map, hent.length_eq, hlen]
    have haddr : entries.map Prod.fst = T.map o.enclave.oClsRule := hE ▸ entryOf_addresses hent
    have hselects : SelectsPending o ↔ ∃ e ∈ entries, (o.rule e.1).pending ≠ none := by
      unfold SelectsPending
      rw [hpage]
      simp [hentries, isPending, Option.isSome_iff_ne_none]
    cases hev : evictEntries o.nextGroup entries (totalEvictions o.enclave o.nTables) 0
        { (ofopgroupCreate o).1 with enclave := s' } [] with
    | none =>
      refine .inl ⟨?_, fun hreads => ?_⟩
      · refine Option.eq_none_iff_forall_ne_some.mpr fun e hs => ?_
        obtain ⟨pages, h1, hs⟩ := Option.bind_eq_some_iff.mp hs
        obtain rfl := Option.some.inj (hpages.symm.trans h1)
        obtain ⟨res, h2, -⟩ := Option.bind_eq_some_iff.mp hs
        exact absurd (hev.symm.trans h2) (by simp)
      · obtain ⟨res, hres⟩ := evictEntries_isSome o.nextGroup entries
          (totalEvictions o.enclave o.nTables) [] (i := 0)
          (o := { (ofopgroupCreate o).1 with enclave := s' })
          (hreads.2.imp (by omega) fun hp => by simpa [ofopgroupCreate] using hselects.mp hp.2)
        rw [hev] at hres
        cases hres
    | some res =>
      obtain ⟨o1, removed⟩ := res
      obtain ⟨s2, o2, n, hremove, hdestruct, -, hremoved, -, hst, hle, hstop⟩ :=
        evictLoops_spec h hre hf haddr hnodup hgr hev
      refine .inr ⟨o2, entries, T, n, ?_, ?_, ⟨hfit, ?_⟩, haddr, hnodup, hlen, hgr, hcnt, hst, hle,
        hstop⟩
      · refine Option.bind_eq_some_iff.mpr ⟨_, hpages, ?_⟩
        refine Option.bind_eq_some_iff.mpr ⟨_, hev, ?_⟩
        refine Option.bind_eq_some_iff.mpr ⟨_, hremove, ?_⟩
        exact Option.bind_eq_some_iff.mpr ⟨_, hdestruct, rfl⟩
      · simp [Ofproto.evicted, hpages, hev, hremoved]
      · rcases htot with heq | hge
        · exact .inl heq
        · rcases hstop with hall | ⟨e, he, hp⟩
          · have hmin := List.length_take_le' n entries
            exact .inl (by omega)
          · exact .inr ⟨hge, hselects.mpr ⟨e, List.mem_of_getElem? he, hp⟩⟩

/-- What a call of `ofproto_evict` that returns has done. -/
theorem ofprotoEvict_some (h : Sane o) (hs : ofprotoEvict o = some o') :
    ∃ (o2 : Ofproto) (entries : List (UtAddr × U32)) (T : List RuleId) (n : Nat),
      entries.map Prod.fst = T.map o.enclave.oClsRule ∧ T.Nodup ∧
      T.length = totalSelected o.enclave o.nTables ∧
      EvictionStarted o o2 (entries.take n) (T.take n) ∧
      ofopgroupSubmit o2 o.nextGroup true = some o' := by
  rw [ofprotoEvict_eq] at hs
  obtain ⟨e, h1, hsubmit⟩ := Option.bind_eq_some_iff.mp hs
  rcases startEviction_spec h with
    ⟨hnone, -⟩ | ⟨o2, entries, T, n, hstart, -, -, hent, hnodup, hlen, -, -, hst, -, -⟩
  · rw [hnone] at h1
    cases h1
  · obtain rfl := Option.some.inj (hstart.symm.trans h1)
    exact ⟨o2, entries, T, n, hent, hnodup, hlen, hst, hsubmit⟩

section EvictionStarted

variable {l : List (UtAddr × U32)} {T : List RuleId}

theorem Purged.installed (hp : Purged P s s' T) {j : Nat} (ha : s'.Installed j a) :
    s.Installed j a := by
  obtain ⟨q, hq, rfl, hmem⟩ := ha
  rw [hp.rules, List.mem_filter] at hmem
  exact ⟨q, ((hp.liveRule q).mp hq).1, by rw [hp.oClsRule], hmem.1⟩

theorem EvictionStarted.liveRule (h : Sane o) (hst : EvictionStarted o o1 l T) {r : RuleId}
    (hr : r ∈ T) : ∃ i, r ∈ o.enclave.rules i ∧ o.enclave.LiveRule r := by
  obtain ⟨i, -, hi⟩ := hst.grouped r hr
  have hmem := h.enclave.installed i r hi
  exact ⟨i, hmem, h.enclave.live i r hmem⟩

/-- The shadows that are left. -/
theorem EvictionStarted.live (h : Sane o) (hst : EvictionStarted o o1 l T) (a : UtAddr) :
    o1.enclave.Live a ↔ o.enclave.Live a ∧ a ∉ l.map Prod.fst := by
  rw [hst.rules]
  constructor
  · rintro ⟨q, hq, rfl⟩
    obtain ⟨hq, hqT⟩ := (hst.purged.liveRule q).mp hq
    rw [hst.purged.oClsRule]
    refine ⟨⟨q, hq, rfl⟩, fun hmem => hqT ?_⟩
    obtain ⟨r, hr, heq⟩ := List.mem_map.mp hmem
    obtain ⟨i, -, hlive⟩ := hst.liveRule h hr
    rwa [← h.enclave.shadows.eq_of_oClsRule hlive hq heq]
  · rintro ⟨⟨q, hq, rfl⟩, hmem⟩
    refine ⟨q, (hst.purged.liveRule q).mpr ⟨hq, fun hqT => hmem (List.mem_map_of_mem hqT)⟩, ?_⟩
    rw [hst.purged.oClsRule]

/-- The rules that are evicted were installed. -/
theorem EvictionStarted.installed (h : Sane o) (hst : EvictionStarted o o1 l T)
    (ha : a ∈ l.map Prod.fst) : ∃ i, o.enclave.Installed i a := by
  rw [hst.rules] at ha
  obtain ⟨r, hr, rfl⟩ := List.mem_map.mp ha
  obtain ⟨i, hmem, -⟩ := hst.liveRule h hr
  exact ⟨i, h.enclave.installed_self hmem⟩

theorem EvictionStarted.sane (h : Sane o) (hst : EvictionStarted o o1 l T) :
    SaneWith ((o1.group o.nextGroup).ops ++ o1.waiting) o1 ∧ o.nextGroup ∉ o1.pending ∧
      o.nextGroup < o1.nextGroup := by
  obtain ⟨s0, hops⟩ := hst.ops
  have hsub : o1.expirable.Sublist o.expirable := by
    rw [hst.expirable]
    exact List.diff_sublist _ _
  refine opsStarted_sane h hops hst.purged.ok hst.purged.nTables
    (fun _ _ ha => hst.purged.installed ha) hsub (fun a ha => ?_) fun a ha hnot => ?_
  · rw [hst.expirable, h.expirable.mem_sdiff_iff] at ha
    exact (hst.live h a).mpr ⟨h.onList a ha.1, ha.2⟩
  · refine (hst.live h a).mpr ⟨ha, fun hmem => ?_⟩
    obtain ⟨i, hi⟩ := hst.installed h hmem
    exact hnot i hi

/-- If the provider is not clogged, the rules are freed with their shadows. -/
theorem EvictionStarted.tracks (h : Sane o) (hst : EvictionStarted o o1 l T)
    (hsubmit : ofopgroupSubmit o1 o.nextGroup true = some o')
    (hclean : o.clogged = false ∨ l = []) (ht : Tracks o) : Tracks o' := by
  obtain ⟨s0, hops⟩ := hst.ops
  have hgroup : ({ (ofopgroupCreate o).1 with enclave := s0 } : Ofproto).group o.nextGroup
      = ⟨[], 0⟩ := by
    simp [ofopgroupCreate]
  rcases submit_deletions true hops hgroup (.inl rfl) with
    ⟨hclog, hne, -⟩ | ⟨-, o2, hcomp, hres⟩
  · rcases hclean with hclean | hclean
    · exact absurd (hclog.symm.trans hclean) (by simp)
    · exact absurd hclean hne
  · rw [hsubmit, Option.some.injEq] at hres
    subst hres
    have hfreed : o2.allocated = o.allocated.diff (l.map Prod.fst) := by
      have hrules : (List.range' o.nextOp l.length).map (fun k => (o1.op k).rule)
          = l.map Prod.fst := by
        have := congrArg (List.map Ofoperation.rule) hops.newOps
        rw [List.map_map, List.map_map] at this
        exact this
      rw [hcomp.allocated, hops.allocated, List.diff_eq_foldl, ← hrules, List.foldl_map]
      rfl
    refine ⟨fun a => ?_, ?_⟩
    · show o2.enclave.Live a ↔ a ∈ o2.allocated
      rw [hcomp.enclave, hfreed, ht.nodup.mem_sdiff_iff, hst.live h, ht.live]
    · show o2.allocated.Nodup
      rw [hfreed]
      exact ht.nodup.diff

end EvictionStarted

theorem ofprotoEvict_sane (h : Sane o) (hs : ofprotoEvict o = some o') :
    Sane o' ∧ (o.clogged = false ∨ totalSelected o.enclave o.nTables = 0 →
      Tracks o → Tracks o') := by
  obtain ⟨o2, entries, T, n, -, -, hlen, hst, hsubmit⟩ := ofprotoEvict_some h hs
  obtain ⟨hsane, hg, hlt⟩ := hst.sane h
  refine ⟨(ofopgroupSubmit_sane hsane hg hlt hsubmit).1, fun hclean ht => ?_⟩
  refine hst.tracks h hsubmit (hclean.imp id fun hzero => ?_) ht
  rw [hzero, List.length_eq_zero_iff] at hlen
  have hnil := hst.rules
  rw [hlen, List.take_nil, List.map_nil, List.map_eq_nil_iff] at hnil
  exact hnil

end OvsSgx
