/-
OvsSgx.TaggedOfproto — a bridge with what its enclave keeps for tags.

The operations of `Ofproto` again, with the calls in which the provider and
`SGX_table_dpif` meet: `complete_operation` runs `rule_invalidate`, which
has the two subtables of the rule's table recorded anew, and before that
`rule_destruct` revalidates the facets of its rule, and a facet that comes
to another table has `tag_the_flow` look at what is recorded. A facet is
also translated when the statistics for a flow-removed message are read,
and a buffered packet when its group is complete. `consults` is the history
of what was there to be looked at.

Which translations there are comes from outside. `ofproto_flush__` and
`rule_expire` get rid of the facets before they delete a rule, and flushing
and `ofproto_evict` send no message. What the bridge itself does is as in
`Ofproto`.
-/
import OvsSgx.OfprotoRuns
import OvsSgx.Taggable

namespace OvsSgx

/-! ## State -/

/-- The classifiers of a bridge, its `SGX_table_dpif`, and for each table the masks that the
subtables had when two of them were recorded. -/
structure TagView where
  cls : Nat → Classifier
  dpif : Nat → TableDpif
  recordedMask : Nat → TableId → Minimask

/-- A bridge, what its enclave keeps for tags, and what `tag_the_flow` has come upon. -/
structure TaggedOfproto where
  ofproto : Ofproto
  dpif : Nat → TableDpif
  recordedMask : Nat → TableId → Minimask
  consults : List TagView

/-- Subtable `t` is recorded for table `i`. -/
def TagView.Recorded (v : TagView) (i : Nat) (t : TableId) : Prop :=
  (v.dpif i).catchallTable = some t ∨ (v.dpif i).otherTable = some t

/-- A subtable that is recorded for table `i` is in its classifier and has the mask that it had
then. -/
def TagView.PointersLive (v : TagView) : Prop :=
  ∀ i t, v.Recorded i t →
    t ∈ (v.cls i).tables.values ∧ ((v.cls i).table t).mask = v.recordedMask i t

/-- The translations of a call that come to `tag_the_flow`: those of the facets of a rule when it
is destructed; those for which `rule_get_stats` pushes statistics when the flow-removed message of
a rule is sent, which happens if the rule is not hidden and has `send_flow_removed`; and that of
the packet that was buffered for the call. -/
structure Translations where
  facets : UtAddr → Bool
  removed : UtAddr → Bool
  packet : Bool

/-- Nothing is translated. -/
def noTranslations : Translations := ⟨fun _ => false, fun _ => false, false⟩

namespace TaggedOfproto

/-- What is recorded, and for which classifiers. -/
def view (s : TaggedOfproto) : TagView :=
  ⟨fun i => (s.ofproto.enclave.oftable i).cls, s.dpif, s.recordedMask⟩

/-- The state with another bridge. -/
def withOfproto (s : TaggedOfproto) (o : Ofproto) : TaggedOfproto := { s with ofproto := o }

/-- A step of the bridge that does not call the provider. -/
def run (s : TaggedOfproto) (f : Ofproto → Option Ofproto) : Option TaggedOfproto :=
  (f s.ofproto).map s.withOfproto

/-- `tag_the_flow` looks at what is recorded. -/
def consult (s : TaggedOfproto) : TaggedOfproto := { s with consults := s.consults ++ [s.view] }

/-- `tag_the_flow` looks if there is a translation. -/
def consultIf (s : TaggedOfproto) (translated : Bool) : TaggedOfproto :=
  if translated then s.consult else s

/-- The part of `rule_invalidate` that runs in the enclave. -/
def updateTaggable (s : TaggedOfproto) (i : Nat) : TaggedOfproto :=
  let (bridge, todo) := ecallOftableUpdateTaggable ⟨s.ofproto.enclave, s.dpif⟩ i
  let masks := fun t => ((s.ofproto.enclave.oftable i).cls.table t).mask
  { s with
    dpif := bridge.dpif
    recordedMask :=
      if todo = revFlowTable then Function.update s.recordedMask i masks else s.recordedMask }

/-! ## Operations -/

/-- `complete_operation`. -/
def completeOperation (s : TaggedOfproto) (a : UtAddr) : Option TaggedOfproto :=
  (s.updateTaggable (s.ofproto.rule a).tableId).run (OvsSgx.completeOperation · a)

/-- `rule_destruct`, for a rule with facets or without. -/
def ruleDestruct (tags : Translations) (s : TaggedOfproto) (a : UtAddr) :
    Option TaggedOfproto :=
  let s := s.consultIf (tags.facets a)
  (s.withOfproto { s.ofproto with log := s.ofproto.log ++ [.destruct a] }).completeOperation a

/-- Start the deletion of a rule that the enclave has taken out of its table. The flow-removed
message is sent first. -/
def startDeletion (tags : Translations) (g : GroupId) (s : TaggedOfproto) (e : UtAddr × U32) :
    Option TaggedOfproto := do
  let s := s.consultIf (tags.removed e.1)
  let (o, _) ← ofoperationCreate s.ofproto g e.1 .delete (some e.2)
  (s.withOfproto (o.unlinkExpirable e.1)).ruleDestruct tags e.1

/-- The part of `add_flow` that deals with the evicted rule. -/
def deleteEvicted (tags : Translations) (s : TaggedOfproto) (g : GroupId) (out : AddFlowOut) :
    Option TaggedOfproto :=
  match out.evict with
  | none => some s
  | some e => s.startDeletion tags g (e, out.evictRuleHash)

/-- `add_flow` after its label `exit`. -/
def backOut (s : TaggedOfproto) (cr : UtAddr) (victim : Option UtAddr) (error : Ofperr) :
    Option (TaggedOfproto × Option Ofperr) := do
  let (o, error) ← OvsSgx.backOut s.ofproto cr victim error
  return (s.withOfproto o, error)

/-- `add_flow` from the creation of its operation on. -/
def operateAddFlow (tags : Translations) (s : TaggedOfproto) (cr : UtAddr) (out : AddFlowOut)
    (construct : Option Ofperr) : Option (TaggedOfproto × Option Ofperr) := do
  let (o, g) := ofopgroupCreate s.ofproto
  let (o, k) ← ofoperationCreate o g cr .add none
  let o := { o with op := Function.update o.op k { o.op k with victim := out.victim } }
  let s := s.withOfproto o
  match construct with
  | some error =>
    let s ← s.run fun o => dropOperation o g k
    s.backOut cr out.victim error
  | none =>
    let s ← s.completeOperation cr
    let s ← s.deleteEvicted tags g out
    let s ← (s.consultIf tags.packet).run fun o => ofopgroupSubmit o g false
    return (s, none)

/-- `add_flow`, from the outputs of `SGX_add_flow` on. -/
def finishAddFlow (tags : Translations) (s : TaggedOfproto) (cr : UtAddr) (out : AddFlowOut)
    (construct : Option Ofperr) : Option (TaggedOfproto × Option Ofperr) :=
  if out.isReadOnly then some (s.withOfproto (ruleDealloc s.ofproto cr), some .eperm)
  else if out.isDeletionPending then
    some (s.withOfproto (ruleDealloc s.ofproto cr), some .postpone)
  else if out.isRuleOverlapping then
    some (s.withOfproto (ruleDealloc s.ofproto cr), some .overlap)
  else
    let s := s.withOfproto (relinkExpirable s.ofproto cr out.victim)
    match addFlowError s.ofproto out with
    | some error => s.backOut cr out.victim error
    | none => s.operateAddFlow tags cr out construct

/-- `add_flow`. -/
def addFlow (tags : Translations) (s : TaggedOfproto) (fm : FlowMod) (new : NewRule)
    (construct : Option Ofperr) : Option (TaggedOfproto × Option Ofperr) :=
  if fm.tableId ≠ 0xff ∧ s.ofproto.nTables ≤ fm.tableId then some (s, some .badTableId)
  else do
    let (groupPriority, o) := evictionGroupPriority (allocRule s.ofproto fm new) 0
    let (enclave, out) ← ecallAddFlow o.enclave (addFlowArgs o fm new.cr groupPriority)
    (s.withOfproto { o with enclave := enclave }).finishAddFlow tags new.cr out construct

/-- `delete_flows__`. -/
def deleteFlows (tags : Translations) (s : TaggedOfproto) (rules : List UtAddr) :
    Option TaggedOfproto := do
  let (o, g) := ofopgroupCreate s.ofproto
  let (enclave, deleted) ← ecallDeleteFlows o.enclave (rules.map fun a => ((o.rule a).tableId, a))
  let s ← (rules.zip (deleted.map DeletedFlow.hash)).foldlM (startDeletion tags g)
    (s.withOfproto { o with enclave := enclave })
  s.run fun o => ofopgroupSubmit o g false

/-- `ofproto_rule_expire`; `rule_expire` has removed the facets of the rule. -/
def ofprotoRuleExpire (tags : Translations) (s : TaggedOfproto) (a : UtAddr) :
    Option TaggedOfproto :=
  if (s.ofproto.rule a).pending.isSome then some s
  else do
    let _ ← ofprotoRuleIsHidden s.ofproto a
    let s := s.consultIf (tags.removed a)
    let (o, g) := ofopgroupCreate s.ofproto
    let (o, _) ← ofoperationCreate o g a .delete none
    let o ← oftableRemoveRule o a
    let s ← (s.withOfproto o).ruleDestruct noTranslations a
    s.run fun o => ofopgroupSubmit o g false

/-- `ofproto_flush__`; the provider's `flush` has removed all facets. -/
def ofprotoFlush (s : TaggedOfproto) : Option TaggedOfproto := do
  let (o, g) := ofopgroupCreate s.ofproto
  let (enclave, entries, nRules) ← flushPages o.enclave
  let read ← readEntries entries nRules
  let hash := ((entries.map Prod.snd).head?).getD 0#32
  let s ← (read.map fun e => (e.1, hash)).foldlM (startDeletion noTranslations g)
    (s.withOfproto { o with enclave := enclave })
  s.run fun o => ofopgroupSubmit o g false

/-- `ofproto_evict`. -/
def ofprotoEvict (tags : Translations) (s : TaggedOfproto) : Option TaggedOfproto := do
  let (o, g) := ofopgroupCreate s.ofproto
  let (enclave, entries, total) ← evictPages o.enclave o.nTables
  let (o, removed) ← evictEntries g entries total 0 { o with enclave := enclave } []
  let (enclave, _) ←
    ecallOftableRemoveRules o.enclave (removed.map fun a => ((o.rule a).tableId, a))
  let s ← removed.foldlM
    (fun s a => (s.withOfproto (s.ofproto.unlinkExpirable a)).ruleDestruct tags a)
    (s.withOfproto { o with enclave := enclave })
  s.run fun o => ofopgroupSubmit o g true

/-! ## The bridge without the tags -/

section Erase

variable {α β γ δ : Type} (tags : Translations) (s : TaggedOfproto)

/-- Two computations that agree under a map, one step after the other. -/
theorem map_bind_of_map {F : Option α} {F' : Option γ} {G : α → Option β} {G' : γ → Option δ}
    {f : α → γ} {h : β → δ} (hF : F.map f = F') (hG : ∀ x, (G x).map h = G' (f x)) :
    (F.bind G).map h = F'.bind G' := by
  rw [← hF]
  cases F with
  | none => rfl
  | some x => exact hG x

theorem map_bind_congr {F : Option α} {G : α → Option β} {G' : α → Option δ} {h : β → δ}
    (hG : ∀ x, (G x).map h = G' x) : (F.bind G).map h = F.bind G' := by
  rw [Option.map_bind]
  exact congrArg F.bind (funext hG)

theorem foldlM_ofproto {f : TaggedOfproto → α → Option TaggedOfproto}
    {f' : Ofproto → α → Option Ofproto} (h : ∀ s x, (f s x).map ofproto = f' s.ofproto x)
    (l : List α) : ∀ s, (l.foldlM f s).map ofproto = l.foldlM f' s.ofproto := by
  induction l with
  | nil => exact fun _ => rfl
  | cons x l ih =>
    intro s
    rw [List.foldlM_cons, List.foldlM_cons]
    exact map_bind_of_map (h s x) ih

@[simp] theorem consultIf_ofproto (translated : Bool) :
    (s.consultIf translated).ofproto = s.ofproto := by
  cases translated <;> rfl

@[simp] theorem run_ofproto (f : Ofproto → Option Ofproto) :
    (s.run f).map ofproto = f s.ofproto := by
  unfold run
  rw [Option.map_map]
  exact Option.map_id'

theorem completeOperation_ofproto (a : UtAddr) :
    (s.completeOperation a).map ofproto = OvsSgx.completeOperation s.ofproto a :=
  run_ofproto _ _

theorem ruleDestruct_ofproto (a : UtAddr) :
    (s.ruleDestruct tags a).map ofproto = OvsSgx.ruleDestruct s.ofproto a := by
  unfold ruleDestruct OvsSgx.ruleDestruct
  dsimp only
  rw [completeOperation_ofproto, consultIf_ofproto]
  rfl

theorem startDeletion_ofproto (g : GroupId) (e : UtAddr × U32) :
    (s.startDeletion tags g e).map ofproto = OvsSgx.startDeletion g s.ofproto e := by
  unfold startDeletion
  dsimp only
  rw [consultIf_ofproto]
  exact map_bind_congr fun _ => ruleDestruct_ofproto tags _ e.1

theorem deleteEvicted_ofproto (g : GroupId) (out : AddFlowOut) :
    (s.deleteEvicted tags g out).map ofproto = OvsSgx.deleteEvicted s.ofproto g out := by
  unfold deleteEvicted OvsSgx.deleteEvicted
  cases out.evict with
  | none => rfl
  | some e => exact startDeletion_ofproto tags s g (e, out.evictRuleHash)

/-- A loop that deletes rules, and the submission of the group. -/
theorem deletions_ofproto (g : GroupId) (l : List (UtAddr × U32)) (isHidden : Bool) :
    ((l.foldlM (startDeletion tags g) s).bind fun s =>
        s.run fun o => ofopgroupSubmit o g isHidden).map ofproto
      = (l.foldlM (OvsSgx.startDeletion g) s.ofproto).bind fun o => ofopgroupSubmit o g isHidden :=
  map_bind_of_map (foldlM_ofproto (fun s e => startDeletion_ofproto tags s g e) l s)
    fun s => run_ofproto s _

theorem deleteFlows_ofproto (rules : List UtAddr) :
    (s.deleteFlows tags rules).map ofproto = OvsSgx.deleteFlows s.ofproto rules :=
  map_bind_congr fun _ => deletions_ofproto tags _ _ _ false

theorem ofprotoFlush_ofproto :
    s.ofprotoFlush.map ofproto = OvsSgx.ofprotoFlush s.ofproto := by
  refine map_bind_congr fun pages => ?_
  refine map_bind_congr fun read => ?_
  exact deletions_ofproto _ _ _ _ false

theorem ofprotoEvict_ofproto :
    (s.ofprotoEvict tags).map ofproto = OvsSgx.ofprotoEvict s.ofproto := by
  refine map_bind_congr fun pages => ?_
  refine map_bind_congr fun created => ?_
  refine map_bind_congr fun removed => ?_
  exact map_bind_of_map (foldlM_ofproto (fun s a => ruleDestruct_ofproto tags
    (s.withOfproto (s.ofproto.unlinkExpirable a)) a) _ _) fun s => run_ofproto s _

theorem ofprotoRuleExpire_ofproto (a : UtAddr) :
    (s.ofprotoRuleExpire tags a).map ofproto = OvsSgx.ofprotoRuleExpire s.ofproto a := by
  unfold ofprotoRuleExpire OvsSgx.ofprotoRuleExpire
  split
  · rfl
  · refine map_bind_congr fun hidden => ?_
    dsimp only
    rw [consultIf_ofproto]
    refine map_bind_congr fun created => ?_
    refine map_bind_congr fun o => ?_
    exact map_bind_of_map (ruleDestruct_ofproto _ _ a) fun s => run_ofproto s _

/-- The bridge in the result of `add_flow`. -/
def eraseResult (r : TaggedOfproto × Option Ofperr) : Ofproto × Option Ofperr := (r.1.ofproto, r.2)

theorem backOut_ofproto (cr : UtAddr) (victim : Option UtAddr) (error : Ofperr) :
    (s.backOut cr victim error).map eraseResult = OvsSgx.backOut s.ofproto cr victim error := by
  unfold backOut
  cases OvsSgx.backOut s.ofproto cr victim error <;> rfl

theorem operateAddFlow_ofproto (cr : UtAddr) (out : AddFlowOut) (construct : Option Ofperr) :
    (s.operateAddFlow tags cr out construct).map eraseResult
      = OvsSgx.operateAddFlow s.ofproto cr out construct := by
  refine map_bind_congr fun created => ?_
  cases construct with
  | some error => exact map_bind_of_map (run_ofproto _ _) fun s => backOut_ofproto s _ _ _
  | none =>
    refine map_bind_of_map (completeOperation_ofproto _ cr) fun s => ?_
    refine map_bind_of_map (deleteEvicted_ofproto tags s _ out) fun s => ?_
    have hsubmit : ∀ g, ((s.consultIf tags.packet).run fun o => ofopgroupSubmit o g false).map
        ofproto = ofopgroupSubmit s.ofproto g false := fun g => by
      rw [run_ofproto, consultIf_ofproto]
    exact map_bind_of_map (hsubmit _) fun s => rfl

theorem finishAddFlow_ofproto (cr : UtAddr) (out : AddFlowOut) (construct : Option Ofperr) :
    (s.finishAddFlow tags cr out construct).map eraseResult
      = OvsSgx.finishAddFlow s.ofproto cr out construct := by
  unfold finishAddFlow OvsSgx.finishAddFlow
  split
  · rfl
  · split
    · rfl
    · split
      · rfl
      · dsimp only
        split
        · rename_i herr
          rw [show addFlowError (relinkExpirable s.ofproto cr out.victim) out = _ from herr]
          exact backOut_ofproto _ _ _ _
        · rename_i herr
          rw [show addFlowError (relinkExpirable s.ofproto cr out.victim) out = _ from herr]
          exact operateAddFlow_ofproto tags _ _ _ _

theorem addFlow_ofproto (fm : FlowMod) (new : NewRule) (construct : Option Ofperr) :
    (s.addFlow tags fm new construct).map eraseResult
      = OvsSgx.addFlow s.ofproto fm new construct := by
  unfold addFlow OvsSgx.addFlow
  split
  · rfl
  · exact map_bind_congr fun _ => finishAddFlow_ofproto tags _ _ _ _

end Erase

end TaggedOfproto

/-! ## Runs -/

/-- A call into the bridge, with the translations in its course, or a translation by itself that
comes to `tag_the_flow`. -/
inductive TaggedCall where
  | call (c : BridgeCall) (tags : Translations)
  | xlate

/-- The state after a call, `none` if the call is undefined. -/
def TaggedCall.run (s : TaggedOfproto) : TaggedCall → Option TaggedOfproto
  | .call (.addFlow fm new construct) tags => (s.addFlow tags fm new construct).map Prod.fst
  | .call (.deleteFlows rules) tags => s.deleteFlows tags rules
  | .call .flush _ => s.ofprotoFlush
  | .call .evict tags => s.ofprotoEvict tags
  | .call (.ruleExpire a) tags => s.ofprotoRuleExpire tags a
  | .call .completeOperations tags =>
    (s.consultIf tags.packet).run fun o => BridgeCall.completeOperations.run o
  | .call c _ => s.run fun o => c.run o
  | .xlate => some s.consult

/-- A call does to the bridge what it does without the tags. -/
theorem TaggedCall.run_ofproto (s : TaggedOfproto) (c : BridgeCall) (tags : Translations) :
    ((TaggedCall.call c tags).run s).map TaggedOfproto.ofproto = c.run s.ofproto := by
  cases c with
  | addFlow fm new construct =>
    have h := congrArg (Option.map Prod.fst) (s.addFlow_ofproto tags fm new construct)
    rw [Option.map_map] at h
    rw [TaggedCall.run, Option.map_map]
    exact h
  | deleteFlows rules => exact s.deleteFlows_ofproto tags rules
  | flush => exact s.ofprotoFlush_ofproto
  | evict => exact s.ofprotoEvict_ofproto tags
  | ruleExpire a => exact s.ofprotoRuleExpire_ofproto tags a
  | completeOperations =>
    rw [TaggedCall.run, TaggedOfproto.run_ofproto, TaggedOfproto.consultIf_ofproto]
  | clog clogged => exact s.run_ofproto fun o => (BridgeCall.clog clogged).run o
  | configure c => exact s.run_ofproto fun o => (BridgeCall.configure c).run o

/-- What the caller promises. -/
def TaggedCall.Allowed (s : TaggedOfproto) : TaggedCall → Prop
  | .call c _ => c.Allowed s.ofproto
  | .xlate => True

/-- The states of a bridge that calls with property `G` lead to. -/
inductive TaggedReachable (G : TaggedOfproto → TaggedCall → Prop) : TaggedOfproto → Prop where
  | create (nTables : Nat) (enclaveRandom random : Nat → BitVec 16) (basis : Nat → U32)
      (recordedMask : Nat → TableId → Minimask) :
      0 < nTables → TaggedReachable G
        ⟨ofprotoCreate nTables enclaveRandom random, sgxTableDpifInit basis, recordedMask, []⟩
  | step {s s' : TaggedOfproto} (c : TaggedCall) :
      TaggedReachable G s → G s c → c.run s = some s' → TaggedReachable G s'

end OvsSgx
