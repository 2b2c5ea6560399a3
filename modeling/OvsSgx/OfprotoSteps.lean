/-
OvsSgx.OfprotoSteps — what the functions of `ofproto` are made of.

Whatever a function of `ofproto` does to a bridge after its bulk ecall, it
does by elementary steps: an ecall on a single rule, `ofoperation_destroy`,
`ofoperation_create`, or bookkeeping that concerns neither the enclave nor
what the operations are about. `Steps L o o'` says that such steps lead from
`o` to `o'`, and that `L` is what operations they create. A property of runs
then has to be looked at once for each elementary step.
-/
import Mathlib.Logic.Relation
import OvsSgx.EnclaveRuns
import OvsSgx.OfprotoTheorems

namespace OvsSgx

/-! ## Elementary steps -/

/-- The ecalls on a single rule, with which `ofproto` completes operations and backs out of
them. -/
def Call.isSingle : Call → Bool
  | .clsRuleDestroy _ => true
  | .oftableClassifierReplace _ _ => true
  | .clsRemove _ _ => true
  | .evgAddRule _ _ _ _ _ => true
  | .evgRemoveRule _ _ => true
  | _ => false

/-- The enclave, the rules and the operations are untouched. -/
structure Bookkeeping (o o' : Ofproto) : Prop where
  enclave : o'.enclave = o.enclave
  nextOp : o'.nextOp = o.nextOp
  deletions : o'.deletions = o.deletions
  op : o'.op = o.op
  rule : o'.rule = o.rule

/-- One step of a function that deals with the tables only. -/
inductive TableStep : Ofproto → Ofproto → Prop where
  | bookkeeping {o o' : Ofproto} : Bookkeeping o o' → TableStep o o'
  | ecall {o : Ofproto} {c : Call} {s : Enclave} :
      c.isSingle = true → exec o.enclave c = some s → TableStep o { o with enclave := s }

/-- Steps of functions that deal with the tables only. -/
abbrev TableSteps : Ofproto → Ofproto → Prop := Relation.ReflTransGen TableStep

/-- One step of a bridge that creates no operation. -/
inductive Elementary : Ofproto → Ofproto → Prop where
  | table {o o' : Ofproto} : TableStep o o' → Elementary o o'
  | update (o : Ofproto) (k : OpId) {p : Ofoperation} (group : GroupId → Ofopgroup) :
      p.rule = (o.op k).rule → p.type = (o.op k).type → p.hash = (o.op k).hash →
      Elementary o { o with op := Function.update o.op k p, group := group }
  | release (o : Ofproto) (a : UtAddr) : Elementary o (o.setPending a none)
  | destroy (o : Ofproto) (k : OpId) : Elementary o (ofoperationDestroy o k)

/-- Elementary steps lead from `o` to `o'`, with `L` the operations that are created. -/
inductive Steps : List (OfoperationType × UtAddr) → Ofproto → Ofproto → Prop where
  | refl (o : Ofproto) : Steps [] o o
  | elementary {L : List (OfoperationType × UtAddr)} {o o1 o' : Ofproto} :
      Elementary o o1 → Steps L o1 o' → Steps L o o'
  | create {L : List (OfoperationType × UtAddr)} {o o' : Ofproto} (g : GroupId) (a : UtAddr)
      (type : OfoperationType) (hash : U32) :
      Steps L (o.addOperation g a type hash) o' → Steps ((type, a) :: L) o o'

section Steps

variable {o o' o'' : Ofproto} {L M : List (OfoperationType × UtAddr)} {a : UtAddr} {k : OpId}
  {g : GroupId} {isHidden : Bool}

theorem Elementary.steps (h : Elementary o o') : Steps [] o o' :=
  Steps.elementary h (Steps.refl o')

theorem TableStep.steps (h : TableStep o o') : Steps [] o o' := (Elementary.table h).steps

/-- Nothing differs but the groups, lists, counters and the log. -/
theorem Steps.of_eq (henc : o'.enclave = o.enclave) (hnext : o'.nextOp = o.nextOp)
    (hdel : o'.deletions = o.deletions) (hop : o'.op = o.op) (hrule : o'.rule = o.rule) :
    Steps [] o o' :=
  (TableStep.bookkeeping ⟨henc, hnext, hdel, hop, hrule⟩).steps

theorem Steps.trans (h : Steps L o o') (h' : Steps M o' o'') : Steps (L ++ M) o o'' := by
  induction h with
  | refl => exact h'
  | elementary hstep _ ih => exact Steps.elementary hstep (ih h')
  | create g a type hash _ ih => exact Steps.create g a type hash (ih h')

/-- Steps that create no operation, after others. -/
theorem Steps.then (h : Steps L o o') (h' : Steps [] o' o'') : Steps L o o'' := by
  simpa using h.trans h'

theorem foldlM_steps {β : Type} {f : Ofproto → β → Option Ofproto}
    {created : β → List (OfoperationType × UtAddr)}
    (hstep : ∀ o b o', f o b = some o' → Steps (created b) o o') {l : List β} :
    ∀ {o : Ofproto}, l.foldlM f o = some o' → Steps (l.flatMap created) o o' := by
  induction l with
  | nil =>
    intro o hs
    cases hs
    exact Steps.refl _
  | cons b l ih =>
    intro o hs
    rw [List.foldlM_cons, Option.bind_eq_bind, Option.bind_eq_some_iff] at hs
    obtain ⟨o1, h1, h2⟩ := hs
    rw [List.flatMap_cons]
    exact (hstep _ b o1 h1).trans (ih h2)

/-- The same for rounds that create no operation. -/
theorem foldlM_steps_none {β : Type} {f : Ofproto → β → Option Ofproto}
    (hstep : ∀ o b o', f o b = some o' → Steps [] o o') {l : List β}
    (hs : l.foldlM f o = some o') : Steps [] o o' := by
  have hall := foldlM_steps hstep hs
  rwa [List.flatMap_eq_nil_iff.mpr fun _ _ => rfl] at hall

/-! ## Tables -/

theorem TableSteps.of_eq (henc : o'.enclave = o.enclave) (hnext : o'.nextOp = o.nextOp)
    (hdel : o'.deletions = o.deletions) (hop : o'.op = o.op) (hrule : o'.rule = o.rule) :
    TableSteps o o' :=
  .single (.bookkeeping ⟨henc, hnext, hdel, hop, hrule⟩)

theorem ecall_tableSteps {c : Call} {s : Enclave} (hc : c.isSingle = true)
    (hs : exec o.enclave c = some s) : TableSteps o { o with enclave := s } :=
  .single (.ecall hc hs)

theorem TableSteps.steps (h : TableSteps o o') : Steps [] o o' := by
  induction h with
  | refl => exact Steps.refl o
  | tail _ hstep ih => exact ih.then hstep.steps

/-- They leave the rules and the operations alone. -/
theorem TableSteps.same (h : TableSteps o o') : o'.rule = o.rule ∧ o'.op = o.op := by
  induction h with
  | refl => exact ⟨rfl, rfl⟩
  | tail _ hstep ih =>
    cases hstep with
    | bookkeeping h => exact ⟨h.rule.trans ih.1, h.op.trans ih.2⟩
    | ecall _ _ => exact ih

theorem ofprotoRuleDestroy_steps {a : Option UtAddr} (hs : ofprotoRuleDestroy o a = some o') :
    TableSteps o o' := by
  cases a with
  | none =>
    cases hs
    exact .refl
  | some a =>
    obtain ⟨s, h1, hs⟩ := Option.bind_eq_some_iff.mp hs
    cases hs
    exact (ecall_tableSteps (c := .clsRuleDestroy a) rfl h1).trans
      (TableSteps.of_eq rfl rfl rfl rfl rfl)

theorem evictionGroupRemoveRule_steps (hs : evictionGroupRemoveRule o a = some o') :
    TableSteps o o' := by
  obtain ⟨s, h1, hs⟩ := Option.bind_eq_some_iff.mp hs
  cases hs
  exact ecall_tableSteps (c := .evgRemoveRule (o.rule a).tableId a) rfl h1

theorem evictionGroupAddRule_steps (hs : evictionGroupAddRule o a = some o') :
    TableSteps o o' := by
  unfold evictionGroupAddRule at hs
  split at hs
  · obtain ⟨s, h1, hs⟩ := Option.bind_eq_some_iff.mp hs
    cases hs
    have hrandom : TableSteps o { o with nRandom := o.nRandom + 1 } :=
      TableSteps.of_eq rfl rfl rfl rfl rfl
    exact hrandom.trans (ecall_tableSteps (c := .evgAddRule (o.rule a).tableId a
      (evictionGroupPriority o 0).1 (o.rule a).evictionPriority (o.rule a).evgNode) rfl h1)
  · cases hs
    exact .refl

theorem oftableRemoveRule_steps (hs : oftableRemoveRule o a = some o') : TableSteps o o' := by
  obtain ⟨s, h1, hs⟩ := Option.bind_eq_some_iff.mp hs
  obtain ⟨o1, h2, hs⟩ := Option.bind_eq_some_iff.mp hs
  cases hs
  exact ((ecall_tableSteps (c := .clsRemove (o.rule a).tableId a) rfl h1).trans
    (evictionGroupRemoveRule_steps h2)).trans (TableSteps.of_eq rfl rfl rfl rfl rfl)

theorem unlinkVictim_steps {victim : Option UtAddr} (hs : unlinkVictim o victim = some o') :
    TableSteps o o' := by
  cases victim with
  | none =>
    cases hs
    exact .refl
  | some v =>
    have hunlink : TableSteps o (o.unlinkExpirable v) := TableSteps.of_eq rfl rfl rfl rfl rfl
    exact hunlink.trans (evictionGroupRemoveRule_steps hs)

theorem oftableReplaceRule_steps (hs : oftableReplaceRule o a = some o') : TableSteps o o' := by
  unfold oftableReplaceRule at hs
  dsimp only at hs
  generalize hlink : (if (o.rule a).mayExpire then o.linkExpirable a else o) = o1 at hs
  obtain ⟨⟨s, victim⟩, h1, hs⟩ := Option.bind_eq_some_iff.mp hs
  obtain ⟨o2, h2, hs⟩ := Option.bind_eq_some_iff.mp hs
  have hlinked : TableSteps o o1 := by
    rw [← hlink]
    split <;> exact TableSteps.of_eq rfl rfl rfl rfl rfl
  have hreplace : exec o1.enclave (.oftableClassifierReplace (o1.rule a).tableId a) = some s := by
    rw [exec, h1, Option.map_some]
  exact ((hlinked.trans (ecall_tableSteps rfl hreplace)).trans (unlinkVictim_steps h2)).trans
    (evictionGroupAddRule_steps hs)

theorem oftableSubstituteRule_steps {new : Option UtAddr}
    (hs : oftableSubstituteRule o a new = some o') : TableSteps o o' := by
  cases new with
  | none => exact oftableRemoveRule_steps hs
  | some new => exact oftableReplaceRule_steps hs

/-! ## Completion -/

theorem commitOperation_steps {op : Ofoperation} (hs : commitOperation o op = some o') :
    TableSteps o o' := by
  unfold commitOperation at hs
  split at hs
  · exact ofprotoRuleDestroy_steps hs
  · obtain ⟨o1, h1, hs⟩ := Option.bind_eq_some_iff.mp hs
    exact (oftableSubstituteRule_steps h1).trans (ofprotoRuleDestroy_steps hs)
  · cases hs
    exact TableSteps.of_eq rfl rfl rfl rfl rfl
  · cases hs
  · cases hs
    exact .refl

theorem completeOp_steps (hs : completeOp isHidden o k = some o') : Steps [] o o' := by
  obtain ⟨_, -, hs⟩ := Option.bind_eq_some_iff.mp hs
  obtain ⟨o1, h1, hs⟩ := Option.bind_eq_some_iff.mp hs
  cases hs
  have hrelease := (Elementary.release o (o.op k).rule).steps
  exact (hrelease.then (commitOperation_steps h1).steps).then (Elementary.destroy o1 k).steps

theorem ofopgroupComplete_steps (hs : ofopgroupComplete o g isHidden = some o') :
    Steps [] o o' := by
  obtain ⟨o1, h1, hs⟩ := Option.bind_eq_some_iff.mp hs
  cases hs
  exact (foldlM_steps_none (fun _ _ _ => completeOp_steps) h1).then
    (Steps.of_eq rfl rfl rfl rfl rfl)

theorem ofopgroupSubmit_steps (hs : ofopgroupSubmit o g isHidden = some o') : Steps [] o o' := by
  unfold ofopgroupSubmit at hs
  split at hs
  · exact ofopgroupComplete_steps hs
  · cases hs
    exact Steps.of_eq rfl rfl rfl rfl rfl

theorem ofoperationComplete_steps {error : Option Ofperr}
    (hs : ofoperationComplete o k error = some o') : Steps [] o o' := by
  simp only [ofoperationComplete] at hs
  split at hs
  · have hmark := (Elementary.update o k (p := { o.op k with error := error })
      (Function.update o.group (o.op k).group
        { o.group (o.op k).group with nRunning := (o.group (o.op k).group).nRunning - 1 })
      rfl rfl rfl).steps
    split at hs
    · exact hmark.then (ofopgroupComplete_steps hs)
    · cases hs
      exact hmark
  · cases hs

theorem completeOperation_steps (hs : completeOperation o a = some o') : Steps [] o o' := by
  obtain ⟨k, -, hs⟩ := Option.bind_eq_some_iff.mp hs
  split at hs
  · cases hs
    exact Steps.of_eq rfl rfl rfl rfl rfl
  · exact ofoperationComplete_steps hs

theorem ruleDestruct_steps (hs : ruleDestruct o a = some o') : Steps [] o o' := by
  have hlog : Steps [] o { o with log := o.log ++ [.destruct a] } :=
    Steps.of_eq rfl rfl rfl rfl rfl
  exact hlog.then (completeOperation_steps hs)

theorem completeOperations_steps (hs : completeOperations o = some o') : Steps [] o o' := by
  unfold completeOperations at hs
  split at hs
  · cases hs
    exact Steps.refl o
  · obtain ⟨o1, h1, hs⟩ := Option.bind_eq_some_iff.mp hs
    cases hs
    exact (foldlM_steps_none (fun _ _ _ => ofoperationComplete_steps) h1).then
      (Steps.of_eq rfl rfl rfl rfl rfl)

/-! ## Operations that are created -/

theorem ofopgroupCreate_steps (o : Ofproto) : Steps [] o (ofopgroupCreate o).1 :=
  Steps.of_eq rfl rfl rfl rfl rfl

theorem ofoperationCreate_steps {type : OfoperationType} {hashes : Option U32}
    (hs : ofoperationCreate o g a type hashes = some (o', k)) : Steps [(type, a)] o o' := by
  obtain ⟨hash, rfl, -⟩ := ofoperationCreate_some hs
  exact Steps.create g a type hash (Steps.refl _)

theorem startDeletion_steps {e : UtAddr × U32} (hs : startDeletion g o e = some o') :
    Steps [(.delete, e.1)] o o' := by
  obtain ⟨⟨o1, k⟩, h1, hs⟩ := Option.bind_eq_some_iff.mp hs
  have hunlink : Steps [] o1 (o1.unlinkExpirable e.1) := Steps.of_eq rfl rfl rfl rfl rfl
  exact (ofoperationCreate_steps h1).then (hunlink.then (ruleDestruct_steps hs))

/-- The deletions of `l`, in a group that is then submitted. -/
theorem deletions_steps {l : List (UtAddr × U32)} {o1 : Ofproto}
    (hfold : l.foldlM (startDeletion g) o = some o1)
    (hs : ofopgroupSubmit o1 g isHidden = some o') :
    Steps (l.map fun e => (.delete, e.1)) o o' := by
  have hstep : ∀ o e o', startDeletion g o e = some o' → Steps [(.delete, e.1)] o o' :=
    fun _ _ _ => startDeletion_steps
  have hall := foldlM_steps hstep hfold
  rw [← List.map_eq_flatMap] at hall
  exact hall.then (ofopgroupSubmit_steps hs)

theorem evictEntries_steps {entries : List (UtAddr × U32)} {fuel : Nat} :
    ∀ {i : Nat} {o : Ofproto} {removed removed' : List UtAddr},
    evictEntries g entries fuel i o removed = some (o', removed') →
    ∃ L : List UtAddr, removed' = removed ++ L ∧ Steps (L.map fun a => (.delete, a)) o o' := by
  induction fuel with
  | zero =>
    intro i o removed removed' hs
    cases hs
    exact ⟨[], by simp, Steps.refl _⟩
  | succ fuel ih =>
    intro i o removed removed' hs
    obtain ⟨e, -, hs⟩ := Option.bind_eq_some_iff.mp hs
    split at hs
    · cases hs
      exact ⟨[], by simp, Steps.refl _⟩
    · obtain ⟨⟨o1, k⟩, h1, hs⟩ := Option.bind_eq_some_iff.mp hs
      obtain ⟨L, rfl, hL⟩ := ih hs
      exact ⟨e.1 :: L, by simp, (ofoperationCreate_steps h1).trans hL⟩

/-! ## Adding flows -/

theorem deleteEvicted_steps {out : AddFlowOut} (hs : deleteEvicted o g out = some o') :
    Steps (out.evict.toList.map fun a => (.delete, a)) o o' := by
  unfold deleteEvicted at hs
  cases hev : out.evict with
  | none =>
    rw [hev] at hs
    cases hs
    exact Steps.refl o
  | some e =>
    rw [hev] at hs
    exact startDeletion_steps hs

theorem backOut_steps {cr : UtAddr} {victim : Option UtAddr} {err : Ofperr}
    {error : Option Ofperr} (hs : backOut o cr victim err = some (o', error)) :
    TableSteps o o' ∧ error ≠ none := by
  obtain ⟨o1, h1, hs⟩ := Option.bind_eq_some_iff.mp hs
  obtain ⟨o2, h2, hs⟩ := Option.bind_eq_some_iff.mp hs
  cases hs
  exact ⟨(oftableSubstituteRule_steps h1).trans (ofprotoRuleDestroy_steps h2), by simp⟩

theorem dropOperation_steps (hs : dropOperation o g k = some o') : Steps [] o o' := by
  unfold dropOperation at hs
  dsimp only at hs
  generalize hg : ({ o with group := _ } : Ofproto) = o1 at hs
  have hset : Steps [] o o1 := by
    subst hg
    exact Steps.of_eq rfl rfl rfl rfl rfl
  exact (hset.then (Elementary.destroy o1 k).steps).then (ofopgroupSubmit_steps hs)

/-- Only a call that succeeds deletes the evicted rule. -/
theorem operateAddFlow_steps {cr : UtAddr} {out : AddFlowOut} {construct error : Option Ofperr}
    (hs : operateAddFlow o cr out construct = some (o', error)) :
    (error ≠ none ∧ Steps [(.add, cr)] o o') ∨
      (error = none ∧ Steps ((.add, cr) :: out.evict.toList.map fun a => (.delete, a)) o o') := by
  obtain ⟨⟨o1, k⟩, h1, hs⟩ := Option.bind_eq_some_iff.mp hs
  have hcreate : Steps [(.add, cr)] o o1 :=
    (ofopgroupCreate_steps o).trans (ofoperationCreate_steps h1)
  dsimp only at hs
  have hvictim := (Elementary.update o1 k (p := { o1.op k with victim := out.victim }) o1.group
    rfl rfl rfl).steps
  cases construct with
  | some err =>
    obtain ⟨o3, h3, hs⟩ := Option.bind_eq_some_iff.mp hs
    obtain ⟨hback, herr⟩ := backOut_steps hs
    exact .inl ⟨herr, (hcreate.then hvictim).then ((dropOperation_steps h3).then hback.steps)⟩
  | none =>
    obtain ⟨o3, h3, hs⟩ := Option.bind_eq_some_iff.mp hs
    obtain ⟨o4, h4, hs⟩ := Option.bind_eq_some_iff.mp hs
    obtain ⟨o5, h5, hs⟩ := Option.bind_eq_some_iff.mp hs
    cases hs
    have hstart := (hcreate.then hvictim).then (completeOperation_steps h3)
    exact .inr ⟨rfl, (hstart.trans (deleteEvicted_steps h4)).then (ofopgroupSubmit_steps h5)⟩

theorem finishAddFlow_steps {cr : UtAddr} {out : AddFlowOut} {construct error : Option Ofperr}
    (hs : finishAddFlow o cr out construct = some (o', error)) :
    (error ≠ none ∧ ∃ L, (L = [] ∨ L = [(.add, cr)]) ∧ Steps L o o') ∨
      (error = none ∧ Steps ((.add, cr) :: out.evict.toList.map fun a => (.delete, a)) o o') := by
  have hfree : Steps [] o (ruleDealloc o cr) := Steps.of_eq rfl rfl rfl rfl rfl
  have hlink : Steps [] o (relinkExpirable o cr out.victim) :=
    (Steps.of_eq rfl rfl rfl rfl rfl)
  unfold finishAddFlow at hs
  split at hs
  · cases hs
    exact .inl ⟨by simp, [], .inl rfl, hfree⟩
  · split at hs
    · cases hs
      exact .inl ⟨by simp, [], .inl rfl, hfree⟩
    · split at hs
      · cases hs
        exact .inl ⟨by simp, [], .inl rfl, hfree⟩
      · dsimp only at hs
        split at hs
        · obtain ⟨hback, herr⟩ := backOut_steps hs
          exact .inl ⟨herr, [], .inl rfl, hlink.then hback.steps⟩
        · rcases operateAddFlow_steps hs with ⟨herr, h⟩ | ⟨herr, h⟩
          · exact .inl ⟨herr, _, .inr rfl, hlink.trans h⟩
          · exact .inr ⟨herr, hlink.trans h⟩

end Steps

end OvsSgx
