/-
OvsSgx.FlushRefinement — the flush against the plain flush.

The plain `ofproto_flush__` deletes the rules of the tables that are not
hidden, except those with a pending operation. The one that works on pages
takes out all of them, reads as many entries as the last call has counted,
asserts that none is pending and files every deletion under the hash of the
first. The module says for which bridges the two agree.
-/
import OvsSgx.OfprotoRuns

namespace OvsSgx

/-! ## The plain flush -/

/-- The deletions that are created, each with the key it is filed under. -/
def createdDeletions (events : List Event) : List (UtAddr × U32) :=
  events.filterMap fun
    | .create a .delete hash => some (a, hash)
    | _ => none

/-- The rules for which `rule_destruct` is called. -/
def destructedRules (events : List Event) : List UtAddr :=
  events.filterMap fun
    | .destruct a => some a
    | _ => none

/-- The rules that the plain flush deletes, with their tables. -/
def plainFlushed (o : Ofproto) : List (Nat × RuleId) :=
  (allFlushable o.enclave).filter fun e => !isPending o (some (o.enclave.oClsRule e.2))

/-- What the flush did is what the plain flush does: one deletion, filed under the rule's own
hash, and one `rule_destruct` for each rule that it deletes, and these rules are out of their
tables. -/
structure FlushRefines (o o' : Ofproto) : Prop where
  events : ∃ events, o'.log = o.log ++ events ∧
    (createdDeletions events).Perm ((plainFlushed o).map (entryOf o.enclave)) ∧
    (destructedRules events).Perm ((plainFlushed o).map fun e => o.enclave.oClsRule e.2)
  rules : ∀ i r, r ∈ o'.enclave.rules i ↔ r ∈ o.enclave.rules i ∧ (i, r) ∉ plainFlushed o

/-- No rule to flush is pending, all fit into one page and have the same hash. -/
structure FlushesPlainly (o : Ofproto) : Prop where
  idle : ∀ e ∈ allFlushable o.enclave, isPending o (some (o.enclave.oClsRule e.2)) = false
  onePage : (allFlushable o.enclave).length ≤ defaultBufferSize
  sameHash : ∀ e ∈ allFlushable o.enclave, ∀ e' ∈ allFlushable o.enclave,
    (entryOf o.enclave e).2 = (entryOf o.enclave e').2

theorem createdDeletions_flatMap (l : List (UtAddr × U32)) :
    createdDeletions (l.flatMap deletionEvents) = l := by
  induction l with
  | nil => rfl
  | cons e l ih =>
    rw [List.flatMap_cons, createdDeletions, List.filterMap_append]
    exact congrArg (e :: ·) ih

theorem destructedRules_flatMap (l : List (UtAddr × U32)) :
    destructedRules (l.flatMap deletionEvents) = l.map Prod.fst := by
  induction l with
  | nil => rfl
  | cons e l ih =>
    rw [List.flatMap_cons, destructedRules, List.filterMap_append]
    exact congrArg (e.1 :: ·) ih

/-! ## What the flush does -/

section Flush

variable {o o' o1 : Ofproto} {s' : Enclave} {g : GroupId} {l : List (UtAddr × U32)}

/-- Submitting the deletions changes neither the enclave nor the log. -/
theorem submit_started (h : StartedAll g o o1 l) (hgroup : o.group g = ⟨[], 0⟩)
    (hlive : ∀ e ∈ l, (sgxRuleFromUtCr o1.enclave e.1).isSome) :
    ∃ o', ofopgroupSubmit o1 g false = some o' ∧ o'.enclave = o1.enclave ∧ o'.log = o1.log := by
  rcases submit_deletions false h.toOpsStarted hgroup (.inr hlive) with
    ⟨-, -, hsub⟩ | ⟨-, o2, hdone, hsub⟩
  · exact ⟨_, hsub, rfl, rfl⟩
  · exact ⟨_, hsub, hdone.enclave, hdone.log⟩

/-- The number of entries that `ofproto_flush__` reads. -/
def flushCount (s : Enclave) : Nat :=
  if (allFlushable s).length ≤ defaultBufferSize then (allFlushable s).length
  else (allFlushable s).length - defaultBufferSize

/-- The key under which `ofproto_flush__` files all deletions. -/
def flushKey (s : Enclave) : U32 := (((allFlushable s).map (entryOf s)).map Prod.snd).head?.getD 0#32

/-- The deletions that `ofproto_flush__` starts. -/
def flushDeletions (s : Enclave) : List (UtAddr × U32) :=
  ((allFlushable s).take (flushCount s)).map fun e => (s.oClsRule e.2, flushKey s)

theorem flushCount_le (s : Enclave) : flushCount s ≤ (allFlushable s).length := by
  unfold flushCount
  split <;> omega

/-- `ofproto_flush__`, with what its calls of the enclave return put in. -/
theorem ofprotoFlush_eq (h : Sane o) :
    ∃ s', Cleared (fun _ => True) o.enclave s' ((allFlushable o.enclave).map Prod.snd) ∧
      ofprotoFlush o = ((flushDeletions o.enclave).foldlM (startDeletion o.nextGroup)
        { (ofopgroupCreate o).1 with enclave := s' }).bind
          fun o1 => ofopgroupSubmit o1 o.nextGroup false := by
  obtain ⟨s', hcl, hpages⟩ := flushPages_spec h.enclave
  refine ⟨s', hcl, ?_⟩
  have hread : readEntries ((allFlushable o.enclave).map (entryOf o.enclave))
      (flushCount o.enclave)
      = some (((allFlushable o.enclave).take (flushCount o.enclave)).map (entryOf o.enclave)) := by
    rw [readEntries, if_pos (by rw [List.length_map]; exact flushCount_le _), List.map_take]
  have hlist : (((allFlushable o.enclave).take (flushCount o.enclave)).map (entryOf o.enclave)).map
      (fun e => (e.1, flushKey o.enclave)) = flushDeletions o.enclave := by
    rw [List.map_map]
    rfl
  rw [← hlist]
  show (flushPages o.enclave).bind _ = _
  rw [hpages, Option.bind_some]
  show (readEntries _ (flushCount o.enclave)).bind _ = _
  rw [hread, Option.bind_some]
  rfl

/-- The rules that are flushed have their shadows, and each has its own address. -/
theorem allFlushable_live (h : Sane o) {e : Nat × RuleId} (he : e ∈ allFlushable o.enclave) :
    o.enclave.LiveRule e.2 :=
  h.enclave.live e.1 e.2 (mem_flushList.mp he).2.2

theorem flushDeletions_nodup (h : Sane o) : ((flushDeletions o.enclave).map Prod.fst).Nodup := by
  have hnodup := flushList_nodup h.enclave.toEnclaveOk (List.nodup_range (n := o.enclave.nTables))
  have haddr : (((allFlushable o.enclave).map Prod.snd).map o.enclave.oClsRule).Nodup := by
    refine nodup_addresses h.enclave hnodup fun r hr => ?_
    obtain ⟨e, he, rfl⟩ := List.mem_map.mp hr
    exact allFlushable_live h he
  refine haddr.sublist ?_
  rw [flushDeletions, List.map_map, List.map_map]
  exact (List.take_sublist _ _).map _

theorem flushDeletions_lookup (h : Sane o) {T : List RuleId}
    (hcl : Cleared (fun _ => True) o.enclave s' T) :
    ∀ e ∈ flushDeletions o.enclave, (sgxRuleFromUtCr s' e.1).isSome := by
  intro e he
  obtain ⟨x, hx, rfl⟩ := List.mem_map.mp he
  rw [hcl.lookup, h.enclave.shadows.lookup_self (allFlushable_live h (List.mem_of_mem_take hx))]
  rfl

/-- The outcome of a flush: the rules are out of their tables, and the log shows the
deletions that were started. -/
structure FlushDone (o o' : Ofproto) : Prop where
  cleared : Cleared (fun _ => True) o.enclave o'.enclave ((allFlushable o.enclave).map Prod.snd)
  log : o'.log = o.log ++ (flushDeletions o.enclave).flatMap deletionEvents

/-- If no rule that it reads is pending, the flush runs to its end. -/
theorem ofprotoFlush_of_idle (h : Sane o)
    (hidle : ∀ e ∈ flushDeletions o.enclave, (o.rule e.1).pending = none) :
    ∃ o', ofprotoFlush o = some o' ∧ FlushDone o o' := by
  obtain ⟨s', hcl, heq⟩ := ofprotoFlush_eq h
  have hg : o.nextGroup ∉ o.pending := fun hmem => Nat.lt_irrefl _ (h.groups _ hmem)
  obtain ⟨o1, hfold, hall⟩ := foldlM_startDeletion
    (o := { (ofopgroupCreate o).1 with enclave := s' }) (flushDeletions_nodup h) hidle hg
  have henc : o1.enclave = s' := hall.enclave
  obtain ⟨o', hsub, henc', hlog'⟩ := submit_started hall (by simp [ofopgroupCreate])
    (by rw [henc]; exact flushDeletions_lookup h hcl)
  refine ⟨o', ?_, ?_, ?_⟩
  · rw [heq, hfold]
    exact hsub
  · rw [henc', henc]
    exact hcl
  · rw [hlog', hall.log]
    rfl

/-- A flush that runs to its end. -/
theorem ofprotoFlush_flushed (h : Sane o) (hs : ofprotoFlush o = some o') : FlushDone o o' := by
  obtain ⟨s', hcl, heq⟩ := ofprotoFlush_eq h
  have hg : o.nextGroup ∉ o.pending := fun hmem => Nat.lt_irrefl _ (h.groups _ hmem)
  rw [heq] at hs
  obtain ⟨o1, hfold, hsub⟩ := Option.bind_eq_some_iff.mp hs
  obtain ⟨hall, hidle⟩ := foldlM_startDeletion_some (by exact hg) hfold
  obtain ⟨o2, hs2, hflushed⟩ := ofprotoFlush_of_idle h hidle
  rw [heq, hfold, Option.bind_some] at hs2
  obtain rfl := Option.some.inj (hsub.symm.trans hs2)
  exact hflushed

/-! ## When the two agree -/

theorem plainFlushed_of_idle
    (hidle : ∀ e ∈ allFlushable o.enclave, isPending o (some (o.enclave.oClsRule e.2)) = false) :
    plainFlushed o = allFlushable o.enclave := by
  refine List.filter_eq_self.mpr fun e he => ?_
  rw [hidle e he]
  rfl

/-- All deletions of one page have their own hash as the key if it is the same for all. -/
theorem flushDeletions_eq (h : FlushesPlainly o) :
    flushDeletions o.enclave = (allFlushable o.enclave).map (entryOf o.enclave) := by
  have hcount : flushCount o.enclave = (allFlushable o.enclave).length := if_pos h.onePage
  rw [flushDeletions, hcount, List.take_length]
  refine List.map_congr_left fun e he => ?_
  have hkey : flushKey o.enclave = (entryOf o.enclave e).2 := by
    unfold flushKey
    cases hF : allFlushable o.enclave with
    | nil => simp [hF] at he
    | cons e0 F => exact h.sameHash e0 (by rw [hF]; exact List.mem_cons_self ..) e he
  rw [hkey]
  rfl

/-- A flush that agrees with the plain one has met no pending rule. -/
theorem FlushRefines.idle (hf : FlushDone o o') (h : FlushRefines o o') :
    ∀ e ∈ allFlushable o.enclave, isPending o (some (o.enclave.oClsRule e.2)) = false := by
  intro e he
  have hmem : e.2 ∈ o.enclave.rules e.1 := (mem_flushList.mp he).2.2
  have hgone : e.2 ∉ o'.enclave.rules e.1 := fun hin =>
    (hf.cleared.mem_rules.mp hin).2 (List.mem_map_of_mem he)
  have hplain : (e.1, e.2) ∈ plainFlushed o := by
    by_contra hnot
    exact hgone ((h.rules e.1 e.2).mpr ⟨hmem, hnot⟩)
  simpa using (List.mem_filter.mp hplain).2

theorem FlushRefines.flushesPlainly (hf : FlushDone o o') (h : FlushRefines o o') :
    FlushesPlainly o := by
  have hidle := h.idle hf
  obtain ⟨events, hlog, hcreated, -⟩ := h.events
  obtain rfl := List.append_cancel_left (hf.log.symm.trans hlog)
  rw [createdDeletions_flatMap, plainFlushed_of_idle hidle] at hcreated
  refine ⟨hidle, ?_, fun e he e' he' => ?_⟩
  · have hlen := hcreated.length_eq
    simp only [flushDeletions, List.length_map, List.length_take, flushCount] at hlen
    by_contra hbig
    rw [if_neg hbig] at hlen
    have hpos : 0 < defaultBufferSize := by decide
    omega
  · have hkey : ∀ x ∈ allFlushable o.enclave, (entryOf o.enclave x).2 = flushKey o.enclave := by
      intro x hx
      obtain ⟨y, -, hy⟩ := List.mem_map.mp
        (hcreated.mem_iff.mpr (List.mem_map_of_mem (f := entryOf o.enclave) hx))
      rw [← hy]
    rw [hkey e he, hkey e' he']

theorem FlushesPlainly.refines (hsane : Sane o) (h : FlushesPlainly o) (hf : FlushDone o o') :
    FlushRefines o o' := by
  have hplain := plainFlushed_of_idle h.idle
  have hdel := flushDeletions_eq h
  refine ⟨⟨_, hf.log, ?_, ?_⟩, fun i r => ?_⟩
  · rw [createdDeletions_flatMap, hplain, hdel]
  · rw [destructedRules_flatMap, hplain, hdel, List.map_map]
    rfl
  · rw [hf.cleared.mem_rules, hplain]
    refine and_congr_right fun hr => not_congr ?_
    constructor
    · intro hmem
      obtain ⟨e, he, rfl⟩ := List.mem_map.mp hmem
      obtain rfl := hsane.enclave.disjoint i e.1 e.2 hr (mem_flushList.mp he).2.2
      exact he
    · exact fun hmem => List.mem_map.mpr ⟨(i, r), hmem, rfl⟩

/-- The flush does what the plain flush does if and only if no rule to flush is pending, all
fit into one page and have the same hash. -/
theorem ofprotoFlush_refines_iff (hrun : OfprotoReachable (fun o c => c.Allowed o) o) :
    (∃ o', ofprotoFlush o = some o' ∧ FlushRefines o o') ↔ FlushesPlainly o := by
  have h := hrun.sane fun _ _ hc => hc
  constructor
  · rintro ⟨o', hs, href⟩
    exact href.flushesPlainly (ofprotoFlush_flushed h hs)
  · intro hplain
    have hidle : ∀ e ∈ flushDeletions o.enclave, (o.rule e.1).pending = none := by
      rw [flushDeletions_eq hplain]
      intro e he
      obtain ⟨x, hx, rfl⟩ := List.mem_map.mp he
      exact Option.isNone_iff_eq_none.mp (Option.isSome_eq_false_iff.mp (hplain.idle x hx))
    obtain ⟨o', hs, hf⟩ := ofprotoFlush_of_idle h hidle
    exact ⟨o', hs, hplain.refines h hf⟩

end Flush

/-! ## One flow and two flows -/

theorem oneFlow_flush :
    FlushesPlainly oneFlow ∧ (allFlushable oneFlow.enclave).length = 1 ∧
      ∃ o', ofprotoFlush oneFlow = some o' ∧ FlushRefines oneFlow o' := by
  have hone : allFlushable oneFlow.enclave = [(0, 0)] := by decide +kernel
  have hplain : FlushesPlainly oneFlow := by
    refine ⟨fun e he => ?_, by rw [hone]; decide, fun e he e' he' => ?_⟩
    · rw [hone] at he
      rw [List.mem_singleton.mp he]
      decide +kernel
    · rw [hone] at he he'
      rw [List.mem_singleton.mp he, List.mem_singleton.mp he']
  exact ⟨hplain, by rw [hone]; rfl, (ofprotoFlush_refines_iff oneFlow_reachable).mpr hplain⟩

/-- A bridge with two flows that expire. -/
def twoFlows : Ofproto := oneFlow.after (.addFlow (expiringFlow 8#32 1) (ruleAt 2#64) none)

theorem twoFlows_reachable : OfprotoReachable (fun o c => c.Allowed o) twoFlows :=
  oneFlow_reachable.after (show Enclave.NewAddr _ 2#64 by decide +kernel)

/-- The second deletion is filed under the hash of the first rule. -/
theorem twoFlows_flush_not_plain :
    ¬ ∀ o, OfprotoReachable (fun o c => c.Allowed o) o →
      ∃ o', ofprotoFlush o = some o' ∧ FlushRefines o o' := by
  intro hall
  obtain ⟨o', hs, href⟩ := hall twoFlows twoFlows_reachable
  have hplain := href.flushesPlainly
    (ofprotoFlush_flushed (twoFlows_reachable.sane fun _ _ hc => hc) hs)
  have hsame := hplain.sameHash (0, 0) (by decide +kernel) (0, 1) (by decide +kernel)
  exact absurd hsame (by decide +kernel)

end OvsSgx
