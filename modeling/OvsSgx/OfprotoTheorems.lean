/-
OvsSgx.OfprotoTheorems — operations on rules, step by step.

What starting a deletion does to the state of the bridge, what a list of
deletions in one group does, and what completing a group of deletions does.
None of this reaches into the enclave's tables: the enclave has taken the
rules out before.
-/
import OvsSgx.Ofproto
import OvsSgx.EnclaveTheorems

namespace OvsSgx

variable {o o' : Ofproto} {g : GroupId} {a : UtAddr} {k : OpId}

/-! ## One deletion -/

theorem setPending_rule (o : Ofproto) (a b : UtAddr) (k : Option OpId) :
    ((o.setPending a k).rule b).tableId = (o.rule b).tableId ∧
      ((o.setPending a k).rule b).mayExpire = (o.rule b).mayExpire := by
  unfold Ofproto.setPending
  rcases eq_or_ne b a with rfl | hba
  · simp [Rule.mayExpire]
  · simp [hba]

/-- Deletion `e` has been started in group `g`: it is completed already, but for the group,
unless the provider is clogged. -/
structure Started (g : GroupId) (o o' : Ofproto) (e : UtAddr × U32) : Prop where
  enclave : o'.enclave = o.enclave
  nTables : o'.nTables = o.nTables
  allocated : o'.allocated = o.allocated
  pending : o'.pending = o.pending
  clogged : o'.clogged = o.clogged
  nextGroup : o'.nextGroup = o.nextGroup
  expirable : o'.expirable = o.expirable.erase e.1
  log : o'.log = o.log ++ [.create e.1 .delete e.2, .destruct e.1]
  nextOp : o'.nextOp = o.nextOp + 1
  op : o'.op = Function.update o.op o.nextOp ⟨g, e.1, .delete, e.2, none, none⟩
  rule : o'.rule = Function.update o.rule e.1 { o.rule e.1 with pending := some o.nextOp }
  group : o'.group = Function.update o.group g
    ⟨(o.group g).ops ++ [o.nextOp], (o.group g).nRunning + if o.clogged then 1 else 0⟩
  deletions : o'.deletions = hmapInsert o.deletions o.nextOp e.2.toNat
  completions : o'.completions = o.completions ++ if o.clogged then [o.nextOp] else []

theorem ofoperationCreate_delete (hp : (o.rule a).pending = none) (hash : U32) :
    ofoperationCreate o g a .delete (some hash)
      = some (o.addOperation g a .delete hash, o.nextOp) := by
  simp [ofoperationCreate, hp, deletionHash]

/-- A rule with a pending operation cannot get another. -/
theorem ofoperationCreate_pending (hp : (o.rule a).pending ≠ none) (type : OfoperationType)
    (hashes : Option U32) : ofoperationCreate o g a type hashes = none := by
  rw [ofoperationCreate, if_pos (Option.isSome_iff_ne_none.mpr hp)]

/-- An operation that could be created. -/
theorem ofoperationCreate_some {type : OfoperationType} {hashes : Option U32}
    (hs : ofoperationCreate o g a type hashes = some (o', k)) :
    ∃ hash, o' = o.addOperation g a type hash ∧ k = o.nextOp := by
  unfold ofoperationCreate at hs
  split at hs
  · cases hs
  · split at hs
    · obtain ⟨hash, -, hs⟩ := Option.bind_eq_some_iff.mp hs
      cases hs
      exact ⟨hash, rfl, rfl⟩
    · cases hs
      exact ⟨0#32, rfl, rfl⟩

theorem startDeletion_pending {e : UtAddr × U32} (hp : (o.rule e.1).pending ≠ none) :
    startDeletion g o e = none := by
  rw [startDeletion, ofoperationCreate_pending hp]
  rfl

/-- Completing the one running operation of a group that is not submitted. -/
theorem ofoperationComplete_unsubmitted (hp : (o.rule (o.op k).rule).pending = some k)
    (hrun : 0 < (o.group (o.op k).group).nRunning) (hg : (o.op k).group ∉ o.pending) :
    ofoperationComplete o k none = some { o with
      op := Function.update o.op k { o.op k with error := none }
      group := Function.update o.group (o.op k).group
        ⟨(o.group (o.op k).group).ops, (o.group (o.op k).group).nRunning - 1⟩ } := by
  simp [ofoperationComplete, hp, hrun, hg]

/-- A rule without a pending operation: its deletion can be started. -/
theorem startDeletion_started {e : UtAddr × U32} (hp : (o.rule e.1).pending = none)
    (hg : g ∉ o.pending) : ∃ o', startDeletion g o e = some o' ∧ Started g o o' e := by
  let o1 : Ofproto := { (o.addOperation g e.1 .delete e.2).unlinkExpirable e.1 with
    log := o.log ++ [.create e.1 .delete e.2] ++ [.destruct e.1] }
  have hpend : (o1.rule e.1).pending = some o.nextOp := by
    simp [o1, Ofproto.unlinkExpirable, Ofproto.addOperation, Ofproto.setPending]
  have hop : o1.op o.nextOp = ⟨g, e.1, .delete, e.2, none, none⟩ := by
    simp [o1, Ofproto.unlinkExpirable, Ofproto.addOperation]
  have hgroup : o1.group g = ⟨(o.group g).ops ++ [o.nextOp], (o.group g).nRunning + 1⟩ := by
    simp [o1, Ofproto.unlinkExpirable, Ofproto.addOperation]
  have hstart : startDeletion g o e = completeOperation o1 e.1 := by
    rw [startDeletion, ofoperationCreate_delete hp]
    rfl
  rw [hstart, completeOperation, hpend, Option.bind_eq_bind, Option.bind_some]
  cases hc : o.clogged with
  | true =>
    have hc1 : o1.clogged = true := hc
    rw [if_pos hc1]
    refine ⟨_, rfl, rfl, rfl, rfl, rfl, rfl, rfl, rfl, ?_, rfl, rfl, rfl, ?_, rfl, ?_⟩
    · simp [o1]
    · simp [o1, Ofproto.unlinkExpirable, Ofproto.addOperation, hc]
    · simp [o1, Ofproto.unlinkExpirable, Ofproto.addOperation, hc, Ofproto.setPending]
  | false =>
    have hc1 : ¬ o1.clogged = true := by
      show ¬ o.clogged = true
      simp [hc]
    rw [if_neg hc1, ofoperationComplete_unsubmitted (by rw [hop]; exact hpend)
      (by rw [hop, hgroup]; exact Nat.succ_pos _) (by rw [hop]; exact hg)]
    refine ⟨_, rfl, rfl, rfl, rfl, rfl, rfl, rfl, rfl, ?_, rfl, ?_, rfl, ?_, rfl, ?_⟩
    · simp [o1]
    · simp only [hop]
      exact Function.update_idem ..
    · simp only [hop, hgroup, hc]
      exact Function.update_idem ..
    · simp [o1, Ofproto.unlinkExpirable, Ofproto.addOperation, hc, Ofproto.setPending]

/-! ## A list of deletions -/

/-- The operation for deletion `e` in group `g`. -/
def deletionOp (g : GroupId) (e : UtAddr × U32) : Ofoperation := ⟨g, e.1, .delete, e.2, none, none⟩

/-- What the log shows of deletion `e`. -/
def deletionEvents (e : UtAddr × U32) : List Event := [.create e.1 .delete e.2, .destruct e.1]

/-- The operations for the deletions `l` have been created in group `g`, and completed but
for the group unless the provider is clogged. -/
structure OpsStarted (g : GroupId) (o o' : Ofproto) (l : List (UtAddr × U32)) : Prop where
  nTables : o'.nTables = o.nTables
  allocated : o'.allocated = o.allocated
  pending : o'.pending = o.pending
  clogged : o'.clogged = o.clogged
  nextGroup : o'.nextGroup = o.nextGroup
  nextOp : o'.nextOp = o.nextOp + l.length
  oldOp : ∀ k < o.nextOp, o'.op k = o.op k
  newOps : (List.range' o.nextOp l.length).map o'.op = l.map (deletionOp g)
  rule : ∀ a, a ∉ l.map Prod.fst → o'.rule a = o.rule a
  tableId : ∀ a, (o'.rule a).tableId = (o.rule a).tableId
  ops : (o'.group g).ops = (o.group g).ops ++ List.range' o.nextOp l.length
  nRunning : (o'.group g).nRunning
    = (o.group g).nRunning + if o.clogged then l.length else 0
  otherGroups : ∀ g', g' ≠ g → o'.group g' = o.group g'
  deletions : o'.deletions.values.Perm (o.deletions.values ++ List.range' o.nextOp l.length)
  completions : o'.completions
    = o.completions ++ if o.clogged then List.range' o.nextOp l.length else []

/-- The deletions `l` have been started in group `g`, one after the other. -/
structure StartedAll (g : GroupId) (o o' : Ofproto) (l : List (UtAddr × U32)) : Prop
    extends OpsStarted g o o' l where
  enclave : o'.enclave = o.enclave
  expirable : o'.expirable = o.expirable.diff (l.map Prod.fst)
  log : o'.log = o.log ++ l.flatMap deletionEvents

theorem OpsStarted.nil (g : GroupId) (o : Ofproto) : OpsStarted g o o [] := by
  constructor <;> simp

theorem StartedAll.nil (g : GroupId) (o : Ofproto) : StartedAll g o o [] :=
  ⟨OpsStarted.nil g o, rfl, rfl, by simp⟩

theorem Started.tableId {e : UtAddr × U32} (h : Started g o o' e) (b : UtAddr) :
    (o'.rule b).tableId = (o.rule b).tableId := by
  rw [h.rule]
  rcases eq_or_ne b e.1 with rfl | hb
  · rw [Function.update_self]
  · rw [Function.update_of_ne hb]

theorem StartedAll.cons {o1 : Ofproto} {e : UtAddr × U32} {l : List (UtAddr × U32)}
    (h1 : Started g o o1 e) (h : StartedAll g o1 o' l) : StartedAll g o o' (e :: l) := by
  have hgroup : o1.group g = ⟨(o.group g).ops ++ [o.nextOp],
      (o.group g).nRunning + if o.clogged then 1 else 0⟩ := by rw [h1.group, Function.update_self]
  have hrange : List.range' o.nextOp (e :: l).length
      = o.nextOp :: List.range' (o.nextOp + 1) l.length := List.range'_succ ..
  have hold : ∀ k < o.nextOp, o'.op k = o.op k := by
    intro k hk
    rw [h.oldOp k (by rw [h1.nextOp]; exact Nat.lt_succ_of_lt hk), h1.op,
      Function.update_of_ne (Nat.ne_of_lt hk)]
  refine
    { enclave := h.enclave.trans h1.enclave
      nTables := h.nTables.trans h1.nTables
      allocated := h.allocated.trans h1.allocated
      pending := h.pending.trans h1.pending
      clogged := h.clogged.trans h1.clogged
      nextGroup := h.nextGroup.trans h1.nextGroup
      expirable := by rw [h.expirable, h1.expirable, List.map_cons, List.diff_cons]
      log := by rw [h.log, h1.log]; simp [deletionEvents]
      nextOp := by rw [h.nextOp, h1.nextOp, List.length_cons]; exact Nat.succ_add_eq_add_succ _ _
      oldOp := hold
      newOps := ?_
      rule := fun a ha => ?_
      tableId := fun a => (h.tableId a).trans (h1.tableId a)
      ops := by rw [h.ops, hgroup, hrange, h1.nextOp]; simp
      nRunning := ?_
      otherGroups := fun g' hg' => by
        rw [h.otherGroups g' hg', h1.group, Function.update_of_ne hg']
      deletions := ?_
      completions := ?_ }
  · rw [hrange, List.map_cons, List.map_cons, ← h.newOps, h1.nextOp,
      h.oldOp _ (by rw [h1.nextOp]; exact Nat.lt_succ_self _), h1.op, Function.update_self]
    rfl
  · simp only [List.map_cons, List.mem_cons, not_or] at ha
    rw [h.rule a ha.2, h1.rule, Function.update_of_ne ha.1]
  · rw [h.nRunning, hgroup, h1.clogged]
    cases o.clogged with
    | false => simp
    | true =>
      simp only [if_true, List.length_cons]
      omega
  · rw [hrange]
    refine h.deletions.trans ?_
    rw [h1.deletions, h1.nextOp]
    refine ((values_hmapInsert_perm o.deletions o.nextOp e.2.toNat).append_right _).trans ?_
    exact List.perm_middle.symm
  · rw [h.completions, h1.completions, h1.clogged, h1.nextOp, hrange]
    cases o.clogged <;> simp

/-- Rules without pending operations, each named once: all deletions are started. -/
theorem foldlM_startDeletion {l : List (UtAddr × U32)} : ∀ {o : Ofproto}, (l.map Prod.fst).Nodup →
    (∀ e ∈ l, (o.rule e.1).pending = none) → g ∉ o.pending →
    ∃ o', l.foldlM (startDeletion g) o = some o' ∧ StartedAll g o o' l := by
  induction l with
  | nil => exact fun {o} _ _ _ => ⟨o, rfl, StartedAll.nil g o⟩
  | cons e l ih =>
    intro o hnodup hpend hg
    obtain ⟨hel, hnodup⟩ := List.nodup_cons.mp hnodup
    obtain ⟨o1, h1, hstart⟩ := startDeletion_started (hpend e (List.mem_cons_self ..)) hg
    have hpend1 : ∀ f ∈ l, (o1.rule f.1).pending = none := by
      intro f hf
      have hne : f.1 ≠ e.1 := fun heq => hel (heq ▸ List.mem_map_of_mem hf)
      rw [hstart.rule, Function.update_of_ne hne]
      exact hpend f (List.mem_cons_of_mem _ hf)
    obtain ⟨o', h2, hall⟩ := ih hnodup hpend1 (by rw [hstart.pending]; exact hg)
    refine ⟨o', ?_, hall.cons hstart⟩
    rw [List.foldlM_cons, h1]
    exact h2

/-- If the deletions could be started, no rule had a pending operation. -/
theorem foldlM_startDeletion_some {l : List (UtAddr × U32)} : ∀ {o o' : Ofproto}, g ∉ o.pending →
    l.foldlM (startDeletion g) o = some o' →
    StartedAll g o o' l ∧ (∀ e ∈ l, (o.rule e.1).pending = none) := by
  induction l with
  | nil =>
    intro o o' _ hs
    cases hs
    exact ⟨StartedAll.nil g o, by simp⟩
  | cons e l ih =>
    intro o o' hg hs
    rw [List.foldlM_cons, Option.bind_eq_bind, Option.bind_eq_some_iff] at hs
    obtain ⟨o1, h1, h2⟩ := hs
    have hp : (o.rule e.1).pending = none := by
      by_contra hne
      rw [startDeletion_pending hne] at h1
      cases h1
    obtain ⟨o1', h1', hstart⟩ := startDeletion_started hp hg
    obtain rfl := Option.some.inj (h1.symm.trans h1')
    obtain ⟨hall, hpend⟩ := ih (by rw [hstart.pending]; exact hg) h2
    refine ⟨hall.cons hstart, fun f hf => ?_⟩
    rcases List.mem_cons.mp hf with rfl | hf
    · exact hp
    · have := hpend f hf
      rw [hstart.rule] at this
      rcases eq_or_ne f.1 e.1 with heq | hne
      · rw [heq]
        exact hp
      · rwa [Function.update_of_ne hne] at this

/-! ## The two loops of an eviction -/

/-- The operations for the deletions `l` have been created in group `g`; all of them run. -/
structure OpsCreated (g : GroupId) (o o' : Ofproto) (l : List (UtAddr × U32)) : Prop where
  enclave : o'.enclave = o.enclave
  nTables : o'.nTables = o.nTables
  allocated : o'.allocated = o.allocated
  expirable : o'.expirable = o.expirable
  pending : o'.pending = o.pending
  clogged : o'.clogged = o.clogged
  nextGroup : o'.nextGroup = o.nextGroup
  completions : o'.completions = o.completions
  log : o'.log = o.log ++ l.map fun e => .create e.1 .delete e.2
  nextOp : o'.nextOp = o.nextOp + l.length
  oldOp : ∀ k < o.nextOp, o'.op k = o.op k
  newOps : (List.range' o.nextOp l.length).map o'.op = l.map (deletionOp g)
  rule : ∀ a, a ∉ l.map Prod.fst → o'.rule a = o.rule a
  tableId : ∀ a, (o'.rule a).tableId = (o.rule a).tableId
  running : List.Forall₂ (fun e k => (o'.rule e.1).pending = some k ∧ o'.op k = deletionOp g e) l
    (List.range' o.nextOp l.length)
  ops : (o'.group g).ops = (o.group g).ops ++ List.range' o.nextOp l.length
  nRunning : (o'.group g).nRunning = (o.group g).nRunning + l.length
  otherGroups : ∀ g', g' ≠ g → o'.group g' = o.group g'
  deletions : o'.deletions.values.Perm (o.deletions.values ++ List.range' o.nextOp l.length)

theorem OpsCreated.nil (g : GroupId) (o : Ofproto) : OpsCreated g o o [] := by
  constructor <;> simp

theorem OpsCreated.cons {e : UtAddr × U32} {l : List (UtAddr × U32)} (hel : e.1 ∉ l.map Prod.fst)
    (h : OpsCreated g (o.addOperation g e.1 .delete e.2) o' l) : OpsCreated g o o' (e :: l) := by
  have hrange : List.range' o.nextOp (e :: l).length
      = o.nextOp :: List.range' (o.nextOp + 1) l.length := List.range'_succ ..
  have hself : o'.op o.nextOp = deletionOp g e := by
    rw [h.oldOp _ (Nat.lt_succ_self _)]
    simp [Ofproto.addOperation, deletionOp]
  refine
    { enclave := h.enclave
      nTables := h.nTables
      allocated := h.allocated
      expirable := h.expirable
      pending := h.pending
      clogged := h.clogged
      nextGroup := h.nextGroup
      completions := h.completions
      log := ?_
      nextOp := ?_
      oldOp := fun k hk => ?_
      newOps := ?_
      rule := fun a ha => ?_
      tableId := fun a => ?_
      running := ?_
      ops := ?_
      nRunning := ?_
      otherGroups := fun g' hg' => ?_
      deletions := ?_ }
  · rw [h.log]
    simp [Ofproto.addOperation]
  · rw [h.nextOp, List.length_cons]
    exact Nat.succ_add_eq_add_succ _ _
  · rw [h.oldOp k (Nat.lt_succ_of_lt hk)]
    exact Function.update_of_ne (Nat.ne_of_lt hk) _ _
  · rw [hrange, List.map_cons, List.map_cons, hself, ← h.newOps]
    rfl
  · simp only [List.map_cons, List.mem_cons, not_or] at ha
    rw [h.rule a ha.2]
    exact Function.update_of_ne ha.1 _ _
  · rw [h.tableId]
    exact (setPending_rule o e.1 a _).1
  · rw [hrange]
    refine .cons ⟨?_, hself⟩ h.running
    rw [h.rule _ hel]
    simp [Ofproto.addOperation, Ofproto.setPending]
  · rw [h.ops, hrange]
    simp [Ofproto.addOperation]
  · rw [h.nRunning, List.length_cons]
    simp only [Ofproto.addOperation, Function.update_self]
    omega
  · rw [h.otherGroups g' hg']
    exact Function.update_of_ne hg' _ _
  · rw [hrange]
    refine h.deletions.trans ?_
    simp only [Ofproto.addOperation, if_true]
    refine ((values_hmapInsert_perm o.deletions o.nextOp e.2.toNat).append_right _).trans ?_
    exact List.perm_middle.symm

/-- The rules with their operations. -/
theorem OpsCreated.forall₂ {l : List (UtAddr × U32)} (h : OpsCreated g o o' l) :
    List.Forall₂ (fun a k => (o'.rule a).pending = some k ∧ (o'.op k).rule = a ∧
      (o'.op k).group = g ∧ (o'.op k).error = none) (l.map Prod.fst)
      (List.range' o.nextOp l.length) := by
  rw [List.forall₂_map_left_iff]
  refine h.running.imp fun e k hk => ?_
  rw [hk.2]
  exact ⟨hk.1, rfl, rfl, rfl⟩

/-- The first loop of `ofproto_evict` takes entries from the front, up to the first one
whose rule is pending. -/
theorem evictEntries_spec {entries : List (UtAddr × U32)} (hnodup : (entries.map Prod.fst).Nodup)
    (fuel : Nat) : ∀ {i : Nat} {o : Ofproto} {removed removed' : List UtAddr},
    evictEntries g entries fuel i o removed = some (o', removed') →
    ∃ l n, l = (entries.drop i).take n ∧ removed' = removed ++ l.map Prod.fst ∧
      OpsCreated g o o' l ∧ (∀ e ∈ l, (o.rule e.1).pending = none) ∧ l.length ≤ fuel ∧
      (l.length = fuel ∨ ∃ e, entries[i + l.length]? = some e ∧ (o.rule e.1).pending ≠ none) := by
  induction fuel with
  | zero =>
    intro i o removed removed' hs
    cases hs
    exact ⟨[], 0, by simp, by simp, OpsCreated.nil g _, by simp, Nat.le_refl _, .inl rfl⟩
  | succ fuel ih =>
    intro i o removed removed' hs
    obtain ⟨e, he, hs⟩ := Option.bind_eq_some_iff.mp hs
    split at hs
    · rename_i hp
      cases hs
      refine ⟨[], 0, by simp, by simp, OpsCreated.nil g _, by simp, Nat.zero_le _, .inr ⟨e, he, ?_⟩⟩
      exact Option.isSome_iff_ne_none.mp hp
    · rename_i hp
      have hp' : (o.rule e.1).pending = none := by simpa using hp
      rw [ofoperationCreate_delete hp', Option.bind_eq_bind, Option.bind_some] at hs
      obtain ⟨l, n, hl, hremoved, hcr, hpend, hlen, hstop⟩ := ih hs
      obtain ⟨hi, hei⟩ := List.getElem?_eq_some_iff.mp he
      have hdrop : entries.drop i = e :: entries.drop (i + 1) := by
        rw [List.drop_eq_getElem_cons hi, hei]
      have hnotin : e.1 ∉ (entries.drop (i + 1)).map Prod.fst := by
        have hsub := hnodup.sublist ((List.drop_sublist i entries).map Prod.fst)
        rw [hdrop, List.map_cons] at hsub
        exact (List.nodup_cons.mp hsub).1
      have hel : e.1 ∉ l.map Prod.fst := by
        rw [hl]
        exact fun hmem => hnotin (((List.take_sublist n _).map Prod.fst).subset hmem)
      have hother : ∀ f ∈ entries.drop (i + 1),
          ((o.addOperation g e.1 .delete e.2).rule f.1) = o.rule f.1 := by
        intro f hf
        have hne : f.1 ≠ e.1 := fun heq => hnotin (heq ▸ List.mem_map_of_mem hf)
        exact Function.update_of_ne hne _ _
      refine ⟨e :: l, n + 1, ?_, ?_, hcr.cons hel, fun f hf => ?_, ?_, ?_⟩
      · rw [hdrop, List.take_succ_cons, hl]
      · rw [hremoved]
        simp
      · rcases List.mem_cons.mp hf with rfl | hf
        · exact hp'
        · rw [← hother f (by rw [hl] at hf; exact List.mem_of_mem_take hf)]
          exact hpend f hf
      · rw [List.length_cons]
        omega
      · rw [List.length_cons]
        refine hstop.imp (by omega) ?_
        rintro ⟨f, hf, hpf⟩
        have hidx : i + 1 + l.length = i + (l.length + 1) := by omega
        rw [hidx] at hf
        refine ⟨f, hf, ?_⟩
        rw [← hother f]
        · exact hpf
        · refine List.mem_of_getElem? (i := l.length) ?_
          rw [List.getElem?_drop, ← hf]
          congr 1

/-- The first loop of `ofproto_evict` stays within the entries if there are enough of them or
if it meets a pending rule. -/
theorem evictEntries_isSome (g : GroupId) (entries : List (UtAddr × U32)) (fuel : Nat) :
    ∀ (removed : List UtAddr) {i : Nat} {o : Ofproto},
    (i + fuel ≤ entries.length ∨
      ∃ e ∈ entries.drop i, (o.rule e.1).pending ≠ none) →
    ∃ res, evictEntries g entries fuel i o removed = some res := by
  induction fuel with
  | zero => exact fun _ _ _ _ => ⟨_, rfl⟩
  | succ fuel ih =>
    intro removed i o hok
    have hi : i < entries.length := by
      rcases hok with hlen | ⟨e, he, -⟩
      · omega
      · by_contra hge
        rw [List.drop_eq_nil_of_le (Nat.le_of_not_lt hge)] at he
        cases he
    have hget : entries[i]? = some entries[i] := List.getElem?_eq_getElem hi
    by_cases hp : ((o.rule entries[i].1).pending).isSome = true
    · exact ⟨(o, removed), by simp [evictEntries, hget, hp]⟩
    · have hp' : (o.rule entries[i].1).pending = none := by simpa using hp
      have hloop : evictEntries g entries (fuel + 1) i o removed
          = evictEntries g entries fuel (i + 1)
            (o.addOperation g entries[i].1 .delete entries[i].2) (removed ++ [entries[i].1]) := by
        simp [evictEntries, hget, hp', ofoperationCreate_delete hp']
      rw [hloop]
      refine ih _ (hok.imp (by omega) ?_)
      rintro ⟨e, he, hpe⟩
      rw [List.drop_eq_getElem_cons hi] at he
      rcases List.mem_cons.mp he with rfl | he
      · exact absurd hp' hpe
      · refine ⟨e, he, ?_⟩
        show (Function.update o.rule entries[i].1 _ e.1).pending ≠ none
        rcases eq_or_ne e.1 entries[i].1 with heq | hne
        · rw [heq, Function.update_self]
          simp
        · rw [Function.update_of_ne hne]
          exact hpe

/-- What the second loop of `ofproto_evict` does to the rules `L`, whose operations are
`ks`. -/
def destructed (g : GroupId) (o : Ofproto) (L : List UtAddr) (ks : List OpId) : Ofproto :=
  { o with
    expirable := o.expirable.diff L
    log := o.log ++ L.map .destruct
    completions := o.completions ++ if o.clogged then ks else []
    group := Function.update o.group g ⟨(o.group g).ops,
      (o.group g).nRunning - if o.clogged then 0 else L.length⟩ }

theorem foldlM_ruleDestruct {L : List UtAddr} : ∀ {ks : List OpId} {o : Ofproto},
    List.Forall₂ (fun a k => (o.rule a).pending = some k ∧ (o.op k).rule = a ∧
      (o.op k).group = g ∧ (o.op k).error = none) L ks → g ∉ o.pending →
    L.length ≤ (o.group g).nRunning →
    L.foldlM (fun o a => ruleDestruct (o.unlinkExpirable a) a) o
      = some (destructed g o L ks) := by
  induction L with
  | nil =>
    intro ks o h _ _
    cases h
    simp [destructed]
  | cons a L ih =>
    intro ks o h hg hrun
    obtain ⟨k, ks, ⟨hp, hrule, hgroup, herr⟩, hrest, rfl⟩ := List.forall₂_cons_left_iff.mp h
    rw [List.length_cons] at hrun
    have hstep : ruleDestruct (o.unlinkExpirable a) a = some (destructed g o [a] [k]) := by
      have hp1 : ((o.unlinkExpirable a).rule a).pending = some k := hp
      unfold ruleDestruct completeOperation
      simp only [hp1, Option.bind_eq_bind, Option.bind_some]
      cases hclog : o.clogged with
      | true => simp [Ofproto.unlinkExpirable, destructed, hclog]
      | false =>
        have hclog1 : ¬ (o.unlinkExpirable a).clogged = true := by
          simp [Ofproto.unlinkExpirable, hclog]
        have hcomp := ofoperationComplete_unsubmitted (k := k)
          (o := { o.unlinkExpirable a with log := (o.unlinkExpirable a).log ++ [.destruct a] })
          (by show (o.rule (o.op k).rule).pending = some k; rw [hrule]; exact hp)
          (by show 0 < (o.group (o.op k).group).nRunning; rw [hgroup]; omega)
          (by show (o.op k).group ∉ o.pending; rw [hgroup]; exact hg)
        rw [if_neg hclog1, hcomp]
        simp only [Ofproto.unlinkExpirable, destructed, hclog, Option.some.injEq,
          Ofproto.mk.injEq, true_and]
        refine ⟨by simp, ?_, ?_, by simp⟩
        · rw [← herr]
          exact Function.update_eq_self k o.op
        · simp [hgroup]
    rw [List.foldlM_cons, hstep, Option.bind_eq_bind, Option.bind_some,
      ih (o := destructed g o [a] [k]) hrest hg ?_]
    · cases hclog : o.clogged <;>
        simp [destructed, hclog, List.diff_cons, Nat.sub_sub, Nat.add_comm]
    · simp only [destructed, Function.update_self, List.length_singleton]
      split <;> omega

/-! ## Completing deletions -/

/-- The deletions `ks` have been completed: their rules are freed. -/
structure Completed (o o' : Ofproto) (ks : List OpId) : Prop where
  enclave : o'.enclave = o.enclave
  nTables : o'.nTables = o.nTables
  expirable : o'.expirable = o.expirable
  op : o'.op = o.op
  nextOp : o'.nextOp = o.nextOp
  nextGroup : o'.nextGroup = o.nextGroup
  pending : o'.pending = o.pending
  completions : o'.completions = o.completions
  clogged : o'.clogged = o.clogged
  log : o'.log = o.log
  allocated : o'.allocated = ks.foldl (fun l k => l.erase (o.op k).rule) o.allocated
  rule : ∀ a, (∀ k ∈ ks, (o.op k).rule ≠ a) → o'.rule a = o.rule a
  tableId : ∀ a, (o'.rule a).tableId = (o.rule a).tableId
  otherGroups : ∀ g, (∀ k ∈ ks, (o.op k).group ≠ g) → o'.group g = o.group g
  deletions : o'.deletions
    = ks.foldl (fun d k => hmapRemove d k (o.op k).hash.toNat) o.deletions

theorem Completed.nil (o : Ofproto) : Completed o o [] := by
  constructor <;> simp

/-- One deletion is completed. Whether the rule is hidden must be known or the enclave must
still have its shadow. -/
theorem completeOp_delete {isHidden : Bool} (htype : (o.op k).type = .delete)
    (herr : (o.op k).error = none)
    (hlive : isHidden = true ∨ (sgxRuleFromUtCr o.enclave (o.op k).rule).isSome) :
    ∃ o', completeOp isHidden o k = some o' ∧ Completed o o' [k] := by
  have hhidden : ∃ b, operationIsHidden isHidden o (o.op k) = some b := by
    unfold operationIsHidden
    rcases hlive with rfl | hlive
    · simp
    · obtain ⟨r, hr⟩ := Option.isSome_iff_exists.mp hlive
      split
      · exact ⟨false, rfl⟩
      · simp [ofprotoRuleIsHidden, ecallCrPriority, hr]
  obtain ⟨b, hb⟩ := hhidden
  let o1 := ruleDealloc (o.setPending (o.op k).rule none) (o.op k).rule
  have hcall : completeOp isHidden o k = some (ofoperationDestroy o1 k) := by
    simp only [completeOp, hb, commitOperation, htype, herr, Option.bind_eq_bind, Option.bind_some]
    rfl
  have htype1 : (o1.op k).type = .delete := htype
  refine ⟨_, hcall, rfl, rfl, rfl, rfl, rfl, rfl, rfl, rfl, rfl, rfl, rfl, fun a ha => ?_, fun a => ?_,
    fun g hg => ?_, ?_⟩
  · have hne : a ≠ (o.op k).rule := (ha k (List.mem_singleton.mpr rfl)).symm
    show Function.update (Function.update o.rule (o.op k).rule _) (o.op k).rule _ a = o.rule a
    rw [Function.update_of_ne hne, Function.update_of_ne hne]
  · exact (setPending_rule _ _ a none).1.trans (setPending_rule o _ a none).1
  · have hne : g ≠ (o.op k).group := (hg k (List.mem_singleton.mpr rfl)).symm
    show Function.update o.group (o.op k).group _ g = o.group g
    rw [Function.update_of_ne hne]
  · show (if (o1.op k).type = .delete then _ else _) = _
    rw [if_pos htype1]
    rfl

theorem Completed.cons {o1 : Ofproto} {ks : List OpId} (h1 : Completed o o1 [k])
    (h : Completed o1 o' ks) : Completed o o' (k :: ks) := by
  refine
    { enclave := h.enclave.trans h1.enclave
      nTables := h.nTables.trans h1.nTables
      expirable := h.expirable.trans h1.expirable
      op := h.op.trans h1.op
      nextOp := h.nextOp.trans h1.nextOp
      nextGroup := h.nextGroup.trans h1.nextGroup
      pending := h.pending.trans h1.pending
      completions := h.completions.trans h1.completions
      clogged := h.clogged.trans h1.clogged
      log := h.log.trans h1.log
      allocated := ?_
      rule := fun a ha => ?_
      tableId := fun a => (h.tableId a).trans (h1.tableId a)
      otherGroups := fun g hg => ?_
      deletions := ?_ }
  · rw [h.allocated, h1.allocated, h1.op]
    rfl
  · rw [h.rule a fun j hj => by rw [h1.op]; exact ha j (List.mem_cons_of_mem _ hj)]
    exact h1.rule a fun j hj => ha j (List.mem_singleton.mp hj ▸ List.mem_cons_self ..)
  · rw [h.otherGroups g fun j hj => by rw [h1.op]; exact hg j (List.mem_cons_of_mem _ hj)]
    exact h1.otherGroups g fun j hj => hg j (List.mem_singleton.mp hj ▸ List.mem_cons_self ..)
  · rw [h.deletions, h1.deletions, h1.op]
    rfl

theorem foldlM_completeOp_delete {isHidden : Bool} {ks : List OpId} : ∀ {o : Ofproto},
    (∀ k ∈ ks, (o.op k).type = .delete ∧ (o.op k).error = none ∧
      (isHidden = true ∨ (sgxRuleFromUtCr o.enclave (o.op k).rule).isSome)) →
    ∃ o', ks.foldlM (completeOp isHidden) o = some o' ∧ Completed o o' ks := by
  induction ks with
  | nil => exact fun {o} _ => ⟨o, rfl, Completed.nil o⟩
  | cons k ks ih =>
    intro o hall
    obtain ⟨htype, herr, hlive⟩ := hall k (List.mem_cons_self ..)
    obtain ⟨o1, h1, hc1⟩ := completeOp_delete htype herr hlive
    obtain ⟨o', h2, hc2⟩ := ih (o := o1) fun j hj => by
      rw [hc1.op, hc1.enclave]
      exact hall j (List.mem_cons_of_mem _ hj)
    refine ⟨o', ?_, hc1.cons hc2⟩
    rw [List.foldlM_cons, h1]
    exact h2

/-! ## A group of deletions -/

/-- Submitting a group of deletions that has just been started: completed at once, or left
pending if the provider is clogged. -/
theorem submit_deletions {o1 : Ofproto} {l : List (UtAddr × U32)} (isHidden : Bool)
    (h : OpsStarted g o1 o l) (hgroup : o1.group g = ⟨[], 0⟩)
    (hlive : isHidden = true ∨ ∀ e ∈ l, (sgxRuleFromUtCr o.enclave e.1).isSome) :
    (o1.clogged = true ∧ l ≠ [] ∧
      ofopgroupSubmit o g isHidden = some { o with pending := o.pending ++ [g] }) ∨
    ((o1.clogged = false ∨ l = []) ∧ ∃ o2,
      Completed o o2 (List.range' o1.nextOp l.length) ∧
      ofopgroupSubmit o g isHidden = some { o2 with pending := o2.pending.erase g }) := by
  have hrun := h.nRunning
  have hops := h.ops
  rw [hgroup] at hrun hops
  simp only [Nat.zero_add, List.nil_append] at hrun hops
  by_cases hzero : (o.group g).nRunning = 0
  · have hall : ∀ k ∈ List.range' o1.nextOp l.length, (o.op k).type = .delete ∧
        (o.op k).error = none ∧
        (isHidden = true ∨ (sgxRuleFromUtCr o.enclave (o.op k).rule).isSome) := by
      intro k hk
      have hmem : o.op k ∈ l.map (deletionOp g) := h.newOps ▸ List.mem_map_of_mem hk
      obtain ⟨e, he, heq⟩ := List.mem_map.mp hmem
      rw [← heq]
      exact ⟨rfl, rfl, hlive.imp id fun hl => hl e he⟩
    obtain ⟨o2, h2, hc⟩ := foldlM_completeOp_delete hall
    refine .inr ⟨?_, o2, hc, ?_⟩
    · cases hclog : o1.clogged with
      | false => exact .inl rfl
      | true =>
        rw [hclog, if_pos rfl, hzero] at hrun
        exact .inr (List.length_eq_zero_iff.mp hrun.symm)
    · rw [ofopgroupSubmit, if_pos hzero, ofopgroupComplete, hops, h2]
      rfl
  · refine .inl ?_
    rw [ofopgroupSubmit, if_neg hzero]
    cases hclog : o1.clogged with
    | false =>
      rw [hclog] at hrun
      exact absurd hrun hzero
    | true =>
      refine ⟨rfl, ?_, rfl⟩
      rintro rfl
      rw [hclog] at hrun
      exact hzero hrun

end OvsSgx
