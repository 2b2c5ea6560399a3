/-
OvsSgx.OperationAccounts — the books of the operations in flight.

Four places know of an operation that is not completed yet: the `pending`
member of its rule, the list `ops` of its group, the hmap `deletions` if it
is a deletion, and the counter `n_running` of its group, or the list
`completions` of the provider, until the provider reports it done.
`Accounts G R` says that they agree: `G` are the groups under way, `R` the
operations that are still running. Between two calls these are the groups
that are submitted and the completions that the provider has put off.
-/
import OvsSgx.OfprotoSteps
import OvsSgx.OfprotoInvariant

namespace OvsSgx

/-! ## The books -/

/-- Operation `k` is in its group, which is one of `G`. -/
def Ofproto.Holds (o : Ofproto) (G : List GroupId) (k : OpId) : Prop :=
  (o.op k).group ∈ G ∧ k ∈ (o.group (o.op k).group).ops

/-- The groups `G` are under way, and of their operations `R` are running. -/
structure Ofproto.Accounts (o : Ofproto) (G : List GroupId) (R : List OpId) : Prop where
  nodup : G.Nodup
  groupLt : ∀ g ∈ G, g < o.nextGroup
  opsNodup : ∀ g ∈ G, (o.group g).ops.Nodup
  ops : ∀ g ∈ G, ∀ k ∈ (o.group g).ops, k < o.nextOp ∧ (o.op k).group = g ∧
    (o.rule (o.op k).rule).pending = some k
  pending : ∀ a k, (o.rule a).pending = some k → (o.op k).rule = a ∧ o.Holds G k
  filedNodup : o.deletions.values.Nodup
  filed : ∀ e ∈ o.deletions.entries, e.1 = (o.op e.2).hash.toNat ∧ (o.op e.2).type = .delete ∧
    o.Holds G e.2
  onFile : ∀ k, o.Holds G k → (o.op k).type = .delete →
    ((o.op k).hash.toNat, k) ∈ o.deletions.entries
  runningNodup : R.Nodup
  running : ∀ k ∈ R, o.Holds G k
  nRunning : ∀ g ∈ G, (o.group g).nRunning = R.countP fun k => (o.op k).group = g

/-- A group that is submitted has a running operation. -/
def Ofproto.Busy (o : Ofproto) : Prop := ∀ g ∈ o.pending, 0 < (o.group g).nRunning

/-- The books between two calls. -/
structure Ofproto.Accounted (o : Ofproto) : Prop where
  accounts : o.Accounts o.pending o.completions
  busy : o.Busy

section Accounts

variable {o o' start : Ofproto} {G G' : List GroupId} {R R' : List OpId} {a : UtAddr} {k : OpId}
  {g : GroupId} {isHidden : Bool}

theorem Ofproto.Holds.mono (h : o.Holds G k) (hsub : G ⊆ G') : o.Holds G' k := ⟨hsub h.1, h.2⟩

theorem Ofproto.Accounts.perm (h : o.Accounts G R) (hG : G.Perm G') (hR : R.Perm R') :
    o.Accounts G' R' where
  nodup := hG.nodup_iff.mp h.nodup
  groupLt g hg := h.groupLt g (hG.mem_iff.mpr hg)
  opsNodup g hg := h.opsNodup g (hG.mem_iff.mpr hg)
  ops g hg := h.ops g (hG.mem_iff.mpr hg)
  pending a k hk := ⟨(h.pending a k hk).1, (h.pending a k hk).2.mono hG.subset⟩
  filedNodup := h.filedNodup
  filed e he := ⟨(h.filed e he).1, (h.filed e he).2.1, (h.filed e he).2.2.mono hG.subset⟩
  onFile k hk := h.onFile k (hk.mono hG.symm.subset)
  runningNodup := hR.nodup_iff.mp h.runningNodup
  running k hk := (h.running k (hR.mem_iff.mpr hk)).mono hG.subset
  nRunning g hg := (h.nRunning g (hG.mem_iff.mpr hg)).trans (hR.countP_eq _)

/-- An operation that is held is older than the next one. -/
theorem Ofproto.Accounts.lt (h : o.Accounts G R) (hk : o.Holds G k) : k < o.nextOp :=
  (h.ops _ hk.1 k hk.2).1

/-- Its rule names it. -/
theorem Ofproto.Accounts.rule_pending (h : o.Accounts G R) (hk : o.Holds G k) :
    (o.rule (o.op k).rule).pending = some k :=
  (h.ops _ hk.1 k hk.2).2.2

/-- A running operation is counted. -/
theorem Ofproto.Accounts.nRunning_pos (h : o.Accounts G R) (hk : k ∈ R) :
    0 < (o.group (o.op k).group).nRunning := by
  rw [h.nRunning _ (h.running k hk).1, List.countP_pos_iff]
  exact ⟨k, hk, by simp⟩

/-- No operation of a group is running whose counter is zero. -/
theorem Ofproto.Accounts.not_running (h : o.Accounts G R) (hg : g ∈ G)
    (hn : (o.group g).nRunning = 0) (hk : k ∈ (o.group g).ops) : k ∉ R := by
  intro hR
  have hpos := h.nRunning_pos hR
  rw [(h.ops g hg k hk).2.1] at hpos
  omega

/-! ## Bookkeeping that does not concern the operations -/

/-- The operations, their groups and the members that name them are the same. -/
structure SameBooks (o o' : Ofproto) : Prop where
  opGroup : ∀ k, (o'.op k).group = (o.op k).group
  opRule : ∀ k, (o'.op k).rule = (o.op k).rule
  opType : ∀ k, (o'.op k).type = (o.op k).type
  opHash : ∀ k, (o'.op k).hash = (o.op k).hash
  nextOp : o'.nextOp = o.nextOp
  group : o'.group = o.group
  nextGroup : o'.nextGroup = o.nextGroup
  pending : o'.pending = o.pending
  deletions : o'.deletions = o.deletions
  completions : o'.completions = o.completions
  clogged : o'.clogged = o.clogged
  rule : ∀ a, (o'.rule a).pending = (o.rule a).pending

theorem SameBooks.of_eq (hop : o'.op = o.op) (hnext : o'.nextOp = o.nextOp)
    (hgroup : o'.group = o.group) (hgroups : o'.nextGroup = o.nextGroup)
    (hpending : o'.pending = o.pending) (hdel : o'.deletions = o.deletions)
    (hcomp : o'.completions = o.completions) (hclog : o'.clogged = o.clogged)
    (hrule : ∀ a, (o'.rule a).pending = (o.rule a).pending) : SameBooks o o' where
  opGroup k := by rw [hop]
  opRule k := by rw [hop]
  opType k := by rw [hop]
  opHash k := by rw [hop]
  nextOp := hnext
  group := hgroup
  nextGroup := hgroups
  pending := hpending
  deletions := hdel
  completions := hcomp
  clogged := hclog
  rule := hrule

theorem SameBooks.refl (o : Ofproto) : SameBooks o o :=
  .of_eq rfl rfl rfl rfl rfl rfl rfl rfl fun _ => rfl

theorem SameBooks.enclave (o : Ofproto) (s : Enclave) : SameBooks o { o with enclave := s } :=
  .of_eq rfl rfl rfl rfl rfl rfl rfl rfl fun _ => rfl

theorem SameBooks.expirable (o : Ofproto) (l : List UtAddr) :
    SameBooks o { o with expirable := l } :=
  .of_eq rfl rfl rfl rfl rfl rfl rfl rfl fun _ => rfl

theorem SameBooks.trans {o'' : Ofproto} (h : SameBooks o o') (h' : SameBooks o' o'') :
    SameBooks o o'' where
  opGroup k := (h'.opGroup k).trans (h.opGroup k)
  opRule k := (h'.opRule k).trans (h.opRule k)
  opType k := (h'.opType k).trans (h.opType k)
  opHash k := (h'.opHash k).trans (h.opHash k)
  nextOp := h'.nextOp.trans h.nextOp
  group := h'.group.trans h.group
  nextGroup := h'.nextGroup.trans h.nextGroup
  pending := h'.pending.trans h.pending
  deletions := h'.deletions.trans h.deletions
  completions := h'.completions.trans h.completions
  clogged := h'.clogged.trans h.clogged
  rule a := (h'.rule a).trans (h.rule a)

theorem SameBooks.holds (h : SameBooks o o') : o'.Holds G k ↔ o.Holds G k := by
  simp [Ofproto.Holds, h.opGroup, h.group]

theorem Ofproto.Accounts.books (h : o.Accounts G R) (hs : SameBooks o o') : o'.Accounts G R where
  nodup := h.nodup
  groupLt := by simpa [hs.nextGroup] using h.groupLt
  opsNodup := by simpa [hs.group] using h.opsNodup
  ops := by simpa [hs.group, hs.nextOp, hs.opGroup, hs.opRule, hs.rule] using h.ops
  pending := by simpa [hs.rule, hs.opRule, hs.holds] using h.pending
  filedNodup := by simpa [hs.deletions] using h.filedNodup
  filed := by simpa [hs.deletions, hs.opHash, hs.opType, hs.holds] using h.filed
  onFile := by simpa [hs.deletions, hs.opHash, hs.opType, hs.holds] using h.onFile
  runningNodup := h.runningNodup
  running := by simpa [hs.holds] using h.running
  nRunning := by simpa [hs.group, hs.opGroup] using h.nRunning

theorem Ofproto.Busy.books (h : o.Busy) (hs : SameBooks o o') : o'.Busy := by
  simpa [Ofproto.Busy, hs.pending, hs.group] using h

theorem ofprotoRuleDestroy_books {a : Option UtAddr} (hs : ofprotoRuleDestroy o a = some o') :
    SameBooks o o' := by
  cases a with
  | none =>
    cases hs
    exact SameBooks.refl _
  | some a =>
    obtain ⟨s, -, hs⟩ := Option.bind_eq_some_iff.mp hs
    cases hs
    exact .of_eq rfl rfl rfl rfl rfl rfl rfl rfl fun _ => rfl

theorem evictionGroupRemoveRule_books (hs : evictionGroupRemoveRule o a = some o') :
    SameBooks o o' := by
  obtain ⟨s, -, hs⟩ := Option.bind_eq_some_iff.mp hs
  cases hs
  exact .of_eq rfl rfl rfl rfl rfl rfl rfl rfl fun _ => rfl

theorem evictionGroupAddRule_books (hs : evictionGroupAddRule o a = some o') :
    SameBooks o o' := by
  unfold evictionGroupAddRule at hs
  split at hs
  · obtain ⟨s, -, hs⟩ := Option.bind_eq_some_iff.mp hs
    cases hs
    exact .of_eq rfl rfl rfl rfl rfl rfl rfl rfl fun _ => rfl
  · cases hs
    exact SameBooks.refl _

theorem oftableRemoveRule_books (hs : oftableRemoveRule o a = some o') : SameBooks o o' := by
  obtain ⟨s, -, hs⟩ := Option.bind_eq_some_iff.mp hs
  obtain ⟨o1, h1, hs⟩ := Option.bind_eq_some_iff.mp hs
  cases hs
  exact ((SameBooks.enclave o s).trans (evictionGroupRemoveRule_books h1)).trans
    (.expirable _ _)

theorem unlinkVictim_books {victim : Option UtAddr} (hs : unlinkVictim o victim = some o') :
    SameBooks o o' := by
  cases victim with
  | none =>
    cases hs
    exact SameBooks.refl _
  | some v =>
    exact (SameBooks.expirable o _).trans (evictionGroupRemoveRule_books hs)

theorem oftableReplaceRule_books (hs : oftableReplaceRule o a = some o') : SameBooks o o' := by
  unfold oftableReplaceRule at hs
  dsimp only at hs
  generalize hlink : (if (o.rule a).mayExpire then o.linkExpirable a else o) = o1 at hs
  obtain ⟨⟨s, victim⟩, -, hs⟩ := Option.bind_eq_some_iff.mp hs
  obtain ⟨o2, h2, hs⟩ := Option.bind_eq_some_iff.mp hs
  have hlinked : SameBooks o { o1 with enclave := s } := by
    rw [← hlink]
    split <;> exact .of_eq rfl rfl rfl rfl rfl rfl rfl rfl fun _ => rfl
  exact (hlinked.trans (unlinkVictim_books h2)).trans (evictionGroupAddRule_books hs)

theorem oftableSubstituteRule_books {new : Option UtAddr}
    (hs : oftableSubstituteRule o a new = some o') : SameBooks o o' := by
  cases new with
  | none => exact oftableRemoveRule_books hs
  | some new => exact oftableReplaceRule_books hs

theorem commitOperation_books {op : Ofoperation} (hs : commitOperation o op = some o') :
    SameBooks o o' := by
  unfold commitOperation at hs
  split at hs
  · exact ofprotoRuleDestroy_books hs
  · obtain ⟨o1, h1, hs⟩ := Option.bind_eq_some_iff.mp hs
    exact (oftableSubstituteRule_books h1).trans (ofprotoRuleDestroy_books hs)
  · cases hs
    exact .of_eq rfl rfl rfl rfl rfl rfl rfl rfl fun _ => rfl
  · cases hs
  · cases hs
    exact SameBooks.refl _

theorem backOut_books {victim : Option UtAddr} {error : Ofperr} {res : Option Ofperr}
    (hs : backOut o a victim error = some (o', res)) : SameBooks o o' := by
  obtain ⟨o1, h1, hs⟩ := Option.bind_eq_some_iff.mp hs
  obtain ⟨o2, h2, hs⟩ := Option.bind_eq_some_iff.mp hs
  cases hs
  exact (oftableSubstituteRule_books h1).trans (ofprotoRuleDestroy_books h2)

/-! ## Groups and operations that are created -/

theorem ofopgroupCreate_accounts (h : o.Accounts G R) :
    (ofopgroupCreate o).1.Accounts (o.nextGroup :: G) R := by
  have hne : ∀ g ∈ G, g ≠ o.nextGroup := fun g hg => Nat.ne_of_lt (h.groupLt g hg)
  have hgroup : ∀ g ∈ G, (ofopgroupCreate o).1.group g = o.group g := fun g hg => by
    simp [ofopgroupCreate, hne g hg]
  have hholds : ∀ k, o.Holds G k → (ofopgroupCreate o).1.Holds (o.nextGroup :: G) k := by
    intro k hk
    refine ⟨List.mem_cons_of_mem _ hk.1, ?_⟩
    have hk2 := hk.2
    rw [← hgroup _ hk.1] at hk2
    exact hk2
  have hnew : (ofopgroupCreate o).1.group o.nextGroup = ⟨[], 0⟩ := by simp [ofopgroupCreate]
  have hheld : ∀ k, (ofopgroupCreate o).1.Holds (o.nextGroup :: G) k → o.Holds G k := by
    rintro k ⟨hg, hk⟩
    rcases List.mem_cons.mp hg with hg | hg
    · rw [hg, hnew] at hk
      cases hk
    · rw [hgroup _ hg] at hk
      exact ⟨hg, hk⟩
  constructor
  case nodup => exact List.nodup_cons.mpr ⟨fun hg => hne _ hg rfl, h.nodup⟩
  case groupLt =>
    simp only [ofopgroupCreate, List.mem_cons, forall_eq_or_imp]
    exact ⟨Nat.lt_succ_self _, fun g hg => Nat.lt_succ_of_lt (h.groupLt g hg)⟩
  case opsNodup =>
    simp only [List.mem_cons, forall_eq_or_imp, hnew]
    exact ⟨List.nodup_nil, fun g hg => by simpa [hgroup g hg] using h.opsNodup g hg⟩
  case ops =>
    simp only [List.mem_cons, forall_eq_or_imp, hnew, List.not_mem_nil, false_implies,
      implies_true, true_and]
    intro g hg k hk
    rw [hgroup g hg] at hk
    exact h.ops g hg k hk
  case pending => exact fun a k hk => ⟨(h.pending a k hk).1, hholds k (h.pending a k hk).2⟩
  case filedNodup => exact h.filedNodup
  case filed =>
    intro e he
    obtain ⟨hkey, htype, hholds'⟩ := h.filed e he
    exact ⟨hkey, htype, hholds _ hholds'⟩
  case onFile => exact fun k hk => h.onFile k (hheld k hk)
  case runningNodup => exact h.runningNodup
  case running => exact fun k hk => hholds k (h.running k hk)
  case nRunning =>
    simp only [List.mem_cons, forall_eq_or_imp, hnew]
    refine ⟨?_, fun g hg => by rw [hgroup g hg]; exact h.nRunning g hg⟩
    symm
    rw [List.countP_eq_zero]
    intro k hk
    simp [ofopgroupCreate, hne _ (h.running k hk).1]

/-- A new operation, which is running. -/
theorem addOperation_accounts (h : o.Accounts G R) (hg : g ∈ G)
    (hp : (o.rule a).pending = none) (type : OfoperationType) (hash : U32) :
    (o.addOperation g a type hash).Accounts G (o.nextOp :: R) := by
  have hop : ∀ k, k < o.nextOp → (o.addOperation g a type hash).op k = o.op k := fun k hk => by
    simp [Ofproto.addOperation, Nat.ne_of_lt hk]
  have hself : (o.addOperation g a type hash).op o.nextOp = ⟨g, a, type, hash, none, none⟩ := by
    simp [Ofproto.addOperation]
  have hgroup : (o.addOperation g a type hash).group g
      = ⟨(o.group g).ops ++ [o.nextOp], (o.group g).nRunning + 1⟩ := by
    simp [Ofproto.addOperation]
  have hother : ∀ g', g' ≠ g → (o.addOperation g a type hash).group g' = o.group g' :=
    fun g' hg' => by simp [Ofproto.addOperation, hg']
  have hrule : ∀ b, b ≠ a → (o.addOperation g a type hash).rule b = o.rule b := fun b hb => by
    simp [Ofproto.addOperation, Ofproto.setPending, hb]
  have hrule' : ((o.addOperation g a type hash).rule a).pending = some o.nextOp := by
    simp [Ofproto.addOperation, Ofproto.setPending]
  have hnew : (o.addOperation g a type hash).Holds G o.nextOp := by
    simp [Ofproto.Holds, hself, hgroup, hg]
  have hholds : ∀ k, o.Holds G k → (o.addOperation g a type hash).Holds G k := by
    intro k hk
    unfold Ofproto.Holds
    rw [hop k (h.lt hk)]
    refine ⟨hk.1, ?_⟩
    by_cases hgk : (o.op k).group = g
    · rw [hgk, hgroup]
      exact List.mem_append_left _ (hgk ▸ hk.2)
    · rw [hother _ hgk]
      exact hk.2
  have hheld : ∀ k, (o.addOperation g a type hash).Holds G k → k = o.nextOp ∨ o.Holds G k := by
    intro k hk
    by_cases hself' : k = o.nextOp
    · exact .inl hself'
    · have hopk : (o.addOperation g a type hash).op k = o.op k := by
        simp [Ofproto.addOperation, hself']
      unfold Ofproto.Holds at hk
      rw [hopk] at hk
      refine .inr ⟨hk.1, ?_⟩
      by_cases hgk : (o.op k).group = g
      · rw [hgk, hgroup] at hk
        rw [hgk]
        simpa [hself'] using hk.2
      · rw [hother _ hgk] at hk
        exact hk.2
  -- a pending operation of another rule
  have hne : ∀ k, o.Holds G k → (o.op k).rule ≠ a := fun k hk heq => by
    have hpend := h.rule_pending hk
    rw [heq, hp] at hpend
    cases hpend
  constructor
  case nodup => exact h.nodup
  case groupLt => exact h.groupLt
  case opsNodup =>
    intro g' hg'
    by_cases hgg : g' = g
    · subst hgg
      rw [hgroup]
      refine List.nodup_append.mpr ⟨h.opsNodup g' hg', List.nodup_singleton _, ?_⟩
      intro k hk j hj
      rw [List.mem_singleton.mp hj]
      exact Nat.ne_of_lt (h.ops g' hg' k hk).1
    · rw [hother g' hgg]
      exact h.opsNodup g' hg'
  case ops =>
    intro g' hg' k hk
    have hold : k ∈ (o.group g').ops → k < o.nextOp + 1 ∧
        ((o.addOperation g a type hash).op k).group = g' ∧
        ((o.addOperation g a type hash).rule
          ((o.addOperation g a type hash).op k).rule).pending = some k := by
      intro hk
      obtain ⟨hlt, hkg, hkp⟩ := h.ops g' hg' k hk
      rw [hop k hlt, hrule _ (hne k ⟨hkg ▸ hg', hkg ▸ hk⟩)]
      exact ⟨Nat.lt_succ_of_lt hlt, hkg, hkp⟩
    by_cases hgg : g' = g
    · subst hgg
      rw [hgroup] at hk
      rcases List.mem_append.mp hk with hk | hk
      · exact hold hk
      · rw [List.mem_singleton.mp hk, hself]
        exact ⟨Nat.lt_succ_self _, rfl, hrule'⟩
    · rw [hother g' hgg] at hk
      exact hold hk
  case pending =>
    intro b k hk
    by_cases hb : b = a
    · subst hb
      rw [hrule', Option.some.injEq] at hk
      subst hk
      exact ⟨by rw [hself], hnew⟩
    · rw [hrule b hb] at hk
      obtain ⟨hbk, hheld⟩ := h.pending b k hk
      rw [hop k (h.lt hheld)]
      exact ⟨hbk, hholds k hheld⟩
  case filedNodup =>
    show (if type = .delete then hmapInsert o.deletions o.nextOp hash.toNat
      else o.deletions).values.Nodup
    split
    · refine (values_hmapInsert_perm ..).nodup_iff.mpr (List.nodup_cons.mpr ⟨?_, h.filedNodup⟩)
      intro hmem
      obtain ⟨e, he, heq⟩ := List.mem_map.mp hmem
      exact absurd (h.lt (h.filed e he).2.2) (by rw [heq]; exact Nat.lt_irrefl _)
    · exact h.filedNodup
  case filed =>
    intro e he
    have hold : e ∈ o.deletions.entries → e.1 = ((o.addOperation g a type hash).op e.2).hash.toNat ∧
        ((o.addOperation g a type hash).op e.2).type = .delete ∧
        (o.addOperation g a type hash).Holds G e.2 := by
      intro he
      obtain ⟨hkey, htype, hheld⟩ := h.filed e he
      rw [hop _ (h.lt hheld)]
      exact ⟨hkey, htype, hholds _ hheld⟩
    change e ∈ (if type = .delete then hmapInsert o.deletions o.nextOp hash.toNat
      else o.deletions).entries at he
    split at he
    · rename_i htype
      rcases List.mem_cons.mp ((entries_hmapInsert_perm ..).mem_iff.mp he) with rfl | he
      · rw [hself]
        exact ⟨rfl, htype, hnew⟩
      · exact hold he
    · exact hold he
  case onFile =>
    intro k hk htype
    change _ ∈ (if type = .delete then hmapInsert o.deletions o.nextOp hash.toNat
      else o.deletions).entries
    rcases hheld k hk with rfl | hk
    · rw [hself] at htype ⊢
      rw [if_pos htype]
      exact (entries_hmapInsert_perm ..).mem_iff.mpr (List.mem_cons_self ..)
    · rw [hop k (h.lt hk)] at htype ⊢
      have hmem := h.onFile k hk htype
      split
      · exact (entries_hmapInsert_perm ..).mem_iff.mpr (List.mem_cons_of_mem _ hmem)
      · exact hmem
  case runningNodup =>
    exact List.nodup_cons.mpr ⟨fun hR => Nat.lt_irrefl _ (h.lt (h.running _ hR)), h.runningNodup⟩
  case running =>
    simp only [List.mem_cons, forall_eq_or_imp]
    exact ⟨hnew, fun k hk => hholds k (h.running k hk)⟩
  case nRunning =>
    intro g' hg'
    have hcount : (R.countP fun k => ((o.addOperation g a type hash).op k).group = g')
        = R.countP fun k => (o.op k).group = g' :=
      List.countP_congr fun k hk => by rw [hop k (h.lt (h.running k hk))]
    rw [List.countP_cons, hcount, ← h.nRunning g' hg', hself]
    by_cases hgg : g' = g
    · subst hgg
      simp [hgroup]
    · simp [hother g' hgg, Ne.symm hgg]

theorem ofoperationCreate_accounts {type : OfoperationType} {hashes : Option U32}
    (h : o.Accounts G R) (hg : g ∈ G) (hs : ofoperationCreate o g a type hashes = some (o', k)) :
    o'.Accounts G (k :: R) ∧ (o'.rule a).pending = some k ∧ (o'.op k).group = g ∧
      (∀ j, o.Holds G j → o'.op j = o.op j) ∧ o'.pending = o.pending ∧
      o'.completions = o.completions ∧ o'.nextGroup = o.nextGroup ∧ o'.clogged = o.clogged ∧
      ∀ g', g' ≠ g → o'.group g' = o.group g' := by
  have hp : (o.rule a).pending = none := by
    by_contra hp
    rw [ofoperationCreate_pending hp] at hs
    cases hs
  obtain ⟨hash, rfl, rfl⟩ := ofoperationCreate_some hs
  refine ⟨addOperation_accounts h hg hp type hash, ?_, ?_, fun j hj => ?_, rfl, rfl, rfl, rfl,
    fun g' hg' => ?_⟩
  · simp [Ofproto.addOperation, Ofproto.setPending]
  · simp [Ofproto.addOperation]
  · simp [Ofproto.addOperation, Nat.ne_of_lt (h.lt hj)]
  · simp [Ofproto.addOperation, hg']

/-! ## Operations that are completed -/

/-- A running operation that has been counted off. -/
theorem countOff_accounts (h : o.Accounts G (k :: R)) :
    ({ o with
      group := Function.update o.group (o.op k).group
        { o.group (o.op k).group with nRunning := (o.group (o.op k).group).nRunning - 1 }
      } : Ofproto).Accounts G R := by
  have hops : ∀ g, (Function.update o.group (o.op k).group
      { o.group (o.op k).group with nRunning := (o.group (o.op k).group).nRunning - 1 } g).ops
        = (o.group g).ops := by
    intro g
    by_cases hg : g = (o.op k).group <;> simp [hg]
  constructor
  case nodup => exact h.nodup
  case groupLt => exact h.groupLt
  case opsNodup => simpa [hops] using h.opsNodup
  case ops => simpa [hops] using h.ops
  case pending => simpa [Ofproto.Holds, hops] using h.pending
  case filedNodup => exact h.filedNodup
  case filed => simpa [Ofproto.Holds, hops] using h.filed
  case onFile => simpa [Ofproto.Holds, hops] using h.onFile
  case runningNodup => exact (List.nodup_cons.mp h.runningNodup).2
  case running =>
    intro j hj
    simpa [Ofproto.Holds, hops] using h.running j (List.mem_cons_of_mem _ hj)
  case nRunning =>
    intro g hg
    have hcount := h.nRunning g hg
    rw [List.countP_cons] at hcount
    by_cases hgk : g = (o.op k).group
    · subst hgk
      simp only [Function.update_self, hcount]
      simp
    · simp only [Function.update_of_ne hgk, hcount]
      simp [Ne.symm hgk]

theorem markCompleted_accounts (h : o.Accounts G (k :: R)) (error : Option Ofperr) :
    (o.markCompleted k error).Accounts G R := by
  refine (countOff_accounts h).books ?_
  have hop := markCompleted_op o k
  constructor
  case opGroup | opHash =>
    intro j
    by_cases hj : j = k <;> simp [Ofproto.markCompleted, hj]
  case opRule => exact fun j => (hop j error).1
  case opType => exact fun j => (hop j error).2.1
  all_goals intros; rfl

/-- `ofoperation_destroy` after the operation has been committed. -/
theorem ofoperationDestroy_books (hs : SameBooks (o.setPending (o.op k).rule none) o') :
    SameBooks (ofoperationDestroy o k) (ofoperationDestroy o' k) where
  opGroup := hs.opGroup
  opRule := hs.opRule
  opType := hs.opType
  opHash := hs.opHash
  nextOp := hs.nextOp
  group := by
    simp only [ofoperationDestroy, hs.opGroup, Ofproto.setPending, hs.group]
  nextGroup := hs.nextGroup
  pending := hs.pending
  deletions := by
    simp only [ofoperationDestroy, hs.opType, hs.opHash, Ofproto.setPending, hs.deletions]
  completions := hs.completions
  clogged := hs.clogged
  rule b := by
    have hrule := hs.rule b
    have hk := hs.opRule k
    simp only [ofoperationDestroy, Ofproto.setPending] at hrule hk ⊢
    rw [hk]
    by_cases hb : b = (o.op k).rule
    · simp [hb]
    · simpa [hb] using hrule

/-- An operation that is not running leaves the books. -/
theorem ofoperationDestroy_accounts (h : o.Accounts G R) (hk : o.Holds G k) (hR : k ∉ R) :
    (ofoperationDestroy o k).Accounts G R := by
  have hnodup := h.opsNodup _ hk.1
  have hops : ∀ g, ((ofoperationDestroy o k).group g).ops =
      if g = (o.op k).group then (o.group g).ops.erase k else (o.group g).ops := by
    intro g
    by_cases hg : g = (o.op k).group <;> simp [ofoperationDestroy, Ofproto.setPending, hg]
  have hrunning : ∀ g, ((ofoperationDestroy o k).group g).nRunning = (o.group g).nRunning := by
    intro g
    by_cases hg : g = (o.op k).group <;> simp [ofoperationDestroy, Ofproto.setPending, hg]
  have hsub : ∀ g, ((ofoperationDestroy o k).group g).ops.Sublist (o.group g).ops := by
    intro g
    rw [hops]
    split
    · exact List.erase_sublist
    · exact List.Sublist.refl _
  have hleft : ∀ j, (ofoperationDestroy o k).Holds G j → j ≠ k := by
    rintro j hj rfl
    have hmem : j ∈ ((ofoperationDestroy o j).group (o.op j).group).ops := hj.2
    rw [hops, if_pos rfl] at hmem
    exact (hnodup.mem_erase_iff.mp hmem).1 rfl
  have hholds : ∀ j, j ≠ k → o.Holds G j → (ofoperationDestroy o k).Holds G j := by
    intro j hj hheld
    refine ⟨hheld.1, ?_⟩
    show j ∈ ((ofoperationDestroy o k).group (o.op j).group).ops
    rw [hops]
    split
    · exact (List.mem_erase_of_ne hj).mpr hheld.2
    · exact hheld.2
  -- another operation has another rule
  have hne : ∀ j, j ≠ k → o.Holds G j → (o.op j).rule ≠ (o.op k).rule := by
    intro j hj hheld heq
    have hpend := h.rule_pending hheld
    rw [heq, h.rule_pending hk] at hpend
    exact hj (Option.some.inj hpend).symm
  have hrule : ∀ b, ((ofoperationDestroy o k).rule b).pending =
      if b = (o.op k).rule then none else (o.rule b).pending := by
    intro b
    by_cases hb : b = (o.op k).rule <;> simp [ofoperationDestroy, Ofproto.setPending, hb]
  constructor
  case nodup => exact h.nodup
  case groupLt => exact h.groupLt
  case opsNodup => exact fun g hg => (h.opsNodup g hg).sublist (hsub g)
  case ops =>
    intro g hg j hj
    obtain ⟨hlt, hgroup, hpend⟩ := h.ops g hg j ((hsub g).subset hj)
    have hheld : (ofoperationDestroy o k).Holds G j := ⟨hgroup ▸ hg, hgroup ▸ hj⟩
    refine ⟨hlt, hgroup, ?_⟩
    show ((ofoperationDestroy o k).rule (o.op j).rule).pending = some j
    rw [hrule, if_neg (hne j (hleft j hheld) ⟨hgroup ▸ hg, hgroup ▸ (hsub g).subset hj⟩)]
    exact hpend
  case pending =>
    intro b j hj
    rw [hrule] at hj
    split at hj
    · cases hj
    · rename_i hb
      obtain ⟨hbj, hheld⟩ := h.pending b j hj
      refine ⟨hbj, hholds j ?_ hheld⟩
      rintro rfl
      exact hb hbj.symm
  case filedNodup =>
    show (if (o.op k).type = .delete then hmapRemove o.deletions k (o.op k).hash.toNat
      else o.deletions).values.Nodup
    split
    · rw [hmapRemove, ChainMap.values, ChainMap.entries_erase_eq]
      exact h.filedNodup.sublist (List.erase_sublist.map _)
    · exact h.filedNodup
  case filed =>
    intro e he
    change e ∈ (if (o.op k).type = .delete then hmapRemove o.deletions k (o.op k).hash.toNat
      else o.deletions).entries at he
    have hold : e ∈ o.deletions.entries := by
      split at he
      · rw [hmapRemove, ChainMap.entries_erase_eq] at he
        exact List.mem_of_mem_erase he
      · exact he
    obtain ⟨hkey, htype, hheld⟩ := h.filed e hold
    refine ⟨hkey, htype, hholds _ ?_ hheld⟩
    rintro rfl
    rw [if_pos htype, hmapRemove, ChainMap.entries_erase_eq, ← hkey] at he
    exact (h.filedNodup.of_map _).not_mem_erase he
  case onFile =>
    intro j hj htype
    have hmem := h.onFile j ⟨hj.1, (hsub _).subset hj.2⟩ htype
    change _ ∈ (if (o.op k).type = .delete then hmapRemove o.deletions k (o.op k).hash.toNat
      else o.deletions).entries
    split
    · rw [hmapRemove, ChainMap.entries_erase_eq]
      exact (List.mem_erase_of_ne fun heq => hleft j hj (Prod.mk.inj heq).2).mpr hmem
    · exact hmem
  case runningNodup => exact h.runningNodup
  case running =>
    intro j hj
    refine hholds j ?_ (h.running j hj)
    rintro rfl
    exact hR hj
  case nRunning =>
    intro g hg
    rw [hrunning]
    exact h.nRunning g hg

/-! ## Groups that are completed -/

/-- The groups that are submitted, with their counters, and the completions that are put off are
the same. -/
structure SameWork (o o' : Ofproto) : Prop where
  nextGroup : o'.nextGroup = o.nextGroup
  pending : o'.pending = o.pending
  completions : o'.completions = o.completions
  nRunning : ∀ g, (o'.group g).nRunning = (o.group g).nRunning

theorem SameWork.trans {o'' : Ofproto} (h : SameWork o o') (h' : SameWork o' o'') :
    SameWork o o'' where
  nextGroup := h'.nextGroup.trans h.nextGroup
  pending := h'.pending.trans h.pending
  completions := h'.completions.trans h.completions
  nRunning g := (h'.nRunning g).trans (h.nRunning g)

theorem SameBooks.work (h : SameBooks o o') : SameWork o o' where
  nextGroup := h.nextGroup
  pending := h.pending
  completions := h.completions
  nRunning g := by rw [h.group]

theorem ofoperationDestroy_work (o : Ofproto) (k : OpId) : SameWork o (ofoperationDestroy o k) where
  nextGroup := rfl
  pending := rfl
  completions := rfl
  nRunning g := by
    by_cases hg : g = (o.op k).group <;> simp [ofoperationDestroy, Ofproto.setPending, hg]

theorem completeOp_books (hs : completeOp isHidden o k = some o') :
    SameBooks (ofoperationDestroy o k) o' := by
  simp only [completeOp, Option.bind_eq_bind, Option.bind_eq_some_iff] at hs
  obtain ⟨_, -, o1, hcommit, hs⟩ := hs
  cases hs
  exact ofoperationDestroy_books (commitOperation_books hcommit)

/-- The loop of `ofopgroup_complete` empties the group. -/
theorem foldlM_completeOp_accounts {ks : List OpId} : ∀ {o : Ofproto}, o.Accounts G R → g ∈ G →
    (o.group g).ops = ks → (∀ k ∈ ks, k ∉ R) → ks.foldlM (completeOp isHidden) o = some o' →
    o'.Accounts G R ∧ (o'.group g).ops = [] ∧ SameWork o o' := by
  induction ks with
  | nil =>
    intro o h hg hops hR hs
    cases hs
    exact ⟨h, hops, (SameBooks.refl _).work⟩
  | cons k ks ih =>
    intro o h hg hops hR hs
    rw [List.foldlM_cons, Option.bind_eq_bind, Option.bind_eq_some_iff] at hs
    obtain ⟨o1, h1, h2⟩ := hs
    have hmem : k ∈ (o.group g).ops := by simp [hops]
    have hgroup := (h.ops g hg k hmem).2.1
    have hheld : o.Holds G k := ⟨hgroup ▸ hg, hgroup ▸ hmem⟩
    have hbooks := completeOp_books h1
    have hnext := (ofoperationDestroy_accounts h hheld (hR k (by simp))).books hbooks
    have hops1 : (o1.group g).ops = ks := by
      simp [hbooks.group, ofoperationDestroy, Ofproto.setPending, hgroup, hops]
    obtain ⟨hacc, hempty, hwork⟩ := ih hnext hg hops1 (fun j hj => hR j (by simp [hj])) h2
    exact ⟨hacc, hempty, ((ofoperationDestroy_work o k).trans hbooks.work).trans hwork⟩

/-- A group without operations leaves the books. -/
theorem Ofproto.Accounts.forget (h : o.Accounts (g :: G) R) (hempty : (o.group g).ops = []) :
    o.Accounts G R := by
  have hholds : ∀ k, o.Holds (g :: G) k → o.Holds G k := by
    intro k hk
    refine ⟨(List.mem_cons.mp hk.1).resolve_left fun hg => ?_, hk.2⟩
    have hmem := hk.2
    simp [hg, hempty] at hmem
  constructor
  case nodup => exact (List.nodup_cons.mp h.nodup).2
  case groupLt => exact fun g' hg' => h.groupLt g' (List.mem_cons_of_mem _ hg')
  case opsNodup => exact fun g' hg' => h.opsNodup g' (List.mem_cons_of_mem _ hg')
  case ops => exact fun g' hg' => h.ops g' (List.mem_cons_of_mem _ hg')
  case pending => exact fun a k hk => ⟨(h.pending a k hk).1, hholds k (h.pending a k hk).2⟩
  case filedNodup => exact h.filedNodup
  case filed =>
    intro e he
    obtain ⟨hkey, htype, hheld⟩ := h.filed e he
    exact ⟨hkey, htype, hholds _ hheld⟩
  case onFile => exact fun k hk => h.onFile k (hk.mono (List.subset_cons_self ..))
  case runningNodup => exact h.runningNodup
  case running => exact fun k hk => hholds k (h.running k hk)
  case nRunning => exact fun g' hg' => h.nRunning g' (List.mem_cons_of_mem _ hg')

theorem ofopgroupComplete_accounts (h : o.Accounts (g :: G) R) (hn : (o.group g).nRunning = 0)
    (hs : ofopgroupComplete o g isHidden = some o') :
    o'.Accounts G R ∧ o'.nextGroup = o.nextGroup ∧ o'.pending = o.pending.erase g ∧
      o'.completions = o.completions ∧
      ∀ g', (o'.group g').nRunning = (o.group g').nRunning := by
  obtain ⟨o1, hfold, hs⟩ := Option.bind_eq_some_iff.mp hs
  cases hs
  have hg : g ∈ g :: G := List.mem_cons_self ..
  obtain ⟨hacc, hempty, hwork⟩ := foldlM_completeOp_accounts h hg rfl
    (fun k hk => h.not_running hg hn hk) hfold
  have hleft : ({ o1 with pending := o1.pending.erase g } : Ofproto).Accounts G R := by
    obtain ⟨⟩ := hacc.forget hempty
    constructor <;> assumption
  exact ⟨hleft, hwork.nextGroup, by rw [← hwork.pending], hwork.completions, hwork.nRunning⟩

/-! ## The books while a group is open -/

/-- In a call that began in `start`, the group that it has opened is not submitted yet; `R` are
those operations of the group that run although their completion has not been put off. -/
structure Ofproto.Open (o start : Ofproto) (R : List OpId) : Prop where
  accounts : o.Accounts (start.nextGroup :: start.pending) (R ++ o.completions)
  pending : o.pending = start.pending
  nextGroup : o.nextGroup = start.nextGroup + 1
  clogged : o.clogged = start.clogged
  busy : o.Busy
  own : ∀ k ∈ R, (o.op k).group = start.nextGroup
  putOff : start.clogged = false → ∀ k ∈ o.completions, (o.op k).group ≠ start.nextGroup

/-- A call has opened at most one group, and has completed it unless the provider is clogged. -/
def OneGroup (o o' : Ofproto) : Prop :=
  (o'.nextGroup = o.nextGroup ∧ o'.pending.Sublist o.pending) ∨
    (o'.nextGroup = o.nextGroup + 1 ∧ (o'.pending = o.pending ∨
      (o.clogged = true ∧ o'.pending = o.pending ++ [o.nextGroup])))

theorem Ofproto.Open.not_pending (h : o.Open start R) : start.nextGroup ∉ o.pending := by
  rw [h.pending]
  exact (List.nodup_cons.mp h.accounts.nodup).1

theorem Ofproto.Open.books (h : o.Open start R) (hs : SameBooks o o') : o'.Open start R where
  accounts := by
    rw [hs.completions]
    exact h.accounts.books hs
  pending := hs.pending.trans h.pending
  nextGroup := hs.nextGroup.trans h.nextGroup
  clogged := hs.clogged.trans h.clogged
  busy := h.busy.books hs
  own := by simpa [hs.opGroup] using h.own
  putOff := by simpa [hs.opGroup, hs.completions] using h.putOff

theorem ofopgroupCreate_open (h : o.Accounted) : (ofopgroupCreate o).1.Open o [] where
  accounts := ofopgroupCreate_accounts h.accounts
  pending := rfl
  nextGroup := rfl
  clogged := rfl
  busy g hg := by
    have hne : g ≠ o.nextGroup := Nat.ne_of_lt (h.accounts.groupLt g hg)
    simpa [ofopgroupCreate, hne] using h.busy g hg
  own := by simp
  putOff _ k hk := Nat.ne_of_lt (h.accounts.groupLt _ (h.accounts.running k hk).1)

theorem ofoperationCreate_open {type : OfoperationType} {hashes : Option U32}
    (h : o.Open start R)
    (hs : ofoperationCreate o start.nextGroup a type hashes = some (o', k)) :
    o'.Open start (k :: R) ∧ (o'.rule a).pending = some k := by
  obtain ⟨hacc, hrule, hself, hop, hpending, hcomp, hnext, hclog, hgroup⟩ :=
    ofoperationCreate_accounts h.accounts (List.mem_cons_self ..) hs
  refine ⟨⟨by rw [hcomp]; exact hacc, hpending.trans h.pending, hnext.trans h.nextGroup,
    hclog.trans h.clogged, fun g' hg' => ?_, fun j hj => ?_, fun hclear j hj => ?_⟩, hrule⟩
  · rw [hpending] at hg'
    rw [hgroup g' fun heq => h.not_pending (heq ▸ hg')]
    exact h.busy g' hg'
  · rcases List.mem_cons.mp hj with rfl | hj
    · exact hself
    · rw [hop j (h.accounts.running j (List.mem_append_left _ hj))]
      exact h.own j hj
  · rw [hcomp] at hj
    rw [hop j (h.accounts.running j (List.mem_append_right _ hj))]
    exact h.putOff hclear j hj

/-- Submitting the group closes it. -/
theorem ofopgroupSubmit_accounted {isHidden : Bool} (h : o.Open start [])
    (hs : ofopgroupSubmit o start.nextGroup isHidden = some o') :
    o'.Accounted ∧ OneGroup start o' := by
  have hpending := h.pending
  have hnone : start.nextGroup ∉ start.pending := hpending ▸ h.not_pending
  unfold ofopgroupSubmit at hs
  split at hs
  · rename_i hzero
    obtain ⟨hacc, hnext, hpending', hcomp, hrun⟩ :=
      ofopgroupComplete_accounts h.accounts hzero hs
    rw [hpending, List.erase_of_not_mem hnone] at hpending'
    refine ⟨⟨by rw [hpending', hcomp]; exact hacc, fun g' hg' => ?_⟩,
      .inr ⟨hnext.trans h.nextGroup, .inl hpending'⟩⟩
    rw [hpending', ← hpending] at hg'
    rw [hrun]
    exact h.busy g' hg'
  · rename_i hrun
    cases hs
    have hacc := h.accounts.perm (List.perm_append_singleton _ _).symm (List.Perm.refl _)
    refine ⟨⟨?_, fun g' hg' => ?_⟩,
      .inr ⟨h.nextGroup, .inr ⟨?_, congrArg (· ++ [start.nextGroup]) hpending⟩⟩⟩
    · rw [← hpending] at hacc
      obtain ⟨⟩ := hacc
      constructor <;> assumption
    · rcases List.mem_append.mp hg' with hg' | hg'
      · exact h.busy g' hg'
      · rw [List.mem_singleton.mp hg']
        exact Nat.pos_of_ne_zero hrun
    · -- an operation that runs has been put off
      have hcount := h.accounts.nRunning _ (List.mem_cons_self ..)
      rw [List.nil_append] at hcount
      rw [hcount] at hrun
      obtain ⟨k, hk, hgk⟩ := List.countP_pos_iff.mp (Nat.pos_of_ne_zero hrun)
      by_contra hclear
      exact h.putOff (Bool.eq_false_iff.mpr hclear) k hk (of_decide_eq_true hgk)

/-! ## Completions -/

theorem ofoperationComplete_last (hs : ofoperationComplete o k none = some o') :
    (¬ ((o.group (o.op k).group).nRunning = 1 ∧ (o.op k).group ∈ o.pending) ∧
      o' = o.markCompleted k none) ∨
    ((o.group (o.op k).group).nRunning = 1 ∧ (o.op k).group ∈ o.pending ∧
      ofopgroupComplete (o.markCompleted k none) (o.op k).group false = some o') := by
  simp only [ofoperationComplete] at hs
  split at hs
  · split at hs
    · rename_i hlast
      exact .inr ⟨hlast.1, hlast.2, hs⟩
    · rename_i hmore
      cases hs
      exact .inl ⟨hmore, rfl⟩
  · cases hs

theorem markCompleted_nRunning_ne (hg : g ≠ (o.op k).group) (error : Option Ofperr) :
    ((o.markCompleted k error).group g).nRunning = (o.group g).nRunning := by
  simp [Ofproto.markCompleted, hg]

theorem markCompleted_nRunning_self (o : Ofproto) (k : OpId) (error : Option Ofperr) :
    ((o.markCompleted k error).group (o.op k).group).nRunning
      = (o.group (o.op k).group).nRunning - 1 := by
  simp [Ofproto.markCompleted]

theorem markCompleted_op_group (o : Ofproto) (k j : OpId) (error : Option Ofperr) :
    ((o.markCompleted k error).op j).group = (o.op j).group := by
  by_cases hj : j = k
  · subst hj
    simp [Ofproto.markCompleted]
  · simp [Ofproto.markCompleted, hj]

/-- An operation of the open group that is completed at once. -/
theorem ofoperationComplete_open (h : o.Open start (k :: R))
    (hs : ofoperationComplete o k none = some o') :
    o'.Open start R ∧ o'.rule = o.rule := by
  have hgk := h.own k (List.mem_cons_self ..)
  rcases ofoperationComplete_last hs with ⟨-, rfl⟩ | ⟨-, hmem, -⟩
  · refine ⟨⟨markCompleted_accounts h.accounts none, h.pending, h.nextGroup, h.clogged,
      fun g' hg' => ?_, fun j hj => ?_, fun hclear j hj => ?_⟩, rfl⟩
    · have hne : g' ≠ (o.op k).group := fun heq => h.not_pending (hgk ▸ heq ▸ hg')
      rw [markCompleted_nRunning_ne hne]
      exact h.busy g' hg'
    · rw [markCompleted_op_group]
      exact h.own j (List.mem_cons_of_mem _ hj)
    · rw [markCompleted_op_group]
      exact h.putOff hclear j hj
  · exact absurd (hgk ▸ hmem) h.not_pending

/-- The provider completes an operation of the open group, or puts that off. -/
theorem completeOperation_open (h : o.Open start (k :: R)) (hp : (o.rule a).pending = some k)
    (hs : completeOperation o a = some o') : o'.Open start R ∧ o'.rule = o.rule := by
  simp only [completeOperation, hp, Option.bind_eq_bind, Option.bind_some] at hs
  split at hs
  · rename_i hclog
    cases hs
    have hacc := h.accounts.perm (List.Perm.refl _)
      (List.perm_append_singleton k (R ++ o.completions)).symm
    rw [List.append_assoc] at hacc
    refine ⟨⟨?_, h.pending, h.nextGroup, h.clogged, h.busy,
      fun j hj => h.own j (List.mem_cons_of_mem _ hj), fun hclear => ?_⟩, rfl⟩
    · obtain ⟨⟩ := hacc
      constructor <;> assumption
    · rw [← h.clogged, hclog] at hclear
      cases hclear
  · exact ofoperationComplete_open h hs

theorem ruleDestruct_open (h : o.Open start (k :: R)) (hp : (o.rule a).pending = some k)
    (hs : ruleDestruct o a = some o') : o'.Open start R ∧ o'.rule = o.rule := by
  have hlog : SameBooks o { o with log := o.log ++ [.destruct a] } :=
    .of_eq rfl rfl rfl rfl rfl rfl rfl rfl fun _ => rfl
  have hlogged := h.books hlog
  obtain ⟨hopen, hrule⟩ := completeOperation_open hlogged hp hs
  exact ⟨hopen, hrule⟩

/-- A completion that was put off. -/
theorem ofoperationComplete_accounted (h : o.Accounts o.pending (k :: R)) (hbusy : o.Busy)
    (hs : ofoperationComplete o k none = some o') :
    o'.Accounts o'.pending R ∧ o'.Busy ∧ o'.nextGroup = o.nextGroup ∧
      o'.pending.Sublist o.pending := by
  have hmark := markCompleted_accounts h none
  have hg := (h.running k (List.mem_cons_self ..)).1
  rcases ofoperationComplete_last hs with ⟨hmore, rfl⟩ | ⟨hone, -, hcomp⟩
  · refine ⟨hmark, fun g' hg' => ?_, rfl, List.Sublist.refl _⟩
    have hpos := hbusy g' hg'
    by_cases hgk : g' = (o.op k).group
    · subst hgk
      rw [markCompleted_nRunning_self]
      have hne : (o.group (o.op k).group).nRunning ≠ 1 := fun hone => hmore ⟨hone, hg⟩
      omega
    · rw [markCompleted_nRunning_ne hgk]
      exact hpos
  · have hperm := hmark.perm (List.perm_cons_erase hg) (List.Perm.refl _)
    have hzero : ((o.markCompleted k none).group (o.op k).group).nRunning = 0 := by
      rw [markCompleted_nRunning_self, hone]
    obtain ⟨hacc, hnext, hpending, -, hrun⟩ := ofopgroupComplete_accounts hperm hzero hcomp
    change o'.pending = o.pending.erase _ at hpending
    rw [hpending]
    refine ⟨hacc, fun g' hg' => ?_, hnext, List.erase_sublist⟩
    rw [hpending] at hg'
    have hne : g' ≠ (o.op k).group := (h.nodup.mem_erase_iff.mp hg').1
    rw [hrun, markCompleted_nRunning_ne hne]
    exact hbusy g' (List.mem_of_mem_erase hg')

end Accounts

end OvsSgx
