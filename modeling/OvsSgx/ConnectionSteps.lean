/-
OvsSgx.ConnectionSteps — what a request does to the connections.

A handler that changes the flow table makes one call into the bridge, and
the lists `opgroups` follow the groups of that call. Every other handler
leaves the flow table, the mailboxes and the lists `opgroups` alone. A
request is put off only while a group is pending.
-/
import OvsSgx.Connections
import OvsSgx.OperationRuns

namespace OvsSgx

section Connmgr

variable {Msg P A : Type} {m m' m'' : Connmgr Msg P A} {c c' : ConnId} {g : GroupId}

@[simp] theorem Connmgr.update_conn_self (m : Connmgr Msg P A) (c : ConnId)
    (f : Ofconn Msg P A → Ofconn Msg P A) : (m.update c f).conn c = f (m.conn c) := by
  simp [Connmgr.update]

theorem Connmgr.update_conn_ne (h : c' ≠ c) (f : Ofconn Msg P A → Ofconn Msg P A) :
    (m.update c f).conn c' = m.conn c' := by
  simp [Connmgr.update, h]

theorem Connmgr.mem_opgroups : g ∈ m.opgroups ↔ ∃ c ∈ m.allConns, g ∈ (m.conn c).opgroups :=
  List.mem_flatMap

/-! ## The groups of a call -/

/-- The connections are the same except that a retry may be allowed and that groups have come or
gone. -/
structure SameButGroups (m m' : Connmgr Msg P A) : Prop where
  allConns : m'.allConns = m.allConns
  nextConn : m'.nextConn = m.nextConn
  conn : ∀ c, ∃ retry opgroups,
    m'.conn c = { m.conn c with retry := retry, opgroups := opgroups }

theorem SameButGroups.refl (m : Connmgr Msg P A) : SameButGroups m m :=
  ⟨rfl, rfl, fun c => ⟨(m.conn c).retry, (m.conn c).opgroups, rfl⟩⟩

theorem SameButGroups.trans (h : SameButGroups m m') (h' : SameButGroups m' m'') :
    SameButGroups m m'' where
  allConns := h'.allConns.trans h.allConns
  nextConn := h'.nextConn.trans h.nextConn
  conn c := by
    obtain ⟨r, gs, hconn⟩ := h.conn c
    obtain ⟨r', gs', hconn'⟩ := h'.conn c
    exact ⟨r', gs', by rw [hconn', hconn]⟩

theorem SameButGroups.blocked (h : SameButGroups m m') (c : ConnId) :
    (m'.conn c).blocked = (m.conn c).blocked := by
  obtain ⟨r, gs, hconn⟩ := h.conn c
  rw [hconn]

theorem SameButGroups.queue (h : SameButGroups m m') (c : ConnId) :
    (m'.conn c).queue = (m.conn c).queue := by
  obtain ⟨r, gs, hconn⟩ := h.conn c
  rw [hconn]

theorem SameButGroups.type (h : SameButGroups m m') (c : ConnId) :
    (m'.conn c).type = (m.conn c).type := by
  obtain ⟨r, gs, hconn⟩ := h.conn c
  rw [hconn]

theorem SameButGroups.role (h : SameButGroups m m') (c : ConnId) :
    (m'.conn c).role = (m.conn c).role := by
  obtain ⟨r, gs, hconn⟩ := h.conn c
  rw [hconn]

/-- `ofconn_add_opgroup` for a list of groups. -/
theorem foldl_ofconnAddOpgroup_conn {groups : List GroupId} : ∀ {m : Connmgr Msg P A},
    (groups.foldl (fun m g => ofconnAddOpgroup m c g) m).allConns = m.allConns ∧
    (groups.foldl (fun m g => ofconnAddOpgroup m c g) m).nextConn = m.nextConn ∧
    ∀ c', (groups.foldl (fun m g => ofconnAddOpgroup m c g) m).conn c' = { m.conn c' with
      opgroups := (m.conn c').opgroups ++ if c = c' then groups else [] } := by
  induction groups with
  | nil => simp
  | cons g groups ih =>
    intro m
    obtain ⟨hall, hnext, hconn⟩ := ih (m := ofconnAddOpgroup m c g)
    refine ⟨hall, hnext, fun c' => ?_⟩
    rw [List.foldl_cons, hconn]
    by_cases hc : c = c'
    · subst hc
      simp [ofconnAddOpgroup]
    · simp [ofconnAddOpgroup, Connmgr.update_conn_ne (Ne.symm hc), hc]

theorem Connmgr.attach_spec (m : Connmgr Msg P A) (creator : Option ConnId)
    (groups : List GroupId) :
    (m.attach creator groups).allConns = m.allConns ∧
    (m.attach creator groups).nextConn = m.nextConn ∧
    ∀ c, (m.attach creator groups).conn c = { m.conn c with
      opgroups := (m.conn c).opgroups ++ if creator = some c then groups else [] } := by
  cases creator with
  | none => simp [Connmgr.attach]
  | some c => simpa [Connmgr.attach] using foldl_ofconnAddOpgroup_conn

theorem Connmgr.attach_sameButGroups (m : Connmgr Msg P A) (creator : Option ConnId)
    (groups : List GroupId) : SameButGroups m (m.attach creator groups) := by
  obtain ⟨hall, hnext, hconn⟩ := m.attach_spec creator groups
  exact ⟨hall, hnext, fun c => ⟨_, _, hconn c⟩⟩

theorem ofopgroupLeave_sameButGroups (m : Connmgr Msg P A) (g : GroupId) :
    SameButGroups m (ofopgroupLeave m g) := by
  unfold ofopgroupLeave
  split
  · refine ⟨rfl, rfl, fun c => ?_⟩
    by_cases hc : c ∈ m.allConns
    · exact ⟨true, (m.conn c).opgroups.erase g, by simp [connmgrRetry, hc]⟩
    · exact ⟨(m.conn c).retry, (m.conn c).opgroups.erase g, by simp [connmgrRetry, hc]⟩
  · exact .refl m

theorem ofopgroupLeave_opgroups (hc : c ∈ m.allConns) (g : GroupId) :
    ((ofopgroupLeave m g).conn c).opgroups = (m.conn c).opgroups.erase g := by
  unfold ofopgroupLeave
  split
  · simp [connmgrRetry, hc]
  · rename_i hg
    have hnot : g ∉ (m.conn c).opgroups := fun hmem => hg (m.mem_opgroups.mpr ⟨c, hc, hmem⟩)
    exact (List.erase_of_not_mem hnot).symm

theorem foldl_ofopgroupLeave_sameButGroups {groups : List GroupId} : ∀ {m : Connmgr Msg P A},
    SameButGroups m (groups.foldl ofopgroupLeave m) := by
  induction groups with
  | nil => exact fun {m} => .refl m
  | cons g groups ih => exact fun {m} => (ofopgroupLeave_sameButGroups m g).trans ih

theorem foldl_ofopgroupLeave_opgroups {groups : List GroupId} : ∀ {m : Connmgr Msg P A},
    c ∈ m.allConns →
    ((groups.foldl ofopgroupLeave m).conn c).opgroups = (m.conn c).opgroups.diff groups := by
  induction groups with
  | nil => simp
  | cons g groups ih =>
    intro m hc
    rw [List.foldl_cons, ih (by rw [(ofopgroupLeave_sameButGroups m g).allConns]; exact hc),
      ofopgroupLeave_opgroups hc, List.diff_cons]

/-- A connection that may not retry afterwards might not retry before, and no group of any
connection has been completed. -/
theorem ofopgroupLeave_retry (hc : c ∈ m.allConns)
    (hretry : ((ofopgroupLeave m g).conn c).retry = false) :
    (m.conn c).retry = false ∧ g ∉ m.opgroups := by
  unfold ofopgroupLeave at hretry
  split at hretry
  · simp [connmgrRetry, hc] at hretry
  · rename_i hg
    exact ⟨hretry, hg⟩

theorem foldl_ofopgroupLeave_retry {groups : List GroupId} : ∀ {m : Connmgr Msg P A},
    c ∈ m.allConns → ((groups.foldl ofopgroupLeave m).conn c).retry = false →
    (m.conn c).retry = false ∧ ∀ g ∈ groups, g ∉ m.opgroups := by
  induction groups with
  | nil => exact fun {m} _ h => ⟨h, by simp⟩
  | cons g groups ih =>
    intro m hc hretry
    have hsame := ofopgroupLeave_sameButGroups m g
    obtain ⟨hretry1, -⟩ := ih (by rw [hsame.allConns]; exact hc) hretry
    obtain ⟨hretry', hg⟩ := ofopgroupLeave_retry hc hretry1
    have hleave : ofopgroupLeave m g = m := by simp [ofopgroupLeave, hg]
    rw [List.foldl_cons, hleave] at hretry
    obtain ⟨-, hgroups⟩ := ih hc hretry
    simp only [List.mem_cons, forall_eq_or_imp]
    exact ⟨hretry', hg, hgroups⟩

theorem afterCall_sameButGroups (m : Connmgr Msg P A) (creator : Option ConnId)
    (o o' : Ofproto) : SameButGroups m (m.afterCall creator o o') :=
  (m.attach_sameButGroups creator _).trans foldl_ofopgroupLeave_sameButGroups

/-- The groups that a call has created are added, and those that are no longer pending leave. -/
theorem afterCall_opgroups {creator : Option ConnId} {o o' : Ofproto} (hc : c ∈ m.allConns)
    (hnodup : ((m.conn c).opgroups ++ if creator = some c then newGroups o o' else []).Nodup) :
    ((m.afterCall creator o o').conn c).opgroups =
      ((m.conn c).opgroups ++ if creator = some c then newGroups o o' else []).filter
        (· ∈ o'.pending) := by
  obtain ⟨hall, -, hconn⟩ := m.attach_spec creator (newGroups o o')
  have hc' : c ∈ (m.attach creator (newGroups o o')).allConns := hall ▸ hc
  have hgroups := congrArg Ofconn.opgroups (hconn c)
  dsimp only at hgroups
  rw [Connmgr.afterCall, foldl_ofopgroupLeave_opgroups hc', hgroups, hnodup.sdiff_eq_filter]
  refine List.filter_congr fun g hg => ?_
  have hmem : g ∈ (m.attach creator (newGroups o o')).opgroups :=
    Connmgr.mem_opgroups.mpr ⟨c, hc', hgroups ▸ hg⟩
  simp [hmem]

theorem afterCall_retry {creator : Option ConnId} {o o' : Ofproto} (hc : c ∈ m.allConns)
    (hretry : ((m.afterCall creator o o').conn c).retry = false) :
    (m.conn c).retry = false ∧ ∀ g ∈ m.opgroups, g ∈ o'.pending := by
  obtain ⟨hall, -, hconn⟩ := m.attach_spec creator (newGroups o o')
  obtain ⟨hretry', hleft⟩ := foldl_ofopgroupLeave_retry (hall ▸ hc) hretry
  rw [hconn c] at hretry'
  refine ⟨hretry', fun g hg => ?_⟩
  obtain ⟨c', hc', hg⟩ := Connmgr.mem_opgroups.mp hg
  have hattached : g ∈ (m.attach creator (newGroups o o')).opgroups :=
    Connmgr.mem_opgroups.mpr ⟨c', hall ▸ hc', by rw [hconn c']; exact List.mem_append_left _ hg⟩
  by_contra hgone
  exact hleft g (List.mem_filter.mpr ⟨hattached, by simpa using hgone⟩) hattached

/-! ## The handlers that leave the flow table alone -/

/-- What has been received and the lists `opgroups` are the same. -/
structure SameQueues (m m' : Connmgr Msg P A) : Prop where
  allConns : m'.allConns = m.allConns
  nextConn : m'.nextConn = m.nextConn
  conn : ∀ c, (m'.conn c).toMailbox = (m.conn c).toMailbox ∧
    (m'.conn c).type = (m.conn c).type ∧ (m'.conn c).opgroups = (m.conn c).opgroups

theorem SameQueues.refl (m : Connmgr Msg P A) : SameQueues m m :=
  ⟨rfl, rfl, fun _ => ⟨rfl, rfl, rfl⟩⟩

theorem SameQueues.trans (h : SameQueues m m') (h' : SameQueues m' m'') : SameQueues m m'' where
  allConns := h'.allConns.trans h.allConns
  nextConn := h'.nextConn.trans h.nextConn
  conn c := by
    obtain ⟨hbox, htype, hgroups⟩ := h.conn c
    obtain ⟨hbox', htype', hgroups'⟩ := h'.conn c
    exact ⟨hbox'.trans hbox, htype'.trans htype, hgroups'.trans hgroups⟩

theorem SameQueues.update {f : Ofconn Msg P A → Ofconn Msg P A}
    (hf : ∀ x, (f x).toMailbox = x.toMailbox ∧ (f x).type = x.type ∧
      (f x).opgroups = x.opgroups) : SameQueues m (m.update c f) := by
  refine ⟨rfl, rfl, fun c' => ?_⟩
  by_cases hc : c' = c
  · subst hc
    simpa using hf (m.conn c')
  · simp [Connmgr.update_conn_ne hc]

theorem ofconnSendReply_sameQueues (m : Connmgr Msg P A) (c : ConnId) (reply : Reply A) :
    SameQueues m (ofconnSendReply m c reply) := .update fun _ => ⟨rfl, rfl, rfl⟩

theorem ofconnSendReplies_sameQueues {replies : List (Reply A)} : ∀ {m : Connmgr Msg P A},
    SameQueues m (ofconnSendReplies m c replies) := by
  induction replies with
  | nil => exact fun {m} => .refl m
  | cons reply replies ih => exact fun {m} => (ofconnSendReply_sameQueues m c reply).trans ih

theorem demoteMasters_sameQueues (m : Connmgr Msg P A) : SameQueues m (demoteMasters m) := by
  refine ⟨rfl, rfl, fun c => ?_⟩
  unfold demoteMasters
  dsimp only
  split <;> exact ⟨rfl, rfl, rfl⟩

theorem ofconnSetRole_sameQueues (m : Connmgr Msg P A) (c : ConnId) (role : ControllerRole) :
    SameQueues m (ofconnSetRole m c role) := by
  unfold ofconnSetRole
  split
  · exact (demoteMasters_sameQueues m).trans (.update fun _ => ⟨rfl, rfl, rfl⟩)
  · exact .update fun _ => ⟨rfl, rfl, rfl⟩

theorem ofconnSetMasterElectionId_conn {id : BitVec 64}
    (h : ofconnSetMasterElectionId m id = some m') :
    m'.conn = m.conn ∧ m'.allConns = m.allConns ∧ m'.nextConn = m.nextConn := by
  unfold ofconnSetMasterElectionId at h
  split at h
  · split at h
    · cases h
    · cases h
      exact ⟨rfl, rfl, rfl⟩
  · cases h
    exact ⟨rfl, rfl, rfl⟩

end Connmgr

section Handlers

variable {Msg P A : Type} {s : Switch Msg P A} {m : Connmgr Msg P A} {c : ConnId}
  {error : Option HandlerError}

/-- Only the role of `c` has been set, or no role at all. -/
def RolesBy (c : ConnId) (m m' : Connmgr Msg P A) : Prop :=
  (∀ c', (m'.conn c').role = (m.conn c').role) ∨
    ∃ role, ∀ c', (m'.conn c').role = ((ofconnSetRole m c role).conn c').role

/-- A request for which something has to be completed first. -/
def HasToWait (s : Switch Msg P A) (c : ConnId) : Prop :=
  (s.mgr.conn c).opgroups ≠ [] ∨ ∃ a, (s.flows.ofproto.rule a).pending ≠ none

/-- What a handler that leaves the flow table alone does to the connections. -/
structure HandledFor (s : Switch Msg P A) (c : ConnId)
    (r : Connmgr Msg P A × Option HandlerError) : Prop where
  queues : SameQueues s.mgr r.1
  roles : RolesBy c s.mgr r.1
  postponed : r.2 = some (.ofperr .postpone) → HasToWait s c

theorem ofconnSendReply_role (m : Connmgr Msg P A) (c c' : ConnId) (reply : Reply A) :
    ((ofconnSendReply m c reply).conn c').role = (m.conn c').role := by
  by_cases hc : c' = c
  · subst hc
    simp [ofconnSendReply]
  · rw [ofconnSendReply, Connmgr.update_conn_ne hc]

theorem ofconnSendReplies_role {replies : List (Reply A)} (c' : ConnId) :
    ∀ {m : Connmgr Msg P A}, ((ofconnSendReplies m c replies).conn c').role = (m.conn c').role := by
  induction replies with
  | nil => exact rfl
  | cons reply replies ih => exact ih.trans (ofconnSendReply_role _ _ _ _)

theorem ofconnHasPendingOpgroups_iff :
    ofconnHasPendingOpgroups m c = true ↔ (m.conn c).opgroups ≠ [] := by
  simp [ofconnHasPendingOpgroups]

/-- A handler that writes one connection, or has to wait for its groups. -/
theorem handledFor_update {f : Ofconn Msg P A → Ofconn Msg P A}
    (hf : ∀ x, (f x).toMailbox = x.toMailbox ∧ (f x).type = x.type ∧ (f x).opgroups = x.opgroups)
    (hrole : ∀ x, (f x).role = x.role) : HandledFor s c (s.mgr.update c f, none) := by
  refine ⟨.update hf, .inl fun c' => ?_, nofun⟩
  by_cases hc : c' = c
  · subst hc
    simpa using hrole (s.mgr.conn c')
  · rw [Connmgr.update_conn_ne hc]

theorem handledFor_refused (h : error = some (.ofperr .postpone) → HasToWait s c) :
    HandledFor s c (s.mgr, error) :=
  ⟨.refl _, .inl fun _ => rfl, h⟩

theorem handleBarrierRequest_handled :
    HandledFor s c (handleBarrierRequest s.mgr c) := by
  unfold handleBarrierRequest
  split
  · rename_i hpend
    exact handledFor_refused fun _ => .inl (ofconnHasPendingOpgroups_iff.mp hpend)
  · exact handledFor_update (fun _ => ⟨rfl, rfl, rfl⟩) fun _ => rfl

theorem handleRoleRequest_handled (role : ControllerRole) (generationId : Option (BitVec 64)) :
    HandledFor s c (handleRoleRequest s.mgr c role generationId) := by
  unfold handleRoleRequest sendRoleReply
  split
  · exact handledFor_update (fun _ => ⟨rfl, rfl, rfl⟩) fun _ => rfl
  · split
    · rename_i hwait
      exact handledFor_refused fun _ => .inl (ofconnHasPendingOpgroups_iff.mp hwait.2)
    · split
      · exact handledFor_refused nofun
      · rename_i m hm
        have hsame : m.conn = s.mgr.conn ∧ m.allConns = s.mgr.allConns ∧
            m.nextConn = s.mgr.nextConn := by
          cases generationId with
          | none =>
            cases hm
            exact ⟨rfl, rfl, rfl⟩
          | some id => exact ofconnSetMasterElectionId_conn hm
        obtain ⟨hconn, hall, hnext⟩ := hsame
        have hqueues : SameQueues s.mgr m :=
          ⟨hall, hnext, fun c => by rw [hconn]; exact ⟨rfl, rfl, rfl⟩⟩
        refine ⟨(hqueues.trans (ofconnSetRole_sameQueues m c role)).trans
          (ofconnSendReply_sameQueues _ c _), .inr ⟨role, fun c' => ?_⟩, nofun⟩
        rw [ofconnSendReply_role]
        simp [ofconnSetRole, demoteMasters, Connmgr.update, apply_ite Connmgr.conn, hconn, hall]

theorem handleSetFlowFormat_handled [DecidableEq P] (u : Ofputil Msg P A) (nextBase : Option P) :
    HandledFor s c (handleSetFlowFormat u s.mgr c nextBase) := by
  unfold handleSetFlowFormat
  split
  · exact handledFor_refused nofun
  · dsimp only
    split
    · rename_i hwait
      exact handledFor_refused fun _ => .inl (ofconnHasPendingOpgroups_iff.mp hwait.2)
    · exact handledFor_update (fun _ => ⟨rfl, rfl, rfl⟩) fun _ => rfl

theorem handleSetPacketInFormat_handled (format : U32) :
    HandledFor s c (handleSetPacketInFormat s.mgr c format) := by
  unfold handleSetPacketInFormat
  split
  · exact handledFor_refused nofun
  · split
    · rename_i hwait
      exact handledFor_refused fun _ => .inl (ofconnHasPendingOpgroups_iff.mp hwait.2)
    · exact handledFor_update (fun _ => ⟨rfl, rfl, rfl⟩) fun _ => rfl

theorem rejectSlaveController_ne_postpone :
    rejectSlaveController m c ≠ some (.ofperr .postpone) := by
  unfold rejectSlaveController
  split <;> simp

theorem handledFor_replies (replies : List (Reply A)) :
    HandledFor s c (ofconnSendReplies s.mgr c replies, none) :=
  ⟨ofconnSendReplies_sameQueues, .inl fun c' => ofconnSendReplies_role c', nofun⟩

theorem handleOther_handled (rejectsSlaves : Bool) (code : Option Nat) (nReplies : Nat) :
    HandledFor s c (handleOther s.mgr c rejectsSlaves code nReplies) := by
  unfold handleOther
  split
  · rename_i error _ hreject
    refine handledFor_refused fun h => ?_
    cases h
    split at hreject
    · exact absurd hreject rejectSlaveController_ne_postpone
    · cases hreject
  · exact handledFor_refused nofun
  · exact handledFor_replies _

/-- A statistics request is put off only for a rule that is pending. -/
theorem sendStats_handled {R : Type} {replies : R → List (Reply A)} {res : Except Ofperr R}
    (hpend : res = .error .postpone → ∃ a, (s.flows.ofproto.rule a).pending ≠ none) :
    HandledFor s c (sendStats s.mgr c replies res) := by
  cases res with
  | error e =>
    refine handledFor_refused fun h => .inr (hpend ?_)
    cases h
    rfl
  | ok r => exact handledFor_replies _

/-! ## What requests are put off for -/

theorem collectLoop_postponed {outputTo : A → BitVec 16 → Bool} {f : FlowState A}
    {cookie cookieMask : BitVec 64} {outPort : BitVec 16} {candidates : List Candidate} :
    ∀ {rules rules' : List UtAddr} {e : Ofperr},
      collectLoop outputTo f cookie cookieMask outPort candidates rules = some (some e, rules') →
      ∃ a, (f.ofproto.rule a).pending ≠ none := by
  induction candidates with
  | nil =>
    intro rules rules' e h
    cases h
  | cons x rest ih =>
    intro rules rules' e h
    unfold collectLoop at h
    split at h
    · rename_i hpend
      exact ⟨x.cr, Option.isSome_iff_ne_none.mp hpend⟩
    · obtain ⟨hidden, -, h⟩ := Option.bind_eq_some_iff.mp h
      split at h
      · exact ih h
      · exact ih h

theorem checkTableId_ne_postpone {o : Ofproto} {i : Nat} :
    checkTableId o i ≠ some .postpone := by
  unfold checkTableId
  split <;> simp

theorem collectRulesLoose_postponed {outputTo : A → BitVec 16 → Bool} {b : Build}
    {f : FlowState A} {i : Nat} {q : Match} {cookie cookieMask : BitVec 64}
    {outPort : BitVec 16} {r : Collected}
    (h : collectRulesLoose outputTo b f i q cookie cookieMask outPort = some r)
    (he : r.error = some .postpone) : ∃ a, (f.ofproto.rule a).pending ≠ none := by
  unfold collectRulesLoose at h
  split at h
  · rename_i error htable
    cases h
    exact absurd (htable.trans he) checkTableId_ne_postpone
  · obtain ⟨⟨candidates, modifiable⟩, -, h⟩ := Option.bind_eq_some_iff.mp h
    obtain ⟨⟨error, rules⟩, hloop, h⟩ := Option.bind_eq_some_iff.mp h
    cases h
    cases he
    exact collectLoop_postponed hloop

theorem collectRulesStrict_ne_postpone {outputTo : A → BitVec 16 → Bool} {b : Build}
    {f : FlowState A} {i priority : Nat} {q : Match} {cookie cookieMask : BitVec 64}
    {outPort : BitVec 16} {r : Collected}
    (h : collectRulesStrict outputTo b f i q priority cookie cookieMask outPort = some r) :
    r.error ≠ some .postpone := by
  unfold collectRulesStrict at h
  split at h
  · rename_i error htable
    cases h
    exact fun he => checkTableId_ne_postpone (htable.trans he)
  · obtain ⟨⟨candidates, modifiable⟩, -, h⟩ := Option.bind_eq_some_iff.mp h
    obtain ⟨⟨error, rules⟩, -, h⟩ := Option.bind_eq_some_iff.mp h
    cases h
    exact nofun

theorem statsLoop_postponed {outputTo : A → BitVec 16 → Bool} {st : StatsState A}
    {req : FlowStatsRequest} {l : List UtAddr} : ∀ {rules : List UtAddr} {e : Ofperr},
    (statsLoop outputTo st req l rules).1 = some e →
      ∃ a, (st.ofproto.rule a).pending ≠ none := by
  induction l with
  | nil =>
    intro rules e h
    cases h
  | cons a rest ih =>
    intro rules e h
    unfold statsLoop at h
    split at h
    · rename_i hpend
      exact ⟨a, Option.isSome_iff_ne_none.mp hpend⟩
    · split at h
      · exact ih h
      · exact ih h

theorem handleFlowStatsRequest_postponed {outputTo : A → BitVec 16 → Bool} {st : StatsState A}
    {now : Nat → Int} {req : FlowStatsRequest}
    (h : handleFlowStatsRequest outputTo st now req = some (.error .postpone)) :
    ∃ a, (st.ofproto.rule a).pending ≠ none := by
  unfold handleFlowStatsRequest at h
  split at h
  · rename_i error htable
    cases h
    exact absurd htable checkTableId_ne_postpone
  · obtain ⟨arrays, -, h⟩ := Option.bind_eq_some_iff.mp h
    dsimp only at h
    split at h
    · rename_i error hloop
      cases h
      exact statsLoop_postponed hloop
    · obtain ⟨reply, -, h⟩ := Option.bind_eq_some_iff.mp h
      cases h

theorem handleAggregateStatsRequest_postponed {outputTo : A → BitVec 16 → Bool}
    {f : FlowState A} {counters : UtAddr → BitVec 64 × BitVec 64} {req : FlowStatsRequest}
    (h : handleAggregateStatsRequest outputTo f counters req = some (.error .postpone)) :
    ∃ a, (f.ofproto.rule a).pending ≠ none := by
  obtain ⟨r, hr, h⟩ := Option.bind_eq_some_iff.mp h
  split at h
  · rename_i error he
    cases h
    exact collectRulesLoose_postponed hr he
  · cases h

variable [DecidableEq P] {u : Ofputil Msg P A} {env : Surroundings}

/-- Every handler but that of the flow mods. -/
theorem handleConnRequest_handled {req : Request P A}
    {r : Connmgr Msg P A × Option HandlerError}
    (h : handleConnRequest u s c env req = some r) : HandledFor s c r := by
  cases req with
  | flowMod fm => cases h
  | barrier =>
    cases h
    exact handleBarrierRequest_handled
  | role role generationId =>
    cases h
    exact handleRoleRequest_handled role generationId
  | flowModTableId set =>
    cases h
    exact handledFor_update (fun _ => ⟨rfl, rfl, rfl⟩) fun _ => rfl
  | setFlowFormat nextBase =>
    cases h
    exact handleSetFlowFormat_handled u nextBase
  | setPacketInFormat format =>
    cases h
    exact handleSetPacketInFormat_handled format
  | flowStats req =>
    obtain ⟨res, hres, h⟩ := Option.bind_eq_some_iff.mp h
    cases h
    refine sendStats_handled fun he => ?_
    subst he
    exact handleFlowStatsRequest_postponed hres
  | aggregateStats req =>
    obtain ⟨res, hres, h⟩ := Option.bind_eq_some_iff.mp h
    cases h
    refine sendStats_handled fun he => ?_
    subst he
    exact handleAggregateStatsRequest_postponed hres
  | invalid code =>
    cases h
    exact handledFor_refused nofun
  | other rejectsSlaves code nReplies =>
    cases h
    exact handleOther_handled rejectsSlaves code nReplies

end Handlers

end OvsSgx
