/-
OvsSgx.ConnectionRuns — runs of a bridge with its connections.

A run is any sequence of rounds of `ofconn_run` on any connections, of
messages that arrive and replies that are sent, of connections that come and
go, and of the calls into the bridge that no connection makes. Its history
says which messages have arrived and been dealt with, and which groups the
requests of a connection have opened.
-/
import OvsSgx.FlowModCalls

namespace OvsSgx

/-! ## Calls and histories -/

/-- What happens to a bridge with its connections. -/
inductive SwitchCall (Msg : Type) where
  | arrive (c : ConnId) (msg : Msg)
  | replySent (c : ConnId)
  | round (c : ConnId) (env : Surroundings)
  | flush (c : ConnId)
  | create (type : OfconnType)
  | destroy (c : ConnId)
  | bridge (call : BridgeCall)

/-- What is remembered of a call: a message has arrived, it has been dealt with or put off,
opening some groups, or a connection starts anew. -/
inductive SwitchEvent (Msg : Type) where
  | arrived (c : ConnId) (msg : Msg)
  | settled (c : ConnId) (msg : Msg) (done : Bool) (groups : List GroupId)
  | reset (c : ConnId)

section History

variable {Msg : Type} (c : ConnId)

/-- The messages that have arrived on `c` since it was established; the history has the newest
event first. -/
def arrivedSince : List (SwitchEvent Msg) → List Msg
  | [] => []
  | .arrived c' msg :: h => if c' = c then arrivedSince h ++ [msg] else arrivedSince h
  | .settled _ _ _ _ :: h => arrivedSince h
  | .reset c' :: h => if c' = c then [] else arrivedSince h

/-- The messages of `c` that have been dealt with since it was established. -/
def handledSince : List (SwitchEvent Msg) → List Msg
  | [] => []
  | .arrived _ _ :: h => handledSince h
  | .settled c' msg done _ :: h =>
    if c' = c ∧ done = true then handledSince h ++ [msg] else handledSince h
  | .reset c' :: h => if c' = c then [] else handledSince h

/-- The groups that requests of `c` have opened since it was established. -/
def openedSince : List (SwitchEvent Msg) → List GroupId
  | [] => []
  | .arrived _ _ :: h => openedSince h
  | .settled c' _ _ groups :: h => if c' = c then openedSince h ++ groups else openedSince h
  | .reset c' :: h => if c' = c then [] else openedSince h

end History

section Runs

variable {Msg P A : Type} [DecidableEq P] [DecidableEq A] (u : Ofputil Msg P A)

/-- The state after a call and what is remembered of it, `none` if the call is undefined. -/
def SwitchCall.run (s : Switch Msg P A) :
    SwitchCall Msg → Option (Switch Msg P A × Option (SwitchEvent Msg))
  | .arrive c msg =>
    some ({ s with mgr := s.mgr.update c fun ofconn =>
      { ofconn with toMailbox := ofconn.arrive msg } }, some (.arrived c msg))
  | .replySent c =>
    some ({ s with mgr := s.mgr.update c fun ofconn =>
      { ofconn with nReplies := ofconn.nReplies - 1 } }, none)
  | .round c env =>
    match (s.mgr.conn c).next with
    | none => some (s, none)
    | some (msg, b) => do
      let (s', done) ← ofconnRound u s c msg b env
      return (s', some (.settled c msg done (newGroups s.flows.ofproto s'.flows.ofproto)))
  | .flush c => some ({ s with mgr := ofconnFlush u s.mgr c }, some (.reset c))
  | .create type => some ({ s with mgr := ofconnCreate u s.mgr type }, some (.reset s.mgr.nextConn))
  | .destroy c => some ({ s with mgr := ofconnDestroy u s.mgr c }, some (.reset c))
  | .bridge call => do
    let o ← call.run s.flows.ofproto
    return (⟨{ s.flows with ofproto := o }, s.mgr.afterCall none s.flows.ofproto o⟩, none)

/-- A bridge without flows and without connections. -/
def switchCreate (nTables : Nat) (enclaveRandom random : Nat → BitVec 16)
    (flowCookie : UtAddr → BitVec 64) (ofpacts : UtAddr → A)
    (conn : ConnId → Ofconn Msg P A) : Switch Msg P A :=
  ⟨⟨ofprotoCreate nTables enclaveRandom random, flowCookie, ofpacts⟩, ⟨conn, [], 0, none⟩⟩

/-- The states that calls with property `G` lead to, with their histories. -/
inductive SwitchReachable (G : Switch Msg P A → SwitchCall Msg → Prop) :
    Switch Msg P A → List (SwitchEvent Msg) → Prop where
  | create (nTables : Nat) (enclaveRandom random : Nat → BitVec 16)
      (flowCookie : UtAddr → BitVec 64) (ofpacts : UtAddr → A)
      (conn : ConnId → Ofconn Msg P A) : 0 < nTables →
      SwitchReachable G (switchCreate nTables enclaveRandom random flowCookie ofpacts conn) []
  | step {s s' : Switch Msg P A} {h : List (SwitchEvent Msg)} {e : Option (SwitchEvent Msg)}
      (call : SwitchCall Msg) : SwitchReachable G s h → G s call →
      call.run u s = some (s', e) → SwitchReachable G s' (e.toList ++ h)

/-- A call is about a connection that exists, and `malloc` does not return the memory of a rule
that has an operation pending. -/
def SwitchCall.Fresh (s : Switch Msg P A) : SwitchCall Msg → Prop
  | .arrive c _ | .replySent c | .flush c | .destroy c => c ∈ s.mgr.allConns
  | .round c env => c ∈ s.mgr.allConns ∧ (s.flows.ofproto.rule env.new.cr).pending = none
  | .create _ => True
  | .bridge call => call.FreshMemory s.flows.ofproto

/-- A call is about a connection that exists; `malloc` returns memory for a new rule that is not
in use; the provider refuses a rule with an error of OpenFlow; and the calls of the bridge are as
before. -/
def SwitchCall.Orderly (s : Switch Msg P A) : SwitchCall Msg → Prop
  | .arrive c _ | .replySent c | .flush c | .destroy c => c ∈ s.mgr.allConns
  | .round c env => c ∈ s.mgr.allConns ∧ s.flows.ofproto.enclave.NewAddr env.new.cr ∧
      (s.flows.ofproto.rule env.new.cr).pending = none ∧ env.construct ≠ some .postpone
  | .create _ => True
  | .bridge call => call.Allowed s.flows.ofproto ∧ call.FreshMemory s.flows.ofproto ∧
      call.SparesShadows s.flows.ofproto

/-- A call that may open a group of operations. -/
def BridgeCall.opensGroup : BridgeCall → Bool
  | .addFlow _ _ _ | .deleteFlows _ | .flush | .evict | .ruleExpire _ => true
  | .completeOperations | .clog _ | .configure _ => false

/-- The call leaves no group pending that belongs to no connection. -/
def SwitchCall.Attached (s : Switch Msg P A) : SwitchCall Msg → Prop
  | .flush c | .destroy c => (s.mgr.conn c).opgroups = []
  | .bridge call => call.opensGroup = true → s.flows.ofproto.clogged = false
  | _ => True

/-- An orderly call that leaves no group pending that belongs to no connection. -/
def SwitchCall.Serviced (s : Switch Msg P A) (call : SwitchCall Msg) : Prop :=
  call.Orderly s ∧ call.Attached s

omit [DecidableEq P] [DecidableEq A] in
theorem SwitchCall.Orderly.fresh {s : Switch Msg P A} {call : SwitchCall Msg}
    (h : call.Orderly s) : call.Fresh s := by
  cases call with
  | round c env => exact ⟨h.1, h.2.2.1⟩
  | bridge call => exact h.2.1
  | _ => exact h

theorem SwitchReachable.mono {G G' : Switch Msg P A → SwitchCall Msg → Prop} {u : Ofputil Msg P A}
    {s : Switch Msg P A} {h : List (SwitchEvent Msg)} (hr : SwitchReachable u G s h)
    (hG : ∀ s call, G s call → G' s call) : SwitchReachable u G' s h := by
  induction hr with
  | create nTables enclaveRandom random flowCookie ofpacts conn hn =>
    exact .create nTables enclaveRandom random flowCookie ofpacts conn hn
  | step call _ hc hs ih => exact ih.step call (hG _ _ hc) hs

omit [DecidableEq P] [DecidableEq A] in
theorem take_of_next {ofconn : Ofconn Msg P A} {r : Msg × Mailbox Msg}
    (hnext : ofconn.next = some r) : ofconn.toMailbox.take = some r := by
  unfold Ofconn.next at hnext
  split at hnext
  · exact hnext
  · cases hnext

/-- A round without a message changes nothing; otherwise its message leaves the mailbox. -/
theorem SwitchCall.round_run {u : Ofputil Msg P A} {s s' : Switch Msg P A} {c : ConnId}
    {env : Surroundings} {e : Option (SwitchEvent Msg)}
    (hs : (SwitchCall.round c env : SwitchCall Msg).run u s = some (s', e)) :
    (s' = s ∧ e = none) ∨ ∃ msg b done, (s.mgr.conn c).toMailbox.take = some (msg, b) ∧
      ofconnRound u s c msg b env = some (s', done) ∧
      e = some (.settled c msg done (newGroups s.flows.ofproto s'.flows.ofproto)) := by
  cases hnext : (s.mgr.conn c).next with
  | none =>
    simp only [SwitchCall.run, hnext, Option.some.injEq, Prod.mk.injEq] at hs
    exact .inl ⟨hs.1.symm, hs.2.symm⟩
  | some r =>
    obtain ⟨msg, b⟩ := r
    simp only [SwitchCall.run, hnext] at hs
    obtain ⟨⟨s1, done⟩, hround, hs⟩ := Option.bind_eq_some_iff.mp hs
    cases hs
    exact .inr ⟨msg, b, done, take_of_next hnext, hround, rfl⟩

/-- The loop of `ofconn_run` is a number of rounds; those after it has been left do nothing. -/
theorem ofconnLoop_eq {u : Ofputil Msg P A} (c : ConnId) (env : Nat → Surroundings) (n : Nat)
    (s : Switch Msg P A) : ofconnLoop u c env n s = (List.range n).reverse.foldlM (fun s k =>
      ((SwitchCall.round c (env k) : SwitchCall Msg).run u s).map Prod.fst) s := by
  induction n generalizing s with
  | zero => rfl
  | succ n ih =>
    rw [List.range_succ, List.reverse_append, List.reverse_singleton, List.singleton_append,
      List.foldlM_cons]
    cases hnext : (s.mgr.conn c).next with
    | none =>
      have hleft : ofconnLoop u c env n s = some s := by
        cases n <;> simp [ofconnLoop, hnext]
      have hround : ((SwitchCall.round c (env n) : SwitchCall Msg).run u s).map Prod.fst
          = some s := by
        simp [SwitchCall.run, hnext]
      rw [hround, Option.bind_eq_bind, Option.bind_some, ← ih, hleft]
      simp [ofconnLoop, hnext]
    | some r =>
      obtain ⟨msg, b⟩ := r
      simp only [ofconnLoop, SwitchCall.run, hnext]
      cases hround : ofconnRound u s c msg b (env n) with
      | none => rfl
      | some r => exact ih r.1

end Runs

/-! ## What one round does -/

section Round

variable {Msg P A : Type} {s s' : Switch Msg P A} {m m' : Connmgr Msg P A} {c : ConnId}
  {o o' : Ofproto} {g : GroupId} {creator : Option ConnId}

/-- The groups of connection `c` after a call. -/
def groupsAfter (m : Connmgr Msg P A) (creator : Option ConnId) (o o' : Ofproto) (c : ConnId) :
    List GroupId :=
  ((m.conn c).opgroups ++ if creator = some c then newGroups o o' else []).filter (· ∈ o'.pending)

/-- The lists `opgroups` are those of groups that are pending. -/
structure Connmgr.Lists (m : Connmgr Msg P A) (o : Ofproto) : Prop where
  nodup : ∀ c ∈ m.allConns, (m.conn c).opgroups.Nodup
  pending : ∀ c ∈ m.allConns, ∀ g ∈ (m.conn c).opgroups, g ∈ o.pending

/-- What a call on behalf of `creator`, or of no connection, does to all connections but that. -/
structure CallEffect (creator : Option ConnId) (o o' : Ofproto) (m m' : Connmgr Msg P A) :
    Prop where
  allConns : m'.allConns = m.allConns
  nextConn : m'.nextConn = m.nextConn
  type : ∀ c, (m'.conn c).type = (m.conn c).type
  blocked : ∀ c, (m'.conn c).blocked = (m.conn c).blocked
  queue : ∀ c, (m'.conn c).queue = (m.conn c).queue
  opgroups : ∀ c ∈ m.allConns, (m'.conn c).opgroups = groupsAfter m creator o o' c
  retry : ∀ c ∈ m.allConns, (m'.conn c).retry = false →
    (m.conn c).retry = false ∧ ∀ g ∈ m.opgroups, g ∈ o'.pending

theorem newGroups_self (o : Ofproto) : newGroups o o = [] := by simp [newGroups]

theorem mem_newGroups (h : g ∈ newGroups o o') : o.nextGroup ≤ g ∧ g < o'.nextGroup := by
  obtain ⟨hle, hlt⟩ := List.mem_range'_1.mp h
  refine ⟨hle, ?_⟩
  rcases Nat.le_total o.nextGroup o'.nextGroup with hmore | hfew
  · rwa [Nat.add_sub_cancel' hmore] at hlt
  · rw [Nat.sub_eq_zero_of_le hfew] at hlt
    exact absurd hlt (Nat.not_lt_of_le hle)

/-- A call that opens no group. -/
theorem SameQueues.effect (h : SameQueues m m') (hl : m.Lists o) : CallEffect creator o o m m' where
  allConns := h.allConns
  nextConn := h.nextConn
  type c := (h.conn c).2.1
  blocked c := by rw [(h.conn c).1]
  queue c := by rw [(h.conn c).1]
  opgroups c hc := by
    have hall : ∀ g ∈ (m.conn c).opgroups, decide (g ∈ o.pending) = true := fun g hg =>
      decide_eq_true (hl.pending c hc g hg)
    simp [groupsAfter, newGroups_self, (h.conn c).2.2, List.filter_eq_self.mpr hall]
  retry c hc hretry := by
    rw [(h.conn c).1] at hretry
    refine ⟨hretry, fun g hg => ?_⟩
    obtain ⟨c', hc', hg⟩ := Connmgr.mem_opgroups.mp hg
    exact hl.pending c' hc' g hg

/-- The groups that a connection has, with those that a call opens for it. -/
theorem Connmgr.Lists.nodup_append (hl : m.Lists o) (hb : o.Accounted) (hc : c ∈ m.allConns) :
    ((m.conn c).opgroups ++ if creator = some c then newGroups o o' else []).Nodup := by
  refine List.nodup_append.mpr ⟨hl.nodup c hc, ?_, fun g hg g' hg' heq => ?_⟩
  · split
    · exact List.nodup_range'
    · exact List.nodup_nil
  · subst heq
    split at hg'
    · have hlt := hb.accounts.groupLt g (hl.pending c hc g hg)
      exact Nat.not_lt_of_le (mem_newGroups hg').1 hlt
    · cases hg'

theorem afterCall_effect (hl : m.Lists o) (hb : o.Accounted) :
    CallEffect creator o o' m (m.afterCall creator o o') where
  allConns := (afterCall_sameButGroups m creator o o').allConns
  nextConn := (afterCall_sameButGroups m creator o o').nextConn
  type := (afterCall_sameButGroups m creator o o').type
  blocked := (afterCall_sameButGroups m creator o o').blocked
  queue := (afterCall_sameButGroups m creator o o').queue
  opgroups _ hc := afterCall_opgroups hc (hl.nodup_append hb hc)
  retry _ hc := afterCall_retry hc

theorem CallEffect.queues {m'' : Connmgr Msg P A} (h : CallEffect creator o o' m m')
    (hq : SameQueues m' m'') : CallEffect creator o o' m m'' where
  allConns := hq.allConns.trans h.allConns
  nextConn := hq.nextConn.trans h.nextConn
  type c := (hq.conn c).2.1.trans (h.type c)
  blocked c := (congrArg Mailbox.blocked (hq.conn c).1).trans (h.blocked c)
  queue c := (congrArg Mailbox.queue (hq.conn c).1).trans (h.queue c)
  opgroups c hc := (hq.conn c).2.2.trans (h.opgroups c hc)
  retry c hc hretry := by
    rw [(hq.conn c).1] at hretry
    exact h.retry c hc hretry

theorem afterCall_roles (m : Connmgr Msg P A) (o o' : Ofproto) :
    RolesBy c m (m.afterCall creator o o') :=
  .inl (afterCall_sameButGroups m creator o o').role

variable [DecidableEq A] {u : Ofputil Msg P A} {env : Surroundings}

/-- Whether the bridge can be reached by orderly calls, before an orderly round. -/
def OrderlyRound (s : Switch Msg P A) (c : ConnId) (env : Surroundings) : Prop :=
  FlowsReachable (A := A) FlowCall.Orderly s.flows.ofproto ∧
    SwitchCall.Orderly s (.round c env : SwitchCall Msg)

/-- What a handler has done when it returns. -/
structure RequestDone (c : ConnId) (env : Surroundings) (s s' : Switch Msg P A)
    (error : Option HandlerError) : Prop where
  effect : CallEffect (some c) s.flows.ofproto s'.flows.ofproto s.mgr s'.mgr
  roles : RolesBy c s.mgr s'.mgr
  oneGroup : OneGroup s.flows.ofproto s'.flows.ofproto
  accounted : s'.flows.ofproto.Accounted
  reachable : OrderlyRound s c env → FlowsReachable (A := A) FlowCall.Orderly s'.flows.ofproto
  waits : OrderlyRound s c env → error = some (.ofperr .postpone) → s'.flows.ofproto.pending ≠ []

theorem HandledFor.requestDone {m : Connmgr Msg P A} {error : Option HandlerError}
    (h : HandledFor s c (m, error)) (hc : c ∈ s.mgr.allConns) (hb : s.flows.ofproto.Accounted)
    (hl : s.mgr.Lists s.flows.ofproto) : RequestDone c env s { s with mgr := m } error where
  effect := h.queues.effect hl
  roles := h.roles
  oneGroup := .refl _
  accounted := hb
  reachable horderly := horderly.1
  waits _ he := by
    rcases h.postponed he with hgroups | ⟨a, ha⟩
    · obtain ⟨g, hg⟩ := List.exists_mem_of_ne_nil _ hgroups
      exact List.ne_nil_of_mem (hl.pending c hc g hg)
    · exact hb.pending_ne_nil ha

/-- Every request but a flow mod. -/
theorem handleRequest_eq [DecidableEq P] {req : Request P A} (h : ∀ fm, req ≠ .flowMod fm) :
    handleRequest u s c env req = (handleConnRequest u s c env req).bind fun r =>
      some ({ s with mgr := r.1 }, r.2) := by
  cases req with
  | flowMod fm => exact absurd rfl (h fm)
  | _ => rfl

theorem handleRequest_done [DecidableEq P] {req : Request P A} {error : Option HandlerError}
    (hc : SwitchCall.Fresh s (.round c env : SwitchCall Msg)) (hb : s.flows.ofproto.Accounted)
    (hl : s.mgr.Lists s.flows.ofproto)
    (hs : handleRequest u s c env req = some (s', error)) : RequestDone c env s s' error := by
  obtain ⟨hmem, hfresh⟩ := hc
  have hkept : ∀ e : Option HandlerError, e ≠ some (.ofperr .postpone) →
      RequestDone c env s s e := fun e he =>
    HandledFor.requestDone (handledFor_refused fun h => absurd h he) hmem hb hl
  have hother : ∀ {m : Connmgr Msg P A} {e : Option HandlerError},
      handleConnRequest u s c env req = some (m, e) →
      RequestDone c env s { s with mgr := m } e := fun h =>
    (handleConnRequest_handled h).requestDone hmem hb hl
  cases req with
  | flowMod fm =>
    change handleFlowMod u s c fm env = some (s', error) at hs
    unfold handleFlowMod at hs
    split at hs
    · rename_i e hreject
      cases hs
      refine hkept _ fun he => rejectSlaveController_ne_postpone (m := s.mgr) (c := c) ?_
      rw [hreject, he]
    · cases hs
      exact hkept _ nofun
    · rename_i command fm hreject
      obtain ⟨⟨f', e⟩, hflow, hs⟩ := Option.bind_eq_some_iff.mp hs
      cases hs
      have hend := handleFlowModOn_end hflow
      obtain ⟨haccounted, hone⟩ := hend.accounted hb hfresh
      exact {
        effect := afterCall_effect hl hb
        roles := afterCall_roles _ _ _
        oneGroup := hone
        accounted := haccounted
        reachable := fun ⟨hrun, _, hnew, _⟩ => hend.reachable hrun hnew hfresh
        waits := fun ⟨hrun, _, hnew, _, hcon⟩ he =>
          (he ▸ hend).postponed hrun.shadowed.1 hb hnew hfresh hcon }
  | _ =>
    rw [handleRequest_eq (by simp)] at hs
    obtain ⟨⟨m, e⟩, hhandle, hs⟩ := Option.bind_eq_some_iff.mp hs
    cases hs
    exact hother hhandle

/-- A round on connection `c`: `m` are the connections when its message, taken from `b`'s mailbox,
has been handled and it is to be settled. -/
structure RoundDone (s s' : Switch Msg P A) (c : ConnId) (env : Surroundings) (msg : Msg)
    (b : Mailbox Msg) (done : Bool) (m : Connmgr Msg P A) : Prop where
  effect : CallEffect (some c) s.flows.ofproto s'.flows.ofproto
    (s.mgr.update c fun ofconn => { ofconn with toMailbox := b }) m
  roles : RolesBy c s.mgr m
  oneGroup : OneGroup s.flows.ofproto s'.flows.ofproto
  accounted : s'.flows.ofproto.Accounted
  reachable : OrderlyRound s c env → FlowsReachable (A := A) FlowCall.Orderly s'.flows.ofproto
  waits : OrderlyRound s c env → done = false → s'.flows.ofproto.pending ≠ []
  mgr : s'.mgr = m.update c fun ofconn => { ofconn with toMailbox := ofconn.settle msg done }

omit [DecidableEq A] in
theorem ofconnSetRole_role (m : Connmgr Msg P A) (c c' : ConnId) (role : ControllerRole) :
    ((ofconnSetRole m c role).conn c').role =
      if c' = c then role
      else if role = .master ∧ c' ∈ m.allConns ∧ (m.conn c').type = .primary ∧
        (m.conn c').role = .master then .slave
      else (m.conn c').role := by
  by_cases hc : c' = c
  · subst hc
    simp [ofconnSetRole]
  · rw [ofconnSetRole, Connmgr.update_conn_ne hc, if_neg hc]
    by_cases hrole : role = .master
    · simp only [hrole, if_true, true_and, demoteMasters]
      split <;> rfl
    · simp [hrole]

omit [DecidableEq A] in
theorem RolesBy.congr {m1 : Connmgr Msg P A} (h : RolesBy c m m') (hall : m1.allConns = m.allConns)
    (htype : ∀ c, (m1.conn c).type = (m.conn c).type)
    (hrole : ∀ c, (m1.conn c).role = (m.conn c).role) : RolesBy c m1 m' := by
  rcases h with h | ⟨role, h⟩
  · exact .inl fun c' => (h c').trans (hrole c').symm
  · refine .inr ⟨role, fun c' => ?_⟩
    rw [h, ofconnSetRole_role, ofconnSetRole_role, hall, htype, hrole]

omit [DecidableEq A] in
theorem RolesBy.trans_eq {m'' : Connmgr Msg P A} (h : RolesBy c m m')
    (hrole : ∀ c, (m''.conn c).role = (m'.conn c).role) : RolesBy c m m'' := by
  rcases h with h | ⟨role, h⟩
  · exact .inl fun c' => (hrole c').trans (h c')
  · exact .inr ⟨role, fun c' => (hrole c').trans (h c')⟩

theorem ofconnRound_done [DecidableEq P] {msg : Msg} {b : Mailbox Msg} {done : Bool}
    (hc : SwitchCall.Fresh s (.round c env : SwitchCall Msg)) (hb : s.flows.ofproto.Accounted)
    (hl : s.mgr.Lists s.flows.ofproto)
    (hs : ofconnRound u s c msg b env = some (s', done)) :
    ∃ m, RoundDone s s' c env msg b done m := by
  obtain ⟨⟨s1, done'⟩, hopen, hs⟩ := Option.bind_eq_some_iff.mp hs
  cases hs
  obtain ⟨⟨s2, error⟩, hrequest, hopen⟩ := Option.bind_eq_some_iff.mp hopen
  have hfield : ∀ c', ((s.mgr.update c fun ofconn => { ofconn with toMailbox := b }).conn c').type
        = (s.mgr.conn c').type ∧
      ((s.mgr.update c fun ofconn => { ofconn with toMailbox := b }).conn c').role
        = (s.mgr.conn c').role ∧
      ((s.mgr.update c fun ofconn => { ofconn with toMailbox := b }).conn c').opgroups
        = (s.mgr.conn c').opgroups := by
    intro c'
    by_cases hcc : c' = c
    · subst hcc
      simp
    · simp [Connmgr.update_conn_ne hcc]
  have hl' : (s.mgr.update c fun ofconn => { ofconn with toMailbox := b }).Lists
      s.flows.ofproto := by
    refine ⟨fun c' hc' => ?_, fun c' hc' => ?_⟩
    · rw [(hfield c').2.2]
      exact hl.nodup c' hc'
    · rw [(hfield c').2.2]
      exact hl.pending c' hc'
  have hdone := handleRequest_done
    (s := { s with mgr := s.mgr.update c fun ofconn => { ofconn with toMailbox := b } })
    hc hb hl' hrequest
  have hroles : RolesBy c s.mgr s2.mgr :=
    hdone.roles.congr rfl (fun c' => (hfield c').1.symm) fun c' => (hfield c').2.1.symm
  dsimp only at hopen
  split at hopen
  · cases hopen
    exact ⟨s1.mgr, hdone.effect, hroles, hdone.oneGroup, hdone.accounted, hdone.reachable,
      fun _ => nofun, rfl⟩
  · cases hopen
    exact ⟨s1.mgr, hdone.effect, hroles, hdone.oneGroup, hdone.accounted, hdone.reachable,
      fun horderly _ => hdone.waits horderly rfl, rfl⟩
  · rename_i e hne
    cases hopen
    exact ⟨ofconnSendReply s2.mgr c (.error e),
      hdone.effect.queues (ofconnSendReply_sameQueues _ _ _),
      hroles.trans_eq fun c' => ofconnSendReply_role _ _ _ _, hdone.oneGroup, hdone.accounted,
      hdone.reachable, fun _ => nofun, rfl⟩

end Round

end OvsSgx
