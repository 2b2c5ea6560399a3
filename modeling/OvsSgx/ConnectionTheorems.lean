/-
OvsSgx.ConnectionTheorems — messages, barriers and roles in every run.

What holds after each call: every connection reads its messages in order,
the list `opgroups` of a connection holds those groups of its requests that
are still pending, and at most one primary connection is the master. The
barrier rests on the second of these, together with the books of the
operations in flight.
-/
import OvsSgx.ConnectionRuns

namespace OvsSgx

section Invariant

variable {Msg P A : Type} {s s' : Switch Msg P A} {h : List (SwitchEvent Msg)} {c : ConnId}
  {o o' : Ofproto} {m m' : Connmgr Msg P A}

/-! ## The invariant -/

/-- At most one primary connection is the master. -/
def Connmgr.OneMaster (m : Connmgr Msg P A) : Prop :=
  ∀ c ∈ m.allConns, ∀ c' ∈ m.allConns, (m.conn c).type = .primary → (m.conn c').type = .primary →
    (m.conn c).role = .master → (m.conn c').role = .master → c = c'

/-- The connections agree with the bridge and with the history. -/
structure ConnsOk (m : Connmgr Msg P A) (o : Ofproto) (h : List (SwitchEvent Msg)) : Prop where
  lt : ∀ c ∈ m.allConns, c < m.nextConn
  opgroups : ∀ c ∈ m.allConns, (m.conn c).opgroups = (openedSince c h).filter (· ∈ o.pending)
  openedNodup : ∀ c, (openedSince c h).Nodup
  openedLt : ∀ c, ∀ g ∈ openedSince c h, g < o.nextGroup
  messages : ∀ c ∈ m.allConns,
    Mailbox.Run (m.conn c).toMailbox (arrivedSince c h) (handledSince c h)
  masters : m.OneMaster

theorem ConnsOk.lists (hok : ConnsOk m o h) : m.Lists o where
  nodup c hc := by
    rw [hok.opgroups c hc]
    exact (hok.openedNodup c).filter _
  pending c hc g hg := by
    rw [hok.opgroups c hc] at hg
    simpa using (List.mem_filter.mp hg).2

/-! ## Groups -/

theorem OneGroup.nextGroup_le (hone : OneGroup o o') : o.nextGroup ≤ o'.nextGroup := by
  rcases hone with ⟨hnext, -⟩ | ⟨hnext, -⟩
  · exact Nat.le_of_eq hnext.symm
  · exact Nat.le_trans (Nat.le_succ _) (Nat.le_of_eq hnext.symm)

/-- A group that existed before the call was pending before it. -/
theorem OneGroup.pending_of_lt {g : GroupId} (hone : OneGroup o o') (hg : g ∈ o'.pending)
    (hlt : g < o.nextGroup) : g ∈ o.pending := by
  rcases hone with ⟨-, hsub⟩ | ⟨-, hsame | ⟨-, hmore⟩⟩
  · exact hsub.subset hg
  · exact hsame ▸ hg
  · rw [hmore, List.mem_append, List.mem_singleton] at hg
    exact hg.resolve_right (Nat.ne_of_lt hlt)

/-- The groups that a connection has opened, after a call that may have opened one for it. -/
theorem ConnsOk.groupsAfter_eq {creator : Option ConnId} (hok : ConnsOk m o h)
    (hone : OneGroup o o') (hc : c ∈ m.allConns) :
    groupsAfter m creator o o' c =
      (openedSince c h ++ if creator = some c then newGroups o o' else []).filter
        (· ∈ o'.pending) := by
  rw [groupsAfter, hok.opgroups c hc, List.filter_append, List.filter_append, List.filter_filter]
  congr 1
  refine List.filter_congr fun g hg => ?_
  have hstill : g ∈ o'.pending → g ∈ o.pending := fun hg' =>
    hone.pending_of_lt hg' (hok.openedLt c g hg)
  by_cases hp : g ∈ o'.pending
  · simp [hp, hstill hp]
  · simp [hp]

theorem ConnsOk.opened_nodup (hok : ConnsOk m o h) (c : ConnId) (o' : Ofproto) :
    (openedSince c h ++ newGroups o o').Nodup := by
  refine List.nodup_append.mpr ⟨hok.openedNodup c, List.nodup_range', fun g hg g' hg' heq => ?_⟩
  subst heq
  exact Nat.not_lt_of_le (mem_newGroups hg').1 (hok.openedLt c g hg)

theorem ConnsOk.opened_lt {g : GroupId} (hok : ConnsOk m o h) (hone : OneGroup o o')
    (hg : g ∈ openedSince c h ++ newGroups o o') : g < o'.nextGroup := by
  rcases List.mem_append.mp hg with hg | hg
  · exact Nat.lt_of_lt_of_le (hok.openedLt c g hg) hone.nextGroup_le
  · exact (mem_newGroups hg).2

/-! ## Roles -/

/-- Setting the role of a connection leaves one master at most. -/
theorem Connmgr.OneMaster.setRole (hm : m.OneMaster) (hall : m'.allConns = m.allConns)
    (htype : ∀ c, (m'.conn c).type = (m.conn c).type) (hroles : RolesBy c m m') :
    m'.OneMaster := by
  intro c1 h1 c2 h2 ht1 ht2 hr1 hr2
  rw [hall] at h1 h2
  rw [htype] at ht1 ht2
  rcases hroles with hroles | ⟨role, hroles⟩
  · rw [hroles] at hr1 hr2
    exact hm c1 h1 c2 h2 ht1 ht2 hr1 hr2
  · rw [hroles, ofconnSetRole_role] at hr1 hr2
    by_cases hc1 : c1 = c <;> by_cases hc2 : c2 = c
    · rw [hc1, hc2]
    · rw [if_pos hc1] at hr1
      rw [if_neg hc2] at hr2
      split at hr2
      · cases hr2
      · rename_i hnot
        exact absurd ⟨hr1, h2, ht2, hr2⟩ hnot
    · rw [if_neg hc1] at hr1
      rw [if_pos hc2] at hr2
      split at hr1
      · cases hr1
      · rename_i hnot
        exact absurd ⟨hr2, h1, ht1, hr1⟩ hnot
    · rw [if_neg hc1] at hr1
      rw [if_neg hc2] at hr2
      split at hr1
      · cases hr1
      · split at hr2
        · cases hr2
        · exact hm c1 h1 c2 h2 ht1 ht2 hr1 hr2

/-- A connection that is not the master does not disturb it. -/
theorem Connmgr.OneMaster.only (hm : m.OneMaster)
    (hsub : ∀ c ∈ m'.allConns, (m'.conn c).role = .master →
      c ∈ m.allConns ∧ (m'.conn c).type = (m.conn c).type ∧ (m.conn c).role = .master) :
    m'.OneMaster := by
  intro c1 h1 c2 h2 ht1 ht2 hr1 hr2
  obtain ⟨hm1, htype1, hrole1⟩ := hsub c1 h1 hr1
  obtain ⟨hm2, htype2, hrole2⟩ := hsub c2 h2 hr2
  exact hm c1 hm1 c2 hm2 (htype1 ▸ ht1) (htype2 ▸ ht2) hrole1 hrole2

/-! ## One call -/

theorem Connmgr.update_conn (m : Connmgr Msg P A) (c c' : ConnId)
    (f : Ofconn Msg P A → Ofconn Msg P A) :
    (m.update c f).conn c' = if c' = c then f (m.conn c') else m.conn c' := by
  by_cases hc : c' = c
  · subst hc
    simp
  · rw [Connmgr.update_conn_ne hc, if_neg hc]

/-- Nothing that the invariant is about changes but the mailbox of `c`. -/
theorem ConnsOk.update {h' : List (SwitchEvent Msg)} {f : Ofconn Msg P A → Ofconn Msg P A}
    (hok : ConnsOk m o h) (hf : ∀ x, (f x).type = x.type ∧ (f x).role = x.role ∧
      (f x).opgroups = x.opgroups)
    (hopened : ∀ c', openedSince c' h' = openedSince c' h)
    (hmail : ∀ c' ∈ m.allConns, Mailbox.Run ((m.update c f).conn c').toMailbox
      (arrivedSince c' h') (handledSince c' h')) : ConnsOk (m.update c f) o h' := by
  have hconn : ∀ c', ((m.update c f).conn c').type = (m.conn c').type ∧
      ((m.update c f).conn c').role = (m.conn c').role ∧
      ((m.update c f).conn c').opgroups = (m.conn c').opgroups := by
    intro c'
    rw [Connmgr.update_conn]
    split
    · exact hf _
    · exact ⟨rfl, rfl, rfl⟩
  constructor
  case lt => exact hok.lt
  case opgroups =>
    intro c' hc'
    rw [(hconn c').2.2, hopened]
    exact hok.opgroups c' hc'
  case openedNodup => simpa [hopened] using hok.openedNodup
  case openedLt => simpa [hopened] using hok.openedLt
  case messages => exact hmail
  case masters =>
    refine hok.masters.only fun c' hc' hr => ?_
    rw [(hconn c').2.1] at hr
    exact ⟨hc', (hconn c').1, hr⟩

theorem ConnsOk.arrive (hok : ConnsOk m o h) (c : ConnId) (msg : Msg) :
    ConnsOk (m.update c fun ofconn => { ofconn with toMailbox := ofconn.arrive msg }) o
      (.arrived c msg :: h) := by
  refine hok.update (fun _ => ⟨rfl, rfl, rfl⟩) (fun _ => rfl) fun c' hc' => ?_
  have hrun := hok.messages c' hc'
  rw [Connmgr.update_conn]
  by_cases hc : c' = c
  · subst hc
    simpa [arrivedSince, handledSince] using hrun.arrive msg
  · simpa [arrivedSince, handledSince, hc, Ne.symm hc] using hrun

theorem ConnsOk.replySent (hok : ConnsOk m o h) (c : ConnId) :
    ConnsOk (m.update c fun ofconn => { ofconn with nReplies := ofconn.nReplies - 1 }) o h := by
  refine hok.update (fun _ => ⟨rfl, rfl, rfl⟩) (fun _ => rfl) fun c' hc' => ?_
  have hrun := hok.messages c' hc'
  rw [Connmgr.update_conn]
  split <;> exact hrun

/-- A connection that is new, or newly established. -/
theorem fresh_run (retry : Bool) :
    Mailbox.Run { (Mailbox.empty : Mailbox Msg) with retry := retry } [] [] := by
  cases retry with
  | false => exact .empty
  | true => exact .allowRetry .empty

theorem ConnsOk.flush (hok : ConnsOk m o h) (u : Ofputil Msg P A) (c : ConnId) :
    ConnsOk (ofconnFlush u m c) o (.reset c :: h) := by
  unfold ofconnFlush
  constructor
  case lt => exact hok.lt
  case opgroups =>
    intro c' hc'
    rw [Connmgr.update_conn]
    by_cases hc : c' = c
    · subst hc
      simp [ofconnInit, openedSince]
    · simpa [openedSince, hc, Ne.symm hc] using hok.opgroups c' hc'
  case openedNodup =>
    intro c'
    by_cases hc : c = c'
    · simp [openedSince, hc]
    · simpa [openedSince, hc] using hok.openedNodup c'
  case openedLt =>
    intro c'
    by_cases hc : c = c'
    · simp [openedSince, hc]
    · simpa [openedSince, hc] using hok.openedLt c'
  case messages =>
    intro c' hc'
    rw [Connmgr.update_conn]
    by_cases hc : c' = c
    · subst hc
      simpa [arrivedSince, handledSince] using fresh_run (m.conn c').retry
    · simpa [arrivedSince, handledSince, hc, Ne.symm hc] using hok.messages c' hc'
  case masters =>
    refine hok.masters.only fun c' hc' hr => ?_
    rw [Connmgr.update_conn] at hr ⊢
    by_cases hc : c' = c
    · rw [if_pos hc] at hr
      cases hr
    · rw [if_neg hc] at hr ⊢
      exact ⟨hc', rfl, hr⟩

theorem ConnsOk.create (hok : ConnsOk m o h) (u : Ofputil Msg P A) (type : OfconnType) :
    ConnsOk (ofconnCreate u m type) o (.reset m.nextConn :: h) := by
  have hold : ∀ c ∈ m.allConns, c ≠ m.nextConn := fun c hc => Nat.ne_of_lt (hok.lt c hc)
  constructor
  case lt =>
    intro c hc
    rcases List.mem_append.mp hc with hc | hc
    · exact Nat.lt_succ_of_lt (hok.lt c hc)
    · rw [List.mem_singleton.mp hc]
      exact Nat.lt_succ_self _
  case opgroups =>
    intro c hc
    rcases List.mem_append.mp hc with hc | hc
    · simpa [ofconnCreate, openedSince, hold c hc, (hold c hc).symm] using hok.opgroups c hc
    · rw [List.mem_singleton.mp hc]
      simp [ofconnCreate, ofconnInit, openedSince]
  case openedNodup =>
    intro c
    by_cases hc : m.nextConn = c
    · simp [openedSince, hc]
    · simpa [openedSince, hc] using hok.openedNodup c
  case openedLt =>
    intro c
    by_cases hc : m.nextConn = c
    · simp [openedSince, hc]
    · simpa [openedSince, hc] using hok.openedLt c
  case messages =>
    intro c hc
    rcases List.mem_append.mp hc with hc | hc
    · simpa [ofconnCreate, arrivedSince, handledSince, hold c hc, (hold c hc).symm] using
        hok.messages c hc
    · rw [List.mem_singleton.mp hc]
      simpa [ofconnCreate, ofconnInit, arrivedSince, handledSince] using Mailbox.Run.empty
  case masters =>
    refine hok.masters.only fun c hc hr => ?_
    rcases List.mem_append.mp hc with hc | hc
    · have hsame : (ofconnCreate u m type).conn c = m.conn c := Function.update_of_ne (hold c hc) _ _
      rw [hsame] at hr ⊢
      exact ⟨hc, rfl, hr⟩
    · rw [List.mem_singleton.mp hc] at hr
      simp [ofconnCreate, ofconnInit] at hr

theorem ConnsOk.destroy (hok : ConnsOk m o h) (u : Ofputil Msg P A) (c : ConnId) :
    ConnsOk (ofconnDestroy u m c) o (.reset c :: h) := by
  have hflush := hok.flush u c
  have hsub : ∀ c' ∈ m.allConns.erase c, c' ∈ m.allConns := fun c' hc' => List.mem_of_mem_erase hc'
  constructor
  case lt => exact fun c' hc' => hflush.lt c' (hsub c' hc')
  case opgroups => exact fun c' hc' => hflush.opgroups c' (hsub c' hc')
  case openedNodup => exact hflush.openedNodup
  case openedLt => exact hflush.openedLt
  case messages => exact fun c' hc' => hflush.messages c' (hsub c' hc')
  case masters => exact hflush.masters.only fun c' hc' hr => ⟨hsub c' hc', rfl, hr⟩

/-- A call may allow a connection to retry, and that is all it does to its mailbox. -/
theorem CallEffect.mailbox {creator : Option ConnId} (he : CallEffect creator o o' m m')
    (hc : c ∈ m.allConns) : (m'.conn c).toMailbox = (m.conn c).toMailbox ∨
      (m'.conn c).toMailbox = (m.conn c).toMailbox.allowRetry := by
  have hblocked := he.blocked c
  have hqueue := he.queue c
  have hretry := he.retry c hc
  revert hblocked hqueue hretry
  cases (m'.conn c).toMailbox with
  | mk blocked' retry' queue' =>
    rintro rfl rfl hretry
    cases retry' with
    | true => exact .inr rfl
    | false =>
      refine .inl ?_
      rw [← (hretry rfl).1]

theorem CallEffect.run {creator : Option ConnId} {arrived handled : List Msg}
    (he : CallEffect creator o o' m m') (hc : c ∈ m.allConns)
    (hrun : Mailbox.Run (m.conn c).toMailbox arrived handled) :
    Mailbox.Run (m'.conn c).toMailbox arrived handled := by
  rcases he.mailbox hc with heq | heq
  · exact heq ▸ hrun
  · exact heq ▸ hrun.allowRetry

theorem ConnsOk.bridge (hok : ConnsOk m o h) (hone : OneGroup o o')
    (he : CallEffect none o o' m m') (hroles : ∀ c, (m'.conn c).role = (m.conn c).role) :
    ConnsOk m' o' h := by
  constructor
  case lt =>
    rw [he.allConns, he.nextConn]
    exact hok.lt
  case opgroups =>
    rw [he.allConns]
    intro c hc
    rw [he.opgroups c hc, hok.groupsAfter_eq hone hc]
    simp
  case openedNodup => exact hok.openedNodup
  case openedLt => exact fun c g hg => Nat.lt_of_lt_of_le (hok.openedLt c g hg) hone.nextGroup_le
  case messages =>
    rw [he.allConns]
    exact fun c hc => he.run hc (hok.messages c hc)
  case masters =>
    refine hok.masters.only fun c hc hr => ?_
    rw [he.allConns] at hc
    rw [hroles] at hr
    exact ⟨hc, he.type c, hr⟩

/-- A round: its message has left the mailbox of `c`. -/
theorem ConnsOk.round [DecidableEq A] {msg : Msg} {b : Mailbox Msg} {done : Bool}
    {m1 : Connmgr Msg P A} {env : Surroundings} (hok : ConnsOk s.mgr s.flows.ofproto h)
    (htake : (s.mgr.conn c).toMailbox.take = some (msg, b))
    (hd : RoundDone s s' c env msg b done m1) :
    ConnsOk s'.mgr s'.flows.ofproto
      (.settled c msg done (newGroups s.flows.ofproto s'.flows.ofproto) :: h) := by
  have he := hd.effect
  have htaken : ∀ c', ((s.mgr.update c fun ofconn => { ofconn with toMailbox := b }).conn c') =
      if c' = c then { s.mgr.conn c' with toMailbox := b } else s.mgr.conn c' :=
    fun c' => Connmgr.update_conn ..
  rw [hd.mgr]
  constructor
  case lt =>
    show ∀ c' ∈ m1.allConns, c' < m1.nextConn
    rw [he.allConns, he.nextConn]
    exact hok.lt
  case opgroups =>
    intro c' hc'
    have hc0 : c' ∈ s.mgr.allConns := he.allConns ▸ hc'
    have hgroups : (m1.conn c').opgroups
        = groupsAfter s.mgr (some c) s.flows.ofproto s'.flows.ofproto c' := by
      rw [he.opgroups c' hc0, groupsAfter, groupsAfter, htaken]
      split <;> rfl
    have hkept : ((m1.update c fun ofconn =>
        { ofconn with toMailbox := ofconn.settle msg done }).conn c').opgroups
          = (m1.conn c').opgroups := by
      rw [Connmgr.update_conn]
      split <;> rfl
    rw [hkept, hgroups, hok.groupsAfter_eq hd.oneGroup hc0]
    by_cases hc : c = c' <;> simp [openedSince, hc]
  case openedNodup =>
    intro c'
    by_cases hc : c = c'
    · simpa [openedSince, hc] using hok.opened_nodup c' s'.flows.ofproto
    · simpa [openedSince, hc] using hok.openedNodup c'
  case openedLt =>
    intro c' g hg
    by_cases hc : c = c'
    · rw [openedSince, if_pos hc] at hg
      exact hok.opened_lt hd.oneGroup hg
    · rw [openedSince, if_neg hc] at hg
      exact Nat.lt_of_lt_of_le (hok.openedLt c' g hg) hd.oneGroup.nextGroup_le
  case messages =>
    intro c' hc'
    have hc0 : c' ∈ s.mgr.allConns := he.allConns ▸ hc'
    have hrun := hok.messages c' hc0
    rw [Connmgr.update_conn]
    by_cases hc : c' = c
    · subst hc
      have hbox : (m1.conn c').toMailbox = { b with retry := (m1.conn c').retry } := by
        rcases he.mailbox hc0 with heq | heq
        · rw [heq, htaken, if_pos rfl]
        · rw [heq, htaken, if_pos rfl]
          rfl
      have hsettled := hrun.take done (m1.conn c').retry htake
      rw [← hbox] at hsettled
      simpa [arrivedSince, handledSince] using hsettled
    · have hother : Mailbox.Run (m1.conn c').toMailbox (arrivedSince c' h) (handledSince c' h) := by
        refine he.run hc0 ?_
        rw [htaken, if_neg hc]
        exact hrun
      simpa [arrivedSince, handledSince, hc, Ne.symm hc] using hother
  case masters =>
    have htype : ∀ c', (m1.conn c').type = (s.mgr.conn c').type := fun c' => by
      rw [he.type, htaken]
      split <;> rfl
    have hone : m1.OneMaster := hok.masters.setRole he.allConns htype hd.roles
    refine hone.only fun c' hc' hr => ?_
    rw [Connmgr.update_conn] at hr ⊢
    refine ⟨hc', ?_, ?_⟩
    · split <;> rfl
    · split at hr <;> exact hr

/-! ## Every run -/

variable [DecidableEq P] [DecidableEq A] {u : Ofputil Msg P A}

theorem SwitchCall.run_ok {call : SwitchCall Msg} {e : Option (SwitchEvent Msg)}
    (hb : s.flows.ofproto.Accounted) (hok : ConnsOk s.mgr s.flows.ofproto h) (hc : call.Fresh s)
    (hs : call.run u s = some (s', e)) :
    s'.flows.ofproto.Accounted ∧ ConnsOk s'.mgr s'.flows.ofproto (e.toList ++ h) := by
  cases call with
  | arrive c msg =>
    cases hs
    exact ⟨hb, hok.arrive c msg⟩
  | replySent c =>
    cases hs
    exact ⟨hb, hok.replySent c⟩
  | flush c =>
    cases hs
    exact ⟨hb, hok.flush u c⟩
  | create type =>
    cases hs
    exact ⟨hb, hok.create u type⟩
  | destroy c =>
    cases hs
    exact ⟨hb, hok.destroy u c⟩
  | round c env =>
    rcases SwitchCall.round_run hs with ⟨rfl, rfl⟩ | ⟨msg, b, done, htake, hround, rfl⟩
    · exact ⟨hb, hok⟩
    · obtain ⟨m, hd⟩ := ofconnRound_done hc hb hok.lists hround
      exact ⟨hd.accounted, hok.round htake hd⟩
  | bridge call =>
    obtain ⟨o', hcall, hs⟩ := Option.bind_eq_some_iff.mp hs
    cases hs
    obtain ⟨hb', hone⟩ := run_accounted hb hc hcall
    exact ⟨hb', hok.bridge hone (afterCall_effect hok.lists hb)
      (afterCall_sameButGroups _ _ _ _).role⟩

theorem SwitchReachable.ok {s : Switch Msg P A} {h : List (SwitchEvent Msg)}
    (hr : SwitchReachable u SwitchCall.Fresh s h) :
    s.flows.ofproto.Accounted ∧ ConnsOk s.mgr s.flows.ofproto h := by
  induction hr with
  | create nTables enclaveRandom random flowCookie ofpacts conn hn =>
    refine ⟨ofprotoCreate_accounted _ _ _, ?_⟩
    constructor <;> simp [switchCreate, openedSince, Connmgr.OneMaster]
  | step call _ hc hs ih => exact SwitchCall.run_ok ih.1 ih.2 hc hs

/-- In every run the messages that have arrived on a connection since it was established are those
that have been handled, once each and in order, followed by the one that is put off and those that
have not been read. -/
theorem messages_in_order (hr : SwitchReachable u SwitchCall.Fresh s h)
    (hc : c ∈ s.mgr.allConns) :
    arrivedSince c h = handledSince c h ++ (s.mgr.conn c).contents :=
  (hr.ok.2.messages c hc).arrived_eq

/-! ## The barrier -/

omit [DecidableEq P] [DecidableEq A] in
/-- Connection `c` has no groups pending if and only if no rule is waiting for one of them. -/
theorem opgroups_nil_iff (hb : o.Accounted) (hok : ConnsOk m o h) (hc : c ∈ m.allConns) :
    (m.conn c).opgroups = [] ↔
      ∀ a k, (o.rule a).pending = some k → (o.op k).group ∉ openedSince c h := by
  rw [hok.opgroups c hc, List.filter_eq_nil_iff]
  constructor
  · intro hnone a k hk hopened
    exact hnone _ hopened (decide_eq_true (hb.accounts.pending a k hk).2.1)
  · intro hnone g hg hpend
    have hpend := of_decide_eq_true hpend
    have hcount := hb.busy g hpend
    rw [hb.accounts.nRunning g hpend, List.countP_pos_iff] at hcount
    obtain ⟨k, hk, hgk⟩ := hcount
    have hgk := of_decide_eq_true hgk
    exact hnone _ k (hb.accounts.rule_pending (hb.accounts.running k hk)) (hgk ▸ hg)

/-- A round on a barrier request. -/
theorem ofconnRound_barrier {msg : Msg} (hmsg : u.decode (s.mgr.conn c).protocol msg = .barrier)
    (b : Mailbox Msg) (env : Surroundings) :
    ∃ s', ofconnRound u s c msg b env = some (s', (s.mgr.conn c).opgroups.isEmpty) ∧
      s'.flows = s.flows ∧ (s'.mgr.conn c).sent = (s.mgr.conn c).sent ++
        if (s.mgr.conn c).opgroups.isEmpty then [.barrier] else [] := by
  let taken := s.mgr.update c fun ofconn => { ofconn with toMailbox := b }
  by_cases hnil : (s.mgr.conn c).opgroups.isEmpty = true
  · refine ⟨⟨s.flows, (ofconnSendReply taken c .barrier).update c fun ofconn =>
      { ofconn with toMailbox := ofconn.settle msg true }⟩, ?_, rfl, ?_⟩
    · simp [ofconnRound, handleOpenflow, hmsg, handleRequest, handleConnRequest,
        handleBarrierRequest, ofconnHasPendingOpgroups, hnil, taken]
    · simp [ofconnSendReply, hnil, taken]
  · refine ⟨⟨s.flows, taken.update c fun ofconn =>
      { ofconn with toMailbox := ofconn.settle msg false }⟩, ?_, rfl, ?_⟩
    · simp [ofconnRound, handleOpenflow, hmsg, handleRequest, handleConnRequest,
        handleBarrierRequest, ofconnHasPendingOpgroups, hnil, taken]
    · simp [hnil, taken]

/-- In every run, a connection that reads a barrier request answers it if no operation is in flight
of a group that a request of the connection has opened since it was established, and puts it off
otherwise. -/
theorem barrier_answered {msg : Msg} (hr : SwitchReachable u SwitchCall.Fresh s h)
    (hc : c ∈ s.mgr.allConns) (hmsg : u.decode (s.mgr.conn c).protocol msg = .barrier)
    (b : Mailbox Msg) (env : Surroundings) :
    ∃ s' done, ofconnRound u s c msg b env = some (s', done) ∧ s'.flows = s.flows ∧
      (done = true ↔ ∀ a k, (s.flows.ofproto.rule a).pending = some k →
        (s.flows.ofproto.op k).group ∉ openedSince c h) ∧
      (s'.mgr.conn c).sent = (s.mgr.conn c).sent ++ if done then [.barrier] else [] := by
  obtain ⟨hb, hok⟩ := hr.ok
  have hiff := opgroups_nil_iff hb hok hc
  obtain ⟨s', hround, hsame, hsent⟩ := ofconnRound_barrier hmsg b env
  rw [← List.isEmpty_iff] at hiff
  exact ⟨s', _, hround, hsame, hiff, hsent⟩

/-! ## Roles -/

/-- A slave's requests leave the flow table alone. -/
theorem ofconnRound_slave {msg : Msg} {b : Mailbox Msg} {env : Surroundings} {done : Bool}
    (htype : (s.mgr.conn c).type = .primary) (hrole : (s.mgr.conn c).role = .slave)
    (hs : ofconnRound u s c msg b env = some (s', done)) : s'.flows = s.flows := by
  obtain ⟨⟨s1, done'⟩, hopen, hs⟩ := Option.bind_eq_some_iff.mp hs
  cases hs
  obtain ⟨⟨s2, error⟩, hrequest, hopen⟩ := Option.bind_eq_some_iff.mp hopen
  have hflows : s2.flows = s.flows := by
    generalize u.decode _ msg = req at hrequest
    cases req with
    | flowMod fm =>
      change handleFlowMod u _ c fm env = some (s2, error) at hrequest
      simp only [handleFlowMod, rejectSlaveController, Connmgr.update_conn_self, htype, hrole,
        and_self, if_true, Option.some.injEq, Prod.mk.injEq] at hrequest
      rw [← hrequest.1]
    | _ =>
      rw [handleRequest_eq (by simp)] at hrequest
      obtain ⟨⟨m, e⟩, -, hrequest⟩ := Option.bind_eq_some_iff.mp hrequest
      cases hrequest
      rfl
  dsimp only at hopen
  split at hopen
  · cases hopen
    exact hflows
  · cases hopen
    exact hflows
  · cases hopen
    exact hflows

/-- In every run at most one primary connection is the master, and a round on a primary connection
that is a slave leaves the flow table as it is. -/
theorem masters_and_slaves (hr : SwitchReachable u SwitchCall.Fresh s h) :
    s.mgr.OneMaster ∧ ∀ c, (s.mgr.conn c).type = .primary → (s.mgr.conn c).role = .slave →
      ∀ env s' e, (SwitchCall.round c env : SwitchCall Msg).run u s = some (s', e) →
        s'.flows = s.flows := by
  refine ⟨hr.ok.2.masters, fun c htype hrole env s' e hs => ?_⟩
  rcases SwitchCall.round_run hs with ⟨rfl, -⟩ | ⟨msg, b, done, -, hround, -⟩
  · rfl
  · exact ofconnRound_slave htype hrole hround

end Invariant

/-! ### A barrier that has to wait -/

/-- The state and the history after a call, unchanged if the call is undefined. -/
def runSwitch {Msg P A : Type} [DecidableEq P] [DecidableEq A] (u : Ofputil Msg P A)
    (r : Switch Msg P A × List (SwitchEvent Msg)) (call : SwitchCall Msg) :
    Switch Msg P A × List (SwitchEvent Msg) :=
  match call.run u r.1 with
  | some (s, e) => (s, e.toList ++ r.2)
  | none => r

theorem SwitchReachable.after {Msg P A : Type} [DecidableEq P] [DecidableEq A]
    {u : Ofputil Msg P A} {G : Switch Msg P A → SwitchCall Msg → Prop} {call : SwitchCall Msg}
    {r : Switch Msg P A × List (SwitchEvent Msg)} (hr : SwitchReachable u G r.1 r.2)
    (hc : G r.1 call) :
    SwitchReachable u G (runSwitch u r call).1 (runSwitch u r call).2 := by
  unfold runSwitch
  cases hs : call.run u r.1 with
  | none => exact hr
  | some r' => exact hr.step call hc hs

/-- Each of the calls has property `G` when its turn comes. -/
def EachAllowed {Msg P A : Type} [DecidableEq P] [DecidableEq A] (u : Ofputil Msg P A)
    (G : Switch Msg P A → SwitchCall Msg → Prop) :
    List (SwitchCall Msg) → Switch Msg P A × List (SwitchEvent Msg) → Prop
  | [], _ => True
  | call :: calls, r => G r.1 call ∧ EachAllowed u G calls (runSwitch u r call)

theorem SwitchReachable.afterAll {Msg P A : Type} [DecidableEq P] [DecidableEq A]
    {u : Ofputil Msg P A} {G : Switch Msg P A → SwitchCall Msg → Prop}
    {calls : List (SwitchCall Msg)} : ∀ {r : Switch Msg P A × List (SwitchEvent Msg)},
    SwitchReachable u G r.1 r.2 → EachAllowed u G calls r →
    SwitchReachable u G (calls.foldl (runSwitch u) r).1 (calls.foldl (runSwitch u) r).2 := by
  induction calls with
  | nil => exact fun hr _ => hr
  | cons call calls ih => exact fun hr hc => ih (hr.after hc.1) hc.2

/-- A library whose messages need not be decoded. -/
def plainOfputil : Ofputil (Request Unit Unit) Unit Unit :=
  ⟨fun _ msg => msg, (), fun _ _ => (), fun _ _ => (), fun l => [l], fun _ _ => false⟩

/-- What a round gets from outside that adds a rule at address `a`. -/
def surroundings (a : UtAddr) : Surroundings :=
  ⟨ruleAt a, none, fun _ => ⟨0, 0, 0, false⟩, fun _ => (0#64, 0#64), fun _ => 0⟩

/-- A bridge with one table and no connection. -/
def unconnected : Switch (Request Unit Unit) Unit Unit × List (SwitchEvent (Request Unit Unit)) :=
  (switchCreate 1 (fun _ => 5#16) (fun _ => 6#16) (fun _ => 0#64) (fun _ => ())
    fun _ => ofconnInit plainOfputil .service, [])

theorem unconnected_reachable {G : Switch (Request Unit Unit) Unit Unit →
    SwitchCall (Request Unit Unit) → Prop} :
    SwitchReachable plainOfputil G unconnected.1 unconnected.2 :=
  .create 1 (fun _ => 5#16) (fun _ => 6#16) (fun _ => 0#64) (fun _ => ())
    (fun _ => ofconnInit plainOfputil .service) Nat.one_pos

/-- A bridge with one primary connection, which is the master; its provider is clogged. A flow mod
has been handled, and a barrier request has arrived. -/
def waiting : Switch (Request Unit Unit) Unit Unit × List (SwitchEvent (Request Unit Unit)) :=
  [.create .primary, .arrive 0 (.role .master none), .round 0 (surroundings 1#64),
    .bridge (.clog true), .arrive 0 (.flowMod (.ok (.add, flowRequest))), .arrive 0 .barrier,
    .round 0 (surroundings 1#64)].foldl (runSwitch plainOfputil) unconnected

theorem waiting_reachable : SwitchReachable plainOfputil SwitchCall.Serviced waiting.1 waiting.2 :=
  unconnected_reachable.afterAll
    ⟨⟨trivial, trivial⟩, ⟨List.mem_singleton_self 0, trivial⟩,
      ⟨⟨by decide +kernel, show Enclave.NewAddr _ 1#64 by decide +kernel, rfl, nofun⟩, trivial⟩,
      ⟨⟨trivial, trivial, trivial⟩, nofun⟩, ⟨show 0 ∈ _ by decide +kernel, trivial⟩,
      ⟨show 0 ∈ _ by decide +kernel, trivial⟩,
      ⟨⟨by decide +kernel, show Enclave.NewAddr _ 1#64 by decide +kernel, by decide +kernel,
        nofun⟩, trivial⟩, trivial⟩

theorem SwitchReachable.fresh {Msg P A : Type} [DecidableEq P] [DecidableEq A]
    {u : Ofputil Msg P A} {s : Switch Msg P A} {h : List (SwitchEvent Msg)}
    (hr : SwitchReachable u SwitchCall.Serviced s h) : SwitchReachable u SwitchCall.Fresh s h :=
  hr.mono fun _ _ hc => hc.1.fresh

/-- The flow is not in the provider yet, so the barrier is put off. -/
theorem barrier_waits : ∃ s' done,
    ofconnRound plainOfputil waiting.1 0 .barrier Mailbox.empty (surroundings 2#64)
      = some (s', done) ∧ done = false := by
  obtain ⟨s', done, hround, -, hiff, -⟩ := barrier_answered (c := 0) waiting_reachable.fresh
    (by decide +kernel) rfl Mailbox.empty (surroundings 2#64)
  refine ⟨s', done, hround, Bool.eq_false_iff.mpr fun hdone => ?_⟩
  exact hiff.mp hdone 1#64 0 (by decide +kernel) (by decide +kernel)

/-- The barrier request has been put off. -/
def asleep : Switch (Request Unit Unit) Unit Unit × List (SwitchEvent (Request Unit Unit)) :=
  runSwitch plainOfputil waiting (.round 0 (surroundings 2#64))

theorem asleep_reachable : SwitchReachable plainOfputil SwitchCall.Serviced asleep.1 asleep.2 :=
  waiting_reachable.after
    ⟨⟨by decide +kernel, show Enclave.NewAddr _ 2#64 by decide +kernel, by decide +kernel, nofun⟩,
      trivial⟩

/-- Three messages have arrived; two of them have been handled and one is put off. -/
theorem messages_in_order_asleep :
    (handledSince 0 asleep.2).length = 2 ∧ (asleep.1.mgr.conn 0).blocked ≠ none ∧
      arrivedSince 0 asleep.2 = handledSince 0 asleep.2 ++ (asleep.1.mgr.conn 0).contents :=
  ⟨by decide +kernel, Option.isSome_iff_ne_none.mp (by decide +kernel),
    messages_in_order asleep_reachable.fresh (by decide +kernel)⟩

/-! ### A master that becomes a slave -/

/-- Two primary connections have asked to be the master, one after the other. Then a flow mod has
arrived from the first. -/
def demoted : Switch (Request Unit Unit) Unit Unit × List (SwitchEvent (Request Unit Unit)) :=
  [.create .primary, .create .primary, .arrive 0 (.role .master none), .round 0 (surroundings 1#64),
    .arrive 1 (.role .master none), .round 1 (surroundings 1#64),
    .arrive 0 (.flowMod (.ok (.add, flowRequest)))].foldl (runSwitch plainOfputil) unconnected

theorem demoted_reachable : SwitchReachable plainOfputil SwitchCall.Fresh demoted.1 demoted.2 :=
  unconnected_reachable.afterAll
    ⟨trivial, trivial, show 0 ∈ _ by decide +kernel, ⟨by decide +kernel, by decide +kernel⟩,
      show 1 ∈ _ by decide +kernel, ⟨by decide +kernel, by decide +kernel⟩,
      show 0 ∈ _ by decide +kernel, trivial⟩

/-- The flow mod of the connection that was the master adds no flow. -/
theorem masters_and_slaves_demoted :
    (demoted.1.mgr.conn 0).role = .slave ∧ (demoted.1.mgr.conn 1).role = .master ∧
      demoted.1.mgr.OneMaster ∧
      ∀ s' e, (SwitchCall.round 0 (surroundings 1#64)).run plainOfputil demoted.1 = some (s', e) →
        s'.flows = demoted.1.flows :=
  ⟨by decide +kernel, by decide +kernel, (masters_and_slaves demoted_reachable).1,
    (masters_and_slaves demoted_reachable).2 0 (by decide +kernel) (by decide +kernel)
      (surroundings 1#64)⟩

end OvsSgx
