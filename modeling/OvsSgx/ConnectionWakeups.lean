/-
OvsSgx.ConnectionWakeups — no connection waits for ever.

A message that is put off is read again when `connmgr_retry` has been called,
which `ofopgroup_complete` does for a group that belongs to a connection. So
a message must not wait while only groups of nobody are pending. That holds
if the calls which no connection makes find the provider unclogged, so that
their groups are completed at once, and if a connection is not dropped while
it has groups pending.
-/
import OvsSgx.ConnectionTheorems

namespace OvsSgx

section Wakeups

variable {Msg P A : Type} {s s' : Switch Msg P A} {h : List (SwitchEvent Msg)} {c : ConnId}
  {o o' : Ofproto} {m m' : Connmgr Msg P A} {creator : Option ConnId}

/-- Every group that is pending belongs to a connection, and while a message waits to be read
again, there is such a group. -/
structure Wakeable (m : Connmgr Msg P A) (o : Ofproto) : Prop where
  attached : ∀ g ∈ o.pending, g ∈ m.opgroups
  asleep : ∀ c ∈ m.allConns, (m.conn c).Asleep → o.pending ≠ []

/-- Only what has no bearing on it changes. -/
theorem Wakeable.congr (hw : Wakeable m o)
    (hgroups : ∀ c ∈ m.allConns, c ∈ m'.allConns ∧ (m'.conn c).opgroups = (m.conn c).opgroups)
    (hasleep : ∀ c ∈ m'.allConns, (m'.conn c).Asleep → c ∈ m.allConns ∧ (m.conn c).Asleep) :
    Wakeable m' o where
  attached g hg := by
    obtain ⟨c, hc, hmem⟩ := Connmgr.mem_opgroups.mp (hw.attached g hg)
    obtain ⟨hc', hsame⟩ := hgroups c hc
    exact Connmgr.mem_opgroups.mpr ⟨c, hc', hsame ▸ hmem⟩
  asleep c hc ha := by
    obtain ⟨hc', ha'⟩ := hasleep c hc ha
    exact hw.asleep c hc' ha'

/-- After a call the groups that are pending are again on the lists, unless it has left one that it
has opened for nobody. -/
theorem CallEffect.attached (he : CallEffect creator o o' m m') (hone : OneGroup o o')
    (hatt : ∀ g ∈ o.pending, g ∈ m.opgroups) (hnew : o.nextGroup ∈ o'.pending → o'.nextGroup = o.nextGroup + 1 →
      ∃ c ∈ m.allConns, creator = some c) : ∀ g ∈ o'.pending, g ∈ m'.opgroups := by
  intro g hg
  have hold : g ∈ o.pending → g ∈ m'.opgroups := by
    intro hp
    obtain ⟨c, hc, hmem⟩ := Connmgr.mem_opgroups.mp (hatt g hp)
    refine Connmgr.mem_opgroups.mpr ⟨c, by rw [he.allConns]; exact hc, ?_⟩
    rw [he.opgroups c hc]
    exact List.mem_filter.mpr ⟨List.mem_append_left _ hmem, decide_eq_true hg⟩
  rcases hone with ⟨-, hsub⟩ | ⟨hnext, hsame | ⟨-, hmore⟩⟩
  · exact hold (hsub.subset hg)
  · exact hold (hsame ▸ hg)
  · rw [hmore, List.mem_append, List.mem_singleton] at hg
    rcases hg with hg | rfl
    · exact hold hg
    · have hlast : o.nextGroup ∈ o'.pending := by simp [hmore]
      obtain ⟨c, hc, rfl⟩ := hnew hlast hnext
      refine Connmgr.mem_opgroups.mpr ⟨c, by rw [he.allConns]; exact hc, ?_⟩
      rw [he.opgroups c hc]
      refine List.mem_filter.mpr ⟨List.mem_append_right _ ?_, decide_eq_true hlast⟩
      simp [newGroups, hnext]

/-- A connection that is asleep after a call was asleep before it, and a group is still pending. -/
theorem CallEffect.asleep (he : CallEffect creator o o' m m')
    (hatt : ∀ g ∈ o.pending, g ∈ m.opgroups) (hc : c ∈ m.allConns)
    (hwait : (m.conn c).Asleep → o.pending ≠ []) (ha : (m'.conn c).Asleep) : o'.pending ≠ [] := by
  obtain ⟨hblocked, hretry⟩ := ha
  rw [he.blocked] at hblocked
  obtain ⟨hretry', hstill⟩ := he.retry c hc hretry
  obtain ⟨g, hg⟩ := List.exists_mem_of_ne_nil _ (hwait ⟨hblocked, hretry'⟩)
  exact List.ne_nil_of_mem (hstill g (hatt g hg))

/-! ## One call -/

theorem Wakeable.arrive (hw : Wakeable m o) (c : ConnId) (msg : Msg) :
    Wakeable (m.update c fun ofconn => { ofconn with toMailbox := ofconn.arrive msg }) o := by
  refine hw.congr (fun c' hc' => ⟨hc', ?_⟩) fun c' hc' ha => ⟨hc', ?_⟩
  · rw [Connmgr.update_conn]
    split <;> rfl
  · rw [Connmgr.update_conn] at ha
    split at ha <;> exact ha

theorem Wakeable.replySent (hw : Wakeable m o) (c : ConnId) :
    Wakeable (m.update c fun ofconn => { ofconn with nReplies := ofconn.nReplies - 1 }) o := by
  refine hw.congr (fun c' hc' => ⟨hc', ?_⟩) fun c' hc' ha => ⟨hc', ?_⟩
  · rw [Connmgr.update_conn]
    split <;> rfl
  · rw [Connmgr.update_conn] at ha
    split at ha <;> exact ha

theorem ofconnFlush_conn (u : Ofputil Msg P A) (m : Connmgr Msg P A) (c c' : ConnId)
    (hnone : (m.conn c).opgroups = []) :
    ((ofconnFlush u m c).conn c').opgroups = (m.conn c').opgroups ∧
      (((ofconnFlush u m c).conn c').Asleep → c' ≠ c ∧ (m.conn c').Asleep) := by
  rw [ofconnFlush, Connmgr.update_conn]
  by_cases hc : c' = c
  · subst hc
    rw [if_pos rfl]
    exact ⟨hnone.symm, fun ha => absurd rfl ha.1⟩
  · rw [if_neg hc]
    exact ⟨rfl, fun ha => ⟨hc, ha⟩⟩

theorem Wakeable.flush (hw : Wakeable m o) (u : Ofputil Msg P A)
    (hnone : (m.conn c).opgroups = []) : Wakeable (ofconnFlush u m c) o :=
  hw.congr (fun c' hc' => ⟨hc', (ofconnFlush_conn u m c c' hnone).1⟩)
    fun c' hc' ha => ⟨hc', ((ofconnFlush_conn u m c c' hnone).2 ha).2⟩

theorem Wakeable.destroy (hw : Wakeable m o) (u : Ofputil Msg P A)
    (hnone : (m.conn c).opgroups = []) : Wakeable (ofconnDestroy u m c) o where
  attached g hg := by
    obtain ⟨c', hc', hmem⟩ := Connmgr.mem_opgroups.mp (hw.attached g hg)
    have hne : c' ≠ c := by
      rintro rfl
      rw [hnone] at hmem
      cases hmem
    refine Connmgr.mem_opgroups.mpr ⟨c', (List.mem_erase_of_ne hne).mpr hc', ?_⟩
    show g ∈ ((ofconnFlush u m c).conn c').opgroups
    rw [(ofconnFlush_conn u m c c' hnone).1]
    exact hmem
  asleep c' hc' ha :=
    hw.asleep c' (List.mem_of_mem_erase hc') ((ofconnFlush_conn u m c c' hnone).2 ha).2

theorem Wakeable.create (hw : Wakeable m o) (hlt : ∀ c ∈ m.allConns, c < m.nextConn)
    (u : Ofputil Msg P A) (type : OfconnType) : Wakeable (ofconnCreate u m type) o := by
  have hold : ∀ c ∈ m.allConns, (ofconnCreate u m type).conn c = m.conn c := fun c hc =>
    Function.update_of_ne (Nat.ne_of_lt (hlt c hc)) _ _
  refine hw.congr (fun c hc => ⟨List.mem_append_left _ hc, by rw [hold c hc]⟩) fun c hc ha => ?_
  rcases List.mem_append.mp hc with hc | hc
  · rw [hold c hc] at ha
    exact ⟨hc, ha⟩
  · rw [List.mem_singleton.mp hc] at ha
    simp [ofconnCreate, ofconnInit, Mailbox.Asleep, Mailbox.empty] at ha

theorem Wakeable.round [DecidableEq A] {msg : Msg} {b : Mailbox Msg} {done : Bool}
    {m1 : Connmgr Msg P A} {env : Surroundings} (hw : Wakeable s.mgr s.flows.ofproto)
    (hc : OrderlyRound s c env) (hd : RoundDone s s' c env msg b done m1) :
    Wakeable s'.mgr s'.flows.ofproto := by
  have he := hd.effect
  have hc1 : ∀ c' ∈ s'.mgr.allConns, c' ∈ s.mgr.allConns := fun c' hc' => by
    rw [hd.mgr] at hc'
    exact he.allConns ▸ hc'
  have htaken : ∀ g ∈ s.flows.ofproto.pending,
      g ∈ (s.mgr.update c fun ofconn => { ofconn with toMailbox := b }).opgroups := by
    intro g hg
    obtain ⟨c', hc', hmem⟩ := Connmgr.mem_opgroups.mp (hw.attached g hg)
    refine Connmgr.mem_opgroups.mpr ⟨c', hc', ?_⟩
    rw [Connmgr.update_conn]
    split <;> exact hmem
  constructor
  case attached =>
    intro g hg
    have hmem := he.attached hd.oneGroup htaken (fun _ _ => ⟨c, hc.2.1, rfl⟩) g hg
    obtain ⟨c', hc', hmem⟩ := Connmgr.mem_opgroups.mp hmem
    rw [hd.mgr]
    refine Connmgr.mem_opgroups.mpr ⟨c', hc', ?_⟩
    rw [Connmgr.update_conn]
    split <;> exact hmem
  case asleep =>
    intro c' hc' ha
    have hc0 := hc1 c' hc'
    rw [hd.mgr, Connmgr.update_conn] at ha
    by_cases hcc : c' = c
    · rw [if_pos hcc] at ha
      cases done with
      | true => exact absurd rfl ha.1
      | false => exact hd.waits hc rfl
    · rw [if_neg hcc] at ha
      refine he.asleep htaken hc0 ?_ ha
      rw [Connmgr.update_conn_ne hcc]
      exact hw.asleep c' hc0

theorem completeOperations_nextGroup {call : BridgeCall} (hb : o.Accounted)
    (hkind : call.opensGroup = false) (hs : call.run o = some o') :
    o'.nextGroup = o.nextGroup := by
  cases call with
  | completeOperations => exact (completeOperations_accounted hb hs).2.1
  | clog clogged =>
    cases hs
    rfl
  | configure c =>
    obtain ⟨s', -, rfl⟩ := Option.map_eq_some_iff.mp hs
    rfl
  | _ => cases hkind

theorem Wakeable.bridge {call : BridgeCall} (hw : Wakeable m o) (hl : m.Lists o)
    (hb : o.Accounted) (hfresh : call.FreshMemory o)
    (hatt : call.opensGroup = true → o.clogged = false) (hs : call.run o = some o') :
    Wakeable (m.afterCall none o o') o' := by
  have he : CallEffect none o o' m (m.afterCall none o o') := afterCall_effect hl hb
  have hone := (run_accounted hb hfresh hs).2
  have hnone : o.nextGroup ∉ o.pending := fun hmem =>
    Nat.lt_irrefl _ (hb.accounts.groupLt _ hmem)
  constructor
  case attached =>
    refine he.attached hone hw.attached fun hlast hnext => ?_
    cases hkind : call.opensGroup with
    | false =>
      rw [completeOperations_nextGroup hb hkind hs] at hnext
      exact absurd hnext.symm (Nat.succ_ne_self _)
    | true =>
      rcases hone with ⟨-, hsub⟩ | ⟨-, hsame | ⟨hclog, -⟩⟩
      · exact absurd (hsub.subset hlast) hnone
      · exact absurd (hsame ▸ hlast) hnone
      · rw [hatt hkind] at hclog
        cases hclog
  case asleep =>
    intro c hc ha
    have hc0 : c ∈ m.allConns := he.allConns ▸ hc
    exact he.asleep hw.attached hc0 (hw.asleep c hc0) ha

/-! ## Every run -/

variable [DecidableEq P] [DecidableEq A] {u : Ofputil Msg P A}

theorem SwitchCall.run_flows {call : SwitchCall Msg} {e : Option (SwitchEvent Msg)}
    (hrun : FlowsReachable (A := A) FlowCall.Orderly s.flows.ofproto)
    (hok : ConnsOk s.mgr s.flows.ofproto h) (hc : call.Orderly s)
    (hs : call.run u s = some (s', e)) :
    FlowsReachable (A := A) FlowCall.Orderly s'.flows.ofproto := by
  cases call with
  | round c env =>
    rcases SwitchCall.round_run hs with ⟨rfl, -⟩ | ⟨msg, b, done, -, hround, -⟩
    · exact hrun
    · obtain ⟨m, hd⟩ := ofconnRound_done hc.fresh hrun.shadowed.2.1 hok.lists hround
      exact hd.reachable ⟨hrun, hc⟩
  | bridge call =>
    obtain ⟨o', hcall, hs⟩ := Option.bind_eq_some_iff.mp hs
    cases hs
    exact hrun.bridge call hc hcall
  | _ =>
    cases hs
    exact hrun

/-- The bridge of an orderly run. -/
theorem SwitchReachable.flows (hr : SwitchReachable u SwitchCall.Orderly s h) :
    FlowsReachable (A := A) FlowCall.Orderly s.flows.ofproto := by
  induction hr with
  | create nTables enclaveRandom random flowCookie ofpacts conn hn =>
    exact .create nTables enclaveRandom random hn
  | step call hr hc hs ih =>
    exact SwitchCall.run_flows ih (hr.mono fun _ _ hc => hc.fresh).ok.2 hc hs

theorem SwitchCall.run_wakeable {call : SwitchCall Msg} {e : Option (SwitchEvent Msg)}
    (hrun : FlowsReachable (A := A) FlowCall.Orderly s.flows.ofproto)
    (hok : ConnsOk s.mgr s.flows.ofproto h) (hw : Wakeable s.mgr s.flows.ofproto)
    (hc : call.Orderly s) (hatt : call.Attached s) (hs : call.run u s = some (s', e)) :
    Wakeable s'.mgr s'.flows.ofproto := by
  cases call with
  | arrive c msg =>
    cases hs
    exact hw.arrive c msg
  | replySent c =>
    cases hs
    exact hw.replySent c
  | flush c =>
    cases hs
    exact hw.flush u hatt
  | create type =>
    cases hs
    exact hw.create hok.lt u type
  | destroy c =>
    cases hs
    exact hw.destroy u hatt
  | round c env =>
    rcases SwitchCall.round_run hs with ⟨rfl, -⟩ | ⟨msg, b, done, -, hround, -⟩
    · exact hw
    · obtain ⟨m, hd⟩ := ofconnRound_done hc.fresh hrun.shadowed.2.1 hok.lists hround
      exact hw.round ⟨hrun, hc⟩ hd
  | bridge call =>
    obtain ⟨o', hcall, hs⟩ := Option.bind_eq_some_iff.mp hs
    cases hs
    exact hw.bridge hok.lists hrun.shadowed.2.1 hc.2.1 hatt hcall

theorem SwitchReachable.wakeable (hr : SwitchReachable u SwitchCall.Serviced s h) :
    Wakeable s.mgr s.flows.ofproto := by
  induction hr with
  | create nTables enclaveRandom random flowCookie ofpacts conn hn =>
    constructor <;> simp [switchCreate, ofprotoCreate]
  | step call hr hc hs ih =>
    exact SwitchCall.run_wakeable (hr.mono fun _ _ hc => hc.1).flows hr.fresh.ok.2 ih hc.1 hc.2 hs

/-- In every such run, once the provider is not clogged and has completed what it had put off, no
connection waits to read a message again, and none has groups pending. -/
theorem completeOperations_wakes (hr : SwitchReachable u SwitchCall.Serviced s h) :
    ∃ s1 s2, (SwitchCall.bridge (.clog false) : SwitchCall Msg).run u s = some (s1, none) ∧
      (SwitchCall.bridge .completeOperations : SwitchCall Msg).run u s1 = some (s2, none) ∧
      s2.flows.ofproto.Quiet ∧
      ∀ c ∈ s2.mgr.allConns, ¬ (s2.mgr.conn c).Asleep ∧ (s2.mgr.conn c).opgroups = [] := by
  let o1 : Ofproto := { s.flows.ofproto with clogged := false }
  have hclog : (SwitchCall.bridge (.clog false) : SwitchCall Msg).run u s
      = some (⟨{ s.flows with ofproto := o1 }, s.mgr.afterCall none s.flows.ofproto o1⟩, none) := rfl
  have hr1 := hr.step (.bridge (.clog false)) ⟨⟨trivial, trivial, trivial⟩, nofun⟩ hclog
  obtain ⟨hsane, hb, hshadow⟩ := (hr1.mono fun _ _ hc => hc.1).flows.shadowed
  obtain ⟨o2, hcomplete, hquiet⟩ := completeOperations_quiet hsane hb hshadow rfl
  have hrun2 : (SwitchCall.bridge .completeOperations : SwitchCall Msg).run u
      ⟨{ s.flows with ofproto := o1 }, s.mgr.afterCall none s.flows.ofproto o1⟩
      = some (⟨{ s.flows with ofproto := o2 },
        (s.mgr.afterCall none s.flows.ofproto o1).afterCall none o1 o2⟩, none) := by
    show (completeOperations o1).bind _ = _
    rw [show completeOperations o1 = some o2 from hcomplete]
    rfl
  have hr2 := hr1.step (.bridge .completeOperations) ⟨⟨trivial, trivial, trivial⟩, nofun⟩ hrun2
  refine ⟨_, _, hclog, hrun2, hquiet, fun c hc => ⟨fun ha => ?_, ?_⟩⟩
  · exact hr2.wakeable.asleep c hc ha hquiet.pending
  · refine List.eq_nil_iff_forall_not_mem.mpr fun g hg => ?_
    have hpend := hr2.fresh.ok.2.lists.pending c hc g hg
    rw [hquiet.pending] at hpend
    cases hpend

end Wakeups

/-! ### The barrier that had to wait -/

theorem asleep_wakes :
    (asleep.1.mgr.conn 0).Asleep ∧ ∃ s1 s2,
      (SwitchCall.bridge (.clog false)).run plainOfputil asleep.1 = some (s1, none) ∧
      (SwitchCall.bridge .completeOperations).run plainOfputil s1 = some (s2, none) ∧
      s2.flows.ofproto.Quiet ∧
      ∀ c ∈ s2.mgr.allConns, ¬ (s2.mgr.conn c).Asleep ∧ (s2.mgr.conn c).opgroups = [] :=
  ⟨⟨nofun, by decide +kernel⟩, completeOperations_wakes asleep_reachable⟩

/-! ### A wakeup that is lost -/

/-- A rule has expired while the provider was clogged, so its deletion belongs to no connection. A
connection has sent a flow mod for the same flow, which was put off. Then the provider has completed
the deletion. -/
def expired : Switch (Request Unit Unit) Unit Unit × List (SwitchEvent (Request Unit Unit)) :=
  [.create .primary, .bridge (.addFlow (expiringFlow 7#32 1) (ruleAt 1#64) none),
    .bridge (.clog true), .bridge (.ruleExpire 1#64),
    .arrive 0 (.flowMod (.ok (.add, flowRequest))), .round 0 (surroundings 2#64),
    .bridge (.clog false), .bridge .completeOperations].foldl (runSwitch plainOfputil) unconnected

theorem expired_reachable : SwitchReachable plainOfputil SwitchCall.Orderly expired.1 expired.2 :=
  unconnected_reachable.afterAll
    ⟨trivial, ⟨show Enclave.NewAddr _ 1#64 by decide +kernel, rfl, trivial⟩,
      ⟨trivial, trivial, trivial⟩, ⟨show 1#64 ∈ _ by decide +kernel, trivial, trivial⟩,
      show 0 ∈ _ by decide +kernel,
      ⟨by decide +kernel, show Enclave.NewAddr _ 2#64 by decide +kernel, by decide +kernel, nofun⟩,
      ⟨trivial, trivial, trivial⟩, ⟨trivial, trivial, trivial⟩, trivial⟩

/-- Nothing is in flight any more, but `connmgr_retry` has not been called, so the flow mod waits
until a request of another connection is completed. -/
theorem wakeup_lost : (expired.1.mgr.conn 0).Asleep ∧ expired.1.flows.ofproto.pending = [] :=
  ⟨⟨Option.isSome_iff_ne_none.mp (by decide +kernel), by decide +kernel⟩, by decide +kernel⟩

end OvsSgx
