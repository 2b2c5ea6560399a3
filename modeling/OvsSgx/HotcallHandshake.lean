/-
OvsSgx.HotcallHandshake — the caller and the poller, step by step.

The caller puts calls into `ecall_queue` without a lock, writes `is_done`
and `run` and waits until `is_done` is set; the poller looks at `run` under
the spin lock and then works on the queue. With `TIMEOUT` the poller goes to
sleep after a while and the caller wakes it. Each flag write and each
section under a lock is one step, and the steps of the two come in any
order. The invariant ties the flags to where the caller is: outside
`make_hotcall` the flag `run` is off, and inside it either the poller has
not started or it is done.
-/
import OvsSgx.Hotcall

namespace OvsSgx

open LinkedRing

/-! ## Steps -/

/-- Where the caller is: outside, between `get_fcall` and `list_insert` for a slot, or at a
place in `make_hotcall`. -/
inductive CallerPc where
  | outside
  | linking (i : Nat) (async : Bool)
  | clearDone
  | setRun
  | loop
  | signal
  | checkDone
deriving DecidableEq, Repr

/-- Where the poller is: at the top of its loop, after the lock was released, or on its way
through `ocall_sleep`. -/
inductive PollerPc where
  | top
  | paused
  | setSleeping
  | enterSleep
  | waiting
  | woken
deriving DecidableEq, Repr

/-- `INIT_TIMER_VALUE`. -/
def initTimerValue : Nat := 9999999

/-- The shared memory and where both parties are. `issued` and `executed` record the calls
that were given to `HCALL` and those that the enclave has executed. -/
structure Handshake (κ : Type) where
  ring : CallRing κ
  run : Bool
  isDone : Bool
  sleeping : Bool
  timeoutCounter : Nat
  caller : CallerPc
  poller : PollerPc
  issued : List κ
  executed : List κ

variable {κ : Type}

/-- Memory is zero and the queue empty when the poller is started. -/
def Handshake.init (fcs : Nat → κ) : Handshake κ :=
  ⟨hotcallInit fcs, false, false, false, initTimerValue, .outside, .top, [], []⟩

/-- `HCALL` up to the return of `get_fcall`. -/
def issueStep (s : Handshake κ) (c : κ) (async : Bool) : Option (Handshake κ) :=
  if s.caller = .outside then
    some { s with
      ring := getFcall s.ring c
      caller := .linking s.ring.idx async
      issued := s.issued ++ [c] }
  else none

/-- The rest of `HCALL` and `make_hotcall`. -/
def callerStep (timeout : Bool) (s : Handshake κ) : Option (Handshake κ) :=
  match s.caller with
  | .outside => none
  | .linking i async => some { s with
      ring := listInsert s.ring i
      caller := if async then .outside else .clearDone }
  | .clearDone => some { s with isDone := false, caller := .setRun }
  | .setRun => some { s with run := true, caller := .loop }
  | .loop => some { s with caller := if timeout && s.sleeping then .signal else .checkDone }
  | .signal => some { s with
      caller := .loop
      poller := if s.poller = .waiting then .woken else s.poller }
  | .checkDone => some { s with caller := if s.isDone then .outside else .loop }

/-- The loop of `ecall_start_poller`; a poller that waits does not move by itself. -/
def pollerStep (timeout : Bool) (s : Handshake κ) : Option (Handshake κ) :=
  match s.poller with
  | .top =>
    if s.run then do
      let (calls, ring) ← pollQueue s.ring
      return { s with
        ring := ring
        run := false
        isDone := true
        timeoutCounter := initTimerValue
        executed := s.executed ++ calls }
    else some { s with poller := .paused }
  | .paused =>
    if !timeout then some { s with poller := .top }
    else if s.timeoutCounter - 1 = 0 then
      some { s with timeoutCounter := initTimerValue, poller := .setSleeping }
    else some { s with timeoutCounter := s.timeoutCounter - 1, poller := .top }
  | .setSleeping => some { s with sleeping := true, poller := .enterSleep }
  | .enterSleep => some { s with poller := .waiting }
  | .waiting => none
  | .woken => some { s with sleeping := false, poller := .top }

/-- One step of either party; `pthread_cond_wait` may also return without a signal. -/
inductive Move (κ : Type) where
  | issue (c : κ) (async : Bool)
  | caller
  | poller
  | wakeup

/-- The state after a step, `none` if it is not possible. -/
def Handshake.step (timeout : Bool) (s : Handshake κ) : Move κ → Option (Handshake κ)
  | .issue c async => issueStep s c async
  | .caller => callerStep timeout s
  | .poller => pollerStep timeout s
  | .wakeup => if s.poller = .waiting then some { s with poller := .woken } else none

/-- The states that steps with property `G` lead to. -/
inductive HandshakeReachable (timeout : Bool) (G : Handshake κ → Move κ → Prop) :
    Handshake κ → Prop where
  | init (fcs : Nat → κ) : HandshakeReachable timeout G (Handshake.init fcs)
  | step {s s' : Handshake κ} (mv : Move κ) :
      HandshakeReachable timeout G s → G s mv → s.step timeout mv = some s' →
      HandshakeReachable timeout G s'

/-! ## Safety -/

/-- The caller is outside `make_hotcall`. -/
def CallerPc.isOutside : CallerPc → Bool
  | .outside => true
  | .linking _ _ => true
  | _ => false

/-- A step is safe: `make_hotcall` returns only when all calls have been executed, in order
and once, and the queue is empty, and the poller leaves queue and calls alone while the caller
is outside. -/
structure SafeStep (s : Handshake κ) (mv : Move κ) (s' : Handshake κ) : Prop where
  returns : s.caller = .checkDone → s'.caller = .outside →
    s'.executed = s'.issued ∧ s'.ring.links.Represents .head []
  quiet : s.caller.isOutside = true → mv = .poller → s'.ring = s.ring ∧ s'.executed = s.executed

/-- A call is issued only when fewer than 20 calls are waiting. -/
def FitsRing (s : Handshake κ) : Move κ → Prop
  | .issue _ _ => s.issued.length < s.executed.length + nFcalls
  | _ => True

/-- How many calls are linked into the queue so far. -/
def Handshake.nLinked (s : Handshake κ) : Nat :=
  match s.caller with
  | .linking _ _ => s.issued.length - 1
  | _ => s.issued.length

/-- What the flags are when the caller is at a place. -/
def FlagsOk (s : Handshake κ) : Prop :=
  match s.caller with
  | .outside => s.run = false
  | .linking i _ => s.run = false ∧ 0 < s.issued.length ∧ i = (s.issued.length - 1) % nFcalls
  | .clearDone => s.run = false
  | .setRun => s.run = false ∧ s.isDone = false
  | _ => (s.run = true ∧ s.isDone = false) ∨
      (s.run = false ∧ s.isDone = true ∧ s.executed.length = s.issued.length)

/-- The invariant of the handshake. -/
structure HandshakeOk (s : Handshake κ) : Prop where
  flags : FlagsOk s
  executed : s.executed = s.issued.take s.executed.length
  ring : RingOk s.ring s.issued s.executed.length s.nLinked

variable {timeout : Bool} {s s' : Handshake κ} {mv : Move κ}

theorem HandshakeOk.init (fcs : Nat → κ) : HandshakeOk (Handshake.init fcs) :=
  ⟨rfl, rfl, hotcallInit_ok fcs⟩

theorem issueStep_ok (h : HandshakeOk s) {c : κ} {async : Bool}
    (hfits : s.issued.length < s.executed.length + nFcalls)
    (hs : issueStep s c async = some s') : HandshakeOk s' := by
  unfold issueStep at hs
  split at hs
  · rename_i hout
    cases hs
    have hflags := h.flags
    have hring := h.ring
    simp only [FlagsOk, Handshake.nLinked, hout] at hflags hring
    refine ⟨?_, ?_, ?_⟩
    · simp [FlagsOk, hflags, hring.idx]
    · show s.executed = (s.issued ++ [c]).take s.executed.length
      rw [List.take_append_of_le_length hring.le]
      exact h.executed
    · simpa [Handshake.nLinked] using hring.getFcall hfits c
  · cases hs

theorem callerStep_ok (h : HandshakeOk s) (hs : callerStep timeout s = some s') :
    HandshakeOk s' := by
  have hflags := h.flags
  have hring := h.ring
  unfold callerStep at hs
  cases hpc : s.caller with
  | outside =>
    rw [hpc] at hs
    cases hs
  | linking i async =>
    rw [hpc] at hs
    cases hs
    simp only [FlagsOk, Handshake.nLinked, hpc] at hflags hring
    obtain ⟨hrun, hpos, rfl⟩ := hflags
    have hlinked := hring.listInsert (by omega)
    cases async with
    | true => exact ⟨hrun, h.executed, hlinked⟩
    | false => exact ⟨hrun, h.executed, hlinked⟩
  | clearDone =>
    rw [hpc] at hs
    cases hs
    simp only [FlagsOk, Handshake.nLinked, hpc] at hflags hring
    exact ⟨⟨hflags, rfl⟩, h.executed, hring⟩
  | setRun =>
    rw [hpc] at hs
    cases hs
    simp only [FlagsOk, Handshake.nLinked, hpc] at hflags hring
    exact ⟨.inl ⟨rfl, hflags.2⟩, h.executed, hring⟩
  | loop =>
    rw [hpc] at hs
    cases hs
    simp only [FlagsOk, Handshake.nLinked, hpc] at hflags hring
    cases timeout && s.sleeping with
    | true => exact ⟨hflags, h.executed, hring⟩
    | false => exact ⟨hflags, h.executed, hring⟩
  | signal =>
    rw [hpc] at hs
    cases hs
    simp only [FlagsOk, Handshake.nLinked, hpc] at hflags hring
    exact ⟨hflags, h.executed, hring⟩
  | checkDone =>
    rw [hpc] at hs
    cases hs
    simp only [FlagsOk, Handshake.nLinked, hpc] at hflags hring
    rcases hflags with ⟨hrun, hdone⟩ | ⟨hrun, hdone, hlen⟩
    · rw [hdone]
      exact ⟨.inl ⟨hrun, rfl⟩, h.executed, hring⟩
    · rw [hdone]
      exact ⟨hrun, h.executed, hring⟩

/-- The poller works on the queue only while the caller waits in `make_hotcall`, and then all
calls are executed. -/
theorem HandshakeOk.inside (h : HandshakeOk s) (hrun : s.run = true) :
    s.caller.isOutside = false ∧ s.nLinked = s.issued.length ∧
      ∀ s' : Handshake κ, s'.caller = s.caller → s'.run = false → s'.isDone = true →
        s'.executed.length = s'.issued.length → FlagsOk s' := by
  have hflags := h.flags
  unfold FlagsOk at hflags
  cases hpc : s.caller with
  | outside =>
    rw [hpc] at hflags
    exact absurd (hrun.symm.trans hflags) (by simp)
  | linking i async =>
    rw [hpc] at hflags
    exact absurd (hrun.symm.trans hflags.1) (by simp)
  | clearDone =>
    rw [hpc] at hflags
    exact absurd (hrun.symm.trans hflags) (by simp)
  | setRun =>
    rw [hpc] at hflags
    exact absurd (hrun.symm.trans hflags.1) (by simp)
  | loop =>
    exact ⟨rfl, by simp [Handshake.nLinked, hpc],
      fun s' h1 h2 h3 h4 => by simp [FlagsOk, h1, h2, h3, h4]⟩
  | signal =>
    exact ⟨rfl, by simp [Handshake.nLinked, hpc],
      fun s' h1 h2 h3 h4 => by simp [FlagsOk, h1, h2, h3, h4]⟩
  | checkDone =>
    exact ⟨rfl, by simp [Handshake.nLinked, hpc],
      fun s' h1 h2 h3 h4 => by simp [FlagsOk, h1, h2, h3, h4]⟩

theorem pollerStep_ok (h : HandshakeOk s) (hs : pollerStep timeout s = some s') :
    HandshakeOk s' := by
  unfold pollerStep at hs
  cases hpc : s.poller with
  | top =>
    rw [hpc] at hs
    by_cases hrun : s.run = true
    · obtain ⟨-, hlinked, hflags⟩ := h.inside hrun
      have hring := h.ring
      rw [hlinked] at hring
      obtain ⟨q', hpoll, hring'⟩ := hring.pollQueue
      simp only [hrun, if_true, hpoll, Option.bind_eq_bind, Option.bind_some] at hs
      cases hs
      have hall : s.executed ++ s.issued.drop s.executed.length = s.issued := by
        have := List.take_append_drop s.executed.length s.issued
        rwa [← h.executed] at this
      refine ⟨hflags _ rfl rfl rfl (by rw [hall]), by simp [hall], ?_⟩
      show RingOk q' s.issued (s.executed ++ s.issued.drop s.executed.length).length s.nLinked
      rw [hall, hlinked]
      exact hring'
    · dsimp only at hs
      rw [if_neg hrun] at hs
      cases hs
      exact ⟨h.flags, h.executed, h.ring⟩
  | paused =>
    rw [hpc] at hs
    dsimp only at hs
    split at hs
    · cases hs
      exact ⟨h.flags, h.executed, h.ring⟩
    · split at hs
      · cases hs
        exact ⟨h.flags, h.executed, h.ring⟩
      · cases hs
        exact ⟨h.flags, h.executed, h.ring⟩
  | setSleeping =>
    rw [hpc] at hs
    cases hs
    exact ⟨h.flags, h.executed, h.ring⟩
  | enterSleep =>
    rw [hpc] at hs
    cases hs
    exact ⟨h.flags, h.executed, h.ring⟩
  | waiting =>
    rw [hpc] at hs
    cases hs
  | woken =>
    rw [hpc] at hs
    cases hs
    exact ⟨h.flags, h.executed, h.ring⟩

/-- A step keeps the invariant if no slot that is still in the queue is written. -/
theorem step_ok (h : HandshakeOk s) (hfits : FitsRing s mv) (hs : s.step timeout mv = some s') :
    HandshakeOk s' := by
  cases mv with
  | issue c async => exact issueStep_ok h hfits hs
  | caller => exact callerStep_ok h hs
  | poller => exact pollerStep_ok h hs
  | wakeup =>
    simp only [Handshake.step] at hs
    split at hs
    · cases hs
      exact ⟨h.flags, h.executed, h.ring⟩
    · cases hs

theorem HandshakeReachable.ok (h : HandshakeReachable timeout FitsRing s) : HandshakeOk s := by
  induction h with
  | init fcs => exact HandshakeOk.init fcs
  | step mv _ hfits hs ih => exact step_ok ih hfits hs

/-! ## Every step is safe -/

theorem pollerStep_caller (hs : pollerStep timeout s = some s') : s'.caller = s.caller := by
  unfold pollerStep at hs
  cases hpc : s.poller with
  | top =>
    rw [hpc] at hs
    dsimp only at hs
    split at hs
    · obtain ⟨⟨calls, ring⟩, -, hs⟩ := Option.bind_eq_some_iff.mp hs
      cases hs
      rfl
    · cases hs
      rfl
  | paused =>
    rw [hpc] at hs
    dsimp only at hs
    split at hs
    · cases hs
      rfl
    · split at hs
      · cases hs
        rfl
      · cases hs
        rfl
  | waiting =>
    rw [hpc] at hs
    cases hs
  | _ =>
    rw [hpc] at hs
    cases hs
    rfl

/-- The caller leaves `make_hotcall` only by seeing `is_done`. -/
theorem step_returns (hpc : s.caller = .checkDone) (hs : s.step timeout mv = some s')
    (hout : s'.caller = .outside) :
    s.isDone = true ∧ s'.ring = s.ring ∧ s'.issued = s.issued ∧ s'.executed = s.executed := by
  cases mv with
  | issue c async =>
    simp [Handshake.step, issueStep, hpc] at hs
  | caller =>
    simp only [Handshake.step, callerStep, hpc, Option.some.injEq] at hs
    subst hs
    refine ⟨?_, rfl, rfl, rfl⟩
    by_contra hdone
    simp [hdone] at hout
  | poller =>
    rw [pollerStep_caller hs, hpc] at hout
    cases hout
  | wakeup =>
    simp only [Handshake.step] at hs
    split at hs
    · cases hs
      rw [hpc] at hout
      cases hout
    · cases hs

theorem HandshakeOk.returns (h : HandshakeOk s) (hpc : s.caller = .checkDone)
    (hdone : s.isDone = true) : s.executed = s.issued ∧ s.ring.links.Represents .head [] := by
  have hflags := h.flags
  have hring := h.ring
  have hexec := h.executed
  simp only [FlagsOk, Handshake.nLinked, hpc] at hflags hring
  rcases hflags with ⟨-, hnot⟩ | ⟨-, -, hlen⟩
  · exact absurd (hdone.symm.trans hnot) (by simp)
  · rw [hlen] at hexec hring
    refine ⟨by rw [hexec, List.take_length], ?_⟩
    simpa using hring.links

theorem HandshakeOk.quiet (h : HandshakeOk s) (hpc : s.caller.isOutside = true)
    (hs : pollerStep timeout s = some s') : s'.ring = s.ring ∧ s'.executed = s.executed := by
  have hrun : s.run ≠ true := by
    intro hrun
    rw [(h.inside hrun).1] at hpc
    cases hpc
  unfold pollerStep at hs
  cases hpoll : s.poller with
  | top =>
    rw [hpoll] at hs
    dsimp only at hs
    rw [if_neg hrun] at hs
    cases hs
    exact ⟨rfl, rfl⟩
  | paused =>
    rw [hpoll] at hs
    dsimp only at hs
    split at hs
    · cases hs
      exact ⟨rfl, rfl⟩
    · split at hs
      · cases hs
        exact ⟨rfl, rfl⟩
      · cases hs
        exact ⟨rfl, rfl⟩
  | waiting =>
    rw [hpoll] at hs
    cases hs
  | _ =>
    rw [hpoll] at hs
    cases hs
    exact ⟨rfl, rfl⟩

/-- In every run in which a call is issued only when fewer than 20 are waiting, every step is
safe. -/
theorem handshake_safe (h : HandshakeReachable timeout FitsRing s)
    (hs : s.step timeout mv = some s') : SafeStep s mv s' := by
  refine ⟨fun hpc hout => ?_, fun hpc hmv => ?_⟩
  · obtain ⟨hdone, hring, hissued, hexec⟩ := step_returns hpc hs hout
    rw [hring, hissued, hexec]
    exact h.ok.returns hpc hdone
  · rw [hmv] at hs
    exact h.ok.quiet hpc hs

/-! ## A short run and a long one -/

/-- Run a list of steps as long as they have property `G`. -/
def Handshake.runMoves (timeout : Bool) (G : Handshake κ → Move κ → Prop)
    [∀ s mv, Decidable (G s mv)] (s : Handshake κ) : List (Move κ) → Handshake κ
  | [] => s
  | mv :: moves =>
    if G s mv then ((s.step timeout mv).map fun s' => s'.runMoves timeout G moves).getD s else s

theorem runMoves_reachable {G : Handshake κ → Move κ → Prop} [∀ s mv, Decidable (G s mv)]
    {moves : List (Move κ)} (h : HandshakeReachable timeout G s) :
    HandshakeReachable timeout G (s.runMoves timeout G moves) := by
  induction moves generalizing s with
  | nil => exact h
  | cons mv moves ih =>
    simp only [Handshake.runMoves]
    split
    · rename_i hG
      cases hs : s.step timeout mv with
      | none => exact h
      | some s1 => exact ih (h.step mv hG hs)
    · exact h

instance (s : Handshake κ) (mv : Move κ) : Decidable (FitsRing s mv) :=
  match mv with
  | .issue _ _ => inferInstanceAs (Decidable (_ < _))
  | .caller => .isTrue trivial
  | .poller => .isTrue trivial
  | .wakeup => .isTrue trivial

/-- An asynchronous call. -/
def asyncCall (c : κ) : List (Move κ) := [.issue c true, .caller]

/-- A synchronous call up to the check of `is_done`, with one round of the poller after `run`
is set. -/
def syncCall (c : κ) : List (Move κ) :=
  [.issue c false, .caller, .caller, .caller, .poller, .caller]

/-- Two asynchronous calls and a synchronous one. -/
def shortRun : Handshake Nat :=
  (Handshake.init fun _ => 0).runMoves false FitsRing
    (asyncCall 1 ++ asyncCall 2 ++ [.poller, .poller] ++ syncCall 3)

theorem shortRun_safe :
    shortRun.caller = .checkDone ∧ shortRun.issued = [1, 2, 3] ∧
      ∃ s', shortRun.step false .caller = some s' ∧ s'.caller = .outside ∧
        SafeStep shortRun .caller s' := by
  have hreach : HandshakeReachable false FitsRing shortRun :=
    runMoves_reachable (HandshakeReachable.init _)
  have hpc : shortRun.caller = .checkDone := by decide +kernel
  have hdone : shortRun.isDone = true := by decide +kernel
  have hstep : shortRun.step false .caller = some { shortRun with caller := .outside } := by
    simp [Handshake.step, callerStep, hpc, hdone]
  exact ⟨hpc, by decide +kernel, _, hstep, rfl, handshake_safe hreach hstep⟩

/-- Twenty asynchronous calls and a synchronous one, which takes the slot of the first. -/
def longRun : Handshake Nat :=
  (Handshake.init fun _ => 0).runMoves false (fun _ _ => True)
    ((List.range 20).flatMap asyncCall ++ syncCall 20)

/-- `make_hotcall` returns, and only the last call has been executed. -/
theorem longRun_not_safe :
    ¬ ∀ (timeout : Bool) (s s' : Handshake Nat) (mv : Move Nat),
      HandshakeReachable timeout (fun _ _ => True) s → s.step timeout mv = some s' →
      SafeStep s mv s' := by
  intro hall
  have hreach : HandshakeReachable false (fun _ _ => True) longRun :=
    runMoves_reachable (HandshakeReachable.init _)
  have hpc : longRun.caller = .checkDone := by decide +kernel
  have hdone : longRun.isDone = true := by decide +kernel
  have hstep : longRun.step false .caller = some { longRun with caller := .outside } := by
    simp [Handshake.step, callerStep, hpc, hdone]
  have hsafe := hall false longRun { longRun with caller := .outside } .caller hreach hstep
  obtain ⟨hexec, -⟩ := hsafe.returns hpc rfl
  have hlost : longRun.executed = [20] ∧ longRun.issued ≠ [20] := by decide +kernel
  dsimp only at hexec
  rw [hlost.1] at hexec
  exact hlost.2 hexec.symm

end OvsSgx
