/-
OvsSgx.Lib.Mailbox — a queue whose reader may put a message off.

The reader takes one message at a time and either deals with it or puts it
off. A message that is put off is kept apart from the queue; nothing else is
taken until a retry is allowed, and then it is taken again. So whatever the
reader does, messages are dealt with once each and in the order in which
they have arrived.
-/
import Mathlib.Data.List.Basic

/-- A queue with the message that has been put off. -/
structure Mailbox (M : Type*) where
  blocked : Option M
  retry : Bool
  queue : List M

namespace Mailbox

variable {M : Type*}

def empty : Mailbox M := ⟨none, false, []⟩

/-- The messages that are still to be dealt with, in order. -/
def contents (b : Mailbox M) : List M := b.blocked.toList ++ b.queue

/-- A message may be taken. -/
def isOpen (b : Mailbox M) : Bool := b.blocked.isNone || b.retry

/-- The next message, and the mailbox while it is being dealt with. -/
def take (b : Mailbox M) : Option (M × Mailbox M) :=
  match b.blocked, b.queue with
  | some m, _ => some (m, b)
  | none, [] => none
  | none, m :: q => some (m, { b with queue := q })

/-- The message that was taken has been dealt with, or is put off. -/
def settle (b : Mailbox M) (m : M) (done : Bool) : Mailbox M :=
  if done then { b with blocked := none } else { b with blocked := some m, retry := false }

def arrive (b : Mailbox M) (m : M) : Mailbox M := { b with queue := b.queue ++ [m] }

def allowRetry (b : Mailbox M) : Mailbox M := { b with retry := true }

/-- The message that was put off is waiting for a retry. -/
def Asleep (b : Mailbox M) : Prop := b.blocked ≠ none ∧ b.retry = false

variable {b b' : Mailbox M} {m : M} {done : Bool}

@[simp] theorem contents_arrive (b : Mailbox M) (m : M) :
    (b.arrive m).contents = b.contents ++ [m] := by
  simp [contents, arrive]

@[simp] theorem contents_allowRetry (b : Mailbox M) : b.allowRetry.contents = b.contents := rfl

/-- What is taken is the first of the contents, and behind it is the queue. -/
theorem contents_of_take (h : b.take = some (m, b')) : b.contents = m :: b'.queue := by
  unfold take at h
  split at h
  · rename_i hb
    cases h
    simp [contents, hb]
  · cases h
  · rename_i hb hq
    cases h
    simp [contents, hb, hq]

@[simp] theorem contents_settle_true (b : Mailbox M) (m : M) :
    (b.settle m true).contents = b.queue := by
  simp [contents, settle]

@[simp] theorem contents_settle_false (b : Mailbox M) (m : M) :
    (b.settle m false).contents = m :: b.queue := by
  simp [contents, settle]

@[simp] theorem asleep_arrive (b : Mailbox M) (m : M) : (b.arrive m).Asleep ↔ b.Asleep := Iff.rfl

/-! ## Runs -/

/-- The mailboxes that a reader leaves, with the messages that have arrived and those that
have been dealt with. While a message is being dealt with, a retry may be allowed. -/
inductive Run : Mailbox M → List M → List M → Prop where
  | empty : Run empty [] []
  | arrive {b : Mailbox M} {arrived handled : List M} (m : M) :
      Run b arrived handled → Run (b.arrive m) (arrived ++ [m]) handled
  | allowRetry {b : Mailbox M} {arrived handled : List M} :
      Run b arrived handled → Run b.allowRetry arrived handled
  | take {b b' : Mailbox M} {arrived handled : List M} {m : M} (done retry : Bool) :
      Run b arrived handled → b.take = some (m, b') →
      Run ({ b' with retry := retry }.settle m done) arrived
        (if done then handled ++ [m] else handled)

/-- What has arrived has been dealt with, in order, up to what is left. -/
theorem Run.arrived_eq {arrived handled : List M} (h : Run b arrived handled) :
    arrived = handled ++ b.contents := by
  induction h with
  | empty => rfl
  | arrive m _ ih => simp [ih]
  | allowRetry _ ih => simpa using ih
  | take done retry _ htake ih =>
    rw [contents_of_take htake] at ih
    cases done <;> simp [ih]

end Mailbox
