/-
OvsSgx.Lib.PointerChain — singly linked lists of nodes in memory.

`next` is the link of every node. `Chain next p l` says that from the
pointer `p` the links lead through exactly the nodes of `l` to a null
pointer. Loops that follow links are given a number of steps and have no
result when it does not do; for a chain they need no more steps than it has
nodes.

A chain depends on the links of its own nodes only, so a write to another
node leaves it alone (`Chain.congr`, `Chain.update`).
-/
import Mathlib.Data.List.Basic
import Mathlib.Data.List.Nodup
import Mathlib.Logic.Function.Basic
import Mathlib.Tactic

namespace PointerChain

variable {α : Type} {next next' : α → Option α} {p : Option α} {l A B : List α} {x a : α}

/-- From `p` the links lead through the nodes of the list to a null pointer. -/
def Chain (next : α → Option α) : Option α → List α → Prop
  | p, [] => p = none
  | p, x :: l => p = some x ∧ Chain next (next x) l

@[simp] theorem chain_nil : Chain next p [] ↔ p = none := Iff.rfl

@[simp] theorem chain_cons : Chain next p (x :: l) ↔ p = some x ∧ Chain next (next x) l := Iff.rfl

/-- Only the links of the chain's own nodes matter. -/
theorem Chain.congr (h : Chain next p l) (hsame : ∀ x ∈ l, next' x = next x) : Chain next' p l := by
  induction l generalizing p with
  | nil => exact h
  | cons x l ih =>
    refine ⟨h.1, ?_⟩
    rw [hsame x (List.mem_cons_self ..)]
    exact ih h.2 fun y hy => hsame y (List.mem_cons_of_mem _ hy)

/-- The end of a chain is the chain of its last nodes. -/
theorem Chain.tail (h : Chain next p (A ++ x :: B)) : Chain next (next x) B := by
  induction A generalizing p with
  | nil => exact h.2
  | cons a A ih => exact ih h.2

section Update

variable [DecidableEq α]

/-- A write to a node outside the chain. -/
theorem Chain.update {q : Option α} (h : Chain next p l) (hx : x ∉ l) :
    Chain (Function.update next x q) p l :=
  h.congr fun _ hy => Function.update_of_ne (ne_of_mem_of_not_mem hy hx) q next

/-- A node that is linked before the chain. -/
theorem Chain.push (h : Chain next p l) (hx : x ∉ l) :
    Chain (Function.update next x p) (some x) (x :: l) := by
  refine ⟨rfl, ?_⟩
  rw [Function.update_self]
  exact h.update hx

/-- A node that is linked past. -/
theorem Chain.bypass (h : Chain next p (A ++ a :: x :: B)) (hnodup : (A ++ a :: x :: B).Nodup) :
    Chain (Function.update next a (next x)) p (A ++ a :: B) := by
  induction A generalizing p with
  | nil =>
    rw [List.nil_append, List.nodup_cons, List.mem_cons, not_or] at hnodup
    refine ⟨h.1, ?_⟩
    rw [Function.update_self]
    exact h.2.2.update hnodup.1.2
  | cons b A ih =>
    rw [List.cons_append, List.nodup_cons] at hnodup
    refine ⟨h.1, ?_⟩
    have hba : b ≠ a := fun heq => hnodup.1 (by simp [heq])
    rw [Function.update_of_ne hba]
    exact ih h.2 hnodup.2

end Update

/-! ## Searching for a node with a property -/

/-- The first node at or after `p` with property `f`; the number of steps is limited. -/
def seek (next : α → Option α) (f : α → Bool) : Nat → Option α → Option (Option α)
  | _, none => some none
  | 0, some _ => none
  | fuel + 1, some x => if f x then some (some x) else seek next f fuel (next x)

theorem Chain.seek_eq {f : α → Bool} {fuel : Nat} (h : Chain next p l) (hfuel : l.length ≤ fuel) :
    seek next f fuel p = some (l.find? f) := by
  induction l generalizing p fuel with
  | nil => rw [h, seek, List.find?_nil]
  | cons x l ih =>
    obtain ⟨fuel, rfl⟩ : ∃ k, fuel = k + 1 := ⟨fuel - 1, by rw [List.length_cons] at hfuel; omega⟩
    rw [h.1, seek, List.find?_cons]
    cases f x with
    | true => rfl
    | false => exact ih h.2 (by simpa using hfuel)

/-- The nodes that a loop visits which goes on to the next node with property `f`, from a first
one. Both the loop and each search are limited. -/
def visit (next : α → Option α) (f : α → Bool) (fuel : Nat) : Nat → Option α → Option (List α)
  | _, none => some []
  | 0, some _ => none
  | steps + 1, some x => do
    let p ← seek next f fuel (next x)
    let l ← visit next f fuel steps p
    return x :: l

/-- Such a loop visits the nodes with the property, each once. -/
theorem Chain.visit_eq {f : α → Bool} {fuel steps : Nat} (h : Chain next p l)
    (hfuel : l.length ≤ fuel) (hsteps : l.length ≤ steps) :
    (seek next f fuel p).bind (visit next f fuel steps) = some (l.filter f) := by
  induction l generalizing p steps with
  | nil =>
    rw [h.seek_eq hfuel, List.find?_nil, Option.bind_some, visit, List.filter_nil]
  | cons x l ih =>
    obtain ⟨steps, rfl⟩ : ∃ k, steps = k + 1 := ⟨steps - 1, by rw [List.length_cons] at hsteps; omega⟩
    have hlen : l.length ≤ fuel := Nat.le_trans (Nat.le_succ _) hfuel
    rw [h.seek_eq hfuel, List.find?_cons, List.filter_cons]
    cases f x with
    | true =>
      have hrest : (seek next f fuel (next x)).bind (visit next f fuel steps)
          = some (l.filter f) := ih h.2 hlen (by simpa using hsteps)
      rw [h.2.seek_eq hlen, Option.bind_some] at hrest
      dsimp only
      rw [Option.bind_some, visit, h.2.seek_eq hlen, Option.bind_eq_bind,
        Option.bind_some, hrest]
      rfl
    | false =>
      have hrest : (seek next f fuel (next x)).bind (visit next f fuel (steps + 1))
          = some (l.filter f) := ih h.2 hlen (Nat.le_trans (Nat.le_succ _) hsteps)
      rw [h.2.seek_eq hlen] at hrest
      simpa using hrest

/-! ## Searching for the link to a node -/

/-- A place where a pointer of the chain is stored. -/
inductive Link (α : Type) where
  | head
  | next (x : α)
deriving DecidableEq

/-- The pointer at a place; `head` is the one before the chain. -/
def Link.read (next : α → Option α) (head : Option α) : Link α → Option α
  | .head => head
  | .next x => next x

/-- The place with the pointer to `x`, searched from a place onwards; a null pointer is not
followed. -/
def findLink [DecidableEq α] (next : α → Option α) (head : Option α) (x : α) :
    Nat → Link α → Option (Link α)
  | 0, _ => none
  | fuel + 1, at' =>
    match at'.read next head with
    | none => none
    | some y => if y = x then some at' else findLink next head x fuel (.next y)

/-- The place of the last node of `A` or, if there is none, the place before. -/
def Link.after (at' : Link α) : List α → Link α
  | [] => at'
  | a :: A => Link.after (.next a) A

theorem Link.after_concat (at' : Link α) : at'.after (A ++ [a]) = .next a := by
  induction A generalizing at' with
  | nil => rfl
  | cons b A ih => exact ih _

theorem Chain.findLink_eq [DecidableEq α] {head : Option α} {at' : Link α} {fuel : Nat}
    (h : Chain next (at'.read next head) (A ++ x :: B)) (hx : x ∉ A) (hfuel : A.length < fuel) :
    findLink next head x fuel at' = some (at'.after A) := by
  induction A generalizing at' fuel with
  | nil =>
    obtain ⟨fuel, rfl⟩ : ∃ k, fuel = k + 1 := ⟨fuel - 1, by omega⟩
    rw [findLink, h.1]
    simp [Link.after]
  | cons a A ih =>
    obtain ⟨fuel, rfl⟩ : ∃ k, fuel = k + 1 := ⟨fuel - 1, by omega⟩
    have hax : a ≠ x := fun heq => hx (heq ▸ List.mem_cons_self ..)
    rw [findLink, h.1]
    dsimp only
    rw [if_neg hax]
    have hrest : Chain next ((Link.next a).read next head) (A ++ x :: B) := h.2
    exact ih hrest (fun hmem => hx (List.mem_cons_of_mem _ hmem)) (by simpa using hfuel)

end PointerChain
