/-
OvsSgx.Dispatch — a stub through the call table and through the direct call.

Both bodies of a stub are run on the same parameters against the same
enclave, which is an arbitrary function. Scalars live in memory: a read
through a wider type also sees the bytes that follow the variable, and a
store through a narrower type leaves the upper bytes as they were. Each
argument position is compared by itself; the two bodies agree exactly when
there is a case, all positions agree and the value arrives whole.
-/
import OvsSgx.Stubs

namespace OvsSgx

/-! ## Both bodies of a stub -/

/-- The memory that a variable of type `t` with value `v` lives in. -/
def CType.inMemory (t : CType) (v following : Nat) : Nat :=
  v + 2 ^ t.bits * following

/-- `*(t *) p`. -/
def CType.load (t : CType) (m : Nat) : Nat :=
  m % 2 ^ t.bits

/-- `*(t *) p = v`. -/
def CType.store (t : CType) (v m : Nat) : Nat :=
  v % 2 ^ t.bits + 2 ^ t.bits * (m / 2 ^ t.bits)

/-- What a call finds in untrusted memory: the parameters, the bytes that follow each of them,
the bytes of the result variable, and the arrays. -/
structure CallEnv where
  vals : Nat → Nat
  following : Nat → Nat
  stale : Nat
  elem : Nat → Nat → Nat

/-- An argument as the ecall sees it. Of an array that the bridge copies these are the elements
that the ecall reads, `none` beyond the copy. -/
inductive EcallArg where
  | value (v : Nat)
  | pointer (p : Nat)
  | elements (es : List (Option Nat))
deriving DecidableEq, Repr

/-- What a stub hands to its caller. -/
inductive Delivered where
  | nothing
  | value (v : Nat)
  | indeterminate
deriving DecidableEq, Repr

/-- The parameter whose address is in `args[k]`. -/
def StubDecl.addressed (d : StubDecl) (k : Nat) : Option Nat :=
  match (d.args.take d.nArgs)[k]? with
  | some (.addr i) => some i
  | some (.next _ i) => some i
  | _ => none

/-- The pointer parameter in `args[k]`. -/
def StubDecl.pointed (d : StubDecl) (k : Nat) : Option Nat :=
  match (d.args.take d.nArgs)[k]? with
  | some (.ptr i) => some i
  | _ => none

/-- The declared type of parameter `i`. -/
def StubDecl.typeOf (d : StubDecl) (i : Nat) : CType :=
  d.params.getD i .ptr

/-- An argument of `execute_function`, converted to the type of the parameter. Reading a
pointer as a scalar or a scalar as a pointer is left undefined. -/
def StubDecl.hotArg (d : StubDecl) (env : CallEnv) (r : ArgRead) (p : EdlParam) :
    Option EcallArg :=
  match r, p with
  | .deref t k, .val u => do
    let i ← d.addressed k
    return .value (u.load (t.load ((d.typeOf i).inMemory (env.vals i) (env.following i))))
  | .pointer k, .userCheck => do
    let i ← d.pointed k
    return .pointer (env.vals i)
  | .pointer k, .outBuf => do
    let i ← d.pointed k
    return .pointer (env.vals i)
  | .pointer k, .inOne n => do
    let i ← d.pointed k
    return .elements ((List.range (env.vals n)).map (fun j => some (env.elem (env.vals i) j)))
  | _, _ => none

/-- An argument of the direct call, after the bridge. -/
def directArg (env : CallEnv) (i : Nat) (p : EdlParam) : EcallArg :=
  match p with
  | .val u => .value (u.load (env.vals i))
  | .userCheck => .pointer (env.vals i)
  | .outBuf => .pointer (env.vals i)
  | .inOne n => .elements ((List.range (env.vals n)).map
      (fun j => if j < 1 then some (env.elem (env.vals i) j) else none))

/-- All arguments of `execute_function`, against the ecall's parameters. -/
def StubDecl.hotArgs (d : StubDecl) (env : CallEnv) : List ArgRead → List EdlParam →
    Option (List EcallArg)
  | [], [] => some []
  | r :: rs, p :: ps => do
    let a ← d.hotArg env r p
    let as ← d.hotArgs env rs ps
    return a :: as
  | _, _ => none

/-- All arguments of the direct call. -/
def directArgs (env : CallEnv) (is : List Nat) (ps : List EdlParam) : List EcallArg :=
  List.zipWith (directArg env) is ps

/-- What the stub returns once its result variable has been written. -/
def StubDecl.deliver (d : StubDecl) (memory : Nat) : Delivered :=
  match d.returns, d.result with
  | .void, _ => .nothing
  | .value, some t => .value (t.load memory)
  | _, _ => .indeterminate

/-- The enclave: what an ecall with these arguments does to the state, and its value. -/
abbrev EnclaveFn (σ : Type) := Ecall → List EcallArg → σ → σ × Nat

/-- What a stub call did. -/
structure Dispatched (σ : Type) where
  called : Option (Ecall × List EcallArg)
  state : σ
  delivered : Delivered

/-- The value of an ecall in its declared type. -/
def EdlDecl.valueOf (e : EdlDecl) (v : Nat) : Nat :=
  match e.ret with
  | some t => t.load v
  | none => 0

/-- The memory of the result variable after the case. -/
def CallCase.resultMemory (c : CallCase) (v stale : Nat) : Nat :=
  match c.store with
  | some t => t.store v stale
  | none => stale

/-- The `HOTCALL` body: `execute_function` finds the case of the number, calls the ecall and
stores its value. Without a case nothing is called. -/
def SgxStub.hotcall {σ : Type} (st : SgxStub) (env : CallEnv) (enclave : EnclaveFn σ) (s : σ) :
    Option (Dispatched σ) :=
  match findCase st.decl.hcall.hotcallId with
  | none => some ⟨none, s, st.decl.deliver env.stale⟩
  | some c => do
    let args ← st.decl.hotArgs env c.reads c.ecall.edl.params
    let (s', v) := enclave c.ecall args s
    let memory := c.resultMemory (c.ecall.edl.valueOf v) env.stale
    return ⟨some (c.ecall, args), s', st.decl.deliver memory⟩

/-- The direct body. The bridge writes the whole value into the result variable. -/
def SgxStub.direct {σ : Type} (st : SgxStub) (env : CallEnv) (enclave : EnclaveFn σ) (s : σ) :
    Dispatched σ :=
  let args := directArgs env st.decl.ecallArgs st.decl.ecall.edl.params
  let (s', v) := enclave st.decl.ecall args s
  ⟨some (st.decl.ecall, args), s', st.decl.deliver (st.decl.ecall.edl.valueOf v)⟩

/-- The parameters are values of their types. -/
def SgxStub.WellTyped (st : SgxStub) (vals : Nat → Nat) : Prop :=
  ∀ i t, st.decl.params[i]? = some t → vals i < 2 ^ t.bits

/-- Whatever is in memory and whatever the enclave does, both bodies call the same ecall with
the same arguments, leave the enclave in the same state and deliver the same value, and there
is a value if the declaration promises one. -/
def SgxStub.DispatchEquivalent (st : SgxStub) (vals : Nat → Nat) : Prop :=
  ∀ (σ : Type) (enclave : EnclaveFn σ) (s : σ) (env : CallEnv), env.vals = vals →
    st.hotcall env enclave s = some (st.direct env enclave s) ∧
      (st.direct env enclave s).delivered ≠ .indeterminate

/-! ## One position -/

/-- A position of the call agrees: the read sees the value of the parameter that the direct
call passes, and the bridge copies all of an array. -/
def StubDecl.SlotAgrees (d : StubDecl) (vals : Nat → Nat) (r : ArgRead) (i : Nat)
    (p : EdlParam) : Prop :=
  match r, p with
  | .deref t k, .val u => ∃ j, d.addressed k = some j ∧
      (t.bits ≤ (d.typeOf j).bits ∨ u.bits ≤ (d.typeOf j).bits) ∧
      vals j % 2 ^ t.bits % 2 ^ u.bits = vals i % 2 ^ u.bits
  | .pointer k, .userCheck => ∃ j, d.pointed k = some j ∧ vals j = vals i
  | .pointer k, .outBuf => ∃ j, d.pointed k = some j ∧ vals j = vals i
  | .pointer k, .inOne n => ∃ j, d.pointed k = some j ∧
      (vals n = 0 ∨ vals n = 1 ∧ vals j = vals i)
  | _, _ => False

/-- Reading through a type that is not wider than the variable sees nothing else. -/
theorem mod_add_mul_of_le {a b v m : Nat} (h : a ≤ b) : (v + 2 ^ b * m) % 2 ^ a = v % 2 ^ a := by
  obtain ⟨c, rfl⟩ := Nat.exists_eq_add_of_le h
  rw [Nat.pow_add, Nat.mul_assoc, Nat.add_mul_mod_self_left]

/-- Reading through a type that is wider than the variable sees what follows it. -/
theorem mod_add_mul_ne {b a v : Nat} (h : b < a) (hv : v < 2 ^ b) :
    (v + 2 ^ b * 1) % 2 ^ a ≠ v % 2 ^ a := by
  have hle : 2 ^ (b + 1) ≤ 2 ^ a := Nat.pow_le_pow_right (by decide) h
  have hsucc : 2 ^ (b + 1) = 2 ^ b * 2 := Nat.pow_succ ..
  have hpos : 0 < 2 ^ b := by positivity
  rw [Nat.mod_eq_of_lt (by omega), Nat.mod_eq_of_lt (by omega)]
  omega

/-- The value that is read and converted is that of the variable, whatever follows it, exactly
when one of the two types is not wider than the variable. -/
theorem load_inMemory_iff {t u w : CType} {v x : Nat} (hv : v < 2 ^ w.bits) :
    (∀ following, u.load (t.load (w.inMemory v following)) = x) ↔
      (t.bits ≤ w.bits ∨ u.bits ≤ w.bits) ∧ v % 2 ^ t.bits % 2 ^ u.bits = x := by
  simp only [CType.load, CType.inMemory]
  constructor
  · intro h
    have h0 : v % 2 ^ t.bits % 2 ^ u.bits = x := by simpa using h 0
    refine ⟨?_, h0⟩
    by_contra hwide
    rw [not_or, Nat.not_le, Nat.not_le] at hwide
    have h1 : (v + 2 ^ w.bits * 1) % 2 ^ t.bits % 2 ^ u.bits
        = v % 2 ^ t.bits % 2 ^ u.bits := (h 1).trans h0.symm
    rcases Nat.le_total t.bits u.bits with hle | hle
    · have hpow : 2 ^ t.bits ≤ 2 ^ u.bits := Nat.pow_le_pow_right (by decide) hle
      have hlt : ∀ n, n % 2 ^ t.bits < 2 ^ u.bits := fun n =>
        Nat.lt_of_lt_of_le (Nat.mod_lt _ (by positivity)) hpow
      rw [Nat.mod_eq_of_lt (hlt _), Nat.mod_eq_of_lt (hlt _)] at h1
      exact mod_add_mul_ne hwide.1 hv h1
    · have hdvd : 2 ^ u.bits ∣ 2 ^ t.bits := Nat.pow_dvd_pow 2 hle
      rw [Nat.mod_mod_of_dvd _ hdvd, Nat.mod_mod_of_dvd _ hdvd] at h1
      exact mod_add_mul_ne hwide.2 hv h1
  · rintro ⟨hle | hle, rfl⟩ following
    · rw [mod_add_mul_of_le hle]
    · rcases Nat.le_total t.bits u.bits with htu | htu
      · rw [mod_add_mul_of_le (htu.trans hle)]
      · have hdvd : 2 ^ u.bits ∣ 2 ^ t.bits := Nat.pow_dvd_pow 2 htu
        rw [Nat.mod_mod_of_dvd _ hdvd, Nat.mod_mod_of_dvd _ hdvd, mod_add_mul_of_le hle]

/-- The elements are the same in both builds only if the array has at most one. -/
theorem elements_iff {n a b : Nat} :
    (∀ elem : Nat → Nat → Nat, (List.range n).map (fun j => some (elem a j))
        = (List.range n).map (fun j => if j < 1 then some (elem b j) else none)) ↔
      n = 0 ∨ n = 1 ∧ a = b := by
  constructor
  · intro h
    have hat : ∀ (elem : Nat → Nat → Nat) (j : Nat), j < n →
        some (elem a j) = if j < 1 then some (elem b j) else none := by
      intro elem j hj
      have := congrArg (fun l => l[j]?) (h elem)
      simpa [List.getElem?_range hj] using this
    rcases Nat.lt_trichotomy n 1 with hlt | heq | hgt
    · exact .inl (by omega)
    · have h0 := hat (fun p _ => p) 0 (by omega)
      exact .inr ⟨heq, by simpa using h0⟩
    · have h1 := hat (fun _ _ => 0) 1 hgt
      simp at h1
  · rintro (rfl | ⟨rfl, rfl⟩) elem
    · rfl
    · rfl

variable {d : StubDecl} {vals : Nat → Nat}

/-- The parameters that a stub passes by address are values of their types. -/
def StubDecl.AddressedFit (d : StubDecl) (vals : Nat → Nat) : Prop :=
  ∀ k j, d.addressed k = some j → vals j < 2 ^ (d.typeOf j).bits

theorem slotAgrees_iff (hd : d.AddressedFit vals) (r : ArgRead) (i : Nat) (p : EdlParam) :
    (∀ env : CallEnv, env.vals = vals → d.hotArg env r p = some (directArg env i p)) ↔
      d.SlotAgrees vals r i p := by
  -- an undefined read agrees with nothing, because some memory has these parameters
  have hnever : ∀ a : CallEnv → EcallArg, ¬ ∀ env : CallEnv, env.vals = vals →
      (none : Option EcallArg) = some (a env) := by
    intro a h
    cases h ⟨vals, fun _ => 0, 0, fun _ _ => 0⟩ rfl
  have hpointer : ∀ k, (∀ env : CallEnv, env.vals = vals →
      (do let j ← d.pointed k; return .pointer (env.vals j)) = some (EcallArg.pointer (env.vals i)))
      ↔ ∃ j, d.pointed k = some j ∧ vals j = vals i := by
    intro k
    cases hj : d.pointed k with
    | none => exact iff_of_false (hnever _) (by simp)
    | some j =>
      constructor
      · intro h
        simpa using h ⟨vals, fun _ => 0, 0, fun _ _ => 0⟩ rfl
      · rintro hval env rfl
        simpa using hval
  cases r with
  | deref t k =>
    cases p with
    | val u =>
      simp only [StubDecl.hotArg, directArg, StubDecl.SlotAgrees]
      cases hj : d.addressed k with
      | none => exact iff_of_false (hnever _) (by simp)
      | some j =>
        have hiff := load_inMemory_iff (t := t) (u := u) (x := u.load (vals i)) (hd k j hj)
        simp only [Option.bind_eq_bind, Option.bind_some, Option.pure_def, Option.some.injEq,
          EcallArg.value.injEq, exists_eq_left']
        rw [← CType.load.eq_1 u (vals i), ← hiff]
        constructor
        · exact fun h following => h ⟨vals, fun _ => following, 0, fun _ _ => 0⟩ rfl
        · rintro h env rfl
          exact h _
    | userCheck =>
      exact iff_of_false (hnever _) id
    | inOne n =>
      exact iff_of_false (hnever _) id
    | outBuf =>
      exact iff_of_false (hnever _) id
  | pointer k =>
    cases p with
    | val u =>
      exact iff_of_false (hnever _) id
    | userCheck => exact hpointer k
    | outBuf => exact hpointer k
    | inOne n =>
      simp only [StubDecl.hotArg, directArg, StubDecl.SlotAgrees]
      cases hj : d.pointed k with
      | none => exact iff_of_false (hnever _) (by simp)
      | some j =>
        simp only [Option.bind_eq_bind, Option.bind_some, Option.pure_def, Option.some.injEq,
          EcallArg.elements.injEq, exists_eq_left']
        rw [← elements_iff]
        constructor
        · exact fun h elem => h ⟨vals, fun _ => 0, 0, elem⟩ rfl
        · rintro h env rfl
          exact h env.elem

/-! ## All positions -/

/-- All positions of the call agree. -/
def StubDecl.SlotsAgree (d : StubDecl) (vals : Nat → Nat) : List ArgRead → List Nat →
    List EdlParam → Prop
  | [], [], [] => True
  | r :: rs, i :: is, p :: ps => d.SlotAgrees vals r i p ∧ d.SlotsAgree vals rs is ps
  | _, _, _ => False

theorem slotsAgree_iff (hd : d.AddressedFit vals) (rs : List ArgRead) (is : List Nat)
    (ps : List EdlParam) (hlen : is.length = ps.length) :
    (∀ env : CallEnv, env.vals = vals → d.hotArgs env rs ps = some (directArgs env is ps)) ↔
      d.SlotsAgree vals rs is ps := by
  induction ps generalizing rs is with
  | nil =>
    obtain rfl : is = [] := List.length_eq_zero_iff.mp hlen
    cases rs with
    | nil => simp [StubDecl.hotArgs, directArgs, StubDecl.SlotsAgree]
    | cons r rs =>
      refine iff_of_false (fun h => ?_) id
      cases h ⟨vals, fun _ => 0, 0, fun _ _ => 0⟩ rfl
  | cons p ps ih =>
    obtain ⟨i, is, rfl⟩ := List.exists_cons_of_length_eq_add_one hlen
    cases rs with
    | nil =>
      refine iff_of_false (fun h => ?_) id
      cases h ⟨vals, fun _ => 0, 0, fun _ _ => 0⟩ rfl
    | cons r rs =>
      have hstep : ∀ env : CallEnv,
          d.hotArgs env (r :: rs) (p :: ps) = some (directArgs env (i :: is) (p :: ps)) ↔
            d.hotArg env r p = some (directArg env i p) ∧
              d.hotArgs env rs ps = some (directArgs env is ps) := by
        intro env
        simp [StubDecl.hotArgs, directArgs, Option.bind_eq_some_iff]
      simp only [hstep, StubDecl.SlotsAgree, ← slotAgrees_iff hd,
        ← ih rs is (Nat.succ.inj hlen), forall_and]

/-! ## The value -/

/-- The value arrives whole: it is stored through a type that is not narrower than the result
variable. -/
def StubDecl.valueAgrees (d : StubDecl) (c : CallCase) : Bool :=
  match d.returns, d.result, c.store with
  | .void, _, _ => true
  | .value, some t, some u => t.bits ≤ u.bits
  | _, _, _ => false

theorem CType.bits_pos (t : CType) : 0 < t.bits := by
  cases t <;> decide

@[simp] theorem EdlDecl.valueOf_zero (e : EdlDecl) : e.valueOf 0 = 0 := by
  unfold EdlDecl.valueOf
  cases e.ret <;> simp [CType.load]

theorem valueAgrees_iff (c : CallCase) (e : EdlDecl) :
    (∀ v stale, d.deliver (c.resultMemory (e.valueOf v) stale) = d.deliver (e.valueOf v) ∧
        d.deliver (e.valueOf v) ≠ .indeterminate) ↔
      d.valueAgrees c = true := by
  unfold StubDecl.deliver StubDecl.valueAgrees CallCase.resultMemory
  cases d.returns with
  | void => simp
  | missing => simp
  | value =>
    cases d.result with
    | none => simp
    | some t =>
      have ht : 1 < 2 ^ t.bits := Nat.one_lt_two_pow t.bits_pos.ne'
      cases c.store with
      | none =>
        refine iff_of_false (fun h => ?_) Bool.false_ne_true
        have h1 := (h 0 1).1
        simp [CType.load, Nat.mod_eq_of_lt ht] at h1
      | some u =>
        simp only [CType.load, CType.store, ne_eq, reduceCtorEq, not_false_eq_true, and_true,
          Delivered.value.injEq, decide_eq_true_eq]
        constructor
        · intro h
          by_contra hnarrow
          rw [Nat.not_le] at hnarrow
          -- the bytes above the store keep the old value `2 ^ u.bits`
          have h1 := h 0 (2 ^ u.bits)
          rw [e.valueOf_zero, Nat.zero_mod, Nat.zero_add, Nat.div_self (by positivity),
            Nat.mul_one, Nat.mod_eq_of_lt (Nat.pow_lt_pow_right (by decide) hnarrow),
            Nat.zero_mod] at h1
          exact absurd h1 (by positivity)
        · intro hle v stale
          rw [mod_add_mul_of_le hle, Nat.mod_mod_of_dvd _ (Nat.pow_dvd_pow 2 hle)]

/-! ## The whole call -/

/-- There is a case for the number that the stub issues, it is that of the ecall of the direct
body, and arguments and value agree. -/
def StubDecl.CaseAgrees (d : StubDecl) (vals : Nat → Nat) (c : CallCase) : Prop :=
  c.ecall = d.ecall ∧ d.SlotsAgree vals c.reads d.ecallArgs c.ecall.edl.params ∧
    d.valueAgrees c = true

theorem SgxStub.hotcall_of_case {σ : Type} {st : SgxStub} {c : CallCase}
    (hc : findCase st.decl.hcall.hotcallId = some c) (env : CallEnv) (enclave : EnclaveFn σ)
    (s : σ) :
    st.hotcall env enclave s =
      (st.decl.hotArgs env c.reads c.ecall.edl.params).map (fun args =>
        ⟨some (c.ecall, args), (enclave c.ecall args s).1,
          st.decl.deliver (c.resultMemory (c.ecall.edl.valueOf (enclave c.ecall args s).2)
            env.stale)⟩) := by
  unfold SgxStub.hotcall
  rw [hc]
  dsimp only
  cases st.decl.hotArgs env c.reads c.ecall.edl.params <;> rfl

/-- Both bodies of a stub agree exactly when its case agrees. -/
theorem SgxStub.dispatchEquivalent_iff_case {st : SgxStub} (hd : st.decl.AddressedFit vals)
    (hlen : st.decl.ecallArgs.length = st.decl.ecall.edl.params.length) :
    st.DispatchEquivalent vals ↔
      ∃ c, findCase st.decl.hcall.hotcallId = some c ∧ st.decl.CaseAgrees vals c := by
  constructor
  · intro h
    cases hc : findCase st.decl.hcall.hotcallId with
    | none =>
      have h0 := (h Unit (fun _ _ s => (s, 0)) () ⟨vals, fun _ => 0, 0, fun _ _ => 0⟩ rfl).1
      simp [SgxStub.hotcall, SgxStub.direct, hc] at h0
    | some c =>
      -- an enclave that returns `v`, in any memory
      have hv : ∀ (v : Nat) (env : CallEnv), env.vals = vals →
          c.ecall = st.decl.ecall ∧
          st.decl.hotArgs env c.reads c.ecall.edl.params
            = some (directArgs env st.decl.ecallArgs st.decl.ecall.edl.params) ∧
          st.decl.deliver (c.resultMemory (c.ecall.edl.valueOf v) env.stale)
            = st.decl.deliver (st.decl.ecall.edl.valueOf v) ∧
          st.decl.deliver (st.decl.ecall.edl.valueOf v) ≠ .indeterminate := by
        intro v env henv
        obtain ⟨heq, hdet⟩ := h Unit (fun _ _ s => (s, v)) () env henv
        rw [SgxStub.hotcall_of_case hc, Option.map_eq_some_iff] at heq
        obtain ⟨args, hargs, hout⟩ := heq
        simp only [SgxStub.direct, Dispatched.mk.injEq, Option.some.injEq, Prod.mk.injEq] at hout
        obtain ⟨⟨hecall, rfl⟩, -, hdel⟩ := hout
        exact ⟨hecall, hargs, hdel, hdet⟩
      have hecall := (hv 0 ⟨vals, fun _ => 0, 0, fun _ _ => 0⟩ rfl).1
      refine ⟨c, rfl, hecall, ?_, ?_⟩
      · rw [← slotsAgree_iff hd _ _ _ (hecall ▸ hlen)]
        intro env henv
        rw [(hv 0 env henv).2.1, hecall]
      · rw [← valueAgrees_iff c c.ecall.edl]
        intro v stale
        have := (hv v ⟨vals, fun _ => 0, stale, fun _ _ => 0⟩ rfl).2.2
        rwa [← hecall] at this
  · rintro ⟨c, hc, hecall, hslots, hvalue⟩ σ enclave s env henv
    have hargs := (slotsAgree_iff hd _ _ _ (hecall ▸ hlen)).mpr hslots env henv
    have hval := (valueAgrees_iff c c.ecall.edl).mpr hvalue
    rw [SgxStub.hotcall_of_case hc, hargs, Option.map_some, SgxStub.direct, ← hecall]
    exact ⟨by rw [(hval _ _).1], (hval _ env.stale).2⟩

/-! ## The stubs -/

/-- A position agrees for all values. -/
def StubDecl.slotUniform (d : StubDecl) (r : ArgRead) (i : Nat) (p : EdlParam) : Bool :=
  match r, p with
  | .deref t k, .val u =>
    d.addressed k == some i &&
      (t.bits ≤ (d.typeOf i).bits || u.bits ≤ (d.typeOf i).bits) &&
      ((d.typeOf i).bits ≤ t.bits || u.bits ≤ t.bits)
  | .pointer k, .userCheck => d.pointed k == some i
  | .pointer k, .outBuf => d.pointed k == some i
  | _, _ => false

/-- All positions agree for all values. -/
def StubDecl.slotsUniform (d : StubDecl) : List ArgRead → List Nat → List EdlParam → Bool
  | [], [], [] => true
  | r :: rs, i :: is, p :: ps => d.slotUniform r i p && d.slotsUniform rs is ps
  | _, _, _ => false

theorem slotAgrees_of_uniform (hd : d.AddressedFit vals) {r : ArgRead} {i : Nat} {p : EdlParam}
    (h : d.slotUniform r i p = true) : d.SlotAgrees vals r i p := by
  cases r with
  | deref t k =>
    cases p with
    | val u =>
      simp only [StubDecl.slotUniform, Bool.and_eq_true, Bool.or_eq_true, beq_iff_eq,
        decide_eq_true_eq] at h
      obtain ⟨⟨hk, hnarrow⟩, hwide⟩ := h
      refine ⟨i, hk, hnarrow, ?_⟩
      rcases hwide with hle | hle
      · have hlt := Nat.lt_of_lt_of_le (hd k i hk) (Nat.pow_le_pow_right (by decide) hle)
        rw [Nat.mod_eq_of_lt hlt]
      · rw [Nat.mod_mod_of_dvd _ (Nat.pow_dvd_pow 2 hle)]
    | userCheck => cases h
    | inOne n => cases h
    | outBuf => cases h
  | pointer k =>
    cases p with
    | val u => cases h
    | userCheck => exact ⟨i, by simpa [StubDecl.slotUniform] using h, rfl⟩
    | inOne n => cases h
    | outBuf => exact ⟨i, by simpa [StubDecl.slotUniform] using h, rfl⟩

theorem slotsAgree_of_uniform (hd : d.AddressedFit vals) {rs : List ArgRead} {is : List Nat}
    {ps : List EdlParam} (h : d.slotsUniform rs is ps = true) : d.SlotsAgree vals rs is ps := by
  induction rs generalizing is ps with
  | nil =>
    cases is with
    | nil =>
      cases ps with
      | nil => trivial
      | cons p ps => cases h
    | cons i is => cases h
  | cons r rs ih =>
    cases is with
    | nil => cases h
    | cons i is =>
      cases ps with
      | nil => cases h
      | cons p ps =>
        obtain ⟨hslot, hrest⟩ := (Bool.and_eq_true _ _).mp h
        exact ⟨slotAgrees_of_uniform hd hslot, ih hrest⟩

/-- Every parameter that is passed by address exists. -/
def StubDecl.addressesExist (d : StubDecl) : Bool :=
  d.args.all (fun a =>
    match a with
    | .addr i => i < d.params.length
    | .next _ i => i < d.params.length
    | .ptr _ => true)

theorem SgxStub.addressesExist (st : SgxStub) : st.decl.addressesExist = true := by
  cases st <;> rfl

theorem SgxStub.ecallArgs_length (st : SgxStub) :
    st.decl.ecallArgs.length = st.decl.ecall.edl.params.length := by
  cases st <;> rfl

theorem SgxStub.WellTyped.addressedFit {st : SgxStub} (hv : st.WellTyped vals) :
    st.decl.AddressedFit vals := by
  intro k j hj
  have hlt : j < st.decl.params.length := by
    have hall := List.all_eq_true.mp st.addressesExist
    unfold StubDecl.addressed at hj
    split at hj
    · rename_i i hk
      cases hj
      simpa using hall _ (List.mem_of_mem_take (List.mem_of_getElem? hk))
    · rename_i t i hk
      cases hj
      simpa using hall _ (List.mem_of_mem_take (List.mem_of_getElem? hk))
    · cases hj
  have hget : st.decl.params[j]? = some (st.decl.typeOf j) := by
    simp [StubDecl.typeOf, hlt]
  exact hv j _ hget

/-- There is a case, and it agrees for all values. -/
def SgxStub.uniform (st : SgxStub) : Bool :=
  match findCase st.decl.hcall.hotcallId with
  | none => false
  | some c => c.ecall == st.decl.ecall &&
      st.decl.slotsUniform c.reads st.decl.ecallArgs c.ecall.edl.params &&
      st.decl.valueAgrees c

/-- There is no case, or it does not deliver the value. -/
def SgxStub.valueLost (st : SgxStub) : Bool :=
  match findCase st.decl.hcall.hotcallId with
  | none => true
  | some c => !st.decl.valueAgrees c

theorem SgxStub.WellTyped.equivalent_of_uniform {st : SgxStub} (hv : st.WellTyped vals)
    (h : st.uniform = true) : st.DispatchEquivalent vals := by
  rw [SgxStub.dispatchEquivalent_iff_case hv.addressedFit st.ecallArgs_length]
  unfold SgxStub.uniform at h
  split at h
  · cases h
  · rename_i c hc
    simp only [Bool.and_eq_true, beq_iff_eq] at h
    exact ⟨c, hc, h.1.1, slotsAgree_of_uniform hv.addressedFit h.1.2, h.2⟩

theorem SgxStub.WellTyped.not_equivalent_of_valueLost {st : SgxStub} (hv : st.WellTyped vals)
    (h : st.valueLost = true) : ¬ st.DispatchEquivalent vals := by
  rw [SgxStub.dispatchEquivalent_iff_case hv.addressedFit st.ecallArgs_length]
  rintro ⟨c, hc, -, -, hvalue⟩
  simp [SgxStub.valueLost, hc, hvalue] at h

/-- A stub whose parameter 1 is an `int` that the call table reads as a `uint8_t`. -/
theorem SgxStub.WellTyped.equivalent_iff_narrow {st : SgxStub} (hv : st.WellTyped vals)
    {c : CallCase} (hc : findCase st.decl.hcall.hotcallId = some c)
    (hecall : c.ecall = st.decl.ecall) (hvalue : st.decl.valueAgrees c = true)
    {r : ArgRead} {rs : List ArgRead} {is : List Nat} {p : EdlParam} {ps : List EdlParam}
    (hreads : c.reads = r :: .deref .uint8 1 :: rs) (hargs : st.decl.ecallArgs = 0 :: 1 :: is)
    (hparams : c.ecall.edl.params = p :: .val .int :: ps)
    (haddr : st.decl.addressed 1 = some 1) (htype : st.decl.params[1]? = some .int)
    (hfirst : st.decl.slotUniform r 0 p = true) (hrest : st.decl.slotsUniform rs is ps = true) :
    st.DispatchEquivalent vals ↔ vals 1 < 256 := by
  have hlt : vals 1 < 2 ^ 32 := hv 1 .int htype
  have htypeOf : st.decl.typeOf 1 = .int := by
    simp [StubDecl.typeOf, List.getD_eq_getElem?_getD, htype]
  rw [SgxStub.dispatchEquivalent_iff_case hv.addressedFit st.ecallArgs_length]
  simp only [hc, Option.some.injEq, exists_eq_left', StubDecl.CaseAgrees, hecall, hvalue,
    true_and, and_true]
  rw [← hecall, hreads, hargs, hparams]
  simp only [StubDecl.SlotsAgree, slotAgrees_of_uniform hv.addressedFit hfirst,
    slotsAgree_of_uniform hv.addressedFit hrest, true_and, and_true]
  simp only [StubDecl.SlotAgrees, haddr, htypeOf, Option.some.injEq, exists_eq_left', CType.bits]
  omega

/-- The one stub with an `[in]` array. -/
theorem SgxStub.WellTyped.equivalent_iff_copied
    (hv : SgxStub.oftableEnableEviction.WellTyped vals) :
    SgxStub.oftableEnableEviction.DispatchEquivalent vals ↔ vals 3 ≤ 1 := by
  have hcase : findCase SgxStub.oftableEnableEviction.decl.hcall.hotcallId
      = some ⟨.oftableEnableEviction, [.deref .uint8 0, .deref .uint8 1, .pointer 2,
          .deref .sizeT 3, .deref .uint32 4, .pointer 5], none⟩ := rfl
  have hrest : SgxStub.oftableEnableEviction.decl.SlotsAgree vals
      [.deref .sizeT 3, .deref .uint32 4, .pointer 5] [3, 4, 5]
      [.val .sizeT, .val .uint32, .userCheck] := slotsAgree_of_uniform hv.addressedFit rfl
  have h0 : SgxStub.oftableEnableEviction.decl.SlotAgrees vals (.deref .uint8 0) 0 (.val .uint8) :=
    slotAgrees_of_uniform hv.addressedFit rfl
  have h1 : SgxStub.oftableEnableEviction.decl.SlotAgrees vals (.deref .uint8 1) 1 (.val .uint8) :=
    slotAgrees_of_uniform hv.addressedFit rfl
  rw [SgxStub.dispatchEquivalent_iff_case hv.addressedFit (SgxStub.ecallArgs_length _), hcase]
  simp only [Option.some.injEq, exists_eq_left']
  constructor
  · rintro ⟨-, ⟨-, -, ⟨j, -, hn⟩, -⟩, -⟩
    omega
  · intro hn
    exact ⟨rfl, ⟨h0, h1, ⟨2, rfl, by omega⟩, hrest⟩, rfl⟩

/-- The stub meets the call table: there is a case, the number of tables is not cut to eight
bits, the array that the bridge copies has at most one element, and the value is stored in its
full width and returned. -/
def SgxStub.MeetsTable (vals : Nat → Nat) : SgxStub → Prop
  -- no case in `execute_function`
  | .clsRulesFormat => False
  -- the value is not stored, or there is no `return`
  | .miniflowExpandAndTag | .getClsRules => False
  -- a `size_t` is stored through an `int *`
  | .collectRulesLooseC | .collectRulesStrictC | .oftableEnableEvictionC
  | .collectOfmonitorUtilC | .flushC | .flowStatsC | .dpifDestroyC | .ofprotoGetVlanUsageC => False
  -- `n_tables` is an `int` and read as a `uint8_t`
  | .collectRulesLooseR | .collectRulesStrictR | .collectOfmonitorUtilR
  | .ofprotoEvict => vals 1 < 256
  -- `fields` is declared `[in]` without a size
  | .oftableEnableEviction => vals 3 ≤ 1
  | _ => True

/-- The two bodies of a stub agree exactly when the stub meets the call table. -/
theorem dispatchEquivalent_iff (st : SgxStub) (vals : Nat → Nat) (hv : st.WellTyped vals) :
    st.DispatchEquivalent vals ↔ st.MeetsTable vals := by
  cases st
  case clsRulesFormat | miniflowExpandAndTag | getClsRules | collectRulesLooseC |
      collectRulesStrictC | oftableEnableEvictionC | collectOfmonitorUtilC | flushC | flowStatsC |
      dpifDestroyC | ofprotoGetVlanUsageC =>
    exact iff_of_false (hv.not_equivalent_of_valueLost rfl) id
  case collectRulesLooseR | collectRulesStrictR | collectOfmonitorUtilR | ofprotoEvict =>
    exact hv.equivalent_iff_narrow rfl rfl rfl rfl rfl rfl rfl rfl rfl rfl
  case oftableEnableEviction => exact hv.equivalent_iff_copied
  all_goals exact iff_of_true (hv.equivalent_of_uniform rfl) trivial

theorem threes_wellTyped (st : SgxStub) : st.WellTyped (fun _ => 3) := by
  intro i t _
  show 3 < 2 ^ t.bits
  cases t <;> decide

theorem ofprotoEvict_dispatched :
    SgxStub.ofprotoEvict.WellTyped (fun _ => 3) ∧
      SgxStub.ofprotoEvict.DispatchEquivalent (fun _ => 3) :=
  ⟨threes_wellTyped _,
    (dispatchEquivalent_iff .ofprotoEvict (fun _ => 3) (threes_wellTyped _)).mpr
      (by show 3 < 256; decide)⟩

/-- `SGX_cls_rules_format` issues a number that no case has. -/
theorem clsRulesFormat_not_dispatched :
    findCase SgxStub.clsRulesFormat.decl.hcall.hotcallId = none ∧
      ¬ ∀ (st : SgxStub) (vals : Nat → Nat), st.WellTyped vals → st.DispatchEquivalent vals := by
  refine ⟨rfl, fun h => ?_⟩
  have hv := threes_wellTyped .clsRulesFormat
  exact hv.not_equivalent_of_valueLost rfl (h .clsRulesFormat _ hv)

end OvsSgx
