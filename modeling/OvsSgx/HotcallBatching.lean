/-
OvsSgx.HotcallBatching — asynchronous stubs, batched and unbatched.

With `BATCHING` an asynchronous stub leaves its call in the queue; the next
synchronous stub has the poller execute all of them. The scalars of a
waiting call are in rings of 20 cells, one ring for each type, and what its
pointers point to stays in the caller's memory: the match or name that a call
is given, and the bytes at a rule that the poller hashes when it takes the
rule's entries out of the flow cache. A run is compared with the run in which
every call is executed at once. The two agree as long as no slot, cell or
memory that a waiting call refers to is given another value.
-/
import OvsSgx.Hotcall
import OvsSgx.Stubs

namespace OvsSgx

/-! ## The rings of scalars -/

/-- `pfc.uint8_ts`, `pfc.unsigned_ts` and so on, with the positions `pfc.idx_uint8` and so
on. -/
structure Cells where
  cell : CType → Nat → Nat
  idx : CType → Nat

/-- `next_uint8`, `next_unsigned`, `next_uint32` and `next_heapnode`: the position of the cell
that receives `v`. -/
def Cells.next (c : Cells) (t : CType) (v : Nat) : Nat × Cells :=
  let i := if c.idx t = nFcalls then 0 else c.idx t
  (i, { cell := Function.update c.cell t (Function.update (c.cell t) i v)
        idx := Function.update c.idx t (i + 1) })

/-- An argument of a call record: the address of a parameter of a stub that waits for the
call, the address of a cell, or a pointer. -/
inductive ArgRef where
  | onStack (v : Nat)
  | cell (t : CType) (k : Nat)
  | pointer (p : Nat)
deriving DecidableEq, Repr

/-- The value that is found through an argument. -/
def Cells.resolve (c : Cells) : ArgRef → Nat
  | .onStack v => v
  | .cell t k => c.cell t k
  | .pointer p => p

/-- The parameter that an entry of `args` is made from. -/
def Pack.param : Pack → Nat
  | .addr i => i
  | .next _ i => i
  | .ptr i => i

/-- The assignments to `args` in a stub, from left to right. -/
def packArgs (async : Bool) (vals : Nat → Nat) : List Pack → Cells → List ArgRef × Cells
  | [], c => ([], c)
  | .addr i :: ps, c =>
    let (refs, c') := packArgs async vals ps c
    (.onStack (vals i) :: refs, c')
  | .next t i :: ps, c =>
    if async then
      let (k, c₁) := c.next t (vals i)
      let (refs, c₂) := packArgs async vals ps c₁
      (.cell t k :: refs, c₂)
    else
      let (refs, c') := packArgs async vals ps c
      (.onStack (vals i) :: refs, c')
  | .ptr i :: ps, c =>
    let (refs, c') := packArgs async vals ps c
    (.pointer (vals i) :: refs, c')

/-! ## The enclave -/

/-- The ecalls of the asynchronous stubs. -/
def Ecall.isAsync : Ecall → Bool
  | .oftableSetReadonly | .clsRuleInit | .clsRuleDestroy | .evgAddRule | .evgRemoveRule
  | .clsRemove | .oftableMflowsSet | .oftableDisableEviction | .ofprotoDestroy
  | .oftableHiddenCheck | .oftableSetName => true
  | _ => false

/-- The caller's memory that `execute_function` reads for one of these ecalls: the match of
`ecall_cls_rule_init`, the name of `ecall_oftable_set_name`, and the eight bytes at the rule of
`ecall_cls_rule_destroy` and `ecall_cls_remove`, which `flow_map_cache_remove_ut_cr` hashes.
Otherwise a `struct cls_rule *` is only a key. -/
def Ecall.pointees : Ecall → List Nat → List Nat
  | .clsRuleInit, [_, _, m, _] => [m]
  | .oftableSetName, [_, _, name] => [name]
  | .clsRuleDestroy, [_, cr] => [cr]
  | .clsRemove, [_, _, cr] => [cr]
  | _, _ => []

/-- What `execute_function` does for the ecalls, given the values of their arguments, the
caller's memory and the state of the poller: that of the enclave and of the flow cache, which
lies in untrusted memory but is used by the poller alone. Those of the asynchronous stubs read
only their pointees and write no memory of the caller. -/
structure EnclaveCode (σ κ : Type) where
  exec : Ecall → List Nat → (Nat → κ) → σ → σ × (Nat → κ) × Nat
  frame : ∀ e args m s, e.isAsync = true → (exec e args m s).2.1 = m
  reads : ∀ e args m m' s, e.isAsync = true → (∀ p ∈ e.pointees args, m' p = m p) →
    (exec e args m' s).1 = (exec e args m s).1

/-- A call that was executed: its values and what it found at its pointees. -/
structure ExecutedCall (κ : Type) where
  ecall : Ecall
  args : List Nat
  pointees : List κ

/-- What the caller does: it calls a stub or writes its own memory. -/
inductive CallerAction (κ : Type) where
  | call (st : SgxStub) (vals : Nat → Nat)
  | write (f : (Nat → κ) → Nat → κ)

variable {σ κ : Type}

/-! ## Without batching -/

/-- The enclave, the caller's memory, the calls executed so far and the values returned so far. -/
structure PlainState (σ κ : Type) where
  mem : Nat → κ
  enclave : σ
  executed : List (ExecutedCall κ)
  returned : List (Option Nat)

/-- Each stub waits for its call. -/
def plainStep (code : EnclaveCode σ κ) (s : PlainState σ κ) : CallerAction κ → PlainState σ κ
  | .call st vals =>
    let args := (st.decl.args.take st.decl.nArgs).map (fun a => vals a.param)
    let (enclave, mem, v) := code.exec st.decl.hcall args s.mem s.enclave
    { mem := mem
      enclave := enclave
      executed := s.executed ++
        [⟨st.decl.hcall, args, (st.decl.hcall.pointees args).map s.mem⟩]
      returned := if st.decl.async then s.returned else s.returned ++ [some v] }
  | .write f => { s with mem := f s.mem }

/-- A sequence of actions without batching. -/
def plainRun (code : EnclaveCode σ κ) (s : PlainState σ κ) (acts : List (CallerAction κ)) :
    PlainState σ κ :=
  acts.foldl (plainStep code) s

/-! ## With batching -/

/-- A `struct function_call`; `sync` says that `return_value` belongs to a stub that waits. -/
structure CallRecord where
  ecall : Ecall
  args : List ArgRef
  sync : Bool

/-- The queue, the rings of scalars, the caller's memory and the enclave. `issued` records the
calls that were given to `HCALL`. -/
structure BatchState (σ κ : Type) where
  ring : CallRing CallRecord
  cells : Cells
  mem : Nat → κ
  enclave : σ
  executed : List (ExecutedCall κ)
  returned : List (Option Nat)
  issued : List CallRecord

/-- What the poller has reached in the queue, and the result variable of the stub that waits. -/
structure PollState (σ κ : Type) where
  mem : Nat → κ
  enclave : σ
  executed : List (ExecutedCall κ)
  result : Option Nat

/-- The call that is made when a record is executed now. -/
def CallRecord.asExecuted (r : CallRecord) (c : Cells) (mem : Nat → κ) : ExecutedCall κ :=
  let args := r.args.map c.resolve
  ⟨r.ecall, args, (r.ecall.pointees args).map mem⟩

/-- `execute_function` for one record. -/
def execRecord (code : EnclaveCode σ κ) (c : Cells) (w : PollState σ κ) (r : CallRecord) :
    PollState σ κ :=
  let (enclave, mem, v) := code.exec r.ecall (r.args.map c.resolve) w.mem w.enclave
  { mem := mem
    enclave := enclave
    executed := w.executed ++ [r.asExecuted c w.mem]
    result := if r.sync then some v else w.result }

/-- `HCALL`: the record goes into the queue. -/
def BatchState.enqueue (s : BatchState σ κ) (st : SgxStub) (vals : Nat → Nat) : BatchState σ κ :=
  let (args, cells) := packArgs st.decl.async vals (st.decl.args.take st.decl.nArgs) s.cells
  let r : CallRecord := ⟨st.decl.hcall, args, !st.decl.async⟩
  { s with
    ring := listInsert (getFcall s.ring r) s.ring.idx
    cells := cells
    issued := s.issued ++ [r] }

/-- `make_hotcall`: the poller executes the queue, then the stub returns. `none` if the queue
has no end. -/
def BatchState.makeHotcall (code : EnclaveCode σ κ) (s : BatchState σ κ) :
    Option (BatchState σ κ) := do
  let (records, ring) ← pollQueue s.ring
  let w := records.foldl (execRecord code s.cells) ⟨s.mem, s.enclave, s.executed, none⟩
  return { s with
    ring := ring
    mem := w.mem
    enclave := w.enclave
    executed := w.executed
    returned := s.returned ++ [w.result] }

/-- One action with batching. -/
def batchStep (code : EnclaveCode σ κ) (s : BatchState σ κ) :
    CallerAction κ → Option (BatchState σ κ)
  | .call st vals =>
    if st.decl.async then some (s.enqueue st vals) else (s.enqueue st vals).makeHotcall code
  | .write f => some { s with mem := f s.mem }

/-- A sequence of actions with batching. -/
def batchRun (code : EnclaveCode σ κ) (s : BatchState σ κ) (acts : List (CallerAction κ)) :
    Option (BatchState σ κ) :=
  acts.foldlM (batchStep code) s

/-- After `hotcall_init`, with what `fcs` and the cells hold then. -/
def BatchState.init (fcs : Nat → CallRecord) (cell : CType → Nat → Nat) (mem : Nat → κ)
    (enclave : σ) : BatchState σ κ :=
  ⟨hotcallInit fcs, ⟨cell, fun _ => 0⟩, mem, enclave, [], [], []⟩

/-- The calls in the queue. -/
def BatchState.waiting (s : BatchState σ κ) : List CallRecord :=
  s.issued.drop s.executed.length

/-- A call is issued when fewer than 20 calls are waiting, and the cells that it fills are not
those of a waiting call, unless they have that value already; the caller changes neither match
nor name nor the bytes at a rule that a waiting call will read. -/
def BatchFits (s : BatchState σ κ) : CallerAction κ → Prop
  | .call st vals =>
    s.waiting.length < nFcalls ∧
      ∀ r ∈ s.waiting, ∀ a ∈ r.args,
        (packArgs st.decl.async vals (st.decl.args.take st.decl.nArgs) s.cells).2.resolve a
          = s.cells.resolve a
  | .write f =>
    ∀ r ∈ s.waiting, ∀ p ∈ r.ecall.pointees (r.args.map s.cells.resolve), f s.mem p = s.mem p

/-- Every action of a run fits. -/
def RunFits (code : EnclaveCode σ κ) : BatchState σ κ → List (CallerAction κ) → Prop
  | _, [] => True
  | s, act :: acts => BatchFits s act ∧ ∀ s', batchStep code s act = some s' → RunFits code s' acts

/-! ## The cells of one call -/

variable {c : Cells} {t : CType} {vals : Nat → Nat}

/-- The positions stay inside the rings. -/
def Cells.Ok (c : Cells) : Prop :=
  ∀ t, c.idx t ≤ nFcalls

/-- The position of the next cell. -/
theorem Cells.next_fst (h : c.Ok) (v : Nat) : (c.next t v).1 = c.idx t % nFcalls := by
  by_cases hfull : c.idx t = nFcalls
  · simp [Cells.next, hfull]
  · have hlt : c.idx t < nFcalls := Nat.lt_of_le_of_ne (h t) hfull
    simp [Cells.next, hfull, Nat.mod_eq_of_lt hlt]

theorem Cells.next_idx_self (v : Nat) : (c.next t v).2.idx t = (c.next t v).1 + 1 := by
  simp [Cells.next]

theorem Cells.next_idx_of_ne {u : CType} (h : u ≠ t) (v : Nat) :
    (c.next t v).2.idx u = c.idx u := by
  simp [Cells.next, h]

theorem Cells.next_cell_self (v : Nat) : (c.next t v).2.cell t (c.next t v).1 = v := by
  simp [Cells.next]

theorem Cells.next_cell_of_ne {u : CType} {k : Nat} (h : u ≠ t ∨ k ≠ (c.next t v).1) :
    (c.next t v).2.cell u k = c.cell u k := by
  by_cases hu : u = t
  · subst hu
    have hk := h.resolve_left (fun hne => hne rfl)
    simp only [Cells.next, Function.update_self] at hk ⊢
    rw [Function.update_of_ne hk]
  · simp [Cells.next, hu]

theorem Cells.Ok.next (h : c.Ok) (v : Nat) : (c.next t v).2.Ok := by
  intro u
  by_cases hu : u = t
  · subst hu
    rw [Cells.next_idx_self, Cells.next_fst h]
    exact Nat.mod_lt _ (by decide)
  · rw [Cells.next_idx_of_ne hu]
    exact h u

theorem Cells.Ok.packArgs {async : Bool} (h : c.Ok) (ps : List Pack) :
    (OvsSgx.packArgs async vals ps c).2.Ok := by
  induction ps generalizing c with
  | nil => exact h
  | cons p ps ih =>
    cases p with
    | addr i => exact ih h
    | ptr i => exact ih h
    | next t i =>
      cases async with
      | true => exact ih (h.next (vals i))
      | false => exact ih h

/-- A cell that is not among the next ones keeps its value. -/
theorem packArgs_cell {k : Nat} (h : c.Ok) (ps : List Pack)
    (hfar : ∀ j < ps.length, (c.idx t + j) % nFcalls ≠ k) :
    (packArgs true vals ps c).2.cell t k = c.cell t k := by
  induction ps generalizing c with
  | nil => rfl
  | cons p ps ih =>
    have hlater : ∀ j < ps.length, (c.idx t + j) % nFcalls ≠ k :=
      fun j hj => hfar j (Nat.lt_succ_of_lt hj)
    cases p with
    | addr i => exact ih h hlater
    | ptr i => exact ih h hlater
    | next u i =>
      have hfirst : c.idx t % nFcalls ≠ k := by simpa using hfar 0 (by simp)
      show (packArgs true vals ps (c.next u (vals i)).2).2.cell t k = c.cell t k
      rw [ih (h.next _)]
      · apply Cells.next_cell_of_ne
        by_cases hu : t = u
        · subst hu
          rw [Cells.next_fst h]
          exact .inr hfirst.symm
        · exact .inl hu
      · intro j hj
        by_cases hu : t = u
        · subst hu
          have hnext := hfar (j + 1) (by simpa using hj)
          rw [Cells.next_idx_self, Cells.next_fst h]
          simp only [nFcalls] at hnext ⊢
          omega
        · rw [Cells.next_idx_of_ne hu]
          exact hlater j hj

/-- The arguments of a call of at most 20 arguments are found with the values of the
parameters. -/
theorem packArgs_resolve {async : Bool} (h : c.Ok) (ps : List Pack)
    (hlen : async = true → ps.length ≤ nFcalls) :
    (packArgs async vals ps c).1.map (packArgs async vals ps c).2.resolve
      = ps.map (fun a => vals a.param) := by
  induction ps generalizing c with
  | nil => rfl
  | cons p ps ih =>
    have hlen' : async = true → ps.length ≤ nFcalls := fun ha =>
      Nat.le_of_succ_le (hlen ha)
    cases p with
    | addr i => exact congrArg (vals i :: ·) (ih h hlen')
    | ptr i => exact congrArg (vals i :: ·) (ih h hlen')
    | next t i =>
      cases async with
      | false => exact congrArg (vals i :: ·) (ih h hlen')
      | true =>
        have hcell : (packArgs true vals ps (c.next t (vals i)).2).2.cell t (c.next t (vals i)).1
            = vals i := by
          have hps : ps.length < nFcalls := hlen rfl
          rw [packArgs_cell (h.next _), Cells.next_cell_self]
          intro j hj
          rw [Cells.next_idx_self, Cells.next_fst h]
          simp only [nFcalls] at hps ⊢
          omega
        have hrest := ih (h.next (t := t) (vals i)) hlen'
        show (packArgs true vals ps (c.next t (vals i)).2).2.cell t (c.next t (vals i)).1 :: _ = _
        rw [hcell]
        exact congrArg (vals i :: ·) hrest

/-- No stub that is asynchronous has more than 20 arguments. -/
theorem SgxStub.async_args_length (st : SgxStub) (h : st.decl.async = true) :
    (st.decl.args.take st.decl.nArgs).length ≤ nFcalls := by
  cases st <;> first | decide | cases h

theorem SgxStub.async_hcall (st : SgxStub) (h : st.decl.async = true) :
    st.decl.hcall.isAsync = true := by
  cases st <;> first | rfl | cases h

/-! ## Waiting calls -/

variable {code : EnclaveCode σ κ}

/-- The state of the enclave after some calls, the caller's memory being as it is. -/
def EnclaveCode.runCalls (code : EnclaveCode σ κ) (mem : Nat → κ) (enclave : σ)
    (calls : List (ExecutedCall κ)) : σ :=
  calls.foldl (fun s c => (code.exec c.ecall c.args mem s).1) enclave

/-- The poller executes asynchronous calls. -/
theorem foldl_execRecord_async {rs : List CallRecord}
    (hrs : ∀ r ∈ rs, r.sync = false ∧ r.ecall.isAsync = true) (w : PollState σ κ) :
    rs.foldl (execRecord code c) w =
      { mem := w.mem
        enclave := code.runCalls w.mem w.enclave (rs.map (fun r => r.asExecuted c w.mem))
        executed := w.executed ++ rs.map (fun r => r.asExecuted c w.mem)
        result := w.result } := by
  induction rs generalizing w with
  | nil => simp [EnclaveCode.runCalls]
  | cons r rs ih =>
    obtain ⟨hsync, hasync⟩ := hrs r (List.mem_cons_self ..)
    have hmem : (execRecord code c w r).mem = w.mem := code.frame _ _ _ _ hasync
    rw [List.foldl_cons, ih (fun r' hr' => hrs r' (List.mem_cons_of_mem _ hr')), hmem]
    simp [execRecord, hsync, EnclaveCode.runCalls, CallRecord.asExecuted]

/-- A write that keeps the pointees of the waiting calls does not change what they do. -/
theorem EnclaveCode.runCalls_write (code : EnclaveCode σ κ) {rs : List CallRecord}
    (hrs : ∀ r ∈ rs, r.ecall.isAsync = true) {mem mem' : Nat → κ}
    (hkeep : ∀ r ∈ rs, ∀ p ∈ r.ecall.pointees (r.args.map c.resolve), mem' p = mem p)
    (enclave : σ) :
    code.runCalls mem' enclave (rs.map (fun r => r.asExecuted c mem')) =
      code.runCalls mem enclave (rs.map (fun r => r.asExecuted c mem)) := by
  induction rs generalizing enclave with
  | nil => rfl
  | cons r rs ih =>
    have hexec := code.reads r.ecall (r.args.map c.resolve) mem mem' enclave
      (hrs r (List.mem_cons_self ..)) (hkeep r (List.mem_cons_self ..))
    have hrest := ih (fun r' hr' => hrs r' (List.mem_cons_of_mem _ hr'))
      (fun r' hr' => hkeep r' (List.mem_cons_of_mem _ hr'))
      (code.exec r.ecall (r.args.map c.resolve) mem' enclave).1
    simp only [List.map_cons, EnclaveCode.runCalls, List.foldl_cons] at hrest ⊢
    rw [hexec] at hrest
    simp only [CallRecord.asExecuted] at hrest ⊢
    rw [hexec]
    exact hrest

theorem asExecuted_write {r : CallRecord} {mem mem' : Nat → κ}
    (hkeep : ∀ p ∈ r.ecall.pointees (r.args.map c.resolve), mem' p = mem p) :
    r.asExecuted c mem' = r.asExecuted c mem := by
  simp only [CallRecord.asExecuted, ExecutedCall.mk.injEq, true_and]
  exact List.map_congr_left hkeep

/-- A call whose cells keep their values stays the same call. -/
theorem asExecuted_cells {r : CallRecord} {c' : Cells}
    (hkeep : ∀ a ∈ r.args, c'.resolve a = c.resolve a) (mem : Nat → κ) :
    r.asExecuted c' mem = r.asExecuted c mem := by
  have hargs : r.args.map c'.resolve = r.args.map c.resolve := List.map_congr_left hkeep
  simp [CallRecord.asExecuted, hargs]

/-! ## The two runs -/

/-- A batched state goes with an unbatched one: the calls executed so far are the first of the
unbatched run, the waiting ones are the others, and executing them leads to the same enclave. -/
structure BatchOk (code : EnclaveCode σ κ) (s : BatchState σ κ) (p : PlainState σ κ) : Prop where
  ring : RingOk s.ring s.issued s.executed.length s.issued.length
  cells : s.cells.Ok
  async : ∀ r ∈ s.waiting, r.sync = false ∧ r.ecall.isAsync = true
  calls : s.executed ++ s.waiting.map (fun r => r.asExecuted s.cells s.mem) = p.executed
  mem : s.mem = p.mem
  enclave : code.runCalls s.mem s.enclave (s.waiting.map (fun r => r.asExecuted s.cells s.mem))
    = p.enclave
  returned : s.returned = p.returned

variable {s s' : BatchState σ κ} {p : PlainState σ κ}

theorem BatchOk.init (fcs : Nat → CallRecord) (cell : CType → Nat → Nat) (mem : Nat → κ)
    (enclave : σ) :
    BatchOk code (BatchState.init fcs cell mem enclave) ⟨mem, enclave, [], []⟩ where
  ring := hotcallInit_ok fcs
  cells := fun _ => Nat.zero_le _
  async := by simp [BatchState.waiting, BatchState.init]
  calls := rfl
  mem := rfl
  enclave := rfl
  returned := rfl

theorem BatchOk.write (h : BatchOk code s p) {f : (Nat → κ) → Nat → κ}
    (hfits : BatchFits s (.write f)) :
    BatchOk code { s with mem := f s.mem } (plainStep code p (.write f)) := by
  have hsame : s.waiting.map (fun r => r.asExecuted s.cells (f s.mem))
      = s.waiting.map (fun r => r.asExecuted s.cells s.mem) :=
    List.map_congr_left (fun r hr => asExecuted_write (hfits r hr))
  have henclave := code.runCalls_write (fun r hr => (h.async r hr).2) hfits
    s.enclave
  exact
    { ring := h.ring
      cells := h.cells
      async := h.async
      calls := by
        show s.executed ++ s.waiting.map (fun r => r.asExecuted s.cells (f s.mem)) = p.executed
        rw [hsame, h.calls]
      mem := congrArg f h.mem
      enclave := henclave.trans h.enclave
      returned := h.returned }

/-- The call that a stub makes. -/
def SgxStub.callOf (st : SgxStub) (vals : Nat → Nat) (mem : Nat → κ) : ExecutedCall κ :=
  let args := (st.decl.args.take st.decl.nArgs).map (fun a => vals a.param)
  ⟨st.decl.hcall, args, (st.decl.hcall.pointees args).map mem⟩

/-- What `HCALL` does when the call fits: its record is the last of the queue, and all waiting
records are the calls that they were. -/
theorem BatchOk.enqueue (h : BatchOk code s p) {st : SgxStub}
    (hfits : BatchFits s (.call st vals)) :
    ∃ r : CallRecord, r.ecall = st.decl.hcall ∧ r.sync = !st.decl.async ∧
      (s.enqueue st vals).waiting = s.waiting ++ [r] ∧
      RingOk (s.enqueue st vals).ring (s.enqueue st vals).issued s.executed.length
        (s.enqueue st vals).issued.length ∧
      (s.enqueue st vals).cells.Ok ∧
      s.waiting.map (fun r => r.asExecuted (s.enqueue st vals).cells s.mem)
        = s.waiting.map (fun r => r.asExecuted s.cells s.mem) ∧
      r.asExecuted (s.enqueue st vals).cells s.mem = st.callOf vals s.mem := by
  obtain ⟨hroom, hkeep⟩ := hfits
  have hle := h.ring.le
  have hroom' : s.issued.length < s.executed.length + nFcalls := by
    rw [BatchState.waiting, List.length_drop] at hroom
    omega
  let packed := packArgs st.decl.async vals (st.decl.args.take st.decl.nArgs) s.cells
  refine ⟨⟨st.decl.hcall, packed.1, !st.decl.async⟩, rfl, rfl, ?_, ?_, ?_, ?_, ?_⟩
  · exact List.drop_append_of_le_length hle
  · have hring := (h.ring.getFcall hroom' ⟨st.decl.hcall, packed.1, !st.decl.async⟩).listInsert
      (by simp)
    rw [← h.ring.idx] at hring
    exact hring
  · exact h.cells.packArgs _
  · exact List.map_congr_left (fun r hr => asExecuted_cells (hkeep r hr) s.mem)
  · have hargs : packed.1.map packed.2.resolve
        = (st.decl.args.take st.decl.nArgs).map (fun a => vals a.param) :=
      packArgs_resolve h.cells _ st.async_args_length
    simp only [CallRecord.asExecuted, SgxStub.callOf, ExecutedCall.mk.injEq, true_and]
    exact ⟨hargs, congrArg (fun args => (st.decl.hcall.pointees args).map s.mem) hargs⟩

theorem BatchOk.asyncCall (h : BatchOk code s p) {st : SgxStub}
    (hfits : BatchFits s (.call st vals)) (hasync : st.decl.async = true) :
    BatchOk code (s.enqueue st vals) (plainStep code p (.call st vals)) := by
  obtain ⟨r, hecall, hsync, hwait, hring, hcells, hold, hnew⟩ := h.enqueue hfits
  have hframe := code.frame st.decl.hcall (st.callOf vals s.mem).args s.mem p.enclave
    (st.async_hcall hasync)
  have hcalls : (s.enqueue st vals).waiting.map
      (fun r => r.asExecuted (s.enqueue st vals).cells s.mem)
      = s.waiting.map (fun r => r.asExecuted s.cells s.mem) ++ [st.callOf vals s.mem] := by
    rw [hwait, List.map_append, hold, List.map_singleton, hnew]
  exact
    { ring := hring
      cells := hcells
      async := by
        intro r' hr'
        rw [hwait, List.mem_append, List.mem_singleton] at hr'
        rcases hr' with hmem | rfl
        · exact h.async r' hmem
        · exact ⟨by rw [hsync, hasync]; rfl, by rw [hecall, st.async_hcall hasync]⟩
      calls := by
        show s.executed ++ (s.enqueue st vals).waiting.map
          (fun r => r.asExecuted (s.enqueue st vals).cells s.mem) = _
        rw [hcalls, ← List.append_assoc, h.calls, h.mem]
        rfl
      mem := by
        rw [h.mem] at hframe
        exact h.mem.trans hframe.symm
      enclave := by
        show code.runCalls s.mem s.enclave ((s.enqueue st vals).waiting.map
          (fun r => r.asExecuted (s.enqueue st vals).cells s.mem)) = _
        rw [hcalls, EnclaveCode.runCalls, List.foldl_append, List.foldl_cons, List.foldl_nil]
        have henclave := h.enclave
        unfold EnclaveCode.runCalls at henclave
        rw [henclave, h.mem]
        rfl
      returned := by
        simp only [plainStep, hasync, if_true]
        exact h.returned }

/-- A synchronous call that fits returns, everything has been executed, and nothing waits. -/
theorem BatchOk.syncCall (h : BatchOk code s p) {st : SgxStub}
    (hfits : BatchFits s (.call st vals)) (hsyncStub : st.decl.async = false) :
    ∃ s', (s.enqueue st vals).makeHotcall code = some s' ∧
      BatchOk code s' (plainStep code p (.call st vals)) ∧ s'.waiting = [] := by
  obtain ⟨r, hecall, hsync, hwait, hring, hcells, hold, hnew⟩ := h.enqueue hfits
  obtain ⟨ring', hpoll, hring'⟩ := hring.pollQueue
  have hdrop : (s.enqueue st vals).issued.drop s.executed.length = s.waiting ++ [r] := hwait
  -- the poller runs the waiting calls and then this one
  have hfold : (s.waiting ++ [r]).foldl (execRecord code (s.enqueue st vals).cells)
      ⟨s.mem, s.enclave, s.executed, none⟩ =
      { mem := (plainStep code p (.call st vals)).mem
        enclave := (plainStep code p (.call st vals)).enclave
        executed := (plainStep code p (.call st vals)).executed
        result := some (code.exec st.decl.hcall (st.callOf vals p.mem).args p.mem p.enclave).2.2 } := by
    rw [h.mem] at hnew
    have hargs := congrArg ExecutedCall.args hnew
    simp only [CallRecord.asExecuted] at hargs
    rw [List.foldl_append, foldl_execRecord_async h.async, hold, h.calls, h.enclave,
      List.foldl_cons, List.foldl_nil]
    simp only [execRecord, hnew, hargs, hecall, hsync, hsyncStub, Bool.not_false, if_true, h.mem]
    rfl
  have hlen : (plainStep code p (.call st vals)).executed.length
      = (s.enqueue st vals).issued.length := by
    have hcalls := congrArg List.length h.calls
    have hle := h.ring.le
    simp only [List.length_append, List.length_map, BatchState.waiting, List.length_drop] at hcalls
    simp only [plainStep, BatchState.enqueue, List.length_append, List.length_singleton]
    omega
  refine ⟨{ s.enqueue st vals with
      ring := ring'
      mem := (plainStep code p (.call st vals)).mem
      enclave := (plainStep code p (.call st vals)).enclave
      executed := (plainStep code p (.call st vals)).executed
      returned := (plainStep code p (.call st vals)).returned }, ?_, ?_, ?_⟩
  · have hreturned : (plainStep code p (.call st vals)).returned = s.returned ++
        [some (code.exec st.decl.hcall (st.callOf vals p.mem).args p.mem p.enclave).2.2] := by
      simp only [plainStep, hsyncStub, Bool.false_eq_true, if_false, h.returned]
      rfl
    rw [hreturned]
    unfold BatchState.makeHotcall
    rw [hpoll, hdrop]
    simp only [Option.bind_eq_bind, Option.bind_some, Option.pure_def, Option.some.injEq]
    have hfold' : (s.waiting ++ [r]).foldl (execRecord code (s.enqueue st vals).cells)
        ⟨(s.enqueue st vals).mem, (s.enqueue st vals).enclave, (s.enqueue st vals).executed, none⟩
        = _ := hfold
    rw [hfold']
    rfl
  · have hnone : (s.enqueue st vals).issued.drop
        (plainStep code p (.call st vals)).executed.length = [] := by
      rw [hlen, List.drop_length]
    exact
      { ring := by rw [hlen]; exact hring'
        cells := hcells
        async := by simp [BatchState.waiting, hnone]
        calls := by simp [BatchState.waiting, hnone]
        mem := rfl
        enclave := by simp [BatchState.waiting, hnone, EnclaveCode.runCalls]
        returned := rfl }
  · show (s.enqueue st vals).issued.drop (plainStep code p (.call st vals)).executed.length = []
    rw [hlen, List.drop_length]

/-! ## Whole runs -/

/-- The last action of a run is a call of a synchronous stub. -/
def EndsSync (acts : List (CallerAction κ)) : Prop :=
  ∃ before st vals, acts = before ++ [.call st vals] ∧ st.decl.async = false

/-- A batched run is transparent: executed and waiting calls are those of the unbatched run, in
its order and with the values and the memory at the time of issue, and the same values were
returned. Where nothing waits, as after every synchronous call, the enclave is the same too. -/
structure BatchTransparent (acts : List (CallerAction κ)) (s : BatchState σ κ)
    (p : PlainState σ κ) : Prop where
  calls : s.executed ++ s.waiting.map (fun r => r.asExecuted s.cells s.mem) = p.executed
  returned : s.returned = p.returned
  mem : s.mem = p.mem
  drained : s.waiting = [] → s.executed = p.executed ∧ s.enclave = p.enclave
  synced : EndsSync acts → s.waiting = []

theorem BatchOk.step (h : BatchOk code s p) {act : CallerAction κ} (hfits : BatchFits s act) :
    ∃ s', batchStep code s act = some s' ∧ BatchOk code s' (plainStep code p act) ∧
      (EndsSync [act] → s'.waiting = []) := by
  cases act with
  | write f =>
    refine ⟨_, rfl, h.write hfits, ?_⟩
    rintro ⟨before, st, vals, heq, -⟩
    cases before <;> simp at heq
  | call st vals =>
    cases hasync : st.decl.async with
    | true =>
      refine ⟨s.enqueue st vals, by simp [batchStep, hasync], h.asyncCall hfits hasync, ?_⟩
      rintro ⟨before, st', vals', heq, hsync⟩
      cases before with
      | nil =>
        obtain ⟨rfl, -⟩ : st = st' ∧ vals = vals' := by simpa using heq
        rw [hasync] at hsync
        cases hsync
      | cons a before => simp at heq
    | false =>
      obtain ⟨s', hs', hok, hnone⟩ := h.syncCall hfits hasync
      exact ⟨s', by simpa [batchStep, hasync] using hs', hok, fun _ => hnone⟩

theorem endsSync_cons {act a : CallerAction κ} {acts : List (CallerAction κ)}
    (h : EndsSync (act :: a :: acts)) : EndsSync (a :: acts) := by
  obtain ⟨before, st, vals, heq, hsync⟩ := h
  cases before with
  | nil => simp at heq
  | cons b before => exact ⟨before, st, vals, (List.cons.inj heq).2, hsync⟩

/-- From corresponding states on, a run whose actions fit ends and leads to corresponding
states. -/
theorem BatchOk.run (acts : List (CallerAction κ)) (h : BatchOk code s p)
    (hfits : RunFits code s acts) :
    ∃ s', batchRun code s acts = some s' ∧ BatchOk code s' (plainRun code p acts) ∧
      (EndsSync acts → s'.waiting = []) := by
  induction acts generalizing s p with
  | nil =>
    refine ⟨s, rfl, h, ?_⟩
    rintro ⟨before, st, vals, heq, -⟩
    simp at heq
  | cons act acts ih =>
    obtain ⟨s₁, hs₁, hok, hlast⟩ := h.step hfits.1
    obtain ⟨s₂, hs₂, hok₂, hlast₂⟩ := ih hok (hfits.2 s₁ hs₁)
    refine ⟨s₂, ?_, hok₂, ?_⟩
    · simp only [batchRun, List.foldlM_cons, hs₁] at hs₂ ⊢
      exact hs₂
    · intro hend
      cases acts with
      | nil =>
        cases hs₂
        exact hlast hend
      | cons a acts => exact hlast₂ (endsSync_cons hend)

theorem BatchOk.transparent {acts : List (CallerAction κ)} (h : BatchOk code s p)
    (hlast : EndsSync acts → s.waiting = []) : BatchTransparent acts s p where
  calls := h.calls
  returned := h.returned
  mem := h.mem
  drained := by
    intro hnone
    have hcalls := h.calls
    have henclave := h.enclave
    rw [hnone] at hcalls henclave
    exact ⟨by simpa using hcalls, henclave⟩
  synced := hlast

/-- Every sequence of stub calls and memory writes whose actions fit runs with batching as it
does without. -/
theorem batching_transparent (code : EnclaveCode σ κ) (fcs : Nat → CallRecord)
    (cell : CType → Nat → Nat) (mem : Nat → κ) (enclave : σ) (acts : List (CallerAction κ))
    (hfits : RunFits code (BatchState.init fcs cell mem enclave) acts) :
    ∃ s, batchRun code (BatchState.init fcs cell mem enclave) acts = some s ∧
      BatchTransparent acts s (plainRun code ⟨mem, enclave, [], []⟩ acts) := by
  obtain ⟨s, hs, hok, hlast⟩ := BatchOk.run acts (BatchOk.init fcs cell mem enclave) hfits
  exact ⟨s, hs, hok.transparent hlast⟩

/-- An enclave with nothing but the flags of its tables, of which `OFTABLE_READONLY` is 2. -/
def flagsCode : EnclaveCode (Nat → Nat → Bool) Unit where
  exec e args m s :=
    match e, args with
    | .oftableSetReadonly, [b, t] => (Function.update s b (Function.update (s b) t true), m, 0)
    | .oftableIsReadonly, [b, t] => (s, m, if s b t then 2 else 0)
    | _, _ => (s, m, 0)
  frame := by
    intro e args m s _
    split <;> rfl
  reads := by
    intro e args m m' s _ _
    split <;> rfl

/-- Bridge 0 and table `t`, as the parameters of a stub. -/
def tableArgs (t : Nat) (i : Nat) : Nat := if i = 1 then t else 0

/-- The first `n` tables become read-only; is table 0 read-only? -/
def setReadonlyThenAsk (n : Nat) : List (CallerAction Unit) :=
  (List.range n).map (fun t => .call .readonlySet (tableArgs t)) ++
    [.call .istableReadonly (tableArgs 0)]

/-- No table is read-only, and the memory of the rings is zero. -/
def flagsInit : BatchState (Nat → Nat → Bool) Unit :=
  BatchState.init (fun _ => ⟨.oftableSetReadonly, [], false⟩) (fun _ _ => 0) (fun _ => ())
    (fun _ _ => false)

/-- One asynchronous and one synchronous call fit. -/
theorem setReadonlyThenAsk_one_fits :
    RunFits flagsCode flagsInit (setReadonlyThenAsk 1) := by
  refine ⟨?_, fun s hs => ?_⟩
  · unfold BatchFits
    decide +kernel
  · cases hs
    refine ⟨?_, fun _ _ => trivial⟩
    unfold BatchFits
    decide +kernel

theorem setReadonlyThenAsk_one_transparent :
    RunFits flagsCode flagsInit (setReadonlyThenAsk 1) ∧
      ∃ s, batchRun flagsCode flagsInit (setReadonlyThenAsk 1) = some s ∧
        BatchTransparent (setReadonlyThenAsk 1) s
          (plainRun flagsCode ⟨fun _ => (), fun _ _ => false, [], []⟩ (setReadonlyThenAsk 1)) :=
  ⟨setReadonlyThenAsk_one_fits,
    batching_transparent flagsCode _ _ _ _ _ setReadonlyThenAsk_one_fits⟩

/-- After eleven tables the cells of the first call have been filled again, and table 0 is not
read-only. -/
theorem elevenCalls_not_transparent :
    ¬ ∃ s, batchRun flagsCode flagsInit (setReadonlyThenAsk 11) = some s ∧
      BatchTransparent (setReadonlyThenAsk 11) s
        (plainRun flagsCode ⟨fun _ => (), fun _ _ => false, [], []⟩ (setReadonlyThenAsk 11)) := by
  rintro ⟨s, hs, htrans⟩
  have hbatched : (batchRun flagsCode flagsInit (setReadonlyThenAsk 11)).map (·.returned)
      = some [some 0] := by
    decide +kernel
  have hplain : (plainRun flagsCode ⟨fun _ => (), fun _ _ => false, [], []⟩
      (setReadonlyThenAsk 11)).returned = [some 2] := by
    decide +kernel
  rw [hs, Option.map_some, htrans.returned, hplain] at hbatched
  exact absurd hbatched (by decide)

end OvsSgx
