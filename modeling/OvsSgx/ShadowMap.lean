/-
OvsSgx.ShadowMap — which shadow an untrusted address resolves to.

`SGX_hmap_table` is keyed by the low 32 bits of the address, and
`sgx_rule_from_ut_cr` takes the first node with that hash without looking
at `o_cls_rule`. Over a run of `ecall_cls_rule_init` and
`ecall_cls_rule_destroy`, the addresses in use resolve to their own shadows
exactly as long as none of them shares its low 32 bits with another live
one.
-/
import OvsSgx.EnclaveTheorems

namespace OvsSgx

/-! ## Runs of initialisations and destructions -/

/-- `ecall_cls_rule_init` or `ecall_cls_rule_destroy`. -/
inductive RuleOp where
  | init (a : UtAddr) (m : Match) (priority : Nat)
  | destroy (a : UtAddr)

/-- The address that an operation is about. -/
def RuleOp.addr : RuleOp → UtAddr
  | init a _ _ => a
  | destroy a => a

/-- The operation on the enclave. -/
def RuleOp.exec (s : Enclave) : RuleOp → Option Enclave
  | init a m p => some (ecallClsRuleInit s a m p)
  | destroy a => ecallClsRuleDestroy s a

/-- The addresses live after an operation. -/
def RuleOp.live (live : List UtAddr) : RuleOp → List UtAddr
  | init a _ _ => a :: live
  | destroy a => live.erase a

/-- The shadow that `ecall_cls_rule_init` made for an address, and from what. -/
structure Created where
  shadow : RuleId
  «match» : Match
  priority : Nat

/-- Who owns which shadow after an operation in state `s`. -/
def RuleOp.owner (s : Enclave) (owner : UtAddr → Option Created) : RuleOp → UtAddr → Option Created
  | init a m p => Function.update owner a (some ⟨s.nextRule, m, p⟩)
  | destroy a => Function.update owner a none

/-- Only addresses that are not live are initialised and only live ones destroyed, so
that the addresses live at one time are distinct. -/
def ValidOps : List UtAddr → List RuleOp → Prop
  | _, [] => True
  | live, op :: ops =>
    (match op with
      | .init a _ _ => a ∉ live
      | .destroy a => a ∈ live) ∧ ValidOps (op.live live) ops

/-- No address of `A` shares its low 32 bits with another address that is live. -/
def SeparateFrom (A : Set UtAddr) (live : List UtAddr) : Prop :=
  ∀ a ∈ A, ∀ b ∈ live, addrHash a = addrHash b → a = b

/-- The addresses of `A` are separate from the live ones before, between and after the
operations. -/
def SeparateThroughout (A : Set UtAddr) : List UtAddr → List RuleOp → Prop
  | live, [] => SeparateFrom A live
  | live, op :: ops => SeparateFrom A live ∧ SeparateThroughout A (op.live live) ops

/-- Each address of `A` resolves to the shadow that was created for it, with the match
and priority given then, and to null if it is not live. -/
def Resolves (A : Set UtAddr) (s : Enclave) (owner : UtAddr → Option Created) : Prop :=
  ∀ a ∈ A, sgxRuleFromUtCr s a = (owner a).map Created.shadow ∧
    ∀ c, owner a = some c →
      s.oClsRule c.shadow = a ∧ s.clsRule c.shadow = clsRuleInit c.match c.priority

/-- The operations all return, and before, between and after them the addresses of `A`
resolve to their own shadows. -/
def ResolvesThroughout (A : Set UtAddr) : Enclave → (UtAddr → Option Created) → List RuleOp → Prop
  | s, owner, [] => Resolves A s owner
  | s, owner, op :: ops => Resolves A s owner ∧
      ∃ s', op.exec s = some s' ∧ ResolvesThroughout A s' (op.owner s owner) ops

/-! ## Two addresses with the same low bits -/

/-- The lookup sees the low 32 bits only. -/
theorem sgxRuleFromUtCr_congr (s : Enclave) {a b : UtAddr} (h : addrHash a = addrHash b) :
    sgxRuleFromUtCr s a = sgxRuleFromUtCr s b := by
  simp only [sgxRuleFromUtCr, h]

section Owners

variable {A : Set UtAddr} {s : Enclave} {owner : UtAddr → Option Created} {live : List UtAddr}

/-- Two live addresses that both resolve to their own shadows differ in their low bits. -/
theorem Resolves.separate (h : Resolves A s owner) (hlive : ∀ a, a ∈ live ↔ (owner a).isSome)
    (hsub : ∀ a ∈ live, a ∈ A) : SeparateFrom A live := by
  intro a ha b hb heq
  obtain ⟨c, hc⟩ := Option.isSome_iff_exists.mp ((hlive b).mp hb)
  have hlook : (owner a).map Created.shadow = some c.shadow := by
    rw [← (h a ha).1, sgxRuleFromUtCr_congr s heq, (h b (hsub b hb)).1, hc, Option.map_some]
  obtain ⟨d, hd, hshadow⟩ := Option.map_eq_some_iff.mp hlook
  calc a = s.oClsRule d.shadow := (((h a ha).2 d hd).1).symm
    _ = s.oClsRule c.shadow := by rw [hshadow]
    _ = b := ((h b (hsub b hb)).2 c hc).1

/-! ## Separate addresses -/

/-- The shadows in the map are those of the live addresses. -/
structure Owned (s : Enclave) (owner : UtAddr → Option Created) : Prop where
  shadows : ShadowsOk s
  own : ∀ a c, owner a = some c → s.LiveRule c.shadow ∧ s.oClsRule c.shadow = a ∧
    s.clsRule c.shadow = clsRuleInit c.match c.priority
  owned : ∀ r, s.LiveRule r → ∃ c, owner (s.oClsRule r) = some c ∧ c.shadow = r

theorem Owned.isSome_of_live (h : Owned s owner) {a : UtAddr} (ha : s.Live a) : (owner a).isSome := by
  obtain ⟨r, hr, rfl⟩ := ha
  obtain ⟨c, hc, -⟩ := h.owned r hr
  simp [hc]

/-- Separate addresses resolve to their own shadows. -/
theorem Owned.resolves (h : Owned s owner) (hlive : ∀ a, a ∈ live ↔ (owner a).isSome)
    (hsep : SeparateFrom A live) : Resolves A s owner := by
  intro a ha
  refine ⟨?_, fun c hc => (h.own a c hc).2⟩
  cases hown : owner a with
  | some c =>
    obtain ⟨hr, hoa, -⟩ := h.own a c hown
    rw [← hoa]
    exact h.shadows.lookup_self hr
  | none =>
    cases hlook : sgxRuleFromUtCr s a with
    | none => rfl
    | some r =>
      -- the node found belongs to a live address with the low bits of `a`
      have hr := h.shadows.live_of_lookup hlook
      have hhash := h.shadows.hash _ (h.shadows.lookup.mp hlook)
      have hb : s.oClsRule r ∈ live := (hlive _).mpr (h.isSome_of_live ⟨r, hr, rfl⟩)
      have hab : a = s.oClsRule r := hsep a ha _ hb hhash
      have := h.isSome_of_live ⟨r, hr, hab.symm⟩
      simp [hown] at this

/-- A new address that no live one shares its low bits with gets a shadow of its own. -/
theorem Owned.init (h : Owned s owner) {a : UtAddr} (m : Match) (p : Nat)
    (hnew : ∀ b, s.Live b → addrHash b ≠ addrHash a) :
    Owned (ecallClsRuleInit s a m p) ((RuleOp.init a m p).owner s owner) := by
  have hold : ∀ {r}, s.LiveRule r → r ≠ s.nextRule := fun hr =>
    Nat.ne_of_lt (h.shadows.rule_lt hr)
  refine ⟨ecallClsRuleInit_shadows h.shadows hnew, fun b c hc => ?_, fun r hr => ?_⟩
  · rcases eq_or_ne b a with rfl | hba
    · simp only [RuleOp.owner, Function.update_self, Option.some.injEq] at hc
      subst hc
      exact ⟨ecallClsRuleInit_liveRule.mpr (.inl rfl), ecallClsRuleInit_oClsRule_self,
        ecallClsRuleInit_clsRule_self⟩
    · simp only [RuleOp.owner, Function.update_of_ne hba] at hc
      obtain ⟨hr, hoa, hcls⟩ := h.own b c hc
      exact ⟨ecallClsRuleInit_liveRule.mpr (.inr hr),
        (ecallClsRuleInit_oClsRule (hold hr)).trans hoa,
        (ecallClsRuleInit_clsRule (hold hr)).trans hcls⟩
  · rcases ecallClsRuleInit_liveRule.mp hr with rfl | hr
    · rw [ecallClsRuleInit_oClsRule_self]
      exact ⟨⟨s.nextRule, m, p⟩, by simp [RuleOp.owner], rfl⟩
    · rw [ecallClsRuleInit_oClsRule (hold hr)]
      have hne : s.oClsRule r ≠ a := fun heq => hnew _ ⟨r, hr, rfl⟩ (by rw [heq])
      simpa only [RuleOp.owner, Function.update_of_ne hne] using h.owned r hr

/-- Destroying a live address takes its own shadow away. -/
theorem Owned.destroy (h : Owned s owner) {a : UtAddr} (ha : (owner a).isSome) :
    ∃ s', ecallClsRuleDestroy s a = some s' ∧ Owned s' ((RuleOp.destroy a).owner s owner) := by
  obtain ⟨c, hc⟩ := Option.isSome_iff_exists.mp ha
  obtain ⟨hr, rfl, -⟩ := h.own a c hc
  refine ⟨_, ecallClsRuleDestroy_eq h.shadows hr, destroy_shadows h.shadows hr, fun b d hd => ?_,
    fun r hlr => ?_⟩
  · rcases eq_or_ne b (s.oClsRule c.shadow) with rfl | hba
    · simp [RuleOp.owner] at hd
    · simp only [RuleOp.owner, Function.update_of_ne hba] at hd
      obtain ⟨hdr, hob, hcls⟩ := h.own b d hd
      refine ⟨(destroy_liveRule h.shadows hr).mpr ⟨fun heq => hba ?_, hdr⟩, hob, hcls⟩
      rw [← hob, heq]
  · obtain ⟨hne, hlr⟩ := (destroy_liveRule h.shadows hr).mp hlr
    have hne' : s.oClsRule r ≠ s.oClsRule c.shadow := fun heq =>
      hne (h.shadows.inj hlr hr (by rw [heq]))
    simpa only [RuleOp.owner, Function.update_of_ne hne'] using h.owned r hlr

end Owners

/-! ## Whole runs -/

/-- The live list follows the owners. -/
theorem RuleOp.live_iff (op : RuleOp) {live : List UtAddr} {owner : UtAddr → Option Created}
    (s : Enclave) (hnodup : live.Nodup) (hlive : ∀ a, a ∈ live ↔ (owner a).isSome) (a : UtAddr) :
    a ∈ op.live live ↔ (op.owner s owner a).isSome := by
  cases op with
  | init b m p =>
    rcases eq_or_ne a b with rfl | hab
    · simp [RuleOp.live, RuleOp.owner]
    · simp [RuleOp.live, RuleOp.owner, hab, hlive]
  | destroy b =>
    rcases eq_or_ne a b with rfl | hab
    · simp [RuleOp.live, RuleOp.owner, hnodup.mem_erase_iff]
    · simp [RuleOp.live, RuleOp.owner, hab, hnodup.mem_erase_iff, hlive]

/-- As long as the addresses resolve to their own shadows they are separate. -/
theorem ResolvesThroughout.separate {A : Set UtAddr} {ops : List RuleOp} :
    ∀ {s : Enclave} {owner : UtAddr → Option Created} {live : List UtAddr}, live.Nodup →
      (∀ a, a ∈ live ↔ (owner a).isSome) → (∀ a ∈ live, a ∈ A) → (∀ op ∈ ops, op.addr ∈ A) →
      ValidOps live ops → ResolvesThroughout A s owner ops → SeparateThroughout A live ops := by
  induction ops with
  | nil => exact fun _ hlive hsub _ _ h => Resolves.separate h hlive hsub
  | cons op ops ih =>
    intro s owner live hnodup hlive hsub hA hvalid h
    obtain ⟨hres, s', -, hrest⟩ := h
    refine ⟨hres.separate hlive hsub, ih ?_ (RuleOp.live_iff op s hnodup hlive) ?_
      (fun o ho => hA o (List.mem_cons_of_mem _ ho)) hvalid.2 hrest⟩
    · cases op with
      | init a m p => exact List.nodup_cons.mpr ⟨hvalid.1, hnodup⟩
      | destroy a => exact hnodup.erase a
    · cases op with
      | init a m p =>
        intro b hb
        rcases List.mem_cons.mp hb with rfl | hb
        · exact hA _ (List.mem_cons_self ..)
        · exact hsub b hb
      | destroy a => exact fun b hb => hsub b (List.mem_of_mem_erase hb)

/-- As long as the addresses are separate they resolve to their own shadows. -/
theorem SeparateThroughout.resolves {A : Set UtAddr} {ops : List RuleOp} :
    ∀ {s : Enclave} {owner : UtAddr → Option Created} {live : List UtAddr}, live.Nodup →
      (∀ a, a ∈ live ↔ (owner a).isSome) → Owned s owner → (∀ op ∈ ops, op.addr ∈ A) →
      ValidOps live ops → SeparateThroughout A live ops → ResolvesThroughout A s owner ops := by
  induction ops with
  | nil => exact fun _ hlive howned _ _ h => howned.resolves hlive h
  | cons op ops ih =>
    intro s owner live hnodup hlive howned hA hvalid h
    obtain ⟨hsep, hrest⟩ := h
    have hlive' := RuleOp.live_iff op s hnodup hlive
    refine ⟨howned.resolves hlive hsep, ?_⟩
    cases op with
    | init a m p =>
      have hnew : ∀ b, s.Live b → addrHash b ≠ addrHash a := by
        intro b hb heq
        have hbl := (hlive b).mpr (howned.isSome_of_live hb)
        have hab : a = b := hsep a (hA _ (List.mem_cons_self ..)) b hbl heq.symm
        exact hvalid.1 (hab ▸ hbl)
      exact ⟨_, rfl, ih (List.nodup_cons.mpr ⟨hvalid.1, hnodup⟩) hlive' (howned.init m p hnew)
        (fun o ho => hA o (List.mem_cons_of_mem _ ho)) hvalid.2 hrest⟩
    | destroy a =>
      obtain ⟨s', hs', howned'⟩ := howned.destroy ((hlive a).mp hvalid.1)
      exact ⟨s', hs', ih (hnodup.erase a) hlive' howned'
        (fun o ho => hA o (List.mem_cons_of_mem _ ho)) hvalid.2 hrest⟩

/-- Over a run on a new bridge, the addresses in use resolve to their own shadows
throughout if and only if none of them ever shares its low 32 bits with another live
address. -/
theorem sgxRuleFromUtCr_resolves_iff (nTables : Nat) (random : Nat → BitVec 16)
    (ops : List RuleOp) (A : Set UtAddr) (hvalid : ValidOps [] ops)
    (hA : ∀ op ∈ ops, op.addr ∈ A) :
    ResolvesThroughout A (ecallOfprotoInitTables nTables random) (fun _ => none) ops ↔
      SeparateThroughout A [] ops := by
  have hlive : ∀ a : UtAddr, a ∈ ([] : List UtAddr) ↔ (none : Option Created).isSome := by simp
  have howned : Owned (ecallOfprotoInitTables nTables random) fun _ => none := by
    have hno : ∀ r, ¬ (ecallOfprotoInitTables nTables random).LiveRule r := by
      simp [Enclave.LiveRule, ecallOfprotoInitTables]
    refine ⟨⟨?_, ?_, ?_⟩, by simp, fun r hr => absurd hr (hno r)⟩
    all_goals simp [ecallOfprotoInitTables]
  exact ⟨ResolvesThroughout.separate List.nodup_nil hlive (by simp) hA hvalid,
    SeparateThroughout.resolves List.nodup_nil hlive howned hA hvalid⟩

/-- Two rules whose addresses differ, and one of them destroyed again. -/
def separateOps : List RuleOp :=
  [.init 0x1000#64 matchCatchall 1, .init 0x100002000#64 matchCatchall 2, .destroy 0x1000#64]

theorem separateOps_resolve :
    ResolvesThroughout {0x1000#64, 0x100002000#64} (ecallOfprotoInitTables 1 fun _ => 0#16)
      (fun _ => none) separateOps := by
  refine (sgxRuleFromUtCr_resolves_iff 1 _ separateOps _ ?_ ?_).mpr ?_
  · simp [separateOps, ValidOps, RuleOp.live]
  · simp [separateOps, RuleOp.addr]
  · simp [separateOps, SeparateThroughout, SeparateFrom, RuleOp.live, addrHash]

/-- Two rules whose addresses agree in their low 32 bits. -/
def collidingOps : List RuleOp :=
  [.init 0x100001000#64 matchCatchall 1, .init 0x1000#64 matchCatchall 2]

/-- The second of the two resolves to the shadow of the first. -/
theorem collidingOps_resolve_wrong :
    ValidOps [] collidingOps ∧
      ¬ ResolvesThroughout {0x100001000#64, 0x1000#64}
        (ecallOfprotoInitTables 1 fun _ => 0#16) (fun _ => none) collidingOps := by
  refine ⟨by simp [collidingOps, ValidOps, RuleOp.live], ?_⟩
  rintro ⟨-, s1, h1, -, s2, h2, h⟩
  cases h1
  cases h2
  have hlook := (h 0x1000#64 (by simp)).1
  have hfound : sgxRuleFromUtCr (ecallClsRuleInit (ecallClsRuleInit
      (ecallOfprotoInitTables 1 fun _ => 0#16) 0x100001000#64 matchCatchall 1)
      0x1000#64 matchCatchall 2) 0x1000#64 = some 0 := by decide +kernel
  rw [hfound] at hlook
  exact absurd hlook (by decide +kernel)

end OvsSgx
