/-
OvsSgx.VlanOnAddTheorems — when an addition sets the right bit.

A rule whose addition is in flight has its flow's match in the enclave and,
in its two members, its VID and mask where these are not zero. So a completed
addition does what it should unless the member for a zero has been read: a
mask from memory that happens to be exact, or a VID from memory in place of
VID 0.
-/
import OvsSgx.OfprotoRuns
import OvsSgx.VlanOnAdd

namespace OvsSgx

/-! ## What an addition should do -/

/-- The VID of a flow's rule. -/
def ownVid (flow : Match) : BitVec 16 := miniflowGetVid (minimatchInit flow).flow

/-- The mask of the VID of a flow's rule. -/
def ownVidMask (flow : Match) : BitVec 16 := minimaskGetVidMask (minimatchInit flow).mask

/-- If the rule's mask is exact on the VID, then the bit of the rule's own VID is set and no other;
otherwise nothing has changed. -/
def VlanUpdate.Recorded (u : VlanUpdate) : Prop :=
  ∃ after, u.after = some after ∧
    if ownVidMask u.flow = VLAN_VID_MASK then
      after.vlanBitmap = u.before.vlanBitmap.map (Function.update · (ownVid u.flow).toNat true)
    else after = u.before

/-- What is read from memory does no harm: a mask that happens to be exact leads to a bit that is
set already, and so does a VID in place of VID 0, whose bit is also set. -/
structure VlanUpdate.Harmless (u : VlanUpdate) : Prop where
  mask : ownVidMask u.flow = 0#16 → u.malloced.vidMask = VLAN_VID_MASK →
    match u.before.vlanBitmap with
    | some b =>
      bitmapIsSet b (if ownVid u.flow ≠ 0#16 then ownVid u.flow else u.malloced.vid) = some true
    | none => u.before.vlansChanged = true
  vid : ownVidMask u.flow = VLAN_VID_MASK → ownVid u.flow = 0#16 → u.malloced.vid ≠ 0#16 →
    ∀ b, u.before.vlanBitmap = some b → bitmapIsSet b u.malloced.vid = some true ∧ b 0 = true

/-! ## One addition -/

section Complete

variable {s : Enclave} {a : UtAddr} {b : VlanBitmap} {vid : BitVec 16}

theorem miniflowGetVid_lt (m : Miniflow) : (miniflowGetVid m).toNat < 4096 := by
  unfold miniflowGetVid
  rw [BitVec.toNat_and]
  exact Nat.lt_of_le_of_lt Nat.and_le_right (by decide)

/-- Setting the bit of `vid` unless it is set. -/
def setVid (b : VlanBitmap) (vid : BitVec 16) (vlan : VlanState) : Option VlanState := do
  if ← bitmapIsSet b vid then return vlan
  else
    let b ← bitmapSet1 b vid
    return ⟨some b, true⟩

theorem setVid_cases (b : VlanBitmap) (vid : BitVec 16) (vlan : VlanState) :
    (bitmapIsSet b vid = none ∧ setVid b vid vlan = none) ∨
      (bitmapIsSet b vid = some true ∧ setVid b vid vlan = some vlan) ∨
      (bitmapIsSet b vid = some false ∧
        setVid b vid vlan = some ⟨some (Function.update b vid.toNat true), true⟩) := by
  unfold setVid bitmapIsSet bitmapSet1
  by_cases hlt : vid.toNat < 4096
  · cases hb : b vid.toNat with
    | true => simp [hlt]
    | false => simp [hlt]
  · simp [hlt]

theorem bitmapIsSet_some {set : Bool} :
    bitmapIsSet b vid = some set ↔ vid.toNat < 4096 ∧ b vid.toNat = set := by
  unfold bitmapIsSet
  split <;> simp_all

theorem update_eq_of_isSet {n : Nat} (h : b n = true) : Function.update b n true = b := by
  rw [← h]
  exact Function.update_eq_self _ _

@[simp] theorem store_vid (t : TmpStorage) (vid vidMask : BitVec 16) :
    (t.store vid vidMask).vid = if vid ≠ 0#16 then vid else t.vid := by
  unfold TmpStorage.store
  dsimp only
  split <;> split <;> rfl

@[simp] theorem store_vidMask (t : TmpStorage) (vid vidMask : BitVec 16) :
    (t.store vid vidMask).vidMask = if vidMask ≠ 0#16 then vidMask else t.vidMask := by
  unfold TmpStorage.store
  dsimp only
  split <;> split <;> rfl

/-- Asking the enclave where nothing is kept changes nothing. -/
theorem keptOr_store (own kept : BitVec 16) : keptOr (if own ≠ 0#16 then own else kept) (some own) =
    some (if own ≠ 0#16 then own else kept) := by
  unfold keptOr
  by_cases hown : own = 0#16
  · by_cases hkept : kept = 0#16
    · simp [hown, hkept]
    · simp [hown, hkept]
  · simp [hown]

/-- The mask and the VID that `ofopgroup_complete` goes by. -/
theorem completeVlan_snd {flow : Match} (hvid : ecallMiniflowGetVid s a = some (ownVid flow))
    (hmask : ecallMinimaskGetVidMask s a = some (ownVidMask flow)) (t : TmpStorage)
    (vlan : VlanState) :
    (completeVlan s a (t.store (ownVid flow) (ownVidMask flow)) vlan).map Prod.snd =
      if (if ownVidMask flow ≠ 0#16 then ownVidMask flow else t.vidMask) = VLAN_VID_MASK then
        match vlan.vlanBitmap with
        | some b => setVid b (if ownVid flow ≠ 0#16 then ownVid flow else t.vid) vlan
        | none => some { vlan with vlansChanged := true }
      else some vlan := by
  unfold completeVlan
  simp only [hmask, hvid, store_vid, store_vidMask, keptOr_store, Option.bind_eq_bind,
    Option.bind_some]
  generalize (if ownVidMask flow ≠ 0#16 then ownVidMask flow else t.vidMask) = vidMask
  generalize (if ownVid flow ≠ 0#16 then ownVid flow else t.vid) = vid
  split
  · cases vlan.vlanBitmap with
    | none => rfl
    | some b =>
      unfold setVid
      dsimp only
      cases bitmapIsSet b vid with
      | none => rfl
      | some set =>
        cases set with
        | true => rfl
        | false => cases bitmapSet1 b vid <;> rfl
  · rfl

theorem setVid_own {vlan : VlanState} (hb : vlan.vlanBitmap = some b) (hlt : vid.toNat < 4096) :
    ∃ after, setVid b vid vlan = some after ∧
      after.vlanBitmap = some (Function.update b vid.toNat true) := by
  obtain ⟨hset, -⟩ | ⟨hset, hs⟩ | ⟨-, hs⟩ := setVid_cases b vid vlan
  · rw [bitmapIsSet, if_pos hlt] at hset
    cases hset
  · refine ⟨vlan, hs, ?_⟩
    rw [hb, update_eq_of_isSet (bitmapIsSet_some.mp hset).2]
  · exact ⟨_, hs, rfl⟩

/-- Setting another bit is as good as setting bit `n` only if both are set. -/
theorem setVid_other {vlan : VlanState} (hb : vlan.vlanBitmap = some b) {n : Nat}
    (hne : vid.toNat ≠ n) :
    (∃ after, setVid b vid vlan = some after ∧
      after.vlanBitmap = some (Function.update b n true)) ↔
      bitmapIsSet b vid = some true ∧ b n = true := by
  obtain ⟨hset, hs⟩ | ⟨hset, hs⟩ | ⟨hset, hs⟩ := setVid_cases b vid vlan
  · simp [hset, hs]
  · constructor
    · rintro ⟨after, hafter, hbits⟩
      obtain rfl := Option.some.inj (hs.symm.trans hafter)
      rw [hb, Option.some.injEq] at hbits
      have hn := congrFun hbits n
      rw [Function.update_self] at hn
      exact ⟨hset, hn⟩
    · intro hn
      exact ⟨vlan, hs, by rw [hb, update_eq_of_isSet hn.2]⟩
  · refine iff_of_false ?_ (by simp [hset])
    rintro ⟨after, hafter, hbits⟩
    obtain rfl := Option.some.inj (hs.symm.trans hafter)
    have hclear := (bitmapIsSet_some.mp hset).2
    have hvid := congrFun (Option.some.inj hbits) vid.toNat
    rw [Function.update_self, Function.update_of_ne hne, hclear] at hvid
    cases hvid

theorem setVid_same {vlan : VlanState} (hb : vlan.vlanBitmap = some b) :
    setVid b vid vlan = some vlan ↔ bitmapIsSet b vid = some true := by
  obtain ⟨hset, hs⟩ | ⟨hset, hs⟩ | ⟨hset, hs⟩ := setVid_cases b vid vlan
  · simp [hset, hs]
  · simp [hset, hs]
  · refine iff_of_false (fun hsame => ?_) (by simp [hset])
    have hbits := congrArg VlanState.vlanBitmap (Option.some.inj (hs.symm.trans hsame))
    rw [hb] at hbits
    have hvid := congrFun (Option.some.inj hbits) vid.toNat
    rw [Function.update_self, (bitmapIsSet_some.mp hset).2] at hvid
    cases hvid

/-- The mask is exact: only the VID may come from memory. -/
theorem recorded_iff_exact {u : VlanUpdate} (hexact : ownVidMask u.flow = VLAN_VID_MASK)
    (hafter : u.after = match u.before.vlanBitmap with
      | some b =>
        setVid b (if ownVid u.flow ≠ 0#16 then ownVid u.flow else u.malloced.vid) u.before
      | none => some { u.before with vlansChanged := true }) : u.Recorded ↔ u.Harmless := by
  have hlt : (ownVid u.flow).toNat < 4096 := miniflowGetVid_lt _
  have hnonzero : ownVidMask u.flow ≠ 0#16 := by
    rw [hexact]
    decide
  have hrec : u.Recorded ↔ ∃ after, u.after = some after ∧ after.vlanBitmap =
      u.before.vlanBitmap.map (Function.update · (ownVid u.flow).toNat true) := by
    simp [VlanUpdate.Recorded, hexact]
  have hharm : u.Harmless ↔ (ownVid u.flow = 0#16 → u.malloced.vid ≠ 0#16 →
      ∀ b, u.before.vlanBitmap = some b →
        bitmapIsSet b u.malloced.vid = some true ∧ b 0 = true) :=
    ⟨fun h => h.vid hexact, fun h => ⟨fun hzero => absurd hzero hnonzero, fun _ => h⟩⟩
  rw [hrec, hharm]
  cases hb : u.before.vlanBitmap with
  | none =>
    rw [hb] at hafter
    exact iff_of_true ⟨_, hafter, hb⟩ (by simp)
  | some b =>
    rw [hb] at hafter
    dsimp only at hafter
    rw [hafter, Option.map_some]
    by_cases hown : ownVid u.flow ≠ 0#16
    · rw [if_pos hown]
      exact iff_of_true (setVid_own hb hlt) fun hzero => absurd hzero hown
    · have hzero : ownVid u.flow = 0#16 := not_not.mp hown
      rw [if_neg hown, hzero]
      by_cases hvid : u.malloced.vid = 0#16
      · rw [hvid]
        exact iff_of_true (setVid_own hb (by decide)) fun _ hne => absurd rfl hne
      · have hne : u.malloced.vid.toNat ≠ 0 := fun h0 => hvid (BitVec.eq_of_toNat_eq h0)
        exact (setVid_other hb hne).trans
          ⟨fun h _ _ b' hb' => Option.some.inj hb' ▸ h, fun h => h rfl hvid b rfl⟩

/-- The mask is not exact: nothing may change, so a mask from memory that is exact must find the
bit set. -/
theorem recorded_iff_not_exact {u : VlanUpdate} (hexact : ownVidMask u.flow ≠ VLAN_VID_MASK)
    (hafter : u.after =
      if (if ownVidMask u.flow ≠ 0#16 then ownVidMask u.flow else u.malloced.vidMask)
          = VLAN_VID_MASK then
        match u.before.vlanBitmap with
        | some b =>
          setVid b (if ownVid u.flow ≠ 0#16 then ownVid u.flow else u.malloced.vid) u.before
        | none => some { u.before with vlansChanged := true }
      else some u.before) : u.Recorded ↔ u.Harmless := by
  have hrec : u.Recorded ↔ u.after = some u.before := by
    simp only [VlanUpdate.Recorded, if_neg hexact]
    exact ⟨fun ⟨after, h, heq⟩ => heq ▸ h, fun h => ⟨_, h, rfl⟩⟩
  rw [hrec]
  by_cases hread : ownVidMask u.flow = 0#16 ∧ u.malloced.vidMask = VLAN_VID_MASK
  · obtain ⟨hzero, hmask⟩ := hread
    rw [if_pos (by simp [hzero, hmask])] at hafter
    have hharm : u.Harmless ↔ match u.before.vlanBitmap with
        | some b => bitmapIsSet b
          (if ownVid u.flow ≠ 0#16 then ownVid u.flow else u.malloced.vid) = some true
        | none => u.before.vlansChanged = true :=
      ⟨fun h => h.mask hzero hmask, fun h => ⟨fun _ _ => h, fun he => absurd he hexact⟩⟩
    rw [hharm]
    cases hb : u.before.vlanBitmap with
    | none =>
      rw [hb] at hafter
      rw [hafter, Option.some.injEq]
      constructor
      · intro hsame
        rw [← hsame]
      · intro hchanged
        rw [← hchanged]
    | some b =>
      rw [hb] at hafter
      rw [hafter]
      exact setVid_same hb
  · have hother : (if ownVidMask u.flow ≠ 0#16 then ownVidMask u.flow else u.malloced.vidMask)
        ≠ VLAN_VID_MASK := by
      split
      · exact hexact
      · rename_i hzero
        exact fun hmask => hread ⟨not_not.mp hzero, hmask⟩
    rw [if_neg hother] at hafter
    exact iff_of_true hafter
      ⟨fun hzero hmask => absurd ⟨hzero, hmask⟩ hread, fun he => absurd he hexact⟩

/-- A completed addition does what it should exactly if what it reads from memory is harmless. -/
theorem completeVlan_recorded_iff {u : VlanUpdate}
    (hvid : ecallMiniflowGetVid s a = some (ownVid u.flow))
    (hmask : ecallMinimaskGetVidMask s a = some (ownVidMask u.flow))
    (hafter : u.after = (completeVlan s a (u.malloced.store (ownVid u.flow) (ownVidMask u.flow))
      u.before).map Prod.snd) : u.Recorded ↔ u.Harmless := by
  rw [completeVlan_snd hvid hmask] at hafter
  by_cases hexact : ownVidMask u.flow = VLAN_VID_MASK
  · have hnonzero : ownVidMask u.flow ≠ 0#16 := by
      rw [hexact]
      decide
    rw [if_pos (by rw [if_pos hnonzero, hexact])] at hafter
    exact recorded_iff_exact hexact hafter
  · exact recorded_iff_not_exact hexact hafter

end Complete

/-! ## Completing additions -/

/-- The members of rule `a` are as `add_flow` has left them. -/
def VlanMemory.Stored (m : VlanMemory) (a : UtAddr) : Prop :=
  m.tmpStorage a = (m.malloced a).store (ownVid (m.flow a)) (ownVidMask (m.flow a))

/-- What is known of a rule that is being added. -/
def VlanOfproto.Known (s : VlanOfproto) (a : UtAddr) : Prop :=
  s.1.enclave.Matches a (minimatchInit (s.2.flow a)) ∧ s.2.Stored a

/-- The invariant, with the operations `W` still to be completed. -/
structure VlanOk (W : List OpId) (s : VlanOfproto) : Prop where
  awaits : s.1.Awaits (VlanOfproto.Known s) W
  updates : ∀ u ∈ s.2.updates, u.Recorded ↔ u.Harmless

section Invariant

variable {s : Enclave} {o o' : Ofproto} {m m' : VlanMemory} {W : List OpId} {a b : UtAddr}
  {k : OpId} {isHidden : Bool}

/-- What the enclave says of a rule that it has a shadow of. -/
theorem ecallVid_of_matches {mm : Minimatch} (h : ShadowsOk s) (hlive : s.Live a)
    (hm : s.Matches a mm) :
    ecallMiniflowGetVid s a = some (miniflowGetVid mm.flow) ∧
      ecallMinimaskGetVidMask s a = some (minimaskGetVidMask mm.mask) := by
  obtain ⟨r, hr, rfl⟩ := hlive
  have hlook := h.lookup_self hr
  simp [ecallMiniflowGetVid, ecallMinimaskGetVidMask, hlook, hm r hr rfl]

/-- Completing an addition writes to its own rule only. -/
theorem complete_stored (hne : a ≠ b) :
    ((m.complete s b).Stored a ↔ m.Stored a) ∧ (m.complete s b).flow = m.flow := by
  unfold VlanMemory.complete
  cases m.vlan with
  | none => exact ⟨Iff.rfl, rfl⟩
  | some vlan =>
    refine ⟨?_, rfl⟩
    show Function.update m.tmpStorage b _ a = _ ↔ _
    rw [Function.update_of_ne hne]
    rfl

theorem complete_updates (h : ShadowsOk s) (hlive : s.Live a)
    (hm : s.Matches a (minimatchInit (m.flow a))) (hst : m.Stored a)
    (hu : ∀ u ∈ m.updates, u.Recorded ↔ u.Harmless) :
    ∀ u ∈ (m.complete s a).updates, u.Recorded ↔ u.Harmless := by
  unfold VlanMemory.complete
  cases m.vlan with
  | none => exact hu
  | some vlan =>
    intro u hmem
    obtain hmem | hmem := List.mem_append.mp hmem
    · exact hu u hmem
    · rw [List.mem_singleton.mp hmem]
      obtain ⟨hvid, hmask⟩ := ecallVid_of_matches h hlive hm
      refine completeVlan_recorded_iff hvid hmask ?_
      rw [hst]

theorem vlanOk_complete (h : SaneWith (k :: W) o)
    (hs : completeOpWith vlanOfAddition isHidden (o, m) k = some (o', m'))
    (hok : VlanOk (k :: W) (o, m)) : VlanOk W (o', m') := by
  obtain ⟨hround, hrest⟩ := completeOpWith_fst hs
  have hround : completeOp isHidden o k = some o' := hround
  have hop := (completeOp_enclave (h.inFlight.error k (List.mem_cons_self ..)) hround).1
  have hset : Settled o.enclave o'.enclave := (completeOp_steps hround).settled
  have hnew := completeOp_awaits h hround hok.awaits
  have hrest : vlanOfAddition o k o' m = some m' := hrest
  unfold vlanOfAddition at hrest
  dsimp only at hrest
  split at hrest
  · rename_i hadd
    obtain rfl := Option.some.inj hrest
    obtain ⟨⟨hm, hst⟩, -, hspared⟩ := hok.awaits.addition k (List.mem_cons_self ..) hadd.1
    have hlive := (completeOp_spared (survives_live _) h hround hspared).holds
    have hshadows := (completeOp_sane h hround).1.enclave.shadows
    refine ⟨hnew.imp fun j hj htype ha => ?_,
      complete_updates hshadows hlive (hset.matches hm) hst hok.updates⟩
    rw [hop] at htype ha ⊢
    obtain ⟨hstored, hflow⟩ := complete_stored (s := o'.enclave) (m := m)
      (hok.awaits.rule_ne hj htype)
    refine ⟨?_, hstored.mpr ha.2⟩
    rw [hflow]
    exact hset.matches ha.1
  · obtain rfl := Option.some.inj hrest
    exact ⟨hnew.imp fun _ _ _ ha => ⟨hset.matches ha.1, ha.2⟩, hok.updates⟩

theorem vlanOk_invariant : CompletionInvariant vlanOfAddition VlanOk where
  complete h hs hok := vlanOk_complete h hs hok
  fewer hsub hok := ⟨hok.awaits.fewer hsub, hok.updates⟩
  congr henc hrule hop hok :=
    ⟨(hok.awaits.congr henc hrule hop).imp fun _ _ _ ha => ⟨henc ▸ ha.1, ha.2⟩, hok.updates⟩

end Invariant

/-! ## Adding a flow -/

/-- `m'` differs from `m` in what concerns rule `cr` only. -/
structure VlanMemory.SameBut (cr : UtAddr) (m m' : VlanMemory) : Prop where
  stored : ∀ a, a ≠ cr → (m'.Stored a ↔ m.Stored a)
  flow : ∀ a, a ≠ cr → m'.flow a = m.flow a
  updates : m'.updates = m.updates

section AddFlow

variable {s s' : VlanOfproto} {o o' : Ofproto} {fm : FlowMod} {new : NewRule}
  {construct error : Option Ofperr} {malloced : TmpStorage} {cr : UtAddr} {out : AddFlowOut}

theorem VlanMemory.SameBut.refl (cr : UtAddr) (m : VlanMemory) : VlanMemory.SameBut cr m m :=
  ⟨fun _ _ => Iff.rfl, fun _ _ => rfl, rfl⟩

theorem alloc_sameBut (m : VlanMemory) (cr : UtAddr) (malloced : TmpStorage) (flow : Match) :
    VlanMemory.SameBut cr m (m.alloc cr malloced flow) := by
  refine ⟨fun a ha => ?_, fun a ha => Function.update_of_ne ha _ _, rfl⟩
  simp [VlanMemory.Stored, VlanMemory.alloc, ha]

theorem store_sameBut {m m' : VlanMemory} (h : VlanMemory.SameBut cr m m') (vid vidMask : BitVec 16) :
    VlanMemory.SameBut cr m (m'.store cr vid vidMask) := by
  refine ⟨fun a ha => ?_, h.flow, h.updates⟩
  rw [← h.stored a ha]
  simp [VlanMemory.Stored, VlanMemory.store, ha]

/-- The members of the new rule when its VID and mask have been kept. -/
theorem store_stored (m : VlanMemory) (cr : UtAddr) (malloced : TmpStorage) (flow : Match) :
    ((m.alloc cr malloced flow).store cr (ownVid flow) (ownVidMask flow)).Stored cr ∧
      ((m.alloc cr malloced flow).store cr (ownVid flow) (ownVidMask flow)).flow cr = flow := by
  simp [VlanMemory.Stored, VlanMemory.store, VlanMemory.alloc]

/-- The VID and the mask that a call returns for a flow that is not refused. -/
theorem ecallAddFlow_vid {e e' : Enclave} {args : AddFlowArgs}
    (hs : ecallAddFlow e args = some (e', out)) (hro : out.isReadOnly = false)
    (hpend : out.isDeletionPending = false) (hover : out.isRuleOverlapping = false)
    (hmod : out.isRuleModifiable = true) :
    ecallMiniflowGetVid e' args.cr = some out.vid ∧
      ecallMinimaskGetVidMask e' args.cr = some out.vidMask := by
  unfold ecallAddFlow at hs
  dsimp only at hs
  split at hs
  · cases hs
    cases hro
  · obtain ⟨pending, -, hs⟩ := Option.bind_eq_some_iff.mp hs
    split at hs
    · obtain ⟨_, -, hs⟩ := Option.bind_eq_some_iff.mp hs
      cases hs
      cases hpend
    · obtain ⟨overlaps, -, hs⟩ := Option.bind_eq_some_iff.mp hs
      split at hs
      · obtain ⟨_, -, hs⟩ := Option.bind_eq_some_iff.mp hs
        cases hs
        cases hover
      · obtain ⟨⟨e1, victim⟩, -, hs⟩ := Option.bind_eq_some_iff.mp hs
        obtain ⟨e2, -, hs⟩ := Option.bind_eq_some_iff.mp hs
        obtain ⟨e3, -, hs⟩ := Option.bind_eq_some_iff.mp hs
        dsimp only at hs
        split at hs
        · cases hs
          cases hmod
        · obtain ⟨⟨e4, out4⟩, -, hs⟩ := Option.bind_eq_some_iff.mp hs
          obtain ⟨vid, hvid, hs⟩ := Option.bind_eq_some_iff.mp hs
          obtain ⟨vidMask, hmask, hs⟩ := Option.bind_eq_some_iff.mp hs
          cases hs
          exact ⟨hvid, hmask⟩

theorem VlanOfproto.operateAddFlow_eq (hp : (s.1.rule cr).pending = none) :
    s.operateAddFlow cr out none = (completeOperation (addStarted s.1 cr out.victim) cr).bind
      fun o2 => (deleteEvicted o2 s.1.nextGroup out).bind fun o3 =>
        (ofopgroupSubmitWith vlanOfAddition (o3, s.2) s.1.nextGroup false).map
          fun s4 => (s4, none) := by
  obtain ⟨o1, hcreate, hstart⟩ := ofoperationCreate_add hp out.victim
  rw [← hstart]
  show (ofoperationCreate (ofopgroupCreate s.1).1 s.1.nextGroup cr .add none).bind _ = _
  rw [hcreate, Option.bind_some]
  simp only [Option.map_eq_bind]
  rfl

/-- The operation is dropped again, or it is started and its group submitted. -/
theorem VlanOfproto.operateAddFlow_cases (hp : (s.1.rule cr).pending = none)
    (hs : s.operateAddFlow cr out construct = some (s', error)) :
    OvsSgx.operateAddFlow s.1 cr out construct = some (s'.1, error) ∧
      ((error ≠ none ∧ s'.2 = s.2) ∨ (error = none ∧ ∃ o2 o3,
        completeOperation (addStarted s.1 cr out.victim) cr = some o2 ∧
        deleteEvicted o2 s.1.nextGroup out = some o3 ∧
        ofopgroupSubmitWith vlanOfAddition (o3, s.2) s.1.nextGroup false = some s')) := by
  cases construct with
  | none =>
    rw [VlanOfproto.operateAddFlow_eq hp] at hs
    obtain ⟨o2, h2, hs⟩ := Option.bind_eq_some_iff.mp hs
    obtain ⟨o3, h3, hs⟩ := Option.bind_eq_some_iff.mp hs
    obtain ⟨s4, h4, heq⟩ := Option.map_eq_some_iff.mp hs
    cases heq
    refine ⟨?_, .inr ⟨rfl, o2, o3, h2, h3, h4⟩⟩
    rw [OvsSgx.operateAddFlow_eq hp, h2, Option.bind_some, h3, Option.bind_some,
      ofopgroupSubmitWith_fst h4]
    rfl
  | some err =>
    obtain ⟨⟨o1, k⟩, h1, hs⟩ := Option.bind_eq_some_iff.mp hs
    obtain ⟨o2, h2, hs⟩ := Option.bind_eq_some_iff.mp hs
    obtain ⟨⟨o3, err3⟩, h3, hs⟩ := Option.bind_eq_some_iff.mp hs
    cases hs
    refine ⟨?_, .inl ⟨(backOut_steps h3).2, rfl⟩⟩
    refine Option.bind_eq_some_iff.mpr ⟨_, h1, ?_⟩
    exact Option.bind_eq_some_iff.mpr ⟨o2, h2, h3⟩

theorem VlanOfproto.finishAddFlow_cases (hp : (s.1.rule cr).pending = none)
    (hs : s.finishAddFlow cr out construct = some (s', error)) :
    OvsSgx.finishAddFlow s.1 cr out construct = some (s'.1, error) ∧
      ((error ≠ none ∧ (s'.2 = s.2 ∨ s'.2 = s.2.store cr out.vid out.vidMask)) ∨
        (error = none ∧ ∃ o2 o3,
          completeOperation (addStarted (relinkExpirable s.1 cr out.victim) cr out.victim) cr
            = some o2 ∧
          deleteEvicted o2 s.1.nextGroup out = some o3 ∧
          ofopgroupSubmitWith vlanOfAddition (o3, s.2.store cr out.vid out.vidMask) s.1.nextGroup
            false = some s')) := by
  unfold VlanOfproto.finishAddFlow at hs
  unfold OvsSgx.finishAddFlow
  split at hs
  · rename_i hro
    cases hs
    exact ⟨by rw [if_pos hro], .inl ⟨by simp, .inl rfl⟩⟩
  · rename_i hro
    rw [if_neg hro]
    split at hs
    · rename_i hpend
      cases hs
      exact ⟨by rw [if_pos hpend], .inl ⟨by simp, .inl rfl⟩⟩
    · rename_i hpend
      rw [if_neg hpend]
      split at hs
      · rename_i hover
        cases hs
        exact ⟨by rw [if_pos hover], .inl ⟨by simp, .inl rfl⟩⟩
      · rename_i hover
        rw [if_neg hover]
        dsimp only at hs ⊢
        cases herr : addFlowError (relinkExpirable s.1 cr out.victim) out with
        | some err =>
          simp only [herr] at hs
          obtain ⟨⟨o3, err3⟩, h3, hs⟩ := Option.bind_eq_some_iff.mp hs
          cases hs
          exact ⟨h3, .inl ⟨(backOut_steps h3).2, .inr rfl⟩⟩
        | none =>
          simp only [herr] at hs
          obtain ⟨hbridge, hend⟩ := VlanOfproto.operateAddFlow_cases
            (s := (relinkExpirable s.1 cr out.victim, s.2.store cr out.vid out.vidMask)) hp hs
          exact ⟨hbridge, hend.imp_left fun h => ⟨h.1, .inr h.2⟩⟩

/-- A call that fails concerns its own rule only; one that succeeds submits the group of its
operations. -/
theorem VlanOfproto.addFlow_cases
    (hs : s.addFlow fm new construct malloced = some (s', error)) :
    OvsSgx.addFlow s.1 fm new construct = some (s'.1, error) ∧
      ((error ≠ none ∧ VlanMemory.SameBut new.cr s.2 s'.2) ∨ (error = none ∧ ∃ e out o2 o3,
        ecallAddFlow s.1.enclave (flowArgs s.1 fm new) = some (e, out) ∧
        completeOperation (addStarted (relinkExpirable (entered s.1 fm new e) new.cr out.victim)
          new.cr out.victim) new.cr = some o2 ∧
        deleteEvicted o2 s.1.nextGroup out = some o3 ∧
        ofopgroupSubmitWith vlanOfAddition
          (o3, (s.2.alloc new.cr malloced fm.match).store new.cr out.vid out.vidMask)
          s.1.nextGroup false = some s')) := by
  unfold VlanOfproto.addFlow at hs
  unfold OvsSgx.addFlow
  split at hs
  · rename_i hbad
    cases hs
    exact ⟨by rw [if_pos hbad], .inl ⟨by simp, VlanMemory.SameBut.refl _ _⟩⟩
  · rename_i hgood
    rw [if_neg hgood]
    obtain ⟨⟨e, out⟩, hecall, hs⟩ := Option.bind_eq_some_iff.mp hs
    have hsame := alloc_sameBut s.2 new.cr malloced fm.match
    obtain ⟨hbridge, hend⟩ := VlanOfproto.finishAddFlow_cases
      (s := (entered s.1 fm new e, s.2.alloc new.cr malloced fm.match))
      (by simp [entered, evictionGroupPriority, allocRule]) hs
    refine ⟨Option.bind_eq_some_iff.mpr ⟨_, hecall, hbridge⟩, ?_⟩
    obtain ⟨herr, hm⟩ | ⟨herr, o2, o3, h2, h3, h4⟩ := hend
    · refine .inl ⟨herr, ?_⟩
      obtain hm | hm := hm
      · rw [hm]
        exact hsame
      · rw [hm]
        exact store_sameBut hsame _ _
    · exact .inr ⟨herr, e, out, o2, o3, hecall, h2, h3, h4⟩

end AddFlow

/-! ## Every run -/

section Runs

variable {s s' : VlanOfproto} {c : VlanCall} {fm : FlowMod} {new : NewRule}
  {construct error : Option Ofperr} {malloced : TmpStorage}

/-- A call that fails. -/
theorem addFlow_error_vlanOk (h : Sane s.1) (hok : VlanOk s.1.waiting s)
    (hnew : s.1.enclave.NewAddr new.cr)
    (hbridge : addFlow s.1 fm new construct = some (s'.1, error)) (herr : error ≠ none)
    (hsame : VlanMemory.SameBut new.cr s.2 s'.2) : VlanOk s'.1.waiting s' := by
  let A : UtAddr → Prop := fun a => s'.1.enclave.Matches a (minimatchInit (s.2.flow a)) ∧
    s.2.Stored a ∧ a ≠ new.cr
  have hA : s.1.Awaits A s.1.waiting := hok.awaits.imp fun k hk htype hknown => by
    have hne := hnew.ne (hok.awaits.addition k hk htype).spared.holds
    have hset := run_matches (c := .addFlow fm new construct) h hnew
      (by rw [BridgeCall.run, hbridge]; rfl)
      (by rintro fm' new' construct' ⟨⟩; exact hne.symm) hknown.1
    exact ⟨hset, hknown.2, hne⟩
  have hA' := addFlow_error_awaits h hA hnew hbridge herr
  refine ⟨hA'.imp fun k _ _ ha => ⟨?_, (hsame.stored _ ha.2.2).mpr ha.2.1⟩, ?_⟩
  · rw [hsame.flow _ ha.2.2]
    exact ha.1
  · rw [hsame.updates]
    exact hok.updates

/-- The matches after `SGX_add_flow`. -/
theorem ecallAddFlow_matches {e e' : Enclave} {args : AddFlowArgs} {out : AddFlowOut}
    (h : ShadowsOk e) (hnew : e.NewAddr args.cr) (hs : ecallAddFlow e args = some (e', out)) :
    e'.Matches args.cr (minimatchInit args.match) ∧
      ∀ a m, a ≠ args.cr → e.Matches a m → e'.Matches a m := by
  obtain rfl | hset := ecallAddFlow_settled h hnew hs
  · exact ⟨hnew.matches _, fun _ _ _ hm => hm⟩
  · exact ⟨hset.matches (ecallClsRuleInit_matches_new hnew _ _),
      fun a m ha hm => hset.matches (ecallClsRuleInit_matches ha.symm hm _ _)⟩

/-- A call that succeeds. -/
theorem addFlow_started_vlanOk (h : Sane s.1) (hok : VlanOk s.1.waiting s)
    (hnew : s.1.enclave.NewAddr new.cr) (hfresh : ∀ k ∈ s.1.waiting, (s.1.op k).rule ≠ new.cr)
    (hs : s.addFlow fm new construct malloced = some (s', none)) : VlanOk s'.1.waiting s' := by
  obtain ⟨hbridge, hend⟩ := VlanOfproto.addFlow_cases hs
  obtain ⟨e, out, o2, o3, hecall, h2, h3, h4⟩ : ∃ e out o2 o3, _ :=
    (hend.resolve_left fun h => h.1 rfl).2
  obtain ⟨-, -, herr⟩ | ⟨-, -, herr, -⟩ | ⟨e', out', V, E, hgood, -, hecall', hadd, hend⟩ :=
    addFlow_cases h hnew hbridge
  · exact absurd rfl herr
  · exact absurd rfl herr
  · obtain ⟨rfl, rfl⟩ := Prod.mk.inj (Option.some.inj (hecall'.symm.trans hecall))
    obtain ⟨herr, -⟩ | ⟨-, -, -, hpe, hpv, -, -⟩ := hend
    · exact absurd rfl herr
    have hg : s.1.nextGroup ∉ s.1.pending := fun hmem => Nat.lt_irrefl _ (h.groups _ hmem)
    have hst := addStarted_flowStarted (by exact hg) h2 h3
    have hops := addStarted_flowOps (by exact hg) h2 h3
    obtain ⟨hsane, hg3⟩ := hst.saneWith h hnew (FlowMod.table_lt h.nTables hgood) hadd
      (entered_flowEntered s.1 fm new e' out'.victim)
    have henc : o3.enclave = e' := hst.enclave
    obtain ⟨hro, hpend, hover, hmod⟩ := hadd.accepted
    obtain ⟨hmnew, hmold⟩ := ecallAddFlow_matches h.enclave.shadows hnew hecall
    obtain ⟨hvid, hmask⟩ := ecallAddFlow_vid hecall hro hpend hover hmod
    obtain ⟨hvid', hmask'⟩ := ecallVid_of_matches hadd.ok.shadows
      ((hadd.live h.enclave new.cr).mpr (.inl rfl)) hmnew
    have hvid : out'.vid = ownVid fm.match := Option.some.inj (hvid.symm.trans hvid')
    have hmask : out'.vidMask = ownVidMask fm.match := Option.some.inj (hmask.symm.trans hmask')
    rw [hvid, hmask] at h4
    have hsame := store_sameBut (alloc_sameBut s.2 new.cr malloced fm.match) (ownVid fm.match)
      (ownVidMask fm.match)
    obtain ⟨hstored, hflow⟩ := store_stored s.2 new.cr malloced fm.match
    generalize (s.2.alloc new.cr malloced fm.match).store new.cr (ownVid fm.match)
      (ownVidMask fm.match) = m at *
    have hold : s.1.Awaits (VlanOfproto.Known (o3, m)) s.1.waiting := by
      refine hok.awaits.imp fun k hk htype hknown => ?_
      have hne := hnew.ne (hok.awaits.addition k hk htype).spared.holds
      refine ⟨?_, (hsame.stored _ hne).mpr hknown.2⟩
      rw [hsame.flow _ hne, henc]
      exact hmold _ _ hne hknown.1
    have hcr : VlanOfproto.Known (o3, m) new.cr := by
      refine ⟨?_, hstored⟩
      rw [hflow, henc]
      exact hmnew
    have hall := FlowOps.awaits h hold hnew hfresh hadd hst hops hpe hpv hcr
    refine CompletionInvariant.submit vlanOk_invariant hsane hg3 h4 ⟨hall, ?_⟩
    rw [hsame.updates]
    exact hok.updates

/-- A call that adds no flow and completes no addition. -/
theorem other_vlanOk {c : BridgeCall} {o' : Ofproto} (h : Sane s.1) (hok : VlanOk s.1.waiting s)
    (hc : c.Allowed s.1) (hadd : ∀ fm new construct, c ≠ .addFlow fm new construct)
    (hs : c.run s.1 = some o') : VlanOk o'.waiting (o', s.2) := by
  have hA : s.1.Awaits (VlanOfproto.Known (o', s.2)) s.1.waiting :=
    hok.awaits.imp fun k _ _ hknown =>
      ⟨run_matches h hc hs (fun fm new construct heq => absurd heq (hadd fm new construct))
        hknown.1, hknown.2⟩
  exact ⟨run_awaits h hA hc hs hadd, hok.updates⟩

theorem run_vlanOk (h : Sane s.1) (hok : VlanOk s.1.waiting s) (hc : c.Allowed s)
    (hs : c.run s = some s') : Sane s'.1 ∧ VlanOk s'.1.waiting s' := by
  have hother : ∀ c : BridgeCall, c.Allowed s.1 →
      (∀ fm new construct, c ≠ .addFlow fm new construct) → (c.run s.1).map (·, s.2) = some s' →
      Sane s'.1 ∧ VlanOk s'.1.waiting s' := by
    intro c hc hadd hs
    obtain ⟨o', h1, rfl⟩ := Option.map_eq_some_iff.mp hs
    exact ⟨(run_sane h hc h1).1, other_vlanOk h hok hc hadd h1⟩
  cases c with
  | setVlan vlan =>
    cases hs
    exact ⟨h, hok.awaits, hok.updates⟩
  | call c malloced =>
    obtain ⟨hc, hfresh⟩ := hc
    cases c with
    | addFlow fm new construct =>
      obtain ⟨⟨s1, error⟩, h1, rfl⟩ := Option.map_eq_some_iff.mp hs
      obtain ⟨hbridge, hend⟩ := VlanOfproto.addFlow_cases h1
      refine ⟨(addFlow_sane h hc hbridge).1, ?_⟩
      obtain ⟨herr, hsame⟩ | ⟨rfl, -⟩ := hend
      · exact addFlow_error_vlanOk h hok hc hbridge herr hsame
      · exact addFlow_started_vlanOk h hok hc (hfresh fm new construct rfl) h1
    | completeOperations =>
      exact ⟨(completeOperations_sane h (completeOperationsWith_fst hs)).1,
        CompletionInvariant.operations vlanOk_invariant h hs hok⟩
    | deleteFlows rules => exact hother _ hc (by simp) hs
    | flush => exact hother _ hc (by simp) hs
    | evict => exact hother _ hc (by simp) hs
    | ruleExpire a => exact hother _ hc (by simp) hs
    | clog clogged => exact hother _ hc (by simp) hs
    | configure c => exact hother _ hc (by simp) hs

/-- In every run a completed addition sets the bit that it should, and nothing else, exactly if
what has been read from memory is harmless. -/
theorem vlanUpdate_recorded_iff (h : VlanReachable s) :
    ∀ u ∈ s.2.updates, u.Recorded ↔ u.Harmless := by
  suffices hall : Sane s.1 ∧ VlanOk s.1.waiting s from hall.2.updates
  induction h with
  | create nTables enclaveRandom random m hn hnone =>
    have hwait : (ofprotoCreate nTables enclaveRandom random).waiting = [] := by
      simp [Ofproto.waiting, ofprotoCreate]
    refine ⟨ofprotoCreate_sane hn enclaveRandom random, ?_, by simp [hnone]⟩
    rw [hwait]
    exact ⟨List.nodup_nil, by simp, by simp⟩
  | step c _ hc hs ih => exact run_vlanOk ih.1 ih.2 hc hs

end Runs

/-! ## Two flows -/

/-- The state after a call, unchanged if the call is undefined. -/
def VlanOfproto.after (s : VlanOfproto) (c : VlanCall) : VlanOfproto := (c.run s).getD s

theorem VlanReachable.after {s : VlanOfproto} {c : VlanCall} (h : VlanReachable s)
    (hc : c.Allowed s) : VlanReachable (s.after c) := by
  unfold VlanOfproto.after
  cases hs : c.run s with
  | none => exact h
  | some s' => exact h.step c hc hs

/-- A bridge with one table and an empty bitmap, in which `src` is added with the memory
`malloced`. -/
def addedTo (src : Match) (malloced : TmpStorage) : VlanOfproto :=
  VlanOfproto.after
    (ofprotoCreate 1 (fun _ => 5#16) fun _ => 6#16, ⟨fun _ => ⟨0#16, 0#16⟩,
      some ⟨some bitmapAllocate, false⟩, fun _ => matchCatchall, fun _ => ⟨0#16, 0#16⟩, []⟩)
    (.call (.addFlow ⟨0, src, 1, false, 0, 0⟩ (ruleAt 1#64) none) malloced)

theorem addedTo_reachable (src : Match) (malloced : TmpStorage) :
    VlanReachable (addedTo src malloced) := by
  refine VlanReachable.after (.create 1 _ _ _ Nat.one_pos rfl) ⟨?_, ?_⟩
  · show Enclave.NewAddr _ 1#64
    decide +kernel
  · simp [Ofproto.waiting, ofprotoCreate]

/-- VLAN 5 is recorded, whatever was in memory. -/
theorem vlanFive_recorded : VlanReachable (addedTo matchVlanFive ⟨7#16, 0x0fff#16⟩) ∧
    (addedTo matchVlanFive ⟨7#16, 0x0fff#16⟩).2.updates.length = 1 ∧
    ∀ u ∈ (addedTo matchVlanFive ⟨7#16, 0x0fff#16⟩).2.updates, u.Harmless ∧ u.Recorded := by
  have hown : ∀ u ∈ (addedTo matchVlanFive ⟨7#16, 0x0fff#16⟩).2.updates,
      ownVidMask u.flow = VLAN_VID_MASK ∧ ownVid u.flow = 5#16 := by
    decide +kernel
  refine ⟨addedTo_reachable _ _, by decide +kernel, fun u hu => ?_⟩
  obtain ⟨hmask, hvid⟩ := hown u hu
  have hharmless : u.Harmless :=
    ⟨fun hzero => absurd (hmask.symm.trans hzero) (by decide),
      fun _ hzero => absurd (hvid.symm.trans hzero) (by decide)⟩
  exact ⟨hharmless, (vlanUpdate_recorded_iff (addedTo_reachable _ _) u hu).mpr hharmless⟩

/-- A flow that does not match a VLAN sets bit 7, from memory. -/
theorem firstWord_not_recorded : ¬ ∀ s, VlanReachable s → ∀ u ∈ s.2.updates, u.Recorded := by
  intro hall
  have hone : ∃ u ∈ (addedTo (matchFirstWord 7#32) ⟨7#16, 0x0fff#16⟩).2.updates,
      ownVidMask u.flow ≠ VLAN_VID_MASK ∧ (u.before.vlanBitmap.map (· 7)) = some false ∧
        ((u.after.bind VlanState.vlanBitmap).map (· 7)) = some true := by
    decide +kernel
  obtain ⟨u, hu, hmask, hbefore, hafter⟩ := hone
  obtain ⟨after, hsome, hrec⟩ := hall _ (addedTo_reachable _ _) u hu
  rw [if_neg hmask] at hrec
  rw [hsome, hrec, Option.bind_some, hbefore] at hafter
  cases hafter

end OvsSgx
