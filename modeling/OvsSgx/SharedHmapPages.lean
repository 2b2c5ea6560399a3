/-
OvsSgx.SharedHmapPages — the maps of the cache, each on a page of its own.

`HmapsOk` says that the maps of a set are as the `ChainMap`s given for them,
that they have no node in common, and that each has its array in its own
structure or on a page, which is marked allocated and long enough. It is
kept by whatever leaves the maps and their pages alone; a page that is taken
was free, so no map had it, and the page that `resize` frees is that of the
old array.
-/
import OvsSgx.SharedHmapTheorems

namespace OvsSgx

open PointerChain

namespace SharedCache

/-! ## Maps on pages -/

/-- The array of map `id` is on page `k`. -/
structure OnPage (s : SharedCache) (id : HmapId) (k : Nat) : Prop where
  has : s.memory.Has k
  buckets : s.buckets id = .page (s.memory.pages k).bytes
  status : (s.memory.pages k).status = PAGE_STATUS_ALLOCATED
  size : 8 * ((s.hmap id).mask + 1) ≤ (s.memory.pages k).size

/-- The array of map `id` is its own member, for a single bucket, or on a page. -/
def Housed (s : SharedCache) (id : HmapId) : Prop :=
  ((s.hmap id).mask = 0 ∧ s.buckets id = .one id) ∨ ((s.hmap id).mask ≠ 0 ∧ ∃ k, s.OnPage id k)

/-- The maps in `I` are in order. -/
structure HmapsOk (I : HmapId → Prop) (s : SharedCache) (M : HmapId → Hmap HmapNode) : Prop where
  represents : ∀ j, I j → s.Represents j (M j)
  housed : ∀ j, I j → s.Housed j
  apart : ∀ i j, I i → I j → i ≠ j → s.buckets i ≠ s.buckets j
  nodup : ∀ j, I j → (M j).values.Nodup
  disjoint : ∀ i j, I i → I j → i ≠ j → ∀ x ∈ (M i).values, x ∉ (M j).values
  pages : s.memory.Apart

variable {s s' : SharedCache} {id j : HmapId} {i k n : Nat} {I : HmapId → Prop}
  {M : HmapId → Hmap HmapNode} {m : Hmap HmapNode} {X : HmapNode → Prop}

theorem OnPage.holds (h : s.OnPage id k) (hi : i ≤ (s.hmap id).mask) :
    s.holds (s.buckets id) i = true := by
  have hsize := h.size
  rw [h.buckets]
  refine List.any_eq_true.mpr ⟨k, List.mem_range.mpr h.has.1, ?_⟩
  simp only [h.has.2, Bool.true_and, beq_self_eq_true, decide_eq_true_eq]
  omega

theorem Housed.holds (h : s.Housed id) (hi : i ≤ (s.hmap id).mask) :
    s.holds (s.buckets id) i = true := by
  rcases h with ⟨hmask, hb⟩ | ⟨-, k, hk⟩
  · rw [hb]
    simp [SharedCache.holds]
    omega
  · exact hk.holds hi

theorem Housed.own (h : s.Housed id) : s.Own id := by
  rcases h with ⟨-, hb⟩ | ⟨-, k, hk⟩
  · exact Or.inl hb
  · exact Or.inr ⟨_, hk.buckets⟩

/-- A map has no other one's member for its array. -/
theorem Housed.buckets_ne (h : s.Housed id) (hj : id ≠ j) : s.buckets id ≠ .one j := by
  rcases h with ⟨-, hb⟩ | ⟨-, k, hk⟩
  · rw [hb]
    exact fun heq => hj (Buckets.one.inj heq)
  · rw [hk.buckets]
    exact fun heq => Buckets.noConfusion heq

/-! ## What keeps the maps in order -/

theorem ChangedOnly.mask_eq (h : ChangedOnly s s' id X) (j : HmapId) :
    (s'.hmap j).mask = (s.hmap j).mask := by
  by_cases hj : j = id
  · rw [hj, h.mask]
  · rw [h.hmap j hj]

theorem ChangedOnly.buckets_eq (h : ChangedOnly s s' id X) (j : HmapId) :
    s'.buckets j = s.buckets j := by
  by_cases hj : j = id
  · rw [hj, h.buckets]
  · exact congrArg SharedHmap.buckets (h.hmap j hj)

theorem ChangedOnly.onPage (h : ChangedOnly s s' id X) (hk : s.OnPage j k) : s'.OnPage j k where
  has := by
    obtain ⟨hlt, halloc⟩ := hk.has
    exact ⟨h.cap ▸ hlt, h.allocated ▸ halloc⟩
  buckets := by rw [h.buckets_eq, h.pages, hk.buckets]
  status := by rw [h.pages, hk.status]
  size := by
    rw [h.mask_eq, h.pages]
    exact hk.size

theorem ChangedOnly.housed (h : ChangedOnly s s' id X) (hj : s.Housed j) : s'.Housed j := by
  unfold Housed
  rw [h.mask_eq, h.buckets_eq]
  exact hj.imp_right fun hpage => ⟨hpage.1, hpage.2.imp fun _ => h.onPage⟩

theorem ChangedOnly.apart (h : ChangedOnly s s' id X) (hpages : s.memory.Apart) :
    s'.memory.Apart := by
  intro a b ha hb heq
  rw [h.pages] at heq
  unfold SharedMemory.Has at ha hb
  rw [h.cap, h.allocated] at ha hb
  exact hpages a b ha hb heq

theorem HmapsOk.mono {J : HmapId → Prop} (h : HmapsOk I s M) (hJ : ∀ j, J j → I j) :
    HmapsOk J s M :=
  ⟨fun j hj => h.represents j (hJ j hj), fun j hj => h.housed j (hJ j hj),
    fun i j hi hj => h.apart i j (hJ i hi) (hJ j hj), fun j hj => h.nodup j (hJ j hj),
    fun i j hi hj => h.disjoint i j (hJ i hi) (hJ j hj), h.pages⟩

/-- A step that changes a map which is not among them, and none of their nodes. -/
theorem HmapsOk.frame (h : HmapsOk I s M) (hc : ChangedOnly s s' id X) (hid : ¬ I id)
    (hb : ∀ j, I j → s.buckets j ≠ s.buckets id)
    (hX : ∀ j, I j → ∀ x ∈ (M j).values, ¬ X x) : HmapsOk I s' M := by
  have hne : ∀ j, I j → j ≠ id := fun j hj heq => hid (heq ▸ hj)
  refine ⟨fun j hj => (h.represents j hj).frame hc (hne j hj) (hb j hj) (hX j hj),
    fun j hj => hc.housed (h.housed j hj), fun i j hi hj hij => ?_, h.nodup, h.disjoint,
    hc.apart h.pages⟩
  rw [hc.buckets_eq, hc.buckets_eq]
  exact h.apart i j hi hj hij

/-- One map more. -/
theorem HmapsOk.add (h : HmapsOk (fun j => I j ∧ j ≠ id) s M) (hrep : s.Represents id m)
    (hhoused : s.Housed id) (hapart : ∀ j, I j → j ≠ id → s.buckets j ≠ s.buckets id)
    (hnodup : m.values.Nodup)
    (hdisj : ∀ j, I j → j ≠ id → ∀ x ∈ (M j).values, x ∉ m.values) :
    HmapsOk I s (Function.update M id m) := by
  have hother : ∀ j, j ≠ id → Function.update M id m j = M j :=
    fun j hj => Function.update_of_ne hj m M
  have hself : Function.update M id m id = m := Function.update_self ..
  refine ⟨fun j hj => ?_, fun j hj => ?_, fun i j hi hj hij => ?_, fun j hj => ?_,
    fun i j hi hj hij x hx => ?_, h.pages⟩
  · by_cases hjid : j = id
    · rw [hjid, hself]
      exact hrep
    · rw [hother j hjid]
      exact h.represents j ⟨hj, hjid⟩
  · by_cases hjid : j = id
    · rw [hjid]
      exact hhoused
    · exact h.housed j ⟨hj, hjid⟩
  · by_cases hiid : i = id
    · rw [hiid]
      exact (hapart j hj fun heq => hij (hiid.trans heq.symm)).symm
    · by_cases hjid : j = id
      · rw [hjid]
        exact hapart i hi hiid
      · exact h.apart i j ⟨hi, hiid⟩ ⟨hj, hjid⟩ hij
  · by_cases hjid : j = id
    · rw [hjid, hself]
      exact hnodup
    · rw [hother j hjid]
      exact h.nodup j ⟨hj, hjid⟩
  · by_cases hiid : i = id
    · have hjid : j ≠ id := fun heq => hij (hiid.trans heq.symm)
      rw [hiid, hself] at hx
      rw [hother j hjid]
      exact fun hmem => hdisj j hj hjid x hmem hx
    · rw [hother i hiid] at hx
      by_cases hjid : j = id
      · rw [hjid, hself]
        exact hdisj i hi hiid x hx
      · rw [hother j hjid]
        exact h.disjoint i j ⟨hi, hiid⟩ ⟨hj, hjid⟩ hij x hx

/-- Other pages, apart from those of the maps. -/
theorem HmapsOk.setMemory (h : HmapsOk I s M) {memory : SharedMemory HmapNode}
    (hpages : memory.Apart)
    (hkept : ∀ j k, I j → s.OnPage j k → memory.Has k ∧
      memory.pages k = s.memory.pages k ∧
      memory.words (s.memory.pages k).bytes = s.memory.words (s.memory.pages k).bytes) :
    HmapsOk I { s with memory := memory } M := by
  have hhoused : ∀ j, I j → Housed { s with memory := memory } j := by
    intro j hj
    refine (h.housed j hj).imp_right fun hpage => ⟨hpage.1, hpage.2.imp fun k hk => ?_⟩
    obtain ⟨hhas, hpage, -⟩ := hkept j k hj hk
    have hpage' : ({ s with memory := memory } : SharedCache).memory.pages k
      = s.memory.pages k := hpage
    exact ⟨hhas, by rw [hpage']; exact hk.buckets, by rw [hpage']; exact hk.status,
      by rw [hpage']; exact hk.size⟩
  refine ⟨fun j hj => ?_, hhoused, h.apart, h.nodup, h.disjoint, hpages⟩
  refine (h.represents j hj).congr rfl (fun i hi => ?_) (fun i hi => ?_) (fun _ _ => rfl)
    fun _ _ => rfl
  · have hmask := (h.represents j hj).mask
    exact (hhoused j hj).holds (by rw [← hmask] at hi; exact hi)
  · rcases h.housed j hj with ⟨-, hb⟩ | ⟨-, k, hk⟩
    · rw [hb]
      rfl
    · rw [hk.buckets]
      exact congrFun (hkept j k hj hk).2.2 i

/-- Another content of a structure that is none of theirs. -/
theorem HmapsOk.setHmap (h : HmapsOk I s M) (hid : ¬ I id) (hm : SharedHmap) :
    HmapsOk I (s.setHmap id hm) M := by
  have hne : ∀ j, I j → j ≠ id := fun j hj heq => hid (heq ▸ hj)
  have hmap : ∀ j, I j → (s.setHmap id hm).hmap j = s.hmap j :=
    fun j hj => Function.update_of_ne (hne j hj) _ _
  have hb : ∀ j, I j → (s.setHmap id hm).buckets j = s.buckets j :=
    fun j hj => congrArg SharedHmap.buckets (hmap j hj)
  refine ⟨fun j hj => ?_, fun j hj => ?_, fun i j hi hj hij => ?_, h.nodup, h.disjoint, h.pages⟩
  · refine (h.represents j hj).congr (hmap j hj) (fun i hi => ?_) (fun i hi => ?_) (fun _ _ => rfl)
      fun _ _ => rfl
    · rw [holds_setHmap]
      exact (h.represents j hj).holds i hi
    · have hown := (h.housed j hj).buckets_ne (hne j hj)
      cases hbj : s.buckets j with
      | one a =>
        have ha : a ≠ id := fun heq => hown (by rw [hbj, heq])
        simp [SharedCache.bucket, SharedCache.setHmap, ha]
      | page addr => rfl
  · refine (h.housed j hj).imp (fun hone => ?_) fun hpage => ?_
    · rw [hmap j hj, hb j hj]
      exact hone
    · rw [hmap j hj]
      exact ⟨hpage.1, hpage.2.imp fun k hk => ⟨hk.has, (hb j hj).trans hk.buckets, hk.status,
        by rw [hmap j hj]; exact hk.size⟩⟩
  · rw [hb i hi, hb j hj]
    exact h.apart i j hi hj hij

/-! ## Swapping and freeing -/

/-- The maps of the cache. -/
def Live (j : HmapId) : Prop := j ≠ .tmp

theorem hmapMoved_of_ne (h : (s.hmap id).mask ≠ 0) : s.hmapMoved id = s := if_neg h

theorem hmap_setHmap_self {hm : SharedHmap} : (s.setHmap id hm).hmap id = hm :=
  Function.update_self ..

theorem hmap_setHmap_ne {hm : SharedHmap} (h : j ≠ id) : (s.setHmap id hm).hmap j = s.hmap j :=
  Function.update_of_ne h _ _

/-- A map that has been moved has its array where its mask says. -/
theorem hmapMoved_cases (s : SharedCache) (id : HmapId) :
    ((s.hmap id).mask ≠ 0 ∧ s.hmapMoved id = s) ∨
    ((s.hmap id).mask = 0 ∧
      s.hmapMoved id = s.setHmap id { s.hmap id with buckets := .one id }) := by
  by_cases h : (s.hmap id).mask = 0
  · exact Or.inr ⟨h, if_pos h⟩
  · exact Or.inl ⟨h, hmapMoved_of_ne h⟩

theorem hmap_hmapMoved_ne (h : j ≠ id) : (s.hmapMoved id).hmap j = s.hmap j := by
  rcases hmapMoved_cases s id with ⟨-, heq⟩ | ⟨-, heq⟩
  · rw [heq]
  · rw [heq, hmap_setHmap_ne h]

/-- A third map does not take part in a swap. -/
theorem hmap_hmapSwap_ne {a b : HmapId} (ha : j ≠ a) (hb : j ≠ b) :
    (s.hmapSwap a b).hmap j = s.hmap j := by
  rw [hmapSwap, hmap_hmapMoved_ne hb, hmap_hmapMoved_ne ha, hmap_setHmap_ne hb, hmap_setHmap_ne ha]

theorem HmapsOk.moved (h : HmapsOk I s M) (hid : ¬ I id) : HmapsOk I (s.hmapMoved id) M := by
  rcases hmapMoved_cases s id with ⟨-, heq⟩ | ⟨-, heq⟩
  · rw [heq]
    exact h
  · rw [heq]
    exact h.setHmap hid _

theorem HmapsOk.swap (h : HmapsOk I s M) (hid : ¬ I id) (hj : ¬ I j) :
    HmapsOk I (s.hmapSwap id j) M :=
  (((h.setHmap hid _).setHmap hj _).moved hid).moved hj

/-- The two structures after `hmap_swap`, the second one of which has been on a page. -/
theorem hmapSwap_members (hid : id ≠ j) (hmask : (s.hmap j).mask ≠ 0) :
    (s.hmapSwap id j).hmap id = s.hmap j ∧
    ((s.hmapSwap id j).hmap j = s.hmap id ∧ (s.hmap id).mask ≠ 0 ∨
      (s.hmapSwap id j).hmap j = { s.hmap id with buckets := .one j } ∧ (s.hmap id).mask = 0) ∧
    (s.hmapSwap id j).next = s.next ∧ (s.hmapSwap id j).hash = s.hash ∧
    (s.hmapSwap id j).memory = s.memory := by
  have h1 : ((s.setHmap id (s.hmap j)).setHmap j (s.hmap id)).hmap id = s.hmap j := by
    rw [hmap_setHmap_ne hid, hmap_setHmap_self]
  have h2 : ((s.setHmap id (s.hmap j)).setHmap j (s.hmap id)).hmap j = s.hmap id :=
    hmap_setHmap_self
  unfold hmapSwap
  have hmoved := hmapMoved_of_ne (s := (s.setHmap id (s.hmap j)).setHmap j (s.hmap id))
    (by rw [h1]; exact hmask)
  rw [hmoved]
  rcases hmapMoved_cases ((s.setHmap id (s.hmap j)).setHmap j (s.hmap id)) j with
    ⟨hm, heq⟩ | ⟨hm, heq⟩
  · rw [heq]
    rw [h2] at hm
    exact ⟨h1, Or.inl ⟨h2, hm⟩, rfl, rfl, rfl⟩
  · rw [heq, h2]
    rw [h2] at hm
    exact ⟨(hmap_setHmap_ne hid).trans h1, Or.inr ⟨hmap_setHmap_self, hm⟩, rfl, rfl, rfl⟩

/-- A map on a page that has been moved to another structure. -/
theorem Represents.moved (h : s.Represents j m) (hk : s.OnPage j k)
    (hhmap : s'.hmap id = s.hmap j) (hnext : s'.next = s.next) (hhash : s'.hash = s.hash)
    (hmemory : s'.memory = s.memory) : s'.Represents id m ∧ s'.OnPage id k := by
  have hb : s'.buckets id = .page (s.memory.pages k).bytes :=
    (congrArg SharedHmap.buckets hhmap).trans hk.buckets
  have hpage : s'.OnPage id k := by
    refine ⟨by rw [hmemory]; exact hk.has, by rw [hb, hmemory], by rw [hmemory]; exact hk.status, ?_⟩
    rw [hhmap, hmemory]
    exact hk.size
  refine ⟨⟨by rw [hhmap]; exact h.mask, by rw [hhmap]; exact h.n, fun i hi => ?_, fun i hi => ?_,
    fun e he => by rw [hhash]; exact h.hash e he⟩, hpage⟩
  · refine hpage.holds ?_
    rw [hhmap, h.mask]
    exact hi
  · have hchain := h.chain i hi
    rw [hk.buckets] at hchain
    rw [hb, hnext]
    have hslot : s'.bucket (.page (s.memory.pages k).bytes) i
        = s.bucket (.page (s.memory.pages k).bytes) i := by
      simp only [SharedCache.bucket, hmemory]
    rw [hslot]
    exact hchain

/-- The page of the old array is freed, and no map has it. -/
theorem HmapsOk.free (h : HmapsOk I s M) (hhas : s.memory.Has k)
    (hother : ∀ j, I j → s.buckets j ≠ .page (s.memory.pages k).bytes) :
    HmapsOk I { s with memory := s.memory.freePage (s.memory.pages k).bytes } M := by
  rw [SharedMemory.freePage_eq h.pages hhas]
  refine h.setMemory h.pages.setStatus fun j n hj hn => ?_
  have hne : n ≠ k := fun heq => hother j hj (heq ▸ hn.buckets)
  exact ⟨hn.has, SharedMemory.pages_setStatus_ne hne, rfl⟩

/-! ## Growing -/

/-- The slots of a map hold all its nodes. -/
theorem Represents.slots (h : s.Represents id m) :
    (List.range ((s.hmap id).mask + 1)).flatMap m.bucket = m.entries := by
  rw [h.mask]
  rfl

/-- All the nodes of a map can move to an empty array on a page of its own. -/
theorem HmapsOk.movable (h : HmapsOk Live s M) (hid : Live id) {newMask : Nat}
    (htmp : s.Represents .tmp (ChainMap.empty newMask)) (hn : s.OnPage .tmp n)
    (hapart : s.buckets id ≠ s.buckets .tmp) :
    Movable s id (M id).bucket (List.range ((s.hmap id).mask + 1))
      (ChainMap.empty newMask) := by
  have hrep := h.represents id hid
  have hle : ∀ i ∈ List.range ((s.hmap id).mask + 1), i ≤ (M id).mask := fun i hi => by
    rw [← hrep.mask]
    exact Nat.le_of_lt_succ (List.mem_range.mp hi)
  refine ⟨htmp, Or.inr ⟨_, hn.buckets⟩, hapart, fun i hi => hrep.holds i (hle i hi),
    fun i hi => hrep.chain i (hle i hi), fun i hi => ?_, ?_, ?_, ?_⟩
  · rw [hrep.n]
    exact length_bucket_le (hle i hi)
  · rw [hrep.slots]
    exact hrep.hash
  · rw [hrep.slots]
    exact h.nodup id hid
  · intro e _ hmem
    simp [ChainMap.values] at hmem

/-- Once `tmp` has an empty array on a page, the nodes move there and the map has that page. -/
theorem resizeInto_spec (h : HmapsOk Live s M) (hid : Live id) {newMask : Nat}
    (hmask : newMask ≠ 0) (htmp : s.Represents .tmp (ChainMap.empty newMask))
    (hn : s.OnPage .tmp n) (hapart : ∀ j, Live j → s.buckets j ≠ s.buckets .tmp) :
    ∃ s', s.resizeInto id = some s' ∧
      HmapsOk Live s' (Function.update M id ((M id).rehash newMask)) := by
  have hslots := (h.represents id hid).slots
  obtain ⟨s1, h1, hrep1, hc1⟩ :=
    moveBuckets_spec hid (h.movable hid htmp hn (hapart id hid))
  rw [hslots] at hrep1 hc1
  have hn1 : s1.OnPage .tmp n := hc1.onPage hn
  have hmask1 : (s1.hmap .tmp).mask ≠ 0 := by
    rw [hc1.mask, htmp.mask]
    exact hmask
  -- the other map has kept its nodes and its array
  have hothers : HmapsOk (fun j => Live j ∧ j ≠ id) s1 M := by
    refine (h.mono fun j hj => hj.1).frame hc1 (fun hlive => hlive.1 rfl)
      (fun j hj => hapart j hj.1) fun j hj x hx hmem => ?_
    exact h.disjoint j id hj.1 hid hj.2 x hx hmem
  have hmembers := hmapSwap_members (s := s1) hid hmask1
  obtain ⟨hself, hold, hnext, hhash, hmemory⟩ := hmembers
  obtain ⟨hrep2, hn2⟩ := hrep1.moved hn1 hself hnext hhash hmemory
  have hothers2 : HmapsOk (fun j => Live j ∧ j ≠ id) (s1.hmapSwap id .tmp) M :=
    hothers.swap (fun hi => hi.2 rfl) (fun hi => hi.1 rfl)
  have hbid : (s1.hmapSwap id .tmp).buckets id = s.buckets .tmp :=
    (congrArg SharedHmap.buckets hself).trans hc1.buckets
  have hbother : ∀ j, Live j → j ≠ id → (s1.hmapSwap id .tmp).buckets j = s.buckets j := by
    intro j hj hne
    exact (congrArg SharedHmap.buckets (hmap_hmapSwap_ne hne hj)).trans
      (congrArg SharedHmap.buckets (hc1.hmap j hj))
  have hall : HmapsOk Live (s1.hmapSwap id .tmp)
      (Function.update M id ((M id).rehash newMask)) := by
    have hperm : ((M id).rehash newMask).values.Perm (M id).values :=
      (ChainMap.entries_rehash_perm (M id) newMask).map Prod.snd
    refine hothers2.add hrep2 (Or.inr ⟨by rw [hself]; exact hmask1, n, hn2⟩) (fun j hj hne => ?_)
      (hperm.nodup_iff.mpr (h.nodup id hid)) fun j hj hne x hx hmem => ?_
    · rw [hbid, hbother j hj hne]
      exact hapart j hj
    · exact h.disjoint j id hj hid hne x hx (hperm.mem_iff.mp hmem)
  unfold resizeInto
  rw [h1, Option.bind_eq_bind, Option.bind_some]
  dsimp only
  rcases hold with ⟨hold, holdMask⟩ | ⟨hold, -⟩
  · -- the old array is on a page
    rcases h.housed id hid with ⟨hzero, -⟩ | ⟨-, k, hk⟩
    · exact absurd ((hc1.mask_eq id).trans hzero) holdMask
    · have hbtmp : (s1.hmapSwap id .tmp).buckets .tmp = s.buckets id :=
        (congrArg SharedHmap.buckets hold).trans (hc1.buckets_eq id)
      have hpages : (s1.hmapSwap id .tmp).memory.pages k = s.memory.pages k := by
        rw [hmemory, hc1.pages]
      have hhas : (s1.hmapSwap id .tmp).memory.Has k := by
        rw [hmemory]
        exact (hc1.onPage hk).has
      have hfree := hall.free hhas fun j hj => by
        rw [hpages, ← hk.buckets]
        by_cases hji : j = id
        · rw [hji, hbid]
          exact (hapart id hid).symm
        · rw [hbother j hj hji]
          exact h.apart j id hj hid hji
      rw [hpages] at hfree
      rw [hbtmp, hk.buckets]
      exact ⟨_, rfl, hfree⟩
  · have hbtmp : (s1.hmapSwap id .tmp).buckets .tmp = .one .tmp := congrArg SharedHmap.buckets hold
    rw [hbtmp]
    exact ⟨_, rfl, hall⟩

end SharedCache

end OvsSgx
