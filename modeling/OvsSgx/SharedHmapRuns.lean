/-
OvsSgx.SharedHmapRuns — runs of insertions and removals on the cache's maps.

Each call is followed on the `ChainMap`s of `HmapsOk`, and a run on what has
been inserted and not been removed since. A call is never undefined: chains
end, buckets lie in pages that are in use, and the mask that `resize` is
called with is one less than a power of two, since there are no more nodes
than addresses.
-/
import OvsSgx.Lib.BitFill
import OvsSgx.SharedHmapPages

namespace OvsSgx

open PointerChain

/-! ## The mask -/

/-- `calc_mask` gives one less than a power of two. -/
theorem calcMask_mersenne {n : Nat} (hn : n / 2 < 2 ^ 64) : ∃ k, calcMask n = 2 ^ k - 1 := by
  have hfilled := (((((BitFill.filled_one (n / 2)).step).step).step).step).step.step
  by_cases hzero : n / 2 = 0
  · refine ⟨0, ?_⟩
    unfold calcMask
    rw [hzero]
    rfl
  · obtain ⟨t, ht⟩ := hfilled.eq_mersenne hn hzero
    refine ⟨max (t + 1) 2, ?_⟩
    rw [← BitFill.mersenne_or_two t, ← ht]
    rfl

namespace SharedCache

variable {s s' : SharedCache} {id j : HmapId} {i k n hash : Nat} {x : HmapNode}
  {I : HmapId → Prop} {M : HmapId → Hmap HmapNode} {m : Hmap HmapNode}
  {answer : Option (PageMalloc HmapNode)}

/-- A map has no more nodes than there are addresses. -/
theorem count_le (h : m.values.Nodup) : m.count ≤ 2 ^ 64 := by
  have hnodup : (m.values.map BitVec.toFin).Nodup :=
    h.map fun a b hab => BitVec.toFin_inj.mp hab
  have hle := hnodup.length_le_card
  rw [List.length_map, Fintype.card_fin] at hle
  have hcount : m.count = m.values.length := by
    rw [m.count_eq_length, ChainMap.values, List.length_map]
  rwa [hcount]

theorem Fresh.changedOnly {X : HmapNode → Prop} (hc : ChangedOnly s s' id X)
    {a : PageMalloc HmapNode} (h : s.memory.Fresh a) : s'.memory.Fresh a := by
  intro k hk hnext
  have hhas : s.memory.Has k := by
    unfold SharedMemory.Has at hk ⊢
    rwa [hc.cap, hc.allocated] at hk
  have hsame : s'.memory.nextPage = s.memory.nextPage := by
    simp only [SharedMemory.nextPage, SharedMemory.nextUnallocatedPage,
      SharedMemory.nextFreePage, hc.pages, hc.allocated, hc.cap]
  rw [hc.pages]
  rw [hsame] at hnext
  exact h k hhas hnext

/-! ## Growing -/

/-- `tmp` gets the page `n` that has been taken, and its buckets are null. -/
theorem HmapsOk.newArray (h : HmapsOk Live s M) {newMask : Nat} {memory : SharedMemory HmapNode}
    (htaken : s.memory.Taken memory n (8 * (newMask + 1)) PAGE_STATUS_ALLOCATED)
    (hzero : (s.hmap .tmp).n = 0) :
    let s2 := SharedCache.setHmap { s with memory := memory } .tmp
      { s.hmap .tmp with buckets := .page (memory.pages n).bytes, mask := newMask }
    ∃ s', (List.range (newMask + 1)).foldlM clearBucket s2 = some s' ∧ HmapsOk Live s' M ∧
      s'.Represents .tmp (ChainMap.empty newMask) ∧ s'.OnPage .tmp n ∧
      ∀ j, Live j → s'.buckets j ≠ s'.buckets .tmp := by
  intro s2
  -- no map was on the page, for it was free
  have hnot : ∀ j k, Live j → s.OnPage j k → k ≠ n := by
    intro j k _ hk hkn
    have hfree := htaken.wasFree (hkn ▸ hk.has)
    rw [← hkn, hk.status] at hfree
    exact absurd hfree (by decide)
  have hkept : ∀ j k, Live j → s.OnPage j k → memory.Has k ∧
      memory.pages k = s.memory.pages k ∧
      memory.words (s.memory.pages k).bytes = s.memory.words (s.memory.pages k).bytes := by
    intro j k hj hk
    have hne := hnot j k hj hk
    obtain ⟨halloc, hpage⟩ := htaken.others k hne
    have hhas : memory.Has k := by
      unfold SharedMemory.Has
      rw [htaken.cap, halloc]
      exact hk.has
    refine ⟨hhas, hpage, htaken.words _ fun heq => hne ?_⟩
    exact htaken.apart k n hhas htaken.has (by rw [hpage]; exact heq)
  have h2 : HmapsOk Live s2 M := (h.setMemory htaken.apart hkept).setHmap (fun hl => hl rfl) _
  have hb2 : s2.buckets .tmp = .page (memory.pages n).bytes :=
    congrArg SharedHmap.buckets hmap_setHmap_self
  have hmask2 : (s2.hmap .tmp).mask = newMask := congrArg SharedHmap.mask hmap_setHmap_self
  have hn2 : s2.OnPage .tmp n :=
    ⟨htaken.has, hb2, htaken.status, by rw [hmask2]; exact htaken.size⟩
  have hapart2 : ∀ j, Live j → s2.buckets j ≠ s2.buckets .tmp := by
    intro j hj heq
    have hbj : s2.buckets j = s.buckets j := congrArg SharedHmap.buckets (hmap_setHmap_ne hj)
    rw [hb2, hbj] at heq
    rcases h.housed j hj with ⟨-, hone⟩ | ⟨-, k, hk⟩
    · rw [hone] at heq
      cases heq
    · obtain ⟨hhas, hpage, -⟩ := hkept j k hj hk
      rw [hk.buckets, ← hpage] at heq
      exact hnot j k hj hk (htaken.apart k n hhas htaken.has (Buckets.page.inj heq))
  have hholds : ∀ i ≤ newMask, s2.holds (s2.buckets .tmp) i = true := fun i hi =>
    hn2.holds (by rw [hmask2]; exact hi)
  obtain ⟨s', h', hc', hcount, hnull⟩ := clearBuckets_spec (List.range (newMask + 1))
    (Or.inr ⟨_, hb2⟩) fun i hi => hholds i (Nat.le_of_lt_succ (List.mem_range.mp hi))
  have hbtmp : s'.buckets .tmp = s2.buckets .tmp := hc'.buckets
  refine ⟨s', h', h2.frame hc' (fun hl => hl rfl) hapart2 fun _ _ _ _ hf => hf, ?_,
    hc'.onPage hn2, fun j hj => ?_⟩
  · refine ⟨by rw [hc'.mask, hmask2]; rfl, ?_, fun i hi => ?_, fun i hi => ?_, fun e he => ?_⟩
    · rw [hcount]
      exact (congrArg SharedHmap.n hmap_setHmap_self).trans hzero
    · rw [hbtmp, hc'.holds]
      exact hholds i hi
    · rw [hbtmp]
      exact hnull i (List.mem_range.mpr (Nat.lt_succ_of_le hi))
    · simp at he
  · rw [hc'.buckets_eq, hbtmp]
    exact hapart2 j hj

/-- `resize` either moves all nodes or, without a page, changes nothing. -/
theorem resize_spec (h : HmapsOk Live s M) (hid : Live id) {newMask : Nat}
    (hpow : newMask &&& (newMask + 1) = 0) (hpos : newMask ≠ 0)
    (hfresh : ∀ a, answer = some a → s.memory.Fresh a) :
    ∃ s' m', s.resize id newMask PAGE_STATUS_ALLOCATED answer = some s' ∧
      m'.entries.Perm (M id).entries ∧ HmapsOk Live s' (Function.update M id m') := by
  have hinit : HmapsOk Live (s.hmapInit .tmp) M := h.setHmap (fun hl => hl rfl) _
  have hpages : (s.hmapInit .tmp).memory.Apart := h.pages
  unfold resize
  rw [if_neg (by simpa using hpow), if_neg hpos]
  rcases SharedMemory.getPage_cases (8 * (newMask + 1)) PAGE_STATUS_ALLOCATED hpages
    hfresh with hnone | ⟨memory, n, hsome, htaken⟩
  · rw [hnone]
    refine ⟨_, M id, rfl, List.Perm.refl _, ?_⟩
    rw [Function.update_eq_self]
    exact hinit
  · rw [hsome]
    obtain ⟨s1, h1, hok1, hrep1, hn1, hapart1⟩ := hinit.newArray htaken
      (congrArg SharedHmap.n hmap_setHmap_self)
    obtain ⟨s', h', hok'⟩ := resizeInto_spec hok1 hid hpos hrep1 hn1 hapart1
    refine ⟨s', _, ?_, ChainMap.entries_rehash_perm _ _, hok'⟩
    have hmove : ((List.range (newMask + 1)).foldlM clearBucket (SharedCache.setHmap
        { s.hmapInit .tmp with memory := memory } .tmp
        { (s.hmapInit .tmp).hmap .tmp with
          buckets := .page (memory.pages n).bytes, mask := newMask })).bind
        (fun s => s.resizeInto id) = some s' := by
      rw [h1, Option.bind_some, h']
    exact hmove

/-! ## Insertion -/

/-- A change of one map, its array staying where it is. -/
theorem HmapsOk.change {X : HmapNode → Prop} (h : HmapsOk Live s M) (hid : Live id)
    (hc : ChangedOnly s s' id X) (hrep : s'.Represents id m) (hnodup : m.values.Nodup)
    (hX : ∀ j, Live j → j ≠ id → ∀ x ∈ (M j).values, ¬ X x ∧ x ∉ m.values) :
    HmapsOk Live s' (Function.update M id m) := by
  have hothers : HmapsOk (fun j => Live j ∧ j ≠ id) s' M :=
    (h.mono fun j hj => hj.1).frame hc (fun hj => hj.2 rfl)
      (fun j hj => h.apart j id hj.1 hid hj.2) fun j hj x hx => (hX j hj.1 hj.2 x hx).1
  refine hothers.add hrep (hc.housed (h.housed id hid)) (fun j hj hne => ?_) hnodup
    fun j hj hne x hx => (hX j hj hne x hx).2
  rw [hc.buckets_eq, hc.buckets_eq]
  exact h.apart j id hj hid hne

/-- `hmap_insert` of a node that is in no map. -/
theorem hmapInsert_spec (h : HmapsOk Live s M) (hid : Live id)
    (hx : ∀ j, Live j → x ∉ (M j).values) (hash : Nat)
    (hfresh : ∀ a, answer = some a → s.memory.Fresh a) :
    ∃ s' m', s.hmapInsert id x hash PAGE_STATUS_ALLOCATED answer = some s' ∧
      m'.entries.Perm ((hash, x) :: (M id).entries) ∧
      HmapsOk Live s' (Function.update M id m') := by
  obtain ⟨s1, h1, hrep1, hc1⟩ := hmapInsertFast_spec (h.represents id hid)
    (h.housed id hid).own (hx id hid) hash
  have hperm := (M id).entries_insert_perm hash x
  have hvalues : ((M id).insert hash x).values.Perm (x :: (M id).values) := hperm.map Prod.snd
  have hnodup : ((M id).insert hash x).values.Nodup :=
    hvalues.nodup_iff.mpr (List.nodup_cons.mpr ⟨hx id hid, h.nodup id hid⟩)
  have hok1 := h.change hid hc1 hrep1 hnodup fun j hj hne y hy => by
    have hyx : y ≠ x := fun heq => hx j hj (heq ▸ hy)
    refine ⟨hyx, fun hmem => ?_⟩
    rcases mem_values_insert.mp hmem with heq | hmem
    · exact hyx heq
    · exact h.disjoint j id hj hid hne y hy hmem
  rw [hmapInsert, h1, Option.bind_eq_bind, Option.bind_some]
  have hsame : ∃ s' m', (some s1 : Option SharedCache) = some s' ∧
      m'.entries.Perm ((hash, x) :: (M id).entries) ∧
      HmapsOk Live s' (Function.update M id m') := ⟨s1, _, rfl, hperm, hok1⟩
  split
  · unfold hmapExpand
    dsimp only
    split
    · -- the map grows
      rename_i hgrow
      have hcount : (s1.hmap id).n / 2 < 2 ^ 64 := by
        rw [hrep1.n]
        exact Nat.lt_of_le_of_lt (Nat.div_le_div_right (count_le hnodup)) (by decide)
      obtain ⟨k, hk⟩ := calcMask_mersenne hcount
      obtain ⟨s', m', h', hperm', hok'⟩ := resize_spec hok1 hid
        (by rw [hk]; exact BitFill.mersenne_and_succ k) (Nat.ne_of_gt (Nat.zero_lt_of_lt hgrow))
        fun a ha => Fresh.changedOnly hc1 (hfresh a ha)
      rw [Function.update_self] at hperm'
      rw [Function.update_idem] at hok'
      exact ⟨s', m', h', hperm'.trans hperm, hok'⟩
    · exact hsame
  · exact hsame

/-! ## Removal -/

/-- Different buckets have no node in common. -/
theorem bucket_disjoint (hnodup : m.values.Nodup) (hij : i ≠ k) (hi : i ≤ m.mask) (hk : k ≤ m.mask)
    (hx : x ∈ (m.bucket i).map Prod.snd) : x ∉ (m.bucket k).map Prod.snd := by
  intro hmem
  obtain ⟨e, he, rfl⟩ := List.mem_map.mp hx
  obtain ⟨d, hd, heq⟩ := List.mem_map.mp hmem
  have hentry : ∀ i ≤ m.mask, ∀ e ∈ m.bucket i, e ∈ m.entries := fun i hi e he =>
    List.mem_flatMap.mpr ⟨i, List.mem_range.mpr (Nat.lt_succ_of_le hi), he⟩
  have hde : d = e := List.inj_on_of_nodup_map hnodup (hentry k hk d hd) (hentry i hi e he) heq
  have hpi := m.placed i e he
  have hpk := m.placed k d hd
  rw [hde, hpi] at hpk
  exact hij hpk

theorem changedOnly_setCount : ChangedOnly s (s.setCount id n) id (fun _ => False) where
  hmap _ hj := hmap_setCount_ne hj
  buckets := members_setCount.1
  mask := members_setCount.2.1
  pages := rfl
  allocated := rfl
  cap := rfl
  bucket _ _ _ := bucket_setCount
  next _ _ := rfl
  hash _ _ := rfl

theorem changedOnly_setNext {p : Option HmapNode} :
    ChangedOnly s (s.setNext x p) id (· = x) where
  hmap _ _ := rfl
  buckets := rfl
  mask := rfl
  pages := rfl
  allocated := rfl
  cap := rfl
  bucket _ _ _ := bucket_setNext
  next _ hy := Function.update_of_ne hy _ _
  hash _ _ := rfl

/-- A map without the entry `e`, once its chain leads past it. -/
theorem Represents.erase {e : Nat × HmapNode} {X : HmapNode → Prop} (h : s.Represents id m)
    (he : e ∈ m.bucket (e.1 &&& m.mask)) (hc : ChangedOnly s s' id X)
    (hn : (s'.hmap id).n = (s.hmap id).n) (hhash : s'.hash = s.hash)
    (hchain : Chain s'.next (s'.bucket (s.buckets id) (e.1 &&& m.mask))
      (((m.bucket (e.1 &&& m.mask)).erase e).map Prod.snd))
    (hother : ∀ i ≤ m.mask, i ≠ e.1 &&& m.mask →
      Chain s'.next (s'.bucket (s.buckets id) i) ((m.bucket i).map Prod.snd)) :
    (s'.setCount id ((s'.hmap id).n - 1)).Represents id (m.erase e) := by
  have hb : (s'.setCount id ((s'.hmap id).n - 1)).buckets id = s.buckets id :=
    members_setCount.1.trans hc.buckets
  refine ⟨members_setCount.2.1.trans (hc.mask.trans h.mask), ?_, fun i hi => ?_, fun i hi => ?_,
    fun d hd => ?_⟩
  · refine members_setCount.2.2.trans ?_
    rw [hn, h.n]
    exact (if_pos he).symm
  · rw [hb, changedOnly_setCount.holds, hc.holds]
    exact h.holds i hi
  · rw [hb, bucket_setCount]
    by_cases hi0 : i = e.1 &&& m.mask
    · subst hi0
      have hbucket : (m.erase e).bucket (e.1 &&& m.mask)
          = (m.bucket (e.1 &&& m.mask)).erase e := Function.update_self ..
      rw [hbucket]
      exact hchain
    · have hbucket : (m.erase e).bucket i = m.bucket i := Function.update_of_ne hi0 _ _
      rw [hbucket]
      exact hother i hi hi0
  · show s'.hash d.2 = d.1
    rw [hhash]
    rw [m.entries_erase_eq] at hd
    exact h.hash d (List.mem_of_mem_erase hd)

/-- The chain of an entry, and what removing the entry leaves of it. -/
theorem bucket_split (hnodup : m.values.Nodup) {e : Nat × HmapNode} (he : e ∈ m.entries) :
    ∃ A B, m.bucket (e.1 &&& m.mask) = A ++ e :: B ∧
      (m.bucket (e.1 &&& m.mask)).erase e = A ++ B ∧
      ((A ++ e :: B).map Prod.snd).Nodup := by
  obtain ⟨A, B, hsplit, hnot⟩ := List.eq_append_cons_of_mem (ChainMap.mem_bucket_iff.mpr he)
  obtain ⟨A', B', -, hentries, -⟩ := m.entries_around e.1
  refine ⟨A, B, hsplit, ?_, ?_⟩
  · rw [hsplit, List.erase_append_right _ hnot, List.erase_cons_head]
  · rw [ChainMap.values, hentries, List.map_append, List.map_append, hsplit] at hnodup
    exact (hnodup.of_append_right).of_append_left

/-- `hmap_remove` of a node of the map. -/
theorem hmapRemove_spec (h : HmapsOk Live s M) (hid : Live id) (hx : (hash, x) ∈ (M id).entries) :
    ∃ s', s.hmapRemove id x = some s' ∧
      HmapsOk Live s' (Function.update M id ((M id).erase (hash, x))) := by
  have hrep := h.represents id hid
  have hown := (h.housed id hid).own
  have hlt : hash &&& (M id).mask ≤ (M id).mask := Nat.and_le_right
  have hheld := hrep.holds _ hlt
  have hhash : s.hash x = hash := hrep.hash _ hx
  have hmem : (hash, x) ∈ (M id).bucket (hash &&& (M id).mask) := ChainMap.mem_bucket_iff.mpr hx
  obtain ⟨A, B, hsplit, herase, hnd⟩ := bucket_split (h.nodup id hid) hx
  have hchain := hrep.chain _ hlt
  have hlen := length_bucket_le (m := M id) hlt
  rw [hsplit, List.length_append, List.length_cons] at hlen
  rw [hsplit] at hchain
  rw [List.map_append, List.map_cons] at hchain hnd
  have hxA : x ∉ A.map Prod.snd := fun hA =>
    (List.nodup_append.mp hnd).2.2 x hA x (List.mem_cons_self ..) rfl
  have hfind : findLink s.next (s.bucket (s.buckets id) (hash &&& (M id).mask)) x
      (s.hmap id).n .head = some (Link.head.after (A.map Prod.snd)) :=
    Chain.findLink_eq hchain hxA (by rw [hrep.n, List.length_map]; omega)
  -- the values of the map that is left
  have hvalues : ((M id).erase (hash, x)).values.Sublist (M id).values :=
    (M id).values_erase_sublist _
  have hnodup : ((M id).erase (hash, x)).values.Nodup := (h.nodup id hid).sublist hvalues
  have hwhole : ∀ {s1 : SharedCache}, ChangedOnly s s1 id (· ∈ (M id).values) →
      (s1.setCount id ((s1.hmap id).n - 1)).Represents id ((M id).erase (hash, x)) →
      HmapsOk Live (s1.setCount id ((s1.hmap id).n - 1))
        (Function.update M id ((M id).erase (hash, x))) := by
    intro s1 hc1 hrep1
    refine h.change hid (hc1.trans (changedOnly_setCount.mono fun _ hf => hf.elim)) hrep1 hnodup
      fun j hj hne y hy => ?_
    have hnot := h.disjoint j id hj hid hne y hy
    exact ⟨hnot, fun hy' => hnot (hvalues.subset hy')⟩
  unfold hmapRemove
  rw [readBucket, hhash, hrep.mask, if_pos hheld, Option.bind_eq_bind, Option.bind_some, hfind,
    Option.bind_eq_bind, Option.bind_some]
  rcases List.eq_nil_or_concat A with rfl | ⟨A, a, rfl⟩
  · -- the bucket points to the node
    have hc1 := changedOnly_setBucket (i := hash &&& (M id).mask) (p := s.next x) hown
    refine ⟨_, ?_, hwhole (hc1.mono fun _ hf => hf.elim) (hrep.erase hmem hc1 members_setBucket.2.2
      hash_setBucket ?_ fun i hi hne => ?_)⟩
    · rw [List.map_nil, Link.after, writeBucket, if_pos hheld]
      rfl
    · rw [herase, next_setBucket, bucket_setBucket_self]
      exact hchain.tail (A := [])
    · rw [next_setBucket, bucket_setBucket_ne hheld (hrep.holds i hi) hne]
      exact hrep.chain i hi
  · -- the node before points to it
    have ha : a.2 ∈ ((M id).bucket (hash &&& (M id).mask)).map Prod.snd := by
      rw [hsplit]
      simp
    have hc1 : ChangedOnly s (s.setNext a.2 (s.next x)) id (· ∈ (M id).values) :=
      changedOnly_setNext.mono fun y hy => hy ▸ mem_values_of_bucket hlt ha
    refine ⟨_, ?_, hwhole hc1 (hrep.erase hmem hc1 rfl rfl ?_ fun i hi hne => ?_)⟩
    · rw [List.map_concat, List.concat_eq_append, Link.after_concat]
      rfl
    · rw [List.map_concat, List.concat_eq_append, List.append_assoc] at hchain hnd
      rw [herase, List.concat_eq_append, List.map_append, List.map_append, List.append_assoc]
      exact hchain.bypass hnd
    · exact (hrep.chain i hi).update (bucket_disjoint (h.nodup id hid) (Ne.symm hne) hlt hi ha)

/-! ## Search -/

/-- `HMAP_FOR_EACH_WITH_HASH` visits the nodes of that hash. -/
theorem forEachWithHash_eq (h : HmapsOk Live s M) (hid : Live id) (hash : Nat) :
    s.forEachWithHash id hash = some ((M id).withHash hash) := by
  have hrep := h.represents id hid
  have hlt : hash &&& (M id).mask ≤ (M id).mask := Nat.and_le_right
  have hlen : (((M id).bucket (hash &&& (M id).mask)).map Prod.snd).length ≤ (s.hmap id).n := by
    rw [hrep.n, List.length_map]
    exact length_bucket_le hlt
  have hvisit := (hrep.chain _ hlt).visit_eq (f := fun x => s.hash x == hash) hlen hlen
  have hfilter : (((M id).bucket (hash &&& (M id).mask)).map Prod.snd).filter
      (fun x => s.hash x == hash) = (M id).withHash hash := by
    rw [List.filter_map, ChainMap.withHash]
    congr 1
    refine List.filter_congr fun e he => ?_
    have hentry : e ∈ (M id).entries := List.mem_flatMap.mpr
      ⟨_, List.mem_range.mpr (Nat.lt_succ_of_le hlt), he⟩
    show (s.hash e.2 == hash) = (e.1 == hash)
    rw [hrep.hash e hentry]
  rw [hfilter] at hvisit
  unfold forEachWithHash hmapFirstWithHash hmapNextWithHash
  rw [readBucket, hrep.mask, if_pos (hrep.holds _ hlt)]
  exact hvisit

/-! ## Runs -/

/-- What is held after `node` has been inserted with `some hash` or removed. -/
def holdNode (held : HmapId → HmapNode → Option Nat) (id : HmapId) (node : HmapNode)
    (hash : Option Nat) : HmapId → HmapNode → Option Nat :=
  Function.update held id (Function.update (held id) node hash)

/-- The states that insertions and removals lead to, and for each map the nodes that have been
inserted and not been removed since, with their hashes. A node that is inserted is in no map, one
that is removed is in the map; the untrusted side may refuse a page. -/
inductive HmapRun : SharedCache → (HmapId → HmapNode → Option Nat) → Prop where
  | init {pages : Nat → Page} {words : Nat → Nat → Option HmapNode}
      {answers : List (PageMalloc HmapNode)} {memory : SharedMemory HmapNode} (tmp : SharedHmap)
      (hash : HmapNode → Nat) (next : HmapNode → Option HmapNode) :
      answers.length = MAX_N_PAGES / 2 → (answers.map PageMalloc.bytes).Nodup →
      SharedMemory.init pages words answers = some memory →
      HmapRun (SharedCache.init tmp hash next memory) fun _ _ => none
  | insert {s s' : SharedCache} {held : HmapId → HmapNode → Option Nat} {id : HmapId}
      {node : HmapNode} {hash : Nat} {answer : Option (PageMalloc HmapNode)} :
      HmapRun s held → Live id → (∀ j, Live j → held j node = none) →
      (∀ a, answer = some a → s.memory.Fresh a) →
      s.hmapInsert id node hash PAGE_STATUS_ALLOCATED answer = some s' →
      HmapRun s' (holdNode held id node (some hash))
  | remove {s s' : SharedCache} {held : HmapId → HmapNode → Option Nat} {id : HmapId}
      {node : HmapNode} :
      HmapRun s held → Live id → held id node ≠ none → s.hmapRemove id node = some s' →
      HmapRun s' (holdNode held id node none)

/-- The entries of `M` are the nodes that are held. -/
def Holds (M : HmapId → Hmap HmapNode) (held : HmapId → HmapNode → Option Nat) : Prop :=
  ∀ j, Live j → ∀ hash x, (hash, x) ∈ (M j).entries ↔ held j x = some hash

section Held

variable {held : HmapId → HmapNode → Option Nat}

theorem Holds.values (h : Holds M held) (hj : Live j) : x ∈ (M j).values ↔ held j x ≠ none := by
  constructor
  · intro hmem
    obtain ⟨e, he, rfl⟩ := List.mem_map.mp hmem
    rw [(h j hj e.1 e.2).mp he]
    simp
  · intro hne
    obtain ⟨hash, hhash⟩ := Option.ne_none_iff_exists'.mp hne
    exact List.mem_map.mpr ⟨(hash, x), (h j hj hash x).mpr hhash, rfl⟩

theorem holdNode_self {node : HmapNode} {o : Option Nat} :
    holdNode held id node o id node = o := by
  simp [holdNode]

theorem holdNode_ne {node y : HmapNode} {o : Option Nat} (hy : y ≠ node) :
    holdNode held id node o j y = held j y := by
  unfold holdNode
  by_cases hj : j = id
  · rw [hj, Function.update_self, Function.update_of_ne hy]
  · rw [Function.update_of_ne hj]

theorem holdNode_other {node y : HmapNode} {o : Option Nat} (hj : j ≠ id) :
    holdNode held id node o j y = held j y := by
  rw [holdNode, Function.update_of_ne hj]

/-- The entries after an insertion. -/
theorem Holds.insert (h : Holds M held) (hid : Live id) (hx : held id x = none)
    (hperm : m.entries.Perm ((hash, x) :: (M id).entries)) :
    Holds (Function.update M id m) (holdNode held id x (some hash)) := by
  intro j hj k y
  by_cases hjid : j = id
  · subst hjid
    rw [Function.update_self, hperm.mem_iff, List.mem_cons, h j hj k y]
    by_cases hy : y = x
    · subst hy
      rw [holdNode_self, hx]
      simp [eq_comm]
    · rw [holdNode_ne hy]
      simp [hy]
  · rw [Function.update_of_ne hjid, holdNode_other hjid]
    exact h j hj k y

/-- The entries after a removal. -/
theorem Holds.remove (h : Holds M held) (hnodup : (M id).values.Nodup)
    (hx : (hash, x) ∈ (M id).entries) :
    Holds (Function.update M id ((M id).erase (hash, x))) (holdNode held id x none) := by
  intro j hj k y
  by_cases hjid : j = id
  · subst hjid
    have hentries : (M j).entries.Nodup := List.Nodup.of_map _ hnodup
    rw [Function.update_self, (M j).entries_erase_eq, hentries.mem_erase_iff, h j hj k y]
    by_cases hy : y = x
    · subst hy
      rw [holdNode_self, (h j hj hash y).mp hx]
      simp [eq_comm]
    · rw [holdNode_ne hy]
      simp [hy]
  · rw [Function.update_of_ne hjid, holdNode_other hjid]
    exact h j hj k y

/-- New maps are empty and have no page. -/
theorem init_ok {tmp : SharedHmap} {hash : HmapNode → Nat} {next : HmapNode → Option HmapNode}
    {memory : SharedMemory HmapNode} (hmemory : memory.Apart) :
    HmapsOk Live (SharedCache.init tmp hash next memory) fun _ => ChainMap.empty 0 := by
  have hmap : ∀ j, Live j → (SharedCache.init tmp hash next memory).hmap j = ⟨.one j, none, 0, 0⟩ := by
    intro j hj
    cases j with
    | entries => rfl
    | utCrs => rfl
    | tmp => exact absurd rfl hj
  have hb : ∀ j, Live j → (SharedCache.init tmp hash next memory).buckets j = .one j :=
    fun j hj => congrArg SharedHmap.buckets (hmap j hj)
  refine ⟨fun j hj => ⟨?_, ?_, fun i hi => ?_, fun i hi => ?_, fun e he => ?_⟩, fun j hj => ?_,
    fun i j hi hj hij => ?_, fun j hj => ?_, fun i j hi hj hij x hx => ?_, hmemory⟩
  · rw [hmap j hj]
    rfl
  · rw [hmap j hj]
    rfl
  · obtain rfl : i = 0 := Nat.le_zero.mp hi
    rw [hb j hj]
    rfl
  · rw [hb j hj]
    show ((SharedCache.init tmp hash next memory).hmap j).one = none
    rw [hmap j hj]
  · simp at he
  · exact Or.inl ⟨congrArg SharedHmap.mask (hmap j hj), hb j hj⟩
  · rw [hb i hi, hb j hj]
    exact fun heq => hij (Buckets.one.inj heq)
  · simp [ChainMap.values]
  · simp [ChainMap.values] at hx

/-- Along a run the maps are in order and hold what has been inserted and not removed. -/
theorem HmapRun.ok (h : HmapRun s held) : ∃ M, HmapsOk Live s M ∧ Holds M held := by
  induction h with
  | init tmp hash next _ hnodup hinit =>
    refine ⟨_, init_ok (SharedMemory.apart_init hnodup hinit), fun j _ hash x => ?_⟩
    simp
  | insert _ hid hnew hfresh hs ih =>
    obtain ⟨M, hok, hholds⟩ := ih
    obtain ⟨s1, m, h1, hperm, hok1⟩ := hmapInsert_spec hok hid
      (fun j hj hmem => (hholds.values hj).mp hmem (hnew j hj)) _ hfresh
    rw [h1] at hs
    obtain rfl := Option.some.inj hs
    exact ⟨_, hok1, hholds.insert hid (hnew _ hid) hperm⟩
  | remove _ hid hheld hs ih =>
    obtain ⟨M, hok, hholds⟩ := ih
    obtain ⟨hash, hhash⟩ := Option.ne_none_iff_exists'.mp hheld
    have hmem := (hholds _ hid hash _).mpr hhash
    obtain ⟨s1, h1, hok1⟩ := hmapRemove_spec hok hid hmem
    rw [h1] at hs
    obtain rfl := Option.some.inj hs
    exact ⟨_, hok1, hholds.remove (hok.nodup _ hid) hmem⟩

/-- Along every run of insertions and removals each map leads through exactly the nodes inserted and
not removed, a search by hash visits those of that hash, maps with more than one bucket have
different pages, marked allocated and long enough, and the next call is defined. -/
theorem sharedHmaps_hold (h : HmapRun s held) :
    (∀ id, Live id → ∃ m : Hmap HmapNode, s.Represents id m ∧ m.entries.Nodup ∧
      ∀ hash x, (hash, x) ∈ m.entries ↔ held id x = some hash) ∧
    (∀ id, Live id → ∀ hash, ∃ l, s.forEachWithHash id hash = some l ∧ l.Nodup ∧
      ∀ x, x ∈ l ↔ held id x = some hash) ∧
    (∀ id, Live id → (s.hmap id).mask ≠ 0 → ∃ k, s.OnPage id k) ∧
    (∀ id j k n, Live id → Live j → id ≠ j → s.OnPage id k → s.OnPage j n → k ≠ n) ∧
    (∀ id, Live id → ∀ node hash answer, (∀ j, Live j → held j node = none) →
      (∀ a, answer = some a → s.memory.Fresh a) →
      (s.hmapInsert id node hash PAGE_STATUS_ALLOCATED answer).isSome) ∧
    (∀ id, Live id → ∀ node, held id node ≠ none → (s.hmapRemove id node).isSome) := by
  obtain ⟨M, hok, hholds⟩ := h.ok
  refine ⟨fun id hid => ?_, fun id hid hash => ?_, fun id hid hmask => ?_,
    fun id j k n hid hj hne hk hn heq => ?_, fun id hid node hash answer hnew hfresh => ?_,
    fun id hid node hheld => ?_⟩
  · exact ⟨M id, hok.represents id hid, List.Nodup.of_map _ (hok.nodup id hid), hholds id hid⟩
  · refine ⟨_, forEachWithHash_eq hok hid hash, ?_, fun x => ?_⟩
    · rw [ChainMap.withHash_eq]
      exact (hok.nodup id hid).sublist (List.filter_sublist.map _)
    · rw [ChainMap.mem_withHash]
      exact hholds id hid hash x
  · rcases hok.housed id hid with ⟨hzero, -⟩ | ⟨-, hpage⟩
    · exact absurd hzero hmask
    · exact hpage
  · refine hok.apart id j hid hj hne ?_
    rw [hk.buckets, hn.buckets, heq]
  · obtain ⟨s1, m, h1, -⟩ := hmapInsert_spec hok hid
      (fun j hj hmem => (hholds.values hj).mp hmem (hnew j hj)) hash hfresh
    rw [h1]
    rfl
  · obtain ⟨hash, hhash⟩ := Option.ne_none_iff_exists'.mp hheld
    obtain ⟨s1, h1, -⟩ := hmapRemove_spec hok hid ((hholds id hid hash node).mpr hhash)
    rw [h1]
    rfl

/-- The state after an insertion without an answer of the untrusted side. -/
def afterInsert (s : SharedCache) (id : HmapId) (node : HmapNode) (hash : Nat) : SharedCache :=
  (s.hmapInsert id node hash PAGE_STATUS_ALLOCATED none).getD s

theorem HmapRun.afterInsert (h : HmapRun s held) (hid : Live id)
    (hnew : ∀ j, Live j → held j x = none) (hash : Nat) :
    HmapRun (s.afterInsert id x hash) (holdNode held id x (some hash)) := by
  obtain ⟨M, hok, hholds⟩ := h.ok
  have hnone : ∀ a, (none : Option (PageMalloc HmapNode)) = some a → s.memory.Fresh a := nofun
  obtain ⟨s1, m, h1, -⟩ := hmapInsert_spec hok hid
    (fun j hj hmem => (hholds.values hj).mp hmem (hnew j hj)) hash hnone
  have hs : s.afterInsert id x hash = s1 := by rw [SharedCache.afterInsert, h1, Option.getD_some]
  exact .insert h hid hnew hnone (h1.trans (congrArg some hs.symm))

/-- Five free pages. -/
def freePages : List (PageMalloc HmapNode) :=
  (List.range 5).map fun i => ⟨100 * i, fun _ => none, PAGE_STATUS_FREE⟩

/-- A new cache with these pages. -/
def newMaps : Option SharedCache := do
  let memory ← SharedMemory.init (fun _ => ⟨0, 0, 0⟩) (fun _ _ => none) freePages
  return SharedCache.init ⟨.one .tmp, none, 0, 0⟩ (fun _ => 0) (fun _ => none) memory

theorem newMaps_isSome : newMaps.isSome = true := by decide +kernel

theorem newMaps_run : HmapRun (newMaps.get newMaps_isSome) fun _ _ => none := by
  obtain ⟨s, hs⟩ := Option.isSome_iff_exists.mp newMaps_isSome
  rw [Option.get_of_eq_some _ hs]
  have hbind := hs
  rw [newMaps, Option.bind_eq_bind] at hbind
  obtain ⟨memory, hmemory, hinit⟩ := Option.bind_eq_some_iff.mp hbind
  obtain rfl := Option.some.inj hinit
  exact .init _ _ _ (by decide) (by decide) hmemory

/-- Two nodes of one hash in the first map. -/
def twoNodes : SharedCache :=
  ((newMaps.get newMaps_isSome).afterInsert .entries 1#64 7).afterInsert .entries 2#64 7

/-- With the second node the map has moved to a page. -/
theorem twoNodes_onPage : (twoNodes.hmap .entries).mask = 3 ∧ ∃ k, twoNodes.OnPage .entries k := by
  have hmask : (twoNodes.hmap .entries).mask = 3 := by decide +kernel
  have hlive : Live .entries := HmapId.noConfusion
  have hrun := (newMaps_run.afterInsert (x := 1#64) hlive (fun _ _ => rfl) 7).afterInsert
    (x := 2#64) hlive (fun j _ => by rw [holdNode_ne (by decide)]) 7
  have hpos : (twoNodes.hmap .entries).mask ≠ 0 := by
    rw [hmask]
    decide
  exact ⟨hmask, (sharedHmaps_hold hrun).2.2.1 .entries hlive hpos⟩

end Held

end SharedCache

end OvsSgx
