/-
OvsSgx.SharedHmapTheorems — hash maps in shared pages hold their nodes.

`Represents` connects a map in memory with a `ChainMap`: each bucket leads
through the nodes of the map's bucket. Insertion and removal of a node,
growing and the search by hash are followed on the `ChainMap`.

Growing takes the chains of the old array apart while it builds those of
`tmp`. What a step leaves alone is `ChangedOnly`: all other arrays, and the
hashes and links of the nodes that are not being moved.
-/
import OvsSgx.SharedHmap

namespace OvsSgx

open PointerChain

namespace SharedCache

variable {s s' s'' : SharedCache} {id j : HmapId} {b b' : Buckets} {i k : Nat}
  {p : Option HmapNode} {x x' : HmapNode} {hash : Nat} {m t : Hmap HmapNode}
  {X Y : HmapNode → Prop}

/-! ## Buckets -/

@[simp] theorem holds_setBucket : (s.setBucket b i p).holds b' k = s.holds b' k := by
  cases b <;> cases b' <;> rfl

@[simp] theorem holds_setHmap {h : SharedHmap} : (s.setHmap id h).holds b k = s.holds b k := by
  cases b <;> rfl

section Members

variable {node : HmapNode} {next : Option HmapNode} {n : Nat}

@[simp] theorem holds_setHash : (s.setHash node hash).holds b k = s.holds b k := by
  cases b <;> rfl

@[simp] theorem holds_setNext : (s.setNext node next).holds b k = s.holds b k := by
  cases b <;> rfl

@[simp] theorem bucket_setHash : (s.setHash node hash).bucket b k = s.bucket b k := by
  cases b <;> rfl

@[simp] theorem bucket_setNext : (s.setNext node next).bucket b k = s.bucket b k := by
  cases b <;> rfl

/-- The count of a map is not part of a bucket. -/
@[simp] theorem bucket_setCount : (s.setCount id n).bucket b k = s.bucket b k := by
  cases b with
  | one id' =>
    by_cases hid : id' = id
    · subst hid
      simp [bucket, setCount, setHmap]
    · simp [bucket, setCount, setHmap, hid]
  | page addr => rfl

@[simp] theorem next_setBucket : (s.setBucket b i p).next = s.next := by
  cases b <;> rfl

@[simp] theorem hash_setBucket : (s.setBucket b i p).hash = s.hash := by
  cases b <;> rfl

theorem pages_setBucket : (s.setBucket b i p).memory.pages = s.memory.pages ∧
    (s.setBucket b i p).memory.allocated = s.memory.allocated ∧
    (s.setBucket b i p).memory.cap = s.memory.cap := by
  cases b <;> exact ⟨rfl, rfl, rfl⟩

theorem hmap_setCount_ne (hj : j ≠ id) : (s.setCount id n).hmap j = s.hmap j := by
  simp [setCount, setHmap, hj]

theorem members_setCount : ((s.setCount id n).hmap id).buckets = (s.hmap id).buckets ∧
    ((s.setCount id n).hmap id).mask = (s.hmap id).mask ∧ ((s.setCount id n).hmap id).n = n := by
  simp [setCount, setHmap]

end Members

theorem bucket_setBucket_self : (s.setBucket b i p).bucket b i = p := by
  cases b <;> simp [setBucket, bucket]

theorem bucket_setBucket_ne (hi : s.holds b i = true) (hk : s.holds b k = true) (hne : k ≠ i) :
    (s.setBucket b i p).bucket b k = s.bucket b k := by
  cases b with
  | one id =>
    simp only [holds, beq_iff_eq] at hi hk
    omega
  | page addr => simp [setBucket, bucket, hne]

theorem bucket_setBucket_other (hne : b' ≠ b) :
    (s.setBucket b i p).bucket b' k = s.bucket b' k := by
  cases b with
  | one id =>
    cases b' with
    | one id' =>
      have hid : id' ≠ id := fun heq => hne (by rw [heq])
      simp [setBucket, bucket, hid]
    | page addr => rfl
  | page addr =>
    cases b' with
    | one id => rfl
    | page addr' =>
      have haddr : addr' ≠ addr := fun heq => hne (by rw [heq])
      simp [setBucket, bucket, haddr]

/-- Only a pointer in a bucket is written, or the member `one` of the map itself. -/
theorem hmap_setBucket (hb : b = .one id ∨ ∃ addr, b = .page addr) (hj : j ≠ id) :
    (s.setBucket b i p).hmap j = s.hmap j := by
  rcases hb with rfl | ⟨addr, rfl⟩
  · simp [setBucket, hj]
  · rfl

theorem members_setBucket : ((s.setBucket b i p).hmap j).buckets = (s.hmap j).buckets ∧
    ((s.setBucket b i p).hmap j).mask = (s.hmap j).mask ∧
    ((s.setBucket b i p).hmap j).n = (s.hmap j).n := by
  cases b with
  | one id =>
    by_cases hj : j = id
    · subst hj
      simp [setBucket]
    · simp [setBucket, hj]
  | page addr => exact ⟨rfl, rfl, rfl⟩

/-! ## What a step leaves alone -/

/-- The array of a map is its own member `one` or a page. -/
def Own (s : SharedCache) (id : HmapId) : Prop :=
  s.buckets id = .one id ∨ ∃ addr, s.buckets id = .page addr

/-- From `s` to `s'` only map `id`, its buckets and the nodes in `X` have changed. -/
structure ChangedOnly (s s' : SharedCache) (id : HmapId) (X : HmapNode → Prop) : Prop where
  hmap : ∀ j ≠ id, s'.hmap j = s.hmap j
  buckets : s'.buckets id = s.buckets id
  mask : (s'.hmap id).mask = (s.hmap id).mask
  pages : s'.memory.pages = s.memory.pages
  allocated : s'.memory.allocated = s.memory.allocated
  cap : s'.memory.cap = s.memory.cap
  bucket : ∀ b i, b ≠ s.buckets id → s'.bucket b i = s.bucket b i
  next : ∀ x, ¬ X x → s'.next x = s.next x
  hash : ∀ x, ¬ X x → s'.hash x = s.hash x

theorem ChangedOnly.refl (s : SharedCache) (id : HmapId) (X : HmapNode → Prop) :
    ChangedOnly s s id X :=
  ⟨fun _ _ => rfl, rfl, rfl, rfl, rfl, rfl, fun _ _ _ => rfl, fun _ _ => rfl, fun _ _ => rfl⟩

theorem ChangedOnly.trans (h : ChangedOnly s s' id X) (h' : ChangedOnly s' s'' id X) :
    ChangedOnly s s'' id X where
  hmap j hj := (h'.hmap j hj).trans (h.hmap j hj)
  buckets := h'.buckets.trans h.buckets
  mask := h'.mask.trans h.mask
  pages := h'.pages.trans h.pages
  allocated := h'.allocated.trans h.allocated
  cap := h'.cap.trans h.cap
  bucket b i hb := (h'.bucket b i (h.buckets ▸ hb)).trans (h.bucket b i hb)
  next x hx := (h'.next x hx).trans (h.next x hx)
  hash x hx := (h'.hash x hx).trans (h.hash x hx)

theorem ChangedOnly.mono (h : ChangedOnly s s' id X) (hXY : ∀ x, X x → Y x) :
    ChangedOnly s s' id Y :=
  { h with
    next := fun x hx => h.next x fun hX => hx (hXY x hX)
    hash := fun x hx => h.hash x fun hX => hx (hXY x hX) }

theorem ChangedOnly.holds (h : ChangedOnly s s' id X) (b : Buckets) (i : Nat) :
    s'.holds b i = s.holds b i := by
  cases b with
  | one id => rfl
  | page addr => simp only [SharedCache.holds, h.pages, h.allocated, h.cap]

theorem ChangedOnly.own (h : ChangedOnly s s' id X) : s'.Own id ↔ s.Own id := by
  unfold Own
  rw [h.buckets]

/-! ## A map in memory -/

/-- Map `id` in memory is the map `m`. -/
structure Represents (s : SharedCache) (id : HmapId) (m : Hmap HmapNode) : Prop where
  mask : (s.hmap id).mask = m.mask
  n : (s.hmap id).n = m.count
  holds : ∀ i ≤ m.mask, s.holds (s.buckets id) i = true
  chain : ∀ i ≤ m.mask, Chain s.next (s.bucket (s.buckets id) i) ((m.bucket i).map Prod.snd)
  hash : ∀ e ∈ m.entries, s.hash e.2 = e.1

theorem mem_values_of_bucket (hi : i ≤ m.mask) (hx : x ∈ (m.bucket i).map Prod.snd) :
    x ∈ m.values := by
  obtain ⟨e, he, rfl⟩ := List.mem_map.mp hx
  exact List.mem_map.mpr ⟨e, List.mem_flatMap.mpr
    ⟨i, List.mem_range.mpr (Nat.lt_succ_of_le hi), he⟩, rfl⟩

/-- A map whose array and whose nodes are left alone stays what it is. -/
theorem Represents.congr (h : s.Represents id m) (hhmap : s'.hmap id = s.hmap id)
    (hholds : ∀ i ≤ m.mask, s'.holds (s.buckets id) i = true)
    (hbucket : ∀ i ≤ m.mask, s'.bucket (s.buckets id) i = s.bucket (s.buckets id) i)
    (hnext : ∀ x ∈ m.values, s'.next x = s.next x)
    (hhash : ∀ x ∈ m.values, s'.hash x = s.hash x) : s'.Represents id m := by
  have hb : s'.buckets id = s.buckets id := congrArg SharedHmap.buckets hhmap
  refine ⟨by rw [hhmap]; exact h.mask, by rw [hhmap]; exact h.n, fun i hi => ?_, fun i hi => ?_,
    fun e he => ?_⟩
  · rw [hb]
    exact hholds i hi
  · rw [hb, hbucket i hi]
    exact (h.chain i hi).congr fun x hx => hnext x (mem_values_of_bucket hi hx)
  · rw [hhash e.2 (List.mem_map.mpr ⟨e, he, rfl⟩)]
    exact h.hash e he

theorem Represents.frame (h : s.Represents j m) (hc : ChangedOnly s s' id X) (hj : j ≠ id)
    (hb : s.buckets j ≠ s.buckets id) (hX : ∀ x ∈ m.values, ¬ X x) : s'.Represents j m :=
  h.congr (hc.hmap j hj) (fun i hi => (hc.holds _ i).trans (h.holds i hi))
    (fun _ _ => hc.bucket _ _ hb) (fun x hx => hc.next x (hX x hx))
    fun x hx => hc.hash x (hX x hx)

/-- No chain is longer than the count of the map. -/
theorem length_bucket_le (hi : i ≤ m.mask) : (m.bucket i).length ≤ m.count := by
  obtain ⟨A, B, -, hup⟩ := ChainMap.flatMap_update m.bucket (Nat.lt_succ_of_le hi)
  have hentries := hup (m.bucket i)
  rw [Function.update_eq_self] at hentries
  rw [m.count_eq, hentries, List.length_append, List.length_append]
  omega

/-! ## Insertion -/

/-- The state after `hmap_insert_fast`. -/
def inserted (s : SharedCache) (id : HmapId) (x : HmapNode) (hash : Nat) : SharedCache :=
  let b := s.buckets id
  let i := hash &&& (s.hmap id).mask
  (((s.setHash x hash).setNext x (s.bucket b i)).setBucket b i (some x)).setCount id
    ((s.hmap id).n + 1)

theorem hmapInsertFast_eq (h : s.holds (s.buckets id) (hash &&& (s.hmap id).mask) = true) :
    s.hmapInsertFast id x hash = some (s.inserted id x hash) := by
  have hn : ((((s.setHash x hash).setNext x (s.bucket (s.buckets id)
      (hash &&& (s.hmap id).mask))).setBucket (s.buckets id) (hash &&& (s.hmap id).mask)
      (some x)).hmap id).n = (s.hmap id).n := members_setBucket.2.2
  -- neither write reaches the map itself
  have hread : (s.setHash x hash).readBucket ((s.setHash x hash).buckets id)
      (hash &&& ((s.setHash x hash).hmap id).mask)
      = some (s.bucket (s.buckets id) (hash &&& (s.hmap id).mask)) :=
    if_pos h
  have hwrite : ∀ next p, ((s.setHash x hash).setNext x next).writeBucket
      (((s.setHash x hash).setNext x next).buckets id)
      (hash &&& (((s.setHash x hash).setNext x next).hmap id).mask) p
      = some (((s.setHash x hash).setNext x next).setBucket (s.buckets id)
        (hash &&& (s.hmap id).mask) p) := fun _ _ => if_pos h
  simp only [hmapInsertFast, inserted, hread, hwrite, Option.bind_eq_bind, Option.bind_some, hn]
  rfl

theorem buckets_inserted : (s.inserted id x hash).buckets id = s.buckets id :=
  members_setCount.1.trans members_setBucket.1

theorem bucket_inserted_self :
    (s.inserted id x hash).bucket (s.buckets id) (hash &&& (s.hmap id).mask) = some x := by
  simp only [inserted, bucket_setCount, bucket_setBucket_self]

theorem changedOnly_inserted (hown : s.Own id) :
    ChangedOnly s (s.inserted id x hash) id (· = x) where
  hmap j hj := (hmap_setCount_ne hj).trans (hmap_setBucket hown hj)
  buckets := buckets_inserted
  mask := members_setCount.2.1.trans members_setBucket.2.1
  pages := pages_setBucket.1
  allocated := pages_setBucket.2.1
  cap := pages_setBucket.2.2
  bucket b i hb := by
    simp only [inserted, bucket_setCount, bucket_setBucket_other hb, bucket_setNext,
      bucket_setHash]
  next y hy := by
    show ((s.inserted id x hash).next) y = s.next y
    simp [inserted, setCount, setHmap, setNext, setHash, hy]
  hash y hy := by
    show ((s.inserted id x hash).hash) y = s.hash y
    simp [inserted, setCount, setHmap, setNext, setHash, hy]

/-- `hmap_insert_fast` puts the node at the head of its chain. -/
theorem Represents.inserted (h : s.Represents id m) (hx : x ∉ m.values) :
    (s.inserted id x hash).Represents id (m.insert hash x) := by
  have hb : (s.inserted id x hash).buckets id = s.buckets id := buckets_inserted
  have hlt : hash &&& m.mask ≤ m.mask := Nat.and_le_right
  have hnext : (s.inserted id x hash).next
      = Function.update s.next x (s.bucket (s.buckets id) (hash &&& m.mask)) := by
    simp [SharedCache.inserted, setCount, setHmap, setNext, setHash, h.mask]
  have hhash : (s.inserted id x hash).hash = Function.update s.hash x hash := by
    simp [SharedCache.inserted, setCount, setHmap, setNext, setHash]
  refine ⟨?_, ?_, fun i hi => ?_, fun i hi => ?_, fun e he => ?_⟩
  · exact members_setCount.2.1.trans (members_setBucket.2.1.trans h.mask)
  · refine members_setCount.2.2.trans ?_
    rw [h.n]
    rfl
  · rw [hb, SharedCache.inserted]
    have hheld := h.holds i hi
    simp only [setCount, holds_setHmap, holds_setBucket, holds_setNext, holds_setHash, hheld]
  · rw [hb, hnext]
    by_cases hi0 : i = hash &&& m.mask
    · subst hi0
      have hself : (s.inserted id x hash).bucket (s.buckets id) (hash &&& (s.hmap id).mask)
          = some x := bucket_inserted_self
      rw [h.mask] at hself
      have hbucket : (m.insert hash x).bucket (hash &&& m.mask)
          = (hash, x) :: m.bucket (hash &&& m.mask) := Function.update_self ..
      rw [hself, hbucket, List.map_cons]
      exact (h.chain _ hi).push fun hmem => hx (mem_values_of_bucket hi hmem)
    · have hbucket : (m.insert hash x).bucket i = m.bucket i := Function.update_of_ne hi0 _ _
      have hslot : (s.inserted id x hash).bucket (s.buckets id) i = s.bucket (s.buckets id) i := by
        simp only [SharedCache.inserted, bucket_setCount]
        rw [bucket_setBucket_ne (by simp [h.mask, h.holds _ hlt]) (by simp [h.holds i hi])
          (by rw [h.mask]; exact hi0)]
        simp
      rw [hslot, hbucket]
      exact (h.chain i hi).update fun hmem => hx (mem_values_of_bucket hi hmem)
  · rw [hhash]
    rcases List.mem_cons.mp ((m.entries_insert_perm hash x).mem_iff.mp he) with rfl | he
    · exact Function.update_self ..
    · have hne : e.2 ≠ x := fun heq => hx (heq ▸ List.mem_map.mpr ⟨e, he, rfl⟩)
      rw [Function.update_of_ne hne]
      exact h.hash e he

/-- The result of `hmap_insert_fast`. -/
theorem hmapInsertFast_spec (h : s.Represents id m) (hown : s.Own id) (hx : x ∉ m.values)
    (hash : Nat) : ∃ s', s.hmapInsertFast id x hash = some s' ∧
      s'.Represents id (m.insert hash x) ∧ ChangedOnly s s' id (· = x) := by
  have hheld : s.holds (s.buckets id) (hash &&& (s.hmap id).mask) = true := by
    rw [h.mask]
    exact h.holds _ Nat.and_le_right
  exact ⟨_, hmapInsertFast_eq hheld, h.inserted hx, changedOnly_inserted hown⟩

/-! ## Moving the nodes -/

/-- The entries of a list, inserted one after the other. -/
def insertAll (t : Hmap HmapNode) (l : List (Nat × HmapNode)) : Hmap HmapNode :=
  l.foldl (fun t e => t.insert e.1 e.2) t

theorem mem_values_insert : x ∈ (m.insert hash x').values ↔ x = x' ∨ x ∈ m.values := by
  have hperm := (m.entries_insert_perm hash x').map Prod.snd
  exact hperm.mem_iff.trans List.mem_cons

/-- The inner loop of `resize` moves the nodes of a chain. -/
theorem moveChain_spec {l : List (Nat × HmapNode)} {fuel : Nat} (hfuel : l.length ≤ fuel)
    (ht : s.Represents .tmp t) (hown : s.Own .tmp) (hchain : Chain s.next p (l.map Prod.snd))
    (hhash : ∀ e ∈ l, s.hash e.2 = e.1) (hnodup : (l.map Prod.snd).Nodup)
    (hfresh : ∀ e ∈ l, e.2 ∉ t.values) :
    ∃ s', s.moveChain fuel p = some s' ∧ s'.Represents .tmp (insertAll t l) ∧
      ChangedOnly s s' .tmp (· ∈ l.map Prod.snd) := by
  induction l generalizing s t p fuel with
  | nil =>
    obtain rfl : p = none := hchain
    exact ⟨s, by cases fuel <;> rfl, ht, ChangedOnly.refl ..⟩
  | cons e l ih =>
    obtain ⟨fuel, rfl⟩ : ∃ k, fuel = k + 1 := ⟨fuel - 1, by rw [List.length_cons] at hfuel; omega⟩
    rw [List.map_cons, List.nodup_cons] at hnodup
    obtain ⟨rfl, hrest⟩ := hchain
    obtain ⟨s1, h1, ht1, hc1⟩ :=
      hmapInsertFast_spec ht hown (hfresh e (List.mem_cons_self ..)) (s.hash e.2)
    rw [hhash e (List.mem_cons_self ..)] at ht1
    have hne : ∀ y ∈ l.map Prod.snd, y ≠ e.2 := fun y hy => ne_of_mem_of_not_mem hy hnodup.1
    obtain ⟨s', h', ht', hc'⟩ := ih (s := s1) (t := t.insert e.1 e.2) (p := s.next e.2)
      (by simpa using hfuel) ht1 (hc1.own.mpr hown)
      (hrest.congr fun y hy => hc1.next y (hne y hy))
      (fun d hd => by
        rw [hc1.hash d.2 (hne d.2 (List.mem_map.mpr ⟨d, hd, rfl⟩))]
        exact hhash d (List.mem_cons_of_mem _ hd))
      hnodup.2
      (fun d hd hmem => by
        rcases mem_values_insert.mp hmem with heq | hmem
        · exact hne d.2 (List.mem_map.mpr ⟨d, hd, rfl⟩) heq
        · exact hfresh d (List.mem_cons_of_mem _ hd) hmem)
    refine ⟨s', ?_, ht', ?_⟩
    · rw [moveChain, h1, Option.bind_eq_bind, Option.bind_some]
      exact h'
    · exact (hc1.mono fun y hy => List.mem_cons.mpr (.inl hy)).trans
        (hc'.mono fun y hy => List.mem_cons_of_mem _ hy)

/-- The buckets `is` of map `id` hold the entries that `f` lists, which are to be added to those
of `t` in `tmp`. -/
structure Movable (s : SharedCache) (id : HmapId) (f : Nat → List (Nat × HmapNode))
    (is : List Nat) (t : Hmap HmapNode) : Prop where
  tmp : s.Represents .tmp t
  own : s.Own .tmp
  apart : s.buckets id ≠ s.buckets .tmp
  holds : ∀ i ∈ is, s.holds (s.buckets id) i = true
  chain : ∀ i ∈ is, Chain s.next (s.bucket (s.buckets id) i) ((f i).map Prod.snd)
  length : ∀ i ∈ is, (f i).length ≤ (s.hmap id).n
  hash : ∀ e ∈ is.flatMap f, s.hash e.2 = e.1
  nodup : ((is.flatMap f).map Prod.snd).Nodup
  fresh : ∀ e ∈ is.flatMap f, e.2 ∉ t.values

theorem mem_values_insertAll {l : List (Nat × HmapNode)} :
    x ∈ (insertAll t l).values ↔ x ∈ l.map Prod.snd ∨ x ∈ t.values := by
  have hperm := (ChainMap.foldl_insert_perm l t).map Prod.snd
  rw [List.map_append] at hperm
  exact hperm.mem_iff.trans List.mem_append

/-- The outer loop of `resize` moves the nodes of all chains. -/
theorem moveBuckets_spec {f : Nat → List (Nat × HmapNode)} {is : List Nat} (hid : id ≠ .tmp)
    (h : Movable s id f is t) :
    ∃ s', is.foldlM (moveBucket id) s = some s' ∧
      s'.Represents .tmp (insertAll t (is.flatMap f)) ∧
      ChangedOnly s s' .tmp (· ∈ (is.flatMap f).map Prod.snd) := by
  induction is generalizing s t with
  | nil => exact ⟨s, rfl, h.tmp, ChangedOnly.refl ..⟩
  | cons i is ih =>
    have hnodup := h.nodup
    rw [List.flatMap_cons, List.map_append, List.nodup_append] at hnodup
    obtain ⟨hnd1, hnd2, hdisj⟩ := hnodup
    have hleft : ∀ e ∈ f i, e ∈ (i :: is).flatMap f := fun e he => by simp [he]
    have hright : ∀ e ∈ is.flatMap f, e ∈ (i :: is).flatMap f := fun e he => by
      rw [List.flatMap_cons]
      exact List.mem_append_right _ he
    have hi := List.mem_cons_self (a := i) (l := is)
    obtain ⟨s1, h1, ht1, hc1⟩ := moveChain_spec (h.length i hi) h.tmp h.own (h.chain i hi)
      (fun e he => h.hash e (hleft e he)) hnd1 fun e he => h.fresh e (hleft e he)
    -- the nodes of the later chains have not been moved yet
    have hlater : ∀ e ∈ is.flatMap f, e.2 ∉ (f i).map Prod.snd := fun e he hmem =>
      hdisj e.2 hmem e.2 (List.mem_map.mpr ⟨e, he, rfl⟩) rfl
    have hb1 : s1.buckets id = s.buckets id := congrArg SharedHmap.buckets (hc1.hmap id hid)
    have hmov : Movable s1 id f is (insertAll t (f i)) := by
      refine ⟨ht1, hc1.own.mpr h.own, ?_, fun k hk => ?_, fun k hk => ?_, fun k hk => ?_,
        fun e he => ?_, hnd2, fun e he hmem => ?_⟩
      · rw [hb1, hc1.buckets]
        exact h.apart
      · rw [hb1, hc1.holds]
        exact h.holds k (List.mem_cons_of_mem _ hk)
      · rw [hb1, hc1.bucket _ _ h.apart]
        refine (h.chain k (List.mem_cons_of_mem _ hk)).congr fun y hy => hc1.next y ?_
        obtain ⟨e, he, rfl⟩ := List.mem_map.mp hy
        exact hlater e (List.mem_flatMap.mpr ⟨k, hk, he⟩)
      · rw [hc1.hmap id hid]
        exact h.length k (List.mem_cons_of_mem _ hk)
      · rw [hc1.hash e.2 (hlater e he)]
        exact h.hash e (hright e he)
      · rcases mem_values_insertAll.mp hmem with hold | hold
        · exact hlater e he hold
        · exact h.fresh e (hright e he) hold
    obtain ⟨s', h', ht', hc'⟩ := ih hmov
    refine ⟨s', ?_, ?_, ?_⟩
    · have hstep : moveBucket id s i = some s1 := by
        rw [moveBucket, readBucket, if_pos (h.holds i hi), Option.bind_eq_bind, Option.bind_some]
        exact h1
      rw [List.foldlM_cons, hstep]
      exact h'
    · have hsplit : insertAll t ((i :: is).flatMap f)
          = insertAll (insertAll t (f i)) (is.flatMap f) := by
        rw [insertAll, List.flatMap_cons, List.foldl_append]
        rfl
      rw [hsplit]
      exact ht'
    · rw [List.flatMap_cons, List.map_append]
      exact (hc1.mono fun y hy => List.mem_append_left _ hy).trans
        (hc'.mono fun y hy => List.mem_append_right _ hy)

/-! ## A new array -/

theorem changedOnly_setBucket (hown : s.Own id) :
    ChangedOnly s (s.setBucket (s.buckets id) i p) id (fun _ => False) where
  hmap k hk := hmap_setBucket hown hk
  buckets := members_setBucket.1
  mask := members_setBucket.2.1
  pages := pages_setBucket.1
  allocated := pages_setBucket.2.1
  cap := pages_setBucket.2.2
  bucket _ _ hb := bucket_setBucket_other hb
  next y _ := by rw [next_setBucket]
  hash y _ := by rw [hash_setBucket]

/-- The buckets of `tmp` are set to null pointers. -/
theorem clearBuckets_spec (is : List Nat) (hown : s.Own .tmp)
    (hholds : ∀ i ∈ is, s.holds (s.buckets .tmp) i = true) :
    ∃ s', is.foldlM clearBucket s = some s' ∧ ChangedOnly s s' .tmp (fun _ => False) ∧
      (s'.hmap .tmp).n = (s.hmap .tmp).n ∧
      ∀ i ∈ is, s'.bucket (s.buckets .tmp) i = none := by
  induction is using List.reverseRecOn with
  | nil => exact ⟨s, rfl, ChangedOnly.refl .., rfl, fun i hi => absurd hi (List.not_mem_nil)⟩
  | append_singleton is i ih =>
    obtain ⟨s1, h1, hc1, hn1, hnull⟩ := ih fun k hk => hholds k (List.mem_append_left _ hk)
    have hi := hholds i (List.mem_append_right _ (List.mem_singleton.mpr rfl))
    have hi1 : s1.holds (s.buckets .tmp) i = true := by rw [hc1.holds, hi]
    have hstep : clearBucket s1 i = some (s1.setBucket (s.buckets .tmp) i none) := by
      rw [clearBucket, writeBucket, hc1.buckets, if_pos hi1]
    have hc2 := changedOnly_setBucket (i := i) (p := none) (hc1.own.mpr hown)
    rw [hc1.buckets] at hc2
    refine ⟨_, ?_, hc1.trans hc2, members_setBucket.2.2.trans hn1, fun k hk => ?_⟩
    · rw [List.foldlM_append, h1, Option.bind_eq_bind, Option.bind_some, List.foldlM_cons, hstep]
      rfl
    · by_cases hki : k = i
      · subst hki
        exact bucket_setBucket_self
      · have hmem : k ∈ is := by simpa [hki] using hk
        have hk1 : s1.holds (s.buckets .tmp) k = true := by
          rw [hc1.holds, hholds k hk]
        rw [bucket_setBucket_ne hi1 hk1 hki]
        exact hnull k hmem

end SharedCache

end OvsSgx
