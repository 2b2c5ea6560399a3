/-
OvsSgx.FlowCacheRuns — the flow cache in itself: its checksum and its replacement.

The four operations on the cache, here with the checksum that the enclave
keeps of it. A cache in a run carries in addition, for each entry, when it
was inserted or hit last. `CacheInv` is what all runs have in common: the two
hash maps file exactly the entries with a rule, under the same numbers, every
entry is on the list once, and the entries with a rule are on it in the order
of their last use.
-/
import OvsSgx.FlowCacheTheorems
import Mathlib.Data.BitVec
import Mathlib.Algebra.BigOperators.Group.List.Basic

namespace OvsSgx

/-! ## The checksum -/

/-- The cache and `flow_cache_hash_checksum`. -/
structure CheckedCache extends FlowMapCache where
  checksum : BitVec 64

/-- `cache_entry_hash`; the argument of `hash_int` has 32 bits. -/
def cacheEntryHash (c : FlowMapCache) (e : Nat) (basis : U32) : U32 :=
  hashInt ((BitVec.ofNat 64 (c.hash e) + (c.cr e).getD 0#64).setWidth 32) basis

/-- `flow_map_cache_hash`. -/
def flowMapCacheHash (c : FlowMapCache) : BitVec 64 :=
  c.entries.values.foldl (fun hash e => hash + (cacheEntryHash c e 0#32).setWidth 64) 0#64

/-- `flow_map_cache_is_valid`. -/
def flowMapCacheIsValid (c : CheckedCache) : Bool :=
  flowMapCacheHash c.toFlowMapCache == c.checksum

/-- `FLOW_CACHE_UPDATE_TYPE_INSERT` and `FLOW_CACHE_UPDATE_TYPE_DELETE`. -/
inductive UpdateType where
  | insert
  | delete

/-- `flow_map_cache_update_hash`. -/
def flowMapCacheUpdateHash (c : CheckedCache) (e : Nat) : UpdateType → BitVec 64
  | .insert => c.checksum + (cacheEntryHash c.toFlowMapCache e 0#32).setWidth 64
  | .delete => c.checksum - (cacheEntryHash c.toFlowMapCache e 0#32).setWidth 64

/-- `ut_cr_addr_hash`, of the eight bytes at the address. -/
def utCrAddrHash (bytes : List (BitVec 8)) : Nat := (hashBytes bytes 0#32).toNat

namespace CheckedCache

/-- `flow_map_cache_init`. -/
def init : CheckedCache := ⟨flowMapCacheInit, 0#64⟩

/-- The two lines by which an entry with a rule is taken out. -/
def drop (c : CheckedCache) (e : Nat) (updateLruList : Bool) : CheckedCache :=
  ⟨removeCacheEntry c.toFlowMapCache e updateLruList, flowMapCacheUpdateHash c e .delete⟩

/-- `flow_map_cache_remove_ut_cr`. -/
def removeUtCr (c : CheckedCache) (bytes : List (BitVec 8)) (a : UtAddr) : CheckedCache :=
  match (c.utCrs.withHash (utCrAddrHash bytes)).find? (fun e => c.cr e = some a) with
  | some e => c.drop e true
  | none => c

/-- The part of `flow_map_cache_insert` before the entry is filed. -/
def occupy (c : CheckedCache) (e : Nat) (a : UtAddr) : CheckedCache :=
  let c := if (c.cr e).isSome then c.drop e false else c
  { c with cr := Function.update c.cr e (some a) }

/-- `insert_cache_entry`. -/
def file (c : CheckedCache) (e hash : Nat) : CheckedCache :=
  let c := { c with toFlowMapCache := insertCacheEntry c.toFlowMapCache e hash }
  { c with checksum := flowMapCacheUpdateHash c e .insert }

/-- `flow_map_cache_insert`. -/
def insert (c : CheckedCache) (flow : Flow) (wc : Option FlowWildcards) (a : UtAddr)
    (bridgeId tableId : Nat) : Option CheckedCache := do
  let e ← c.lruList.head?
  return (c.occupy e a).file e (flowMapCacheCalculateHash flow wc bridgeId tableId)

/-- `flow_map_cache_flush`. -/
def flush (c : CheckedCache) : CheckedCache := ⟨flowMapCacheFlush c.toFlowMapCache, 0#64⟩

theorem removeUtCr_cache (c : CheckedCache) (bytes : UtAddr → List (BitVec 8)) (a : UtAddr) :
    (c.removeUtCr (bytes a) a).toFlowMapCache = flowMapCacheRemoveUtCr bytes c.toFlowMapCache a := by
  unfold removeUtCr flowMapCacheRemoveUtCr utCrAddrHash
  cases (c.utCrs.withHash (hashBytes (bytes a) 0#32).toNat).find? fun e => c.cr e = some a <;> rfl

theorem insert_cache (c : CheckedCache) (flow : Flow) (wc : Option FlowWildcards) (a : UtAddr)
    (bridgeId tableId : Nat) :
    (c.insert flow wc a bridgeId tableId).map CheckedCache.toFlowMapCache =
      flowMapCacheInsert c.toFlowMapCache flow wc a bridgeId tableId := by
  unfold insert flowMapCacheInsert
  cases c.lruList.head? with
  | none => rfl
  | some e =>
    simp only [Option.bind_eq_bind, Option.bind_some, Option.pure_def, Option.map_some, occupy,
      file]
    split <;> rfl

end CheckedCache

/-! ## Runs -/

/-- A cache in a run. `lastUse` is when an entry was inserted or hit last. -/
structure WatchedCache extends CheckedCache where
  lastUse : Nat → Nat
  clock : Nat

/-- An operation on the cache. -/
inductive CacheOp where
  | insert (flow : Flow) (wc : Option FlowWildcards) (a : UtAddr) (bridgeId tableId : Nat)
  | getEntry (flow : Flow) (wc : Option FlowWildcards) (bridgeId tableId : Nat)
  | removeUtCr (bytes : List (BitVec 8)) (a : UtAddr)
  | flush

/-- Entry `e` is used now, and the cache is `c` then. -/
def WatchedCache.use (w : WatchedCache) (c : CheckedCache) (e : Nat) : WatchedCache :=
  ⟨c, Function.update w.lastUse e w.clock, w.clock + 1⟩

/-- The effect of an operation. -/
def CacheOp.run (w : WatchedCache) : CacheOp → Option WatchedCache
  | .insert flow wc a b t => do
    let e ← w.lruList.head?
    let c ← w.toCheckedCache.insert flow wc a b t
    return w.use c e
  | .getEntry flow wc b t =>
    match flowMapCacheGetEntry w.toFlowMapCache flow wc b t with
    | (some e, c) => some (w.use ⟨c, w.checksum⟩ e)
    | (none, _) => some w
  | .removeUtCr bytes a => some { w with toCheckedCache := w.toCheckedCache.removeUtCr bytes a }
  | .flush => some { w with toCheckedCache := w.toCheckedCache.flush }

/-- The same operation on the cache alone. -/
def CacheOp.onCache (c : FlowMapCache) : CacheOp → Option FlowMapCache
  | .insert flow wc a b t => flowMapCacheInsert c flow wc a b t
  | .getEntry flow wc b t => some (flowMapCacheGetEntry c flow wc b t).2
  | .removeUtCr bytes a => some (flowMapCacheRemoveUtCr (fun _ => bytes) c a)
  | .flush => some (flowMapCacheFlush c)

/-- The checksum and the times have no influence on the cache. -/
theorem CacheOp.run_cache (w : WatchedCache) (op : CacheOp) :
    (op.run w).map (fun w' => w'.toFlowMapCache) = op.onCache w.toFlowMapCache := by
  cases op with
  | insert flow wc a b t =>
    rw [CacheOp.onCache, ← CheckedCache.insert_cache, CacheOp.run]
    cases hhead : w.lruList.head? with
    | none => simp [CheckedCache.insert, hhead]
    | some e => cases w.toCheckedCache.insert flow wc a b t <;> rfl
  | getEntry flow wc b t =>
    simp only [CacheOp.run, CacheOp.onCache]
    cases hget : flowMapCacheGetEntry w.toFlowMapCache flow wc b t with
    | mk found c =>
      cases found with
      | some e => rfl
      | none =>
        unfold flowMapCacheGetEntry at hget
        split at hget <;> cases hget
        rfl
  | removeUtCr bytes a =>
    exact congrArg some (CheckedCache.removeUtCr_cache w.toCheckedCache (fun _ => bytes) a)
  | flush => rfl

/-- The address of a rule is not null, and eight bytes are read there. -/
def CacheOp.Allowed : CacheOp → Prop
  | .insert _ _ a _ _ => a ≠ 0#64
  | .getEntry _ _ _ _ => True
  | .removeUtCr bytes a => a ≠ 0#64 ∧ bytes.length = 8
  | .flush => True

/-- The caches that operations with property `G` lead to. -/
inductive WatchedReachable (G : WatchedCache → CacheOp → Prop) : WatchedCache → Prop where
  | init : WatchedReachable G ⟨CheckedCache.init, fun _ => 0, 0⟩
  | step {w w' : WatchedCache} (op : CacheOp) :
      WatchedReachable G w → G w op → op.run w = some w' → WatchedReachable G w'

/-- The cache after an operation, unchanged if that is undefined. -/
def WatchedCache.after (w : WatchedCache) (op : CacheOp) : WatchedCache := (op.run w).getD w

theorem WatchedReachable.after {G : WatchedCache → CacheOp → Prop} {w : WatchedCache}
    (h : WatchedReachable G w) {op : CacheOp} (hop : G w op) : WatchedReachable G (w.after op) := by
  unfold WatchedCache.after
  cases hs : op.run w with
  | none => exact h
  | some w' => exact h.step op hop hs

/-! ## The invariant -/

/-- A hash map files exactly the entries with a rule, each under its hash. -/
structure Filed (m : Hmap Nat) (hash : Nat → Nat) (cr : Nat → Option UtAddr) : Prop where
  nodup : m.values.Nodup
  mem : ∀ k e, (k, e) ∈ m.entries ↔ (cr e).isSome ∧ hash e = k

/-- The entries with a rule are on the list in the order of their last use. -/
structure InOrder (lruList : List Nat) (cr : Nat → Option UtAddr) (lastUse : Nat → Nat)
    (clock : Nat) : Prop where
  order : (lruList.filter fun e => (cr e).isSome).Pairwise fun d e => lastUse d < lastUse e
  clock : ∀ e, (cr e).isSome → lastUse e < clock

/-- The two hash maps agree, the list has every entry and the checksum is the sum. -/
structure CheckedCache.Ok (c : CheckedCache) : Prop where
  entries : Filed c.entries c.hash c.cr
  utCrs : Filed c.utCrs c.hash c.cr
  lru : c.lruList.Perm (List.range MAX_CACHE_SIZE)
  onList : ∀ e, (c.cr e).isSome → e ∈ c.lruList
  checksum : c.checksum = flowMapCacheHash c.toFlowMapCache

/-- What holds of a cache in every run. -/
structure CacheInv (w : WatchedCache) : Prop where
  ok : w.toCheckedCache.Ok
  inOrder : InOrder w.lruList w.cr w.lastUse w.clock

/-! ## One hash map -/

section OneMap

variable {m : Hmap Nat} {hash : Nat → Nat} {cr : Nat → Option UtAddr} {e : Nat}

theorem Filed.mem_values (h : Filed m hash cr) : e ∈ m.values ↔ (cr e).isSome := by
  unfold ChainMap.values
  rw [List.mem_map]
  constructor
  · intro he
    obtain ⟨p, hp, rfl⟩ := he
    exact ((h.mem p.1 p.2).mp hp).1
  · intro he
    exact ⟨(hash e, e), (h.mem _ _).mpr ⟨he, rfl⟩, rfl⟩

/-- An entry with a rule is one of the values, and the others stay after its removal. -/
theorem Filed.values_perm (h : Filed m hash cr) (he : (cr e).isSome) :
    m.values.Perm (e :: (hmapRemove m e (hash e)).values) := by
  have hmem : (hash e, e) ∈ m.entries := (h.mem _ _).mpr ⟨he, rfl⟩
  exact ChainMap.values_erase_perm hmem

theorem Filed.remove (h : Filed m hash cr) (he : (cr e).isSome) :
    Filed (hmapRemove m e (hash e)) hash (Function.update cr e none) := by
  have hperm := h.values_perm he
  have hnodup := hperm.nodup_iff.mp h.nodup
  obtain ⟨hnot, hrest⟩ := List.nodup_cons.mp hnodup
  have hpairs : m.entries.Nodup := List.Nodup.of_map Prod.snd h.nodup
  refine ⟨hrest, fun k d => ?_⟩
  unfold hmapRemove
  rw [ChainMap.entries_erase_eq, hpairs.mem_erase_iff, h.mem]
  by_cases hde : d = e
  · subst hde
    rw [Function.update_self]
    constructor
    · intro hd
      exact absurd (by rw [hd.2.2]) hd.1
    · intro hd
      cases hd.1
  · rw [Function.update_of_ne hde]
    exact and_iff_right fun hpair => hde (congrArg Prod.snd hpair)

theorem Filed.insert (h : Filed m hash cr) (he : cr e = none) (k : Nat) (a : UtAddr) :
    Filed (hmapInsert m e k) (Function.update hash e k) (Function.update cr e (some a)) := by
  have hnot : e ∉ m.values := by
    intro hmem
    have := h.mem_values.mp hmem
    rw [he] at this
    cases this
  refine ⟨(values_hmapInsert_perm m e k).nodup_iff.mpr (List.nodup_cons.mpr ⟨hnot, h.nodup⟩),
    fun j d => ?_⟩
  rw [(entries_hmapInsert_perm m e k).mem_iff, List.mem_cons, h.mem]
  by_cases hde : d = e
  · subst hde
    rw [Function.update_self, Function.update_self, he]
    constructor
    · intro hd
      obtain hd | hd := hd
      · exact ⟨rfl, (congrArg Prod.fst hd).symm⟩
      · cases hd.1
    · intro hd
      exact Or.inl (by rw [hd.2])
  · rw [Function.update_of_ne hde, Function.update_of_ne hde]
    exact or_iff_right fun hpair => hde (congrArg Prod.snd hpair)

/-- Nothing is left once every entry has been taken out. -/
theorem Filed.removeAll (l : List Nat) (h : Filed m hash cr) (hl : l.Nodup)
    (hlive : ∀ e ∈ l, (cr e).isSome) :
    Filed (l.foldl (fun m e => hmapRemove m e (hash e)) m) hash
      (l.foldl (fun cr e => Function.update cr e none) cr) := by
  induction l generalizing m cr with
  | nil => exact h
  | cons e l ih =>
    obtain ⟨hnot, hl⟩ := List.nodup_cons.mp hl
    refine ih (h.remove (hlive e (by simp))) hl fun d hd => ?_
    have hde : d ≠ e := by
      intro hde
      exact hnot (hde ▸ hd)
    show (Function.update cr e none d).isSome
    rw [Function.update_of_ne hde]
    exact hlive d (List.mem_cons_of_mem e hd)

end OneMap

/-! ## The order of use -/

section Order

variable {l : List Nat} {cr cr' : Nat → Option UtAddr} {lastUse : Nat → Nat} {clock e : Nat}

/-- Fewer entries with a rule stay in order. -/
theorem InOrder.fewer (h : InOrder l cr lastUse clock)
    (hcr : ∀ d, (cr' d).isSome → (cr d).isSome) : InOrder l cr' lastUse clock where
  order := h.order.sublist (List.monotone_filter_right l hcr)
  clock := fun d hd => h.clock d (hcr d hd)

/-- An entry that has lost its rule can go anywhere. -/
theorem InOrder.moveFree (h : InOrder l cr lastUse clock) (he : cr e = none) :
    InOrder (l.erase e ++ [e]) cr lastUse clock where
  order := by
    rw [List.filter_append, List.filter_cons_of_neg (by simp [he]), List.filter_nil,
      List.append_nil]
    exact h.order.sublist (List.erase_sublist.filter _)
  clock := h.clock

/-- An entry that is used now is the last one. -/
theorem InOrder.use (h : InOrder l cr lastUse clock) (hl : l.Nodup)
    (hcr : ∀ d, d ≠ e → cr' d = cr d) :
    InOrder (l.erase e ++ [e]) cr' (Function.update lastUse e clock) (clock + 1) where
  order := by
    have hold : ((l.erase e).filter fun d => (cr' d).isSome).Pairwise fun d b =>
        Function.update lastUse e clock d < Function.update lastUse e clock b := by
      have hsub : ((l.erase e).filter fun d => (cr' d).isSome).Pairwise
          fun d b => lastUse d < lastUse b := by
        have heq : ((l.erase e).filter fun d => (cr' d).isSome) =
            (l.erase e).filter fun d => (cr d).isSome := by
          refine List.filter_congr fun d hd => ?_
          rw [hcr d (hl.mem_erase_iff.mp hd).1]
        rw [heq]
        exact h.order.sublist (List.erase_sublist.filter _)
      refine hsub.imp_of_mem fun {d b} hd hb hlt => ?_
      rw [Function.update_of_ne (hl.mem_erase_iff.mp (List.mem_of_mem_filter hd)).1,
        Function.update_of_ne (hl.mem_erase_iff.mp (List.mem_of_mem_filter hb)).1]
      exact hlt
    rw [List.filter_append, List.pairwise_append]
    refine ⟨hold, (List.pairwise_singleton _ e).filter _, fun d hd b hb => ?_⟩
    have hbe : b = e := by simpa using List.mem_of_mem_filter hb
    have hd' := List.mem_filter.mp hd
    have hde := (hl.mem_erase_iff.mp hd'.1).1
    rw [hbe, Function.update_self, Function.update_of_ne hde]
    refine h.clock d ?_
    rw [← hcr d hde]
    exact hd'.2
  clock := by
    intro d hd
    by_cases hde : d = e
    · rw [hde, Function.update_self]
      omega
    · rw [Function.update_of_ne hde]
      have := h.clock d (by rw [← hcr d hde]; exact hd)
      omega

end Order

/-! ## The checksum of a changed cache -/

section Checksum

variable {c c' : FlowMapCache} {e : Nat}

/-- The term of an entry in the sum. -/
def checksumTerm (c : FlowMapCache) (e : Nat) : BitVec 64 := (cacheEntryHash c e 0#32).setWidth 64

theorem flowMapCacheHash_eq (c : FlowMapCache) :
    flowMapCacheHash c = (c.entries.values.map (checksumTerm c)).sum := by
  have hfold : ∀ (l : List Nat) (b : BitVec 64),
      l.foldl (fun hash e => hash + checksumTerm c e) b = b + (l.map (checksumTerm c)).sum := by
    intro l
    induction l with
    | nil => simp
    | cons e l ih =>
      intro b
      rw [List.foldl_cons, ih, List.map_cons, List.sum_cons, add_assoc]
  exact (hfold _ _).trans (by simp)

/-- The sum over a cache with one more entry. -/
theorem flowMapCacheHash_cons (hperm : c'.entries.values.Perm (e :: c.entries.values))
    (hterm : ∀ d ∈ c.entries.values, checksumTerm c' d = checksumTerm c d) :
    flowMapCacheHash c' = flowMapCacheHash c + checksumTerm c' e := by
  rw [flowMapCacheHash_eq, flowMapCacheHash_eq, (hperm.map _).sum_eq, List.map_cons,
    List.sum_cons, List.map_congr_left hterm, add_comm]

theorem checksumTerm_congr {d : Nat} (hhash : c'.hash d = c.hash d) (hcr : c'.cr d = c.cr d) :
    checksumTerm c' d = checksumTerm c d := by
  unfold checksumTerm cacheEntryHash
  rw [hhash, hcr]

/-- The sum modulo 2^64. -/
theorem toNat_sum (l : List (BitVec 64)) :
    l.sum.toNat = (l.map BitVec.toNat).sum % 2 ^ 64 := by
  induction l with
  | nil => rfl
  | cons x l ih =>
    rw [List.sum_cons, List.map_cons, List.sum_cons, BitVec.toNat_add, ih, Nat.add_mod_mod]

end Checksum

/-! ## The operations keep the invariant -/

section Steps

variable {w : WatchedCache} {c : CheckedCache} {e : Nat} {b : Bool}

theorem CheckedCache.Ok.nodup (h : c.Ok) : c.lruList.Nodup :=
  h.lru.nodup_iff.mpr List.nodup_range

@[simp] theorem removeCacheEntry_utCrs (c : FlowMapCache) (e : Nat) (b : Bool) :
    (removeCacheEntry c e b).utCrs = hmapRemove c.utCrs e (c.hash e) := by
  cases b <;> rfl

theorem removeCacheEntry_lruList (c : FlowMapCache) (e : Nat) (b : Bool) :
    (removeCacheEntry c e b).lruList = if b then c.lruList.erase e ++ [e] else c.lruList := by
  cases b <;> rfl

theorem touch_perm (h : c.Ok) (he : e ∈ c.lruList) :
    (c.lruList.erase e ++ [e]).Perm (List.range MAX_CACHE_SIZE) :=
  (List.perm_append_singleton e _).trans ((List.perm_cons_erase he).symm.trans h.lru)

theorem mem_touch {d : Nat} (l : List Nat) (hd : d ∈ l) : d ∈ l.erase e ++ [e] := by
  by_cases hde : d = e
  · simp [hde]
  · exact List.mem_append_left _ ((List.mem_erase_of_ne hde).mpr hd)

/-- An entry with a rule is taken out. -/
theorem CheckedCache.Ok.drop (h : c.Ok) (he : (c.cr e).isSome) (b : Bool) : (c.drop e b).Ok where
  entries := by
    show Filed (removeCacheEntry c.toFlowMapCache e b).entries
      (removeCacheEntry c.toFlowMapCache e b).hash (removeCacheEntry c.toFlowMapCache e b).cr
    rw [removeCacheEntry_entries, removeCacheEntry_hash, removeCacheEntry_cr]
    exact h.entries.remove he
  utCrs := by
    show Filed (removeCacheEntry c.toFlowMapCache e b).utCrs
      (removeCacheEntry c.toFlowMapCache e b).hash (removeCacheEntry c.toFlowMapCache e b).cr
    rw [removeCacheEntry_utCrs, removeCacheEntry_hash, removeCacheEntry_cr]
    exact h.utCrs.remove he
  lru := by
    show (removeCacheEntry c.toFlowMapCache e b).lruList.Perm _
    rw [removeCacheEntry_lruList]
    cases b with
    | false => exact h.lru
    | true => exact touch_perm h (h.onList e he)
  onList := by
    intro d hd
    have hlive : ((removeCacheEntry c.toFlowMapCache e b).cr d).isSome := hd
    show d ∈ (removeCacheEntry c.toFlowMapCache e b).lruList
    have hde : d ≠ e := by
      intro hde
      rw [removeCacheEntry_cr, hde, Function.update_self] at hlive
      cases hlive
    rw [removeCacheEntry_cr, Function.update_of_ne hde] at hlive
    rw [removeCacheEntry_lruList]
    have hmem := h.onList d hlive
    split
    · exact mem_touch _ hmem
    · exact hmem
  checksum := by
    have hperm := h.entries.values_perm he
    have hnot := (List.nodup_cons.mp (hperm.nodup_iff.mp h.entries.nodup)).1
    have hterm : ∀ d ∈ (removeCacheEntry c.toFlowMapCache e b).entries.values,
        checksumTerm c.toFlowMapCache d =
          checksumTerm (removeCacheEntry c.toFlowMapCache e b) d := by
      intro d hd
      rw [removeCacheEntry_entries] at hd
      have hde : d ≠ e := by
        intro hde
        exact hnot (hde ▸ hd)
      refine checksumTerm_congr ?_ ?_
      · rw [removeCacheEntry_hash]
      · rw [removeCacheEntry_cr, Function.update_of_ne hde]
    have hsum : flowMapCacheHash c.toFlowMapCache =
        flowMapCacheHash (removeCacheEntry c.toFlowMapCache e b) +
          checksumTerm c.toFlowMapCache e :=
      flowMapCacheHash_cons (by rw [removeCacheEntry_entries]; exact hperm) hterm
    show c.checksum - checksumTerm c.toFlowMapCache e = _
    rw [h.checksum, hsum, add_sub_cancel_right]
    rfl

/-- The entry that an insertion takes has no rule then. -/
def freed (c : CheckedCache) (e : Nat) : CheckedCache :=
  if (c.cr e).isSome then c.drop e false else c

theorem freed_ok (h : c.Ok) (e : Nat) : (freed c e).Ok := by
  unfold freed
  split
  · rename_i he
    exact h.drop he false
  · exact h

theorem freed_cr (c : CheckedCache) (e : Nat) : (freed c e).cr = Function.update c.cr e none := by
  unfold freed
  split
  · exact removeCacheEntry_cr c.toFlowMapCache e false
  · rename_i he
    rw [Option.not_isSome_iff_eq_none] at he
    rw [← he, Function.update_eq_self]

theorem freed_lruList (c : CheckedCache) (e : Nat) : (freed c e).lruList = c.lruList := by
  unfold freed
  split <;> rfl

/-- An entry without a rule is filed. -/
theorem CheckedCache.Ok.file (h : c.Ok) (he : c.cr e = none) (hl : e ∈ c.lruList) (a : UtAddr)
    (hash : Nat) : (CheckedCache.file { c with cr := Function.update c.cr e (some a) } e hash).Ok where
  entries := h.entries.insert he hash a
  utCrs := h.utCrs.insert he hash a
  lru := touch_perm h hl
  onList := by
    intro d hd
    show d ∈ c.lruList.erase e ++ [e]
    by_cases hde : d = e
    · simp [hde]
    · have hd : (Function.update c.cr e (some a) d).isSome := hd
      rw [Function.update_of_ne hde] at hd
      exact mem_touch _ (h.onList d hd)
  checksum := by
    let c' : FlowMapCache :=
      insertCacheEntry { c.toFlowMapCache with cr := Function.update c.cr e (some a) } e hash
    have hterm : ∀ d ∈ c.entries.values, checksumTerm c' d = checksumTerm c.toFlowMapCache d := by
      intro d hd
      have hde : d ≠ e := by
        intro hde
        have := h.entries.mem_values.mp hd
        rw [hde, he] at this
        cases this
      exact checksumTerm_congr (Function.update_of_ne hde _ _) (Function.update_of_ne hde _ _)
    have hsum : flowMapCacheHash c' = flowMapCacheHash c.toFlowMapCache + checksumTerm c' e :=
      flowMapCacheHash_cons (values_hmapInsert_perm c.entries e hash) hterm
    show c.checksum + checksumTerm c' e = flowMapCacheHash c'
    rw [hsum, h.checksum]

/-- What an insertion does: it takes the first entry of the list. -/
structure Inserted (c c' : CheckedCache) (e : Nat) (a : UtAddr) : Prop where
  ok : c'.Ok
  first : c.lruList.head? = some e
  lruList : c'.lruList = c.lruList.erase e ++ [e]
  cr : c'.cr = Function.update c.cr e (some a)

theorem CheckedCache.Ok.insert (h : c.Ok) (flow : Flow) (wc : Option FlowWildcards) (a : UtAddr)
    (bridgeId tableId : Nat) :
    ∃ c' e, c.insert flow wc a bridgeId tableId = some c' ∧ Inserted c c' e a := by
  obtain ⟨e, hfirst⟩ : ∃ e, c.lruList.head? = some e := by
    cases hl : c.lruList with
    | nil =>
      have := h.lru.length_eq
      rw [hl] at this
      cases this
    | cons e l => exact ⟨e, rfl⟩
  have hmem : e ∈ (freed c e).lruList := by
    rw [freed_lruList]
    exact List.mem_of_head? hfirst
  have hfree : (freed c e).cr e = none := by
    rw [freed_cr, Function.update_self]
  refine ⟨_, e, ?_, (freed_ok h e).file hfree hmem a
    (flowMapCacheCalculateHash flow wc bridgeId tableId), hfirst, ?_, ?_⟩
  · unfold CheckedCache.insert
    rw [hfirst]
    rfl
  · show (freed c e).lruList.erase e ++ [e] = _
    rw [freed_lruList]
  · show Function.update (freed c e).cr e (some a) = _
    rw [freed_cr, Function.update_idem]

/-- A flush takes out every entry. -/
theorem foldl_remove (l : List Nat) (c : FlowMapCache) :
    l.foldl (fun c e => removeCacheEntry c e false) c =
      { c with
        entries := l.foldl (fun m e => hmapRemove m e (c.hash e)) c.entries
        utCrs := l.foldl (fun m e => hmapRemove m e (c.hash e)) c.utCrs
        cr := l.foldl (fun cr e => Function.update cr e none) c.cr } := by
  induction l generalizing c with
  | nil => rfl
  | cons e l ih => exact ih (removeCacheEntry c e false)

theorem foldl_update_none (l : List Nat) (cr : Nat → Option UtAddr) (d : Nat) :
    l.foldl (fun cr e => Function.update cr e none) cr d = if d ∈ l then none else cr d := by
  induction l generalizing cr with
  | nil => rfl
  | cons e l ih =>
    rw [List.foldl_cons, ih]
    by_cases hde : d = e
    · subst hde
      simp
    · simp [hde]

theorem CheckedCache.Ok.flush_cr (h : c.Ok) (d : Nat) : c.flush.cr d = none := by
  show (flowMapCacheFlush c.toFlowMapCache).cr d = none
  unfold flowMapCacheFlush
  rw [foldl_remove]
  show c.entries.values.foldl (fun cr e => Function.update cr e none) c.cr d = none
  rw [foldl_update_none]
  split
  · rfl
  · rename_i hd
    rw [h.entries.mem_values] at hd
    simpa using hd

theorem CheckedCache.flush_lruList (c : CheckedCache) : c.flush.lruList = c.lruList := by
  show (flowMapCacheFlush c.toFlowMapCache).lruList = c.lruList
  unfold flowMapCacheFlush
  rw [foldl_remove]

theorem CheckedCache.Ok.flush (h : c.Ok) : c.flush.Ok := by
  have hlive : ∀ e ∈ c.entries.values, (c.cr e).isSome := fun e => h.entries.mem_values.mp
  have hnodup := h.entries.nodup
  have heq := foldl_remove c.entries.values c.toFlowMapCache
  have hentries : Filed c.flush.entries c.flush.hash c.flush.cr := by
    show Filed (flowMapCacheFlush c.toFlowMapCache).entries
      (flowMapCacheFlush c.toFlowMapCache).hash (flowMapCacheFlush c.toFlowMapCache).cr
    unfold flowMapCacheFlush
    rw [heq]
    exact h.entries.removeAll _ hnodup hlive
  have hutCrs : Filed c.flush.utCrs c.flush.hash c.flush.cr := by
    show Filed (flowMapCacheFlush c.toFlowMapCache).utCrs
      (flowMapCacheFlush c.toFlowMapCache).hash (flowMapCacheFlush c.toFlowMapCache).cr
    unfold flowMapCacheFlush
    rw [heq]
    exact h.utCrs.removeAll _ hnodup hlive
  refine ⟨hentries, hutCrs, ?_, fun e he => ?_, ?_⟩
  · rw [CheckedCache.flush_lruList]
    exact h.lru
  · rw [h.flush_cr e] at he
    cases he
  · have hnone : c.flush.entries.values = [] := by
      refine List.eq_nil_iff_forall_not_mem.mpr fun e he => ?_
      have := hentries.mem_values.mp he
      rw [h.flush_cr e] at this
      cases this
    rw [flowMapCacheHash_eq, hnone]
    rfl

/-- What `flow_map_cache_remove_ut_cr` finds names the rule and has the hash. -/
theorem CheckedCache.Ok.found (h : c.Ok) {bytes : List (BitVec 8)} {a : UtAddr}
    (he : (c.utCrs.withHash (utCrAddrHash bytes)).find? (fun e => c.cr e = some a) = some e) :
    c.cr e = some a ∧ c.hash e = utCrAddrHash bytes := by
  have hmem := ChainMap.mem_withHash.mp (List.mem_of_find?_eq_some he)
  exact ⟨by simpa using List.find?_some he, ((h.utCrs.mem _ _).mp hmem).2⟩

theorem CheckedCache.Ok.removeUtCr (h : c.Ok) (bytes : List (BitVec 8)) (a : UtAddr) :
    (c.removeUtCr bytes a).Ok := by
  unfold CheckedCache.removeUtCr
  split
  · rename_i e he
    exact h.drop (by rw [(h.found he).1]; rfl) true
  · exact h

theorem CheckedCache.init_ok : CheckedCache.init.Ok := by
  have hfiled : Filed (hmapInit : Hmap Nat) (fun _ => 0) fun _ => none :=
    ⟨by simp, by simp⟩
  exact ⟨hfiled, hfiled, List.Perm.refl _,
    fun e he => absurd he (by simp [CheckedCache.init, flowMapCacheInit]), rfl⟩

end Steps

end OvsSgx
