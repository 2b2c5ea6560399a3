/-
OvsSgx.FlowCacheReplacement — invalidation, checksum and replacement of the flow cache.

The checksum is right in every run. `flow_map_cache_remove_ut_cr` looks at one
number only and stops at the first hit, so it is complete if the rule has one
entry at most and that is filed under that number. And it puts what it has
freed where `list_insert` puts things, at the end of the list: after that an
insertion can take an entry with a rule while a free one is left, which is why
`replacement_ok` is about runs in which a removal leaves the cache empty or
unchanged.
-/
import OvsSgx.FlowCacheRuns

namespace OvsSgx

/-! ## Every run keeps the invariant -/

section Runs

variable {w w' : WatchedCache} {G : WatchedCache → CacheOp → Prop}

theorem getEntry_touch {flow : Flow} {wc : Option FlowWildcards} {b t e : Nat} {c : FlowMapCache}
    (h : CacheInv w) (hget : flowMapCacheGetEntry w.toFlowMapCache flow wc b t = (some e, c)) :
    c = w.toFlowMapCache.touch e ∧ (w.cr e).isSome := by
  unfold flowMapCacheGetEntry at hget
  split at hget
  · rename_i d hd
    simp only [Prod.mk.injEq, Option.some.injEq] at hget
    obtain ⟨rfl, rfl⟩ := hget
    have hmem := ChainMap.mem_withHash.mp (List.mem_of_mem_head? hd)
    exact ⟨rfl, ((h.ok.entries.mem _ _).mp hmem).1⟩
  · simp at hget

/-- One operation keeps the invariant. -/
theorem cacheOp_inv (h : CacheInv w) (op : CacheOp) (hs : op.run w = some w') : CacheInv w' := by
  cases op with
  | insert flow wc a b t =>
    obtain ⟨c, e, hc, hins⟩ := h.ok.insert flow wc a b t
    simp only [CacheOp.run, hins.first, hc, Option.bind_eq_bind, Option.bind_some,
      Option.pure_def, Option.some.injEq] at hs
    subst hs
    refine ⟨hins.ok, ?_⟩
    show InOrder c.lruList c.cr (Function.update w.lastUse e w.clock) (w.clock + 1)
    rw [hins.lruList]
    refine h.inOrder.use h.ok.nodup fun d hd => ?_
    rw [hins.cr, Function.update_of_ne hd]
  | getEntry flow wc b t =>
    simp only [CacheOp.run] at hs
    split at hs
    · rename_i e c hget
      obtain ⟨rfl, hlive⟩ := getEntry_touch h hget
      cases hs
      refine ⟨⟨h.ok.entries, h.ok.utCrs, touch_perm h.ok (h.ok.onList e hlive),
        fun d hd => mem_touch _ (h.ok.onList d hd), h.ok.checksum⟩, ?_⟩
      exact h.inOrder.use h.ok.nodup fun _ _ => rfl
    · cases hs
      exact h
  | removeUtCr bytes a =>
    cases hs
    refine ⟨h.ok.removeUtCr bytes a, ?_⟩
    show InOrder (w.toCheckedCache.removeUtCr bytes a).lruList
      (w.toCheckedCache.removeUtCr bytes a).cr w.lastUse w.clock
    unfold CheckedCache.removeUtCr
    split
    · rename_i e he
      have hcr : (removeCacheEntry w.toFlowMapCache e true).cr = Function.update w.cr e none :=
        removeCacheEntry_cr w.toFlowMapCache e true
      show InOrder (w.lruList.erase e ++ [e]) (removeCacheEntry w.toFlowMapCache e true).cr _ _
      rw [hcr]
      refine InOrder.moveFree (h.inOrder.fewer fun d hd => ?_) (Function.update_self _ _ _)
      by_cases hde : d = e
      · rw [hde, Function.update_self] at hd
        cases hd
      · rwa [Function.update_of_ne hde] at hd
    · exact h.inOrder
  | flush =>
    cases hs
    refine ⟨h.ok.flush, ?_⟩
    show InOrder w.toCheckedCache.flush.lruList w.toCheckedCache.flush.cr w.lastUse w.clock
    rw [CheckedCache.flush_lruList]
    refine h.inOrder.fewer fun d hd => ?_
    rw [h.ok.flush_cr d] at hd
    cases hd

theorem WatchedReachable.inv (h : WatchedReachable G w) : CacheInv w := by
  induction h with
  | init =>
    refine ⟨CheckedCache.init_ok, ⟨?_, fun e he => absurd he ?_⟩⟩
    · simp [CheckedCache.init, flowMapCacheInit]
    · simp [CheckedCache.init, flowMapCacheInit]
  | step op _ _ hs ih => exact cacheOp_inv ih op hs

end Runs

/-! ## The checksum -/

theorem toNat_widen (x : BitVec 32) : (x.setWidth 64).toNat = x.toNat :=
  BitVec.toNat_setWidth_of_le (by decide)

theorem checksumTerm_toNat (c : FlowMapCache) (e : Nat) :
    (checksumTerm c e).toNat = (cacheEntryHash c e 0#32).toNat :=
  toNat_widen (cacheEntryHash c e 0#32)

theorem map_checksumTerm (c : FlowMapCache) (l : List Nat) :
    (l.map (checksumTerm c)).map BitVec.toNat =
      l.map fun e => (cacheEntryHash c e 0#32).toNat := by
  induction l with
  | nil => simp
  | cons e l ih => rw [List.map_cons, List.map_cons, List.map_cons, checksumTerm_toNat, ih]

theorem flowMapCacheHash_toNat (c : FlowMapCache) :
    (flowMapCacheHash c).toNat =
      (c.entries.values.map fun e => (cacheEntryHash c e 0#32).toNat).sum % 2 ^ 64 := by
  rw [flowMapCacheHash_eq, toNat_sum, map_checksumTerm]

/-- In every run the checksum is the sum over the entries, and the cache is found valid. -/
theorem flowCacheChecksum (w : WatchedCache)
    (h : WatchedReachable (fun _ op => op.Allowed) w) :
    w.checksum.toNat = (w.entries.values.map fun e =>
        (cacheEntryHash w.toFlowMapCache e 0#32).toNat).sum % 2 ^ 64 ∧
      flowMapCacheIsValid w.toCheckedCache = true := by
  have hsum := h.inv.ok.checksum
  constructor
  · rw [hsum, flowMapCacheHash_toNat]
  · unfold flowMapCacheIsValid
    rw [hsum]
    exact beq_self_eq_true _

/-- The result of a lookup that found the rule at `a` and left no wildcard mask. -/
def CacheOp.found (a : UtAddr) : CacheOp :=
  .insert matchCatchall.flow (some matchCatchall.wc) a 0 0

theorem found_allowed (a : UtAddr) (ha : a ≠ 0#64) : (CacheOp.found a).Allowed := ha

/-- Eight bytes with hash 0. -/
def hashZero : List (BitVec 8) := [0x00#8, 0x00#8, 0x00#8, 0x00#8, 0x33#8, 0x80#8, 0x0c#8, 0xa8#8]

/-- A new cache. -/
def newCache : WatchedCache := ⟨CheckedCache.init, fun _ => 0, 0⟩

/-- Results for five rules, with a removal of the first one after the second. -/
def removedFirst : WatchedCache :=
  (((((newCache.after (.found 1#64)).after (.found 2#64)).after
    (.removeUtCr hashZero 1#64)).after
    (.found 3#64)).after (.found 4#64)).after (.found 5#64)

theorem removedFirst_reachable : WatchedReachable (fun _ op => op.Allowed) removedFirst := by
  have hnew : WatchedReachable (fun _ op => op.Allowed) newCache := WatchedReachable.init
  have h2 := (hnew.after (found_allowed 1#64 (by decide))).after (found_allowed 2#64 (by decide))
  have h3 := h2.after (show CacheOp.Allowed (.removeUtCr hashZero 1#64) from ⟨by decide, rfl⟩)
  have h5 := (h3.after (found_allowed 3#64 (by decide))).after (found_allowed 4#64 (by decide))
  exact h5.after (found_allowed 5#64 (by decide))

/-- A sixth result has taken the place of the second one. -/
def displacedSecond : WatchedCache := removedFirst.after (.found 7#64)

/-- Its checksum, after a removal and a displacement. -/
theorem displacedSecond_checksum :
    (List.range MAX_CACHE_SIZE).map displacedSecond.cr =
        [none, some 7#64, some 3#64, some 4#64, some 5#64] ∧
      displacedSecond.checksum.toNat = (displacedSecond.entries.values.map fun e =>
        (cacheEntryHash displacedSecond.toFlowMapCache e 0#32).toNat).sum % 2 ^ 64 ∧
      flowMapCacheIsValid displacedSecond.toCheckedCache = true :=
  ⟨by decide +kernel, flowCacheChecksum _
    (removedFirst_reachable.after (found_allowed 7#64 (by decide)))⟩

/-! ## Invalidation -/

/-- After a removal no entry names the rule, and those that name other rules are as before. -/
def EntriesInvalidated (c c' : FlowMapCache) (a : UtAddr) : Prop :=
  (∀ e, c'.cr e ≠ some a) ∧ ∀ e b, b ≠ a → c.cr e = some b →
    c'.cr e = some b ∧ (c.hash e, e) ∈ c'.entries.entries ∧ (c.hash e, e) ∈ c'.utCrs.entries

section Invalidation

variable {c : CheckedCache} {bytes : List (BitVec 8)} {a : UtAddr}

/-- Entries for other rules survive. -/
theorem CheckedCache.Ok.others_kept (h : c.Ok) {e : Nat} {b : UtAddr} (hb : b ≠ a)
    (he : c.cr e = some b) :
    (c.removeUtCr bytes a).cr e = some b ∧
      (c.hash e, e) ∈ (c.removeUtCr bytes a).entries.entries ∧
      (c.hash e, e) ∈ (c.removeUtCr bytes a).utCrs.entries := by
  have hok := h.removeUtCr bytes a
  have hcr : (c.removeUtCr bytes a).cr e = some b ∧ (c.removeUtCr bytes a).hash e = c.hash e := by
    unfold CheckedCache.removeUtCr
    split
    · rename_i d hd
      have hde : e ≠ d := by
        intro hed
        rw [hed, (h.found hd).1, Option.some.injEq] at he
        exact hb he.symm
      refine ⟨?_, congrFun (removeCacheEntry_hash c.toFlowMapCache d true) e⟩
      refine (congrFun (removeCacheEntry_cr c.toFlowMapCache d true) e).trans ?_
      rw [Function.update_of_ne hde]
      exact he
    · exact ⟨he, rfl⟩
  have hsome : ((c.removeUtCr bytes a).cr e).isSome := by
    rw [hcr.1]
    rfl
  exact ⟨hcr.1, (hok.entries.mem _ _).mpr ⟨hsome, hcr.2⟩, (hok.utCrs.mem _ _).mpr ⟨hsome, hcr.2⟩⟩

/-- The only entry of a rule, filed under the number that is looked up, is found. -/
theorem CheckedCache.Ok.found_only (h : c.Ok) {e : Nat} (he : c.cr e = some a)
    (hhash : c.hash e = utCrAddrHash bytes)
    (honly : ∀ d, c.cr d = some a → d = e) :
    (c.utCrs.withHash (utCrAddrHash bytes)).find? (fun e => c.cr e = some a) = some e := by
  have hmem : e ∈ c.utCrs.withHash (utCrAddrHash bytes) := by
    refine ChainMap.mem_withHash.mpr ((h.utCrs.mem _ _).mpr ⟨?_, hhash⟩)
    rw [he]
    rfl
  cases hf : (c.utCrs.withHash (utCrAddrHash bytes)).find? (fun e => c.cr e = some a) with
  | none => exact absurd (List.find?_eq_none.mp hf e hmem) (by simp [he])
  | some d => rw [honly d (h.found hf).1]

/-- The removal is complete exactly if the rule has one entry at most, filed under the hash
of the bytes at the rule's address. -/
theorem CheckedCache.Ok.invalidated_iff (h : c.Ok) :
    EntriesInvalidated c.toFlowMapCache (c.removeUtCr bytes a).toFlowMapCache a ↔
      ∀ e, c.cr e = some a → c.hash e = utCrAddrHash bytes ∧ ∀ d, c.cr d = some a → d = e := by
  constructor
  · intro hinv e he
    have hgone := hinv.1
    unfold CheckedCache.removeUtCr at hgone
    split at hgone
    · rename_i e0 h0
      obtain ⟨-, hhash⟩ := h.found h0
      have honly : ∀ d, c.cr d = some a → d = e0 := by
        intro d hd
        by_contra hne
        refine hgone d ((congrFun (removeCacheEntry_cr c.toFlowMapCache e0 true) d).trans ?_)
        rw [Function.update_of_ne hne]
        exact hd
      have hee0 := honly e he
      subst hee0
      exact ⟨hhash, honly⟩
    · exact absurd he (hgone e)
  · intro hcond
    refine ⟨fun e he => ?_, fun e b hb he => h.others_kept hb he⟩
    have hold : c.cr e = some a := by
      unfold CheckedCache.removeUtCr at he
      split at he
      · rename_i e0 h0
        have he : (removeCacheEntry c.toFlowMapCache e0 true).cr e = some a := he
        rw [removeCacheEntry_cr] at he
        by_cases hee0 : e = e0
        · rw [hee0, Function.update_self] at he
          cases he
        · rwa [Function.update_of_ne hee0] at he
      · exact he
    obtain ⟨hhash, honly⟩ := hcond e hold
    have hfound := h.found_only hold hhash honly
    unfold CheckedCache.removeUtCr at he
    rw [hfound] at he
    have he : (removeCacheEntry c.toFlowMapCache e true).cr e = some a := he
    rw [removeCacheEntry_cr, Function.update_self] at he
    cases he

end Invalidation

/-- In every run, for every rule address and whatever bytes are there. -/
theorem flowCacheInvalidation_iff (w : WatchedCache)
    (h : WatchedReachable (fun _ op => op.Allowed) w) (bytes : List (BitVec 8)) (a : UtAddr) :
    EntriesInvalidated w.toFlowMapCache (w.toCheckedCache.removeUtCr bytes a).toFlowMapCache a ↔
      ∀ e, w.cr e = some a →
        w.hash e = utCrAddrHash bytes ∧ ∀ d, w.cr d = some a → d = e :=
  h.inv.ok.invalidated_iff

/-- The entry was filed under 0, and eight bytes with that hash are at the address. -/
theorem newCache_found_invalidated :
    EntriesInvalidated (newCache.after (.found 1#64)).toFlowMapCache
      ((newCache.after (.found 1#64)).toCheckedCache.removeUtCr hashZero 1#64).toFlowMapCache
      1#64 := by
  refine (flowCacheInvalidation_iff (newCache.after (.found 1#64)) (WatchedReachable.init.after
    (found_allowed 1#64 (by decide))) _ _).mpr fun e he => ?_
  have honly : ∀ d, (newCache.after (.found 1#64)).cr d = some 1#64 → d = 0 := by
    intro d hd
    by_contra hne
    have hcr : (newCache.after (.found 1#64)).cr d = none := Function.update_of_ne hne _ _
    rw [hcr] at hd
    cases hd
  rw [honly e he]
  exact ⟨by decide +kernel, honly⟩

/-- With eight zeros at the address the entry is not found. -/
theorem newCache_found_not_invalidated :
    ¬ ∀ w, WatchedReachable (fun _ op => op.Allowed) w →
      ∀ (bytes : List (BitVec 8)) (a : UtAddr), a ≠ 0#64 → bytes.length = 8 →
        EntriesInvalidated w.toFlowMapCache (w.toCheckedCache.removeUtCr bytes a).toFlowMapCache a := by
  intro h
  have hinv := h (newCache.after (.found 1#64)) (WatchedReachable.init.after
    (found_allowed 1#64 (by decide))) (List.replicate 8 0#8) 1#64 (by decide) rfl
  refine hinv.1 0 ?_
  decide +kernel

/-! ## Replacement -/

/-- On the list, no entry without a rule is behind one with a rule. -/
def FreeFirst (c : CheckedCache) : Prop :=
  c.lruList.Pairwise fun d e => (c.cr d).isSome → (c.cr e).isSome

/-- A removal that finds an entry finds the only one with a rule. -/
def CacheOp.Harmless (w : WatchedCache) : CacheOp → Prop
  | .removeUtCr bytes a => ∀ e, w.cr e = some a → w.hash e = utCrAddrHash bytes →
      ∀ d, (w.cr d).isSome → d = e
  | _ => True

/-- Replacement as it should be: the list has every entry once, an entry has a rule exactly
when it is in both hash maps, and an insertion takes an entry with a rule only if all have
one, and then the one whose last use was first. -/
structure ReplacementOk (w : WatchedCache) : Prop where
  once : ∀ e, w.lruList.count e = if e < MAX_CACHE_SIZE then 1 else 0
  filed : ∀ e, (w.cr e).isSome ↔ e ∈ w.entries.values ∧ e ∈ w.utCrs.values
  displaces : ∀ flow wc a b t, ∃ c' e, w.toCheckedCache.insert flow wc a b t = some c' ∧
    c'.cr e = some a ∧ (∀ d, d ≠ e → c'.cr d = w.cr d) ∧
    ((w.cr e).isSome → (∀ d < MAX_CACHE_SIZE, (w.cr d).isSome) ∧
      ∀ d < MAX_CACHE_SIZE, d ≠ e → w.lastUse e < w.lastUse d)

section Replacement

variable {w w' : WatchedCache} {l : List Nat} {cr cr' : Nat → Option UtAddr} {e : Nat}

/-- An entry that gets a rule and goes to the end of the list. -/
theorem freeFirst_use (hl : l.Nodup) (h : l.Pairwise fun d b => (cr d).isSome → (cr b).isSome)
    (hcr : ∀ d, d ≠ e → cr' d = cr d) (he : (cr' e).isSome) :
    (l.erase e ++ [e]).Pairwise fun d b => (cr' d).isSome → (cr' b).isSome := by
  rw [List.pairwise_append]
  refine ⟨?_, List.pairwise_singleton _ e, fun d _ b hb _ => ?_⟩
  · refine (h.sublist List.erase_sublist).imp_of_mem fun {d b} hd hb himp => ?_
    rw [hcr d (hl.mem_erase_iff.mp hd).1, hcr b (hl.mem_erase_iff.mp hb).1]
    exact himp
  · rw [List.mem_singleton.mp hb]
    exact he

theorem freeFirst_of_free (l : List Nat) (h : ∀ d, (cr d).isSome = false) :
    l.Pairwise fun d e => (cr d).isSome → (cr e).isSome :=
  List.pairwise_of_forall fun d e hd => absurd hd (by simp [h d])

/-- An operation that is harmless keeps the free entries in front. -/
theorem cacheOp_freeFirst (h : CacheInv w) (hfree : FreeFirst w.toCheckedCache) (op : CacheOp)
    (hharmless : op.Harmless w) (hs : op.run w = some w') : FreeFirst w'.toCheckedCache := by
  cases op with
  | insert flow wc a b t =>
    obtain ⟨c, e, hc, hins⟩ := h.ok.insert flow wc a b t
    simp only [CacheOp.run, hins.first, hc, Option.bind_eq_bind, Option.bind_some,
      Option.pure_def, Option.some.injEq] at hs
    subst hs
    show c.lruList.Pairwise fun d e => (c.cr d).isSome → (c.cr e).isSome
    rw [hins.lruList]
    refine freeFirst_use h.ok.nodup hfree (fun d hd => ?_) ?_
    · rw [hins.cr, Function.update_of_ne hd]
    · rw [hins.cr, Function.update_self]
      rfl
  | getEntry flow wc b t =>
    simp only [CacheOp.run] at hs
    split at hs
    · rename_i e c hget
      obtain ⟨rfl, hlive⟩ := getEntry_touch h hget
      cases hs
      exact freeFirst_use h.ok.nodup hfree (fun _ _ => rfl) hlive
    · cases hs
      exact hfree
  | removeUtCr bytes a =>
    cases hs
    show FreeFirst (w.toCheckedCache.removeUtCr bytes a)
    unfold CheckedCache.removeUtCr
    split
    · rename_i e he
      obtain ⟨hcr, hhash⟩ := h.ok.found he
      have honly := hharmless e hcr hhash
      refine freeFirst_of_free _ fun d => ?_
      have hupd : (w.toCheckedCache.drop e true).cr d = Function.update w.cr e none d :=
        congrFun (removeCacheEntry_cr w.toFlowMapCache e true) d
      rw [hupd]
      by_cases hde : d = e
      · rw [hde, Function.update_self]
        rfl
      · rw [Function.update_of_ne hde]
        cases hcrd : w.cr d with
        | none => rfl
        | some b => exact absurd (honly d (by rw [hcrd]; rfl)) hde
    · exact hfree
  | flush =>
    cases hs
    refine freeFirst_of_free _ fun d => ?_
    rw [show w.toCheckedCache.flush.cr d = none from h.ok.flush_cr d]
    rfl

/-- What an insertion takes while the free entries are in front. -/
theorem freeFirst_first (h : CacheInv w) (hfree : FreeFirst w.toCheckedCache)
    (hfirst : w.lruList.head? = some e) (he : (w.cr e).isSome) :
    (∀ d < MAX_CACHE_SIZE, (w.cr d).isSome) ∧
      ∀ d < MAX_CACHE_SIZE, d ≠ e → w.lastUse e < w.lastUse d := by
  obtain ⟨l, hl⟩ : ∃ l, w.lruList = e :: l := by
    cases hlist : w.lruList with
    | nil =>
      rw [hlist] at hfirst
      cases hfirst
    | cons d l =>
      rw [hlist] at hfirst
      cases hfirst
      exact ⟨l, rfl⟩
  have hmem : ∀ d < MAX_CACHE_SIZE, d = e ∨ d ∈ l := by
    intro d hd
    have := h.ok.lru.mem_iff.mpr (List.mem_range.mpr hd)
    rw [hl] at this
    exact List.mem_cons.mp this
  have hbehind : ∀ d ∈ l, (w.cr d).isSome := by
    have hpair : (e :: l).Pairwise fun d b => (w.cr d).isSome → (w.cr b).isSome := hl ▸ hfree
    exact fun d hd => (List.pairwise_cons.mp hpair).1 d hd he
  have horder : ∀ d ∈ l, w.lastUse e < w.lastUse d := by
    have hpair := h.inOrder.order
    rw [hl, List.filter_cons_of_pos (by exact he)] at hpair
    exact fun d hd => (List.pairwise_cons.mp hpair).1 d (List.mem_filter.mpr ⟨hd, hbehind d hd⟩)
  refine ⟨fun d hd => ?_, fun d hd hne => ?_⟩
  · obtain hde | hdl := hmem d hd
    · rw [hde]
      exact he
    · exact hbehind d hdl
  · exact horder d ((hmem d hd).resolve_left hne)

/-- In every run whose removals are harmless the free entries are in front. -/
theorem WatchedReachable.freeFirst
    (h : WatchedReachable (fun w op => op.Allowed ∧ op.Harmless w) w) :
    FreeFirst w.toCheckedCache := by
  induction h with
  | init => exact freeFirst_of_free _ fun _ => rfl
  | step op hw hop hs ih => exact cacheOp_freeFirst hw.inv ih op hop.2 hs

end Replacement

/-- In every run whose removals are harmless, replacement is as it should be in every state. -/
theorem replacement_ok (w : WatchedCache)
    (h : WatchedReachable (fun w op => op.Allowed ∧ op.Harmless w) w) : ReplacementOk w where
  once := by
    intro e
    rw [h.inv.ok.lru.count_eq, List.count_range]
  filed := by
    intro e
    rw [h.inv.ok.entries.mem_values, h.inv.ok.utCrs.mem_values, and_self]
  displaces := by
    intro flow wc a b t
    obtain ⟨c', e, hcall, hins⟩ := h.inv.ok.insert flow wc a b t
    refine ⟨c', e, hcall, ?_, fun d hd => ?_, freeFirst_first h.inv h.freeFirst hins.first⟩
    · rw [hins.cr, Function.update_self]
    · rw [hins.cr, Function.update_of_ne hd]

/-- The result for a rule is removed, which is the only one, and those for six rules follow. -/
def refilled : WatchedCache :=
  (((((((newCache.after (.found 1#64)).after (.removeUtCr hashZero 1#64)).after
    (.found 2#64)).after (.found 3#64)).after (.found 4#64)).after (.found 5#64)).after
    (.found 6#64)).after (.found 7#64)

theorem refilled_reachable :
    WatchedReachable (fun w op => op.Allowed ∧ op.Harmless w) refilled := by
  have h1 : WatchedReachable (fun w op => op.Allowed ∧ op.Harmless w)
      (newCache.after (.found 1#64)) :=
    WatchedReachable.init.after ⟨found_allowed 1#64 (by decide), trivial⟩
  have honly : ∀ d, ((newCache.after (.found 1#64)).cr d).isSome → d = 0 := by
    intro d hd
    have hmem := h1.inv.ok.entries.mem_values.mpr hd
    rw [show (newCache.after (.found 1#64)).entries.values = [0] by decide +kernel] at hmem
    exact List.mem_singleton.mp hmem
  have hharmless : (CacheOp.removeUtCr hashZero 1#64).Harmless (newCache.after (.found 1#64)) :=
    fun e he _ d hd => (honly d hd).trans (honly e (by rw [he]; rfl)).symm
  have hallowed : (CacheOp.removeUtCr hashZero 1#64).Allowed := ⟨by decide, rfl⟩
  have hremoved := h1.after ⟨hallowed, hharmless⟩
  have h3 := (hremoved.after ⟨found_allowed 2#64 (by decide), trivial⟩).after
    ⟨found_allowed 3#64 (by decide), trivial⟩
  have h5 := (h3.after ⟨found_allowed 4#64 (by decide), trivial⟩).after
    ⟨found_allowed 5#64 (by decide), trivial⟩
  exact (h5.after ⟨found_allowed 6#64 (by decide), trivial⟩).after
    ⟨found_allowed 7#64 (by decide), trivial⟩

/-- The last of them has taken the place of the first. -/
theorem refilled_replacement :
    (List.range MAX_CACHE_SIZE).map refilled.cr =
        [some 6#64, some 7#64, some 3#64, some 4#64, some 5#64] ∧
      ReplacementOk refilled :=
  ⟨by decide +kernel, replacement_ok _ refilled_reachable⟩

/-- The next insertion takes the entry of rule 2, although entry 0 is free. -/
theorem removedFirst_not_replacementOk :
    ¬ ∀ w, WatchedReachable (fun _ op => op.Allowed) w → ReplacementOk w := by
  intro h
  obtain ⟨c', e, hcall, -, hothers, htaken⟩ :=
    (h removedFirst removedFirst_reachable).displaces matchCatchall.flow (some matchCatchall.wc) 7#64 0 0
  have hnew : (removedFirst.toCheckedCache.insert matchCatchall.flow (some matchCatchall.wc)
      7#64 0 0).map (fun c => c.cr 1) = some (some 7#64) := by decide +kernel
  have hold : removedFirst.cr 1 = some 2#64 := by decide +kernel
  have hfree : removedFirst.cr 0 = none := by decide +kernel
  have he : e = 1 := by
    by_contra hne
    have hsame := hothers 1 (Ne.symm hne)
    rw [hcall, Option.map_some, hsame, hold] at hnew
    exact absurd hnew (by decide)
  have hall := (htaken (by rw [he, hold]; rfl)).1 0 (by decide)
  rw [hfree] at hall
  cases hall

end OvsSgx
