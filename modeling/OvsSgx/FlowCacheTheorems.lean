/-
OvsSgx.FlowCacheTheorems — when the flow cache agrees with the classifier.

The cache answers for a flow with what it has filed under a number. It
stays right for a flow as long as nothing else is filed under that number
and no table changes under an entry. The first is a matter of luck, and the
second fails: a rule with a higher priority can be inserted, and the entry
of a removed rule is looked for under another number.
-/
import OvsSgx.FlowCache
import OvsSgx.TableFrames
import OvsSgx.OftableTheorems

namespace OvsSgx

/-! ## The cache -/

/-- No entry is filed twice, and each has its hash and a rule. -/
structure CacheOk (c : FlowMapCache) : Prop where
  nodup : c.entries.values.Nodup
  hash : ∀ k e, (k, e) ∈ c.entries.entries → c.hash e = k
  cr : ∀ k e, (k, e) ∈ c.entries.entries → (c.cr e).isSome

/-- `c'` has entries of `c` only, with their rules. -/
structure Fewer (c c' : FlowMapCache) : Prop where
  ok : CacheOk c'
  mem : ∀ k e, (k, e) ∈ c'.entries.entries → (k, e) ∈ c.entries.entries ∧ c'.cr e = c.cr e

section Cache

variable {c c' c'' : FlowMapCache} {e : Nat}

theorem Fewer.refl (h : CacheOk c) : Fewer c c := ⟨h, fun _ _ he => ⟨he, rfl⟩⟩

theorem Fewer.trans (h : Fewer c c') (h' : Fewer c' c'') : Fewer c c'' := by
  refine ⟨h'.ok, fun k e he => ?_⟩
  obtain ⟨h1, h2⟩ := h'.mem k e he
  obtain ⟨h3, h4⟩ := h.mem k e h1
  exact ⟨h3, h2.trans h4⟩

theorem flowMapCacheInit_ok : CacheOk flowMapCacheInit := by
  have hnone : flowMapCacheInit.entries.entries = [] := entries_hmapInit
  exact ⟨by simp [flowMapCacheInit], by simp [hnone], by simp [hnone]⟩

theorem FlowMapCache.touch_fewer (h : CacheOk c) (e : Nat) : Fewer c (c.touch e) :=
  ⟨⟨h.nodup, h.hash, h.cr⟩, fun _ _ he => ⟨he, rfl⟩⟩

@[simp] theorem removeCacheEntry_entries (c : FlowMapCache) (e : Nat) (b : Bool) :
    (removeCacheEntry c e b).entries = hmapRemove c.entries e (c.hash e) := by
  cases b <;> rfl

@[simp] theorem removeCacheEntry_cr (c : FlowMapCache) (e : Nat) (b : Bool) :
    (removeCacheEntry c e b).cr = Function.update c.cr e none := by
  cases b <;> rfl

@[simp] theorem removeCacheEntry_hash (c : FlowMapCache) (e : Nat) (b : Bool) :
    (removeCacheEntry c e b).hash = c.hash := by
  cases b <;> rfl

/-- What is left after the removal of an entry. -/
theorem mem_removeCacheEntry (h : CacheOk c) {b : Bool} {k d : Nat}
    (hd : (k, d) ∈ (removeCacheEntry c e b).entries.entries) :
    (k, d) ∈ c.entries.entries ∧ d ≠ e := by
  rw [removeCacheEntry_entries, hmapRemove, ChainMap.entries_erase_eq] at hd
  have hmem := List.mem_of_mem_erase hd
  refine ⟨hmem, fun hde => ?_⟩
  subst hde
  have hnodup : c.entries.entries.Nodup := List.Nodup.of_map Prod.snd h.nodup
  rw [h.hash k d hmem] at hd
  exact hnodup.not_mem_erase hd

theorem removeCacheEntry_fewer (h : CacheOk c) (e : Nat) (b : Bool) :
    Fewer c (removeCacheEntry c e b) := by
  have hcr : ∀ k d, (k, d) ∈ (removeCacheEntry c e b).entries.entries →
      (removeCacheEntry c e b).cr d = c.cr d := by
    intro k d hd
    rw [removeCacheEntry_cr, Function.update_of_ne (mem_removeCacheEntry h hd).2]
  refine ⟨⟨?_, fun k d hd => ?_, fun k d hd => ?_⟩, fun k d hd => ?_⟩
  · rw [removeCacheEntry_entries, hmapRemove]
    exact (ChainMap.values_erase_sublist _ _).nodup h.nodup
  · rw [removeCacheEntry_hash]
    exact h.hash k d (mem_removeCacheEntry h hd).1
  · rw [hcr k d hd]
    exact h.cr k d (mem_removeCacheEntry h hd).1
  · exact ⟨(mem_removeCacheEntry h hd).1, hcr k d hd⟩

theorem flowMapCacheRemoveUtCr_fewer (h : CacheOk c) (bytes : UtAddr → List (BitVec 8))
    (a : UtAddr) : Fewer c (flowMapCacheRemoveUtCr bytes c a) := by
  unfold flowMapCacheRemoveUtCr
  split
  · exact removeCacheEntry_fewer h _ true
  · exact Fewer.refl h

theorem foldl_removeUtCr_fewer (bytes : UtAddr → List (BitVec 8)) (l : List UtAddr)
    (h : CacheOk c) : Fewer c (l.foldl (flowMapCacheRemoveUtCr bytes) c) := by
  induction l generalizing c with
  | nil => exact Fewer.refl h
  | cons a l ih =>
    have hstep := flowMapCacheRemoveUtCr_fewer h bytes a
    exact hstep.trans (ih hstep.ok)

theorem foldl_remove_entries (l : List Nat) :
    (l.foldl (fun c e => removeCacheEntry c e false) c).entries.entries
      = c.entries.entries.diff (l.map fun e => (c.hash e, e)) := by
  induction l generalizing c with
  | nil => simp
  | cons e l ih =>
    rw [List.foldl_cons, ih, List.map_cons, List.diff_cons, removeCacheEntry_hash,
      removeCacheEntry_entries, hmapRemove, ChainMap.entries_erase_eq]

theorem diff_same {α : Type} [BEq α] [LawfulBEq α] (l : List α) : l.diff l = [] := by
  induction l with
  | nil => rfl
  | cons a l ih => rw [List.diff_cons, List.erase_cons_head, ih]

/-- A flush leaves no entry. -/
theorem flowMapCacheFlush_entries (h : CacheOk c) :
    (flowMapCacheFlush c).entries.entries = [] := by
  have hself : (c.entries.values.map fun e => (c.hash e, e)) = c.entries.entries := by
    unfold ChainMap.values
    rw [List.map_map]
    refine (List.map_congr_left fun e he => ?_).trans (List.map_id _)
    simp [h.hash e.1 e.2 he]
  unfold flowMapCacheFlush
  rw [foldl_remove_entries, hself, diff_same]

theorem flowMapCacheFlush_fewer (h : CacheOk c) : Fewer c (flowMapCacheFlush c) := by
  have hnone := flowMapCacheFlush_entries h
  exact ⟨⟨by simp [ChainMap.values, hnone], by simp [hnone], by simp [hnone]⟩, by simp [hnone]⟩

/-- Whatever `execute_function` does to the cache after a call, it only drops entries. -/
theorem invalidate_fewer (h : CacheOk c) (bytes : UtAddr → List (BitVec 8)) (s : Enclave)
    (call : Call) : Fewer c (invalidate bytes s c call) := by
  unfold invalidate
  split
  · exact flowMapCacheRemoveUtCr_fewer h bytes _
  · exact flowMapCacheRemoveUtCr_fewer h bytes _
  · split
    · exact flowMapCacheRemoveUtCr_fewer h bytes _
    · exact Fewer.refl h
  · exact foldl_removeUtCr_fewer bytes _ h
  · exact foldl_removeUtCr_fewer bytes _ h
  · exact flowMapCacheFlush_fewer h
  · exact Fewer.refl h

/-- The entry that is taken for a new result is filed nowhere then. -/
theorem freed_fewer (h : CacheOk c) (e : Nat) :
    Fewer c (if (c.cr e).isSome then removeCacheEntry c e false else c) ∧
      ∀ k, (k, e) ∉ (if (c.cr e).isSome then removeCacheEntry c e false else c).entries.entries := by
  split
  · exact ⟨removeCacheEntry_fewer h e false, fun k hk => (mem_removeCacheEntry h hk).2 rfl⟩
  · rename_i hnone
    exact ⟨Fewer.refl h, fun k hk => hnone (h.cr k e hk)⟩

/-- Filing a rule under a number with an entry that is filed nowhere. -/
theorem insertCacheEntry_spec (h : CacheOk c) (hfree : ∀ k, (k, e) ∉ c.entries.entries)
    (a : UtAddr) (hash : Nat) :
    let c' := insertCacheEntry { c with cr := Function.update c.cr e (some a) } e hash
    CacheOk c' ∧ ∀ k d, (k, d) ∈ c'.entries.entries →
      (k = hash ∧ c'.cr d = some a) ∨ ((k, d) ∈ c.entries.entries ∧ c'.cr d = c.cr d) := by
  intro c'
  have hperm : c'.entries.entries.Perm ((hash, e) :: c.entries.entries) :=
    entries_hmapInsert_perm c.entries e hash
  have hcr : c'.cr = Function.update c.cr e (some a) := rfl
  have hhash : c'.hash = Function.update c.hash e hash := rfl
  have hne : ∀ k d, (k, d) ∈ c.entries.entries → d ≠ e := fun k d hd hde => hfree k (hde ▸ hd)
  have hmem : ∀ k d, (k, d) ∈ c'.entries.entries →
      (k = hash ∧ d = e) ∨ (k, d) ∈ c.entries.entries := by
    intro k d hd
    simpa using hperm.mem_iff.mp hd
  have hfresh : e ∉ c.entries.values := by
    intro he
    obtain ⟨⟨k, d⟩, hd, rfl⟩ := List.mem_map.mp he
    exact hfree k hd
  refine ⟨⟨?_, fun k d hd => ?_, fun k d hd => ?_⟩, fun k d hd => ?_⟩
  · exact (hperm.map Prod.snd).nodup_iff.mpr (List.nodup_cons.mpr ⟨hfresh, h.nodup⟩)
  · rcases hmem k d hd with ⟨rfl, rfl⟩ | hd
    · rw [hhash, Function.update_self]
    · rw [hhash, Function.update_of_ne (hne k d hd), h.hash k d hd]
  · rcases hmem k d hd with ⟨rfl, rfl⟩ | hd
    · rw [hcr, Function.update_self]
      rfl
    · rw [hcr, Function.update_of_ne (hne k d hd)]
      exact h.cr k d hd
  · rcases hmem k d hd with ⟨rfl, rfl⟩ | hd
    · exact .inl ⟨rfl, by rw [hcr, Function.update_self]⟩
    · exact .inr ⟨hd, by rw [hcr, Function.update_of_ne (hne k d hd)]⟩

/-- What the cache holds after a result has been filed: that result and what it held. -/
theorem flowMapCacheInsert_spec (h : CacheOk c) {flow : Flow} {wc : Option FlowWildcards}
    {a : UtAddr} {b t : Nat} (hs : flowMapCacheInsert c flow wc a b t = some c') :
    CacheOk c' ∧ ∀ k d, (k, d) ∈ c'.entries.entries →
      (k = flowMapCacheCalculateHash flow wc b t ∧ c'.cr d = some a) ∨
        ((k, d) ∈ c.entries.entries ∧ c'.cr d = c.cr d) := by
  simp only [flowMapCacheInsert, Option.bind_eq_bind, Option.bind_eq_some_iff] at hs
  obtain ⟨e, -, hs⟩ := hs
  cases hs
  obtain ⟨hfewer, hfree⟩ := freed_fewer h e
  obtain ⟨hok, hmem⟩ := insertCacheEntry_spec hfewer.ok hfree a
    (flowMapCacheCalculateHash flow wc b t)
  refine ⟨hok, fun k d hd => ?_⟩
  rcases hmem k d hd with hnew | ⟨hold, hcr⟩
  · exact .inl hnew
  · obtain ⟨h1, h2⟩ := hfewer.mem k d hold
    exact .inr ⟨h1, hcr.trans h2⟩

end Cache

/-! ## Runs -/

/-- Nothing goes wrong for query `q` in a step: what is filed under its number is what a lookup
of `q` finds, and a call that changes its table does so while nothing is filed under its number
or without changing what a lookup of `q` finds. -/
def CacheStep.Keeps (q : CacheQuery) (s : CachedSwitch) : CacheStep → Prop
  | .clsLookup p => s.insertKey p = q.key → (s.clsLookup p).1 = (s.clsLookup q).1
  | .call b _ c => b = q.bridgeId → q.tableId ∈ c.changed →
      q.key ∉ s.cache.entries.entries.map Prod.fst ∨
        (ecallOftableClsLookup ((s.bridge b).enclave.after c) q.tableId q.flow q.wc).1
          = (s.clsLookup q).1
  | _ => True

/-- What holds after steps that keep a query right. -/
structure CachedOk (q : CacheQuery) (s : CachedSwitch) : Prop where
  enclave : ∀ b, EnclaveOk (fun _ => True) (s.bridge b).enclave
  cache : CacheOk s.cache
  found : ∀ e a, (q.key, e) ∈ s.cache.entries.entries → s.cache.cr e = some a →
    (s.clsLookup q).1 = some a

section Runs

variable {q : CacheQuery} {s s' : CachedSwitch}

/-- Dropping entries, with lookups as they are. -/
theorem CachedOk.fewer (h : CachedOk q s) (hb : ∀ b, EnclaveOk (fun _ => True) (s'.bridge b).enclave)
    (hc : Fewer s.cache s'.cache)
    (hq : ∀ e, (q.key, e) ∈ s'.cache.entries.entries → (s'.clsLookup q).1 = (s.clsLookup q).1) :
    CachedOk q s' := by
  refine ⟨hb, hc.ok, fun e a he ha => ?_⟩
  obtain ⟨hold, hcr⟩ := hc.mem _ _ he
  rw [hq e he]
  exact h.found e a hold (hcr ▸ ha)

theorem getEntry_ok (h : CachedOk q s) (p : CacheQuery)
    (hs : (CacheStep.getEntry p).run s = some s') : CachedOk q s' := by
  cases hs
  refine h.fewer h.enclave ?_ fun _ _ => rfl
  unfold flowMapCacheGetEntry
  split
  · exact FlowMapCache.touch_fewer h.cache _
  · exact Fewer.refl h.cache

theorem clsLookup_ok (h : CachedOk q s) {p : CacheQuery} (hp : (CacheStep.clsLookup p).Keeps q s)
    (hs : (CacheStep.clsLookup p).run s = some s') : CachedOk q s' := by
  simp only [CacheStep.run] at hs
  split at hs
  · cases hs
    exact h
  · rename_i a wc hlook
    obtain ⟨cache, hins, hs⟩ := Option.bind_eq_some_iff.mp hs
    cases hs
    obtain ⟨hok, hmem⟩ := flowMapCacheInsert_spec h.cache hins
    refine ⟨h.enclave, hok, fun e b he hb => ?_⟩
    rcases hmem _ _ he with ⟨hkey, hcr⟩ | ⟨hold, hcr⟩
    · have hsame := hp (by rw [CachedSwitch.insertKey, hlook, hkey])
      rw [hlook] at hsame
      rw [← hb, hcr]
      exact hsame.symm
    · exact h.found e b hold (hcr ▸ hb)

theorem call_ok (h : CachedOk q s) {b : Nat} {bytes : UtAddr → List (BitVec 8)} {c : Call}
    (hc : (CacheStep.call b bytes c).Allowed s) (hk : (CacheStep.call b bytes c).Keeps q s)
    (hs : (CacheStep.call b bytes c).run s = some s') : CachedOk q s' := by
  simp only [CacheStep.run, Option.bind_eq_bind, Option.bind_eq_some_iff] at hs
  obtain ⟨enclave, hexec, hs⟩ := hs
  cases hs
  have hfewer := invalidate_fewer h.cache bytes (s.bridge b).enclave c
  refine h.fewer (fun b' => ?_) hfewer fun e he => ?_
  · by_cases hb : b' = b
    · subst hb
      simpa using exec_ok (h.enclave b') hc hexec
    · simpa [hb] using h.enclave b'
  · by_cases hb : q.bridgeId = b
    · -- The bridge of the query: the table is changed as agreed, or flushed, or left alone.
      simp only [CachedSwitch.clsLookup, hb, Function.update_self]
      by_cases hin : q.tableId ∈ c.changed
      · rcases hk hb.symm hin with hnone | hsame
        · exact absurd (List.mem_map_of_mem (hfewer.mem _ _ he).1) hnone
        · have hafter : (s.bridge b).enclave.after c = enclave := by simp [Enclave.after, hexec]
          rw [hafter] at hsame
          rw [hsame, CachedSwitch.clsLookup, hb]
      · by_cases hflush : ∃ n, c = .ofprotoFlush n
        · obtain ⟨n, rfl⟩ := hflush
          rw [show invalidate bytes (s.bridge b).enclave s.cache (.ofprotoFlush n)
            = flowMapCacheFlush s.cache from rfl, flowMapCacheFlush_entries h.cache] at he
          exact absurd he (by simp)
        · exact (exec_frame (h.enclave b) hc hexec hin fun n hn => hflush ⟨n, hn⟩).lookup
            (h.enclave b) q.flow q.wc
    · simp [CachedSwitch.clsLookup, hb]

theorem updateTaggable_ok (h : CachedOk q s) {b i : Nat}
    (hs : (CacheStep.updateTaggable b i).run s = some s') : CachedOk q s' := by
  simp only [CacheStep.run, Option.some.injEq] at hs
  subst hs
  have hsame : ∀ b', (Function.update s.bridge b (ecallOftableUpdateTaggable (s.bridge b) i).1
      b').enclave = (s.bridge b').enclave := by
    intro b'
    by_cases hb : b' = b
    · subst hb
      simp
    · simp [hb]
  refine h.fewer (fun b' => ?_) ?_ fun e _ => ?_
  · rw [hsame b']
    exact h.enclave b'
  · dsimp only
    split
    · exact flowMapCacheFlush_fewer h.cache
    · exact Fewer.refl h.cache
  · simp only [CachedSwitch.clsLookup, hsame]

/-- One step keeps a query right if nothing goes wrong for it. -/
theorem cacheStep_ok {c : CacheStep} (h : CachedOk q s) (hc : c.Allowed s) (hk : c.Keeps q s)
    (hs : c.run s = some s') : CachedOk q s' := by
  cases c with
  | getEntry p => exact getEntry_ok h p hs
  | clsLookup p => exact clsLookup_ok h hk hs
  | call b bytes c => exact call_ok h hc hk hs
  | updateTaggable b i => exact updateTaggable_ok h hs

theorem CacheReachable.cachedOk
    (h : CacheReachable (fun s c => c.Allowed s ∧ c.Keeps q s) s) : CachedOk q s := by
  induction h with
  | init nTables random dpif =>
    have hnone : flowMapCacheInit.entries.entries = [] := entries_hmapInit
    exact ⟨fun b => ecallOfprotoInitTables_ok _ (nTables b) (random b), flowMapCacheInit_ok,
      by simp [hnone]⟩
  | step c _ hc hs ih => exact cacheStep_ok ih hc.1 hc.2 hs

end Runs

/-- In every run in which nothing goes wrong for a query, the cache answers it like a lookup. -/
theorem flowCache_sound (q : CacheQuery) (s : CachedSwitch)
    (h : CacheReachable (fun s c => c.Allowed s ∧ c.Keeps q s) s) : CacheSound s q := by
  intro e a he ha
  unfold flowMapCacheGetEntry at he
  split at he
  · rename_i d hd
    cases he
    exact h.cachedOk.found _ a (ChainMap.mem_withHash.mp (List.mem_of_head? hd)) ha
  · cases he

/-! ## Two runs -/

/-- The state after a step, unchanged if the step is undefined. -/
def CachedSwitch.after (s : CachedSwitch) (c : CacheStep) : CachedSwitch := (c.run s).getD s

theorem CacheReachable.after {G : CachedSwitch → CacheStep → Prop} {s : CachedSwitch}
    (h : CacheReachable G s) {c : CacheStep} (hc : G s c) : CacheReachable G (s.after c) := by
  unfold CachedSwitch.after
  cases hs : c.run s with
  | none => exact h
  | some s' => exact h.step c hc hs

/-- New bridges with one table each. -/
def emptySwitch : CachedSwitch :=
  ⟨fun _ => ⟨ecallOfprotoInitTables 1 fun _ => 0#16, fun _ => ⟨none, none, 0#32⟩⟩,
    flowMapCacheInit⟩

/-- A flow of all sevens in table 0 of bridge 0. -/
def sevens : CacheQuery := ⟨0, 0, fun _ => 7#32, none⟩

/-- `ecall_add_flow` on bridge 0. -/
def addStep (args : AddFlowArgs) : CacheStep := .call 0 (fun _ => []) (.addFlow args)

/-- The rule for every flow is found, and then one for flows with an 8 is added. -/
def unrelatedRule : CachedSwitch :=
  ((emptySwitch.after (addStep (sampleFlow 2#64 matchCatchall 10))).after
    (.clsLookup sevens)).after (addStep (sampleFlow 1#64 (matchFirstWord 8#32) 20))

theorem unrelatedRule_sound :
    (flowMapCacheGetEntry unrelatedRule.cache sevens.flow sevens.wc 0 0).1 = some 0 ∧
      unrelatedRule.cache.cr 0 = some 2#64 ∧ CacheSound unrelatedRule sevens := by
  refine ⟨by decide +kernel, by decide +kernel, flowCache_sound _ _ ?_⟩
  have h0 : CacheReachable (fun s c => c.Allowed s ∧ c.Keeps sevens s) emptySwitch :=
    .init (fun _ => 1) (fun _ _ => 0#16) fun _ _ => ⟨none, none, 0#32⟩
  have h1 := h0.after (c := addStep (sampleFlow 2#64 matchCatchall 10))
    ⟨⟨by decide +kernel, trivial⟩, fun _ _ => .inl (by decide +kernel)⟩
  have h2 := h1.after (c := .clsLookup sevens) ⟨trivial, fun _ => rfl⟩
  exact h2.after (c := addStep (sampleFlow 1#64 (matchFirstWord 8#32) 20))
    ⟨⟨by decide +kernel, trivial⟩, fun _ _ => .inr (by decide +kernel)⟩

/-- A table with a rule for every flow and one for flows with an 8. -/
def twoRules : CachedSwitch :=
  ((emptySwitch.after (addStep (sampleFlow 2#64 matchCatchall 10))).after
    (addStep (sampleFlow 3#64 (matchFirstWord 8#32) 20))).after (.updateTaggable 0 0)

/-- The rule for every flow is found, and then a better one is added. The subtables are the same
as before, so that `ecall_oftable_update_taggable` flushes nothing. -/
def shadowedRule : CachedSwitch :=
  ((twoRules.after (.clsLookup sevens)).after
    (addStep (sampleFlow 1#64 (matchFirstWord 7#32) 20))).after (.updateTaggable 0 0)

/-- The cache still answers with the rule for every flow. -/
theorem shadowedRule_stale :
    ¬ ∀ (q : CacheQuery) (s : CachedSwitch), CacheReachable (fun s c => c.Allowed s) s →
      CacheSound s q := by
  intro h
  have h0 : CacheReachable (fun s c => c.Allowed s) emptySwitch :=
    .init (fun _ => 1) (fun _ _ => 0#16) fun _ _ => ⟨none, none, 0#32⟩
  have h1 := h0.after (c := addStep (sampleFlow 2#64 matchCatchall 10))
    ⟨by decide +kernel, trivial⟩
  have h2 := h1.after (c := addStep (sampleFlow 3#64 (matchFirstWord 8#32) 20))
    ⟨by decide +kernel, trivial⟩
  have h3 := (h2.after (c := .updateTaggable 0 0) trivial).after (c := .clsLookup sevens) trivial
  have h4 := h3.after (c := addStep (sampleFlow 1#64 (matchFirstWord 7#32) 20))
    ⟨by decide +kernel, trivial⟩
  have h5 := h4.after (c := .updateTaggable 0 0) trivial
  have hstale := h sevens shadowedRule h5 0 2#64 (by decide +kernel) (by decide +kernel)
  exact absurd hstale (by decide +kernel)

end OvsSgx
