/-
OvsSgx.FlowCache — the flow cache that the untrusted side shares with the enclave.

An entry of the cache is filed under a number made of a hash of a flow, the
bridge and the table, and holds the rule that a lookup has found. The cache
has five entries; the one that was used longest ago is taken for a new
result. `execute_function` fills the cache after a lookup and drops entries
after calls that change the tables: `flow_map_cache_remove_ut_cr` looks for
the entry of a rule under a hash of the eight bytes at the rule's address,
while `insert_cache_entry` files it under the number of the flow. These
bytes are part of a call here.

The checksum over the entries and the spinlock are left out.
-/
import OvsSgx.EnclaveRuns
import OvsSgx.Taggable

namespace OvsSgx

/-! ## The cache -/

/-- `MAX_CACHE_SIZE`. -/
def MAX_CACHE_SIZE : Nat := 5

/-- `flow_map_cache`, its entries being numbers; `cr` and `hash` are the members of the
entries. -/
structure FlowMapCache where
  entries : Hmap Nat
  utCrs : Hmap Nat
  lruList : List Nat
  cr : Nat → Option UtAddr
  hash : Nat → Nat

/-- `flow_map_cache_init`. -/
def flowMapCacheInit : FlowMapCache :=
  ⟨hmapInit, hmapInit, List.range MAX_CACHE_SIZE, fun _ => none, fun _ => 0⟩

/-- `flow_hash`. -/
def flowHash (flow : Flow) (basis : U32) : U32 := hashWords (List.ofFn flow) basis

/-- `flow_map_cache_calculate_hash`. -/
def flowMapCacheCalculateHash (flow : Flow) (wc : Option FlowWildcards) (bridgeId tableId : Nat) :
    Nat :=
  let hash := match wc with
    | some wc => flowHashInMinimask flow (minimaskInit wc) 0#32
    | none => flowHash flow 0#32
  hash.toNat + (bridgeId + tableId)

/-- Move an entry to the end of the list. -/
def FlowMapCache.touch (c : FlowMapCache) (e : Nat) : FlowMapCache :=
  { c with lruList := c.lruList.erase e ++ [e] }

/-- `flow_map_cache_get_entry`. -/
def flowMapCacheGetEntry (c : FlowMapCache) (flow : Flow) (wc : Option FlowWildcards)
    (bridgeId tableId : Nat) : Option Nat × FlowMapCache :=
  match (c.entries.withHash (flowMapCacheCalculateHash flow wc bridgeId tableId)).head? with
  | some e => (some e, c.touch e)
  | none => (none, c)

/-- `remove_cache_entry`. With `updateLruList` the entry goes to the end of the list, where
`list_insert` puts it. -/
def removeCacheEntry (c : FlowMapCache) (e : Nat) (updateLruList : Bool) : FlowMapCache :=
  let c := { c with
    entries := hmapRemove c.entries e (c.hash e)
    utCrs := hmapRemove c.utCrs e (c.hash e) }
  let c := if updateLruList then c.touch e else c
  { c with cr := Function.update c.cr e none }

/-- `insert_cache_entry`. -/
def insertCacheEntry (c : FlowMapCache) (e hash : Nat) : FlowMapCache :=
  { c with
    entries := hmapInsert c.entries e hash
    utCrs := hmapInsert c.utCrs e hash
    hash := Function.update c.hash e hash }.touch e

/-- `flow_map_cache_remove_ut_cr`; `bytes` is what `ut_cr_addr_hash` reads at the address. -/
def flowMapCacheRemoveUtCr (bytes : UtAddr → List (BitVec 8)) (c : FlowMapCache) (a : UtAddr) :
    FlowMapCache :=
  match (c.utCrs.withHash (hashBytes (bytes a) 0#32).toNat).find? (fun e => c.cr e = some a) with
  | some e => removeCacheEntry c e true
  | none => c

/-- `flow_map_cache_insert`. -/
def flowMapCacheInsert (c : FlowMapCache) (flow : Flow) (wc : Option FlowWildcards) (a : UtAddr)
    (bridgeId tableId : Nat) : Option FlowMapCache := do
  let e ← c.lruList.head?
  let c := if (c.cr e).isSome then removeCacheEntry c e false else c
  let c := { c with cr := Function.update c.cr e (some a) }
  return insertCacheEntry c e (flowMapCacheCalculateHash flow wc bridgeId tableId)

/-- `flow_map_cache_flush`. -/
def flowMapCacheFlush (c : FlowMapCache) : FlowMapCache :=
  c.entries.values.foldl (fun c e => removeCacheEntry c e false) c

/-! ## The calls -/

/-- The bridges and the cache. -/
structure CachedSwitch where
  bridge : Nat → TaggedBridge
  cache : FlowMapCache

/-- A flow that is looked up in a table of a bridge. -/
structure CacheQuery where
  bridgeId : Nat
  tableId : Nat
  flow : Flow
  wc : Option FlowWildcards

/-- What `ecall_oftable_cls_lookup` returns. -/
def CachedSwitch.clsLookup (s : CachedSwitch) (q : CacheQuery) :
    Option UtAddr × Option FlowWildcards :=
  ecallOftableClsLookup (s.bridge q.bridgeId).enclave q.tableId q.flow q.wc

/-- The number under which `flow_map_cache_get_entry` looks. -/
def CacheQuery.key (q : CacheQuery) : Nat :=
  flowMapCacheCalculateHash q.flow q.wc q.bridgeId q.tableId

/-- What `execute_function` does to the cache after an ecall from state `s`. -/
def invalidate (bytes : UtAddr → List (BitVec 8)) (s : Enclave) (c : FlowMapCache) :
    Call → FlowMapCache
  | .clsRuleDestroy a => flowMapCacheRemoveUtCr bytes c a
  | .clsRemove _ a => flowMapCacheRemoveUtCr bytes c a
  | .oftableClassifierReplace i a =>
    match (ecallOftableClassifierReplace s i a).bind Prod.snd with
    | some victim => flowMapCacheRemoveUtCr bytes c victim
    | none => c
  | .deleteFlows l => (l.map Prod.snd).foldl (flowMapCacheRemoveUtCr bytes) c
  | .oftableRemoveRules l => (l.map Prod.snd).foldl (flowMapCacheRemoveUtCr bytes) c
  | .ofprotoFlush _ => flowMapCacheFlush c
  | _ => c

/-- A step: the untrusted side asks the cache, or `execute_function` runs an ecall. -/
inductive CacheStep where
  | getEntry (q : CacheQuery)
  | clsLookup (q : CacheQuery)
  | call (bridgeId : Nat) (bytes : UtAddr → List (BitVec 8)) (c : Call)
  | updateTaggable (bridgeId tableId : Nat)

/-- The number under which `execute_function` files the result of a lookup: the wildcards are
those that the lookup has left. -/
def CachedSwitch.insertKey (s : CachedSwitch) (q : CacheQuery) : Nat :=
  flowMapCacheCalculateHash q.flow (s.clsLookup q).2 q.bridgeId q.tableId

/-- The effect of a step. -/
def CacheStep.run (s : CachedSwitch) : CacheStep → Option CachedSwitch
  | .getEntry q =>
    some { s with cache := (flowMapCacheGetEntry s.cache q.flow q.wc q.bridgeId q.tableId).2 }
  | .clsLookup q =>
    match s.clsLookup q with
    | (none, _) => some s
    | (some a, wc) => do
      let cache ← flowMapCacheInsert s.cache q.flow wc a q.bridgeId q.tableId
      return { s with cache := cache }
  | .call b bytes c => do
    let enclave ← exec (s.bridge b).enclave c
    return {
      bridge := Function.update s.bridge b { s.bridge b with enclave := enclave }
      cache := invalidate bytes (s.bridge b).enclave s.cache c }
  | .updateTaggable b i =>
    let (bridge, todo) := ecallOftableUpdateTaggable (s.bridge b) i
    some {
      bridge := Function.update s.bridge b bridge
      cache := if todo = revFlowTable then flowMapCacheFlush s.cache else s.cache }

/-- What the callers promise. -/
def CacheStep.Allowed (s : CachedSwitch) : CacheStep → Prop
  | .call b _ c => OvsSgx.Allowed (fun _ => True) (s.bridge b).enclave c
  | _ => True

/-- The states that steps with property `G` lead to, from new bridges and a new cache. -/
inductive CacheReachable (G : CachedSwitch → CacheStep → Prop) : CachedSwitch → Prop where
  | init (nTables : Nat → Nat) (random : Nat → Nat → BitVec 16) (dpif : Nat → Nat → TableDpif) :
      CacheReachable G
        ⟨fun b => ⟨ecallOfprotoInitTables (nTables b) (random b), dpif b⟩, flowMapCacheInit⟩
  | step {s s' : CachedSwitch} (c : CacheStep) :
      CacheReachable G s → G s c → c.run s = some s' → CacheReachable G s'

/-- An entry with a rule that the cache returns for a query names the rule that a lookup
returns now. -/
def CacheSound (s : CachedSwitch) (q : CacheQuery) : Prop :=
  ∀ e a, (flowMapCacheGetEntry s.cache q.flow q.wc q.bridgeId q.tableId).1 = some e →
    s.cache.cr e = some a → (s.clsLookup q).1 = some a

end OvsSgx
