/-
OvsSgx.SharedHmap — hash maps whose buckets lie in shared pages.

The hash maps of the flow cache as hmap.h and hmap.c handle them: nodes
with a hash and a link, and a bucket array that is the member `one` of the
map itself or the bytes of a page. `resize` takes the page of the new array
from the shared memory and gives back the page of the old one; it fills a
map on the stack and swaps the two structures, after which `hmap_moved` puts
right a pointer to the other one's `one`.

A bucket that is outside of the array or of every allocated page, and a link
of a null pointer, have no value. Loops along a chain take as many steps as
the map has nodes.
-/
import OvsSgx.Enclave
import OvsSgx.Lib.PointerChain
import OvsSgx.SharedMemory

namespace OvsSgx

open PointerChain

/-- The address of a `struct hmap_node`. -/
abbrev HmapNode := BitVec 64

/-- The two maps of the cache and the map `tmp` in `resize`. -/
inductive HmapId where
  | entries
  | utCrs
  | tmp
deriving DecidableEq

/-- A bucket array. -/
inductive Buckets where
  | one (id : HmapId)
  | page (bytes : Nat)
deriving DecidableEq

/-- `struct hmap`. -/
structure SharedHmap where
  buckets : Buckets
  one : Option HmapNode
  mask : Nat
  n : Nat

/-- The maps, the nodes and the shared memory. -/
structure SharedCache where
  hmap : HmapId → SharedHmap
  hash : HmapNode → Nat
  next : HmapNode → Option HmapNode
  memory : SharedMemory HmapNode

namespace SharedCache

/-! ## Buckets -/

/-- Bucket `i` of an array lies in memory that can be used. -/
def holds (s : SharedCache) (b : Buckets) (i : Nat) : Bool :=
  match b with
  | .one _ => i == 0
  | .page addr => (List.range s.memory.cap).any fun k => s.memory.allocated k &&
      (s.memory.pages k).bytes == addr && decide (8 * (i + 1) ≤ (s.memory.pages k).size)

/-- What is in bucket `i`. -/
def bucket (s : SharedCache) (b : Buckets) (i : Nat) : Option HmapNode :=
  match b with
  | .one id => (s.hmap id).one
  | .page addr => s.memory.words addr i

/-- The state with a pointer in bucket `i`. -/
def setBucket (s : SharedCache) (b : Buckets) (i : Nat) (p : Option HmapNode) : SharedCache :=
  match b with
  | .one id => { s with hmap := Function.update s.hmap id { s.hmap id with one := p } }
  | .page addr => { s with memory := { s.memory with
      words := Function.update s.memory.words addr
        (Function.update (s.memory.words addr) i p) } }

/-- The value of `buckets[i]`. -/
def readBucket (s : SharedCache) (b : Buckets) (i : Nat) : Option (Option HmapNode) :=
  if s.holds b i then some (s.bucket b i) else none

/-- `buckets[i] = p`. -/
def writeBucket (s : SharedCache) (b : Buckets) (i : Nat) (p : Option HmapNode) :
    Option SharedCache :=
  if s.holds b i then some (s.setBucket b i p) else none

/-- The array of a map. -/
def buckets (s : SharedCache) (id : HmapId) : Buckets := (s.hmap id).buckets

/-- A map with other members. -/
def setHmap (s : SharedCache) (id : HmapId) (m : SharedHmap) : SharedCache :=
  { s with hmap := Function.update s.hmap id m }

/-- `hmap->n = n`. -/
def setCount (s : SharedCache) (id : HmapId) (n : Nat) : SharedCache :=
  s.setHmap id { s.hmap id with n := n }

/-- `node->next = next`. -/
def setNext (s : SharedCache) (node : HmapNode) (next : Option HmapNode) : SharedCache :=
  { s with next := Function.update s.next node next }

/-- `node->hash = hash`. -/
def setHash (s : SharedCache) (node : HmapNode) (hash : Nat) : SharedCache :=
  { s with hash := Function.update s.hash node hash }

/-! ## Operations -/

/-- `hmap_init`. -/
def hmapInit (s : SharedCache) (id : HmapId) : SharedCache := s.setHmap id ⟨.one id, none, 0, 0⟩

/-- `hmap_insert_fast`. -/
def hmapInsertFast (s : SharedCache) (id : HmapId) (node : HmapNode) (hash : Nat) :
    Option SharedCache := do
  let s := s.setHash node hash
  let first ← s.readBucket (s.buckets id) (hash &&& (s.hmap id).mask)
  let s := s.setNext node first
  let s ← s.writeBucket (s.buckets id) (hash &&& (s.hmap id).mask) (some node)
  return s.setCount id ((s.hmap id).n + 1)

/-- `hmap_moved`. -/
def hmapMoved (s : SharedCache) (id : HmapId) : SharedCache :=
  if (s.hmap id).mask = 0 then s.setHmap id { s.hmap id with buckets := .one id } else s

/-- `hmap_swap`. -/
def hmapSwap (s : SharedCache) (a b : HmapId) : SharedCache :=
  (((s.setHmap a (s.hmap b)).setHmap b (s.hmap a)).hmapMoved a).hmapMoved b

/-- The inner loop of `resize`: the nodes from `p` on go to `tmp`. -/
def moveChain (s : SharedCache) : Nat → Option HmapNode → Option SharedCache
  | _, none => some s
  | 0, some _ => none
  | fuel + 1, some node => do
    let next := s.next node
    let s ← s.hmapInsertFast .tmp node (s.hash node)
    s.moveChain fuel next

/-- One step of the outer loop of `resize`. -/
def moveBucket (id : HmapId) (s : SharedCache) (i : Nat) : Option SharedCache := do
  let p ← s.readBucket (s.buckets id) i
  s.moveChain (s.hmap id).n p

/-- `resize` once `tmp` has its buckets: all nodes move, the maps are swapped, and the page of the
old buckets is freed. -/
def resizeInto (s : SharedCache) (id : HmapId) : Option SharedCache := do
  let s ← (List.range ((s.hmap id).mask + 1)).foldlM (moveBucket id) s
  let s := s.hmapSwap id .tmp
  match s.buckets .tmp with
  | .one _ => return s
  | .page addr => return { s with memory := s.memory.freePage addr }

/-- `tmp.buckets[i] = NULL`. -/
def clearBucket (s : SharedCache) (i : Nat) : Option SharedCache :=
  s.writeBucket (s.buckets .tmp) i none

/-- `resize`, with the answer of the untrusted side if it is asked for a page. -/
def resize (s : SharedCache) (id : HmapId) (newMask pageType : Nat)
    (answer : Option (PageMalloc HmapNode)) : Option SharedCache :=
  if newMask &&& (newMask + 1) ≠ 0 then none
  else
    let s := s.hmapInit .tmp
    if newMask = 0 then s.resizeInto id
    else
      match s.memory.getPage (8 * (newMask + 1)) pageType answer with
      | (memory, none) => some { s with memory := memory }
      | (memory, some n) => do
        let s := { s with memory := memory }
        let s := s.setHmap .tmp
          { s.hmap .tmp with buckets := .page (memory.pages n).bytes, mask := newMask }
        let s ← (List.range (newMask + 1)).foldlM clearBucket s
        s.resizeInto id

/-- `hmap_expand`. -/
def hmapExpand (s : SharedCache) (id : HmapId) (pageType : Nat)
    (answer : Option (PageMalloc HmapNode)) : Option SharedCache :=
  let newMask := calcMask (s.hmap id).n
  if (s.hmap id).mask < newMask then s.resize id newMask pageType answer else some s

/-- `hmap_insert`. -/
def hmapInsert (s : SharedCache) (id : HmapId) (node : HmapNode) (hash pageType : Nat)
    (answer : Option (PageMalloc HmapNode)) : Option SharedCache := do
  let s ← s.hmapInsertFast id node hash
  if (s.hmap id).mask < (s.hmap id).n / 2 then s.hmapExpand id pageType answer else return s

/-- `hmap_remove`. -/
def hmapRemove (s : SharedCache) (id : HmapId) (node : HmapNode) : Option SharedCache := do
  let first ← s.readBucket (s.buckets id) (s.hash node &&& (s.hmap id).mask)
  let link ← findLink s.next first node (s.hmap id).n .head
  let s ← match link with
    | .head => s.writeBucket (s.buckets id) (s.hash node &&& (s.hmap id).mask) (s.next node)
    | .next x => some (s.setNext x (s.next node))
  return s.setCount id ((s.hmap id).n - 1)

/-- `hmap_next_with_hash__`. -/
def hmapNextWithHash (s : SharedCache) (id : HmapId) (p : Option HmapNode) (hash : Nat) :
    Option (Option HmapNode) :=
  seek s.next (fun x => s.hash x == hash) (s.hmap id).n p

/-- `hmap_first_with_hash`. -/
def hmapFirstWithHash (s : SharedCache) (id : HmapId) (hash : Nat) : Option (Option HmapNode) := do
  let first ← s.readBucket (s.buckets id) (hash &&& (s.hmap id).mask)
  s.hmapNextWithHash id first hash

/-- The nodes that `HMAP_FOR_EACH_WITH_HASH` visits. -/
def forEachWithHash (s : SharedCache) (id : HmapId) (hash : Nat) : Option (List HmapNode) := do
  let p ← s.hmapFirstWithHash id hash
  visit s.next (fun x => s.hash x == hash) (s.hmap id).n (s.hmap id).n p

/-- The maps of a new cache, from the contents of the memory before. -/
def init (tmp : SharedHmap) (hash : HmapNode → Nat) (next : HmapNode → Option HmapNode)
    (memory : SharedMemory HmapNode) : SharedCache :=
  (hmapInit ⟨fun _ => tmp, hash, next, memory⟩ .entries).hmapInit .utCrs

end SharedCache

end OvsSgx
