/-
OvsSgx.Hmap — the hash maps of trusted/lib/hmap.h and hmap.c.

An hmap is a `ChainMap`: buckets of nodes, newest first. Only the growth
policy is particular to this code: `hmap_insert` doubles the buckets when
there are more than two nodes for each of them, and `resize` moves every
node with `hmap_insert_fast`, which turns each chain round.
-/
import OvsSgx.Lib.ChainMap

namespace OvsSgx

/-- `struct hmap`, with the nodes' containers as values. -/
abbrev Hmap := ChainMap

variable {α : Type}

/-- `hmap_init`. -/
def hmapInit : Hmap α := ChainMap.empty 0

/-- `hmap_count`. -/
def hmapCount (m : Hmap α) : Nat := m.count

/-- `calc_mask`. -/
def calcMask (capacity : Nat) : Nat :=
  let mask := capacity / 2
  let mask := mask ||| (mask >>> 1)
  let mask := mask ||| (mask >>> 2)
  let mask := mask ||| (mask >>> 4)
  let mask := mask ||| (mask >>> 8)
  let mask := mask ||| (mask >>> 16)
  let mask := mask ||| (mask >>> 32)
  mask ||| ((mask &&& 1) <<< 1)

/-- `resize`. -/
def resize (m : Hmap α) (newMask : Nat) : Hmap α := m.rehash newMask

/-- `hmap_expand`. -/
def hmapExpand (m : Hmap α) : Hmap α :=
  if m.mask < calcMask m.count then resize m (calcMask m.count) else m

/-- `hmap_insert_fast`. -/
def hmapInsertFast (m : Hmap α) (node : α) (hash : Nat) : Hmap α := m.insert hash node

/-- `hmap_insert`. -/
def hmapInsert (m : Hmap α) (node : α) (hash : Nat) : Hmap α :=
  let m := hmapInsertFast m node hash
  if m.mask < m.count / 2 then hmapExpand m else m

/-- `hmap_remove` of the node `node`, whose stored hash is `hash`. -/
def hmapRemove [DecidableEq α] (m : Hmap α) (node : α) (hash : Nat) : Hmap α :=
  m.erase (hash, node)

/-- `hmap_replace`. -/
def hmapReplace [DecidableEq α] (m : Hmap α) (old : α) (hash : Nat) (new : α) : Hmap α :=
  m.replace (hash, old) new

/-- Growing or not, an insertion adds one entry. -/
theorem entries_hmapInsert_perm (m : Hmap α) (node : α) (hash : Nat) :
    (hmapInsert m node hash).entries.Perm ((hash, node) :: m.entries) := by
  have hins := ChainMap.entries_insert_perm m hash node
  unfold hmapInsert hmapInsertFast
  dsimp only
  split
  · unfold hmapExpand
    split
    · exact (ChainMap.entries_rehash_perm _ _).trans hins
    · exact hins
  · exact hins

theorem values_hmapInsert_perm (m : Hmap α) (node : α) (hash : Nat) :
    (hmapInsert m node hash).values.Perm (node :: m.values) :=
  (entries_hmapInsert_perm m node hash).map Prod.snd

@[simp] theorem entries_hmapInit : (hmapInit : Hmap α).entries = [] :=
  ChainMap.entries_empty 0

@[simp] theorem values_hmapInit : (hmapInit : Hmap α).values = [] := by
  simp [ChainMap.values]

end OvsSgx
