/-
# PageDesign.Cache -- a bounded cache of the least recently used kind

Entries are kept from the least to the most recently used one.  A hit moves its entry to the
end, a new entry goes to the end, and when there are too many the first one leaves.  Looking
whether a key is present changes nothing.  Statistics count over the whole life of the cache;
clearing it resets only the size.
-/
import PageDesign.Digest
import PageDesign.Number.Binary64

namespace PageDesign

/-- What a cache reports about itself. -/
structure CacheStats where
  size : Nat
  capacity : Nat
  hits : Nat
  misses : Nat
  evictions : Nat
  deriving DecidableEq, Repr, Inhabited

/-- The share of hits among all look-ups, zero before the first. -/
def CacheStats.hitRate (s : CacheStats) : Binary64 :=
  if s.hits + s.misses = 0 then Binary64.zero
  else Binary64.ofRatio false s.hits (s.hits + s.misses)

/-- A cache of values of type `β` under digests. -/
structure Cache (β : Type) where
  algorithm : Algorithm
  /-- Digests and values, the least recently used first. -/
  entries : List (String × β)
  stats : CacheStats

namespace Cache

variable {β : Type}

/-- An empty cache. -/
def empty (capacity : Nat) (algorithm : Algorithm := .xxhash64) : Cache β where
  algorithm := algorithm
  entries := []
  stats := ⟨0, capacity, 0, 0, 0⟩

/-- An empty cache for a capacity given as an integer, which has to be positive. -/
def ofCapacity? (capacity : Int) (algorithm : Algorithm := .xxhash64) : Option (Cache β) :=
  if 0 < capacity then some (empty capacity.toNat algorithm) else none

/-- The refusal of a capacity. -/
def capacityMessage : String := "max_size must be positive"

/-- The digest under which fields are kept. -/
def keyOf (c : Cache β) (fields : List String) : String := Digest.ofFields c.algorithm fields

/-- The number of entries. -/
def size (c : Cache β) : Nat := c.entries.length

/-- Entries without the one under a digest. -/
def without (key : String) (entries : List (String × β)) : List (String × β) :=
  entries.filter (·.1 != key)

/-- Whether there is an entry for the fields. -/
def contains (c : Cache β) (fields : List String) : Bool :=
  (c.entries.lookup (c.keyOf fields)).isSome

/-- Looks the fields up and counts a hit or a miss; a hit becomes the most recent entry. -/
def get (c : Cache β) (fields : List String) : Option β × Cache β :=
  let key := c.keyOf fields
  match c.entries.lookup key with
  | some v =>
    (some v, { c with
      entries := without key c.entries ++ [(key, v)]
      stats := { c.stats with hits := c.stats.hits + 1 } })
  | none => (none, { c with stats := { c.stats with misses := c.stats.misses + 1 } })

/-- Stores a value as the most recent entry; past the capacity the least recent one leaves. -/
def set (c : Cache β) (fields : List String) (v : β) : Cache β :=
  let key := c.keyOf fields
  let entries := without key c.entries ++ [(key, v)]
  if c.stats.capacity < entries.length then
    let kept := entries.drop 1
    { c with
      entries := kept
      stats := { c.stats with size := kept.length, evictions := c.stats.evictions + 1 } }
  else { c with entries := entries, stats := { c.stats with size := entries.length } }

/-- Drops all entries. -/
def clear (c : Cache β) : Cache β :=
  { c with entries := [], stats := { c.stats with size := 0 } }

end Cache

end PageDesign
