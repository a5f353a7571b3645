import EntitlementAuthority.Body.Basic
import EntitlementAuthority.Fault
import EntitlementAuthority.Text.Fields
import EntitlementAuthority.Time.Instant

/-!
# The cache for anonymous consumers

Anonymous consumers with the same products get the same content and the same payload. Both are
kept for a while, for a bounded number of product sets; those that were not asked for longest
make room first.

* `anonymousKey` — what a product set is kept under.
* `AnonymousCache` — what is kept, most recently used first.
* `AnonymousCache.get`, `put`, `remove`, `clear` — its operations.
* `AnonymousCache.hitRatio` — the share of requests that found something.
-/

namespace EntitlementAuthority

/-- What anonymous consumers with the same products get. -/
structure AnonymousContent where
  contents : List ContentModel
  payload : String
deriving DecidableEq, Repr

/-- What a product set is kept under: its sorted ids with commas. -/
def anonymousKey (productIds : List String) : String :=
  Text.joinWith "," productIds

/-- Something that is kept. -/
structure AnonymousEntry where
  key : String
  value : AnonymousContent
  cachedAt : Instant
deriving DecidableEq, Repr

/-- What is kept for anonymous consumers. -/
structure AnonymousCache where
  capacity : Nat
  /-- For how many nanoseconds something is kept. -/
  lifetime : Nat
  /-- The most recently used entry stands first. -/
  entries : List AnonymousEntry
  hits : Nat
  misses : Nat
  /-- How often something was found that had been kept too long. -/
  expirations : Nat
  size_le : entries.length ≤ capacity

namespace AnonymousCache

/-- The cache without entries. -/
def empty (capacity lifetime : Nat) : AnonymousCache :=
  { capacity, lifetime, entries := [], hits := 0, misses := 0, expirations := 0,
    size_le := Nat.zero_le _ }

/-- A cache that keeps everything for some seconds; it has to have room for one entry. -/
def create (capacity seconds : Nat) : Outcome AnonymousCache :=
  if capacity = 0 then
    .error (.invalidConfiguration "anonymous cache needs at least one entry")
  else .ok (empty capacity (seconds * 1000000000))

/-- How many entries there are. -/
def size (c : AnonymousCache) : Nat :=
  c.entries.length

/-- The share of requests that found something; 0 if there were none. -/
def hitRatio (c : AnonymousCache) : Float :=
  if c.hits + c.misses = 0 then 0.0
  else Float.ofNat c.hits / Float.ofNat (c.hits + c.misses)

/-- Whether an entry was kept for less than the lifetime. -/
def isFresh (c : AnonymousCache) (now : Instant) (e : AnonymousEntry) : Bool :=
  Instant.nanosBetween e.cachedAt now < c.lifetime

/-- The entries with other keys. -/
def others (c : AnonymousCache) (key : String) : List AnonymousEntry :=
  c.entries.filter (·.key != key)

theorem length_others_le (c : AnonymousCache) (key : String) :
    (c.others key).length ≤ c.capacity :=
  Nat.le_trans (List.length_filter_le _ _) c.size_le

theorem length_others_lt {c : AnonymousCache} {key : String} {e : AnonymousEntry}
    (h : c.entries.find? (·.key == key) = some e) : (c.others key).length < c.capacity := by
  refine Nat.lt_of_lt_of_le ?_ c.size_le
  have hmem := List.mem_of_find?_eq_some h
  have hkey := List.find?_some h
  apply List.length_filter_lt_length_iff_exists.2
  exact ⟨e, hmem, by simpa using hkey⟩

/-- What is kept for a product set. It becomes the most recently used; if it was kept too long,
it is dropped. -/
def get (productIds : List String) (now : Instant) (c : AnonymousCache) :
    Option AnonymousContent × AnonymousCache :=
  let key := anonymousKey productIds
  match h : c.entries.find? (·.key == key) with
  | none => (none, { c with misses := c.misses + 1 })
  | some e =>
    if c.isFresh now e then
      (some e.value,
        -- the entry keeps its age, only its place changes
        { c with
          entries := e :: c.others key
          hits := c.hits + 1
          size_le := length_others_lt h })
    else
      (none,
        { c with
          entries := c.others key
          misses := c.misses + 1
          expirations := c.expirations + 1
          size_le := c.length_others_le key })

/-- Keeps something for a product set; the least recently used entry makes room. -/
def put (productIds : List String) (value : AnonymousContent) (now : Instant)
    (c : AnonymousCache) : AnonymousCache :=
  let key := anonymousKey productIds
  { c with
    entries := (⟨key, value, now⟩ :: c.others key).take c.capacity
    size_le := List.length_take_le _ _ }

/-- Drops what is kept for a product set. -/
def remove (productIds : List String) (c : AnonymousCache) : AnonymousCache :=
  let key := anonymousKey productIds
  { c with
    entries := c.others key
    size_le := c.length_others_le key }

/-- Drops everything. -/
def clear (c : AnonymousCache) : AnonymousCache :=
  { c with
    entries := []
    size_le := Nat.zero_le _ }

end AnonymousCache

end EntitlementAuthority
