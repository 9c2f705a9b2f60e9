import Std.Data.HashMap
import CategoryStatements.Prepared

/-! A cache of compiled statements. It holds a bounded number of them and drops the one that
has been there longest; being used does not make an entry younger. -/
namespace CategoryStatements

/-- Category name and text. -/
abbrev CacheKey := String × String

def Descriptor.cacheKey (d : Descriptor) : CacheKey := (d.category, d.text)

structure Cache where
  capacity : Nat := 256
  entries : Std.HashMap CacheKey Compiled := {}
  /-- The keys of the entries, oldest first. -/
  order : List CacheKey := []

/-- Takes keys off the front until there is room for one more entry. The result holds the
entries and keys that stay, and the keys that go. -/
def makeRoom (capacity : Nat) (entries : Std.HashMap CacheKey Compiled) :
    List CacheKey → Std.HashMap CacheKey Compiled × List CacheKey × List CacheKey
  | [] => (entries, [], [])
  | oldest :: rest =>
    if entries.size < capacity then (entries, oldest :: rest, [])
    else
      let (left, order, dropped) := makeRoom capacity (entries.erase oldest) rest
      (left, order, oldest :: dropped)

namespace Cache

def size (cache : Cache) : Nat := cache.entries.size

/-- The entry under the key of a descriptor, if it was compiled for a descriptor that agrees. -/
def get? (cache : Cache) (d : Descriptor) : Option Compiled :=
  cache.entries[d.cacheKey]?.filter fun c => c.descriptor.agrees d

def clear (cache : Cache) : Cache := { cache with entries := {}, order := [] }

/-- Removes the entry under a key, whatever its age. -/
def discard (cache : Cache) (key : CacheKey) : Cache :=
  { cache with entries := cache.entries.erase key, order := cache.order.filter (· ≠ key) }

/-- Adds an entry under a key that has none, and says which keys had to go for it. -/
def push (cache : Cache) (key : CacheKey) (c : Compiled) : Cache × List CacheKey :=
  let (entries, order, dropped) := makeRoom cache.capacity cache.entries cache.order
  ({ cache with entries := entries.insert key c, order := order ++ [key] }, dropped)

/-- Stores what was compiled for a descriptor, unless there is an entry by now that was compiled
for one that agrees. The result is the statement to go on with, the cache, and the keys that had
to go. -/
def store (cache : Cache) (d : Descriptor) (c : Compiled) : Compiled × Cache × List CacheKey :=
  if cache.capacity = 0 then (c, cache, [])
  else
    match cache.entries[d.cacheKey]? with
    | none => (c, cache.push d.cacheKey c)
    | some existing =>
      if existing.descriptor.agrees d then (existing, cache, [])
      else (c, (cache.discard d.cacheKey).push d.cacheKey c)

def getOrCompile (cache : Cache) (d : Descriptor) (host : Host) :
    Except DescriptorFault Compiled × Cache × Host :=
  match cache.get? d with
  | some c => (.ok c, cache, host.note (.cacheHit d.text))
  | none =>
    match d.compile (host.note (.cacheMiss d.text)) with
    | (.error fault, host) => (.error fault, cache, host)
    | (.ok c, host) =>
      let (c, cache, dropped) := cache.store d c
      (.ok c, cache, host.record (dropped.map fun key => .note (.cacheEviction key.1 key.2)))

def prepare (cache : Cache) (d : Descriptor) (host : Host) :
    Except ExecutionFault Prepared × Cache × Host :=
  match cache.getOrCompile d host with
  | (.error fault, cache, host) => (.error (.descriptor fault), cache, host)
  | (.ok c, cache, host) => (.ok (.ofCompiled c), cache, host)

end Cache
end CategoryStatements
