import CategoryStatements.Proofs.Exchanges
import CategoryStatements.Proofs.Lifecycle
import Mathlib.Data.List.Nodup

/-! The cache as a list. A shelf holds compiled statements, oldest first; what it allows a command
about the cache to do is said by a few rules. The cache keeps the entries of a shelf in a table
and their keys in a queue. Whatever commands a session is given, its exchanges follow the rules of
a shelf, and table and queue agree with it at every moment. -/
namespace CategoryStatements

def Compiled.cacheKey (c : Compiled) : CacheKey := c.descriptor.cacheKey

structure Shelf where
  capacity : Nat
  /-- Oldest first. -/
  entries : List Compiled := []

namespace Shelf

/-- The entry under a key. -/
def under? (shelf : Shelf) (key : CacheKey) : Option Compiled :=
  shelf.entries.find? fun c => c.cacheKey = key

/-- The entry that a lookup hits: the one under the key of the descriptor, if it was compiled for
a descriptor that agrees. -/
def hit? (shelf : Shelf) (d : Descriptor) : Option Compiled :=
  (shelf.under? d.cacheKey).filter fun c => c.descriptor.agrees d

def without (shelf : Shelf) (key : CacheKey) : Shelf :=
  { shelf with entries := shelf.entries.filter fun c => c.cacheKey ≠ key }

/-- Drops the oldest entry if the shelf is full. -/
def withRoom (shelf : Shelf) : Shelf :=
  if shelf.entries.length = shelf.capacity then { shelf with entries := shelf.entries.tail }
  else shelf

/-- Adds the youngest entry. One under its key goes first, and the oldest entry goes only if the
shelf is full even so. -/
def add (shelf : Shelf) (c : Compiled) : Shelf :=
  if shelf.capacity = 0 then shelf
  else
    let others := (shelf.without c.cacheKey).withRoom
    { others with entries := others.entries ++ [c] }

/-- What a lookup that compiles on a miss may yield, the calls it makes to the store, and the
shelf after it. -/
inductive Finds (shelf : Shelf) (d : Descriptor) :
    Except DescriptorFault Compiled → List Call → Shelf → Prop
  | hit {c : Compiled} (found : shelf.hit? d = some c) : Finds shelf d (.ok c) [] shelf
  | refused {fault : DescriptorFault} (missed : shelf.hit? d = none)
      (wrong : d.check = .error fault) : Finds shelf d (.error fault) [] shelf
  | compiled {s : Statement} {key : Option Key} (missed : shelf.hit? d = none)
      (right : d.check = .ok s) (created : s.CreatedWith d.category key) (id : Nat) :
      Finds shelf d (.ok ⟨d, s, ⟨id, s.kind⟩⟩) [.create ⟨id, s.kind⟩ d.category key]
        (shelf.add ⟨d, s, ⟨id, s.kind⟩⟩)

end Shelf

/-- The reply that hands out what a lookup yields. -/
def Reply.ofCompiled : Except DescriptorFault Compiled → Reply
  | .ok c => .compiled c
  | .error fault => .descriptorFault fault

/-- The reply that hands out a prepared statement over what a lookup yields. -/
def Reply.ofPrepared : Except DescriptorFault Compiled → Reply
  | .ok c => .prepared (.ofCompiled c)
  | .error fault => .executionFault (.descriptor fault)

def Reply.ofFound : Option Compiled → Reply
  | some c => .compiled c
  | none => .nothing

/-- Whether a command is about the cache. -/
def Command.usesCache : Command → Bool
  | cachePrepare _ _ | cacheCompile _ | cacheGet _ | cacheInfo | cacheClear => true
  | _ => false

namespace Shelf

/-- The rules of a shelf for one exchange. -/
inductive Allows (shelf : Shelf) : Exchange → Shelf → Prop
  | get (d : Descriptor) : Allows shelf ⟨.cacheGet d, .ofFound (shelf.hit? d), []⟩ shelf
  | compile {d : Descriptor} {result : Except DescriptorFault Compiled} {calls : List Call}
      {next : Shelf} (finds : shelf.Finds d result calls next) :
      Allows shelf ⟨.cacheCompile d, .ofCompiled result, calls⟩ next
  | prepare (slot : String) {d : Descriptor} {result : Except DescriptorFault Compiled}
      {calls : List Call} {next : Shelf} (finds : shelf.Finds d result calls next) :
      Allows shelf ⟨.cachePrepare slot d, .ofPrepared result, calls⟩ next
  | info : Allows shelf ⟨.cacheInfo, .cacheState shelf.entries.length shelf.capacity, []⟩ shelf
  | clear : Allows shelf ⟨.cacheClear, .done, []⟩ { shelf with entries := [] }
  | apart {e : Exchange} (other : e.command.usesCache = false) : Allows shelf e shelf

/-- Exchanges that follow the rules, one after the other. -/
inductive Serves : Shelf → List Exchange → Shelf → Prop
  | nil (shelf : Shelf) : Serves shelf [] shelf
  | cons {shelf next last : Shelf} {e : Exchange} {others : List Exchange}
      (first : shelf.Allows e next) (rest : next.Serves others last) :
      Serves shelf (e :: others) last

theorem capacity_withRoom (shelf : Shelf) : shelf.withRoom.capacity = shelf.capacity := by
  rw [withRoom]
  split <;> rfl

theorem capacity_add (shelf : Shelf) (c : Compiled) : (shelf.add c).capacity = shelf.capacity := by
  rw [add]
  split
  · rfl
  · exact capacity_withRoom _

theorem Allows.capacity_eq {shelf next : Shelf} {e : Exchange} (h : shelf.Allows e next) :
    next.capacity = shelf.capacity := by
  have hfinds {d result calls next} (h : shelf.Finds d result calls next) :
      next.capacity = shelf.capacity := by
    cases h with
    | hit | refused => rfl
    | compiled => exact capacity_add shelf _
  cases h with
  | compile finds | prepare _ finds => exact hfinds finds
  | get | info | clear | apart => rfl

theorem Serves.capacity_eq {shelf last : Shelf} {exchanges : List Exchange}
    (h : shelf.Serves exchanges last) : last.capacity = shelf.capacity := by
  induction h with
  | nil => rfl
  | cons first _ ih => exact ih.trans first.capacity_eq

end Shelf

/-- The table holds the listed entries under their keys, which differ. -/
structure TableOf (entries : Std.HashMap CacheKey Compiled) (listed : List Compiled) : Prop where
  distinct : (listed.map Compiled.cacheKey).Nodup
  size : entries.size = listed.length
  lookup : ∀ key, entries[key]? = listed.find? fun c => c.cacheKey = key

namespace TableOf

variable {entries : Std.HashMap CacheKey Compiled} {listed : List Compiled}

theorem empty : TableOf {} [] := ⟨by simp, by simp, by simp⟩

theorem mem_iff (h : TableOf entries listed) (key : CacheKey) :
    key ∈ entries ↔ key ∈ listed.map Compiled.cacheKey := by
  rw [Std.HashMap.mem_iff_isSome_getElem?, h.lookup, List.find?_isSome]
  simp

theorem keys_without (listed : List Compiled) (key : CacheKey) :
    (listed.filter fun c => c.cacheKey ≠ key).map Compiled.cacheKey =
      (listed.map Compiled.cacheKey).filter (· ≠ key) := by
  rw [List.filter_map]
  rfl

theorem erase (h : TableOf entries listed) (key : CacheKey) :
    TableOf (entries.erase key) (listed.filter fun c => c.cacheKey ≠ key) := by
  constructor
  · rw [keys_without]
    exact h.distinct.filter _
  · have hlength : (listed.filter fun c => c.cacheKey ≠ key).length =
        ((listed.map Compiled.cacheKey).erase key).length := by
      rw [h.distinct.erase_eq_filter, ← List.length_map Compiled.cacheKey, keys_without]
      congr 2
      funext k
      by_cases hk : k = key <;> simp [hk]
    rw [hlength, List.length_erase, Std.HashMap.size_erase, h.size, List.length_map]
    simp only [h.mem_iff]
  · intro k
    rw [Std.HashMap.getElem?_erase, h.lookup, List.find?_filter]
    by_cases hk : key = k
    · rw [if_pos (by simpa using hk), eq_comm, List.find?_eq_none]
      intro c _ hc
      simp [hk] at hc
    · rw [if_neg (by simpa using hk)]
      congr 1
      funext c
      by_cases hc : c.cacheKey = k
      · simp [hc, Ne.symm hk]
      · simp [hc]

/-- An entry under a new key goes to the end. -/
theorem insert (h : TableOf entries listed) {c : Compiled}
    (hnew : c.cacheKey ∉ listed.map Compiled.cacheKey) :
    TableOf (entries.insert c.cacheKey c) (listed ++ [c]) := by
  constructor
  · rw [List.map_append, List.map_singleton, List.nodup_append_comm]
    exact List.nodup_cons.mpr ⟨hnew, h.distinct⟩
  · rw [Std.HashMap.size_insert, if_neg (fun hmem => hnew ((h.mem_iff _).mp hmem)), h.size]
    simp
  · intro k
    rw [Std.HashMap.getElem?_insert, h.lookup, List.find?_append]
    by_cases hk : c.cacheKey = k
    · subst hk
      have hnone : listed.find? (fun e => e.cacheKey = c.cacheKey) = none := by
        rw [List.find?_eq_none]
        intro e he heq
        exact hnew (List.mem_map.mpr ⟨e, he, by simpa using heq⟩)
      simp [hnone]
    · simp [hk]

end TableOf

/-- A cache that keeps the entries of a shelf: their keys in order in a queue, and the entries
themselves in a table. -/
structure Cache.Represents (cache : Cache) (shelf : Shelf) : Prop where
  capacity : cache.capacity = shelf.capacity
  order : cache.order = shelf.entries.map Compiled.cacheKey
  table : TableOf cache.entries shelf.entries
  bounded : shelf.entries.length ≤ shelf.capacity

theorem makeRoom_of_lt {capacity : Nat} {entries : Std.HashMap CacheKey Compiled}
    (h : entries.size < capacity) (order : List CacheKey) :
    makeRoom capacity entries order = (entries, order, []) := by
  cases order with
  | nil => rfl
  | cons oldest rest => rw [makeRoom, if_pos h]

namespace Cache.Represents

variable {cache : Cache} {shelf : Shelf}

theorem get?_eq (h : cache.Represents shelf) (d : Descriptor) : cache.get? d = shelf.hit? d := by
  rw [Cache.get?, h.table.lookup]
  rfl

theorem clear (h : cache.Represents shelf) :
    cache.clear.Represents { shelf with entries := [] } :=
  ⟨h.capacity, rfl, .empty, Nat.zero_le _⟩

theorem discard (h : cache.Represents shelf) (key : CacheKey) :
    (cache.discard key).Represents (shelf.without key) := by
  refine ⟨h.capacity, ?_, h.table.erase key, ?_⟩
  · rw [Cache.discard, h.order, Shelf.without, TableOf.keys_without]
  · exact Nat.le_trans (List.length_filter_le _ _) h.bounded

/-- Making room takes away the oldest entry, and only if the shelf is full. -/
theorem makeRoom_eq (h : cache.Represents shelf) (hcapacity : cache.capacity ≠ 0) :
    TableOf (makeRoom cache.capacity cache.entries cache.order).1 shelf.withRoom.entries ∧
      (makeRoom cache.capacity cache.entries cache.order).2.1 =
        shelf.withRoom.entries.map Compiled.cacheKey ∧
      shelf.withRoom.entries.length < shelf.capacity := by
  have hsize : cache.entries.size = shelf.entries.length := h.table.size
  have hbounded := h.bounded
  rw [h.capacity] at hcapacity ⊢
  by_cases hfull : shelf.entries.length = shelf.capacity
  · rw [Shelf.withRoom, if_pos hfull, h.order]
    cases hlisted : shelf.entries with
    | nil =>
      rw [hlisted] at hfull
      exact absurd hfull.symm hcapacity
    | cons oldest rest =>
      -- The second round finds that one entry less is enough.
      have htable := h.table
      rw [hlisted] at hfull hsize htable
      have hdistinct := List.nodup_cons.mp htable.distinct
      have hrest : (oldest :: rest).filter (fun c => c.cacheKey ≠ oldest.cacheKey) = rest := by
        rw [List.filter_cons_of_neg (by simp), List.filter_eq_self]
        intro c hc
        simpa using fun he => hdistinct.1 (List.mem_map.mpr ⟨c, hc, he⟩)
      have herased := htable.erase oldest.cacheKey
      rw [hrest] at herased
      have hlt : (cache.entries.erase oldest.cacheKey).size < shelf.capacity := by
        rw [herased.size, ← hfull, List.length_cons]
        omega
      rw [List.map_cons, makeRoom, if_neg (by omega), makeRoom_of_lt hlt]
      refine ⟨herased, rfl, ?_⟩
      rw [← hfull]
      exact Nat.lt_succ_self rest.length
  · rw [Shelf.withRoom, if_neg hfull]
    have hlt : shelf.entries.length < shelf.capacity := by omega
    rw [makeRoom_of_lt (by rw [hsize]; exact hlt)]
    exact ⟨h.table, h.order, hlt⟩

/-- A statement under a new key becomes the youngest entry. -/
theorem push (h : cache.Represents shelf) (hcapacity : cache.capacity ≠ 0) {c : Compiled}
    (hnew : ∀ e ∈ shelf.entries, e.cacheKey ≠ c.cacheKey) :
    (cache.push c.cacheKey c).1.Represents
      { shelf.withRoom with entries := shelf.withRoom.entries ++ [c] } := by
  have hcap := shelf.capacity_withRoom
  have hsub : shelf.withRoom.entries ⊆ shelf.entries := by
    rw [Shelf.withRoom]
    split
    · exact fun _ => List.mem_of_mem_tail
    · exact List.Subset.refl _
  obtain ⟨htable, horder, hlength⟩ := h.makeRoom_eq hcapacity
  rw [Cache.push]
  generalize makeRoom cache.capacity cache.entries cache.order = room at htable horder ⊢
  obtain ⟨entries, order, dropped⟩ := room
  refine ⟨h.capacity.trans hcap.symm, ?_, htable.insert ?_, ?_⟩
  · rw [List.map_append, ← horder]
    rfl
  · intro hmem
    obtain ⟨e, he, heq⟩ := List.mem_map.mp hmem
    exact hnew e (hsub he) heq
  · rw [List.length_append, hcap]
    exact hlength

/-- After a miss, storing a statement is adding it to the shelf. -/
theorem store (h : cache.Represents shelf) {d : Descriptor} (hmiss : cache.get? d = none)
    {c : Compiled} (hkey : c.cacheKey = d.cacheKey) :
    (cache.store d c).2.1.Represents (shelf.add c) := by
  rw [Cache.store, Shelf.add, ← h.capacity, ← hkey]
  split
  · exact h
  · next hcapacity =>
    split
    · next hnone =>
      -- there is nothing under the key that would have to go first
      have hnew : ∀ e ∈ shelf.entries, e.cacheKey ≠ c.cacheKey := by
        rw [h.table.lookup, List.find?_eq_none] at hnone
        simpa using hnone
      have hwithout : shelf.without c.cacheKey = shelf := by
        rw [Shelf.without, List.filter_eq_self.mpr (by simpa using hnew)]
      rw [hwithout]
      exact h.push hcapacity hnew
    · next existing hfound =>
      have hother : ¬existing.descriptor.agrees d := by
        rw [hkey] at hfound
        simpa [Cache.get?, hfound] using hmiss
      rw [if_neg hother]
      refine (h.discard c.cacheKey).push hcapacity fun e he => ?_
      simpa using (List.mem_filter.mp he).2

end Cache.Represents

namespace Session

variable {s : Session} {shelf : Shelf}

/-- A lookup follows the rules of the shelf that the cache represents. -/
theorem finds_of_getOrCompile (h : s.cache.Represents shelf) (d : Descriptor) :
    ∃ calls next, shelf.Finds d (s.cache.getOrCompile d s.host).1 calls next ∧
      s.host.Makes calls (s.cache.getOrCompile d s.host).2.2 ∧
      (s.cache.getOrCompile d s.host).2.1.Represents next := by
  have hget := h.get?_eq d
  obtain ⟨c, hhit, heq⟩ | ⟨hmiss, fault, next, hcheck, heq, hmakes⟩ |
    ⟨hmiss, statement, next, hcheck, heq, hmakes⟩ := s.cache.getOrCompile_cases d s.host
  · rw [heq]
    exact ⟨[], shelf, .hit (hget.symm.trans hhit), s.host.makes_notes [_], h⟩
  · rw [heq]
    exact ⟨[], shelf, .refused (hget.symm.trans hmiss) hcheck, hmakes, h⟩
  · rw [heq]
    have hcreated := Descriptor.createdWith_of_check hcheck
    exact ⟨_, _, .compiled (hget.symm.trans hmiss) hcheck hcreated _, hmakes, h.store hmiss rfl⟩

/-- One exchange of a session is one of the shelf that its cache represents. -/
theorem allows_of_step (h : s.cache.Represents shelf) (command : Command) :
    ∃ next, shelf.Allows (s.exchange command) next ∧
      (s.step command).2.cache.Represents next := by
  cases command with
  | cachePrepare slot d =>
    obtain ⟨calls, next, hfinds, hmakes, hnext⟩ := finds_of_getOrCompile h d
    have hlookup : (Command.cachePrepare slot d).lookup? = some d := rfl
    obtain ⟨hcache, hhost⟩ := step_of_lookup? (s := s) hlookup
    have hreply : (s.step (.cachePrepare slot d)).1 =
        .ofPrepared (s.cache.getOrCompile d s.host).1 := by
      rw [step, Cache.prepare]
      obtain ⟨_ | c, cache, host⟩ := s.cache.getOrCompile d s.host <;> rfl
    refine ⟨next, ?_, by rwa [hcache]⟩
    rw [exchange, hreply, hhost, hmakes.calls_of_drop]
    exact .prepare slot hfinds
  | cacheCompile d =>
    obtain ⟨calls, next, hfinds, hmakes, hnext⟩ := finds_of_getOrCompile h d
    have hlookup : (Command.cacheCompile d).lookup? = some d := rfl
    obtain ⟨hcache, hhost⟩ := step_of_lookup? (s := s) hlookup
    have hreply : (s.step (.cacheCompile d)).1 =
        .ofCompiled (s.cache.getOrCompile d s.host).1 := by
      rw [step]
      obtain ⟨_ | c, cache, host⟩ := s.cache.getOrCompile d s.host <;> rfl
    refine ⟨next, ?_, by rwa [hcache]⟩
    rw [exchange, hreply, hhost, hmakes.calls_of_drop]
    exact .compile hfinds
  | cacheGet d =>
    have hstep : s.step (.cacheGet d) = (.ofFound (shelf.hit? d), s) := by
      rw [step, ← h.get?_eq d]
      cases s.cache.get? d <;> rfl
    rw [exchange, hstep, List.drop_length]
    exact ⟨shelf, .get d, h⟩
  | cacheInfo =>
    have hstep : s.step .cacheInfo = (.cacheState shelf.entries.length shelf.capacity, s) := by
      rw [step, Cache.size, h.table.size, h.capacity]
    rw [exchange, hstep, List.drop_length]
    exact ⟨shelf, .info, h⟩
  | cacheClear =>
    refine ⟨{ shelf with entries := [] }, ?_, h.clear⟩
    rw [exchange, step, List.drop_length]
    exact .clear
  | _ => exact ⟨shelf, .apart rfl, by rwa [cache_step rfl (by simp)]⟩

theorem serves_of_run (h : s.cache.Represents shelf) (commands : List Command) :
    ∃ last, shelf.Serves (s.exchanges commands) last ∧
      (s.run commands).2.cache.Represents last := by
  induction commands generalizing s shelf with
  | nil => exact ⟨shelf, .nil shelf, h⟩
  | cons command commands ih =>
    obtain ⟨next, hallows, hnext⟩ := allows_of_step h command
    obtain ⟨last, hserves, hlast⟩ := ih hnext
    exact ⟨last, .cons hallows hserves, hlast⟩

/-- The cache is a bounded list of entries, first in, first out. After any commands its queue
holds the keys of its table, each once and no more than it has room for, and all that was
exchanged follows the rules of a shelf that started empty and now has the entries of the table in
the order of the queue. -/
theorem run_refines_shelf (capacity : Nat) (behaviour : Behaviour) (commands : List Command) :
    let start := fresh capacity behaviour
    let cache := (start.run commands).2.cache
    (∀ key, key ∈ cache.order ↔ key ∈ cache.entries) ∧ cache.order.Nodup ∧
      cache.order.length ≤ capacity ∧
      ∃ shelf, Shelf.Serves { capacity } (start.exchanges commands) shelf ∧
        cache.order = shelf.entries.map Compiled.cacheKey ∧
        ∀ key, cache.entries[key]? = shelf.under? key := by
  have hstart : (fresh capacity behaviour).cache.Represents { capacity } :=
    ⟨rfl, rfl, .empty, Nat.zero_le _⟩
  obtain ⟨shelf, hserves, hlast⟩ := serves_of_run hstart commands
  refine ⟨fun key => ?_, ?_, ?_, shelf, hserves, hlast.order, hlast.table.lookup⟩
  · rw [hlast.order, hlast.table.mem_iff]
  · rw [hlast.order]
    exact hlast.table.distinct
  · rw [hlast.order, List.length_map]
    calc
      shelf.entries.length ≤ shelf.capacity := hlast.bounded
      _ = capacity := hserves.capacity_eq

end Session

end CategoryStatements
