import CategoryStatements.Proofs.Journal

/-! Sessions as sequences of exchanges: a command, its reply, and the calls made to the store
meanwhile. One command at a time it is shown what becomes of the host, the cache and the slots. -/
namespace CategoryStatements

structure Exchange where
  command : Command
  reply : Reply
  calls : List Call

/-- The calls that follow a binding. A rerun duplicates the bound statement, which has just got
the last number. -/
def FollowUp.calls (next : FollowUp) (copy : Handle) : List Call :=
  (if next.run then [copy.runCall] else []) ++
    if next.rerun then
      [.duplicate copy ⟨copy.id + 1, copy.kind⟩, Handle.runCall ⟨copy.id + 1, copy.kind⟩]
    else []

@[simp]
theorem issued?_runCall (handle : Handle) : handle.runCall.issued? = none := by
  unfold Handle.runCall
  split <;> rfl

namespace Command

/-- The descriptor that a command looks up in the cache, to compile it on a miss. -/
def lookup? : Command → Option Descriptor
  | cachePrepare _ d | cacheCompile d => some d
  | _ => none

/-- Whether a command leaves cache and slots alone. -/
def keepsAll : Command → Bool
  | cacheGet _ | cacheInfo | describe _ | get _ _ | parameters _ | bind _ _ | bindTo _ _ _
  | execute _ | executeQuery _ | configure _ => true
  | _ => false

end Command

namespace Cache

section Found

variable {cache : Cache} {d : Descriptor} {c : Compiled}

theorem getElem?_of_get? (h : cache.get? d = some c) : cache.entries[d.cacheKey]? = some c :=
  (Option.filter_eq_some_iff.mp h).1

/-- What a lookup finds was compiled for a descriptor that agrees. -/
theorem agrees_of_get? (h : cache.get? d = some c) : c.descriptor.agrees d = true :=
  (Option.filter_eq_some_iff.mp h).2

end Found

theorem getElem?_of_makeRoom {capacity : Nat} {entries : Std.HashMap CacheKey Compiled}
    {order : List CacheKey} {key : CacheKey} {c : Compiled}
    (h : (makeRoom capacity entries order).1[key]? = some c) : entries[key]? = some c := by
  induction order generalizing entries with
  | nil => exact h
  | cons oldest rest ih =>
    rw [makeRoom] at h
    split at h
    · exact h
    · have herased := ih h
      rw [Std.HashMap.getElem?_erase] at herased
      split at herased
      · cases herased
      · exact herased

section Stored

variable {cache : Cache} {d : Descriptor} {c c' : Compiled} {key key' : CacheKey}

theorem eq_or_of_push (h : (cache.push key' c).1.entries[key]? = some c') :
    c' = c ∨ cache.entries[key]? = some c' := by
  rw [push, Std.HashMap.getElem?_insert] at h
  split at h
  · exact .inl (Option.some.inj h).symm
  · exact .inr (getElem?_of_makeRoom h)

theorem getElem?_of_discard (h : (cache.discard key').entries[key]? = some c') :
    cache.entries[key]? = some c' := by
  rw [discard, Std.HashMap.getElem?_erase] at h
  split at h
  · cases h
  · exact h

/-- Storing adds one entry and no other. -/
theorem eq_or_of_store (h : (cache.store d c).2.1.entries[key]? = some c') :
    c' = c ∨ cache.entries[key]? = some c' := by
  rw [store] at h
  split at h
  · exact .inr h
  · split at h
    · exact eq_or_of_push h
    · split at h
      · exact .inr h
      · exact (eq_or_of_push h).imp_right getElem?_of_discard

end Stored

end Cache

namespace Session

/-- A session in which nothing has happened. -/
def fresh (capacity : Nat) (behaviour : Behaviour) : Session :=
  { host := { behaviour }, cache := { capacity } }

/-- Commands with what comes of them, in order. -/
def exchanges (s : Session) (commands : List Command) : List Exchange :=
  List.zipWith (fun command answer => ⟨command, answer.1, answer.2.filterMap Event.call?⟩)
    commands (s.run commands).1

/-- A command with what comes of it at once. -/
def exchange (s : Session) (command : Command) : Exchange where
  command := command
  reply := (s.step command).1
  calls := ((s.step command).2.host.journal.drop s.host.journal.length).filterMap Event.call?

theorem exchanges_cons (s : Session) (command : Command) (commands : List Command) :
    s.exchanges (command :: commands) =
      s.exchange command :: (s.step command).2.exchanges commands :=
  rfl

theorem run_append (s : Session) (earlier later : List Command) :
    (s.run (earlier ++ later)).2 = ((s.run earlier).2.run later).2 := by
  induction earlier generalizing s with
  | nil => rfl
  | cons command commands ih => exact ih (s.step command).2

/-- What every command keeps, any commands keep. -/
theorem run_keeps {P : Session → Prop} {commands : List Command}
    (hstep : ∀ s, ∀ command ∈ commands, P s → P (s.step command).2) {s : Session} (h : P s) :
    P (s.run commands).2 := by
  induction commands generalizing s with
  | nil => exact h
  | cons command commands ih =>
    have hnext : P (s.step command).2 := hstep s command (by simp) h
    exact ih (fun t c hc => hstep t c (List.mem_cons_of_mem _ hc)) hnext

section Slots

variable {s : Session} {name slot : String} {p : Prepared}

theorem lookup_filter_ne {entries : List (String × Prepared)} (h : name ≠ slot) :
    (entries.filter fun entry => entry.1 ≠ slot).lookup name = entries.lookup name := by
  induction entries with
  | nil => rfl
  | cons entry entries ih =>
    obtain ⟨other, q⟩ := entry
    by_cases hother : other = slot
    · have hne : (name == other) = false := by simpa [hother] using h
      rw [List.filter_cons_of_neg (by simpa using hother), ih, List.lookup_cons, hne]
    · rw [List.filter_cons_of_pos (by simpa using hother), List.lookup_cons, List.lookup_cons, ih]

theorem slot?_put (s : Session) (slot : String) (p : Prepared) (name : String) :
    (s.put slot p).slot? name = if name = slot then some p else s.slot? name := by
  unfold slot? put
  rw [List.lookup_cons]
  by_cases hname : name = slot
  · simp [hname]
  · have hne : (name == slot) = false := by simpa using hname
    rw [hne, if_neg hname]
    exact lookup_filter_ne hname

/-- What answers from a slot does so from the statement in it, or from its absence. -/
theorem withSlot_cases {P : Reply × Session → Prop} {f : Prepared → Reply × Session}
    (hnone : P (.noSlot, s)) (hsome : ∀ p, s.slot? slot = some p → P (f p)) :
    P (s.withSlot slot f) := by
  unfold withSlot
  split
  · next p hp => exact hsome p hp
  · exact hnone

@[simp]
theorem cache_keep (s : Session) (slot : String) (result : Except ExecutionFault Prepared) :
    (s.keep slot result).2.cache = s.cache := by
  cases result <;> rfl

@[simp]
theorem host_keep (s : Session) (slot : String) (result : Except ExecutionFault Prepared) :
    (s.keep slot result).2.host = s.host := by
  cases result <;> rfl

end Slots

section Binding

variable {c : Compiled} {ps : Parameters}

theorem bindWith_of_error (s : Session) {fault : BindingFault}
    (h : c.statement.bind ps = .error fault) (next : FollowUp) :
    s.bindWith c ps next = (.bindingFault fault, s) := by
  rw [bindWith, Compiled.bind_of_error h]
  rfl

theorem bindWith_frame (s : Session) (c : Compiled) (ps : Parameters) (next : FollowUp) :
    (s.bindWith c ps next).2.cache = s.cache ∧ (s.bindWith c ps next).2.slots = s.slots := by
  unfold bindWith
  split <;> exact ⟨rfl, rfl⟩

theorem bindWith_makes (s : Session) {b : Bound} (h : c.statement.bind ps = .ok b)
    (next : FollowUp) :
    s.host.Makes (c.bindCalls b ⟨s.host.nextId, c.template.kind⟩ ++
      next.calls ⟨s.host.nextId, c.template.kind⟩) (s.bindWith c ps next).2.host := by
  obtain ⟨bound, hbind, hmakes⟩ := Compiled.bind_makes h s.host
  let copy : Handle := ⟨s.host.nextId, c.template.kind⟩
  have hbound : bound.nextId = copy.id + 1 := by
    rw [hmakes.nextId, Compiled.issuedBy_bindCalls]
    rfl
  have hrun := Host.makes_runIf (fun host => host.run copy) (bound.makes_run copy) next.run
  -- a run yields no new statement, so that a rerun gets the number after the copy's
  have hran : (bound.runIf next.run fun host => host.run copy).2.nextId = copy.id + 1 := by
    rw [hrun.nextId, hbound]
    cases next.run <;> simp [issuedBy, issued?_runCall]
  have hrerun := Host.makes_runIf (fun host => host.rerun copy)
    (Host.makes_rerun (bound.runIf next.run fun host => host.run copy).2 copy) next.rerun
  rw [hran] at hrerun
  have h := (hmakes.trans hrun).trans hrerun
  rw [List.append_assoc] at h
  rw [bindWith, hbind]
  exact h

end Binding

section Frame

variable {s : Session} {command : Command} {d : Descriptor}

/-- A lookup through the cache does to cache and host what the cache does. -/
theorem step_of_lookup? (h : command.lookup? = some d) :
    (s.step command).2.cache = (s.cache.getOrCompile d s.host).2.1 ∧
      (s.step command).2.host = (s.cache.getOrCompile d s.host).2.2 := by
  cases command with
  | cachePrepare slot d' =>
    cases h
    rw [step, Cache.prepare]
    obtain ⟨result, cache, host⟩ := s.cache.getOrCompile d s.host
    cases result <;> simp
  | cacheCompile d' =>
    cases h
    rw [step]
    obtain ⟨result, cache, host⟩ := s.cache.getOrCompile d s.host
    cases result <;> simp
  | _ => cases h

/-- Commands that only look or run leave cache and slots as they are. -/
theorem step_of_keepsAll (h : command.keepsAll = true) :
    (s.step command).2.cache = s.cache ∧ (s.step command).2.slots = s.slots := by
  let Same (r : Reply × Session) : Prop := r.2.cache = s.cache ∧ r.2.slots = s.slots
  cases command with
  | cacheInfo | configure setting => exact ⟨rfl, rfl⟩
  | cacheGet d =>
    rw [step]
    split <;> exact ⟨rfl, rfl⟩
  | describe slot | parameters slot =>
    exact withSlot_cases (P := Same) ⟨rfl, rfl⟩ fun p _ => ⟨rfl, rfl⟩
  | get slot index | execute slot | executeQuery slot =>
    refine withSlot_cases (P := Same) ⟨rfl, rfl⟩ fun p _ => ?_
    split <;> exact ⟨rfl, rfl⟩
  | bind slot next =>
    exact withSlot_cases (P := Same) ⟨rfl, rfl⟩ fun p _ =>
      bindWith_frame s p.compiled p.parameters next
  | bindTo slot offers next =>
    refine withSlot_cases (P := Same) ⟨rfl, rfl⟩ fun p _ => ?_
    split
    · exact bindWith_frame s _ _ next
    · exact ⟨rfl, rfl⟩
  | _ => cases h

/-- Commands that neither look anything up nor clear the cache leave it as it is. -/
theorem cache_step (hlookup : command.lookup? = none) (hclear : command ≠ .cacheClear) :
    (s.step command).2.cache = s.cache := by
  let Same (r : Reply × Session) : Prop := r.2.cache = s.cache
  cases command with
  | cachePrepare slot d => cases hlookup
  | cacheCompile d => cases hlookup
  | cacheClear => exact absurd rfl hclear
  | prepare slot d => simp [step, withHost]
  | share slot source | clone slot source | clear slot =>
    exact withSlot_cases (P := Same) rfl fun p _ => rfl
  | set slot index offer =>
    refine withSlot_cases (P := Same) rfl fun p _ => ?_
    split <;> rfl
  | _ => exact (step_of_keepsAll rfl).1

/-- An entry of the cache was there before, or a lookup has compiled it for its descriptor. -/
theorem cached_of_step {key : CacheKey} {c : Compiled}
    (h : (s.step command).2.cache.entries[key]? = some c) :
    s.cache.entries[key]? = some c ∨
      ∃ d, command.lookup? = some d ∧ c.descriptor = d ∧
        (s.cache.getOrCompile d s.host).1 = .ok c := by
  cases hlookup : command.lookup? with
  | none =>
    by_cases hclear : command = .cacheClear
    · rw [hclear] at h
      simp [step, Cache.clear] at h
    · rw [cache_step hlookup hclear] at h
      exact .inl h
  | some d =>
    rw [(step_of_lookup? hlookup).1] at h
    obtain ⟨c', -, hget⟩ | ⟨-, fault, next, -, hget, -⟩ | ⟨-, statement, next, -, hget, -⟩ :=
      s.cache.getOrCompile_cases d s.host
    · rw [hget] at h
      exact .inl h
    · rw [hget] at h
      exact .inl h
    · rw [hget] at h
      rcases Cache.eq_or_of_store h with rfl | h
      · exact .inr ⟨d, rfl, rfl, by rw [hget]⟩
      · exact .inl h

end Frame

end Session
end CategoryStatements
