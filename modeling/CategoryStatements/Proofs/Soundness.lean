import CategoryStatements.Proofs.Exchanges
import Mathlib.Data.List.Nodup

/-! What holds of a session after any commands. One command makes the calls of one episode: it
creates a template, or duplicates one that the session knows and tells or runs only its own
duplicates. Statements are therefore numbered as they are issued, only duplicates are told anything
or run, and every compiled statement that is kept has a template that was created for it. -/
namespace CategoryStatements

theorem runCall_cases (handle : Handle) :
    handle.runCall = .execute handle ∨ handle.runCall = .executeQuery handle := by
  unfold Handle.runCall
  split
  · exact .inr rfl
  · exact .inl rfl

namespace Command

/-- Whether a command binds the statement of that kind in a slot to its own parameters. -/
def binds (slot : String) (kind : Kind) : Command → Bool
  | bind target _ => target = slot
  | execute target => target = slot && !kind.isQuery
  | executeQuery target => target = slot && kind.isQuery
  | _ => false

/-- The calls that such a command makes with the bound statement. -/
def callsOn (copy : Handle) : Command → List Call
  | bind _ next => next.calls copy
  | execute _ => [.execute copy]
  | executeQuery _ => [.executeQuery copy]
  | _ => []

end Command

/-- Calls that run a statement or duplicates of it, and tell the store nothing else. -/
structure RunsOn (copy : Handle) (calls : List Call) : Prop where
  sources : ∀ source handle, .duplicate source handle ∈ calls → source = copy
  targets : ∀ call ∈ calls, ∀ handle, call.target? = some handle →
    handle = copy ∨ ∃ source, .duplicate source handle ∈ calls

theorem FollowUp.runsOn_calls (next : FollowUp) (copy : Handle) :
    RunsOn copy (next.calls copy) := by
  have hrun := runCall_cases copy
  have hrerun := runCall_cases ⟨copy.id + 1, copy.kind⟩
  constructor
  · intro source handle hmem
    simp only [calls] at hmem
    grind
  · intro call hmem handle htarget
    simp only [calls] at hmem ⊢
    grind [Call.target?]

theorem Command.runsOn_callsOn (command : Command) (copy : Handle) :
    RunsOn copy (command.callsOn copy) := by
  cases command with
  | bind _ next => exact next.runsOn_calls copy
  | execute _ | executeQuery _ =>
    constructor <;> simp [callsOn, Call.target?, eq_comm]
  | _ => constructor <;> simp [callsOn]

/-- A compiled statement that passed its checks, and whose template one of the calls created
with the key that the category of its own descriptor declares. -/
structure Compiled.Backed (c : Compiled) (calls : List Call) : Prop where
  checked : c.descriptor.check = .ok c.statement
  kind : c.template.kind = c.kind
  created : .create c.template c.descriptor.category
    (c.statement.templateKey? c.descriptor.category) ∈ calls

theorem Compiled.Backed.mono {c : Compiled} {calls more : List Call} (h : c.Backed calls)
    (hsub : calls ⊆ more) : c.Backed more :=
  ⟨h.checked, h.kind, hsub h.created⟩

theorem Compiled.Backed.mem_issued {c : Compiled} {calls : List Call} (h : c.Backed calls) :
    c.template ∈ issuedBy calls :=
  List.mem_filterMap.mpr ⟨_, h.created, rfl⟩

namespace Prepared

/-- A setter builds the value on offer, then looks whether the index is in range. -/
theorem set_eq (p : Prepared) (index : Nat) (offer : Offer) : p.set index offer =
    match offer.value with
    | .error fault => .error fault
    | .ok value =>
      if index < p.parameters.size then
        .ok { p with parameters := ⟨p.parameters.values.set index (some value)⟩ }
      else .error (.indexOutOfRange index p.parameters.size) := by
  rw [set]
  cases offer.value with
  | error fault => rfl
  | ok value =>
    dsimp only [Bind.bind, Except.bind, Parameters.set]
    by_cases hindex : index < p.parameters.size
    · rw [if_pos hindex, if_pos hindex]
      rfl
    · rw [if_neg hindex, if_neg hindex]

theorem set_eq_ok {p q : Prepared} {index : Nat} {offer : Offer} (h : p.set index offer = .ok q) :
    ∃ value, offer.value = .ok value ∧
      q = { p with parameters := ⟨p.parameters.values.set index (some value)⟩ } := by
  rw [set_eq] at h
  split at h
  · cases h
  · next value hvalue =>
    split at h
    · cases h
      exact ⟨value, hvalue, rfl⟩
    · cases h

end Prepared

namespace Session

/-- The compiled statements that a session keeps, in its cache and in its slots. -/
inductive Knows (s : Session) (c : Compiled) : Prop
  | cached (key : CacheKey) (found : s.cache.entries[key]? = some c)
  | slotted (slot : String) (p : Prepared) (found : s.slot? slot = some p)
      (compiled : p.compiled = c)

/-- What one command can ask of the store: it duplicates templates that the session knows or
statements of its own, and tells or runs nothing but its own duplicates. -/
structure Episode (s : Session) (calls : List Call) : Prop where
  sources : ∀ source copy, .duplicate source copy ∈ calls →
    source ∈ issuedBy calls ∨ ∃ c, s.Knows c ∧ c.template = source
  targets : ∀ call ∈ calls, ∀ handle, call.target? = some handle →
    ∃ source, .duplicate source handle ∈ calls

section Steps

variable {s : Session} {command : Command} {slot : String} {p : Prepared}

theorem episode_nil : s.Episode [] := ⟨by simp, by simp⟩

theorem episode_create (template : Handle) (category : Category) (key : Option Key) :
    s.Episode [.create template category key] :=
  ⟨by simp, by simp [Call.target?]⟩

theorem episode_binding {c : Compiled} (hknown : s.Knows c) (b : Bound) {copy : Handle}
    {rest : List Call} (hrest : RunsOn copy rest) : s.Episode (c.bindCalls b copy ++ rest) := by
  have hissued : issuedBy (c.bindCalls b copy ++ rest) = copy :: issuedBy rest := by
    rw [issuedBy, List.filterMap_append, ← issuedBy, Compiled.issuedBy_bindCalls]
    rfl
  constructor
  · intro source handle hmem
    rcases List.mem_append.mp hmem with hmem | hmem
    · simp only [Compiled.bindCalls, List.mem_cons, Call.duplicate.injEq, List.mem_map,
        reduceCtorEq, and_false, exists_false, or_false] at hmem
      exact .inr ⟨c, hknown, hmem.1.symm⟩
    · rw [hrest.sources source handle hmem, hissued]
      exact .inl (by simp)
  · intro call hmem handle htarget
    have hcopy : .duplicate c.template copy ∈ c.bindCalls b copy ++ rest := by
      simp [Compiled.bindCalls]
    rcases List.mem_append.mp hmem with hmem | hmem
    · simp only [Compiled.bindCalls, List.mem_cons, List.mem_map] at hmem
      rcases hmem with rfl | ⟨d, -, rfl⟩
      · cases htarget
      · cases htarget
        exact ⟨c.template, hcopy⟩
    · rcases hrest.targets call hmem handle htarget with rfl | ⟨source, hsource⟩
      · exact ⟨c.template, hcopy⟩
      · exact ⟨source, List.mem_append_right _ hsource⟩

theorem host_step_execute (hslot : s.slot? slot = some p) :
    (s.step (.execute slot)).2.host = (p.execute s.host).2 := by
  rw [step, withSlot, hslot]
  dsimp only
  split <;> simp_all [withHost]

theorem host_step_executeQuery (hslot : s.slot? slot = some p) :
    (s.step (.executeQuery slot)).2.host = (p.executeQuery s.host).2 := by
  rw [step, withSlot, hslot]
  dsimp only
  split <;> simp_all [withHost]

/-- A command that binds a statement makes the calls for it and runs the bound duplicate. -/
theorem step_makes_of_binds {b : Bound} (hslot : s.slot? slot = some p)
    (hkind : p.compiled.template.kind = p.compiled.kind)
    (hbinds : command.binds slot p.compiled.kind = true)
    (hb : p.compiled.statement.bind p.parameters = .ok b) :
    s.host.Makes (p.compiled.bindCalls b ⟨s.host.nextId, p.compiled.kind⟩ ++
      command.callsOn ⟨s.host.nextId, p.compiled.kind⟩) (s.step command).2.host := by
  cases command with
  | bind target next =>
    obtain rfl : target = slot := by simpa [Command.binds] using hbinds
    have h := bindWith_makes s hb next
    rw [hkind] at h
    rw [step, withSlot, hslot]
    exact h
  | execute target =>
    obtain ⟨rfl, hwrite⟩ : target = slot ∧ p.compiled.kind.isQuery = false := by
      simpa [Command.binds] using hbinds
    rw [host_step_execute hslot]
    exact Prepared.execute_makes hkind hwrite hb s.host
  | executeQuery target =>
    obtain ⟨rfl, hquery⟩ : target = slot ∧ p.compiled.kind.isQuery = true := by
      simpa [Command.binds] using hbinds
    rw [host_step_executeQuery hslot]
    exact Prepared.executeQuery_makes hkind hquery hb s.host
  | _ => cases hbinds

/-- A statement that does not bind leaves no trace in the store. -/
theorem host_step_of_unbound {fault : BindingFault} (hslot : s.slot? slot = some p)
    (hbinds : command.binds slot p.compiled.kind = true)
    (hb : p.compiled.statement.bind p.parameters = .error fault) :
    (s.step command).2.host = s.host := by
  cases command with
  | bind target next =>
    obtain rfl : target = slot := by simpa [Command.binds] using hbinds
    rw [step, withSlot, hslot]
    dsimp only
    rw [bindWith_of_error s hb]
  | execute target =>
    obtain ⟨rfl, -⟩ : target = slot ∧ p.compiled.kind.isQuery = false := by
      simpa [Command.binds] using hbinds
    rw [host_step_execute hslot, Prepared.execute_host_of_stopped (.inr ⟨fault, hb⟩)]
  | executeQuery target =>
    obtain ⟨rfl, -⟩ : target = slot ∧ p.compiled.kind.isQuery = true := by
      simpa [Command.binds] using hbinds
    rw [host_step_executeQuery hslot, Prepared.executeQuery_host_of_stopped (.inr ⟨fault, hb⟩)]
  | _ => cases hbinds

/-- A query is not run as a write, nor a write as a query. -/
theorem host_step_of_not_binds (hslot : s.slot? slot = some p)
    (hbinds : command.binds slot p.compiled.kind = false)
    (hcommand : command = .execute slot ∨ command = .executeQuery slot) :
    (s.step command).2.host = s.host := by
  rcases hcommand with rfl | rfl
  · have hquery : p.compiled.kind.isQuery = true := by simpa [Command.binds] using hbinds
    rw [host_step_execute hslot, Prepared.execute_host_of_stopped (.inl hquery)]
  · have hwrite : p.compiled.kind.isQuery = false := by simpa [Command.binds] using hbinds
    rw [host_step_executeQuery hslot, Prepared.executeQuery_host_of_stopped (.inl hwrite)]

/-- The command makes the calls of one episode. -/
def Steps (s : Session) (command : Command) : Prop :=
  ∃ calls, s.host.Makes calls (s.step command).2.host ∧ s.Episode calls

theorem steps_of_same_host (h : (s.step command).2.host = s.host) : s.Steps command :=
  ⟨[], by rw [h]; exact Host.makes_nothing rfl rfl, episode_nil⟩

theorem steps_of_lookup? {d : Descriptor} (h : command.lookup? = some d) : s.Steps command := by
  unfold Steps
  rw [(step_of_lookup? h).2]
  obtain ⟨c, -, h⟩ | ⟨-, fault, next, -, h, hmakes⟩ | ⟨-, statement, next, -, h, hmakes⟩ :=
    s.cache.getOrCompile_cases d s.host
  · exact ⟨[], by rw [h]; exact s.host.makes_notes [_], episode_nil⟩
  · exact ⟨[], by rw [h]; exact hmakes, episode_nil⟩
  · exact ⟨_, by rw [h]; exact hmakes, episode_create _ _ _⟩

theorem steps_prepare (s : Session) (slot : String) (d : Descriptor) :
    s.Steps (.prepare slot d) := by
  cases hcheck : d.check with
  | error fault =>
    obtain ⟨next, hprepare, hmakes⟩ := Prepared.prepare_of_error hcheck s.host
    exact ⟨[], by rw [step, hprepare]; exact hmakes, episode_nil⟩
  | ok statement =>
    obtain ⟨next, hprepare, hmakes⟩ := Prepared.prepare_of_ok hcheck s.host
    exact ⟨_, by rw [step, hprepare]; exact hmakes, episode_create _ _ _⟩

theorem steps_bindTo (s : Session) (slot : String) (offers : List (Option Offer))
    (next : FollowUp) : s.Steps (.bindTo slot offers next) := by
  unfold Steps
  rw [step, withSlot]
  split
  · next p hslot =>
    split
    · next values _ =>
      cases hb : p.compiled.statement.bind ⟨values⟩ with
      | error fault =>
        rw [bindWith_of_error s hb]
        exact ⟨[], Host.makes_nothing rfl rfl, episode_nil⟩
      | ok b =>
        exact ⟨_, bindWith_makes s hb next,
          episode_binding (.slotted slot p hslot rfl) b (next.runsOn_calls _)⟩
    · exact ⟨[], Host.makes_nothing rfl rfl, episode_nil⟩
  · exact ⟨[], Host.makes_nothing rfl rfl, episode_nil⟩

theorem steps_of_binds (hslot : s.slot? slot = some p)
    (hkind : p.compiled.template.kind = p.compiled.kind)
    (hbinds : command.binds slot p.compiled.kind = true) : s.Steps command := by
  cases hb : p.compiled.statement.bind p.parameters with
  | error fault => exact steps_of_same_host (host_step_of_unbound hslot hbinds hb)
  | ok b =>
    exact ⟨_, step_makes_of_binds hslot hkind hbinds hb,
      episode_binding (.slotted slot p hslot rfl) b (command.runsOn_callsOn _)⟩

/-- Every command makes the calls of one episode, if the templates of all slots are of the kind
of their statements. -/
theorem steps (command : Command)
    (hkinds : ∀ slot p, s.slot? slot = some p → p.compiled.template.kind = p.compiled.kind) :
    s.Steps command := by
  let Same (r : Reply × Session) : Prop := r.2.host = s.host
  cases command with
  | cachePrepare slot d | cacheCompile d => exact steps_of_lookup? rfl
  | cacheInfo | cacheClear => exact steps_of_same_host rfl
  | cacheGet d =>
    apply steps_of_same_host
    rw [step]
    split <;> rfl
  | configure setting => exact ⟨[], Host.makes_nothing rfl rfl, episode_nil⟩
  | prepare slot d => exact steps_prepare s slot d
  | share slot source | clone slot source | describe slot | parameters slot | clear slot =>
    exact steps_of_same_host (withSlot_cases (P := Same) rfl fun p _ => rfl)
  | set slot index offer | get slot index =>
    apply steps_of_same_host
    refine withSlot_cases (P := Same) rfl fun p _ => ?_
    split <;> rfl
  | bindTo slot offers next => exact steps_bindTo s slot offers next
  | bind slot next =>
    cases hslot : s.slot? slot with
    | none => exact steps_of_same_host (by rw [step, withSlot, hslot])
    | some p => exact steps_of_binds hslot (hkinds slot p hslot) (by simp [Command.binds])
  | execute slot | executeQuery slot =>
    cases hslot : s.slot? slot with
    | none => exact steps_of_same_host (by rw [step, withSlot, hslot])
    | some p =>
      rcases Bool.eq_false_or_eq_true (Command.binds slot p.compiled.kind _) with hbinds | hbinds
      · exact steps_of_binds hslot (hkinds slot p hslot) hbinds
      · exact steps_of_same_host (host_step_of_not_binds hslot hbinds (by simp))

end Steps

section Kept

variable {s : Session} {command : Command} {slot name : String} {p q : Prepared} {c : Compiled}

theorem eq_or_of_slot?_put (h : (s.put slot q).slot? name = some p) :
    p = q ∨ s.slot? name = some p := by
  rw [slot?_put] at h
  split at h
  · exact .inl (Option.some.inj h).symm
  · exact .inr h

theorem knows_of_get? {d : Descriptor} (h : s.cache.get? d = some c) : s.Knows c :=
  .cached _ (Cache.getElem?_of_get? h)

/-- What a lookup yields was known before or is new and backed. -/
theorem knows_of_getOrCompile {d : Descriptor} (h : (s.cache.getOrCompile d s.host).1 = .ok c) :
    s.Knows c ∨ c.Backed (s.cache.getOrCompile d s.host).2.2.calls := by
  obtain ⟨c', hget, hlook⟩ | ⟨-, fault, next, -, hlook, -⟩ |
    ⟨-, statement, next, hcheck, hlook, hmakes⟩ := s.cache.getOrCompile_cases d s.host
  · rw [hlook] at h
    cases h
    exact .inl (knows_of_get? hget)
  · rw [hlook] at h
    cases h
  · rw [hlook] at h ⊢
    cases h
    refine .inr ⟨hcheck, rfl, ?_⟩
    rw [hmakes.calls_eq]
    simp

theorem knows_of_slot?_step (h : (s.step command).2.slot? name = some p) :
    s.Knows p.compiled ∨ p.compiled.Backed (s.step command).2.host.calls := by
  have hold (q : Prepared) (hq : s.slot? name = some q) : s.Knows q.compiled :=
    .slotted name q hq rfl
  cases command with
  | prepare slot d =>
    cases hcheck : d.check with
    | error fault =>
      obtain ⟨next, hprepare, -⟩ := Prepared.prepare_of_error hcheck s.host
      rw [step, hprepare] at h
      exact .inl (hold p h)
    | ok statement =>
      obtain ⟨next, hprepare, hmakes⟩ := Prepared.prepare_of_ok hcheck s.host
      rw [step, hprepare] at h ⊢
      rcases eq_or_of_slot?_put h with rfl | h
      · refine .inr ⟨hcheck, rfl, ?_⟩
        rw [host_keep, withHost, hmakes.calls_eq]
        simp [Prepared.ofCompiled]
      · exact .inl (hold p h)
  | cachePrepare slot d =>
    rw [step, Cache.prepare] at h ⊢
    generalize hget : s.cache.getOrCompile d s.host = outcome at h
    obtain ⟨_ | c, cache, host⟩ := outcome
    · exact .inl (hold p h)
    · rcases eq_or_of_slot?_put h with rfl | h
      · have hnew := knows_of_getOrCompile (s := s) (d := d) (c := c) (by rw [hget])
        rwa [hget] at hnew
      · exact .inl (hold p h)
  | share slot source | clone slot source =>
    rw [step, withSlot] at h
    split at h
    · next original horiginal =>
      rcases eq_or_of_slot?_put h with rfl | h
      · exact .inl (.slotted source _ horiginal rfl)
      · exact .inl (hold p h)
    · exact .inl (hold p h)
  | set slot index offer =>
    rw [step, withSlot] at h
    split at h
    · next old hslot =>
      split at h
      · next changed hset =>
        rcases eq_or_of_slot?_put h with rfl | h
        · obtain ⟨value, -, rfl⟩ := Prepared.set_eq_ok hset
          exact .inl (.slotted slot old hslot rfl)
        · exact .inl (hold p h)
      · exact .inl (hold p h)
    · exact .inl (hold p h)
  | clear slot =>
    rw [step, withSlot] at h
    split at h
    · next old hslot =>
      rcases eq_or_of_slot?_put h with rfl | h
      · exact .inl (.slotted slot old hslot rfl)
      · exact .inl (hold p h)
    · exact .inl (hold p h)
  | cacheCompile d =>
    rw [step] at h
    split at h <;> exact .inl (hold p h)
  | cacheClear => exact .inl (hold p h)
  | _ =>
    rw [slot?, (step_of_keepsAll rfl).2] at h
    exact .inl (hold p h)

theorem knows_of_step (h : (s.step command).2.Knows c) :
    s.Knows c ∨ c.Backed (s.step command).2.host.calls := by
  cases h with
  | slotted slot p found compiled =>
    rw [← compiled]
    exact knows_of_slot?_step found
  | cached key found =>
    rcases cached_of_step found with found | ⟨d, hlookup, -, hget⟩
    · exact .inl (.cached key found)
    · rw [(step_of_lookup? hlookup).2]
      exact knows_of_getOrCompile hget

end Kept

/-- What holds of a session at all times: statements are numbered as they are issued, compiled
statements are backed, and only duplicates are told anything or run. -/
structure Sound (s : Session) : Prop where
  numbered : (issuedBy s.host.calls).map Handle.id = List.range s.host.nextId
  backed : ∀ c, s.Knows c → c.Backed s.host.calls
  sources : ∀ source copy, .duplicate source copy ∈ s.host.calls →
    source ∈ issuedBy s.host.calls
  targets : ∀ call ∈ s.host.calls, ∀ handle, call.target? = some handle →
    ∃ source, .duplicate source handle ∈ s.host.calls

theorem sound_fresh (capacity : Nat) (behaviour : Behaviour) :
    (fresh capacity behaviour).Sound := by
  refine ⟨rfl, ?_, by simp [fresh, Host.calls], by simp [fresh, Host.calls]⟩
  rintro c (⟨key, found⟩ | ⟨slot, p, found, -⟩)
  · simp [fresh] at found
  · simp [fresh, slot?] at found

namespace Sound

variable {s : Session}

theorem kinds (h : s.Sound) (slot : String) (p : Prepared) (hp : s.slot? slot = some p) :
    p.compiled.template.kind = p.compiled.kind :=
  (h.backed _ (.slotted slot p hp rfl)).kind

theorem nodup_issued (h : s.Sound) : (issuedBy s.host.calls).Nodup :=
  List.Nodup.of_map Handle.id (h.numbered ▸ List.nodup_range)

/-- No two calls yield one statement. -/
theorem eq_of_issued? (h : s.Sound) {call other : Call} (hcall : call ∈ s.host.calls)
    (hother : other ∈ s.host.calls) {handle : Handle} (hissued : call.issued? = some handle)
    (hsame : other.issued? = some handle) : call = other := by
  have hmem : other ∈ s.host.calls.filter fun call => call.issued? = some handle :=
    List.mem_filter.mpr ⟨hother, by simpa using hsame⟩
  rw [filter_issued? h.nodup_issued hcall hissued] at hmem
  exact (List.mem_singleton.mp hmem).symm

/-- Calls are never taken back. -/
theorem subset_step (h : s.Sound) (command : Command) :
    s.host.calls ⊆ (s.step command).2.host.calls := by
  obtain ⟨calls, hmakes, -⟩ := steps command h.kinds
  rw [hmakes.calls_eq]
  exact List.subset_append_left _ _

theorem step (h : s.Sound) (command : Command) : (s.step command).2.Sound := by
  obtain ⟨calls, hmakes, hepisode⟩ := steps command h.kinds
  have hcalls := hmakes.calls_eq
  have hissued : issuedBy (s.step command).2.host.calls =
      issuedBy s.host.calls ++ issuedBy calls := by
    rw [hcalls, issuedBy, List.filterMap_append]
    rfl
  constructor
  -- the numbers of the episode start where those given out before end
  · rw [hissued, List.map_append, h.numbered, hmakes.numbered, hmakes.nextId, List.range_eq_range',
      List.range_eq_range', ← List.range'_append_1, Nat.zero_add]
  · intro c hc
    rcases knows_of_step hc with hknown | hbacked
    · exact (h.backed c hknown).mono (h.subset_step command)
    · exact hbacked
  · intro source copy hmem
    rw [hissued, List.mem_append]
    rw [hcalls, List.mem_append] at hmem
    rcases hmem with hmem | hmem
    · exact .inl (h.sources source copy hmem)
    · rcases hepisode.sources source copy hmem with hnew | ⟨c, hknown, rfl⟩
      · exact .inr hnew
      · exact .inl ((h.backed c hknown).mem_issued)
  · intro call hmem handle htarget
    rw [hcalls] at hmem ⊢
    rcases List.mem_append.mp hmem with hmem | hmem
    · obtain ⟨source, hsource⟩ := h.targets call hmem handle htarget
      exact ⟨source, List.mem_append_left _ hsource⟩
    · obtain ⟨source, hsource⟩ := hepisode.targets call hmem handle htarget
      exact ⟨source, List.mem_append_right _ hsource⟩

theorem run (h : s.Sound) (commands : List Command) : (s.run commands).2.Sound :=
  run_keeps (fun _ command _ hs => hs.step command) h

end Sound

end Session
end CategoryStatements
