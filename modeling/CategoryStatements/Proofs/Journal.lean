import CategoryStatements.Session
import CategoryStatements.Proofs.Binding

/-! What is asked of the store. A host keeps its journal and numbers the statements it issues
one after the other; `Host.Makes` says so together with the calls that lead from one host to the
next. Each function that works on a host has its calls stated here once. -/
namespace CategoryStatements

namespace Call

/-- The new statement that a call yields. -/
def issued? : Call → Option Handle
  | create handle _ _ => some handle
  | duplicate _ copy => some copy
  | _ => none

/-- The statement that a call tells something or runs. -/
def target? : Call → Option Handle
  | direct target _ | execute target | executeQuery target => some target
  | _ => none

end Call

/-- The new statements that calls yield, in order. -/
def issuedBy (calls : List Call) : List Handle := calls.filterMap Call.issued?

theorem issuedBy_directives (target : Handle) (directives : List Directive) :
    issuedBy (directives.map (.direct target)) = [] := by
  simp [issuedBy, Call.issued?]

/-- Where no statement is yielded twice, one call yields it. -/
theorem filter_issued? {calls : List Call} (hnodup : (issuedBy calls).Nodup) {call : Call}
    (hmem : call ∈ calls) {handle : Handle} (hissued : call.issued? = some handle) :
    (calls.filter fun other => other.issued? = some handle) = [call] := by
  induction calls with
  | nil => cases hmem
  | cons first rest ih =>
    have hrest {other : Call} (hother : other ∈ rest) (hsame : other.issued? = some handle) :
        handle ∈ issuedBy rest :=
      List.mem_filterMap.mpr ⟨other, hother, hsame⟩
    rcases List.mem_cons.mp hmem with rfl | hmem
    · rw [issuedBy, List.filterMap_cons_some hissued, List.nodup_cons] at hnodup
      rw [List.filter_cons_of_pos (by simpa using hissued), List.filter_eq_nil_iff.mpr]
      intro other hother hsame
      exact hnodup.1 (hrest hother (by simpa using hsame))
    · have hfirst : first.issued? ≠ some handle := by
        intro hsame
        rw [issuedBy, List.filterMap_cons_some hsame, List.nodup_cons] at hnodup
        exact hnodup.1 (hrest hmem hissued)
      rw [List.filter_cons_of_neg (by simpa using hfirst)]
      refine ih (hnodup.sublist ?_) hmem
      exact (List.sublist_cons_self first rest).filterMap _

/-- The call that runs a statement. -/
def Handle.runCall (handle : Handle) : Call :=
  if handle.kind.isQuery then .executeQuery handle else .execute handle

/-- The next host is reached by these calls. -/
structure Host.Makes (host : Host) (calls : List Call) (next : Host) : Prop where
  journal : ∃ events, next.journal = host.journal ++ events ∧ events.filterMap Event.call? = calls
  numbered : (issuedBy calls).map Handle.id = List.range' host.nextId (issuedBy calls).length
  nextId : next.nextId = host.nextId + (issuedBy calls).length

namespace Host

variable {host next last : Host}

namespace Makes

variable {calls more : List Call}

theorem calls_eq (h : host.Makes calls next) : next.calls = host.calls ++ calls := by
  obtain ⟨events, hjournal, hcalls⟩ := h.journal
  rw [Host.calls, hjournal, List.filterMap_append, hcalls]
  rfl

/-- What is new in the journal tells the calls. -/
theorem calls_of_drop (h : host.Makes calls next) :
    (next.journal.drop host.journal.length).filterMap Event.call? = calls := by
  obtain ⟨events, hjournal, hcalls⟩ := h.journal
  rw [hjournal, List.drop_left, hcalls]

theorem nextId_le (h : host.Makes calls next) : host.nextId ≤ next.nextId := by
  rw [h.nextId]
  omega

theorem trans (h : host.Makes calls next) (h' : next.Makes more last) :
    host.Makes (calls ++ more) last := by
  obtain ⟨events, hjournal, hcalls⟩ := h.journal
  obtain ⟨events', hjournal', hcalls'⟩ := h'.journal
  have hissued : issuedBy (calls ++ more) = issuedBy calls ++ issuedBy more := List.filterMap_append
  refine ⟨⟨events ++ events', ?_, ?_⟩, ?_, ?_⟩
  · rw [hjournal', hjournal, List.append_assoc]
  · rw [List.filterMap_append, hcalls, hcalls']
  · rw [hissued, List.map_append, h.numbered, h'.numbered, h.nextId, List.length_append,
      List.range'_append_1]
  · rw [h'.nextId, h.nextId, hissued, List.length_append, Nat.add_assoc]

/-- The new statements have numbers that were not given out before. -/
theorem id_of_mem_issued (h : host.Makes calls next) {handle : Handle}
    (hmem : handle ∈ issuedBy calls) : host.nextId ≤ handle.id ∧ handle.id < next.nextId := by
  have hid : handle.id ∈ (issuedBy calls).map Handle.id := List.mem_map_of_mem hmem
  rw [h.numbered, List.mem_range'_1] at hid
  rw [h.nextId]
  exact hid

end Makes

/-- A host that only differs in its settings. -/
theorem makes_nothing (hjournal : next.journal = host.journal) (hid : next.nextId = host.nextId) :
    host.Makes [] next :=
  ⟨⟨[], by simpa using hjournal, rfl⟩, rfl, hid⟩

theorem makes_notes (host : Host) (notes : List Note) :
    host.Makes [] (host.record (notes.map .note)) :=
  ⟨⟨_, rfl, by simp [Event.call?]⟩, rfl, rfl⟩

theorem Makes.notes {calls : List Call} (h : host.Makes calls next) (notes : List Note) :
    host.Makes calls (next.record (notes.map .note)) := by
  simpa using h.trans (makes_notes next notes)

theorem Makes.note {calls : List Call} (h : host.Makes calls next) (n : Note) :
    host.Makes calls (next.note n) :=
  h.notes [n]

@[simp]
theorem calls_note (host : Host) (n : Note) : (host.note n).calls = host.calls := by
  rw [note, calls, record, List.filterMap_append]
  exact List.append_nil _

theorem makes_create (host : Host) (kind : Kind) (category : Category) (key : Option Key) :
    host.Makes [.create ⟨host.nextId, kind⟩ category key] (host.create kind category key).2 :=
  ⟨⟨_, rfl, rfl⟩, rfl, rfl⟩

theorem makes_duplicate (host : Host) (source : Handle) :
    host.Makes [.duplicate source ⟨host.nextId, source.kind⟩] (host.duplicate source).2 :=
  ⟨⟨_, rfl, rfl⟩, rfl, rfl⟩

theorem makes_direct (host : Host) (target : Handle) (directives : List Directive) :
    host.Makes (directives.map (.direct target)) (host.direct target directives) := by
  refine ⟨⟨_, rfl, ?_⟩, ?_, ?_⟩
  · rw [List.filterMap_map, ← List.filterMap_eq_map]
    rfl
  · rw [issuedBy_directives]
    rfl
  · rw [issuedBy_directives]
    rfl

theorem makes_execute (host : Host) (target : Handle) :
    host.Makes [.execute target] (host.execute target).2 := by
  have h : host.Makes [.execute target] (host.record [.call (.execute target)]) :=
    ⟨⟨_, rfl, rfl⟩, rfl, rfl⟩
  unfold execute
  dsimp only
  split <;> exact h

theorem makes_executeQuery (host : Host) (target : Handle) :
    host.Makes [.executeQuery target] (host.executeQuery target).2 := by
  have h : host.Makes [.executeQuery target] (host.record [.call (.executeQuery target)]) :=
    ⟨⟨_, rfl, rfl⟩, rfl, rfl⟩
  unfold executeQuery
  dsimp only
  split <;> exact h

theorem makes_run (host : Host) (handle : Handle) :
    host.Makes [handle.runCall] (host.run handle).2 := by
  unfold run Handle.runCall
  split
  · have h := makes_executeQuery host handle
    split <;> simp_all
  · have h := makes_execute host handle
    split <;> simp_all

theorem makes_rerun (host : Host) (handle : Handle) :
    host.Makes [.duplicate handle ⟨host.nextId, handle.kind⟩,
      Handle.runCall ⟨host.nextId, handle.kind⟩] (host.rerun handle).2 :=
  (makes_duplicate host handle).trans (makes_run _ _)

/-- The calls are made only if they are wanted. -/
theorem makes_runIf (run : Host → Yield × Host) {calls : List Call}
    (h : host.Makes calls (run host).2) (wanted : Bool) :
    host.Makes (if wanted then calls else []) (host.runIf wanted run).2 := by
  cases wanted with
  | false => exact makes_nothing rfl rfl
  | true => exact h

end Host

namespace Descriptor

variable {d : Descriptor}

theorem compile_of_error {fault : DescriptorFault} (h : d.check = .error fault) (host : Host) :
    ∃ next, d.compile host = (.error fault, next) ∧ host.Makes [] next := by
  refine ⟨_, by rw [compile, h], Host.makes_notes _ _⟩

/-- A descriptor that passes its checks gets a template of its own. -/
theorem compile_of_ok {s : Statement} (h : d.check = .ok s) (host : Host) :
    ∃ next, d.compile host = (.ok ⟨d, s, ⟨host.nextId, s.kind⟩⟩, next) ∧
      host.Makes [.create ⟨host.nextId, s.kind⟩ d.category (s.templateKey? d.category)] next := by
  refine ⟨_, by rw [compile, h]; rfl, ?_⟩
  exact (host.makes_create s.kind d.category (s.templateKey? d.category)).note _

end Descriptor

namespace Compiled

variable {c : Compiled} {ps : Parameters}

/-- The calls that bind a statement: for a duplicate of the template, and for all that the
duplicate is told. -/
def bindCalls (c : Compiled) (b : Bound) (copy : Handle) : List Call :=
  .duplicate c.template copy :: (b.directives copy.kind).map (.direct copy)

theorem issuedBy_bindCalls (c : Compiled) (b : Bound) (copy : Handle) :
    issuedBy (c.bindCalls b copy) = [copy] :=
  congrArg (copy :: ·) (issuedBy_directives copy _)

theorem bind_makes {b : Bound} (h : c.statement.bind ps = .ok b) (host : Host) :
    ∃ next, c.bind ps host = (.ok ⟨host.nextId, c.template.kind⟩, next) ∧
      host.Makes (c.bindCalls b ⟨host.nextId, c.template.kind⟩) next := by
  refine ⟨_, by rw [bind, h]; rfl, ?_⟩
  exact ((host.makes_duplicate c.template).trans (Host.makes_direct _ _ _)).note _

end Compiled

namespace Prepared

variable {p : Prepared}

theorem prepare_of_error {d : Descriptor} {fault : DescriptorFault} (h : d.check = .error fault)
    (host : Host) :
    ∃ next, prepare d host = (.error (.descriptor fault), next) ∧ host.Makes [] next := by
  obtain ⟨next, hcompile, hmakes⟩ := Descriptor.compile_of_error h host
  exact ⟨next, by rw [prepare, hcompile], hmakes⟩

theorem prepare_of_ok {d : Descriptor} {s : Statement} (h : d.check = .ok s) (host : Host) :
    ∃ next, prepare d host = (.ok (ofCompiled ⟨d, s, ⟨host.nextId, s.kind⟩⟩), next) ∧
      host.Makes [.create ⟨host.nextId, s.kind⟩ d.category (s.templateKey? d.category)] next := by
  obtain ⟨next, hcompile, hmakes⟩ := Descriptor.compile_of_ok h host
  exact ⟨next, by rw [prepare, hcompile], hmakes⟩

/-- A write that binds is run on the duplicate that was bound. -/
theorem execute_makes {b : Bound} (hkind : p.compiled.template.kind = p.compiled.kind)
    (hwrite : p.compiled.kind.isQuery = false)
    (hb : p.compiled.statement.bind p.parameters = .ok b) (host : Host) :
    host.Makes (p.compiled.bindCalls b ⟨host.nextId, p.compiled.kind⟩ ++
      [.execute ⟨host.nextId, p.compiled.kind⟩]) (p.execute host).2 := by
  obtain ⟨next, hbind, hmakes⟩ := Compiled.bind_makes hb host
  rw [hkind] at hbind hmakes
  have h := (hmakes.note (.executingWrite p.compiled.render)).trans
    (Host.makes_execute _ ⟨host.nextId, p.compiled.kind⟩)
  rw [execute, hwrite, bind, hbind]
  simp only [hwrite, Bool.false_eq_true, if_false]
  split <;> simp_all

theorem executeQuery_makes {b : Bound} (hkind : p.compiled.template.kind = p.compiled.kind)
    (hquery : p.compiled.kind.isQuery = true)
    (hb : p.compiled.statement.bind p.parameters = .ok b) (host : Host) :
    host.Makes (p.compiled.bindCalls b ⟨host.nextId, p.compiled.kind⟩ ++
      [.executeQuery ⟨host.nextId, p.compiled.kind⟩]) (p.executeQuery host).2 := by
  obtain ⟨next, hbind, hmakes⟩ := Compiled.bind_makes hb host
  rw [hkind] at hbind hmakes
  have h := (hmakes.note (.executingQuery p.compiled.render)).trans
    (Host.makes_executeQuery _ ⟨host.nextId, p.compiled.kind⟩)
  rw [executeQuery, hquery, bind, hbind]
  simp only [hquery, if_true]
  split <;> simp_all

/-- Whatever stops a statement before it is bound leaves the host alone. -/
theorem execute_host_of_stopped (h : p.compiled.kind.isQuery = true ∨
    ∃ fault, p.compiled.statement.bind p.parameters = .error fault) (host : Host) :
    (p.execute host).2 = host := by
  rw [execute]
  split
  · rfl
  · next hwrite =>
    obtain ⟨fault, hb⟩ := h.resolve_left hwrite
    rw [bind, Compiled.bind_of_error hb]

theorem executeQuery_host_of_stopped (h : p.compiled.kind.isQuery = false ∨
    ∃ fault, p.compiled.statement.bind p.parameters = .error fault) (host : Host) :
    (p.executeQuery host).2 = host := by
  rw [executeQuery]
  split
  · next hquery =>
    obtain ⟨fault, hb⟩ := h.resolve_left (by simp [hquery])
    rw [bind, Compiled.bind_of_error hb]
  · rfl

end Prepared

namespace Cache

theorem getOrCompile_of_get? {cache : Cache} {d : Descriptor} {c : Compiled}
    (h : cache.get? d = some c) (host : Host) :
    cache.getOrCompile d host = (.ok c, cache, host.note (.cacheHit d.text)) := by
  rw [getOrCompile, h]

/-- After a miss there still is no entry to go on with, since compiling leaves the cache alone. -/
theorem fst_store {cache : Cache} {d : Descriptor} (h : cache.get? d = none) (c : Compiled) :
    (cache.store d c).1 = c := by
  rw [store]
  split
  · rfl
  · split
    · rfl
    · next existing hfound =>
      have hother : ¬existing.descriptor.agrees d := by
        simpa [get?, hfound] using h
      rw [if_neg hother]

/-- A lookup finds an entry, or the descriptor is refused, or it is compiled and stored. -/
theorem getOrCompile_cases (cache : Cache) (d : Descriptor) (host : Host) :
    (∃ c, cache.get? d = some c ∧
      cache.getOrCompile d host = (.ok c, cache, host.note (.cacheHit d.text))) ∨
    (cache.get? d = none ∧ ∃ fault next, d.check = .error fault ∧
      cache.getOrCompile d host = (.error fault, cache, next) ∧ host.Makes [] next) ∨
    (cache.get? d = none ∧ ∃ s next, d.check = .ok s ∧
      cache.getOrCompile d host = (.ok ⟨d, s, ⟨host.nextId, s.kind⟩⟩,
        (cache.store d ⟨d, s, ⟨host.nextId, s.kind⟩⟩).2.1, next) ∧
      host.Makes [.create ⟨host.nextId, s.kind⟩ d.category (s.templateKey? d.category)] next) := by
  have hmiss : host.Makes [] (host.note (.cacheMiss d.text)) := host.makes_notes [_]
  cases hget : cache.get? d with
  | some c => exact .inl ⟨c, rfl, getOrCompile_of_get? hget host⟩
  | none =>
    refine .inr ?_
    cases hcheck : d.check with
    | error fault =>
      obtain ⟨next, hcompile, hmakes⟩ :=
        Descriptor.compile_of_error hcheck (host.note (.cacheMiss d.text))
      exact .inl ⟨rfl, fault, next, rfl, by rw [getOrCompile, hget]; simp only [hcompile],
        hmiss.trans hmakes⟩
    | ok s =>
      obtain ⟨next, hcompile, hmakes⟩ :=
        Descriptor.compile_of_ok hcheck (host.note (.cacheMiss d.text))
      have hstored := fst_store hget ⟨d, s, ⟨host.nextId, s.kind⟩⟩
      have hnotes := (hmiss.trans hmakes).notes
        ((cache.store d ⟨d, s, ⟨host.nextId, s.kind⟩⟩).2.2.map fun key =>
          .cacheEviction key.1 key.2)
      rw [List.map_map] at hnotes
      refine .inr ⟨rfl, s, _, rfl, ?_, hnotes⟩
      rw [getOrCompile, hget]
      simp only [hcompile]
      exact congrArg (fun c => (Except.ok c, _)) hstored

end Cache
end CategoryStatements
