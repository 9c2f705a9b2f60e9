import CategoryStatements.Proofs.Soundness

/-! Executions are kept apart. The parameters of a prepared statement are those that the exchanges
about its own slot have left there, read from the newest back. A binding tells a duplicate that
nobody has heard of before, and no other command, earlier or later, says anything to it. -/
namespace CategoryStatements

/-- The statements of the store that a call is about. -/
def Call.handles : Call → List Handle
  | create handle _ _ => [handle]
  | duplicate source copy => [source, copy]
  | direct target _ | execute target | executeQuery target => [target]

/-- The calls that tell a statement something or run it. -/
def callsOf (handle : Handle) (calls : List Call) : List Call :=
  calls.filter fun call => call.target? = some handle

theorem callsOf_append (handle : Handle) (calls more : List Call) :
    callsOf handle (calls ++ more) = callsOf handle calls ++ callsOf handle more :=
  List.filter_append calls more

theorem callsOf_eq_nil {handle : Handle} {calls : List Call}
    (h : ∀ call ∈ calls, handle ∉ call.handles) : callsOf handle calls = [] := by
  refine List.filter_eq_nil_iff.mpr fun call hcall htarget => h call hcall ?_
  cases call <;> simp_all [Call.target?, Call.handles]

theorem Compiled.callsOf_bindCalls (c : Compiled) (b : Bound) (copy : Handle) :
    callsOf copy (c.bindCalls b copy) = (b.directives copy.kind).map (.direct copy) := by
  rw [bindCalls, callsOf, List.filter_cons_of_neg (by simp [Call.target?]), List.filter_eq_self]
  intro call hcall
  obtain ⟨directive, -, rfl⟩ := List.mem_map.mp hcall
  simp [Call.target?]

/-- What becomes of the values in a slot. -/
inductive News
  | emptied
  | copied (source : String)
  | given (index : Nat) (value : Value)

/-- The slot that an exchange says something about, and what. Commands that failed say nothing. -/
def Exchange.news? (e : Exchange) : Option (String × News) :=
  match e.command, e.reply with
  | .prepare slot _, .prepared _ | .cachePrepare slot _, .prepared _ | .share slot _, .prepared _
  | .clear slot, .done => some (slot, .emptied)
  | .clone slot source, .prepared _ => some (slot, .copied source)
  | .set slot index offer, .done => offer.value.toOption.map fun value => (slot, .given index value)
  | _, _ => none

/-- The value that was set last, from exchanges newest first. What a clone has not been given since
is found where it was copied from, as of then. -/
def lastSet : List Exchange → String → Nat → Option Value
  | [], _, _ => none
  | e :: older, slot, index =>
    match e.news? with
    | none => lastSet older slot index
    | some (target, news) =>
      if target = slot then
        match news with
        | .emptied => none
        | .copied source => lastSet older source index
        | .given i value => if i = index then some value else lastSet older slot index
      else lastSet older slot index

namespace Prepared

variable {p : Prepared} {values : Nat → Option Value}

/-- A statement has one parameter for each of its placeholders, with these values. -/
def Holds (p : Prepared) (values : Nat → Option Value) : Prop :=
  p.parameters.values = (List.range p.compiled.statement.placeholders).map values

/-- Why a value on offer is not taken. That it cannot be built comes before a bad index. -/
def setFault? (p : Prepared) (index : Nat) (offer : Offer) : Option BindingFault :=
  match offer.value with
  | .error fault => some fault
  | .ok _ =>
    if index < p.compiled.statement.placeholders then none
    else some (.indexOutOfRange index p.compiled.statement.placeholders)

theorem Holds.size (h : p.Holds values) :
    p.parameters.size = p.compiled.statement.placeholders := by
  rw [Parameters.size, h, List.length_map, List.length_range]

theorem holds_of_unbound (h : p.parameters = .unbound p.compiled.statement.placeholders) :
    p.Holds fun _ => none := by
  rw [Holds, h, Parameters.unbound, List.map_const', List.length_range]

theorem Holds.set (h : p.Holds values) (index : Nat) (value : Value) :
    Holds { p with parameters := ⟨p.parameters.values.set index (some value)⟩ } fun i =>
      if index = i then some value else values i := by
  rw [Holds, h]
  apply List.ext_getElem?
  intro i
  simp only [List.getElem?_set, List.getElem?_map, List.length_map, List.length_range]
  by_cases hi : i < p.compiled.statement.placeholders
  · rw [List.getElem?_range hi]
    split <;> simp_all
  · rw [List.getElem?_eq_none (by simpa using hi)]
    split <;> simp_all

/-- A setter fails for the reason given, or not at all. -/
theorem Holds.set_cases (h : p.Holds values) (index : Nat) (offer : Offer) :
    (∃ fault, p.setFault? index offer = some fault ∧ p.set index offer = .error fault) ∨
      p.setFault? index offer = none ∧ ∃ q, p.set index offer = .ok q := by
  rw [set_eq, setFault?, h.size]
  cases offer.value with
  | error fault => exact .inl ⟨fault, rfl, rfl⟩
  | ok value =>
    by_cases hindex : index < p.compiled.statement.placeholders
    · exact .inr ⟨if_pos hindex, _, if_pos hindex⟩
    · exact .inl ⟨_, if_neg hindex, if_neg hindex⟩

end Prepared

namespace Session

variable {s t : Session} {slot : String} {p q : Prepared}

/-- Every slot has the values remembered for it. -/
def Recalls (s : Session) (memory : String → Nat → Option Value) : Prop :=
  ∀ slot p, s.slot? slot = some p → p.Holds (memory slot)

/-- The slots change as the news say. -/
inductive Follows (s t : Session) : Option (String × News) → Prop
  | quiet (slots : t.slots = s.slots) : Follows s t none
  | emptied (slot : String) (q : Prepared) (slots : t.slots = (s.put slot q).slots)
      (empty : q.Holds fun _ => none) : Follows s t (some (slot, .emptied))
  | copied (slot source : String) (q : Prepared) (slots : t.slots = (s.put slot q).slots)
      (found : s.slot? source = some q) : Follows s t (some (slot, .copied source))
  | given (slot : String) (p q : Prepared) (index : Nat) (value : Value)
      (slots : t.slots = (s.put slot q).slots) (found : s.slot? slot = some p)
      (changed : q = { p with parameters := ⟨p.parameters.values.set index (some value)⟩ }) :
      Follows s t (some (slot, .given index value))

theorem Recalls.put {memory after : String → Nat → Option Value} (h : s.Recalls memory)
    (hslots : t.slots = (s.put slot q).slots) (hq : q.Holds (after slot))
    (hothers : ∀ name, name ≠ slot → after name = memory name) : t.Recalls after := by
  intro name p hp
  rw [slot?, hslots, ← slot?, slot?_put] at hp
  split at hp
  · next hname =>
    cases hp
    rwa [hname]
  · next hname =>
    rw [hothers name hname]
    exact h name p hp

/-- What is remembered is brought up to date by the news of one exchange. -/
theorem Recalls.follow {past : List Exchange} (h : s.Recalls (lastSet past)) {e : Exchange}
    (hnews : s.Follows t e.news?) : t.Recalls (lastSet (e :: past)) := by
  generalize hn : e.news? = news at hnews
  -- news about one slot leave what is remembered of all others
  have hothers (target : String) (n : News) (hsome : news = some (target, n)) (name : String)
      (hname : name ≠ target) : lastSet (e :: past) name = lastSet past name := by
    funext index
    simp only [lastSet, hn, hsome, if_neg (Ne.symm hname)]
  cases hnews with
  | quiet slots =>
    intro name p hp
    rw [slot?, slots] at hp
    have hsame : lastSet (e :: past) name = lastSet past name := by
      funext index
      simp only [lastSet, hn]
    rw [hsame]
    exact h name p hp
  | emptied slot q slots empty =>
    refine h.put slots ?_ (hothers slot _ rfl)
    simpa only [lastSet, hn, if_true] using empty
  | copied slot source q slots found =>
    refine h.put slots ?_ (hothers slot _ rfl)
    simpa only [lastSet, hn, if_true] using h source q found
  | given slot p q index value slots found changed =>
    refine h.put slots ?_ (hothers slot _ rfl)
    rw [changed]
    simpa only [lastSet, hn, if_true] using (h slot p found).set index value

/-- Every command changes the slots as the news of its exchange say. -/
theorem follows_step {memory : String → Nat → Option Value} (h : s.Recalls memory)
    (command : Command) : s.Follows (s.step command).2 (s.exchange command).news? := by
  let Ok (command : Command) (r : Reply × Session) : Prop :=
    ∀ calls, s.Follows r.2 (Exchange.news? ⟨command, r.1, calls⟩)
  suffices Ok command (s.step command) from this _
  cases command with
  | prepare slot d =>
    intro calls
    rw [step, Prepared.prepare]
    obtain ⟨_ | c, host⟩ := d.compile s.host
    · exact .quiet rfl
    · exact .emptied slot _ rfl (Prepared.holds_of_unbound rfl)
  | cachePrepare slot d =>
    intro calls
    rw [step, Cache.prepare]
    obtain ⟨_ | c, cache, host⟩ := s.cache.getOrCompile d s.host
    · exact .quiet rfl
    · exact .emptied slot _ rfl (Prepared.holds_of_unbound rfl)
  | share slot source =>
    refine withSlot_cases (P := Ok _) (fun _ => .quiet rfl) fun p _ _ => ?_
    exact .emptied slot _ rfl (Prepared.holds_of_unbound rfl)
  | clone slot source =>
    refine withSlot_cases (P := Ok _) (fun _ => .quiet rfl) fun p hp _ => ?_
    exact .copied slot source p rfl hp
  | set slot index offer =>
    refine withSlot_cases (P := Ok _) (fun _ => .quiet rfl) fun p hp calls => ?_
    split
    · next q hset =>
      obtain ⟨value, hvalue, hq⟩ := Prepared.set_eq_ok hset
      have hnews : Exchange.news? ⟨.set slot index offer, .done, calls⟩ =
          some (slot, .given index value) := by
        simp [Exchange.news?, hvalue, Except.toOption]
      rw [hnews]
      exact .given slot p q index value rfl hp hq
    · exact .quiet rfl
  | clear slot =>
    refine withSlot_cases (P := Ok _) (fun _ => .quiet rfl) fun p hp _ => ?_
    refine .emptied slot _ rfl (Prepared.holds_of_unbound ?_)
    rw [Prepared.clear, Parameters.clear, (h slot p hp).size]
  | cacheCompile d =>
    intro calls
    rw [step]
    split <;> exact .quiet rfl
  | cacheClear => exact fun _ => .quiet rfl
  | _ => exact fun _ => .quiet (step_of_keepsAll rfl).2

theorem Recalls.run {past : List Exchange} (h : s.Recalls (lastSet past))
    (commands : List Command) :
    (s.run commands).2.Recalls (lastSet ((s.exchanges commands).reverse ++ past)) := by
  induction commands generalizing s past with
  | nil => exact h
  | cons command commands ih =>
    rw [exchanges_cons, List.reverse_cons, List.append_assoc]
    exact ih (h.follow (follows_step h command))

namespace Sound

variable {command : Command} {handle : Handle}

theorem id_lt (h : s.Sound) (hmem : handle ∈ issuedBy s.host.calls) :
    handle.id < s.host.nextId := by
  have hid : handle.id ∈ (issuedBy s.host.calls).map Handle.id := List.mem_map_of_mem hmem
  rwa [h.numbered, List.mem_range] at hid

/-- Calls are about statements that the store has issued. -/
theorem issued_of_mem_handles (h : s.Sound) {call : Call} (hcall : call ∈ s.host.calls)
    (hmem : handle ∈ call.handles) : handle ∈ issuedBy s.host.calls := by
  have hcopy {source : Handle} (hsource : .duplicate source handle ∈ s.host.calls) :
      handle ∈ issuedBy s.host.calls :=
    List.mem_filterMap.mpr ⟨_, hsource, rfl⟩
  cases call with
  | create template category key =>
    obtain rfl : handle = template := List.mem_singleton.mp hmem
    exact List.mem_filterMap.mpr ⟨_, hcall, rfl⟩
  | duplicate source copy =>
    obtain rfl | rfl : handle = source ∨ handle = copy := by simpa [Call.handles] using hmem
    · exact h.sources _ _ hcall
    · exact hcopy hcall
  | direct target _ | execute target | executeQuery target =>
    obtain rfl : handle = target := List.mem_singleton.mp hmem
    obtain ⟨source, hsource⟩ := h.targets _ hcall handle rfl
    exact hcopy hsource

/-- The store hears nothing about the templates but that they are duplicated. -/
theorem callsOf_template (h : s.Sound) {category : Category} {key : Option Key}
    (hcreate : .create handle category key ∈ s.host.calls) : callsOf handle s.host.calls = [] := by
  refine List.filter_eq_nil_iff.mpr fun call hcall htarget => ?_
  obtain ⟨source, hsource⟩ := h.targets call hcall handle (by simpa using htarget)
  have hsame := h.eq_of_issued? hcreate hsource rfl rfl
  cases hsame

/-- A command says nothing to a statement that was issued before. -/
theorem callsOf_step (h : s.Sound) (command : Command) (hid : handle.id < s.host.nextId) :
    callsOf handle (s.step command).2.host.calls = callsOf handle s.host.calls := by
  obtain ⟨calls, hmakes, hepisode⟩ := steps command h.kinds
  have hnone : callsOf handle calls = [] := by
    refine List.filter_eq_nil_iff.mpr fun call hcall htarget => ?_
    obtain ⟨source, hsource⟩ := hepisode.targets call hcall handle (by simpa using htarget)
    have hnew : handle ∈ issuedBy calls := List.mem_filterMap.mpr ⟨_, hsource, rfl⟩
    have hlarge := (hmakes.id_of_mem_issued hnew).1
    omega
  rw [hmakes.calls_eq, callsOf_append, hnone, List.append_nil]

theorem callsOf_run (h : s.Sound) (commands : List Command) (hid : handle.id < s.host.nextId) :
    callsOf handle (s.run commands).2.host.calls = callsOf handle s.host.calls := by
  induction commands generalizing s with
  | nil => rfl
  | cons command commands ih =>
    obtain ⟨calls, hmakes, -⟩ := steps command h.kinds
    have hlater := ih (h.step command) (Nat.lt_of_lt_of_le hid hmakes.nextId_le)
    exact hlater.trans (h.callsOf_step command hid)

end Sound

/-- The statement in a slot has the values that its past tells, and a setter that fails leaves
everything as it is. -/
structure Answers (s : Session) (slot : String) (p : Prepared) (past : List Exchange) : Prop where
  values : p.Holds (lastSet past slot)
  refused : ∀ index offer fault, p.setFault? index offer = some fault →
    s.step (.set slot index offer) = (.bindingFault fault, s)
  taken : ∀ index offer, p.setFault? index offer = none →
    (s.step (.set slot index offer)).1 = .done

/-- A command binds a statement on a duplicate that nobody has heard of before. All that the
duplicate is ever told is what the clauses ask for, and it is run by this command only. -/
structure BindsAlone (s : Session) (command : Command) (p : Prepared) (b : Bound) (copy : Handle)
    (last : Session) : Prop where
  unheard : ∀ call ∈ s.host.calls, copy ∉ call.handles
  calls : (s.step command).2.host.calls =
    s.host.calls ++ (p.compiled.bindCalls b copy ++ command.callsOn copy)
  alone : callsOf copy last.host.calls =
    (b.directives copy.kind).map (.direct copy) ++ callsOf copy (command.callsOn copy)

theorem Recalls.answers {past : List Exchange} (h : s.Recalls (lastSet past))
    (hslot : s.slot? slot = some p) : s.Answers slot p past := by
  refine ⟨h slot p hslot, fun index offer fault hfault => ?_, fun index offer hfault => ?_⟩
  · obtain ⟨fault', hsome, hset⟩ | ⟨hnone, -⟩ := (h slot p hslot).set_cases index offer
    · obtain rfl : fault' = fault := Option.some.inj (hsome.symm.trans hfault)
      rw [step, withSlot, hslot]
      dsimp only
      rw [hset]
    · simp [hnone] at hfault
  · obtain ⟨fault, hsome, -⟩ | ⟨-, q, hset⟩ := (h slot p hslot).set_cases index offer
    · simp [hsome] at hfault
    · rw [step, withSlot, hslot]
      dsimp only
      rw [hset]

theorem Sound.bindsAlone (h : s.Sound) {command : Command} {b : Bound}
    (hslot : s.slot? slot = some p) (hbinds : command.binds slot p.compiled.kind = true)
    (hb : p.compiled.statement.bind p.parameters = .ok b) (later : List Command) :
    s.BindsAlone command p b ⟨s.host.nextId, p.compiled.kind⟩
      ((s.step command).2.run later).2 := by
  have hmakes := step_makes_of_binds hslot (h.kinds slot p hslot) hbinds hb
  generalize hcopy : (⟨s.host.nextId, p.compiled.kind⟩ : Handle) = copy at hmakes ⊢
  have hunheard : ∀ call ∈ s.host.calls, copy ∉ call.handles := by
    intro call hcall hmem
    have hid := h.id_lt (h.issued_of_mem_handles hcall hmem)
    rw [← hcopy] at hid
    exact absurd hid (Nat.lt_irrefl _)
  refine ⟨hunheard, hmakes.calls_eq, ?_⟩
  have hissued : copy ∈ issuedBy (p.compiled.bindCalls b copy ++ command.callsOn copy) :=
    List.mem_filterMap.mpr ⟨.duplicate p.compiled.template copy, by simp [Compiled.bindCalls], rfl⟩
  -- later commands speak to their own duplicates, which have larger numbers than this one
  rw [(h.step command).callsOf_run later (hmakes.id_of_mem_issued hissued).2, hmakes.calls_eq,
    callsOf_append, callsOf_append, callsOf_eq_nil hunheard, Compiled.callsOf_bindCalls,
    List.nil_append]

/-- Executions are isolated. Whatever the commands, templates are told nothing and never run. A
prepared statement holds the values last set in its own slot, and one that is bound without a fault
is bound on a new duplicate, to which nothing is said but what its clauses ask for with these
values, by this command and by no other. -/
theorem executions_isolated (capacity : Nat) (behaviour : Behaviour) (earlier : List Command)
    (command : Command) (later : List Command) :
    let start := fresh capacity behaviour
    let now := (start.run earlier).2
    let last := (start.run (earlier ++ command :: later)).2
    (∀ template category key, .create template category key ∈ last.host.calls →
      callsOf template last.host.calls = []) ∧
    ∀ slot p, now.slot? slot = some p →
      now.Answers slot p (start.exchanges earlier).reverse ∧
      (command.binds slot p.compiled.kind = true →
        (∀ fault, p.compiled.statement.bind p.parameters = .error fault →
          (now.step command).2.host.calls = now.host.calls) ∧
        ∀ b, p.compiled.statement.bind p.parameters = .ok b →
          now.BindsAlone command p b ⟨now.host.nextId, p.compiled.kind⟩ last) := by
  intro start now last
  have hnow : now.Sound := (sound_fresh capacity behaviour).run earlier
  have hlast : last.Sound := (sound_fresh capacity behaviour).run _
  have hrun : last = ((now.step command).2.run later).2 := run_append start earlier _
  have hfresh : start.Recalls (lastSet []) := by
    intro slot p hp
    simp [start, fresh, slot?] at hp
  have hrecalls : now.Recalls (lastSet (start.exchanges earlier).reverse) := by
    simpa using hfresh.run earlier
  refine ⟨fun template category key hcreate => hlast.callsOf_template hcreate, ?_⟩
  intro slot p hslot
  refine ⟨hrecalls.answers hslot, fun hbinds => ⟨fun fault hb => ?_, fun b hb => ?_⟩⟩
  · rw [host_step_of_unbound hslot hbinds hb]
  · rw [hrun]
    exact hnow.bindsAlone hslot hbinds hb later

/-- The original and its clone are given different limits and run one after the other. -/
theorem executions_isolated_of_clone :
    let d : Descriptor := ⟨⟨"c", []⟩, "QUERY c LIMIT ?i"⟩
    let earlier : List Command := [.prepare "p" d, .set "p" 0 (.ready (.int 3)), .clone "q" "p",
      .set "q" 0 (.ready (.int 5))]
    let last := ((fresh 1 {}).run (earlier ++ .executeQuery "p" :: [.executeQuery "q"])).2
    callsOf ⟨1, .query⟩ last.host.calls =
      [.direct ⟨1, .query⟩ (.limit 3), .executeQuery ⟨1, .query⟩] := by
  intro d earlier last
  let s : Statement :=
    { kind := .query, category := "c"
      limit := some ⟨.placeholder ⟨0, .int, false⟩, false⟩
      placeholders := 1 }
  have hcheck : d.check = .ok s := by decide +kernel
  let p : Prepared := ⟨⟨d, s, ⟨0, .query⟩⟩, ⟨[some (.int 3)]⟩⟩
  obtain ⟨next, hprepare, hmakes⟩ := Prepared.prepare_of_ok hcheck (fresh 1 {}).host
  have hfirst : ((fresh 1 {}).step (.prepare "p" d)).2 =
      ((fresh 1 {}).withHost next).put "p" (.ofCompiled ⟨d, s, ⟨0, .query⟩⟩) := by
    rw [step, hprepare]
    rfl
  have hrest : ((fresh 1 {}).run earlier).2 =
      (((fresh 1 {}).step (.prepare "p" d)).2.run earlier.tail).2 := rfl
  have hslot : ((fresh 1 {}).run earlier).2.slot? "p" = some p := by
    rw [hrest, hfirst]
    rfl
  have hid : ((fresh 1 {}).run earlier).2.host.nextId = 1 := by
    rw [hrest, hfirst]
    exact hmakes.nextId
  have h := (executions_isolated 1 {} earlier (.executeQuery "p") [.executeQuery "q"]).2 "p" p hslot
  have halone := ((h.2 rfl).2 ⟨[], none, [], some 3⟩ rfl).alone
  rw [hid] at halone
  exact halone

end Session
end CategoryStatements
