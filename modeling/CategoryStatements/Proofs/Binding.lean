import CategoryStatements.Compiled
import Mathlib.Data.List.Forall2

/-! Binding, read backwards: what a bound filter, a bound statement and the calls to the store
tell about what was bound. -/
namespace CategoryStatements

theorem except_bind_eq_ok {x : Except ε α} {f : α → Except ε β} {b : β} :
    (x >>= f) = .ok b ↔ ∃ a, x = .ok a ∧ f a = .ok b := by
  cases x with
  | error fault => simp [Bind.bind, Except.bind]
  | ok a => simp [Bind.bind, Except.bind]

/-- A list is gone through successfully when each of its items is. -/
theorem mapM_eq_ok {f : α → Except ε β} {xs : List α} {ys : List β} :
    xs.mapM f = .ok ys ↔ List.Forall₂ (fun x y => f x = .ok y) xs ys := by
  induction xs generalizing ys with
  | nil =>
    rw [List.mapM_nil, List.forall₂_nil_left_iff]
    exact ⟨fun h => (Except.ok.inj h).symm, fun h => h ▸ rfl⟩
  | cons x xs ih =>
    simp only [List.mapM_cons, except_bind_eq_ok, List.forall₂_cons_left_iff, ih]
    constructor
    · rintro ⟨y, hy, ys', hys, hcons⟩
      exact ⟨y, ys', hy, hys, (Except.ok.inj hcons).symm⟩
    · rintro ⟨y, ys', hy, hys, rfl⟩
      exact ⟨y, hy, ys', hys, rfl⟩

namespace Filter

variable {ps : Parameters}

theorem bind_not {f : Filter} {c : Condition} (h : (not f).bind ps = .ok c) :
    ∃ c', f.bind ps = .ok c' ∧ c = .not c' := by
  obtain ⟨c', hf, hc⟩ := except_bind_eq_ok.mp h
  cases hc
  exact ⟨c', hf, rfl⟩

theorem bind_combine {op : Connective} {f g : Filter} {c : Condition}
    (h : (combine op f g).bind ps = .ok c) :
    ∃ c₁ c₂, f.bind ps = .ok c₁ ∧ g.bind ps = .ok c₂ ∧ c = .combine op c₁ c₂ := by
  obtain ⟨c₁, hf, h⟩ := except_bind_eq_ok.mp h
  obtain ⟨c₂, hg, hc⟩ := except_bind_eq_ok.mp h
  cases hc
  exact ⟨c₁, c₂, hf, hg, rfl⟩

end Filter

/-- A statement is bound clause by clause. -/
theorem Statement.bind_eq_ok {s : Statement} {ps : Parameters} {b : Bound} :
    s.bind ps = .ok b ↔
      (s.assignments.getD []).mapM (Assignment.bind ps) = .ok b.assignments ∧
      s.filter.mapM (WhereClause.bind ps) = .ok b.filter ∧
      (s.order.getD []).mapM (SortKey.bind ps) = .ok b.order ∧
      s.limit.mapM (bindLimit ps) = .ok b.limit := by
  simp only [bind, except_bind_eq_ok]
  constructor
  · rintro ⟨assignments, ha, filter, hf, order, ho, limit, hl, hb⟩
    cases hb
    exact ⟨ha, hf, ho, hl⟩
  · rintro ⟨ha, hf, ho, hl⟩
    exact ⟨_, ha, _, hf, _, ho, _, hl, rfl⟩

namespace Compiled

variable {c : Compiled} {ps : Parameters}

/-- A statement that binds is bound on a new duplicate, which alone is told of its clauses. -/
theorem bind_of_ok {b : Bound} (h : c.statement.bind ps = .ok b) (host : Host) :
    ∃ host', c.bind ps host = (.ok ⟨host.nextId, c.template.kind⟩, host') ∧
      host'.calls = host.calls ++ .duplicate c.template ⟨host.nextId, c.template.kind⟩ ::
        (b.directives c.template.kind).map (.direct ⟨host.nextId, c.template.kind⟩) := by
  refine ⟨_, by rw [bind, h]; rfl, ?_⟩
  simp [Host.note, Host.direct, Host.record, Host.calls, Event.call?, List.filterMap_cons,
    List.filterMap_map, Function.comp_def]

theorem bind_of_error {fault : BindingFault} (h : c.statement.bind ps = .error fault)
    (host : Host) : c.bind ps host = (.error fault, host) := by
  rw [bind, h]

theorem bind_eq_ok {host host' : Host} {handle : Handle}
    (h : c.bind ps host = (.ok handle, host')) :
    handle = ⟨host.nextId, c.template.kind⟩ ∧ ∃ b, c.statement.bind ps = .ok b ∧
      host'.calls = host.calls ++ .duplicate c.template handle ::
        (b.directives c.template.kind).map (.direct handle) := by
  cases hb : c.statement.bind ps with
  | error fault =>
    rw [bind_of_error hb] at h
    cases h
  | ok b =>
    obtain ⟨_, hbind, hcalls⟩ := bind_of_ok hb host
    rw [hbind] at h
    cases h
    exact ⟨rfl, b, rfl, hcalls⟩

end Compiled

/-- What is compiled was read, keeps the rules of its kind, and has a template of that kind. -/
theorem Descriptor.compile_eq_ok {d : Descriptor} {host host' : Host} {c : Compiled}
    (h : d.compile host = (.ok c, host')) :
    parse d.category d.text = .ok c.statement ∧ c.statement.violation? d.category = none ∧
      c.template.kind = c.statement.kind := by
  rw [compile, check] at h
  cases hparse : parse d.category d.text with
  | error fault => simp [hparse] at h
  | ok s =>
    cases hrule : s.violation? d.category with
    | some v => simp [hparse, Statement.validate, hrule] at h
    | none =>
      simp only [hparse, Statement.validate, hrule, Host.create, Prod.mk.injEq,
        Except.ok.injEq] at h
      obtain ⟨rfl, -⟩ := h
      exact ⟨rfl, hrule, rfl⟩

/-- What is read and keeps its rules is compiled, whatever the host. -/
theorem Descriptor.compile_of_parse {d : Descriptor} {s : Statement}
    (hparse : parse d.category d.text = .ok s) (hrules : s.violation? d.category = none)
    (host : Host) :
    ∃ c, c.statement = s ∧ c.template.kind = s.kind ∧ ∃ host', d.compile host = (.ok c, host') := by
  have hcheck : d.check = .ok s := by simp [check, hparse, Statement.validate, hrules]
  refine ⟨⟨d, s, ⟨host.nextId, s.kind⟩⟩, rfl, rfl, ?_⟩
  rw [compile, hcheck]
  exact ⟨_, rfl⟩

/-- A statement without a violation keeps every rule of its kind. -/
theorem Statement.rule_kept {s : Statement} {category : Category}
    (h : s.violation? category = none) {rule : Rule} (hrule : rule ∈ s.kind.rules) :
    rule.violation? s category = none := by
  rw [violation?, List.findSome?_eq_none_iff] at h
  simpa using h rule hrule

end CategoryStatements
