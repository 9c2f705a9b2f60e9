import CategoryStatements.Proofs.Binding

/-! What the store is told. Each clause of a statement asks for directives of its own, said here
without regard to the kind of the statement. The rules of a kind forbid every clause that the
kind does not pass on, so that a statement that binds tells the store all of its clauses, each
item once and in order. -/
namespace CategoryStatements

/-- The value that an atom stands for: its literal, or the parameter of its index. -/
inductive Atom.Denotes (ps : Parameters) : Atom → Value → Prop
  | string (s : String) : Denotes ps (.literal (.string s)) (.string s)
  | int (n : Int32) : Denotes ps (.literal (.int n)) (.int n)
  | long (n : Int64) : Denotes ps (.literal (.long n)) (.long n)
  | boolean (b : Bool) : Denotes ps (.literal (.boolean b)) (.boolean b)
  | placeholder {p : Placeholder} {v : Value} (bound : ps.values[p.index]? = some (some v)) :
      Denotes ps (.placeholder p) v

/-- The condition that a filter stands for, its keys being strings. -/
inductive Filter.Denotes (ps : Parameters) : Filter → Condition → Prop
  | compare {key value : Term} {name : String} {v : Value} (op : Comparison)
      (named : key.atom.Denotes ps (.string name)) (valued : value.atom.Denotes ps v) :
      Denotes ps (.compare key op value) (.compare name op v)
  | not {f : Filter} {c : Condition} (inner : Denotes ps f c) : Denotes ps (.not f) (.not c)
  | combine {f g : Filter} {c c' : Condition} (op : Connective) (left : Denotes ps f c)
      (right : Denotes ps g c') : Denotes ps (.combine op f g) (.combine op c c')

inductive Assignment.Asks (ps : Parameters) : Assignment → Directive → Prop
  | assign {key value : Term} {name : String} {v : Value}
      (named : key.atom.Denotes ps (.string name)) (valued : value.atom.Denotes ps v) :
      Asks ps ⟨key, value⟩ (.assign name v)

inductive WhereClause.Asks (ps : Parameters) : WhereClause → Directive → Prop
  | filter {f : Filter} {c : Condition} (denotes : f.Denotes ps c) :
      Asks ps ⟨some f⟩ (.filter c)

inductive SortKey.Asks (ps : Parameters) : SortKey → Directive → Prop
  | sort {key : Term} {name : String} (direction : Direction)
      (named : key.atom.Denotes ps (.string name)) : Asks ps ⟨key, direction⟩ (.sort name direction)

inductive Term.AsksLimit (ps : Parameters) : Term → Directive → Prop
  | limit {t : Term} {n : Int32} (valued : t.atom.Denotes ps (.int n)) : AsksLimit ps t (.limit n)

/-- The directives that all clauses of a statement ask for, one for each item and in order. -/
def Statement.Asks (ps : Parameters) (s : Statement) (directives : List Directive) : Prop :=
  ∃ sets filters sorts limits, directives = sets ++ filters ++ sorts ++ limits ∧
    List.Forall₂ (Assignment.Asks ps) (s.assignments.getD []) sets ∧
    List.Forall₂ (WhereClause.Asks ps) s.filter.toList filters ∧
    List.Forall₂ (SortKey.Asks ps) (s.order.getD []) sorts ∧
    List.Forall₂ (Term.AsksLimit ps) s.limit.toList limits

section

variable {ps : Parameters}

theorem Parameters.get_eq_ok {index : Nat} {v : Value} :
    ps.get index = .ok v ↔ ps.values[index]? = some (some v) := by
  unfold get
  split <;> simp_all

theorem Atom.denotes_of_resolve {a : Atom} {v : Value} (h : a.resolve ps = .ok v) :
    a.Denotes ps v := by
  cases a with
  | literal l =>
    cases h
    cases l with
    | string s => exact .string s
    | int n => exact .int n
    | long n => exact .long n
    | boolean b => exact .boolean b
  | placeholder p =>
    obtain ⟨w, hget, h⟩ := except_bind_eq_ok.mp h
    split at h
    · cases h
      exact .placeholder (Parameters.get_eq_ok.mp hget)
    · cases h

theorem Term.denotes_of_asKey {t : Term} {place : Place} {r : Resolved} {name : String}
    (h : t.resolve ps = .ok r) (hkey : r.asKey place = .ok name) :
    t.atom.Denotes ps (.string name) := by
  obtain ⟨v, hv, h⟩ := except_bind_eq_ok.mp h
  split at h
  · cases v with
    | string s =>
      cases h
      cases hkey
      exact Atom.denotes_of_resolve hv
    | _ => cases h
  · cases h
    cases hkey

theorem Term.denotes_of_asValue {t : Term} {place : Place} {r : Resolved} {v : Value}
    (h : t.resolve ps = .ok r) (hvalue : r.asValue place = .ok v) : t.atom.Denotes ps v := by
  obtain ⟨w, hw, h⟩ := except_bind_eq_ok.mp h
  split at h
  · cases w with
    | string s =>
      cases h
      cases hvalue
    | _ => cases h
  · cases h
    cases hvalue
    exact Atom.denotes_of_resolve hw

theorem Filter.denotes_of_bind {f : Filter} {c : Condition} (h : f.bind ps = .ok c) :
    f.Denotes ps c := by
  induction f generalizing c with
  | compare key op value =>
    obtain ⟨left, hleft, h⟩ := except_bind_eq_ok.mp h
    obtain ⟨right, hright, h⟩ := except_bind_eq_ok.mp h
    obtain ⟨name, hname, h⟩ := except_bind_eq_ok.mp h
    obtain ⟨v, hv, h⟩ := except_bind_eq_ok.mp h
    cases h
    exact .compare op (key.denotes_of_asKey hleft hname) (value.denotes_of_asValue hright hv)
  | not inner ih =>
    obtain ⟨c', hinner, rfl⟩ := bind_not h
    exact .not (ih hinner)
  | combine op left right ihl ihr =>
    obtain ⟨c₁, c₂, hleft, hright, rfl⟩ := bind_combine h
    exact .combine op (ihl hleft) (ihr hright)

theorem WhereClause.asks_of_bind {clause : WhereClause} {c : Condition}
    (h : clause.bind ps = .ok c) : clause.Asks ps (.filter c) := by
  obtain ⟨_ | f⟩ := clause
  · cases h
  · exact .filter (Filter.denotes_of_bind h)

theorem Assignment.asks_of_bind {a : Assignment} {b : String × Value} (h : a.bind ps = .ok b) :
    a.Asks ps (.assign b.1 b.2) := by
  rw [bind] at h
  split at h
  · cases h
  · obtain ⟨left, hleft, h⟩ := except_bind_eq_ok.mp h
    obtain ⟨name, hname, h⟩ := except_bind_eq_ok.mp h
    obtain ⟨right, hright, h⟩ := except_bind_eq_ok.mp h
    obtain ⟨v, hv, h⟩ := except_bind_eq_ok.mp h
    cases h
    exact .assign (Term.denotes_of_asKey hleft hname) (Term.denotes_of_asValue hright hv)

theorem SortKey.asks_of_bind {s : SortKey} {b : String × Direction} (h : s.bind ps = .ok b) :
    s.Asks ps (.sort b.1 b.2) := by
  obtain ⟨r, hr, h⟩ := except_bind_eq_ok.mp h
  obtain ⟨name, hname, h⟩ := except_bind_eq_ok.mp h
  cases h
  exact .sort s.direction (Term.denotes_of_asKey hr hname)

theorem Term.asksLimit_of_bindLimit {t : Term} {n : Int32} (h : bindLimit ps t = .ok n) :
    t.AsksLimit ps (.limit n) := by
  obtain ⟨r, hr, h⟩ := except_bind_eq_ok.mp h
  obtain ⟨v, hv, h⟩ := except_bind_eq_ok.mp h
  cases v with
  | int m =>
    cases h
    exact .limit (denotes_of_asValue hr hv)
  | _ => cases h

/-- An optional clause asks for what it binds to. -/
theorem forall₂_of_mapM_option {f : α → Except BindingFault β} {R : α → Directive → Prop}
    {directive : β → Directive} (hR : ∀ a b, f a = .ok b → R a (directive b)) {o : Option α}
    {r : Option β} (h : o.mapM f = .ok r) :
    List.Forall₂ R o.toList (r.map directive).toList := by
  cases o with
  | none =>
    cases h
    exact .nil
  | some a =>
    rw [Option.mapM_some] at h
    obtain ⟨b, hb, h⟩ := except_bind_eq_ok.mp h
    cases h
    exact .cons (hR a b hb) .nil

theorem forall₂_of_mapM_list {f : α → Except BindingFault β} {R : α → Directive → Prop}
    {directive : β → Directive} (hR : ∀ a b, f a = .ok b → R a (directive b)) {xs : List α}
    {ys : List β} (h : xs.mapM f = .ok ys) : List.Forall₂ R xs (ys.map directive) :=
  List.forall₂_map_right_iff.mpr ((mapM_eq_ok.mp h).imp hR)

/-- What all clauses ask for, of whatever kind the statement is. -/
theorem Statement.asks_of_bind {s : Statement} {b : Bound} (h : s.bind ps = .ok b) :
    s.Asks ps (b.assignDirectives ++ b.filterDirectives ++ b.sortDirectives ++
      b.limitDirectives) := by
  obtain ⟨hassign, hfilter, hsort, hlimit⟩ := bind_eq_ok.mp h
  exact ⟨_, _, _, _, rfl,
    forall₂_of_mapM_list (fun _ _ => Assignment.asks_of_bind) hassign,
    forall₂_of_mapM_option (fun _ _ => WhereClause.asks_of_bind) hfilter,
    forall₂_of_mapM_list (fun _ _ => SortKey.asks_of_bind) hsort,
    forall₂_of_mapM_option (fun _ _ => Term.asksLimit_of_bindLimit) hlimit⟩

end

namespace Statement

variable {s : Statement} {category : Category} {ps : Parameters} {b : Bound}

/-- A statement that keeps its rules has no clause that they forbid. -/
theorem forbidden_clauses (h : s.violation? category = none) :
    (Rule.setForbidden ∈ s.kind.rules → s.assignments = none) ∧
    (Rule.whereForbidden ∈ s.kind.rules → s.filter = none) ∧
    (Rule.sortForbidden ∈ s.kind.rules → s.order = none) ∧
    (Rule.limitForbidden ∈ s.kind.rules → s.limit = none) := by
  refine ⟨?_, ?_, ?_, ?_⟩ <;> intro hrule <;> simpa [Rule.violation?] using rule_kept h hrule

/-- Where a clause is absent there is nothing to tell. -/
theorem directives_of_absent (hb : s.bind ps = .ok b) :
    (s.assignments = none → b.assignDirectives = []) ∧
    (s.filter = none → b.filterDirectives = []) ∧
    (s.order = none → b.sortDirectives = []) ∧
    (s.limit = none → b.limitDirectives = []) := by
  obtain ⟨hassign, hfilter, hsort, hlimit⟩ := bind_eq_ok.mp hb
  refine ⟨?_, ?_, ?_, ?_⟩ <;> intro hnone
  · rw [hnone] at hassign
    rw [Bound.assignDirectives, ← Except.ok.inj hassign]
    rfl
  · rw [hnone] at hfilter
    rw [Bound.filterDirectives, ← Except.ok.inj hfilter]
    rfl
  · rw [hnone] at hsort
    rw [Bound.sortDirectives, ← Except.ok.inj hsort]
    rfl
  · rw [hnone] at hlimit
    rw [Bound.limitDirectives, ← Except.ok.inj hlimit]
    rfl

/-- What a kind does not pass on, its rules forbid. -/
theorem directives_eq (h : s.violation? category = none) (hb : s.bind ps = .ok b) :
    b.directives s.kind = b.assignDirectives ++ b.filterDirectives ++ b.sortDirectives ++
      b.limitDirectives := by
  have hforbidden := forbidden_clauses h
  obtain ⟨hset, hfilter, hsort, hlimit⟩ := directives_of_absent hb
  generalize s.kind = kind at hforbidden
  cases kind with
  | query | count | distinct =>
    rw [Bound.directives, hset (hforbidden.1 (by decide)), List.nil_append]
  | add =>
    rw [Bound.directives, hfilter (hforbidden.2.1 (by decide)),
      hsort (hforbidden.2.2.1 (by decide)), hlimit (hforbidden.2.2.2 (by decide))]
    simp
  | replace | update =>
    rw [Bound.directives, hsort (hforbidden.2.2.1 (by decide)),
      hlimit (hforbidden.2.2.2 (by decide))]
    simp
  | remove =>
    rw [Bound.directives, hset (hforbidden.1 (by decide)), hsort (hforbidden.2.2.1 (by decide)),
      hlimit (hforbidden.2.2.2 (by decide))]
    simp

end Statement

/-- A bound statement carries all its clauses. Binding makes one call for a duplicate of the
template, which is a new statement of the store, and after it calls on the duplicate only: those
that the clauses ask for, one for each item and in the order of the clauses. -/
theorem Compiled.bind_tells_every_clause {d : Descriptor} {c : Compiled} {ps : Parameters}
    {host host₁ host₂ host₃ : Host} {handle : Handle}
    (hcompile : d.compile host = (.ok c, host₁))
    (hbind : c.bind ps host₂ = (.ok handle, host₃)) :
    handle = ⟨host₂.nextId, c.kind⟩ ∧ ∃ directives, c.statement.Asks ps directives ∧
      host₃.calls =
        host₂.calls ++ .duplicate c.template handle :: directives.map (.direct handle) := by
  obtain ⟨-, hrules, hkind⟩ := Descriptor.compile_eq_ok hcompile
  obtain ⟨hhandle, b, hb, hcalls⟩ := bind_eq_ok hbind
  rw [hkind] at hhandle hcalls
  rw [Statement.directives_eq hrules hb] at hcalls
  exact ⟨hhandle, _, Statement.asks_of_bind hb, hcalls⟩

theorem Compiled.bind_tells_every_clause_update :
    ∃ (c : Compiled) (host₁ host₂ : Host) (handle : Handle) (directives : List Directive),
      Descriptor.compile ⟨⟨"c", [⟨"k", none⟩]⟩, "UPDATE c SET k = ?i WHERE ?s = 'x'"⟩ {} =
        (.ok c, host₁) ∧
      c.bind ⟨[some (.int 7), some (.string "n")]⟩ host₁ = (.ok handle, host₂) ∧
      c.statement.Asks ⟨[some (.int 7), some (.string "n")]⟩ directives ∧
      host₂.calls =
        host₁.calls ++ .duplicate c.template handle :: directives.map (.direct handle) := by
  let s : Statement :=
    { kind := .update, category := "c"
      assignments := some [⟨⟨.literal (.string "k"), true⟩, ⟨.placeholder ⟨0, .int, false⟩, false⟩⟩]
      filter := some ⟨some (.compare ⟨.placeholder ⟨1, .string, false⟩, true⟩ .equal
        ⟨.literal (.string "x"), false⟩)⟩
      placeholders := 2 }
  have hparse : parse ⟨"c", [⟨"k", none⟩]⟩ "UPDATE c SET k = ?i WHERE ?s = 'x'" = .ok s := by
    decide +kernel
  obtain ⟨c, hc, -, host₁, hcompile⟩ :=
    Descriptor.compile_of_parse (d := ⟨⟨"c", [⟨"k", none⟩]⟩, _⟩) hparse (by decide +kernel) {}
  have hok : c.statement.bind ⟨[some (.int 7), some (.string "n")]⟩ =
      .ok ⟨[("k", .int 7)], some (.compare "n" .equal (.string "x")), [], none⟩ := by
    rw [hc]
    rfl
  obtain ⟨host₂, hbind, -⟩ := bind_of_ok hok host₁
  obtain ⟨-, directives, hasks, hcalls⟩ := bind_tells_every_clause hcompile hbind
  exact ⟨c, host₁, host₂, _, directives, hcompile, hbind, hasks, hcalls⟩

end CategoryStatements
