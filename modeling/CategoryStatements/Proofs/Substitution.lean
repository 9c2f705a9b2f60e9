import CategoryStatements.Proofs.FirstFault
import CategoryStatements.Proofs.Lexemes

/-! Substitution. The placeholders of a statement are replaced by the literals of their values.
The statement then keeps the rules it kept before, and binds without parameters to what it
bound to with them. -/
namespace CategoryStatements

/-- The literal of a value, if it can be written as one. -/
def Value.literal? : Value → Option Literal
  | string s => some (.string s)
  | int n => some (.int n)
  | long n => some (.long n)
  | boolean b => some (.boolean b)
  | _ => none

/-- Between its quotes a plain string has no quote and nothing that separates tokens. -/
def Literal.isPlain : Literal → Bool
  | string s => s.toList.all fun c => c ≠ quoteMark ∧ c ∉ delimiters
  | _ => true

def Parameters.literal? (ps : Parameters) (index : Nat) : Option Literal :=
  (ps.values[index]?).join.bind Value.literal?

def Atom.inline (ps : Parameters) : Atom → Atom
  | literal l => literal l
  | placeholder p => (ps.literal? p.index).elim (placeholder p) literal

def Term.inline (ps : Parameters) (t : Term) : Term := ⟨t.atom.inline ps, t.isKey⟩

def Assignment.inline (ps : Parameters) (a : Assignment) : Assignment :=
  ⟨a.key.inline ps, a.value.inline ps⟩

def Filter.inline (ps : Parameters) : Filter → Filter
  | compare key op value => compare (key.inline ps) op (value.inline ps)
  | not inner => not (inner.inline ps)
  | combine op left right => combine op (left.inline ps) (right.inline ps)

def WhereClause.inline (ps : Parameters) (clause : WhereClause) : WhereClause :=
  ⟨clause.root.map (Filter.inline ps)⟩

def SortKey.inline (ps : Parameters) (s : SortKey) : SortKey := ⟨s.key.inline ps, s.direction⟩

def Statement.inline (ps : Parameters) (s : Statement) : Statement :=
  { s with
    assignments := s.assignments.map (List.map (Assignment.inline ps))
    filter := s.filter.map (WhereClause.inline ps)
    order := s.order.map (List.map (SortKey.inline ps))
    limit := s.limit.map (Term.inline ps)
    placeholders := 0 }

/-- A placeholder whose value can be inlined: a plain literal of its type, and a string if it is
a key. -/
def Occurrence.Filled (ps : Parameters) (o : Occurrence) : Prop :=
  ∃ l, ps.literal? o.index = some l ∧ o.type.accepts l.toValue ∧ l.isPlain ∧
    (o.isKey → ∃ s, l = .string s)

theorem Value.literal?_eq_some {v : Value} {l : Literal} :
    v.literal? = some l ↔ v = l.toValue := by
  cases v <;> cases l <;> simp [literal?, Literal.toValue]

theorem Parameters.literal?_eq_some {ps : Parameters} {index : Nat} {l : Literal} :
    ps.literal? index = some l ↔ ps.values[index]? = some (some l.toValue) := by
  rw [literal?, Option.bind_eq_some_iff]
  constructor
  · rintro ⟨v, hv, hl⟩
    rw [Value.literal?_eq_some.mp hl] at hv
    exact Option.join_eq_some_iff.mp hv
  · intro h
    exact ⟨l.toValue, by rw [h]; rfl, Value.literal?_eq_some.mpr rfl⟩

/-- What fills the placeholder of a term. -/
theorem Term.exists_literal {ps : Parameters} {p : Placeholder} {clause : Clause} {isKey : Bool}
    (h : ∀ o ∈ Term.occurrences clause ⟨.placeholder p, isKey⟩, o.Filled ps) :
    ∃ l, ps.literal? p.index = some l ∧ p.type.accepts l.toValue ∧ l.isPlain ∧
      (isKey → ∃ s, l = .string s) :=
  h ⟨p, clause, isKey⟩ (mem_occurrences.mpr ⟨p, rfl, rfl⟩)

section Binding

variable {ps : Parameters}

/-- An inlined term resolves to what the term resolved to, whatever the parameters now are. -/
theorem Term.resolve_inline {t : Term} {clause : Clause}
    (h : ∀ o ∈ t.occurrences clause, o.Filled ps) (ps' : Parameters) :
    (t.inline ps).resolve ps' = t.resolve ps := by
  obtain ⟨atom, isKey⟩ := t
  cases atom with
  | literal l => rfl
  | placeholder p =>
    obtain ⟨l, hl, haccepts, -⟩ := exists_literal h
    have hresolve : (Atom.placeholder p).resolve ps = .ok l.toValue := by
      simp [Atom.resolve_placeholder, Parameters.literal?_eq_some.mp hl, haccepts]
    simp only [inline, Atom.inline, hl, Option.elim_some, resolve, hresolve]
    rfl

theorem Filter.bind_inline {f : Filter} (h : ∀ o ∈ f.occurrences, o.Filled ps)
    (ps' : Parameters) : (f.inline ps).bind ps' = f.bind ps := by
  induction f with
  | compare key op value =>
    simp only [occurrences, List.forall_mem_append] at h
    simp only [inline, bind, key.resolve_inline h.1, value.resolve_inline h.2]
  | not inner ih => simp only [inline, bind, ih h]
  | combine op left right ihl ihr =>
    simp only [occurrences, List.forall_mem_append] at h
    simp only [inline, bind, ihl h.1, ihr h.2]

theorem WhereClause.bind_inline {clause : WhereClause}
    (h : ∀ o ∈ clause.occurrences, o.Filled ps) (ps' : Parameters) :
    (clause.inline ps).bind ps' = clause.bind ps := by
  obtain ⟨_ | f⟩ := clause
  · rfl
  · exact Filter.bind_inline (by simpa [occurrences] using h) ps'

theorem Term.inline_of_literal {t : Term} (h : t.placeholder? = none) : t.inline ps = t := by
  obtain ⟨_ | p, isKey⟩ := t
  · rfl
  · cases h

theorem Assignment.bind_inline {a : Assignment} (hkey : a.key.placeholder? = none)
    (h : ∀ o ∈ a.occurrences, o.Filled ps) (ps' : Parameters) :
    (a.inline ps).bind ps' = a.bind ps := by
  simp only [occurrences, List.forall_mem_append] at h
  have hresolve := a.key.resolve_inline h.1 ps'
  simp only [Term.inline_of_literal hkey] at hresolve
  simp only [inline, bind, Term.inline_of_literal hkey, hresolve, a.value.resolve_inline h.2]

theorem SortKey.bind_inline {s : SortKey} (h : ∀ o ∈ s.occurrences, o.Filled ps)
    (ps' : Parameters) : (s.inline ps).bind ps' = s.bind ps := by
  simp only [inline, bind, s.key.resolve_inline h]

theorem Term.bindLimit_inline {t : Term} (h : ∀ o ∈ t.occurrences .limit, o.Filled ps)
    (ps' : Parameters) : bindLimit ps' (t.inline ps) = bindLimit ps t := by
  simp only [bindLimit, t.resolve_inline h]

theorem mapM_map_congr {f : α → Except ε β} {g : α → α} {f' : α → Except ε β} {xs : List α}
    (h : ∀ x ∈ xs, f' (g x) = f x) : (xs.map g).mapM f' = xs.mapM f := by
  induction xs with
  | nil => rfl
  | cons x xs ih =>
    obtain ⟨hx, hxs⟩ := List.forall_mem_cons.mp h
    rw [List.map_cons, List.mapM_cons, List.mapM_cons, hx, ih hxs]

theorem mapM_map_congr_option {f : α → Except ε β} {g : α → α} {f' : α → Except ε β}
    {o : Option α} (h : ∀ x ∈ o, f' (g x) = f x) : (o.map g).mapM f' = o.mapM f := by
  cases o with
  | none => rfl
  | some x => rw [Option.map_some, Option.mapM_some, Option.mapM_some, h x rfl]

end Binding

namespace Statement

variable {s : Statement} {ps : Parameters} {category : Category}

theorem assignments_inline (s : Statement) (ps : Parameters) :
    (s.inline ps).assignments.getD [] = (s.assignments.getD []).map (Assignment.inline ps) := by
  rw [inline]
  cases s.assignments <;> rfl

theorem order_inline (s : Statement) (ps : Parameters) :
    (s.inline ps).order.getD [] = (s.order.getD []).map (SortKey.inline ps) := by
  rw [inline]
  cases s.order <;> rfl

/-- An inlined statement needs no parameters to bind to what it bound to with them. -/
theorem bind_inline (hkeys : ∀ a ∈ s.assignments.getD [], a.key.placeholder? = none)
    (h : ∀ o ∈ s.occurrences, o.Filled ps) (ps' : Parameters) :
    (s.inline ps).bind ps' = s.bind ps := by
  simp only [occurrences, List.forall_mem_append, List.forall_mem_flatMap, Option.mem_toList] at h
  obtain ⟨⟨⟨hset, hfilter⟩, horder⟩, hlimit⟩ := h
  have hset' := mapM_map_congr fun a ha =>
    Assignment.bind_inline (hkeys a ha) (hset a ha) ps'
  have hfilter' := mapM_map_congr_option fun clause hclause =>
    WhereClause.bind_inline (hfilter clause hclause) ps'
  have horder' := mapM_map_congr fun k hk => SortKey.bind_inline (horder k hk) ps'
  have hlimit' := mapM_map_congr_option fun t ht => Term.bindLimit_inline (hlimit t ht) ps'
  rw [bind, bind, assignments_inline, order_inline, hset', horder']
  simp only [inline, hfilter', hlimit']

/-- The keys of a SET clause are literal and stay as they are. -/
theorem keys_inline (hkeys : ∀ a ∈ s.assignments.getD [], a.key.placeholder? = none)
    (ps : Parameters) :
    ((s.inline ps).assignments.getD []).map Assignment.key =
      (s.assignments.getD []).map Assignment.key := by
  rw [assignments_inline, List.map_map]
  exact List.map_congr_left fun a ha => Term.inline_of_literal (hkeys a ha)

/-- Inlining breaks no rule and mends none. -/
theorem violation?_inline (hkeys : ∀ a ∈ s.assignments.getD [], a.key.placeholder? = none)
    (ps : Parameters) : (s.inline ps).violation? category = s.violation? category := by
  have hmap := keys_inline hkeys ps
  have hnames : (s.inline ps).assignedNames = s.assignedNames := by
    have h := congrArg (List.filterMap Term.keyName?) hmap
    rwa [List.filterMap_map, List.filterMap_map] at h
  have hliteral : ((s.inline ps).assignments.getD []).any (fun a => a.key.placeholder?.isSome) =
      (s.assignments.getD []).any fun a => a.key.placeholder?.isSome := by
    have h := congrArg (List.any · fun k => k.placeholder?.isSome) hmap
    simpa only [List.any_map, Function.comp_def] using h
  have hempty : (s.inline ps).assignments.getD [] = [] ↔ s.assignments.getD [] = [] := by
    rw [assignments_inline, List.map_eq_nil_iff]
  have hnone : (s.inline ps).assignments.isNone = s.assignments.isNone := by
    simp only [inline, Option.isNone_map]
  have hrule : ∀ rule : Rule, rule.violation? (s.inline ps) category =
      rule.violation? s category := by
    intro rule
    cases rule with
    | setRequired =>
      simp only [Rule.violation?, hempty]
      rfl
    | setKeysLiteral => simp only [Rule.violation?, hliteral]
    | setKeysUnique | setKeysKnown => simp only [Rule.violation?, hnames]
    | setKeysExact => simp only [Rule.violation?, hnames, hnone]
    | aggregateKeyRequired | aggregateKeyKnown => rfl
    | _ => simp only [Rule.violation?, inline, Option.isSome_map, Option.isNone_map]
  rw [violation?, violation?]
  simp only [hrule]
  rfl

end Statement

/-- Outside of WHERE a placeholder that is a key is of string type. -/
theorem Statement.Suits.key_cases {s : Statement} (h : s.Suits)
    (hkeys : ∀ a ∈ s.assignments.getD [], a.key.placeholder? = none) {o : Occurrence}
    (ho : o ∈ s.occurrences) (hkey : o.isKey) : o.clause = .filter ∨ o.type = ⟨.string, false⟩ := by
  simp only [occurrences, List.mem_append, List.mem_flatMap, Option.mem_toList] at ho
  rcases ho with ((⟨a, ha, ho⟩ | ⟨clause, hclause, ho⟩) | ⟨k, hk, ho⟩) | ⟨t, ht, ho⟩
  · rcases List.mem_append.mp ho with ho | ho
    · simp [Term.occurrences, hkeys a ha] at ho
    · obtain ⟨p, -, rfl⟩ := Term.mem_occurrences.mp ho
      rw [(h.assignments a ha).2.isKey_eq] at hkey
      cases hkey
  · obtain ⟨f, hroot, -⟩ := h.filter clause hclause
    simp only [WhereClause.occurrences, hroot, Option.toList_some, List.flatMap_singleton] at ho
    exact .inl (Filter.clause_of_mem_occurrences ho)
  · obtain ⟨p, hp, rfl⟩ := Term.mem_occurrences.mp ho
    exact .inr (beq_iff_eq.mp ((h.order k hk).permitted p hp))
  · obtain ⟨p, -, rfl⟩ := Term.mem_occurrences.mp ho
    rw [(h.limit t ht).1.isKey_eq] at hkey
    cases hkey

/-- A placeholder without a fault whose value is plain can be filled. -/
theorem Occurrence.filled_of_fault?_eq_none {ps : Parameters} {o : Occurrence} {l : Literal}
    (h : o.fault? ps = none) (hl : ps.literal? o.index = some l) (hplain : l.isPlain)
    (hkey : o.isKey → o.clause = .filter ∨ o.type = ⟨.string, false⟩) : o.Filled ps := by
  simp only [fault?, Parameters.literal?_eq_some.mp hl] at h
  split at h
  · next haccepts =>
    simp only [ite_eq_right_iff, reduceCtorEq, imp_false, not_and, not_not] at h
    refine ⟨l, hl, haccepts, hplain, fun hk => ?_⟩
    have htype : o.type = ⟨.string, false⟩ := by
      rcases hkey hk with hclause | htype
      · exact h (by simp [isComparisonKey, hclause, hk])
      · exact htype
    obtain ⟨s, hs⟩ := (ParamType.eq_string_iff haccepts).mp htype
    cases l with
    | string s => exact ⟨s, rfl⟩
    | int | long | boolean => cases hs
  · cases h

end CategoryStatements
