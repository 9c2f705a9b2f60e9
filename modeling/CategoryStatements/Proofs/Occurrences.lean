import CategoryStatements.Proofs.Acceptance

/-! The placeholders of a statement where they stand. Read in the order of the text they are
numbered from zero without a gap, and each term that was read suits its place: keys are strings
or placeholders, a limit is an integer, and every placeholder has a type that its clause
permits. -/
namespace CategoryStatements

/-- A placeholder, the clause it stands in, and whether it stands for a key there. -/
structure Occurrence where
  placeholder : Placeholder
  clause : Clause
  isKey : Bool
  deriving DecidableEq

namespace Occurrence

def index (o : Occurrence) : Nat := o.placeholder.index

def type (o : Occurrence) : ParamType := o.placeholder.type

end Occurrence

def Term.occurrences (clause : Clause) (t : Term) : List Occurrence :=
  t.placeholder?.toList.map fun p => ⟨p, clause, t.isKey⟩

def Assignment.occurrences (a : Assignment) : List Occurrence :=
  a.key.occurrences .set ++ a.value.occurrences .set

def Filter.occurrences : Filter → List Occurrence
  | compare key _ value => key.occurrences .filter ++ value.occurrences .filter
  | not inner => inner.occurrences
  | combine _ left right => left.occurrences ++ right.occurrences

def WhereClause.occurrences (clause : WhereClause) : List Occurrence :=
  clause.root.toList.flatMap Filter.occurrences

def SortKey.occurrences (s : SortKey) : List Occurrence := s.key.occurrences .sort

/-- All placeholders of a statement, in the order of the text. -/
def Statement.occurrences (s : Statement) : List Occurrence :=
  (s.assignments.getD []).flatMap Assignment.occurrences ++
    s.filter.toList.flatMap WhereClause.occurrences ++
    (s.order.getD []).flatMap SortKey.occurrences ++
    s.limit.toList.flatMap (Term.occurrences .limit)

theorem Term.mem_occurrences {t : Term} {clause : Clause} {o : Occurrence} :
    o ∈ t.occurrences clause ↔ ∃ p, t.atom = .placeholder p ∧ o = ⟨p, clause, t.isKey⟩ := by
  obtain ⟨_ | p, isKey⟩ := t <;> simp [occurrences, placeholder?]

theorem Filter.clause_of_mem_occurrences {f : Filter} {o : Occurrence} (h : o ∈ f.occurrences) :
    o.clause = .filter := by
  induction f with
  | compare key op value =>
    rcases List.mem_append.mp h with h | h
    · obtain ⟨p, -, rfl⟩ := Term.mem_occurrences.mp h
      rfl
    · obtain ⟨p, -, rfl⟩ := Term.mem_occurrences.mp h
      rfl
  | not inner ih => exact ih h
  | combine op left right ihl ihr =>
    rcases List.mem_append.mp h with h | h
    · exact ihl h
    · exact ihr h

/-- A term that suits a place: its clause permits the placeholder, and a key is a string. -/
structure Term.Suits (clause : Clause) (isKey : Bool) (t : Term) : Prop where
  isKey_eq : t.isKey = isKey
  permitted : ∀ p, t.atom = .placeholder p → clause.permits p.type
  isString : isKey → ∀ l, t.atom = .literal l → ∃ s, l = .string s

def Assignment.Suits (a : Assignment) : Prop := a.key.Suits .set true ∧ a.value.Suits .set false

def Filter.Suits : Filter → Prop
  | compare key _ value => key.Suits .filter true ∧ value.Suits .filter false
  | not inner => inner.Suits
  | combine _ left right => left.Suits ∧ right.Suits

def Term.SuitsLimit (t : Term) : Prop :=
  t.Suits .limit false ∧ ∀ l, t.atom = .literal l → ∃ n, l = .int n

/-- All terms of a statement suit their places, and its WHERE clause holds a filter. -/
structure Statement.Suits (s : Statement) : Prop where
  assignments : ∀ a ∈ s.assignments.getD [], a.Suits
  filter : ∀ clause ∈ s.filter, ∃ f, clause.root = some f ∧ f.Suits
  order : ∀ k ∈ s.order.getD [], k.key.Suits .sort true
  limit : ∀ t ∈ s.limit, t.SuitsLimit

namespace Phrasing

variable {P : Phrasing φ α} {occurrences : α → List Occurrence} {R : α → Prop}

/-- The placeholders of every meaning are numbered in a row, after those before the phrase. -/
def Numbers (P : Phrasing φ α) (occurrences : α → List Occurrence) : Prop :=
  ∀ n p, (occurrences (P.value n p)).map Occurrence.index = List.range' n (P.holes p)

theorem Numbers.values (h : P.Numbers occurrences) (n : Nat) (ps : List φ) :
    ((P.values n ps).flatMap occurrences).map Occurrence.index =
      List.range' n (P.totalHoles ps) := by
  induction ps generalizing n with
  | nil => rfl
  | cons p ps ih =>
    rw [Phrasing.values, List.flatMap_cons, List.map_append, h n p, ih, List.range'_append_1]
    rfl

theorem Numbers.chain (h : P.Numbers occurrences) (separator : String) :
    (P.chain separator).Numbers fun as => occurrences as.1 ++ as.2.flatMap occurrences := by
  intro n p
  simp only [Phrasing.chain, List.map_append]
  rw [h n p.first, h.values, List.range'_append_1]

theorem Numbers.map (h : P.Numbers occurrences) {f : α → β} {occurrences' : β → List Occurrence}
    (hf : ∀ a, occurrences' (f a) = occurrences a) : (P.map f).Numbers occurrences' := by
  intro n p
  simp only [Phrasing.map, hf]
  exact h n p

theorem Numbers.clause (h : P.Numbers occurrences) (word : String) :
    (P.clause word).Numbers fun a => a.toList.flatMap occurrences := by
  rintro n (_ | p)
  · rfl
  · simpa [Phrasing.clause] using h n p

/-- A clause of items with commas between them. -/
theorem Numbers.listClause (h : P.Numbers occurrences) (word : String) :
    (((P.chain ",").map fun as => as.1 :: as.2).clause word).Numbers fun as =>
      (as.getD []).flatMap occurrences := by
  rintro n (_ | p)
  · rfl
  · exact h.chain "," n p

/-- Every meaning of a phrase has the property. -/
def Ensures (P : Phrasing φ α) (R : α → Prop) : Prop := ∀ n p, R (P.value n p)

theorem Ensures.values (h : P.Ensures R) (n : Nat) (ps : List φ) : ∀ a ∈ P.values n ps, R a := by
  induction ps generalizing n with
  | nil => simp [Phrasing.values]
  | cons p ps ih => exact List.forall_mem_cons.mpr ⟨h n p, ih _⟩

theorem Ensures.chain (h : P.Ensures R) (separator : String) :
    (P.chain separator).Ensures fun as => R as.1 ∧ ∀ a ∈ as.2, R a :=
  fun n p => ⟨h n p.first, h.values _ p.others⟩

theorem Ensures.map (h : P.Ensures R) {f : α → β} {R' : β → Prop} (hf : ∀ a, R a → R' (f a)) :
    (P.map f).Ensures R' :=
  fun n p => hf _ (h n p)

theorem Ensures.clause (h : P.Ensures R) (word : String) :
    (P.clause word).Ensures fun a => ∀ b ∈ a, R b := by
  rintro n (_ | p) b hb
  · cases hb
  · cases hb
    exact h n p

theorem Ensures.listClause (h : P.Ensures R) (word : String) :
    (((P.chain ",").map fun as => as.1 :: as.2).clause word).Ensures fun as =>
      ∀ a ∈ as.getD [], R a := by
  rintro n (_ | p)
  · exact List.forall_mem_nil _
  · exact List.forall_mem_cons.mpr (h.chain "," n p)

end Phrasing

theorem Reading.map_index_occurrences (r : Reading) (clause : Clause) (isKey : Bool) (n : Nat) :
    ((r.term isKey n).occurrences clause).map Occurrence.index = List.range' n r.holes := by
  cases r <;> rfl

theorem PairPhrase.numbers : PairPhrase.phrasing.Numbers Assignment.occurrences := by
  intro n p
  simp only [phrasing, Assignment.occurrences, List.map_append, Reading.map_index_occurrences,
    List.range'_append_1]

theorem ComparisonPhrase.numbers : ComparisonPhrase.phrasing.Numbers Filter.occurrences := by
  intro n p
  simp only [phrasing, Filter.occurrences, List.map_append, Reading.map_index_occurrences,
    List.range'_append_1]

theorem ConditionPhrase.numbers : ConditionPhrase.phrasing.Numbers Filter.occurrences := by
  intro n p
  induction p with
  | compare p => exact ComparisonPhrase.numbers n p
  | not p ih => exact ih

theorem MemberPhrase.numbers : MemberPhrase.phrasing.Numbers SortKey.occurrences :=
  fun n p => p.key.reading.map_index_occurrences .sort true n

theorem LimitPhrase.numbers : LimitPhrase.phrasing.Numbers (Term.occurrences .limit) :=
  fun n p => p.reading.map_index_occurrences .limit false n

theorem Filter.occurrences_join (op : Connective) (first : Filter) (others : List Filter) :
    (Chain.join (combine op) ⟨first, others⟩).occurrences =
      first.occurrences ++ others.flatMap Filter.occurrences := by
  induction others generalizing first with
  | nil => simp
  | cons f others ih => simp [Chain.join_cons, ih, occurrences]

theorem disjunctions_numbers : disjunctions.Numbers Filter.occurrences := by
  have hand : conjunctions.Numbers Filter.occurrences :=
    (ConditionPhrase.numbers.chain "AND").map fun fs => Filter.occurrences_join .and fs.1 fs.2
  exact (hand.chain "OR").map fun fs => Filter.occurrences_join .or fs.1 fs.2

theorem TermToken.suits {clause : Clause} {isKey : Bool} {text : String} {r : Reading}
    (h : TermToken clause isKey text r) (n : Nat) : (r.term isKey n).Suits clause isKey := by
  refine ⟨by cases r <;> rfl, ?_, ?_⟩
  · intro p hp
    cases h with
    | placeholder takes =>
      cases hp
      exact Clause.permits_iff.mpr takes
    | _ => cases hp
  · rintro rfl l hl
    cases h with
    | placeholder takes => cases hl
    | quoted s =>
      cases hl
      exact ⟨s, rfl⟩
    | bareWord bare =>
      cases hl
      exact ⟨_, rfl⟩

theorem PairPhrase.ensures : PairPhrase.phrasing.Ensures Assignment.Suits :=
  fun _ p => ⟨p.key.derives.suits _, p.value.derives.suits _⟩

theorem ConditionPhrase.ensures : ConditionPhrase.phrasing.Ensures Filter.Suits := by
  intro n p
  induction p with
  | compare p => exact ⟨p.key.derives.suits _, p.value.derives.suits _⟩
  | not p ih => exact ih

theorem MemberPhrase.ensures : MemberPhrase.phrasing.Ensures fun k => k.key.Suits .sort true :=
  fun _ p => p.key.derives.suits _

theorem LimitPhrase.ensures : LimitPhrase.phrasing.Ensures Term.SuitsLimit := by
  intro n p
  obtain ⟨hterm, hint⟩ := limitToken_iff.mp p.derives
  refine ⟨hterm.suits n, ?_⟩
  intro l hl
  apply hint l
  have hvalue : (p.reading.term false n).atom = .literal l := hl
  cases hr : p.reading with
  | literal l' =>
    rw [hr] at hvalue
    cases hvalue
    rfl
  | placeholder type =>
    rw [hr] at hvalue
    cases hvalue

theorem Filter.suits_join {op : Connective} {first : Filter} {others : List Filter}
    (hfirst : first.Suits) (hothers : ∀ f ∈ others, f.Suits) :
    (Chain.join (combine op) ⟨first, others⟩).Suits := by
  induction others generalizing first with
  | nil => exact hfirst
  | cons f others ih =>
    obtain ⟨hf, hothers⟩ := List.forall_mem_cons.mp hothers
    exact ih ⟨hfirst, hf⟩ hothers

theorem disjunctions_ensures : disjunctions.Ensures Filter.Suits := by
  have hand : conjunctions.Ensures Filter.Suits :=
    (ConditionPhrase.ensures.chain "AND").map fun _ h => Filter.suits_join h.1 h.2
  exact (hand.chain "OR").map fun _ h => Filter.suits_join h.1 h.2

namespace StatementPhrase

variable {category : Category} (p : StatementPhrase category)

theorem occurrences_filter :
    p.statement.filter.toList.flatMap WhereClause.occurrences =
      (whereClause.value (setClause.holes p.assignments) p.filter).toList.flatMap
        Filter.occurrences := by
  cases hf : p.filter <;>
    simp [statement, hf, whereClause, Phrasing.clause, WhereClause.occurrences]

/-- Placeholders are numbered from zero, in the order of the text. -/
theorem map_index_occurrences :
    p.statement.occurrences.map Occurrence.index = List.range p.statement.placeholders := by
  have hset := PairPhrase.numbers.listClause "SET" 0 p.assignments
  have hfilter := disjunctions_numbers.clause "WHERE" (setClause.holes p.assignments) p.filter
  have horder := MemberPhrase.numbers.listClause "SORT"
    (setClause.holes p.assignments + whereClause.holes p.filter) p.order
  have hlimit := LimitPhrase.numbers.clause "LIMIT" (setClause.holes p.assignments +
    whereClause.holes p.filter + sortClause.holes p.order) p.limit
  have happend : ∀ m n, List.range m ++ List.range' m n = List.range (m + n) := by
    intro m n
    have h := List.range'_append_1 (s := 0) (m := m) (n := n)
    rwa [Nat.zero_add, ← List.range_eq_range', ← List.range_eq_range'] at h
  rw [← List.range_eq_range'] at hset
  calc
    _ = List.range (setClause.holes p.assignments) ++
        List.range' (setClause.holes p.assignments) (whereClause.holes p.filter) ++
        List.range' (setClause.holes p.assignments + whereClause.holes p.filter)
          (sortClause.holes p.order) ++
        List.range' (setClause.holes p.assignments + whereClause.holes p.filter +
          sortClause.holes p.order) (limitClause.holes p.limit) := by
      rw [Statement.occurrences, p.occurrences_filter]
      simp only [List.map_append]
      exact congrArg₂ _ (congrArg₂ _ (congrArg₂ _ hset hfilter) horder) hlimit
    _ = List.range p.statement.placeholders := by
      rw [happend, happend, happend]
      rfl

theorem suits : p.statement.Suits where
  assignments := PairPhrase.ensures.listClause "SET" 0 p.assignments
  filter := by
    intro clause hclause
    obtain ⟨f, hf, rfl⟩ := Option.map_eq_some_iff.mp hclause
    exact ⟨f, rfl, disjunctions_ensures.clause "WHERE" _ p.filter f hf⟩
  order := MemberPhrase.ensures.listClause "SORT" _ p.order
  limit := LimitPhrase.ensures.clause "LIMIT" _ p.limit

end StatementPhrase

section

variable {category : Category} {text : String} {s : Statement}

theorem map_index_of_parse (h : parse category text = .ok s) :
    s.occurrences.map Occurrence.index = List.range s.placeholders := by
  obtain ⟨p, -, rfl⟩ := parseTokens_eq_ok.mp h
  exact p.map_index_occurrences

theorem suits_of_parse (h : parse category text = .ok s) : s.Suits := by
  obtain ⟨p, -, rfl⟩ := parseTokens_eq_ok.mp h
  exact p.suits

end

end CategoryStatements
