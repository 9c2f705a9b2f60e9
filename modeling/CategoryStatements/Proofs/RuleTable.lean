import CategoryStatements.Proofs.Writes

/-! The rules as a table. What a rule asks for is said here without the check, and for each kind of
statement what all its rules ask for together. The check decides the table for every statement,
read from a text or not: it succeeds on the statements that keep it, and otherwise complains about
the first rule of the kind that is broken. -/
namespace CategoryStatements

/-- Distinct names are in order, so that they depend on the set of the names only. -/
theorem pairwise_insertNamed {name : String} {names : List String}
    (h : names.Pairwise (· < ·)) : (insertNamed id name names).Pairwise (· < ·) := by
  induction names with
  | nil => exact List.pairwise_singleton _ _
  | cons first rest ih =>
    obtain ⟨hfirst, hrest⟩ := List.pairwise_cons.mp h
    simp only [insertNamed, id_eq]
    split
    · next hlt =>
      refine List.pairwise_cons.mpr ⟨?_, h⟩
      exact List.forall_mem_cons.mpr ⟨hlt, fun x hx => String.lt_trans hlt (hfirst x hx)⟩
    · next hnot =>
      split
      · next heq => exact List.pairwise_cons.mpr ⟨by rwa [heq], hrest⟩
      · next hne =>
        refine List.pairwise_cons.mpr ⟨?_, ih hrest⟩
        intro x hx
        rcases mem_insertNamed.mp hx with rfl | hx
        · exact Std.lt_of_le_of_ne (Std.not_lt.mp hnot) (Ne.symm hne)
        · exact hfirst x hx

theorem pairwise_distinctNames (names : List String) :
    (distinctNames names).Pairwise (· < ·) := by
  have h (ordered : List String) (hordered : ordered.Pairwise (· < ·)) :
      (names.foldl (fun ordered name => insertNamed id name ordered) ordered).Pairwise
        (· < ·) := by
    induction names generalizing ordered with
    | nil => exact hordered
    | cons name names ih => exact ih _ (pairwise_insertNamed hordered)
  exact h [] List.Pairwise.nil

theorem distinctNames_eq_iff {xs ys : List String} :
    distinctNames xs = distinctNames ys ↔ ∀ name, name ∈ ys ↔ name ∈ xs := by
  constructor
  · intro h name
    rw [← mem_distinctNames, ← h, mem_distinctNames]
  · intro h
    have hxs := pairwise_distinctNames xs
    have hys := pairwise_distinctNames ys
    have hnodup {names : List String} (hnames : names.Pairwise (· < ·)) : names.Nodup :=
      hnames.imp Std.ne_of_lt
    refine List.Perm.eq_of_pairwise (fun a b _ _ hab hba => absurd hba (String.lt_asymm hab))
      hxs hys ((List.perm_ext_iff_of_nodup (hnodup hxs) (hnodup hys)).mpr ?_)
    intro name
    rw [mem_distinctNames, mem_distinctNames, h]

/-- The names that stand at an earlier place too, in order. -/
def recurrences (names : List String) : List String :=
  (names.zipIdx.filter fun place => place.1 ∈ names.take place.2).map Prod.fst

/-- What has been seen is what stands before, though not in its order. -/
theorem repeatedNames_eq_filter {before seen names : List String}
    (hseen : ∀ name, name ∈ seen ↔ name ∈ before) :
    repeatedNames seen names = ((names.zipIdx before.length).filter fun place =>
      place.1 ∈ (before ++ names).take place.2).map Prod.fst := by
  induction names generalizing before seen with
  | nil => rfl
  | cons name names ih =>
    have hnext {seen' : List String} (hseen' : ∀ x, x ∈ seen' ↔ x ∈ before ++ [name]) :
        repeatedNames seen' names = ((names.zipIdx (before.length + 1)).filter fun place =>
          place.1 ∈ (before ++ name :: names).take place.2).map Prod.fst := by
      rw [ih hseen', List.length_append, List.append_assoc]
      rfl
    rw [repeatedNames, List.zipIdx_cons, List.filter_cons]
    simp only [List.take_left, decide_eq_true_eq, ← hseen name]
    split
    · next hmem =>
      rw [List.map_cons, hnext]
      intro x
      rw [hseen, List.mem_append, List.mem_singleton]
      exact ⟨.inl, fun hx => hx.elim id fun hx => hx ▸ (hseen name).mp hmem⟩
    · rw [hnext]
      intro x
      rw [List.mem_cons, hseen, List.mem_append, List.mem_singleton, or_comm]

theorem repeatedNames_eq_recurrences (names : List String) :
    repeatedNames [] names = recurrences names := by
  have hseen : ∀ name, name ∈ ([] : List String) ↔ name ∈ ([] : List String) := fun _ => Iff.rfl
  exact repeatedNames_eq_filter hseen

example : repeatedNames [] ["a", "b", "a", "c", "b", "a"] = ["a", "b", "a"] := by decide

def Category.Declares (category : Category) (name : String) : Prop :=
  ∃ key ∈ category.keys, key.name = name

instance (category : Category) (name : String) : Decidable (category.Declares name) :=
  inferInstanceAs (Decidable (∃ key ∈ category.keys, key.name = name))

namespace Statement

/-- The names that stand as keys in the SET clause, in its order: those of the keys that are
literal strings. Placeholders and other literals name no key. -/
def setNames (s : Statement) : List String :=
  (s.assignments.getD []).filterMap fun a =>
    match a.key.atom with
    | .literal (.string name) => some name
    | .literal _ | .placeholder _ => none

theorem assignedNames_eq_setNames (s : Statement) : s.assignedNames = s.setNames := by
  rw [assignedNames, setNames]
  apply List.filterMap_congr
  intro a _
  rw [Term.keyName?]
  cases a.key.atom with
  | literal l => cases l <;> rfl
  | placeholder p => rfl

end Statement

namespace Rule

/-- What a rule asks of a statement. -/
def Holds (s : Statement) (category : Category) : Rule → Prop
  | whereForbidden => s.filter = none
  | whereRequired => s.filter ≠ none
  | setForbidden => s.assignments = none
  | setRequired => ∃ a as, s.assignments = some (a :: as)
  | setKeysLiteral => ∀ a ∈ s.assignments.getD [], ∀ p, a.key.atom ≠ .placeholder p
  | setKeysUnique => s.setNames.Nodup
  | setKeysExact =>
    s.assignments ≠ none → ∀ name, name ∈ s.setNames ↔ category.Declares name
  | setKeysKnown => ∀ name ∈ s.setNames, category.Declares name
  | sortForbidden => s.order = none
  | limitForbidden => s.limit = none
  | aggregateKeyRequired => s.aggregateKey ≠ none
  | aggregateKeyKnown => ∀ key, s.aggregateKey = some key → category.Declares key

/-- What is said about a statement that breaks a rule. -/
def complaint (s : Statement) (category : Category) : Rule → Violation
  | whereForbidden => .whereForbidden s.kind
  | whereRequired => .whereRequired s.kind
  | setForbidden => .setForbidden s.kind
  | setRequired => .setRequired s.kind
  | setKeysLiteral => .placeholderKey
  | setKeysUnique => .duplicateKeys (recurrences s.setNames)
  | setKeysExact => .otherKeys category.keyNames (distinctNames s.setNames)
  | setKeysKnown => .unknownKeys (s.setNames.filter fun name => ¬category.Declares name)
  | sortForbidden => .sortForbidden s.kind
  | limitForbidden => .limitForbidden s.kind
  | aggregateKeyRequired => .aggregateKeyRequired s.kind
  | aggregateKeyKnown => .unknownAggregateKey (s.aggregateKey.getD "") s.kind category.name

variable {s : Statement} {category : Category}

/-- A complaint is made exactly when the rule is broken. -/
def Decides (holds : Prop) (complaint : Violation) (found : Option Violation) : Prop :=
  holds ∧ found = none ∨ ¬holds ∧ found = some complaint

theorem decides_ite {broken holds : Prop} [Decidable broken] (h : broken ↔ ¬holds)
    (v : Violation) : Decides holds v (if broken then some v else none) := by
  by_cases hbroken : broken
  · exact .inr ⟨h.mp hbroken, if_pos hbroken⟩
  · exact .inl ⟨not_not.mp (mt h.mpr hbroken), if_neg hbroken⟩

theorem decides_names (names : List String) (v : List String → Violation) {holds : Prop} :
    (names = [] ↔ holds) → Decides holds (v names)
      (match names with
      | [] => none
      | names => some (v names)) := by
  intro h
  cases names with
  | nil => exact .inl ⟨h.mp rfl, rfl⟩
  | cons name names => exact .inr ⟨fun hholds => List.cons_ne_nil _ _ (h.mpr hholds), rfl⟩

theorem decides_violation? (s : Statement) (category : Category) (rule : Rule) :
    Decides (rule.Holds s category) (rule.complaint s category) (rule.violation? s category) := by
  cases rule with
  | whereForbidden | setForbidden | sortForbidden | limitForbidden =>
    exact decides_ite Option.isSome_iff_ne_none _
  | whereRequired | aggregateKeyRequired => exact decides_ite (by simp [Holds]) _
  | setRequired =>
    refine decides_ite ?_ _
    cases h : s.assignments with
    | none => simp [Holds, h]
    | some as => cases as <;> simp [Holds, h]
  | setKeysLiteral =>
    refine decides_ite ?_ _
    simp only [Holds, List.any_eq_true, not_forall, not_not, exists_prop]
    refine exists_congr fun a => and_congr_right fun _ => ?_
    rw [Term.placeholder?]
    split <;> simp_all
  | setKeysUnique =>
    have hnodup : recurrences s.setNames = [] ↔ s.setNames.Nodup := by
      rw [← repeatedNames_eq_recurrences, repeatedNames_eq_nil]
      simp
    rw [violation?, s.assignedNames_eq_setNames, repeatedNames_eq_recurrences]
    exact decides_names _ _ hnodup
  | setKeysExact =>
    have hkeys : category.keyNames = distinctNames s.setNames ↔
        ∀ name, name ∈ s.setNames ↔ category.Declares name := by
      rw [Category.keyNames, distinctNames_eq_iff]
      simp only [List.mem_map, Category.Declares]
    rw [violation?, s.assignedNames_eq_setNames, ← ite_not]
    refine decides_ite ?_ _
    rw [hkeys, Option.isNone_iff_eq_none]
    simp only [Holds]
    tauto
  | setKeysKnown =>
    have hfilter : (s.setNames.filter fun name => !category.hasKey name) =
        s.setNames.filter fun name => ¬category.Declares name := by
      apply List.filter_congr
      intro name _
      rw [decide_not, Bool.eq_iff_iff.mpr (Category.hasKey_iff.trans decide_eq_true_iff.symm)]
      rfl
    rw [violation?, s.assignedNames_eq_setNames, hfilter]
    refine decides_names _ _ ?_
    simp [Holds]
  | aggregateKeyKnown =>
    rw [violation?]
    cases h : s.aggregateKey with
    | none => exact .inl ⟨by simp [Holds, h], rfl⟩
    | some key =>
      simp only [complaint, h]
      rw [← ite_not]
      refine decides_ite ?_ _
      rw [Category.hasKey_iff]
      simp [Holds, h, Category.Declares]

theorem violation?_eq_none {rule : Rule} :
    rule.violation? s category = none ↔ rule.Holds s category := by
  obtain ⟨hholds, hnone⟩ | ⟨hbroken, hsome⟩ := decides_violation? s category rule
  · simp [hholds, hnone]
  · simp [hbroken, hsome]

theorem violation?_eq_some {rule : Rule} {v : Violation} :
    rule.violation? s category = some v ↔
      ¬rule.Holds s category ∧ v = rule.complaint s category := by
  obtain ⟨hholds, hnone⟩ | ⟨hbroken, hsome⟩ := decides_violation? s category rule
  · simp [hholds, hnone]
  · simp [hbroken, hsome, eq_comm]

end Rule

namespace Statement

/-- The SET clause assigns values to keys: it is not empty, no key is a placeholder, and no name
comes twice. -/
structure AssignsKeys (s : Statement) : Prop where
  nonempty : ∃ a as, s.assignments = some (a :: as)
  literal : ∀ a ∈ s.assignments.getD [], ∀ p, a.key.atom ≠ .placeholder p
  distinct : s.setNames.Nodup

/-- What is asked of the statements of each kind. -/
def Lawful (s : Statement) (category : Category) : Prop :=
  match s.kind with
  | .query => s.assignments = none
  | .count => s.assignments = none ∧ ∀ key, s.aggregateKey = some key → category.Declares key
  | .distinct => s.assignments = none ∧ ∃ key, s.aggregateKey = some key ∧ category.Declares key
  | .add =>
    s.filter = none ∧ s.AssignsKeys ∧
      (∀ name, name ∈ s.setNames ↔ category.Declares name) ∧ s.order = none ∧ s.limit = none
  | .replace =>
    s.filter ≠ none ∧ s.AssignsKeys ∧
      (∀ name, name ∈ s.setNames ↔ category.Declares name) ∧ s.order = none ∧ s.limit = none
  | .update =>
    s.filter ≠ none ∧ s.AssignsKeys ∧
      (∀ name ∈ s.setNames, category.Declares name) ∧ s.order = none ∧ s.limit = none
  | .remove => s.assignments = none ∧ s.order = none ∧ s.limit = none

variable {s : Statement} {category : Category}

/-- The table says of each kind what its rules do. -/
theorem lawful_iff : s.Lawful category ↔ ∀ rule ∈ s.kind.rules, rule.Holds s category := by
  rw [Lawful]
  cases s.kind with
  | query | count | remove => simp [Kind.rules, Rule.Holds]
  | distinct =>
    simp only [Kind.rules, List.forall_mem_cons, List.not_mem_nil, false_imp_iff, implies_true,
      and_true]
    refine and_congr_right fun _ => ?_
    cases h : s.aggregateKey <;> simp [Rule.Holds, h]
  | add | replace =>
    simp only [Kind.rules, List.forall_mem_cons, List.not_mem_nil, false_imp_iff, implies_true,
      and_true]
    constructor
    · rintro ⟨hfilter, hset, hnames, horder, hlimit⟩
      exact ⟨hfilter, hset.nonempty, hset.literal, hset.distinct, fun _ => hnames, horder, hlimit⟩
    · rintro ⟨hfilter, hrequired, hliteral, hunique, hexact, horder, hlimit⟩
      have hpresent : s.assignments ≠ none := by
        obtain ⟨a, as, has⟩ := hrequired
        simp [has]
      exact ⟨hfilter, ⟨hrequired, hliteral, hunique⟩, hexact hpresent, horder, hlimit⟩
  | update =>
    simp only [Kind.rules, List.forall_mem_cons, List.not_mem_nil, false_imp_iff, implies_true,
      and_true]
    constructor
    · rintro ⟨hfilter, hset, hnames, horder, hlimit⟩
      exact ⟨hset.nonempty, hset.literal, hset.distinct, hnames, hfilter, horder, hlimit⟩
    · rintro ⟨hrequired, hliteral, hunique, hknown, hfilter, horder, hlimit⟩
      exact ⟨hfilter, ⟨hrequired, hliteral, hunique⟩, hknown, horder, hlimit⟩

theorem validate_eq_ok : s.validate category = .ok () ↔ s.violation? category = none := by
  rw [validate]
  cases s.violation? category <;> simp

theorem validate_eq_error {fault : DescriptorFault} : s.validate category = .error fault ↔
    ∃ rule v, s.violation? category = some (rule, v) ∧ fault = .rule s.kind rule v := by
  rw [validate]
  cases s.violation? category with
  | none => simp
  | some found => simp [Prod.ext_iff, eq_comm]

theorem violation?_eq_none : s.violation? category = none ↔
    ∀ rule ∈ s.kind.rules, rule.Holds s category := by
  simp [violation?, List.findSome?_eq_none_iff, Rule.violation?_eq_none]

/-- The first rule that is broken is the one complained about. -/
theorem violation?_eq_some {rule : Rule} {v : Violation} :
    s.violation? category = some (rule, v) ↔
      ∃ before after, s.kind.rules = before ++ rule :: after ∧
        (∀ earlier ∈ before, earlier.Holds s category) ∧ ¬rule.Holds s category ∧
        v = rule.complaint s category := by
  rw [violation?, List.findSome?_eq_some_iff]
  simp only [Option.map_eq_none_iff, Rule.violation?_eq_none, Option.map_eq_some_iff,
    Prod.mk.injEq]
  constructor
  · rintro ⟨before, _, after, hrules, ⟨_, hfound, rfl, rfl⟩, hbefore⟩
    obtain ⟨hbroken, hv⟩ := Rule.violation?_eq_some.mp hfound
    exact ⟨before, after, hrules, hbefore, hbroken, hv⟩
  · rintro ⟨before, after, hrules, hbefore, hbroken, hv⟩
    exact ⟨before, rule, after, hrules, ⟨v, Rule.violation?_eq_some.mpr ⟨hbroken, hv⟩, rfl, rfl⟩,
      hbefore⟩

/-- The check of a statement, read or made by hand, decides the table of its kind. When it fails,
its fault is the complaint about the first rule of the kind that is broken. Complaints about names
list all of them in the order of the SET clause: those that recur, and those that no key has. -/
theorem validate_decides_table (s : Statement) (category : Category) :
    (s.validate category = .ok () ↔ s.Lawful category) ∧
    (∀ fault, s.validate category = .error fault ↔
      ∃ before rule after, s.kind.rules = before ++ rule :: after ∧
        (∀ earlier ∈ before, earlier.Holds s category) ∧ ¬rule.Holds s category ∧
        fault = .rule s.kind rule (rule.complaint s category)) ∧
    (∀ v, s.validate category = .error (.rule s.kind .setKeysUnique v) →
      v.message = "Duplicate key(s) in SET: '" ++
        ", ".intercalate (recurrences s.setNames) ++ "'") ∧
    ∀ v, s.validate category = .error (.rule s.kind .setKeysKnown v) →
      v.message = "Unknown key(s) in SET: '" ++
        ", ".intercalate (s.setNames.filter fun name => ¬category.Declares name) ++ "'" := by
  have hfault (fault : DescriptorFault) : s.validate category = .error fault ↔
      ∃ before rule after, s.kind.rules = before ++ rule :: after ∧
        (∀ earlier ∈ before, earlier.Holds s category) ∧ ¬rule.Holds s category ∧
        fault = .rule s.kind rule (rule.complaint s category) := by
    simp only [validate_eq_error, violation?_eq_some]
    constructor
    · rintro ⟨rule, v, ⟨before, after, hrules, hbefore, hbroken, rfl⟩, rfl⟩
      exact ⟨before, rule, after, hrules, hbefore, hbroken, rfl⟩
    · rintro ⟨before, rule, after, hrules, hbefore, hbroken, rfl⟩
      exact ⟨rule, _, ⟨before, after, hrules, hbefore, hbroken, rfl⟩, rfl⟩
  refine ⟨?_, hfault, ?_, ?_⟩
  · rw [validate_eq_ok, violation?_eq_none, lawful_iff]
  · intro v hv
    obtain ⟨_, rule, _, -, -, -, heq⟩ := (hfault _).mp hv
    cases heq
    rfl
  · intro v hv
    obtain ⟨_, rule, _, -, -, -, heq⟩ := (hfault _).mp hv
    cases heq
    rfl

end Statement
end CategoryStatements
