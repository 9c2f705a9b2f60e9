import CategoryStatements.Proofs.Directives

/-! Writes. The rules of a kind are checked when a statement is compiled, long before the store
hears of it. What the store is then told of a statement that binds still keeps them: a new entry
has every key of its category once, a change names its entries, and only queries are ordered or
limited. -/
namespace CategoryStatements

theorem mem_insertNamed {x name : String} {names : List String} :
    x ∈ insertNamed id name names ↔ x = name ∨ x ∈ names := by
  induction names with
  | nil => simp [insertNamed]
  | cons first rest ih =>
    simp only [insertNamed, id_eq]
    split
    · simp
    · split
      · next h => simp [h]
      · rw [List.mem_cons, ih, List.mem_cons]
        exact or_left_comm

theorem mem_foldl_insertNamed {x : String} {names ordered : List String} :
    x ∈ names.foldl (fun ordered name => insertNamed id name ordered) ordered ↔
      x ∈ ordered ∨ x ∈ names := by
  induction names generalizing ordered with
  | nil => simp
  | cons name names ih =>
    rw [List.foldl_cons, ih, mem_insertNamed, List.mem_cons, or_assoc, or_left_comm]

/-- Ordering names drops repetitions and nothing else. -/
theorem mem_distinctNames {x : String} {names : List String} :
    x ∈ distinctNames names ↔ x ∈ names := by
  rw [distinctNames, orderedByName, mem_foldl_insertNamed]
  simp

/-- Nothing is repeated when all names are new and no two are equal. -/
theorem repeatedNames_eq_nil {seen names : List String} :
    repeatedNames seen names = [] ↔ names.Nodup ∧ ∀ name ∈ names, name ∉ seen := by
  induction names generalizing seen with
  | nil => simp [repeatedNames]
  | cons name names ih =>
    rw [repeatedNames]
    split
    · next h => simp [h]
    · next h =>
      rw [ih, List.nodup_cons, List.forall_mem_cons]
      simp only [List.mem_cons, not_or, h, not_false_eq_true, true_and]
      constructor
      · rintro ⟨hnodup, hnew⟩
        exact ⟨⟨fun hmem => (hnew name hmem).1 rfl, hnodup⟩, fun x hx => (hnew x hx).2⟩
      · rintro ⟨⟨hname, hnodup⟩, hnew⟩
        exact ⟨hnodup, fun x hx => ⟨fun he => hname (he ▸ hx), hnew x hx⟩⟩

namespace Category

variable {category : Category} {name : String}

theorem mem_keyNames : name ∈ category.keyNames ↔ ∃ key ∈ category.keys, key.name = name := by
  rw [keyNames, mem_distinctNames, List.mem_map]

theorem hasKey_iff : category.hasKey name ↔ ∃ key ∈ category.keys, key.name = name := by
  simp [hasKey, key?]

end Category

namespace Directive

/-- The key that a directive gives a value to. -/
def assigned? : Directive → Option String
  | assign key _ => some key
  | _ => none

def isFilter : Directive → Bool
  | filter _ => true
  | _ => false

/-- Whether a directive orders or limits what is found. -/
def isArrangement : Directive → Bool
  | sort _ _ | limit _ => true
  | _ => false

end Directive

/-- What the store is told of a statement fits its kind and its category. -/
structure Kind.Fits (kind : Kind) (category : Category) (directives : List Directive) : Prop where
  complete : kind = .add ∨ kind = .replace →
    (directives.filterMap Directive.assigned?).Nodup ∧
      ∀ name, name ∈ directives.filterMap Directive.assigned? ↔
        ∃ key ∈ category.keys, key.name = name
  declared : kind = .update →
    directives.filterMap Directive.assigned? ≠ [] ∧
      (directives.filterMap Directive.assigned?).Nodup ∧
      ∀ name ∈ directives.filterMap Directive.assigned?, ∃ key ∈ category.keys, key.name = name
  unassigned : kind = .remove ∨ kind.isQuery → directives.filterMap Directive.assigned? = []
  filtered : kind = .replace ∨ kind = .update → directives.countP Directive.isFilter = 1
  unfiltered : kind = .add → directives.countP Directive.isFilter = 0
  filteredOnce : directives.countP Directive.isFilter ≤ 1
  unarranged : kind.isQuery = false → ∀ directive ∈ directives, directive.isArrangement = false

namespace Bound

variable (b : Bound)

/-- The directives of all clauses assign what the SET clause does, once for each pair. -/
theorem assigned_directives :
    (b.assignDirectives ++ b.filterDirectives ++ b.sortDirectives ++
      b.limitDirectives).filterMap Directive.assigned? = b.assignments.map Prod.fst := by
  have hassign : b.assignDirectives.filterMap Directive.assigned? = b.assignments.map Prod.fst := by
    rw [assignDirectives, List.filterMap_map, ← List.filterMap_eq_map]
    rfl
  have hfilter : b.filterDirectives.filterMap Directive.assigned? = [] := by
    cases hb : b.filter <;> simp [filterDirectives, hb, Directive.assigned?]
  have hsort : b.sortDirectives.filterMap Directive.assigned? = [] := by
    simp [sortDirectives, Directive.assigned?]
  have hlimit : b.limitDirectives.filterMap Directive.assigned? = [] := by
    cases hb : b.limit <;> simp [limitDirectives, hb, Directive.assigned?]
  simp [List.filterMap_append, hassign, hfilter, hsort, hlimit]

theorem countP_isFilter_directives :
    (b.assignDirectives ++ b.filterDirectives ++ b.sortDirectives ++
      b.limitDirectives).countP Directive.isFilter = b.filter.toList.length := by
  have hassign : b.assignDirectives.countP Directive.isFilter = 0 := by
    simp [assignDirectives, List.countP_eq_zero, Directive.isFilter]
  have hfilter : b.filterDirectives.countP Directive.isFilter = b.filter.toList.length := by
    cases hb : b.filter <;> simp [filterDirectives, hb, Directive.isFilter]
  have hsort : b.sortDirectives.countP Directive.isFilter = 0 := by
    simp [sortDirectives, List.countP_eq_zero, Directive.isFilter]
  have hlimit : b.limitDirectives.countP Directive.isFilter = 0 := by
    simp [limitDirectives, List.countP_eq_zero, Directive.isFilter]
  simp [hassign, hfilter, hsort, hlimit]

theorem isArrangement_directives {directive : Directive}
    (h : directive ∈ b.assignDirectives ++ b.filterDirectives) :
    directive.isArrangement = false := by
  rcases List.mem_append.mp h with h | h
  · obtain ⟨a, -, rfl⟩ := List.mem_map.mp h
    rfl
  · obtain ⟨c, -, rfl⟩ : ∃ c, b.filter = some c ∧ Directive.filter c = directive := by
      simpa [filterDirectives] using h
    rfl

end Bound

namespace Statement

variable {s : Statement} {category : Category} {ps : Parameters} {b : Bound}

/-- A pair that binds has a literal key, which is the key that it assigns to. -/
theorem keyName?_of_bind {a : Assignment} {pair : String × Value} (h : a.bind ps = .ok pair) :
    a.key.keyName? = some pair.1 := by
  have hliteral : a.key.placeholder? = none := by
    rw [Assignment.bind] at h
    split at h
    · cases h
    · next hp => simpa using hp
  cases Assignment.asks_of_bind h with
  | @assign key value _ _ named valued =>
    obtain ⟨l | p, isKey⟩ := key
    · cases named
      rfl
    · cases hliteral

/-- What is assigned when a statement binds is what its SET clause names. -/
theorem map_fst_assignments (hb : s.bind ps = .ok b) :
    b.assignments.map Prod.fst = s.assignedNames := by
  obtain ⟨hassign, -⟩ := bind_eq_ok.mp hb
  have hnames := (mapM_eq_ok.mp hassign).imp fun _ _ => keyName?_of_bind
  rw [assignedNames]
  generalize s.assignments.getD [] = as at hnames
  generalize b.assignments = pairs at hnames
  induction hnames with
  | nil => rfl
  | cons hname _ ih => simp [hname, ih]

/-- As many pairs are assigned as the SET clause has. -/
theorem length_assignedNames (hb : s.bind ps = .ok b) :
    s.assignedNames.length = (s.assignments.getD []).length := by
  obtain ⟨hassign, -⟩ := bind_eq_ok.mp hb
  rw [← map_fst_assignments hb, List.length_map, (mapM_eq_ok.mp hassign).length_eq]

theorem length_filter (hb : s.bind ps = .ok b) :
    b.filter.toList.length = s.filter.toList.length := by
  obtain ⟨-, hfilter, -⟩ := bind_eq_ok.mp hb
  have hasks : List.Forall₂ (WhereClause.Asks ps) s.filter.toList
      (b.filter.map Directive.filter).toList :=
    forall₂_of_mapM_option (fun _ _ => WhereClause.asks_of_bind) hfilter
  rw [hasks.length_eq]
  cases b.filter <;> rfl

theorem nodup_assignedNames (h : s.violation? category = none)
    (hrule : Rule.setKeysUnique ∈ s.kind.rules) : s.assignedNames.Nodup := by
  have hkept := rule_kept h hrule
  simp only [Rule.violation?] at hkept
  split at hkept
  · next hnil => exact (repeatedNames_eq_nil.mp hnil).1
  · cases hkept

/-- Names that are, as a set, those of the category. -/
theorem mem_assignedNames_iff (h : s.violation? category = none)
    (hrequired : Rule.setRequired ∈ s.kind.rules) (hrule : Rule.setKeysExact ∈ s.kind.rules)
    (name : String) : name ∈ s.assignedNames ↔ ∃ key ∈ category.keys, key.name = name := by
  have hpresent := rule_kept h hrequired
  have hkept := rule_kept h hrule
  have hsome : s.assignments ≠ none := by
    intro hnone
    simp [Rule.violation?, hnone] at hpresent
  have hequal : category.keyNames = distinctNames s.assignedNames := by
    simpa [Rule.violation?, hsome] using hkept
  rw [← Category.mem_keyNames, hequal, mem_distinctNames]

theorem declared_of_mem_assignedNames (h : s.violation? category = none)
    (hrule : Rule.setKeysKnown ∈ s.kind.rules) :
    ∀ name ∈ s.assignedNames, ∃ key ∈ category.keys, key.name = name := by
  have hkept := rule_kept h hrule
  simp only [Rule.violation?] at hkept
  split at hkept
  · next hnil =>
    intro name hname
    have hknown := List.filter_eq_nil_iff.mp hnil name hname
    exact Category.hasKey_iff.mp (by simpa using hknown)
  · cases hkept

theorem assignedNames_ne_nil (h : s.violation? category = none)
    (hrule : Rule.setRequired ∈ s.kind.rules) (hb : s.bind ps = .ok b) :
    s.assignedNames ≠ [] := by
  have hkept := rule_kept h hrule
  have hlength := length_assignedNames hb
  intro hnil
  rw [hnil, List.length_nil, eq_comm, List.length_eq_zero_iff] at hlength
  simp [Rule.violation?, hlength] at hkept

theorem length_filter_of_required (h : s.violation? category = none)
    (hrule : Rule.whereRequired ∈ s.kind.rules) : s.filter.toList.length = 1 := by
  have hkept := rule_kept h hrule
  cases hfilter : s.filter with
  | none => simp [Rule.violation?, hfilter] at hkept
  | some clause => rfl

/-- The directives of a statement that keeps its rules fit its kind. -/
theorem fits_directives (h : s.violation? category = none) (hb : s.bind ps = .ok b) :
    s.kind.Fits category (b.directives s.kind) := by
  obtain ⟨hset, hfilter, -, -⟩ := forbidden_clauses h
  have hnames := b.assigned_directives.trans (map_fst_assignments hb)
  have hfilters := b.countP_isFilter_directives.trans (length_filter hb)
  rw [← directives_eq h hb] at hnames hfilters
  constructor
  case complete =>
    intro hkind
    rw [hnames]
    have hrules : Rule.setRequired ∈ s.kind.rules ∧ Rule.setKeysUnique ∈ s.kind.rules ∧
        Rule.setKeysExact ∈ s.kind.rules := by
      rcases hkind with hkind | hkind <;> rw [hkind] <;> decide
    exact ⟨nodup_assignedNames h hrules.2.1, mem_assignedNames_iff h hrules.1 hrules.2.2⟩
  case declared =>
    intro hkind
    rw [hnames]
    have hrules : Rule.setRequired ∈ s.kind.rules ∧ Rule.setKeysUnique ∈ s.kind.rules ∧
        Rule.setKeysKnown ∈ s.kind.rules := by
      rw [hkind]
      decide
    exact ⟨assignedNames_ne_nil h hrules.1 hb, nodup_assignedNames h hrules.2.1,
      declared_of_mem_assignedNames h hrules.2.2⟩
  case unassigned =>
    intro hkind
    have hrule : Rule.setForbidden ∈ s.kind.rules := by
      rcases hkind with hkind | hkind
      · rw [hkind]
        decide
      · generalize s.kind = kind at hkind
        cases kind <;> first | decide | cases hkind
    rw [hnames, assignedNames, hset hrule]
    rfl
  case filtered =>
    intro hkind
    rw [hfilters]
    apply length_filter_of_required h
    rcases hkind with hkind | hkind <;> rw [hkind] <;> decide
  case unfiltered =>
    intro hkind
    rw [hfilters, hfilter (by rw [hkind]; decide)]
    rfl
  case filteredOnce =>
    rw [hfilters]
    cases s.filter <;> simp
  case unarranged =>
    intro hkind directive hmem
    apply b.isArrangement_directives
    generalize s.kind = kind at hkind hmem
    cases kind with
    | query | count | distinct => cases hkind
    | add => exact List.mem_append_left _ hmem
    | replace | update => exact hmem
    | remove => exact List.mem_append_right _ hmem

end Statement

/-- Writes that reach the store are well formed. Binding calls the store for a duplicate, which
has the kind of the statement, and after that tells it of nothing but the duplicate. A statement
that adds or replaces assigns each key of its category once and no other, one that updates assigns
some of them and none twice; what replaces or updates has one filter; neither a removal nor a query
assigns anything; and nothing but a query is sorted or limited. -/
theorem Compiled.bind_fits_kind {d : Descriptor} {c : Compiled} {ps : Parameters}
    {host host₁ host₂ host₃ : Host} {handle : Handle}
    (hcompile : d.compile host = (.ok c, host₁))
    (hbind : c.bind ps host₂ = (.ok handle, host₃)) :
    handle.kind = c.kind ∧ ∃ directives, c.kind.Fits d.category directives ∧
      host₃.calls =
        host₂.calls ++ .duplicate c.template handle :: directives.map (.direct handle) := by
  obtain ⟨-, hrules, hkind⟩ := Descriptor.compile_eq_ok hcompile
  obtain ⟨rfl, b, hb, hcalls⟩ := bind_eq_ok hbind
  rw [hkind] at hcalls
  exact ⟨hkind, _, Statement.fits_directives hrules hb, by rw [hcalls, hkind]⟩

theorem Compiled.bind_fits_kind_replace :
    ∃ (c : Compiled) (host₁ host₂ : Host) (handle : Handle) (directives : List Directive),
      Descriptor.compile ⟨⟨"c", [⟨"k", some ⟨.long, true⟩⟩, ⟨"m", none⟩, ⟨"k", none⟩]⟩,
        "REPLACE c SET 'm' = ?i , k = 'y' WHERE k = 'x'"⟩ {} = (.ok c, host₁) ∧
      c.bind ⟨[some (.int 7)]⟩ host₁ = (.ok handle, host₂) ∧ handle.kind = .replace ∧
      Kind.replace.Fits ⟨"c", [⟨"k", some ⟨.long, true⟩⟩, ⟨"m", none⟩, ⟨"k", none⟩]⟩ directives ∧
      host₂.calls =
        host₁.calls ++ .duplicate c.template handle :: directives.map (.direct handle) := by
  let category : Category := ⟨"c", [⟨"k", some ⟨.long, true⟩⟩, ⟨"m", none⟩, ⟨"k", none⟩]⟩
  let s : Statement :=
    { kind := .replace, category := "c"
      assignments := some [⟨⟨.literal (.string "m"), true⟩, ⟨.placeholder ⟨0, .int, false⟩, false⟩⟩,
        ⟨⟨.literal (.string "k"), true⟩, ⟨.literal (.string "y"), false⟩⟩]
      filter := some ⟨some (.compare ⟨.literal (.string "k"), true⟩ .equal
        ⟨.literal (.string "x"), false⟩)⟩
      placeholders := 1 }
  have hparse : parse category "REPLACE c SET 'm' = ?i , k = 'y' WHERE k = 'x'" = .ok s := by
    decide +kernel
  obtain ⟨c, hc, -, host₁, hcompile⟩ :=
    Descriptor.compile_of_parse (d := ⟨category, _⟩) hparse (by decide +kernel) {}
  have hok : c.statement.bind ⟨[some (.int 7)]⟩ =
      .ok ⟨[("m", .int 7), ("k", .string "y")], some (.compare "k" .equal (.string "x")), [],
        none⟩ := by
    rw [hc]
    rfl
  obtain ⟨host₂, hbind, -⟩ := bind_of_ok hok host₁
  obtain ⟨hcopy, directives, hfits, hcalls⟩ := bind_fits_kind hcompile hbind
  rw [kind, hc] at hcopy hfits
  exact ⟨c, host₁, host₂, _, directives, hcompile, hbind, hcopy, hfits, hcalls⟩

end CategoryStatements
