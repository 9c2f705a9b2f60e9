import CategoryStatements.Proofs.FirstFault
import CategoryStatements.Proofs.Isolation

/-! Placeholders and the tokens that spell them. Behind the name of the category every token that
starts with a question mark is one placeholder, and no other token is. The placeholders of a
statement therefore follow these tokens: in number, in order and in type. A prepared statement has
a parameter for each of them at all times, so that binding never looks for one in vain. -/
namespace CategoryStatements

/-- Whether a token starts like a placeholder. -/
def startsPlaceholder (text : String) : Bool := text.toList.head? == some '?'

namespace Statement

/-- The terms of a statement with their clauses, in the order of the text. Those of a filter come
in the order of their numbers. -/
def terms (s : Statement) : List (Clause × Term) :=
  (s.assignments.getD []).flatMap (fun a => [(.set, a.key), (.set, a.value)]) ++
    s.filter.toList.flatMap (fun clause => clause.arena.terms.map fun t => (.filter, t)) ++
    (s.order.getD []).map (fun k => (.sort, k.key)) ++
    s.limit.toList.map fun t => (.limit, t)

/-- The placeholders among the terms. -/
def placeholdersInText (s : Statement) : List (Clause × Placeholder) :=
  s.terms.filterMap fun t => t.2.placeholder?.map fun p => (t.1, p)

/-- The placeholders of a statement are those that tokens spell, one for each token. -/
structure SpelledBy (s : Statement) (tokens : List Token) : Prop where
  count : s.placeholders = tokens.length
  indices : s.placeholdersInText.map (fun p => p.2.index) = List.range s.placeholders
  types : s.placeholdersInText.map (fun p => p.2.type.spelling) = tokens.map Token.text
  inFilter : ∀ p, (.filter, p) ∈ s.placeholdersInText →
    p.type.isList = false ∧ p.type.element ≠ .record
  inOrder : ∀ p, (.sort, p) ∈ s.placeholdersInText → p.type = ⟨.string, false⟩
  inLimit : ∀ p, (.limit, p) ∈ s.placeholdersInText → p.type = ⟨.int, false⟩

end Statement

/-- The terms of a filter are numbered in the order of the text. -/
theorem Filter.flatMap_terms_layout (f : Filter) (base : Nat) (root parent : Option Nat) :
    (Arena.mk root (f.layout base parent)).terms.flatMap (Term.occurrences .filter) =
      f.occurrences := by
  simp only [Arena.terms]
  induction f generalizing base parent with
  | compare key op value => simp [layout, occurrences]
  | not inner ih =>
    rw [layout, List.filterMap_cons_none rfl, ih]
    rfl
  | combine op left right ihl ihr =>
    rw [layout, List.filterMap_append, List.filterMap_cons_none rfl, List.flatMap_append, ihl, ihr]
    rfl

theorem WhereClause.flatMap_terms_arena (clause : WhereClause) :
    clause.arena.terms.flatMap (Term.occurrences .filter) = clause.occurrences := by
  obtain ⟨_ | f⟩ := clause
  · rfl
  · simpa [occurrences, arena] using f.flatMap_terms_layout 0 (some (f.top 0)) none

namespace Statement

theorem occurrences_eq_flatMap_terms (s : Statement) :
    s.occurrences = s.terms.flatMap fun t => t.2.occurrences t.1 := by
  simp only [terms, List.flatMap_append, List.flatMap_map, List.flatMap_assoc,
    WhereClause.flatMap_terms_arena, List.flatMap_cons, List.flatMap_nil, List.append_nil]
  rfl

theorem placeholdersInText_eq (s : Statement) :
    s.placeholdersInText = s.occurrences.map fun o => (o.clause, o.placeholder) := by
  rw [occurrences_eq_flatMap_terms, placeholdersInText, List.filterMap_eq_flatMap_toList,
    List.map_flatMap]
  congr
  funext t
  cases h : t.2.placeholder? <;> simp [Term.occurrences, h]

theorem Suits.permits {s : Statement} (h : s.Suits) :
    ∀ o ∈ s.occurrences, o.clause.permits o.type := by
  have hterm {clause : Clause} {isKey : Bool} {t : Term} (ht : t.Suits clause isKey) :
      ∀ o ∈ t.occurrences clause, o.clause.permits o.type := by
    intro o ho
    obtain ⟨p, hp, rfl⟩ := Term.mem_occurrences.mp ho
    exact ht.permitted p hp
  have hfilter (f : Filter) (hf : f.Suits) : ∀ o ∈ f.occurrences, o.clause.permits o.type := by
    induction f with
    | compare key op value => exact List.forall_mem_append.mpr ⟨hterm hf.1, hterm hf.2⟩
    | not inner ih => exact ih hf
    | combine op left right ihl ihr => exact List.forall_mem_append.mpr ⟨ihl hf.1, ihr hf.2⟩
  simp only [occurrences, List.forall_mem_append, List.mem_flatMap, forall_exists_index, and_imp]
  refine ⟨⟨⟨?_, ?_⟩, ?_⟩, ?_⟩
  · intro o a ha
    exact List.forall_mem_append.mpr ⟨hterm (h.assignments a ha).1, hterm (h.assignments a ha).2⟩ o
  · intro o clause hclause
    obtain ⟨f, hroot, hf⟩ := h.filter clause (by simpa using hclause)
    simpa [WhereClause.occurrences, hroot] using hfilter f hf o
  · exact fun o k hk => hterm (h.order k hk) o
  · exact fun o t ht => hterm (h.limit t (by simpa using ht)).1 o

end Statement

section Spelling

theorem startsPlaceholder_spelling (type : ParamType) : startsPlaceholder type.spelling := by
  cases hlist : type.isList <;> simp [startsPlaceholder, ParamType.spelling, hlist]

theorem TermToken.startsPlaceholder_eq {clause : Clause} {isKey : Bool} {text : String}
    {l : Literal} (h : TermToken clause isKey text (.literal l)) :
    startsPlaceholder text = false := by
  have hread : readToken clause isKey ⟨text, ⟨0, 0⟩⟩ = .ok (.literal l) :=
    readToken_of_termToken h rfl
  by_contra hstarts
  have hhead : text.toList.head? = some '?' := by simpa [startsPlaceholder] using hstarts
  simp only [readToken, h.not_structural, hhead, Bool.false_eq_true, if_false, if_true] at hread
  split at hread
  · cases hread
  · split at hread <;> cases hread

/-- A token is a placeholder, and then it spells its type, or it does not start like one. -/
theorem TermPhrase.filter_text {clause : Clause} {isKey : Bool} (p : TermPhrase clause isKey)
    (n : Nat) (clause' : Clause) :
    ((p.reading.term isKey n).occurrences clause').map (fun o => o.type.spelling) =
      [p.text].filter startsPlaceholder := by
  obtain ⟨text, reading, hderives⟩ := p
  cases reading with
  | literal l =>
    simp [Reading.term, Term.occurrences, Term.placeholder?, hderives.startsPlaceholder_eq]
  | placeholder type =>
    obtain rfl : text = type.spelling := by
      cases hderives
      exact type.word_eq
    simp [Reading.term, Term.occurrences, Term.placeholder?, Occurrence.type,
      startsPlaceholder_spelling]

namespace Phrasing

variable {P : Phrasing φ α} {occurrences : α → List Occurrence}

/-- The placeholders of every meaning are spelled, one by one, by the texts that start like one. -/
def Spells (P : Phrasing φ α) (occurrences : α → List Occurrence) : Prop :=
  ∀ n p, (occurrences (P.value n p)).map (fun o => o.type.spelling) =
    (P.texts p).filter startsPlaceholder

theorem Spells.chain (h : P.Spells occurrences) {separator : String}
    (hsep : startsPlaceholder separator = false) :
    (P.chain separator).Spells fun as => occurrences as.1 ++ as.2.flatMap occurrences := by
  have hothers (n : Nat) (ps : List φ) :
      ((P.values n ps).flatMap occurrences).map (fun o => o.type.spelling) =
        (ps.flatMap fun q => separator :: P.texts q).filter startsPlaceholder := by
    induction ps generalizing n with
    | nil => rfl
    | cons p ps ih =>
      rw [values, List.flatMap_cons, List.flatMap_cons, List.map_append, List.filter_append, h n p,
        ih, List.filter_cons_of_neg (by simp [hsep])]
  intro n p
  simp only [Phrasing.chain, List.map_append, List.filter_append]
  rw [h n p.first, hothers]

theorem Spells.map (h : P.Spells occurrences) {f : α → β} {occurrences' : β → List Occurrence}
    (hf : ∀ a, occurrences' (f a) = occurrences a) : (P.map f).Spells occurrences' := by
  intro n p
  simp only [Phrasing.map, hf]
  exact h n p

theorem Spells.clause (h : P.Spells occurrences) (word : String)
    (hword : startsPlaceholder word = false) :
    (P.clause word).Spells fun a => a.toList.flatMap occurrences := by
  rintro n (_ | p)
  · rfl
  · simpa [Phrasing.clause, hword] using h n p

/-- A clause of items with commas between them. -/
theorem Spells.listClause (h : P.Spells occurrences) (word : String)
    (hword : startsPlaceholder word = false) :
    (((P.chain ",").map fun as => as.1 :: as.2).clause word).Spells fun as =>
      (as.getD []).flatMap occurrences := by
  have hlist : ((P.chain ",").map fun as => as.1 :: as.2).Spells fun as =>
      as.flatMap occurrences := (h.chain (by decide)).map fun _ => rfl
  rintro n (_ | p)
  · rfl
  · simpa [Phrasing.clause] using hlist.clause word hword n (some p)

end Phrasing

/-- Two terms with a text between them that is no placeholder. -/
theorem filter_around (key value : String) {text : String} (h : startsPlaceholder text = false) :
    [key, text, value].filter startsPlaceholder =
      [key].filter startsPlaceholder ++ [value].filter startsPlaceholder := by
  have htext : [text, value].filter startsPlaceholder = [value].filter startsPlaceholder :=
    List.filter_cons_of_neg (by simp [h])
  rw [← htext, ← List.filter_append]
  rfl

theorem PairPhrase.spells : PairPhrase.phrasing.Spells Assignment.occurrences := by
  intro n p
  simp only [phrasing, Assignment.occurrences, List.map_append, TermPhrase.filter_text]
  exact (filter_around p.key.text p.value.text (by decide)).symm

theorem ComparisonPhrase.spells : ComparisonPhrase.phrasing.Spells Filter.occurrences := by
  intro n p
  have hop : startsPlaceholder p.op.word = false := by cases p.op <;> decide
  simp only [phrasing, Filter.occurrences, List.map_append, TermPhrase.filter_text]
  exact (filter_around p.key.text p.value.text hop).symm

theorem ConditionPhrase.spells : ConditionPhrase.phrasing.Spells Filter.occurrences := by
  intro n p
  have hnot : startsPlaceholder "NOT" = false := by decide
  induction p with
  | compare p => exact ComparisonPhrase.spells n p
  | not p ih =>
    change _ = ("NOT" :: p.texts).filter startsPlaceholder
    rw [List.filter_cons_of_neg (by simp [hnot])]
    exact ih

theorem MemberPhrase.spells : MemberPhrase.phrasing.Spells SortKey.occurrences := by
  intro n p
  have hdirection : startsPlaceholder p.direction.spelling = false := by
    cases p.direction <;> decide
  simp only [phrasing, SortKey.occurrences, TermPhrase.filter_text]
  simp [List.filter_cons, hdirection]

theorem LimitPhrase.spells : LimitPhrase.phrasing.Spells (Term.occurrences .limit) := by
  intro n p
  exact TermPhrase.filter_text ⟨p.text, p.reading, (limitToken_iff.mp p.derives).1⟩ n .limit

theorem disjunctions_spells : disjunctions.Spells Filter.occurrences := by
  have hand : conjunctions.Spells Filter.occurrences :=
    (ConditionPhrase.spells.chain (by decide)).map fun fs => Filter.occurrences_join .and fs.1 fs.2
  exact (hand.chain (by decide)).map fun fs => Filter.occurrences_join .or fs.1 fs.2

theorem StatementPhrase.map_spelling_occurrences {category : Category}
    (p : StatementPhrase category) :
    p.statement.occurrences.map (fun o => o.type.spelling) =
      p.clauseTexts.filter startsPlaceholder := by
  have hset := PairPhrase.spells.listClause "SET" (by decide) 0 p.assignments
  have hfilter := disjunctions_spells.clause "WHERE" (by decide) (setClause.holes p.assignments)
    p.filter
  have horder := MemberPhrase.spells.listClause "SORT" (by decide)
    (setClause.holes p.assignments + whereClause.holes p.filter) p.order
  have hlimit := LimitPhrase.spells.clause "LIMIT" (by decide) (setClause.holes p.assignments +
    whereClause.holes p.filter + sortClause.holes p.order) p.limit
  rw [Statement.occurrences, p.occurrences_filter, clauseTexts]
  simp only [List.map_append, List.filter_append, List.append_assoc]
  exact congrArg₂ _ hset (congrArg₂ _ hfilter (congrArg₂ _ horder hlimit))

end Spelling

/-- What is read is spelled by the tokens behind the name of the category. -/
theorem spelledBy_of_parse {category : Category} {text : String} {s : Statement}
    (h : parse category text = .ok s) :
    ∃ kind name clauses, tokenize text = kind :: name :: clauses ∧
      unquote name.text = category.name ∧
      s.SpelledBy (clauses.filter fun token => startsPlaceholder token.text) := by
  have hindex := map_index_of_parse h
  have hpermits := (suits_of_parse h).permits
  obtain ⟨p, htexts, rfl⟩ := parseTokens_eq_ok.mp h
  obtain ⟨kind, rest, htokens, -, hrest⟩ := List.map_eq_cons_iff.mp htexts.symm
  obtain ⟨name, clauses, rfl, hname, hclauses⟩ := List.map_eq_cons_iff.mp hrest
  have hspelling : p.statement.occurrences.map (fun o => o.type.spelling) =
      (clauses.filter fun token => startsPlaceholder token.text).map Token.text := by
    rw [p.map_spelling_occurrences, ← hclauses, List.filter_map]
    rfl
  have hclause {clause : Clause} {q : Placeholder}
      (hmem : (clause, q) ∈ p.statement.placeholdersInText) : clause.permits q.type := by
    rw [Statement.placeholdersInText_eq] at hmem
    obtain ⟨o, ho, heq⟩ := List.mem_map.mp hmem
    cases heq
    exact hpermits o ho
  have hcategory : unquote name.text = category.name := by
    rw [hname]
    exact unquote_eq_iff.mpr p.category.names
  refine ⟨kind, name, clauses, htokens, hcategory, ?_, ?_, ?_, ?_, ?_, ?_⟩
  · have hcount := congrArg List.length hindex
    have hlength := congrArg List.length hspelling
    simp only [List.length_map, List.length_range] at hcount hlength
    rw [← hcount, hlength]
  · rw [Statement.placeholdersInText_eq, List.map_map]
    exact hindex
  · rw [Statement.placeholdersInText_eq, List.map_map]
    exact hspelling
  · intro q hmem
    simpa [Clause.permits] using hclause hmem
  · intro q hmem
    exact beq_iff_eq.mp (hclause hmem)
  · intro q hmem
    exact beq_iff_eq.mp (hclause hmem)

namespace Session

variable {capacity : Nat} {behaviour : Behaviour} {commands : List Command} {slot : String}
  {p : Prepared}

/-- Whatever the commands, a statement in a slot has one parameter for each placeholder. -/
theorem size_parameters_of_run
    (hslot : ((fresh capacity behaviour).run commands).2.slot? slot = some p) :
    p.parameters.size = p.compiled.statement.placeholders := by
  have hfresh : (fresh capacity behaviour).Recalls (lastSet []) := by
    intro slot p hp
    simp [fresh, slot?] at hp
  exact (hfresh.run commands slot p hslot).size

/-- A statement in a slot was compiled from a descriptor. -/
theorem compiled_of_run
    (hslot : ((fresh capacity behaviour).run commands).2.slot? slot = some p) :
    ∃ (d : Descriptor) (host next : Host) (c : Compiled), d.compile host = (.ok c, next) ∧
      c.statement = p.compiled.statement := by
  have hsound := (sound_fresh capacity behaviour).run commands
  have hchecked := (hsound.backed _ (.slotted slot p hslot rfl)).checked
  obtain ⟨next, hcompile, -⟩ := Descriptor.compile_of_ok hchecked {}
  exact ⟨_, _, next, _, hcompile, rfl⟩

end Session

/-- A placeholder is out of range only when the parameters are too few. -/
theorem Occurrence.le_index_of_fault? {ps : Parameters} {o : Occurrence} {index count : Nat}
    (h : o.fault? ps = some (.indexOutOfRange index count)) : ps.size ≤ o.index := by
  unfold fault? at h
  split at h
  · next hnone => exact List.getElem?_eq_none_iff.mp hnone
  · cases h
  · split at h
    · split at h <;> cases h
    · cases h

theorem Prepared.bind_ne_indexOutOfRange {d : Descriptor} {c : Compiled} {p : Prepared}
    {host next : Host} (hcompile : d.compile host = (.ok c, next))
    (hstatement : c.statement = p.compiled.statement)
    (hsize : p.parameters.size = p.compiled.statement.placeholders) (host' : Host)
    (index count : Nat) : (p.bind host').1 ≠ .error (.indexOutOfRange index count) := by
  intro hbind
  have herror : p.bind host' = (.error (.indexOutOfRange index count), (p.bind host').2) :=
    Prod.ext hbind rfl
  obtain ⟨hparse, -, -⟩ := Descriptor.compile_eq_ok hcompile
  have hindex := map_index_of_parse hparse
  have hfault := (Compiled.bind_eq_error_iff.mp herror).2
  rw [← hstatement, Compiled.faultOf_bind_statement hcompile, firstFault_eq_some hindex] at hfault
  obtain ⟨o, hmem, ho, -⟩ := hfault
  have hlt : o.index ∈ List.range c.statement.placeholders := hindex ▸ List.mem_map_of_mem hmem
  have hle := o.le_index_of_fault? ho
  rw [List.mem_range, hstatement, ← hsize] at hlt
  omega

/-- Placeholders follow the tokens that spell them. In an accepted text each token behind the name
of the category that starts with a question mark is one placeholder; they are numbered from zero in
the order of the text and have the types that the tokens spell, which their clauses permit. After
any commands the statement in a slot has a parameter for every one of its placeholders, and binding
it never finds an index out of range. -/
theorem placeholders_follow_tokens :
    (∀ category text s, parse category text = .ok s →
      ∃ kind name clauses, tokenize text = kind :: name :: clauses ∧
        unquote name.text = category.name ∧
        s.SpelledBy (clauses.filter fun token => startsPlaceholder token.text)) ∧
    ∀ capacity behaviour commands slot p,
      ((Session.fresh capacity behaviour).run commands).2.slot? slot = some p →
        p.parameters.size = p.compiled.statement.placeholders ∧
        (∀ q ∈ p.compiled.statement.placeholdersInText,
          ∃ entry, p.parameters.values[q.2.index]? = some entry) ∧
        ∀ host index count, (p.bind host).1 ≠ .error (.indexOutOfRange index count) := by
  refine ⟨fun category text s => spelledBy_of_parse, ?_⟩
  intro capacity behaviour commands slot p hslot
  have hsize := Session.size_parameters_of_run hslot
  obtain ⟨d, host, next, c, hcompile, hstatement⟩ := Session.compiled_of_run hslot
  refine ⟨hsize, ?_, Prepared.bind_ne_indexOutOfRange hcompile hstatement hsize⟩
  intro q hq
  obtain ⟨_, _, _, -, -, hspelled⟩ := spelledBy_of_parse (Descriptor.compile_eq_ok hcompile).1
  have hmem : q.2.index ∈ p.compiled.statement.placeholdersInText.map fun p => p.2.index :=
    List.mem_map_of_mem hq
  rw [← hstatement, hspelled.indices, List.mem_range, hstatement, ← hsize] at hmem
  exact ⟨_, List.getElem?_eq_getElem hmem⟩

/-- A quoted text that looks like a placeholder is none, and an index that is out of range is
refused when its value is set. -/
theorem placeholders_follow_tokens_query :
    let d : Descriptor :=
      ⟨⟨"c", []⟩, "QUERY c WHERE NOT ?s = '?i' OR k < ?d SORT ?s ASC LIMIT ?i"⟩
    ∃ (s : Statement) (p : Prepared), parse d.category d.text = .ok s ∧ s.placeholders = 4 ∧
      s.placeholdersInText.map (fun p => p.2.type.spelling) = ["?s", "?d", "?s", "?i"] ∧
      ((Session.fresh 1 {}).run [.prepare "p" d, .set "p" 3 (.ready (.int 5)),
        .set "p" 4 (.ready (.int 5))]).2.slot? "p" = some p ∧
      p.parameters.size = 4 ∧
      ∀ host index count, (p.bind host).1 ≠ .error (.indexOutOfRange index count) := by
  intro d
  let s : Statement :=
    { kind := .query, category := "c"
      filter := some ⟨some (.combine .or
        (.not (.compare ⟨.placeholder ⟨0, .string, false⟩, true⟩ .equal
          ⟨.literal (.string "?i"), false⟩))
        (.compare ⟨.literal (.string "k"), true⟩ .less ⟨.placeholder ⟨1, .double, false⟩, false⟩))⟩
      order := some [⟨⟨.placeholder ⟨2, .string, false⟩, true⟩, .ascending⟩]
      limit := some ⟨.placeholder ⟨3, .int, false⟩, false⟩
      placeholders := 4 }
  have hparse : parse d.category d.text = .ok s := by decide +kernel
  have hcheck : d.check = .ok s := by decide +kernel
  have htexts : (((tokenize d.text).drop 2).filter fun token =>
      startsPlaceholder token.text).map Token.text = ["?s", "?d", "?s", "?i"] := by
    decide +kernel
  obtain ⟨kind, name, clauses, htokens, -, hspelled⟩ :=
    placeholders_follow_tokens.1 d.category d.text s hparse
  rw [htokens] at htexts
  obtain ⟨next, hprepare, -⟩ := Prepared.prepare_of_ok hcheck (Session.fresh 1 {}).host
  let p : Prepared := ⟨⟨d, s, ⟨0, .query⟩⟩, ⟨[none, none, none, some (.int 5)]⟩⟩
  have hslot : ((Session.fresh 1 {}).run [.prepare "p" d, .set "p" 3 (.ready (.int 5)),
      .set "p" 4 (.ready (.int 5))]).2.slot? "p" = some p := by
    rw [Session.run, Session.step, hprepare]
    rfl
  obtain ⟨hsize, -, hbind⟩ := placeholders_follow_tokens.2 1 {} _ "p" p hslot
  exact ⟨s, p, hparse, rfl, hspelled.types.trans htexts, hslot, hsize, hbind⟩

end CategoryStatements
