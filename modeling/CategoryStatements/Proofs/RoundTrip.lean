import CategoryStatements.Proofs.Canonical

/-! Round trips. A statement is written with its kind, its aggregate key and the name of its
category as they are, without quotes. What was read is read again from what is written exactly
when name and key can stand there without quotes; the clauses never are in the way. -/
namespace CategoryStatements

theorem parse_eq_ok {category : Category} {text : String} {s : Statement} :
    parse category text = .ok s ↔
      ∃ p : StatementPhrase category, p.texts = tokenTexts text ∧ p.statement = s := by
  rw [parse, parseTokens_eq_ok, map_text_tokenize]

theorem length_quoted (text : String) : (quoted text).length = text.length + 2 := by
  rw [← String.length_toList, toList_quoted]
  simp [String.length_toList]

theorem unquote_eq_self_of_length_le {text : String} (h : text.length ≤ (unquote text).length) :
    unquote text = text := by
  rcases unquote_cases text with hq | hq
  · have := length_quoted (unquote text)
    rw [← hq] at this
    omega
  · exact hq

theorem mem_of_mem_unquote {text : String} {c : Char} (h : c ∈ (unquote text).toList) :
    c ∈ text.toList := by
  rcases unquote_cases text with hq | hq
  · rw [hq, toList_quoted]
    simp [h]
  · rwa [hq] at h

theorem unquote_eq_self_of_not_mem {text : String} (h : quoteMark ∉ text.toList) :
    unquote text = text := by
  rcases unquote_cases text with hq | hq
  · rw [hq, toList_quoted] at h
    simp at h
  · exact hq

theorem isToken_of_length_tokenize {text : String} (hd : ∀ c ∈ text.toList, ¬isDelimiter c)
    (h : (tokenize text).length = 1) : IsToken text := by
  have hall := flatten_lexemes text.toList
  rw [List.filter_eq_self.mpr (by simpa using hd)] at hall
  have hlen : (lexemes text.toList).length = 1 := by
    rw [← h, ← List.length_map Token.text, map_text_tokenize, tokenTexts, List.length_map]
  obtain ⟨w, hw⟩ := List.length_eq_one_iff.mp hlen
  rw [isToken_iff, IsLexeme, hw, ← hall, hw, List.flatten_singleton]

theorem IsToken.length_tokenize {text : String} (h : IsToken text) :
    (tokenize text).length = 1 := by
  rw [← List.length_map Token.text, map_text_tokenize, h]
  rfl

/-- A name that was read and that is one token is its own name. -/
theorem CategoryPhrase.plain {category : Category} (p : CategoryPhrase category)
    (ht : IsToken p.text) (h : (tokenize category.name).length = 1) :
    IsToken category.name ∧ unquote category.name = category.name := by
  have hnames := unquote_eq_iff.mpr p.names
  rcases unquote_cases p.text with hq | hq
  · rw [hnames] at hq
    rw [hq, isToken_iff, toList_quoted] at ht
    have hinner := isLexeme_quoted.mp ht
    exact ⟨isToken_of_length_tokenize (fun c hc => (hinner c hc).2) h,
      unquote_eq_self_of_not_mem fun hmem => (hinner _ hmem).1 rfl⟩
  · rw [← hnames, hq]
    exact ⟨ht, hq⟩

theorem Kind.wordChars_spelling (kind : Kind) : ∃ c cs, kind.spelling.toList = c :: cs ∧
    c ≠ quoteMark ∧ c ≠ '!' ∧ ∀ x ∈ c :: cs, isWordChar x := by
  cases kind <;> exact ⟨_, _, rfl, by decide, by decide, List.all_eq_true.mp (by decide)⟩

/-- A kind with a key behind it is one token exactly when nothing in the key ends a word. -/
theorem isToken_keyed {kind : Kind} {key : String} :
    IsToken (kind.spelling ++ "(" ++ key ++ ")") ↔ ∀ c ∈ key.toList, isWordChar c := by
  obtain ⟨c, cs, hspell, hq, hmark, hword⟩ := kind.wordChars_spelling
  have htext : (kind.spelling ++ "(" ++ key ++ ")").toList =
      c :: (cs ++ '(' :: (key.toList ++ [')'])) := by
    simp [hspell]
  rw [isToken_iff, htext]
  constructor
  · intro h
    have hc := hword c (by simp)
    simp only [isWordChar, Bool.and_eq_true, bne_iff_ne, ne_eq] at hc
    have hm : markLength (c :: (cs ++ '(' :: (key.toList ++ [')']))) = 0 := by
      cases cs <;> grind [markLength_cons]
    intro x hx
    exact wordChars_of_isLexeme hq hm h x (by simp [hx])
  · intro h
    refine isLexeme_word hq ?_
    simp only [List.forall_mem_cons, List.forall_mem_append] at hword ⊢
    exact ⟨hword.1, hword.2, by decide, h, by decide, by simp⟩

theorem readKind?_empty_key (kind : Kind) :
    readKind? (kind.spelling ++ "(" ++ "" ++ ")") = none := by
  cases kind <;> decide +kernel

/-- What a header takes to be written without quotes: the name of the category is one token, and
the aggregate key is not empty and has no quotes around it. -/
def PlainHeader (category : Category) (key : Option String) : Prop :=
  (tokenize category.name).length = 1 ∧ ∀ k ∈ key, k ≠ "" ∧ unquote k = k

instance (category : Category) (key : Option String) : Decidable (PlainHeader category key) :=
  inferInstanceAs (Decidable (_ ∧ _))

namespace StatementPhrase

variable {category : Category} (p : StatementPhrase category)

/-- An aggregate key is always written inside one token. -/
theorem isToken_kindText (ht : IsToken p.kind.text) : IsToken p.statement.kindText := by
  obtain ⟨⟨text, r, h⟩, _⟩ := p
  cases h with
  | plain kind =>
    change IsToken kind.word at ht
    rwa [kind.word_eq] at ht
  | @keyed kind inner key aggregate nonempty noParens unquoted =>
    change IsToken (kind.word ++ "(" ++ inner ++ ")") at ht
    rw [kind.word_eq] at ht
    obtain rfl := unquote_eq_iff.mpr unquoted
    have hword := isToken_keyed.mp ht
    exact isToken_keyed.mpr fun c hc => hword c (mem_of_mem_unquote hc)

/-- The kind as it is written spells the kind again, if its key is plain. -/
theorem exists_kindText (h : ∀ k ∈ p.statement.aggregateKey, k ≠ "" ∧ unquote k = k) :
    ∃ kind : KindPhrase, kind.text = p.statement.kindText ∧ kind.reading = p.kind.reading := by
  obtain ⟨⟨text, r, hderives⟩, _⟩ := p
  cases hderives with
  | plain kind => exact ⟨⟨_, _, .plain kind⟩, kind.word_eq, rfl⟩
  | @keyed kind inner key aggregate nonempty noParens unquoted =>
    obtain ⟨hne, hunquote⟩ := h key rfl
    obtain rfl := unquote_eq_iff.mpr unquoted
    have hkeyed := KindToken.keyed aggregate hne
      (fun c hc => noParens c (mem_of_mem_unquote hc)) (unquote_eq_iff.mp hunquote)
    rw [Kind.word_eq] at hkeyed
    exact ⟨⟨_, _, hkeyed⟩, rfl, rfl⟩

/-- Read again, the kind as it is written has the key without one more pair of quotes. -/
theorem aggregateKey_of_kindText {key : String} (hkey : p.statement.aggregateKey = some key)
    {r : Kind × Option String} (h : KindToken p.statement.kindText r) :
    key ≠ "" ∧ r = (p.statement.kind, some (unquote key)) := by
  obtain ⟨⟨text, r, hderives⟩, _⟩ := p
  cases hderives with
  | plain kind => cases hkey
  | @keyed kind inner key' aggregate nonempty noParens unquoted =>
    obtain rfl : key' = key := by simpa [statement] using hkey
    obtain rfl := unquote_eq_iff.mpr unquoted
    have hread := readKind?_eq_some.mpr h
    change readKind? (kind.spelling ++ "(" ++ unquote inner ++ ")") = _ at hread
    by_cases hne : unquote inner = ""
    · rw [hne, readKind?_empty_key] at hread
      cases hread
    · have hkeyed := KindToken.keyed aggregate hne
        (fun c hc => noParens c (mem_of_mem_unquote hc)) (unquoted_unquote _)
      rw [Kind.word_eq] at hkeyed
      rw [readKind?_eq_some.mpr hkeyed] at hread
      exact ⟨hne, by simpa [statement] using hread.symm⟩

/-- The tokens of what is written: the kind, the tokens of the name, and the words of the
clauses. -/
theorem tokenTexts_render (htok : ∀ t ∈ p.texts, IsToken t) :
    tokenTexts p.statement.render = p.statement.kindText ::
      (tokenTexts category.name ++ (p.statement.setWords ++ p.statement.suffixWords)) := by
  simp only [texts, List.forall_mem_cons] at htok
  obtain ⟨hkind, hname, hclauses⟩ := htok
  obtain ⟨q, -, -, -, hqtok, hq⟩ := p.exists_written hclauses p.kind rfl p.category
  rw [Statement.render, tokenTexts_intercalate, Statement.words, List.flatMap_cons,
    List.flatMap_cons, p.isToken_kindText hkind, ← hq, flatMap_tokenTexts hqtok]
  rfl

end StatementPhrase

theorem isToken_of_texts_eq {category : Category} {p : StatementPhrase category} {text : String}
    (h : p.texts = tokenTexts text) : ∀ t ∈ p.texts, IsToken t := by
  intro t ht
  rw [h] at ht
  exact isToken_of_mem ht

/-- After the name comes nothing or the keyword of a clause. -/
theorem Statement.head?_clauseWords (s : Statement) :
    ∀ t ∈ (s.setWords ++ s.suffixWords).head?, ∃ clause : Clause, t = clause.spelling := by
  intro t ht
  obtain ⟨kind, key, name, set, filter, order, limit, n⟩ := s
  cases set with
  | some as => exact ⟨.set, by simpa [setWords, clauseWords, eq_comm] using ht⟩
  | none =>
  cases filter with
  | some f => exact ⟨.filter, by simpa [setWords, suffixWords, clauseWords, eq_comm] using ht⟩
  | none =>
  cases order with
  | some ks => exact ⟨.sort, by simpa [setWords, suffixWords, clauseWords, eq_comm] using ht⟩
  | none =>
  cases limit with
  | some l => exact ⟨.limit, by simpa [setWords, suffixWords, clauseWords, eq_comm] using ht⟩
  | none => simp [setWords, suffixWords, clauseWords] at ht

section

variable {category : Category} {text : String} {a b : Statement}

theorem parse_render_of_plainHeader (h : parse category text = .ok a)
    (hplain : PlainHeader category a.aggregateKey) : parse category a.render = .ok a := by
  obtain ⟨p, htexts, rfl⟩ := parse_eq_ok.mp h
  have htok := isToken_of_texts_eq htexts
  have hrender := p.tokenTexts_render htok
  simp only [StatementPhrase.texts, List.forall_mem_cons] at htok
  obtain ⟨hname, hunquote⟩ := p.category.plain htok.2.1 hplain.1
  obtain ⟨kind, hkind, hreading⟩ := p.exists_kindText hplain.2
  obtain ⟨q, hqkind, hqname, hq, -, hqtexts⟩ :=
    p.exists_written htok.2.2 kind hreading ⟨category.name, unquote_eq_iff.mp hunquote⟩
  refine parse_eq_ok.mpr ⟨q, ?_, hq⟩
  rw [hrender, hname, StatementPhrase.texts, hqkind, hkind, hqname, hqtexts]
  rfl

/-- A name in front of the clauses that is read again is one token. -/
theorem length_tokenize_of_reparse {p q : StatementPhrase category}
    (hp : ∀ t ∈ p.texts, IsToken t) (hq : q.texts = tokenTexts p.statement.render) :
    (tokenize category.name).length = 1 := by
  have hqtok := isToken_of_texts_eq hq q.category.text (by simp [StatementPhrase.texts])
  have hnames := unquote_eq_iff.mpr q.category.names
  rw [p.tokenTexts_render hp, StatementPhrase.texts, List.cons.injEq] at hq
  cases hname : tokenTexts category.name with
  | nil =>
    -- the place of the name is then taken by a keyword, and a keyword has no quotes to lose
    rw [hname] at hq
    obtain ⟨clause, hclause⟩ := p.statement.head?_clauseWords q.category.text
      (by rw [← List.nil_append (_ ++ _), ← hq.2]; simp)
    have hplain : unquote q.category.text = q.category.text := by
      rw [hclause]
      cases clause <;> decide
    rw [hplain] at hnames
    rw [hnames] at hqtok
    exact hqtok.length_tokenize
  | cons t ts =>
    rw [hname, List.cons_append, List.cons.injEq] at hq
    have hmem : q.category.text ∈ tokenTexts category.name := by
      rw [hname, hq.2.1]
      exact List.mem_cons_self ..
    have hle := length_le_of_mem_tokenTexts hmem
    have hplain := unquote_eq_self_of_length_le (by rwa [hnames])
    rw [hplain] at hnames
    rw [hnames] at hqtok
    exact hqtok.length_tokenize

theorem plainHeader_of_parse_render (ha : parse category text = .ok a)
    (hb : parse category a.render = .ok b) (hrender : b.render = a.render) :
    PlainHeader category a.aggregateKey := by
  obtain ⟨p, htexts, rfl⟩ := parse_eq_ok.mp ha
  obtain ⟨q, hqtexts, rfl⟩ := parse_eq_ok.mp hb
  have htok := isToken_of_texts_eq htexts
  have hqtok := isToken_of_texts_eq hqtexts
  refine ⟨length_tokenize_of_reparse htok hqtexts, ?_⟩
  intro key hkey
  have htokens := p.tokenTexts_render htok
  have hkind : q.kind.text = p.statement.kindText := by
    rw [htokens, StatementPhrase.texts, List.cons.injEq] at hqtexts
    exact hqtexts.1
  have hderives := q.kind.derives
  rw [hkind] at hderives
  obtain ⟨hne, hreading⟩ := p.aggregateKey_of_kindText hkey hderives
  have hkindText : q.statement.kindText = p.statement.kindText := by
    have hqtokens := q.tokenTexts_render hqtok
    rw [hrender, htokens, List.cons.injEq] at hqtokens
    exact hqtokens.1.symm
  have hp : p.statement.kindText = p.statement.kind.spelling ++ "(" ++ key ++ ")" := by
    rw [Statement.kindText, hkey]
  have hq : q.statement.kindText = p.statement.kind.spelling ++ "(" ++ unquote key ++ ")" := by
    simp [Statement.kindText, StatementPhrase.statement, hreading]
  rw [hp, hq] at hkindText
  exact ⟨hne, by simpa [← String.toList_inj] using hkindText⟩

/-- Writing and reading give a statement back exactly when its header is plain. -/
theorem parse_render_eq_ok_iff (h : parse category text = .ok a) :
    parse category a.render = .ok a ↔ PlainHeader category a.aggregateKey :=
  ⟨fun hb => plainHeader_of_parse_render h hb rfl, parse_render_of_plainHeader h⟩

theorem parse_render_eq_ok_iff_quoted_name :
    ∃ s, parse ⟨"c", []⟩ "QUERY-COUNT('k') 'c' LIMIT 007" = .ok s ∧
      parse ⟨"c", []⟩ s.render = .ok s := by
  have h : parse ⟨"c", []⟩ "QUERY-COUNT('k') 'c' LIMIT 007" =
      .ok { kind := .count, aggregateKey := some "k", category := "c",
            limit := some ⟨.literal (.int 7), false⟩ } := by
    decide +kernel
  exact ⟨_, h, (parse_render_eq_ok_iff h).mpr (by decide +kernel)⟩

/-- What is written is read and written the same again exactly when the header is plain. -/
theorem render_fixed_iff (h : parse category text = .ok a) :
    (∃ b, parse category a.render = .ok b ∧ b.render = a.render) ↔
      PlainHeader category a.aggregateKey := by
  constructor
  · rintro ⟨b, hb, hrender⟩
    exact plainHeader_of_parse_render h hb hrender
  · intro hplain
    exact ⟨a, parse_render_of_plainHeader h hplain, rfl⟩

/-- A name with a mark in it can be read in quotes, and is then written without them. -/
theorem render_not_fixed_quoted_name :
    ∃ s, parse ⟨"a=b", []⟩ "QUERY 'a=b'" = .ok s ∧
      ¬∃ b, parse ⟨"a=b", []⟩ s.render = .ok b ∧ b.render = s.render := by
  have h : parse ⟨"a=b", []⟩ "QUERY 'a=b'" = .ok { kind := .query, category := "a=b" } := by
    decide +kernel
  exact ⟨_, h, fun hfixed => absurd ((render_fixed_iff h).mp hfixed) (by decide +kernel)⟩

end

end CategoryStatements
