import CategoryStatements.Proofs.Acceptance
import CategoryStatements.Proofs.Lexemes
import CategoryStatements.Statement.Rendering

/-! Canonical clauses. The words that write a clause spell a phrase again, which means what the
clause meant, and each of the words is one token. What comes before the clauses, the kind and
the name of the category, is written without quotes and is a separate matter. -/
namespace CategoryStatements

theorem digitChar_spec : ∀ d < 10, (digitChar d).isDigit ∧ digitValue (digitChar d) = d := by
  decide

theorem natDigits_ne_nil (n : Nat) : natDigits n ≠ [] := by
  unfold natDigits
  split <;> simp

theorem isDigit_natDigits (n : Nat) : ∀ c ∈ natDigits n, c.isDigit := by
  induction n using natDigits.induct with
  | case1 n hn =>
    rw [natDigits, if_pos hn]
    simpa using (digitChar_spec n hn).1
  | case2 n hn ih =>
    have hlast := (digitChar_spec (n % 10) (Nat.mod_lt n (by omega))).1
    rw [natDigits, if_neg hn]
    intro c hc
    rcases List.mem_append.mp hc with hc | hc
    · exact ih c hc
    · rwa [List.mem_singleton.mp hc]

theorem natOfDigits_natDigits (n : Nat) : natOfDigits (natDigits n) = n := by
  induction n using natDigits.induct with
  | case1 n hn =>
    rw [natDigits, if_pos hn]
    simpa [natOfDigits] using (digitChar_spec n hn).2
  | case2 n hn ih =>
    have hlast := (digitChar_spec (n % 10) (Nat.mod_lt n (by omega))).2
    rw [natDigits, if_neg hn, natOfDigits_append_singleton, ih, hlast]
    omega

/-- What is written for a number is a numeral that denotes it. -/
theorem numeral_intChars (n : Int) : Numeral (intChars n) n := by
  unfold intChars
  split
  · next h =>
    have hnum := Numeral.negative (natDigits_ne_nil n.natAbs) (isDigit_natDigits _)
    rw [← natOfDigits_eq_placeValue, natOfDigits_natDigits] at hnum
    rwa [show -((n.natAbs : Nat) : Int) = n by omega] at hnum
  · next h =>
    have hnum := Numeral.unsigned (natDigits_ne_nil n.natAbs) (isDigit_natDigits _)
    rw [← natOfDigits_eq_placeValue, natOfDigits_natDigits] at hnum
    rwa [show ((n.natAbs : Nat) : Int) = n by omega] at hnum

theorem isWordChar_of_isDigit {c : Char} (h : c.isDigit) : isWordChar c := by
  have hne : ∀ x : Char, x.isDigit = false → c ≠ x := by
    rintro x hx rfl
    rw [hx] at h
    cases h
  simp [isWordChar, isDelimiter, hne]

theorem isWordChar_of_not_isReserved {c : Char} (h : isReserved c = false) : isWordChar c := by
  have hd : isDelimiter c = false := by
    rw [Bool.eq_false_iff]
    intro hd
    simp [isReserved, isWhiteSpace_of_isDelimiter hd] at h
  simp only [isReserved, Bool.or_eq_false_iff, beq_eq_false_iff_ne] at h
  simp [isWordChar, hd, h]

theorem isToken_of_wordChars {text : String} (hne : text.toList ≠ [])
    (hq : text.toList.head? ≠ some quoteMark) (h : ∀ c ∈ text.toList, isWordChar c) :
    IsToken text := by
  rw [isToken_iff]
  obtain ⟨c, cs, he⟩ := List.exists_cons_of_ne_nil hne
  rw [he] at hq h ⊢
  exact isLexeme_word (by simpa using hq) h

theorem BareWord.isToken {word : String} (h : BareWord word) : IsToken word := by
  refine isToken_of_wordChars ?_ h.head?_ne_quoteMark fun c hc =>
    isWordChar_of_not_isReserved (h.not_isReserved c hc)
  exact fun hnil => h.nonempty (String.toList_inj.mp hnil)

theorem Numeral.wordChars {text : List Char} {n : Int} (h : Numeral text n) :
    text ≠ [] ∧ ∀ c ∈ text, isWordChar c := by
  cases h with
  | unsigned hne hall => exact ⟨hne, fun c hc => isWordChar_of_isDigit (hall c hc)⟩
  | negative hne hall =>
    refine ⟨by simp, List.forall_mem_cons.mpr ⟨by decide, ?_⟩⟩
    exact fun c hc => isWordChar_of_isDigit (hall c hc)

/-- A numeral is one token, also with the mark of the wider type behind it. -/
theorem Numeral.isToken {text : List Char} {n : Int} (h : Numeral text n) (suffix : List Char)
    (hsuffix : ∀ c ∈ suffix, isWordChar c) : IsToken (String.ofList (text ++ suffix)) := by
  obtain ⟨hne, hword⟩ := h.wordChars
  apply isToken_of_wordChars
  · simp [hne]
  · rw [String.toList_ofList]
    exact head?_ne_of_startsNumber (h.startsNumber suffix) (by decide)
  · rw [String.toList_ofList]
    intro c hc
    rcases List.mem_append.mp hc with hc | hc
    · exact hword c hc
    · exact hsuffix c hc

/-- A literal is written as a token that means the literal. As a key only a string is. -/
theorem Literal.termToken_render {clause : Clause} {isKey : Bool} (l : Literal)
    (hkey : isKey → ∃ s, l = .string s) : TermToken clause isKey l.render (.literal l) := by
  cases l with
  | string s => exact .quoted s
  | int n =>
    cases isKey with
    | true => simp at hkey
    | false =>
      have hle := n.le_toInt
      have hlt := n.toInt_lt
      have htoken : TermToken clause false _ _ := .int (numeral_intChars n.toInt) (by omega)
      rwa [Int32.ofInt_toInt] at htoken
  | long n =>
    cases isKey with
    | true => simp at hkey
    | false =>
      have hle := n.le_toInt
      have hlt := n.toInt_lt
      have htoken : TermToken clause false _ _ :=
        .long (numeral_intChars n.toInt) (.inl rfl) (by omega)
      rw [Int64.ofInt_toInt] at htoken
      simpa [render, intText] using htoken
  | boolean b =>
    cases isKey with
    | true => simp at hkey
    | false =>
      rw [render, Value.boolText_eq]
      exact .boolean b

theorem Literal.isToken_render {l : Literal} (h : ∀ s, l = .string s → IsToken (quoted s)) :
    IsToken l.render := by
  cases l with
  | string s => exact h s rfl
  | int n => simpa [render, intText] using (numeral_intChars n.toInt).isToken [] (by simp)
  | long n =>
    have htoken := (numeral_intChars n.toInt).isToken ['L']
      (List.forall_mem_singleton.mpr (by decide))
    simpa [render, intText] using htoken
  | boolean b =>
    cases b <;> exact isToken_of_wordChars (by decide) (by decide)
      (List.all_eq_true.mp (by decide))

/-- A term is written as a token that means the term. -/
theorem TermToken.rendered {clause : Clause} {isKey : Bool} {text : String} {r : Reading}
    (h : TermToken clause isKey text r) (ht : IsToken text) (n : Nat) :
    TermToken clause isKey (r.term isKey n).render r ∧ IsToken (r.term isKey n).render := by
  cases h with
  | @placeholder _ type takes =>
    have hrender : (Reading.term isKey n (.placeholder type)).render = type.word :=
      type.word_eq.symm
    rw [hrender]
    exact ⟨.placeholder takes, ht⟩
  | quoted s =>
    change TermToken clause isKey (if isKey && isBareWord s then s else CategoryStatements.quoted s)
      _ ∧ IsToken (if isKey && isBareWord s then s else CategoryStatements.quoted s)
    by_cases hbare : (isKey && isBareWord s) = true
    · rw [if_pos hbare]
      rw [Bool.and_eq_true] at hbare
      obtain ⟨rfl, hword⟩ := hbare
      have hbare := isBareWord_iff.mp hword
      exact ⟨.bareWord hbare, hbare.isToken⟩
    · rw [if_neg hbare]
      exact ⟨.quoted s, ht⟩
  | bareWord bare =>
    simp only [Reading.term, Term.render, isBareWord_iff.mpr bare, Bool.and_self, if_true]
    exact ⟨.bareWord bare, ht⟩
  | @int _ k _ _ =>
    exact ⟨(Literal.int (Int32.ofInt k)).termToken_render (by simp),
      Literal.isToken_render (l := .int (Int32.ofInt k)) (by simp)⟩
  | @long _ k _ _ _ _ =>
    exact ⟨(Literal.long (Int64.ofInt k)).termToken_render (by simp),
      Literal.isToken_render (l := .long (Int64.ofInt k)) (by simp)⟩
  | boolean b =>
    exact ⟨(Literal.boolean b).termToken_render (by simp),
      Literal.isToken_render (l := .boolean b) (by simp)⟩

theorem LimitToken.rendered {text : String} {r : Reading} (h : LimitToken text r)
    (ht : IsToken text) (n : Nat) :
    LimitToken (r.term false n).render r ∧ IsToken (r.term false n).render := by
  obtain ⟨hterm, hint⟩ := limitToken_iff.mp h
  obtain ⟨hterm', ht'⟩ := hterm.rendered ht n
  exact ⟨limitToken_iff.mpr ⟨hterm', hint⟩, ht'⟩

theorem Reading.render_term (r : Reading) (isKey : Bool) (n m : Nat) :
    (r.term isKey n).render = (r.term isKey m).render := by
  cases r <;> rfl

/-- The words of every meaning spell a phrase of that meaning, token by token. -/
def Phrasing.WrittenBy (P : Phrasing φ α) (words : α → List String) : Prop :=
  ∀ p, (∀ t ∈ P.texts p, IsToken t) →
    ∃ q, (∀ t ∈ P.texts q, IsToken t) ∧ P.holes q = P.holes p ∧
      ∀ n, P.value n q = P.value n p ∧ words (P.value n p) = P.texts q

/-- The phrase of a term as it is written. -/
theorem TermPhrase.exists_rendered {clause : Clause} {isKey : Bool} (p : TermPhrase clause isKey)
    (ht : IsToken p.text) :
    ∃ q : TermPhrase clause isKey, IsToken q.text ∧ q.reading = p.reading ∧
      ∀ n, (p.reading.term isKey n).render = q.text := by
  obtain ⟨hterm, ht'⟩ := p.derives.rendered ht 0
  exact ⟨⟨_, _, hterm⟩, ht', rfl, fun n => p.reading.render_term isKey n 0⟩

theorem LimitPhrase.writtenBy : LimitPhrase.phrasing.WrittenBy fun t => [t.render] := by
  intro p htok
  obtain ⟨hlimit, ht⟩ := p.derives.rendered (htok p.text (by simp [phrasing])) 0
  refine ⟨⟨_, _, hlimit⟩, by simpa [phrasing] using ht, rfl, fun n => ⟨rfl, ?_⟩⟩
  exact congrArg (fun t => [t]) (p.reading.render_term false n 0)

theorem PairPhrase.writtenBy : PairPhrase.phrasing.WrittenBy Assignment.words := by
  rintro ⟨key, value⟩ htok
  simp only [phrasing, List.forall_mem_cons] at htok
  obtain ⟨key', hkt, hkr, hkw⟩ := key.exists_rendered htok.1
  obtain ⟨value', hvt, hvr, hvw⟩ := value.exists_rendered htok.2.2.1
  refine ⟨⟨key', value'⟩, ?_, ?_, fun n => ⟨?_, ?_⟩⟩
  · simpa [phrasing, hkt, hvt] using htok.2.1
  · simp [phrasing, hkr, hvr]
  · simp [phrasing, hkr, hvr]
  · simp [phrasing, Assignment.words, hkw, hvw]

theorem MemberPhrase.writtenBy : MemberPhrase.phrasing.WrittenBy SortKey.words := by
  rintro ⟨key, direction⟩ htok
  simp only [phrasing, List.forall_mem_cons] at htok
  obtain ⟨key', hkt, hkr, hkw⟩ := key.exists_rendered htok.1
  refine ⟨⟨key', direction⟩, ?_, ?_, fun n => ⟨?_, ?_⟩⟩
  · simpa [phrasing, hkt] using htok.2.1
  · simp [phrasing, hkr]
  · simp [phrasing, hkr]
  · simp [phrasing, SortKey.words, hkw]

theorem ComparisonPhrase.writtenBy : ComparisonPhrase.phrasing.WrittenBy Filter.words := by
  rintro ⟨key, op, value⟩ htok
  simp only [phrasing, List.forall_mem_cons] at htok
  obtain ⟨key', hkt, hkr, hkw⟩ := key.exists_rendered htok.1
  obtain ⟨value', hvt, hvr, hvw⟩ := value.exists_rendered htok.2.2.1
  refine ⟨⟨key', op, value'⟩, ?_, ?_, fun n => ⟨?_, ?_⟩⟩
  · simpa [phrasing, hkt, hvt] using htok.2.1
  · simp [phrasing, hkr, hvr]
  · simp [phrasing, hkr, hvr]
  · simp [phrasing, Filter.words, hkw, hvw]

theorem ConditionPhrase.writtenBy : ConditionPhrase.phrasing.WrittenBy Filter.words := by
  intro p htok
  induction p with
  | compare p =>
    obtain ⟨q, hq⟩ := ComparisonPhrase.writtenBy p htok
    exact ⟨.compare q, hq⟩
  | not p ih =>
    obtain ⟨hnot, htok⟩ := List.forall_mem_cons.mp htok
    obtain ⟨q, hqt, hqh, hq⟩ := ih htok
    refine ⟨.not q, List.forall_mem_cons.mpr ⟨hnot, hqt⟩, hqh, fun n => ⟨?_, ?_⟩⟩
    · exact congrArg Filter.not (hq n).1
    · exact congrArg (List.cons "NOT") (hq n).2

namespace Phrasing

variable {P : Phrasing φ α} {words : α → List String}

/-- The phrases behind separators, written one by one. -/
theorem WrittenBy.values (h : P.WrittenBy words) (ps : List φ)
    (htok : ∀ p ∈ ps, ∀ t ∈ P.texts p, IsToken t) :
    ∃ qs : List φ, (∀ q ∈ qs, ∀ t ∈ P.texts q, IsToken t) ∧ P.totalHoles qs = P.totalHoles ps ∧
      ∀ n, P.values n qs = P.values n ps ∧ (P.values n ps).map words = qs.map P.texts := by
  induction ps with
  | nil => exact ⟨[], by simp, rfl, fun n => ⟨rfl, rfl⟩⟩
  | cons p ps ih =>
    obtain ⟨hp, hps⟩ := List.forall_mem_cons.mp htok
    obtain ⟨q, hqt, hqh, hq⟩ := h p hp
    obtain ⟨qs, hqst, hqsh, hqs⟩ := ih hps
    refine ⟨q :: qs, List.forall_mem_cons.mpr ⟨hqt, hqst⟩, by simp [Phrasing.totalHoles, hqh, hqsh],
      fun n => ⟨?_, ?_⟩⟩
    · simp [Phrasing.values, (hq n).1, hqh, (hqs _).1]
    · simp [Phrasing.values, (hq n).2, (hqs _).2]

theorem WrittenBy.chain (h : P.WrittenBy words) (separator : String) :
    (P.chain separator).WrittenBy fun as =>
      words as.1 ++ as.2.flatMap fun a => separator :: words a := by
  rintro ⟨p, ps⟩ htok
  simp only [Phrasing.chain, List.forall_mem_append, List.mem_flatMap] at htok
  obtain ⟨hp, hps⟩ := htok
  obtain ⟨q, hqt, hqh, hq⟩ := h p hp
  obtain ⟨qs, hqst, hqsh, hqs⟩ := h.values ps fun p hp t ht =>
    hps t ⟨p, hp, List.mem_cons_of_mem _ ht⟩
  have hsep : ps ≠ [] → IsToken separator := by
    intro hne
    obtain ⟨p', hp'⟩ := List.exists_mem_of_ne_nil ps hne
    exact hps separator ⟨p', hp', List.mem_cons_self ..⟩
  refine ⟨⟨q, qs⟩, ?_, by simp [Phrasing.chain, hqh, hqsh], fun n => ⟨?_, ?_⟩⟩
  · simp only [Phrasing.chain, List.forall_mem_append, List.mem_flatMap]
    refine ⟨hqt, ?_⟩
    rintro t ⟨q', hq', ht⟩
    rcases List.mem_cons.mp ht with rfl | ht
    · refine hsep ?_
      rintro rfl
      obtain rfl : qs = [] := by simpa [Phrasing.values, eq_comm] using (hqs 0).2
      cases hq'
    · exact hqst q' hq' t ht
  · simp [Phrasing.chain, (hq n).1, hqh, (hqs _).1]
  · have hothers := congrArg (List.flatMap (List.cons separator)) (hqs (n + P.holes p)).2
    simp only [List.flatMap_map] at hothers
    simp only [Phrasing.chain, (hq n).2, hothers]

theorem WrittenBy.map (h : P.WrittenBy words) (f : α → β) {words' : β → List String}
    (hw : ∀ a, words' (f a) = words a) : (P.map f).WrittenBy words' := by
  intro p htok
  obtain ⟨q, hqt, hqh, hq⟩ := h p htok
  refine ⟨q, hqt, hqh, fun n => ⟨congrArg f (hq n).1, ?_⟩⟩
  exact (hw _).trans (hq n).2

theorem WrittenBy.clause (h : P.WrittenBy words) {clause : Clause} {word : String}
    (hword : clause.spelling = word) :
    (P.clause word).WrittenBy fun a => clauseWords clause (a.map words) := by
  rintro (_ | p) htok
  · exact ⟨none, by simp [Phrasing.clause], rfl, fun n => ⟨rfl, rfl⟩⟩
  · obtain ⟨hkey, htok⟩ := List.forall_mem_cons.mp htok
    obtain ⟨q, hqt, hqh, hq⟩ := h p htok
    refine ⟨some q, List.forall_mem_cons.mpr ⟨hkey, hqt⟩, hqh, fun n => ⟨?_, ?_⟩⟩
    · exact congrArg some (hq n).1
    · simp [Phrasing.clause, clauseWords, hword, (hq n).2]

end Phrasing

theorem listWords_map (words : α → List String) (a : α) (as : List α) :
    listWords ((a :: as).map words) = words a ++ as.flatMap fun a => "," :: words a := by
  induction as generalizing a with
  | nil => simp [listWords]
  | cons b as ih =>
    have h := ih b
    simp only [List.map_cons] at h ⊢
    rw [listWords, h]
    · simp
    · simp

theorem Phrasing.WrittenBy.list {P : Phrasing φ α} {words : α → List String}
    (h : P.WrittenBy words) :
    ((P.chain ",").map fun as => as.1 :: as.2).WrittenBy fun as => listWords (as.map words) :=
  (h.chain ",").map _ fun as => listWords_map words as.1 as.2

theorem Filter.words_join (op : Connective) (first : Filter) (others : List Filter) :
    (Chain.join (combine op) ⟨first, others⟩).words =
      first.words ++ others.flatMap fun f => op.spelling :: f.words := by
  induction others generalizing first with
  | nil => simp
  | cons f others ih => simp [Chain.join_cons, ih, words]

theorem setClause_writtenBy : setClause.WrittenBy fun as =>
    clauseWords .set (as.map fun as => listWords (as.map Assignment.words)) :=
  PairPhrase.writtenBy.list.clause rfl

theorem whereClause_writtenBy : whereClause.WrittenBy fun f =>
    clauseWords .filter (f.map Filter.words) := by
  have hand : conjunctions.WrittenBy Filter.words :=
    (ConditionPhrase.writtenBy.chain "AND").map _ fun fs => Filter.words_join .and fs.1 fs.2
  have hor : disjunctions.WrittenBy Filter.words :=
    (hand.chain "OR").map _ fun fs => Filter.words_join .or fs.1 fs.2
  exact hor.clause rfl

theorem sortClause_writtenBy : sortClause.WrittenBy fun ks =>
    clauseWords .sort (ks.map fun ks => listWords (ks.map SortKey.words)) :=
  MemberPhrase.writtenBy.list.clause rfl

theorem limitClause_writtenBy : limitClause.WrittenBy fun t =>
    clauseWords .limit (t.map fun t => [t.render]) :=
  LimitPhrase.writtenBy.clause rfl

/-- The clauses of a statement, as they are written, spell the statement behind every header
that means the same. -/
theorem StatementPhrase.exists_written {category : Category} (p : StatementPhrase category)
    (htok : ∀ t ∈ p.clauseTexts, IsToken t) (kind : KindPhrase)
    (hkind : kind.reading = p.kind.reading) (name : CategoryPhrase category) :
    ∃ q : StatementPhrase category, q.kind = kind ∧ q.category = name ∧
      q.statement = p.statement ∧ (∀ t ∈ q.clauseTexts, IsToken t) ∧
      q.clauseTexts = p.statement.setWords ++ p.statement.suffixWords := by
  obtain ⟨_, _, set, filter, order, limit⟩ := p
  simp only [clauseTexts, List.forall_mem_append] at htok
  obtain ⟨hset, hfilter, horder, hlimit⟩ := htok
  obtain ⟨set', hst, hsh, hs⟩ := setClause_writtenBy set hset
  obtain ⟨filter', hft, hfh, hf⟩ := whereClause_writtenBy filter hfilter
  obtain ⟨order', hot, hoh, ho⟩ := sortClause_writtenBy order horder
  obtain ⟨limit', hlt, hlh, hl⟩ := limitClause_writtenBy limit hlimit
  refine ⟨⟨kind, name, set', filter', order', limit'⟩, rfl, rfl, ?_, ?_, ?_⟩
  · simp [statement, hkind, hsh, hfh, hoh, hlh, (hs _).1, (hf _).1, (ho _).1, (hl _).1]
  · simp only [clauseTexts, List.forall_mem_append]
    exact ⟨hst, hft, hot, hlt⟩
  · rw [clauseTexts, ← (hs 0).2, ← (hf _).2, ← (ho _).2, ← (hl _).2]
    simp only [statement, Statement.setWords, Statement.suffixWords, Option.map_map,
      List.append_assoc]
    rfl

end CategoryStatements
