import CategoryStatements.Proofs.RoundTrip
import CategoryStatements.Proofs.Substitution

/-! Inlining. The values of placeholders can be written into a descriptor, each in place of the
token of its placeholder. What is then read is the statement with the placeholders replaced by
literals, so that binding it makes the same calls as binding the statement with its values. -/
namespace CategoryStatements

/-- Replaces the tokens of placeholders by the literals of their values, where `n` placeholders
stand before the first token. -/
def inlineTexts (ps : Parameters) : Nat → List String → List String
  | _, [] => []
  | n, text :: texts =>
    if (ParamType.ofText? text).isSome then
      (ps.literal? n).elim text Literal.render :: inlineTexts ps (n + 1) texts
    else text :: inlineTexts ps n texts

/-- The descriptor with its values inlined behind the name of the category, and single spaces
between its tokens. -/
def Descriptor.inline (ps : Parameters) (d : Descriptor) : Descriptor :=
  let texts := (tokenize d.text).map Token.text
  ⟨d.category, " ".intercalate (texts.take 2 ++ inlineTexts ps 0 (texts.drop 2))⟩

theorem Literal.isToken_of_isPlain {l : Literal} (h : l.isPlain) : IsToken l.render := by
  refine isToken_render fun s hs => ?_
  rw [isToken_iff, toList_quoted, isLexeme_quoted]
  simpa [hs, isPlain, isDelimiter_iff] using h

/-- Among terms only placeholders have the spelling of one. -/
theorem TermToken.ofText?_eq_none {clause : Clause} {isKey : Bool} {text : String} {l : Literal}
    (h : TermToken clause isKey text (.literal l)) : ParamType.ofText? text = none := by
  have hread : readToken clause isKey ⟨text, ⟨0, 0⟩⟩ = .ok (.literal l) :=
    readToken_of_termToken h rfl
  cases htype : ParamType.ofText? text with
  | none => rfl
  | some type =>
    have hhead : text.toList.head? = some '?' := by
      rw [← ParamType.ofText?_eq_some.mp htype, ParamType.spelling]
      split <;> simp
    simp only [readToken, h.not_structural, hhead, htype, Bool.false_eq_true, if_false,
      if_true] at hread
    split at hread <;> cases hread

/-- A phrase with its placeholders filled: what it is spelled like, and what it means. -/
structure Phrasing.Filling (P : Phrasing φ α) (ps : Parameters) (inline : α → α) (n : Nat)
    (p q : φ) : Prop where
  texts : ∀ rest, inlineTexts ps n (P.texts p ++ rest) =
    P.texts q ++ inlineTexts ps (n + P.holes p) rest
  holes : P.holes q = 0
  value : ∀ m, P.value m q = inline (P.value n p)
  tokens : (∀ t ∈ P.texts p, IsToken t) → ∀ t ∈ P.texts q, IsToken t

/-- Phrases can be filled when all their placeholders can. -/
def Phrasing.Fills (P : Phrasing φ α) (ps : Parameters) (occurrences : α → List Occurrence)
    (inline : α → α) : Prop :=
  ∀ n p, (∀ o ∈ occurrences (P.value n p), o.Filled ps) → ∃ q, P.Filling ps inline n p q

theorem inlineTexts_cons_of_none {ps : Parameters} {n : Nat} {text : String}
    (h : ParamType.ofText? text = none) (rest : List String) :
    inlineTexts ps n (text :: rest) = text :: inlineTexts ps n rest := by
  simp [inlineTexts, h]

section Phrases

variable {ps : Parameters}

theorem TermPhrase.fills (clause : Clause) (isKey : Bool) :
    (phrasing clause isKey).Fills ps (Term.occurrences clause) (Term.inline ps) := by
  rintro n ⟨text, reading, hderives⟩ hfilled
  cases reading with
  | literal l =>
    refine ⟨⟨text, .literal l, hderives⟩, ?_, rfl, fun _ => rfl, id⟩
    exact fun rest => inlineTexts_cons_of_none hderives.ofText?_eq_none rest
  | placeholder type =>
    obtain ⟨l, hl, -, hplain, hkey⟩ := Term.exists_literal hfilled
    obtain rfl : text = type.spelling := by
      cases hderives
      exact type.word_eq
    refine ⟨⟨l.render, .literal l, l.termToken_render hkey⟩, ?_, rfl, ?_, ?_⟩
    · intro rest
      simp [phrasing, inlineTexts, ParamType.ofText?_spelling, hl, Reading.holes]
    · intro m
      simp [phrasing, Reading.term, Term.inline, Atom.inline, hl]
    · intro _
      simpa [phrasing] using Literal.isToken_of_isPlain hplain

namespace Phrasing

variable {P : Phrasing φ α} {Q : Phrasing ψ β} {occurrences : α → List Occurrence} {inline : α → α}

section Around

-- two phrases with a text between them that is no placeholder
variable {g : β → β} {n : Nat} {p p' : φ} {q q' : ψ} {text : String}

theorem Filling.texts_around (hp : P.Filling ps inline n p p')
    (hq : Q.Filling ps g (n + P.holes p) q q') (htext : ParamType.ofText? text = none)
    (rest : List String) :
    inlineTexts ps n (P.texts p ++ text :: (Q.texts q ++ rest)) =
      P.texts p' ++ text :: (Q.texts q' ++ inlineTexts ps (n + (P.holes p + Q.holes q)) rest) := by
  rw [hp.texts, inlineTexts_cons_of_none htext, hq.texts, Nat.add_assoc]

theorem Filling.tokens_around {m : Nat} (hp : P.Filling ps inline n p p')
    (hq : Q.Filling ps g m q q')
    (h : ∀ t ∈ P.texts p ++ text :: Q.texts q, IsToken t) :
    ∀ t ∈ P.texts p' ++ text :: Q.texts q', IsToken t := by
  simp only [List.forall_mem_append, List.forall_mem_cons] at h ⊢
  exact ⟨hp.tokens h.1, h.2.1, hq.tokens h.2.2⟩

end Around

theorem Fills.map (h : P.Fills ps occurrences inline) {f : α → β}
    {occurrences' : β → List Occurrence} {inline' : β → β}
    (hoccurrences : ∀ a, occurrences' (f a) = occurrences a)
    (hinline : ∀ a, inline' (f a) = f (inline a)) :
    (P.map f).Fills ps occurrences' inline' := by
  intro n p hfilled
  simp only [Phrasing.map, hoccurrences] at hfilled
  obtain ⟨q, hq⟩ := h n p hfilled
  refine ⟨q, hq.texts, hq.holes, fun m => ?_, hq.tokens⟩
  exact (congrArg f (hq.value m)).trans (hinline _).symm

/-- What follows the first phrase of a chain. -/
def others (separator : String) (P : Phrasing φ α) : Phrasing (List φ) (List α) where
  texts ps := ps.flatMap fun p => separator :: P.texts p
  holes := P.totalHoles
  value := P.values
  goesOn _ := []

theorem Fills.others (h : P.Fills ps occurrences inline) {separator : String}
    (hsep : ParamType.ofText? separator = none) :
    (P.others separator).Fills ps (List.flatMap occurrences) (List.map inline) := by
  intro n l hfilled
  induction l generalizing n with
  | nil => exact ⟨[], fun rest => rfl, rfl, fun m => rfl, id⟩
  | cons p l ih =>
    simp only [Phrasing.others, Phrasing.values, List.flatMap_cons,
      List.forall_mem_append] at hfilled
    obtain ⟨q, hq⟩ := h n p hfilled.1
    obtain ⟨l', hl⟩ := ih (n + P.holes p) hfilled.2
    refine ⟨q :: l', ?_, ?_, ?_, ?_⟩
    · intro rest
      have hrest := hl.texts rest
      simp only [Phrasing.others, List.flatMap_cons, List.cons_append, List.append_assoc,
        Phrasing.totalHoles, inlineTexts_cons_of_none hsep, hq.texts] at hrest ⊢
      rw [hrest, Nat.add_assoc]
    · exact congrArg₂ _ hq.holes hl.holes
    · exact fun m => congrArg₂ _ (hq.value m) (hl.value _)
    · intro htok
      simp only [Phrasing.others, List.flatMap_cons, List.forall_mem_append,
        List.forall_mem_cons] at htok ⊢
      exact ⟨⟨htok.1.1, hq.tokens htok.1.2⟩, hl.tokens htok.2⟩

theorem Fills.chain (h : P.Fills ps occurrences inline) {separator : String}
    (hsep : ParamType.ofText? separator = none) :
    (P.chain separator).Fills ps (fun as => occurrences as.1 ++ as.2.flatMap occurrences)
      fun as => (inline as.1, as.2.map inline) := by
  rintro n ⟨p, l⟩ hfilled
  obtain ⟨hfirst, hothers⟩ := List.forall_mem_append.mp hfilled
  obtain ⟨q, hq⟩ := h n p hfirst
  obtain ⟨l', hl⟩ := h.others hsep (n + P.holes p) l hothers
  refine ⟨⟨q, l'⟩, ?_, ?_, ?_, ?_⟩
  · intro rest
    have hrest := hl.texts rest
    simp only [Phrasing.others, Phrasing.chain, List.append_assoc, hq.texts] at hrest ⊢
    rw [hrest, Nat.add_assoc]
  · exact congrArg₂ _ hq.holes hl.holes
  · exact fun m => congrArg₂ _ (hq.value m) (hl.value _)
  · intro htok
    obtain ⟨hp, hothers⟩ := List.forall_mem_append.mp htok
    exact List.forall_mem_append.mpr ⟨hq.tokens hp, hl.tokens hothers⟩

theorem Fills.clause (h : P.Fills ps occurrences inline) {word : String}
    (hword : ParamType.ofText? word = none) :
    (P.clause word).Fills ps (fun a => a.toList.flatMap occurrences) (Option.map inline) := by
  rintro n (_ | p) hfilled
  · exact ⟨none, fun rest => rfl, rfl, fun m => rfl, id⟩
  · obtain ⟨q, hq⟩ := h n p (by simpa [Phrasing.clause] using hfilled)
    refine ⟨some q, ?_, hq.holes, fun m => congrArg some (hq.value m), ?_⟩
    · intro rest
      simp only [Phrasing.clause, List.cons_append, inlineTexts_cons_of_none hword, hq.texts]
    · intro htok
      obtain ⟨hkey, hp⟩ := List.forall_mem_cons.mp htok
      exact List.forall_mem_cons.mpr ⟨hkey, hq.tokens hp⟩

/-- A clause of items with commas between them. -/
theorem Fills.listClause (h : P.Fills ps occurrences inline) {word : String}
    (hword : ParamType.ofText? word = none) :
    (((P.chain ",").map fun as => as.1 :: as.2).clause word).Fills ps
      (fun as => (as.getD []).flatMap occurrences) (Option.map (List.map inline)) := by
  have hlist : ((P.chain ",").map fun as => as.1 :: as.2).Fills ps (List.flatMap occurrences)
      (List.map inline) :=
    (h.chain (by decide)).map (fun _ => List.flatMap_cons) fun _ => rfl
  have hflat : ∀ as : Option (List α),
      as.toList.flatMap (List.flatMap occurrences) = (as.getD []).flatMap occurrences := by
    intro as
    cases as <;> simp
  have hclause := hlist.clause hword
  simpa only [hflat] using hclause

end Phrasing

theorem PairPhrase.fills : phrasing.Fills ps Assignment.occurrences (Assignment.inline ps) := by
  rintro n ⟨key, value⟩ hfilled
  simp only [phrasing, Assignment.occurrences, List.forall_mem_append] at hfilled
  obtain ⟨key', hkey⟩ := TermPhrase.fills .set true n key hfilled.1
  obtain ⟨value', hvalue⟩ := TermPhrase.fills .set false _ value hfilled.2
  refine ⟨⟨key', value'⟩, hkey.texts_around hvalue (by decide), ?_, ?_, hkey.tokens_around hvalue⟩
  · exact congrArg₂ _ hkey.holes hvalue.holes
  · exact fun m => congrArg₂ _ (hkey.value m) (hvalue.value _)

theorem ComparisonPhrase.fills : phrasing.Fills ps Filter.occurrences (Filter.inline ps) := by
  rintro n ⟨key, op, value⟩ hfilled
  simp only [phrasing, Filter.occurrences, List.forall_mem_append] at hfilled
  obtain ⟨key', hkey⟩ := TermPhrase.fills .filter true n key hfilled.1
  obtain ⟨value', hvalue⟩ := TermPhrase.fills .filter false _ value hfilled.2
  have hop : ParamType.ofText? op.word = none := by cases op <;> decide
  refine ⟨⟨key', op, value'⟩, hkey.texts_around hvalue hop, ?_, ?_, hkey.tokens_around hvalue⟩
  · exact congrArg₂ _ hkey.holes hvalue.holes
  · exact fun m => congrArg₂ (Filter.compare · op ·) (hkey.value m) (hvalue.value _)

theorem ConditionPhrase.fills : phrasing.Fills ps Filter.occurrences (Filter.inline ps) := by
  intro n p hfilled
  induction p with
  | compare p =>
    obtain ⟨q, hq⟩ := ComparisonPhrase.fills n p hfilled
    exact ⟨.compare q, hq.texts, hq.holes, hq.value, hq.tokens⟩
  | not p ih =>
    obtain ⟨q, hq⟩ := ih hfilled
    refine ⟨.not q, ?_, hq.holes, fun m => congrArg Filter.not (hq.value m), ?_⟩
    · intro rest
      have hrest := hq.texts rest
      simp only [phrasing, texts, List.cons_append] at hrest ⊢
      rw [inlineTexts_cons_of_none (by decide), hrest]
      rfl
    · intro htok
      obtain ⟨hnot, hp⟩ := List.forall_mem_cons.mp htok
      exact List.forall_mem_cons.mpr ⟨hnot, hq.tokens hp⟩

theorem MemberPhrase.fills : phrasing.Fills ps SortKey.occurrences (SortKey.inline ps) := by
  rintro n ⟨key, direction⟩ hfilled
  obtain ⟨key', hkey⟩ := TermPhrase.fills .sort true n key hfilled
  have hdirection : ParamType.ofText? direction.word = none := by cases direction <;> decide
  refine ⟨⟨key', direction⟩, ?_, hkey.holes, fun m => congrArg (SortKey.mk · _) (hkey.value m), ?_⟩
  · intro rest
    have hrest := hkey.texts (direction.word :: rest)
    rwa [inlineTexts_cons_of_none hdirection] at hrest
  · intro htok
    obtain ⟨hk, hd⟩ := List.forall_mem_append.mp
      (show ∀ t ∈ [key.text] ++ [direction.word], IsToken t from htok)
    exact List.forall_mem_append.mpr ⟨hkey.tokens hk, hd⟩

/-- A limit is filled like any value, and what fills it is an integer. -/
theorem LimitPhrase.fills : phrasing.Fills ps (Term.occurrences .limit) (Term.inline ps) := by
  rintro n ⟨text, reading, hderives⟩ hfilled
  obtain ⟨hterm, hint⟩ := limitToken_iff.mp hderives
  obtain ⟨q, hq⟩ := TermPhrase.fills .limit false n ⟨text, reading, hterm⟩ hfilled
  have hlimit : LimitToken q.text q.reading := by
    refine limitToken_iff.mpr ⟨q.derives, fun l hl => ?_⟩
    have hvalue : q.reading.term false 0 = (reading.term false n).inline ps := hq.value 0
    rw [hl] at hvalue
    cases reading with
    | literal l' =>
      cases hvalue
      exact hint l rfl
    | placeholder type =>
      obtain ⟨l', hl', haccepts, -⟩ := Term.exists_literal hfilled
      have htype : type = ⟨.int, false⟩ := by
        cases hderives
        rfl
      simp only [Reading.term, Term.inline, Atom.inline, hl', Option.elim_some, Term.mk.injEq,
        Atom.literal.injEq, and_true] at hvalue
      subst hvalue htype
      have hvalueType := of_decide_eq_true haccepts
      cases l with
      | int k => exact ⟨k, rfl⟩
      | string | long | boolean => cases hvalueType
  exact ⟨⟨q.text, q.reading, hlimit⟩, hq.texts, hq.holes, hq.value, hq.tokens⟩

theorem Filter.inline_join (ps : Parameters) (op : Connective) (first : Filter)
    (others : List Filter) :
    (Chain.join (combine op) ⟨first, others⟩).inline ps =
      Chain.join (combine op) ⟨first.inline ps, others.map (Filter.inline ps)⟩ := by
  induction others generalizing first with
  | nil => rfl
  | cons f others ih => exact ih (combine op first f)

theorem disjunctions_fills : disjunctions.Fills ps Filter.occurrences (Filter.inline ps) := by
  have hand : conjunctions.Fills ps Filter.occurrences (Filter.inline ps) :=
    (ConditionPhrase.fills.chain (by decide)).map
      (fun fs => Filter.occurrences_join .and fs.1 fs.2)
      fun fs => Filter.inline_join ps .and fs.1 fs.2
  exact (hand.chain (by decide)).map (fun fs => Filter.occurrences_join .or fs.1 fs.2)
    fun fs => Filter.inline_join ps .or fs.1 fs.2

theorem setClause_fills : setClause.Fills ps
    (fun as => (as.getD []).flatMap Assignment.occurrences)
    (Option.map (List.map (Assignment.inline ps))) :=
  PairPhrase.fills.listClause (by decide)

theorem whereClause_fills : whereClause.Fills ps (fun f => f.toList.flatMap Filter.occurrences)
    (Option.map (Filter.inline ps)) :=
  disjunctions_fills.clause (by decide)

theorem sortClause_fills : sortClause.Fills ps
    (fun ks => (ks.getD []).flatMap SortKey.occurrences)
    (Option.map (List.map (SortKey.inline ps))) :=
  MemberPhrase.fills.listClause (by decide)

theorem limitClause_fills : limitClause.Fills ps
    (fun t => t.toList.flatMap (Term.occurrences .limit)) (Option.map (Term.inline ps)) :=
  LimitPhrase.fills.clause (by decide)

/-- A statement whose placeholders can all be filled, with the values in their places. -/
theorem StatementPhrase.exists_inlined {category : Category} (p : StatementPhrase category)
    (hfilled : ∀ o ∈ p.statement.occurrences, o.Filled ps) (htok : ∀ t ∈ p.texts, IsToken t) :
    ∃ q : StatementPhrase category,
      q.texts = p.kind.text :: p.category.text :: inlineTexts ps 0 p.clauseTexts ∧
      (∀ t ∈ q.texts, IsToken t) ∧ q.statement = p.statement.inline ps := by
  rw [Statement.occurrences, p.occurrences_filter] at hfilled
  simp only [List.forall_mem_append, texts, clauseTexts, List.forall_mem_cons] at hfilled htok
  obtain ⟨⟨⟨hset, hfilter⟩, horder⟩, hlimit⟩ := hfilled
  obtain ⟨hkind, hname, hsetTok, hfilterTok, horderTok, hlimitTok⟩ := htok
  obtain ⟨set', hs⟩ := setClause_fills 0 p.assignments hset
  obtain ⟨filter', hf⟩ := whereClause_fills _ p.filter hfilter
  obtain ⟨order', ho⟩ := sortClause_fills _ p.order horder
  obtain ⟨limit', hl⟩ := limitClause_fills _ p.limit hlimit
  refine ⟨⟨p.kind, p.category, set', filter', order', limit'⟩, ?_, ?_, ?_⟩
  · have hend := hl.texts []
    simp only [List.append_nil, inlineTexts] at hend
    simp only [texts, clauseTexts, hs.texts, Nat.zero_add, hf.texts, ho.texts, hend]
  · simp only [texts, clauseTexts, List.forall_mem_cons, List.forall_mem_append]
    exact ⟨hkind, hname, hs.tokens hsetTok, hf.tokens hfilterTok, ho.tokens horderTok,
      hl.tokens hlimitTok⟩
  · simp only [statement, Statement.inline, hs.holes, hf.holes, ho.holes, hl.holes, hs.value,
      hf.value, ho.value, hl.value, Option.map_map, Nat.add_zero]
    rfl

end Phrases

theorem parse_inline {d : Descriptor} {s : Statement} {ps : Parameters}
    (h : parse d.category d.text = .ok s) (hfilled : ∀ o ∈ s.occurrences, o.Filled ps) :
    parse (d.inline ps).category (d.inline ps).text = .ok (s.inline ps) := by
  obtain ⟨p, htexts, rfl⟩ := parse_eq_ok.mp h
  obtain ⟨q, hqtexts, hqtok, hq⟩ := p.exists_inlined hfilled (isToken_of_texts_eq htexts)
  have htext : (d.inline ps).text = " ".intercalate q.texts := by
    rw [Descriptor.inline, map_text_tokenize, ← htexts, hqtexts]
    rfl
  change parse d.category (d.inline ps).text = _
  refine parse_eq_ok.mpr ⟨q, ?_, hq⟩
  rw [htext, tokenTexts_intercalate, flatMap_tokenTexts hqtok]

namespace Compiled

variable {d : Descriptor} {c : Compiled} {ps : Parameters} {host host₁ host₂ host₃ : Host}
  {handle : Handle}

theorem filled_of_bind (hcompile : d.compile host = (.ok c, host₁))
    (hbind : c.bind ps host₂ = (.ok handle, host₃))
    (hplain : ∀ i < c.statement.placeholders, ∃ l, ps.literal? i = some l ∧ l.isPlain) :
    ∀ o ∈ c.statement.occurrences, o.Filled ps := by
  intro o ho
  obtain ⟨hparse, hrules, -⟩ := Descriptor.compile_eq_ok hcompile
  have hfault : o.fault? ps = none := by
    have hnone := bind_eq_ok_iff.mp ⟨handle, host₃, hbind⟩
    rw [faultOf_bind_statement hcompile, firstFault, List.findSome?_eq_none_iff] at hnone
    exact hnone o ho
  have hindex : o.index < c.statement.placeholders := by
    have hmem := List.mem_map_of_mem (f := Occurrence.index) ho
    rw [map_index_of_parse hparse] at hmem
    exact List.mem_range.mp hmem
  obtain ⟨l, hl, hlplain⟩ := hplain o.index hindex
  exact Occurrence.filled_of_fault?_eq_none hfault hl hlplain
    ((suits_of_parse hparse).key_cases (Statement.placeholder?_key hrules) ho)

/-- Placeholders agree with literals. When a statement binds with plain values, the descriptor
with these values inlined compiles as well and has no placeholders. Whatever the parameters, its
binding then makes the same calls after the duplicate. -/
theorem bind_inline_same_calls (hcompile : d.compile host = (.ok c, host₁))
    (hbind : c.bind ps host₂ = (.ok handle, host₃))
    (hplain : ∀ i < c.statement.placeholders, ∃ l, ps.literal? i = some l ∧ l.isPlain)
    (host' : Host) :
    ∃ (c' : Compiled) (host₁' : Host) (directives : List Directive),
      (d.inline ps).compile host' = (.ok c', host₁') ∧ c'.statement.placeholders = 0 ∧
      host₃.calls =
        host₂.calls ++ .duplicate c.template handle :: directives.map (.direct handle) ∧
      ∀ ps' host₂', ∃ handle' host₃', c'.bind ps' host₂' = (.ok handle', host₃') ∧
        host₃'.calls =
          host₂'.calls ++ .duplicate c'.template handle' :: directives.map (.direct handle') := by
  obtain ⟨hparse, hrules, hkind⟩ := Descriptor.compile_eq_ok hcompile
  obtain ⟨-, b, hb, hcalls⟩ := bind_eq_ok hbind
  have hfilled := filled_of_bind hcompile hbind hplain
  have hkeys := Statement.placeholder?_key hrules
  have hrules' : (c.statement.inline ps).violation? (d.inline ps).category = none :=
    (Statement.violation?_inline hkeys ps).trans hrules
  obtain ⟨c', hc', hkind', host₁', hcompile'⟩ :=
    Descriptor.compile_of_parse (parse_inline hparse hfilled) hrules' host'
  refine ⟨c', host₁', b.directives c.template.kind, hcompile', by rw [hc']; rfl, hcalls, ?_⟩
  intro ps' host₂'
  have hb' : c'.statement.bind ps' = .ok b := by
    rw [hc', Statement.bind_inline hkeys hfilled, hb]
  have hkinds : c'.template.kind = c.template.kind := by
    rw [hkind', hkind]
    rfl
  obtain ⟨host₃', hbind', hcalls'⟩ := bind_of_ok hb' host₂'
  rw [hkinds] at hbind' hcalls'
  exact ⟨_, host₃', hbind', hcalls'⟩

/-- An empty string, a string like a keyword as a key, and a negative number. -/
theorem bind_inline_same_calls_update :
    ∃ (c c' : Compiled) (host₁ host₂ host₁' : Host) (handle : Handle) (directives : List Directive),
      Descriptor.compile ⟨⟨"c", [⟨"k", none⟩]⟩, "UPDATE c SET k=?s WHERE ?s<?l"⟩ {} =
        (.ok c, host₁) ∧
      c.bind ⟨[some (.string ""), some (.string "LIMIT"), some (.long (-5))]⟩ host₁ =
        (.ok handle, host₂) ∧
      Descriptor.compile ⟨⟨"c", [⟨"k", none⟩]⟩, "UPDATE c SET k = '' WHERE 'LIMIT' < -5L"⟩ {} =
        (.ok c', host₁') ∧
      host₂.calls =
        host₁.calls ++ .duplicate c.template handle :: directives.map (.direct handle) ∧
      ∃ handle' host₂', c'.bind (.unbound 0) host₁' = (.ok handle', host₂') ∧
        host₂'.calls =
          host₁'.calls ++ .duplicate c'.template handle' :: directives.map (.direct handle') := by
  let s : Statement :=
    { kind := .update, category := "c"
      assignments := some [⟨⟨.literal (.string "k"), true⟩,
        ⟨.placeholder ⟨0, .string, false⟩, false⟩⟩]
      filter := some ⟨some (.compare ⟨.placeholder ⟨1, .string, false⟩, true⟩ .less
        ⟨.placeholder ⟨2, .long, false⟩, false⟩)⟩
      placeholders := 3 }
  let ps : Parameters := ⟨[some (.string ""), some (.string "LIMIT"), some (.long (-5))]⟩
  have hparse : parse ⟨"c", [⟨"k", none⟩]⟩ "UPDATE c SET k=?s WHERE ?s<?l" = .ok s := by
    decide +kernel
  have htext : Descriptor.inline ps ⟨⟨"c", [⟨"k", none⟩]⟩, "UPDATE c SET k=?s WHERE ?s<?l"⟩ =
      ⟨⟨"c", [⟨"k", none⟩]⟩, "UPDATE c SET k = '' WHERE 'LIMIT' < -5L"⟩ := by
    decide +kernel
  obtain ⟨c, hc, -, host₁, hcompile⟩ :=
    Descriptor.compile_of_parse (d := ⟨⟨"c", [⟨"k", none⟩]⟩, _⟩) hparse (by decide +kernel) {}
  have hok : c.statement.bind ps =
      .ok ⟨[("k", .string "")], some (.compare "LIMIT" .less (.long (-5))), [], none⟩ := by
    rw [hc]
    rfl
  obtain ⟨host₂, hbind, -⟩ := bind_of_ok hok host₁
  have hplain : ∀ i < c.statement.placeholders, ∃ l, ps.literal? i = some l ∧ l.isPlain := by
    rw [hc]
    intro i hi
    match i, hi with
    | 0, _ => exact ⟨.string "", rfl, by decide⟩
    | 1, _ => exact ⟨.string "LIMIT", rfl, by decide⟩
    | 2, _ => exact ⟨.long (-5), rfl, by decide⟩
  obtain ⟨c', host₁', directives, hcompile', -, hcalls, hsame⟩ :=
    bind_inline_same_calls hcompile hbind hplain {}
  rw [htext] at hcompile'
  exact ⟨c, c', host₁, host₂, host₁', _, directives, hcompile, hbind, hcompile', hcalls,
    hsame _ host₁'⟩

end Compiled

end CategoryStatements
