import CategoryStatements.Proofs.Readers

/-! Acceptance. A sequence of tokens is read as a statement exactly when it spells a phrase, the
phrase is the only one that it spells, and the statement is the phrase's meaning. -/
namespace CategoryStatements

/-- A phrase is settled by its texts, as long as nothing follows that goes on with it. -/
def Phrasing.Unambiguous (P : Phrasing φ α) : Prop :=
  ∀ p q xs ys, P.texts p ++ xs = P.texts q ++ ys → (∀ t ∈ xs.head?, t ∉ P.goesOn p) →
    (∀ t ∈ ys.head?, t ∉ P.goesOn q) → p = q ∧ xs = ys

theorem TermPhrase.ext_text {clause : Clause} {isKey : Bool} {p q : TermPhrase clause isKey}
    (h : p.text = q.text) : p = q := by
  obtain ⟨text, r, hr⟩ := p
  obtain ⟨text', r', hr'⟩ := q
  obtain rfl : text = text' := h
  obtain rfl := hr.unique hr'
  rfl

theorem LimitPhrase.ext_text {p q : LimitPhrase} (h : p.text = q.text) : p = q := by
  obtain ⟨text, r, hr⟩ := p
  obtain ⟨text', r', hr'⟩ := q
  obtain rfl : text = text' := h
  obtain rfl := hr.unique hr'
  rfl

theorem KindPhrase.ext_text {p q : KindPhrase} (h : p.text = q.text) : p = q := by
  obtain ⟨text, r, hr⟩ := p
  obtain ⟨text', r', hr'⟩ := q
  obtain rfl : text = text' := h
  have hread := readKind?_eq_some.mpr hr
  rw [readKind?_eq_some.mpr hr'] at hread
  cases hread
  rfl

theorem PairPhrase.unambiguous : PairPhrase.phrasing.Unambiguous := by
  rintro ⟨k, v⟩ ⟨k', v'⟩ xs ys h - -
  simp only [phrasing, List.cons_append, List.nil_append, List.cons.injEq] at h
  obtain ⟨hk, -, hv, rfl⟩ := h
  rw [TermPhrase.ext_text hk, TermPhrase.ext_text hv]
  exact ⟨rfl, rfl⟩

theorem MemberPhrase.unambiguous : MemberPhrase.phrasing.Unambiguous := by
  rintro ⟨k, d⟩ ⟨k', d'⟩ xs ys h - -
  simp only [phrasing, Direction.word_eq, List.cons_append, List.nil_append, List.cons.injEq] at h
  obtain ⟨hk, hd, rfl⟩ := h
  have hd' := Direction.ofText?_eq_some.mpr hd
  rw [Direction.ofText?_eq_some.mpr rfl] at hd'
  cases hd'
  rw [TermPhrase.ext_text hk]
  exact ⟨rfl, rfl⟩

theorem LimitPhrase.unambiguous : LimitPhrase.phrasing.Unambiguous := by
  intro p q xs ys h _ _
  simp only [phrasing, List.cons_append, List.nil_append, List.cons.injEq] at h
  exact ⟨ext_text h.1, h.2⟩

theorem ComparisonPhrase.ext_texts {p q : ComparisonPhrase} {xs ys : List String}
    (h : phrasing.texts p ++ xs = phrasing.texts q ++ ys) : p = q ∧ xs = ys := by
  obtain ⟨k, op, v⟩ := p
  obtain ⟨k', op', v'⟩ := q
  simp only [phrasing, Comparison.word_eq, List.cons_append, List.nil_append, List.cons.injEq] at h
  obtain ⟨hk, ho, hv, rfl⟩ := h
  have ho' := Comparison.ofText?_eq_some.mpr ho
  rw [Comparison.ofText?_eq_some.mpr rfl] at ho'
  cases ho'
  rw [TermPhrase.ext_text hk, TermPhrase.ext_text hv]
  exact ⟨rfl, rfl⟩

theorem ConditionPhrase.unambiguous : ConditionPhrase.phrasing.Unambiguous := by
  intro p q xs ys h _ _
  induction p generalizing q with
  | compare p =>
    cases q with
    | compare q =>
      obtain ⟨rfl, hrest⟩ := ComparisonPhrase.ext_texts h
      exact ⟨rfl, hrest⟩
    | not q => exact absurd (List.head_eq_of_cons_eq h) (p.key.text_ne_keyword .not)
  | not p ih =>
    cases q with
    | compare q => exact absurd (List.head_eq_of_cons_eq h).symm (q.key.text_ne_keyword .not)
    | not q =>
      obtain ⟨rfl, hrest⟩ := ih q (List.tail_eq_of_cons_eq h) (by simp [phrasing])
        (by simp [phrasing])
      exact ⟨rfl, hrest⟩

namespace Phrasing

variable {P : Phrasing φ α}

theorem texts_chain_nil {separator : String} {p : φ} :
    (P.chain separator).texts ⟨p, []⟩ = P.texts p := by
  simp [Phrasing.chain]

theorem texts_chain_cons {separator : String} {p q : φ} {qs : List φ} :
    (P.chain separator).texts ⟨p, q :: qs⟩ =
      P.texts p ++ separator :: (P.chain separator).texts ⟨q, qs⟩ := by
  simp [Phrasing.chain]

theorem Unambiguous.chain (h : P.Unambiguous) {separator : String}
    (hsep : ∀ p, separator ∉ P.goesOn p) : (P.chain separator).Unambiguous := by
  have hsep' : ∀ p rest, ∀ t ∈ (separator :: rest).head?, t ∉ P.goesOn p := by
    rintro p rest t ht
    obtain rfl : separator = t := by simpa using ht
    exact hsep p
  rintro ⟨p, ps⟩ ⟨q, qs⟩ xs ys htexts hxs hys
  induction ps generalizing p q qs with
  | nil =>
    have hp : ∀ t ∈ xs.head?, t ∉ P.goesOn p := fun t ht hmem => hxs t ht (by
      simp [Phrasing.chain, Chain.last, hmem])
    rw [texts_chain_nil] at htexts
    cases qs with
    | nil =>
      rw [texts_chain_nil] at htexts
      have hq : ∀ t ∈ ys.head?, t ∉ P.goesOn q := fun t ht hmem => hys t ht (by
        simp [Phrasing.chain, Chain.last, hmem])
      obtain ⟨rfl, rfl⟩ := h p q xs ys htexts hp hq
      exact ⟨rfl, rfl⟩
    | cons q' qs =>
      rw [texts_chain_cons, List.append_assoc] at htexts
      obtain ⟨-, rfl⟩ := h p q _ _ htexts hp (hsep' q _)
      exact absurd (List.mem_cons_self ..) (hxs separator (by simp))
  | cons p' ps ih =>
    rw [texts_chain_cons, List.append_assoc] at htexts
    rw [goesOn_chain_cons] at hxs
    cases qs with
    | nil =>
      rw [texts_chain_nil] at htexts
      have hq : ∀ t ∈ ys.head?, t ∉ P.goesOn q := fun t ht hmem => hys t ht (by
        simp [Phrasing.chain, Chain.last, hmem])
      obtain ⟨-, rfl⟩ := h p q _ _ htexts (hsep' p _) hq
      exact absurd (List.mem_cons_self ..) (hys separator (by simp))
    | cons q' qs =>
      rw [texts_chain_cons, List.append_assoc] at htexts
      rw [goesOn_chain_cons] at hys
      obtain ⟨rfl, hrest⟩ := h p q _ _ htexts (hsep' p _) (hsep' q _)
      obtain ⟨hchain, rfl⟩ := ih p' q' qs (List.tail_eq_of_cons_eq hrest) hxs hys
      cases hchain
      exact ⟨rfl, rfl⟩

theorem Unambiguous.map (h : P.Unambiguous) (f : α → β) : (P.map f).Unambiguous := h

theorem Unambiguous.clause (h : P.Unambiguous) (word : String) : (P.clause word).Unambiguous := by
  rintro (_ | p) (_ | q) xs ys htexts hxs hys
  · exact ⟨rfl, htexts⟩
  · obtain rfl : xs = word :: (P.texts q ++ ys) := htexts
    exact absurd (List.mem_singleton_self _) (hxs word (by simp))
  · obtain rfl : word :: (P.texts p ++ xs) = ys := htexts
    exact absurd (List.mem_singleton_self _) (hys word (by simp))
  · obtain ⟨rfl, rfl⟩ := h p q xs ys (List.tail_eq_of_cons_eq htexts) hxs hys
    exact ⟨rfl, rfl⟩

end Phrasing

theorem setClause_unambiguous : setClause.Unambiguous :=
  (PairPhrase.unambiguous.chain (by simp [PairPhrase.phrasing])).map _ |>.clause "SET"

theorem disjunctions_unambiguous : disjunctions.Unambiguous := by
  have hand : conjunctions.Unambiguous :=
    (ConditionPhrase.unambiguous.chain (by simp [ConditionPhrase.phrasing])).map _
  have hsep : ∀ p, "OR" ∉ conjunctions.goesOn p := by
    intro p
    simp [conjunctions, Phrasing.map, Phrasing.chain, ConditionPhrase.phrasing]
  exact (hand.chain hsep).map _

theorem whereClause_unambiguous : whereClause.Unambiguous :=
  disjunctions_unambiguous.clause "WHERE"

theorem sortClause_unambiguous : sortClause.Unambiguous :=
  (MemberPhrase.unambiguous.chain (by simp [MemberPhrase.phrasing])).map _ |>.clause "SORT"

theorem limitClause_unambiguous : limitClause.Unambiguous :=
  LimitPhrase.unambiguous.clause "LIMIT"

namespace StatementPhrase

variable {category : Category}

/-- What comes after a clause never goes on with it. -/
theorem boundaries (p : StatementPhrase category) :
    (∀ t ∈ (whereClause.texts p.filter ++ (sortClause.texts p.order ++
      limitClause.texts p.limit)).head?, t ∉ setClause.goesOn p.assignments) ∧
    (∀ t ∈ (sortClause.texts p.order ++ limitClause.texts p.limit).head?,
      t ∉ whereClause.goesOn p.filter) ∧
    ∀ t ∈ (limitClause.texts p.limit).head?, t ∉ sortClause.goesOn p.order := by
  obtain ⟨_, _, set, filter, order, limit⟩ := p
  cases set <;> cases filter <;> cases order <;> cases limit <;>
    simp [setClause, whereClause, sortClause, limitClause, Phrasing.clause, Phrasing.map,
      Phrasing.chain, disjunctions, conjunctions, PairPhrase.phrasing, ConditionPhrase.phrasing,
      MemberPhrase.phrasing]

theorem ext_texts {p q : StatementPhrase category} (h : p.texts = q.texts) : p = q := by
  have hp := p.boundaries
  have hq := q.boundaries
  obtain ⟨kind, cat, set, filter, order, limit⟩ := p
  obtain ⟨kind', cat', set', filter', order', limit'⟩ := q
  simp only [texts, clauseTexts, List.cons.injEq] at h hp hq
  obtain ⟨hkind, hcat, h⟩ := h
  obtain rfl := KindPhrase.ext_text hkind
  obtain rfl : cat = cat' := by
    cases cat
    cases cat'
    simpa using hcat
  obtain ⟨rfl, hfilter⟩ := setClause_unambiguous _ _ _ _ h hp.1 hq.1
  obtain ⟨rfl, horder⟩ := whereClause_unambiguous _ _ _ _ hfilter hp.2.1 hq.2.1
  obtain ⟨rfl, hlimit⟩ := sortClause_unambiguous _ _ _ _ horder hp.2.2 hq.2.2
  have hend : limitClause.texts limit ++ [] = limitClause.texts limit' ++ [] := by rw [hlimit]
  obtain ⟨rfl, -⟩ := limitClause_unambiguous _ _ _ _ hend (by simp) (by simp)
  rfl

end StatementPhrase

theorem Cursor.avoids_of_passes {c c' : Cursor} {texts stops : List String} {holes : Nat}
    (h : c.Passes texts holes c') (hend : c'.tokens = []) (hstops : ∀ t ∈ texts.head?, t ∉ stops) :
    c.Avoids stops := by
  obtain ⟨used, ht, rfl, -⟩ := h
  rw [hend, List.append_nil] at ht
  intro token htoken
  apply hstops
  simpa [← ht] using ⟨token, htoken, rfl⟩

namespace Reader

variable {category : Category}

theorem get_eq_ok {a c c' : Cursor} : (get : Reader Cursor) c = .ok (a, c') ↔ a = c ∧ c' = c := by
  change Except.ok (c, c) = .ok (a, c') ↔ _
  simp [eq_comm]

/-- The readers of a statement, each picking up where the one before it left off. -/
theorem statement_eq_ok {s : Statement} {c c' : Cursor} :
    statement category c = .ok (s, c') ↔
      ∃ (p : StatementPhrase category) (c₁ c₂ c₃ c₄ c₅ : Cursor),
        c.Passes [p.kind.text] 0 c₁ ∧ c₁.Passes [p.category.text] 0 c₂ ∧
        (c₂.Passes (setClause.texts p.assignments) (setClause.holes p.assignments) c₃ ∧
          c₃.Avoids (setClause.goesOn p.assignments)) ∧
        (c₃.Passes (whereClause.texts p.filter) (whereClause.holes p.filter) c₄ ∧
          c₄.Avoids (whereClause.goesOn p.filter)) ∧
        (c₄.Passes (sortClause.texts p.order) (sortClause.holes p.order) c₅ ∧
          c₅.Avoids (sortClause.goesOn p.order)) ∧
        (c₅.Passes (limitClause.texts p.limit) (limitClause.holes p.limit) c' ∧
          c'.Avoids (limitClause.goesOn p.limit)) ∧
        c'.tokens = [] ∧
        s = { kind := p.kind.reading.1, aggregateKey := p.kind.reading.2, category := category.name
              assignments := setClause.value c₂.placeholders p.assignments
              filter := (whereClause.value c₃.placeholders p.filter).map fun f => ⟨some f⟩
              order := sortClause.value c₄.placeholders p.order
              limit := limitClause.value c₅.placeholders p.limit
              placeholders := c'.placeholders } := by
  simp only [statement, bind_eq_ok, kind_eq_ok, categoryName_eq_ok, setClause_readBy _ _ _,
    whereClause_readBy _ _ _, sortClause_readBy _ _ _, limitClause_readBy _ _ _, finish_eq_ok,
    get_eq_ok, pure_eq_ok]
  constructor
  · rintro ⟨_, c₁, ⟨kind, rfl, hkind⟩, _, c₂, ⟨rfl, cat, hcat⟩, _, c₃, ⟨set, hset, hset', rfl⟩,
      _, c₄, ⟨filter, hfilter, hfilter', rfl⟩, _, c₅, ⟨order, horder, horder', rfl⟩, _, c₆,
      ⟨limit, hlimit, hlimit', rfl⟩, _, _, ⟨hend, rfl⟩, _, _, ⟨rfl, rfl⟩, rfl, rfl⟩
    exact ⟨⟨kind, cat, set, filter, order, limit⟩, c₁, c₂, c₃, c₄, c₅, hkind, hcat,
      ⟨hset, hset'⟩, ⟨hfilter, hfilter'⟩, ⟨horder, horder'⟩, ⟨hlimit, hlimit'⟩, hend, rfl⟩
  · rintro ⟨⟨kind, cat, set, filter, order, limit⟩, c₁, c₂, c₃, c₄, c₅, hkind, hcat,
      ⟨hset, hset'⟩, ⟨hfilter, hfilter'⟩, ⟨horder, horder'⟩, ⟨hlimit, hlimit'⟩, hend, rfl⟩
    exact ⟨_, c₁, ⟨kind, rfl, hkind⟩, _, c₂, ⟨rfl, cat, hcat⟩, _, c₃, ⟨set, hset, hset', rfl⟩,
      _, c₄, ⟨filter, hfilter, hfilter', rfl⟩, _, c₅, ⟨order, horder, horder', rfl⟩, _, c',
      ⟨limit, hlimit, hlimit', rfl⟩, (), c', ⟨hend, rfl⟩, _, _, ⟨rfl, rfl⟩, rfl, rfl⟩

theorem statement_sound {s : Statement} {c c' : Cursor} (h0 : c.placeholders = 0)
    (h : statement category c = .ok (s, c')) :
    ∃ p : StatementPhrase category,
      c.Passes p.texts p.statement.placeholders c' ∧ c'.tokens = [] ∧ s = p.statement := by
  obtain ⟨p, c₁, c₂, c₃, c₄, c₅, hkind, hcat, ⟨hset, -⟩, ⟨hfilter, -⟩, ⟨horder, -⟩, ⟨hlimit, -⟩,
    hend, rfl⟩ := statement_eq_ok.mp h
  have hclauses := Cursor.passes_append.mpr ⟨c₃, hset, Cursor.passes_append.mpr ⟨c₄, hfilter,
    Cursor.passes_append.mpr ⟨c₅, horder, hlimit⟩⟩⟩
  have hall := Cursor.passes_append.mpr ⟨c₁, hkind, Cursor.passes_append.mpr ⟨c₂, hcat, hclauses⟩⟩
  simp only [← Nat.add_assoc, Nat.zero_add] at hall
  refine ⟨p, hall, hend, ?_⟩
  rw [hlimit.placeholders_eq, horder.placeholders_eq, hfilter.placeholders_eq,
    hset.placeholders_eq, hcat.placeholders_eq, hkind.placeholders_eq, h0]
  simp [StatementPhrase.statement]

theorem statement_complete (p : StatementPhrase category) {c c' : Cursor}
    (h0 : c.placeholders = 0) (h : c.Passes p.texts p.statement.placeholders c')
    (hend : c'.tokens = []) : statement category c = .ok (p.statement, c') := by
  obtain ⟨hb₁, hb₂, hb₃⟩ := p.boundaries
  have hholes : p.statement.placeholders =
      0 + (0 + (setClause.holes p.assignments + (whereClause.holes p.filter +
        (sortClause.holes p.order + limitClause.holes p.limit)))) := by
    simp [StatementPhrase.statement, Nat.add_assoc]
  rw [hholes] at h
  obtain ⟨c₁, hkind, h₁⟩ := Cursor.passes_append.mp
    (show c.Passes ([p.kind.text] ++ ([p.category.text] ++ p.clauseTexts)) _ c' from h)
  obtain ⟨c₂, hcat, h₂⟩ := Cursor.passes_append.mp h₁
  obtain ⟨c₃, hset, h₃⟩ := Cursor.passes_append.mp h₂
  obtain ⟨c₄, hfilter, h₄⟩ := Cursor.passes_append.mp h₃
  obtain ⟨c₅, horder, hlimit⟩ := Cursor.passes_append.mp h₄
  refine statement_eq_ok.mpr ⟨p, c₁, c₂, c₃, c₄, c₅, hkind, hcat,
    ⟨hset, Cursor.avoids_of_passes h₃ hend hb₁⟩, ⟨hfilter, Cursor.avoids_of_passes h₄ hend hb₂⟩,
    ⟨horder, Cursor.avoids_of_passes hlimit hend hb₃⟩,
    ⟨hlimit, Cursor.avoids_of_tokens_eq_nil hend _⟩, hend, ?_⟩
  rw [hlimit.placeholders_eq, horder.placeholders_eq, hfilter.placeholders_eq,
    hset.placeholders_eq, hcat.placeholders_eq, hkind.placeholders_eq, h0]
  simp [StatementPhrase.statement]

end Reader

theorem parseTokens_eq_ok {category : Category} {tokens : List Token} {stop : Nat}
    {s : Statement} :
    parseTokens category tokens stop = .ok s ↔
      ∃ p : StatementPhrase category, p.texts = tokens.map Token.text ∧ p.statement = s := by
  constructor
  · intro h
    unfold parseTokens at h
    split at h
    · next s' c' hread =>
      cases h
      obtain ⟨p, ⟨used, ht, hu, -⟩, hend, rfl⟩ := Reader.statement_sound rfl hread
      rw [hend, List.append_nil] at ht
      exact ⟨p, by rw [← hu, ← ht], rfl⟩
    · cases h
  · rintro ⟨p, htexts, rfl⟩
    have hpass : Cursor.Passes { tokens, stop } p.texts p.statement.placeholders
        ⟨[], stop, p.statement.placeholders⟩ :=
      ⟨tokens, by simp, htexts.symm, rfl, by simp⟩
    rw [parseTokens, Reader.statement_complete p rfl hpass rfl]

/-- The readers accept the grammar and nothing else. Tokens that are read spell exactly one
phrase, and what is read is what the phrase means. -/
theorem parseTokens_accepts_grammar (category : Category) (tokens : List Token) (stop : Nat) :
    ((∃ s, parseTokens category tokens stop = .ok s) ↔
      ∃ p : StatementPhrase category, p.texts = tokens.map Token.text) ∧
    ∀ s, parseTokens category tokens stop = .ok s →
      ∃ p : StatementPhrase category, p.texts = tokens.map Token.text ∧ p.statement = s ∧
        ∀ q : StatementPhrase category, q.texts = tokens.map Token.text → q = p := by
  refine ⟨⟨?_, ?_⟩, ?_⟩
  · rintro ⟨s, h⟩
    obtain ⟨p, htexts, -⟩ := parseTokens_eq_ok.mp h
    exact ⟨p, htexts⟩
  · rintro ⟨p, htexts⟩
    exact ⟨p.statement, parseTokens_eq_ok.mpr ⟨p, htexts, rfl⟩⟩
  · intro s h
    obtain ⟨p, htexts, hs⟩ := parseTokens_eq_ok.mp h
    exact ⟨p, htexts, hs, fun q hq => StatementPhrase.ext_texts (hq.trans htexts.symm)⟩

end CategoryStatements
