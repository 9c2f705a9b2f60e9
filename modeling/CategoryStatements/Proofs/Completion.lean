import CategoryStatements.Proofs.Promptness
import CategoryStatements.Proofs.Lexemes

/-! Completion. Where a reader stops because a token is missing, the tokens before can be made
into a phrase: each reader says which texts would be enough. -/
namespace CategoryStatements

/-- Texts that complete every phrase: a key, a value, a limit, and what stands between and behind
them. -/
def fillers : List String := ["k", "=", "true", "ASC", "?i"]

instance (text : String) : Decidable (IsToken text) := inferInstanceAs (Decidable (_ = _))

theorem isToken_of_mem_fillers : ∀ u ∈ fillers, IsToken u := by
  decide +kernel

namespace Phrasing

/-- Fillers behind the texts make a phrase of them. -/
def Completable (P : Phrasing φ α) (texts : List String) : Prop :=
  ∃ p us, (∀ u ∈ us, u ∈ fillers) ∧ P.texts p = texts ++ us

/-- Where the reader misses a token, what is there can be completed. -/
def CompletedBy (P : Phrasing φ α) (r : Reader α) : Prop :=
  ∀ c expected offset, r c = .error (.premature expected offset) →
    P.Completable (c.tokens.map Token.text)

end Phrasing

theorem Cursor.Passes.map_text {c c' : Cursor} {texts : List String} {holes : Nat}
    (h : c.Passes texts holes c') :
    c.tokens.map Token.text = texts ++ c'.tokens.map Token.text := by
  obtain ⟨used, ht, rfl, -⟩ := h
  rw [ht, List.map_append]

theorem Fault.FoundAt.not_premature {before : List Token} {token : Token}
    {expected : Expectation} {offset : Nat} :
    ¬(Fault.premature expected offset).FoundAt before token := by
  rintro ⟨-, -, found⟩
  cases found rfl

namespace Reader

theorem bind_eq_error {x : Reader α} {f : α → Reader β} {c : Cursor} {fault : Fault} :
    (x >>= f) c = .error fault ↔
      x c = .error fault ∨ ∃ a mid, x c = .ok (a, mid) ∧ f a mid = .error fault := by
  rw [bind_apply]
  cases x c with
  | error fault' => simp [Except.bind]
  | ok p => simp [Except.bind, Prod.ext_iff]

theorem pure_eq_error {a : α} {c : Cursor} {fault : Fault} :
    (pure a : Reader α) c = .error fault ↔ False := by
  change Except.ok (a, c) = .error fault ↔ _
  simp

theorem TakesOne.tokens_eq_nil {r : Reader α} (h : r.TakesOne) {c : Cursor}
    {expected : Expectation} {offset : Nat} (hr : r c = .error (.premature expected offset)) :
    c.tokens = [] := by
  obtain ⟨expected', f, rfl, hf⟩ := h
  rw [bind_eq_error] at hr
  rcases hr with hr | ⟨token, mid, -, hr⟩
  · cases hc : c.tokens with
    | nil => rfl
    | cons token rest => simp [next, hc] at hr
  · rcases hf token with ⟨value, holes, hok⟩ | ⟨fault, hfault, herror⟩
    · rw [hok] at hr
      cases hr
    · rw [herror] at hr
      cases hr
      exact absurd hfault Fault.FoundAt.not_premature

end Reader

def TermPhrase.someKey {clause : Clause} : TermPhrase clause true :=
  ⟨"k", _, .bareWord (by decide)⟩

def TermPhrase.someValue {clause : Clause} : TermPhrase clause false := ⟨"true", _, .boolean true⟩

namespace Reader

theorem assignment_completedBy : PairPhrase.phrasing.CompletedBy assignment := by
  intro c expected offset h
  simp only [assignment, bind_eq_error, pure_eq_error, and_false, exists_false, or_false] at h
  rcases h with h | ⟨_, c₁, hk, h | ⟨_, c₂, he, h⟩⟩
  · rw [(key_takesOne .set).tokens_eq_nil h]
    exact ⟨⟨.someKey, .someValue⟩, ["k", "=", "true"], by decide, rfl⟩
  · obtain ⟨k, hpass, -⟩ := (key_readBy .set _ _ _).mp hk
    rw [hpass.map_text, equals_takesOne.tokens_eq_nil h]
    exact ⟨⟨k, .someValue⟩, ["=", "true"], by decide, rfl⟩
  · obtain ⟨k, hpass, -⟩ := (key_readBy .set _ _ _).mp hk
    have hpass' := equals_eq_ok.mp he
    rw [hpass.map_text, hpass'.map_text, (value_takesOne .set).tokens_eq_nil h]
    exact ⟨⟨k, .someValue⟩, ["true"], by decide, rfl⟩

theorem comparison_completedBy : ComparisonPhrase.phrasing.CompletedBy comparison := by
  intro c expected offset h
  simp only [comparison, bind_eq_error, pure_eq_error, and_false, exists_false, or_false] at h
  rcases h with h | ⟨_, c₁, hk, h | ⟨op, c₂, ho, h⟩⟩
  · rw [(key_takesOne .filter).tokens_eq_nil h]
    exact ⟨⟨.someKey, .equal, .someValue⟩, ["k", "=", "true"], by decide, rfl⟩
  · obtain ⟨k, hpass, -⟩ := (key_readBy .filter _ _ _).mp hk
    rw [hpass.map_text, comparisonOperator_takesOne.tokens_eq_nil h]
    exact ⟨⟨k, .equal, .someValue⟩, ["=", "true"], by decide, rfl⟩
  · obtain ⟨k, hpass, -⟩ := (key_readBy .filter _ _ _).mp hk
    have hpass' := comparisonOperator_eq_ok.mp ho
    rw [hpass.map_text, hpass'.map_text, (value_takesOne .filter).tokens_eq_nil h]
    exact ⟨⟨k, op, .someValue⟩, ["true"], by decide, rfl⟩

theorem sortKey_completedBy : MemberPhrase.phrasing.CompletedBy sortKey := by
  intro c expected offset h
  simp only [sortKey, bind_eq_error, pure_eq_error, and_false, exists_false, or_false] at h
  rcases h with h | ⟨_, c₁, hk, h⟩
  · rw [(key_takesOne .sort).tokens_eq_nil h]
    exact ⟨⟨.someKey, .ascending⟩, ["k", "ASC"], by decide, rfl⟩
  · obtain ⟨k, hpass, -⟩ := (key_readBy .sort _ _ _).mp hk
    rw [hpass.map_text, direction_takesOne.tokens_eq_nil h]
    exact ⟨⟨k, .ascending⟩, ["ASC"], by decide, rfl⟩

theorem limit_completedBy : LimitPhrase.phrasing.CompletedBy limit := by
  intro c expected offset h
  rw [limit, bind_eq_error] at h
  rcases h with h | ⟨⟨atom, isKey⟩, c₁, -, h⟩
  · rw [(value_takesOne .limit).tokens_eq_nil h]
    exact ⟨⟨"?i", _, .placeholder⟩, ["?i"], by decide, rfl⟩
  · rcases atom with l | p
    · cases l <;> cases h
    · cases h

/-- Negations in front are kept. -/
theorem condition_completedBy : ConditionPhrase.phrasing.CompletedBy condition := by
  intro c expected offset h
  simp only [condition, bind_eq_error, pure_eq_error, and_false, exists_false, or_false] at h
  rcases h with h | ⟨k, c₁, hnots, h⟩
  · cases h
  · obtain ⟨p, us, hus, htexts⟩ := comparison_completedBy c₁ _ _ h
    refine ⟨.negated k p, us, hus, ?_⟩
    rw [(negations_eq_ok.mp hnots).1.map_text, List.append_assoc, ← htexts]
    exact ConditionPhrase.texts_negated k p

end Reader

namespace Phrasing.CompletedBy

variable {P : Phrasing φ α} {item : Reader α}

theorem map (h : P.CompletedBy item) (f : α → β) :
    (P.map f).CompletedBy (do return f (← item)) := by
  intro c expected offset hr
  simp only [Reader.bind_eq_error, Reader.pure_eq_error, and_false, exists_false, or_false] at hr
  exact h c _ _ hr

/-- The items before the last one are phrases already. -/
theorem chain (hread : P.ReadBy item) (h : P.CompletedBy item) (separator : String) :
    (P.chain separator).CompletedBy (Reader.chain separator item) := by
  intro c expected offset hr
  fun_induction Reader.chain separator item c with
  | case1 c fault hitem =>
    cases hr
    obtain ⟨p, us, hus, htexts⟩ := h c _ _ hitem
    exact ⟨⟨p, []⟩, us, hus, by rw [texts_chain_nil, htexts]⟩
  | case2 c first c₁ hitem hc₁ => cases hr
  | case3 c first c₁ hitem token rest hc₁ hsep fault hchain ih =>
    cases hr
    obtain ⟨p, hpass, -⟩ := (hread _ _ _).mp hitem
    obtain ⟨⟨q, qs⟩, us, hus, htexts⟩ := ih hchain
    refine ⟨⟨p, q :: qs⟩, us, hus, ?_⟩
    rw [texts_chain_cons, htexts, hpass.map_text, hc₁, List.map_cons, hsep.1]
    simp
  | case4 c first c₁ hitem token rest hc₁ hsep second others c₂ hchain ih => cases hr
  | case5 c first c₁ hitem token rest hc₁ hsep => cases hr

theorem clause (h : P.CompletedBy item) (keyword : Keyword) :
    (P.clause keyword.spelling).CompletedBy (Reader.after keyword item) := by
  intro c expected offset hr
  by_cases havoid : c.Avoids [keyword.spelling]
  · rw [Reader.after_of_avoids havoid] at hr
    cases hr
  · obtain ⟨token, rest, hc, ht⟩ := Cursor.exists_of_not_avoids havoid
    rw [Cursor.eq_mk_of_tokens hc, Reader.after_of_keyword ht] at hr
    simp only [Reader.bind_eq_error, Reader.pure_eq_error, and_false, exists_false, or_false] at hr
    obtain ⟨p, us, hus, htexts⟩ := h _ _ _ hr
    refine ⟨some p, us, hus, ?_⟩
    rw [hc, List.map_cons, ht, List.cons_append, ← htexts]
    rfl

end Phrasing.CompletedBy

namespace Reader

theorem list_completedBy {P : Phrasing φ α} {item : Reader α} (hread : P.ReadBy item)
    (h : P.CompletedBy item) :
    ((P.chain ",").map fun as => as.1 :: as.2).CompletedBy (list item) :=
  (h.chain hread ",").map _

theorem conjunction_completedBy : conjunctions.CompletedBy conjunction :=
  (condition_completedBy.chain condition_readBy _).map _

theorem disjunction_completedBy : disjunctions.CompletedBy disjunction :=
  (conjunction_completedBy.chain conjunction_readBy _).map _

theorem setClause_completedBy : setClause.CompletedBy (after .set (list assignment)) :=
  (list_completedBy assignment_readBy assignment_completedBy).clause .set

theorem whereClause_completedBy : whereClause.CompletedBy (after .filter disjunction) :=
  disjunction_completedBy.clause .filter

theorem sortClause_completedBy : sortClause.CompletedBy (after .sort (list sortKey)) :=
  (list_completedBy sortKey_readBy sortKey_completedBy).clause .sort

theorem limitClause_completedBy : limitClause.CompletedBy (after .limit limit) :=
  limit_completedBy.clause .limit

theorem finish_ne_premature {c : Cursor} {expected : Expectation} {offset : Nat} :
    finish c ≠ .error (.premature expected offset) := by
  unfold finish
  split <;> simp

/-- Where a statement misses a token, it can be completed, given a token that names the
category. -/
theorem statement_completes {category : Category} (name : CategoryPhrase category)
    (hname : IsToken name.text) {c : Cursor} {expected : Expectation} {offset : Nat}
    (h : statement category c = .error (.premature expected offset)) :
    ∃ (p : StatementPhrase category) (us : List String),
      (∀ u ∈ us, IsToken u) ∧ p.texts = c.tokens.map Token.text ++ us := by
  have hfill : ∀ us : List String, (∀ u ∈ us, u ∈ fillers) → ∀ u ∈ us, IsToken u :=
    fun us hus u hu => isToken_of_mem_fillers u (hus u hu)
  have hnone : whereClause.texts none = [] ∧ sortClause.texts none = [] ∧
      limitClause.texts none = [] := ⟨rfl, rfl, rfl⟩
  simp only [statement, bind_eq_error, pure_eq_error, and_false, exists_false, or_false] at h
  rcases h with h | ⟨_, c₁, hkind, h | ⟨_, c₂, hcat, h | ⟨_, c₃, hset, h | ⟨_, c₄, hfilter, h |
    ⟨_, c₅, horder, h | ⟨_, c₆, -, h | ⟨_, _, -, h⟩⟩⟩⟩⟩⟩⟩
  · rw [kind_takesOne.tokens_eq_nil h]
    refine ⟨⟨⟨"QUERY", _, .plain .query⟩, name, none, none, none, none⟩, ["QUERY", name.text],
      ?_, rfl⟩
    exact List.forall_mem_cons.mpr ⟨by decide +kernel, by simpa using hname⟩
  · obtain ⟨kind, -, hkind⟩ := kind_eq_ok.mp hkind
    rw [hkind.map_text, (categoryName_takesOne category).tokens_eq_nil h]
    exact ⟨⟨kind, name, none, none, none, none⟩, [name.text], by simpa using hname, rfl⟩
  all_goals
    obtain ⟨kind, -, hkind⟩ := kind_eq_ok.mp hkind
    obtain ⟨-, cat, hcat⟩ := categoryName_eq_ok.mp hcat
    rw [hkind.map_text, hcat.map_text]
  · obtain ⟨set, us, hus, htexts⟩ := setClause_completedBy c₂ _ _ h
    refine ⟨⟨kind, cat, set, none, none, none⟩, us, hfill us hus, ?_⟩
    simp [StatementPhrase.texts, StatementPhrase.clauseTexts, htexts, hnone]
  all_goals
    obtain ⟨set, hset, -⟩ := (setClause_readBy _ _ _).mp hset
    rw [hset.map_text]
  · obtain ⟨filter, us, hus, htexts⟩ := whereClause_completedBy c₃ _ _ h
    refine ⟨⟨kind, cat, set, filter, none, none⟩, us, hfill us hus, ?_⟩
    simp [StatementPhrase.texts, StatementPhrase.clauseTexts, htexts, hnone]
  all_goals
    obtain ⟨filter, hfilter, -⟩ := (whereClause_readBy _ _ _).mp hfilter
    rw [hfilter.map_text]
  · obtain ⟨order, us, hus, htexts⟩ := sortClause_completedBy c₄ _ _ h
    refine ⟨⟨kind, cat, set, filter, order, none⟩, us, hfill us hus, ?_⟩
    simp [StatementPhrase.texts, StatementPhrase.clauseTexts, htexts, hnone]
  · obtain ⟨order, horder, -⟩ := (sortClause_readBy _ _ _).mp horder
    rw [horder.map_text]
    obtain ⟨limit, us, hus, htexts⟩ := limitClause_completedBy c₅ _ _ h
    refine ⟨⟨kind, cat, set, filter, order, limit⟩, us, hfill us hus, ?_⟩
    simp [StatementPhrase.texts, StatementPhrase.clauseTexts, htexts]
  · exact absurd h finish_ne_premature
  · cases h

end Reader

end CategoryStatements
