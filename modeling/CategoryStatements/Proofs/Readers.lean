import CategoryStatements.Proofs.TokenReadings

/-! Readers against phrases. A reader reads a phrasing when it succeeds exactly on the phrases
that cannot go on, with their meaning as its result. Each reader is shown to read the phrasing
of its name, the repetitions once for all separators and items. -/
namespace CategoryStatements

namespace Cursor

/-- The texts and that many placeholders stand between two cursors of one text. -/
def Passes (c : Cursor) (texts : List String) (holes : Nat) (c' : Cursor) : Prop :=
  ∃ used, c.tokens = used ++ c'.tokens ∧ used.map Token.text = texts ∧ c'.stop = c.stop ∧
    c'.placeholders = c.placeholders + holes

/-- The next text, if there is one, is none of these. -/
def Avoids (c : Cursor) (texts : List String) : Prop :=
  ∀ token ∈ c.tokens.head?, token.text ∉ texts

theorem passes_nil {c c' : Cursor} : c.Passes [] 0 c' ↔ c' = c := by
  obtain ⟨tokens, stop, n⟩ := c
  obtain ⟨tokens', stop', n'⟩ := c'
  simp only [Passes, List.map_eq_nil_iff, Cursor.mk.injEq]
  constructor
  · rintro ⟨used, rfl, rfl, rfl, rfl⟩
    simp
  · rintro ⟨rfl, rfl, rfl⟩
    exact ⟨[], by simp⟩

theorem passes_cons {c c' : Cursor} {text : String} {texts : List String} {holes : Nat} :
    c.Passes (text :: texts) holes c' ↔
      ∃ token rest, c.tokens = token :: rest ∧ token.text = text ∧
        Passes { c with tokens := rest } texts holes c' := by
  constructor
  · rintro ⟨used, ht, hu, hs, hn⟩
    obtain ⟨token, used, rfl, htoken, hu⟩ := List.map_eq_cons_iff.mp hu
    exact ⟨token, used ++ c'.tokens, ht, htoken, used, rfl, hu, hs, hn⟩
  · rintro ⟨token, rest, ht, htoken, used, rfl, hu, hs, hn⟩
    exact ⟨token :: used, ht, by simp [htoken, hu], hs, hn⟩

theorem passes_append {c c' : Cursor} {xs ys : List String} {m n : Nat} :
    c.Passes (xs ++ ys) (m + n) c' ↔ ∃ mid, c.Passes xs m mid ∧ mid.Passes ys n c' := by
  constructor
  · rintro ⟨used, ht, hu, hs, hn⟩
    obtain ⟨us, vs, rfl, hx, hy⟩ := List.map_eq_append_iff.mp hu
    exact ⟨⟨vs ++ c'.tokens, c.stop, c.placeholders + m⟩, ⟨us, by simp [ht], hx, rfl, rfl⟩,
      vs, rfl, hy, hs, by simp only [hn]; omega⟩
  · rintro ⟨mid, ⟨us, ht, hx, hs, hn⟩, vs, ht', hy, hs', hn'⟩
    exact ⟨us ++ vs, by simp [ht, ht'], by simp [hx, hy], hs'.trans hs, by omega⟩

theorem passes_singleton {c c' : Cursor} {text : String} {holes : Nat} :
    c.Passes [text] holes c' ↔
      ∃ token, c.tokens = token :: c'.tokens ∧ token.text = text ∧ c'.stop = c.stop ∧
        c'.placeholders = c.placeholders + holes := by
  constructor
  · rintro ⟨used, ht, hu, hs, hn⟩
    obtain ⟨token, rfl, htoken⟩ := List.map_eq_singleton_iff.mp hu
    exact ⟨token, ht, htoken, hs, hn⟩
  · rintro ⟨token, ht, htoken, hs, hn⟩
    exact ⟨[token], ht, by simp [htoken], hs, hn⟩

theorem passes_two {c c' : Cursor} {x y : String} {m : Nat} :
    c.Passes [x, y] m c' ↔ ∃ mid, c.Passes [x] m mid ∧ mid.Passes [y] 0 c' := by
  rw [← passes_append]
  rfl

theorem passes_three {c c' : Cursor} {x y z : String} {m n : Nat} :
    c.Passes [x, y, z] (m + n) c' ↔
      ∃ c₁ c₂, c.Passes [x] m c₁ ∧ c₁.Passes [y] 0 c₂ ∧ c₂.Passes [z] n c' := by
  constructor
  · intro h
    obtain ⟨c₁, hx, h⟩ := passes_append.mp (show c.Passes ([x] ++ [y, z]) (m + n) c' from h)
    rw [← Nat.zero_add n] at h
    obtain ⟨c₂, hy, hz⟩ := passes_append.mp (show c₁.Passes ([y] ++ [z]) (0 + n) c' from h)
    exact ⟨c₁, c₂, hx, hy, hz⟩
  · rintro ⟨c₁, c₂, hx, hy, hz⟩
    have h := passes_append.mpr ⟨c₁, hx, passes_append.mpr ⟨c₂, hy, hz⟩⟩
    rwa [Nat.zero_add] at h

theorem Passes.placeholders_eq {c c' : Cursor} {texts : List String} {holes : Nat}
    (h : c.Passes texts holes c') : c'.placeholders = c.placeholders + holes := by
  obtain ⟨-, -, -, -, hn⟩ := h
  exact hn

theorem Passes.length_le {c c' : Cursor} {texts : List String} {holes : Nat}
    (h : c.Passes texts holes c') : c'.tokens.length ≤ c.tokens.length := by
  obtain ⟨used, ht, -⟩ := h
  simp [ht]

@[simp] theorem avoids_nil (c : Cursor) : c.Avoids [] := by simp [Avoids]

theorem avoids_of_tokens_eq_nil {c : Cursor} (h : c.tokens = []) (texts : List String) :
    c.Avoids texts := by
  simp [Avoids, h]

theorem avoids_iff_of_tokens_eq_cons {c : Cursor} {token : Token} {rest : List Token}
    (h : c.tokens = token :: rest) {texts : List String} :
    c.Avoids texts ↔ token.text ∉ texts := by
  simp [Avoids, h]

end Cursor

namespace Reader

theorem bind_eq_ok {x : Reader α} {f : α → Reader β} {c c' : Cursor} {b : β} :
    (x >>= f) c = .ok (b, c') ↔ ∃ a mid, x c = .ok (a, mid) ∧ f a mid = .ok (b, c') := by
  change (x c >>= fun p => f p.1 p.2) = .ok (b, c') ↔ _
  cases x c with
  | error fault => simp [bind, Except.bind]
  | ok p => simp [bind, Except.bind, Prod.ext_iff]

theorem pure_eq_ok {a b : α} {c c' : Cursor} :
    (pure a : Reader α) c = .ok (b, c') ↔ b = a ∧ c' = c := by
  change Except.ok (a, c) = .ok (b, c') ↔ _
  simp only [Except.ok.injEq, Prod.mk.injEq, eq_comm]

theorem throw_eq_ok {fault : Fault} {a : α} {c c' : Cursor} :
    (throw fault : Reader α) c = .ok (a, c') ↔ False := by
  change Except.error fault = .ok (a, c') ↔ _
  simp

theorem lift_eq_ok {x : Except Fault α} {a : α} {c c' : Cursor} :
    (liftM x : Reader α) c = .ok (a, c') ↔ x = .ok a ∧ c' = c := by
  change (x >>= fun a => Except.ok (a, c)) = .ok (a, c') ↔ _
  cases x with
  | error fault => simp [bind, Except.bind]
  | ok b => simp [bind, Except.bind, eq_comm]

theorem next_eq_ok {expected : Expectation} {token : Token} {c c' : Cursor} :
    next expected c = .ok (token, c') ↔
      c.tokens = token :: c'.tokens ∧ c'.stop = c.stop ∧ c'.placeholders = c.placeholders := by
  obtain ⟨tokens, stop, n⟩ := c
  obtain ⟨tokens', stop', n'⟩ := c'
  cases tokens with
  | nil => simp [next]
  | cons t rest => grind [next]

theorem accept_eq_ok {text : String} {found : Bool} {c c' : Cursor} :
    accept text c = .ok (found, c') ↔
      (found = true ∧ c.Passes [text] 0 c') ∨ (found = false ∧ c' = c ∧ c.Avoids [text]) := by
  obtain ⟨tokens, stop, n⟩ := c
  obtain ⟨tokens', stop', n'⟩ := c'
  cases tokens with
  | nil => simp [accept, Cursor.passes_singleton, Cursor.Avoids, eq_comm]
  | cons token rest =>
    by_cases htext : token.text = text
    · simp [accept, Cursor.passes_singleton, Cursor.Avoids, htext, eq_comm]
    · have htext' : ¬text = token.text := fun he => htext he.symm
      simp [accept, Cursor.passes_singleton, Cursor.Avoids, htext, htext', eq_comm]

theorem place_eq_ok {isKey : Bool} {r : Reading} {t : Term} {c c' : Cursor} :
    place isKey r c = .ok (t, c') ↔
      t = r.term isKey c.placeholders ∧
        c' = { c with placeholders := c.placeholders + r.holes } := by
  cases r with
  | literal l => exact pure_eq_ok
  | placeholder type =>
    change Except.ok _ = .ok (t, c') ↔ _
    simp only [Except.ok.injEq, Prod.mk.injEq, eq_comm, Reading.term, Reading.holes]

end Reader

/-- A reader that succeeds exactly on the phrases that cannot go on. -/
def Phrasing.ReadBy (P : Phrasing φ α) (r : Reader α) : Prop :=
  ∀ c a c', r c = .ok (a, c') ↔
    ∃ p, c.Passes (P.texts p) (P.holes p) c' ∧ c'.Avoids (P.goesOn p) ∧
      a = P.value c.placeholders p

namespace Reader

theorem value_readBy (clause : Clause) :
    (TermPhrase.phrasing clause false).ReadBy (value clause) := by
  intro c t c'
  simp only [value, bind_eq_ok, next_eq_ok, lift_eq_ok, place_eq_ok, readToken_value_iff,
    TermPhrase.phrasing, Cursor.passes_singleton]
  constructor
  · rintro ⟨token, mid, ⟨ht, hs, hn⟩, r, _, ⟨hr, rfl⟩, rfl, rfl⟩
    exact ⟨⟨token.text, r, hr⟩, ⟨token, ht, rfl, hs, by simp [hn]⟩, by simp, by rw [hn]⟩
  · rintro ⟨⟨text, r, hr⟩, ⟨token, ht, rfl, hs, hn⟩, -, rfl⟩
    exact ⟨token, ⟨c'.tokens, c.stop, c.placeholders⟩, ⟨ht, rfl, rfl⟩, r, _, ⟨hr, rfl⟩, rfl, by
      rw [← hs, ← hn]⟩

theorem key_readBy (clause : Clause) : (TermPhrase.phrasing clause true).ReadBy (key clause) := by
  intro c t c'
  simp only [key, bind_eq_ok, next_eq_ok, lift_eq_ok, TermPhrase.phrasing, Cursor.passes_singleton]
  constructor
  · rintro ⟨token, mid, ⟨ht, hs, hn⟩, r, mid', ⟨hr, hmid⟩, h⟩
    subst mid'
    obtain ⟨hkey, h⟩ :
        (∀ l, r = .literal l → ∃ s, l = .string s) ∧ place true r mid = .ok (t, c') := by
      cases r with
      | placeholder type => exact ⟨by simp, h⟩
      | literal l =>
        cases l with
        | string s => exact ⟨by simp, h⟩
        | int | long | boolean => exact (throw_eq_ok.mp h).elim
    obtain ⟨rfl, rfl⟩ := place_eq_ok.mp h
    exact ⟨⟨token.text, r, readToken_key_iff.mp ⟨hr, hkey⟩⟩, ⟨token, ht, rfl, hs, by simp [hn]⟩,
      by simp, by rw [hn]⟩
  · rintro ⟨⟨text, r, hr⟩, ⟨token, ht, rfl, hs, hn⟩, -, rfl⟩
    obtain ⟨hread, hkey⟩ := readToken_key_iff.mpr hr
    refine ⟨token, ⟨c'.tokens, c.stop, c.placeholders⟩, ⟨ht, rfl, rfl⟩, r, _, ⟨hread, rfl⟩, ?_⟩
    have hplace : place true r ⟨c'.tokens, c.stop, c.placeholders⟩ =
        .ok (r.term true c.placeholders, c') :=
      place_eq_ok.mpr ⟨rfl, by rw [← hs, ← hn]⟩
    cases r with
    | placeholder type => exact hplace
    | literal l =>
      obtain ⟨s, rfl⟩ := hkey l rfl
      exact hplace

theorem limit_readBy : LimitPhrase.phrasing.ReadBy limit := by
  intro c t c'
  simp only [limit, bind_eq_ok, value_readBy .limit _ _ _, TermPhrase.phrasing,
    LimitPhrase.phrasing]
  constructor
  · rintro ⟨t, mid, ⟨⟨text, r, hr⟩, hpass, -, rfl⟩, h⟩
    obtain ⟨hint, h⟩ : (∀ l, r = .literal l → ∃ n, l = .int n) ∧
        (pure (r.term false c.placeholders) : Reader Term) mid = .ok (t, c') := by
      cases r with
      | placeholder type => exact ⟨by simp, h⟩
      | literal l =>
        cases l with
        | int n => exact ⟨by simp, h⟩
        | string | long | boolean => exact (throw_eq_ok.mp h).elim
    obtain ⟨rfl, rfl⟩ := pure_eq_ok.mp h
    exact ⟨⟨text, r, limitToken_iff.mpr ⟨hr, hint⟩⟩, hpass, by simp, rfl⟩
  · rintro ⟨⟨text, r, hr⟩, hpass, -, rfl⟩
    obtain ⟨hterm, hint⟩ := limitToken_iff.mp hr
    refine ⟨_, c', ⟨⟨text, r, hterm⟩, hpass, by simp, rfl⟩, ?_⟩
    cases r with
    | placeholder type => rfl
    | literal l =>
      obtain ⟨n, rfl⟩ := hint l rfl
      rfl

/-- Readers that take one token and say of it alone what it means. -/
theorem next_bind_eq_ok {expected : Expectation} {f : Token → Reader α} {a : α}
    (test : String → Option α) (fault : Token → Fault)
    (hf : ∀ token, f token = (test token.text).elim (throw (fault token)) pure) {c c' : Cursor} :
    (next expected >>= f) c = .ok (a, c') ↔
      ∃ text, test text = some a ∧ c.Passes [text] 0 c' := by
  simp only [bind_eq_ok, next_eq_ok, Cursor.passes_singleton]
  constructor
  · rintro ⟨token, mid, ⟨ht, hs, hn⟩, h⟩
    rw [hf] at h
    cases htest : test token.text with
    | none =>
      rw [htest] at h
      exact (throw_eq_ok.mp h).elim
    | some b =>
      rw [htest] at h
      obtain ⟨rfl, rfl⟩ := pure_eq_ok.mp h
      exact ⟨token.text, htest, token, ht, rfl, hs, hn⟩
  · rintro ⟨_, htest, token, ht, rfl, hs, hn⟩
    refine ⟨token, c', ⟨ht, hs, hn⟩, ?_⟩
    rw [hf, htest]
    rfl

theorem equals_eq_ok {u : Unit} {c c' : Cursor} :
    equals c = .ok (u, c') ↔ c.Passes ["="] 0 c' := by
  rw [equals, next_bind_eq_ok (fun text => if text = "=" then some () else none)
    (fun token => .unexpected .equals token)]
  · simp
  · intro token
    by_cases h : token.text = "=" <;> simp [h, Comparison.spelling]

theorem comparisonOperator_eq_ok {op : Comparison} {c c' : Cursor} :
    comparisonOperator c = .ok (op, c') ↔ c.Passes [op.spelling] 0 c' := by
  rw [comparisonOperator, next_bind_eq_ok Comparison.ofText?
    (fun token => .unexpected .comparison token)]
  · simp [Comparison.ofText?_eq_some]
  · intro token
    cases Comparison.ofText? token.text <;> rfl

theorem direction_eq_ok {d : Direction} {c c' : Cursor} :
    direction c = .ok (d, c') ↔ c.Passes [d.spelling] 0 c' := by
  rw [direction, next_bind_eq_ok Direction.ofText? (fun token => .unexpected .direction token)]
  · simp [Direction.ofText?_eq_some]
  · intro token
    cases Direction.ofText? token.text <;> rfl

theorem kind_eq_ok {read : Kind × Option String} {c c' : Cursor} :
    kind c = .ok (read, c') ↔ ∃ p : KindPhrase, p.reading = read ∧ c.Passes [p.text] 0 c' := by
  rw [kind, next_bind_eq_ok readKind? (fun token => .unknownKind token)]
  · constructor
    · rintro ⟨text, hread, h⟩
      exact ⟨⟨text, read, readKind?_eq_some.mp hread⟩, rfl, h⟩
    · rintro ⟨⟨text, _, hread⟩, rfl, h⟩
      exact ⟨text, readKind?_eq_some.mpr hread, h⟩
  · intro token
    cases readKind? token.text <;> rfl

theorem categoryName_eq_ok {category : Category} {name : String} {c c' : Cursor} :
    categoryName category c = .ok (name, c') ↔
      name = category.name ∧ ∃ p : CategoryPhrase category, c.Passes [p.text] 0 c' := by
  rw [categoryName, next_bind_eq_ok
    (fun text => if unquote text = category.name then some category.name else none)
    (fun token => .otherCategory token category.name)]
  · constructor
    · rintro ⟨text, hread, h⟩
      simp only [Option.ite_none_right_eq_some, Option.some.injEq] at hread
      exact ⟨hread.2.symm, ⟨text, unquote_eq_iff.mp hread.1⟩, h⟩
    · rintro ⟨rfl, p, h⟩
      exact ⟨p.text, if_pos (unquote_eq_iff.mpr p.names), h⟩
  · intro token
    by_cases h : unquote token.text = category.name <;> simp [h]

theorem assignment_readBy : PairPhrase.phrasing.ReadBy assignment := by
  intro c a c'
  simp only [assignment, bind_eq_ok, key_readBy .set _ _ _, value_readBy .set _ _ _, equals_eq_ok,
    pure_eq_ok, TermPhrase.phrasing, PairPhrase.phrasing, Cursor.passes_three]
  constructor
  · rintro ⟨_, c₁, ⟨k, hk, -, rfl⟩, _, c₂, he, _, _, ⟨v, hv, -, rfl⟩, rfl, rfl⟩
    refine ⟨⟨k, v⟩, ⟨c₁, c₂, hk, he, hv⟩, by simp, ?_⟩
    rw [he.placeholders_eq, hk.placeholders_eq]
    rfl
  · rintro ⟨⟨k, v⟩, ⟨c₁, c₂, hk, he, hv⟩, -, rfl⟩
    refine ⟨_, c₁, ⟨k, hk, by simp, rfl⟩, (), c₂, he, _, c', ⟨v, hv, by simp, rfl⟩, ?_, rfl⟩
    rw [he.placeholders_eq, hk.placeholders_eq]
    rfl

theorem comparison_readBy : ComparisonPhrase.phrasing.ReadBy comparison := by
  intro c f c'
  simp only [comparison, bind_eq_ok, key_readBy .filter _ _ _, value_readBy .filter _ _ _,
    comparisonOperator_eq_ok, pure_eq_ok, TermPhrase.phrasing, ComparisonPhrase.phrasing,
    Cursor.passes_three]
  constructor
  · rintro ⟨_, c₁, ⟨k, hk, -, rfl⟩, op, c₂, ho, _, _, ⟨v, hv, -, rfl⟩, rfl, rfl⟩
    exact ⟨⟨k, op, v⟩, ⟨c₁, c₂, hk, ho, hv⟩, by simp, by
      rw [ho.placeholders_eq, hk.placeholders_eq]; rfl⟩
  · rintro ⟨⟨k, op, v⟩, ⟨c₁, c₂, hk, ho, hv⟩, -, rfl⟩
    refine ⟨_, c₁, ⟨k, hk, by simp, rfl⟩, op, c₂, ho, _, c', ⟨v, hv, by simp, rfl⟩, ?_, rfl⟩
    rw [ho.placeholders_eq, hk.placeholders_eq]
    rfl

theorem sortKey_readBy : MemberPhrase.phrasing.ReadBy sortKey := by
  intro c s c'
  simp only [sortKey, bind_eq_ok, key_readBy .sort _ _ _, direction_eq_ok, pure_eq_ok,
    TermPhrase.phrasing, MemberPhrase.phrasing]
  constructor
  · rintro ⟨_, mid, ⟨k, hk, -, rfl⟩, d, _, hd, rfl, rfl⟩
    exact ⟨⟨k, d⟩, Cursor.passes_two.mpr ⟨mid, hk, hd⟩, by simp, rfl⟩
  · rintro ⟨⟨k, d⟩, h, -, rfl⟩
    obtain ⟨mid, hk, hd⟩ := Cursor.passes_two.mp h
    exact ⟨_, mid, ⟨k, hk, by simp, rfl⟩, d, c', hd, rfl, rfl⟩

end Reader

namespace ConditionPhrase

/-- A comparison under that many negations. -/
def negated : Nat → ComparisonPhrase → ConditionPhrase
  | 0, p => compare p
  | n + 1, p => not (negated n p)

theorem exists_negated (p : ConditionPhrase) : ∃ k q, p = negated k q := by
  induction p with
  | compare q => exact ⟨0, q, rfl⟩
  | not inner ih =>
    obtain ⟨k, q, rfl⟩ := ih
    exact ⟨k + 1, q, rfl⟩

theorem texts_negated (k : Nat) (p : ComparisonPhrase) :
    (negated k p).texts = List.replicate k "NOT" ++ ComparisonPhrase.phrasing.texts p := by
  induction k with
  | zero => rfl
  | succ k ih => simp [negated, texts, ih, List.replicate_succ]

theorem holes_negated (k : Nat) (p : ComparisonPhrase) :
    (negated k p).holes = ComparisonPhrase.phrasing.holes p := by
  induction k with
  | zero => rfl
  | succ k ih => exact ih

theorem filter_negated (n k : Nat) (p : ComparisonPhrase) :
    (negated k p).filter n = .negate k (ComparisonPhrase.phrasing.value n p) := by
  induction k with
  | zero => rfl
  | succ k ih => simp [negated, filter, Filter.negate, ih]

end ConditionPhrase

namespace Reader

theorem negations_eq_ok {k : Nat} {c c' : Cursor} :
    negations c = .ok (k, c') ↔
      c.Passes (List.replicate k Keyword.not.spelling) 0 c' ∧ c'.Avoids [Keyword.not.spelling] := by
  obtain ⟨tokens, stop, n⟩ := c
  obtain ⟨tokens', stop', n'⟩ := c'
  simp only [negations, Except.ok.injEq, Prod.mk.injEq, Cursor.mk.injEq, Cursor.Passes,
    Cursor.Avoids]
  constructor
  · rintro ⟨rfl, rfl, rfl, rfl⟩
    have happ := tokens.takeWhile_append_dropWhile
      (p := fun token => decide (token.text = Keyword.not.spelling))
    have hdrop :
        tokens.drop (tokens.takeWhile fun token => token.text = Keyword.not.spelling).length =
          tokens.dropWhile fun token => token.text = Keyword.not.spelling := by
      conv_lhs =>
        arg 2
        rw [← happ]
      exact List.drop_left
    rw [hdrop]
    refine ⟨⟨_, happ.symm, ?_, rfl, rfl⟩, ?_⟩
    · rw [List.eq_replicate_iff]
      refine ⟨by simp, ?_⟩
      intro text ht
      obtain ⟨token, htoken, rfl⟩ := List.mem_map.mp ht
      simpa using List.all_eq_true.mp List.all_takeWhile token htoken
    · intro token htoken
      simpa [Option.mem_def.mp htoken] using
        List.head?_dropWhile_not (fun token : Token => token.text = Keyword.not.spelling) tokens
  · rintro ⟨⟨used, rfl, hu, rfl, rfl⟩, havoid⟩
    have hused : ∀ token ∈ used, token.text = Keyword.not.spelling := by
      intro token htoken
      exact List.eq_of_mem_replicate (hu ▸ List.mem_map_of_mem htoken)
    have hstop : tokens'.takeWhile (fun token => token.text = Keyword.not.spelling) = [] := by
      cases tokens' with
      | nil => rfl
      | cons token rest =>
        have hne : ¬token.text = Keyword.not.spelling := by simpa using havoid token (by simp)
        simp [hne]
    have htake :
        (used ++ tokens').takeWhile (fun token => token.text = Keyword.not.spelling) = used := by
      rw [List.takeWhile_append_of_pos (by simpa using hused), hstop, List.append_nil]
    have hlength := congrArg List.length hu
    simp only [List.length_map, List.length_replicate] at hlength
    simp [htake, hlength]

/-- No term is taken for a word of the grammar. -/
theorem avoids_not_of_comparison {c c' : Cursor} {p : ComparisonPhrase} {holes : Nat}
    (h : c.Passes (ComparisonPhrase.phrasing.texts p) holes c') :
    c.Avoids [Keyword.not.spelling] := by
  obtain ⟨token, rest, ht, htext, -⟩ := Cursor.passes_cons.mp h
  rw [Cursor.avoids_iff_of_tokens_eq_cons ht, htext, List.mem_singleton]
  exact p.key.text_ne_keyword .not

theorem condition_readBy : ConditionPhrase.phrasing.ReadBy condition := by
  intro c f c'
  simp only [condition, bind_eq_ok, negations_eq_ok, comparison_readBy _ _ _, pure_eq_ok]
  constructor
  · rintro ⟨k, mid, ⟨hnots, -⟩, _, _, ⟨q, hq, -, rfl⟩, rfl, rfl⟩
    refine ⟨.negated k q, ?_, by simp [ConditionPhrase.phrasing], ?_⟩
    · simp only [ConditionPhrase.phrasing, ConditionPhrase.texts_negated,
        ConditionPhrase.holes_negated]
      rw [← Nat.zero_add (ComparisonPhrase.phrasing.holes q)]
      exact Cursor.passes_append.mpr ⟨mid, hnots, hq⟩
    · rw [hnots.placeholders_eq]
      exact (ConditionPhrase.filter_negated _ k q).symm
  · rintro ⟨p, h, -, rfl⟩
    obtain ⟨k, q, rfl⟩ := p.exists_negated
    simp only [ConditionPhrase.phrasing, ConditionPhrase.texts_negated,
      ConditionPhrase.holes_negated, ConditionPhrase.filter_negated] at h ⊢
    rw [← Nat.zero_add (ComparisonPhrase.phrasing.holes q)] at h
    obtain ⟨mid, hnots, hq⟩ := Cursor.passes_append.mp h
    refine ⟨k, mid, ⟨hnots, avoids_not_of_comparison hq⟩, _, c', ⟨q, hq, ?_, rfl⟩, ?_, rfl⟩
    · simp [ComparisonPhrase.phrasing]
    · rw [hnots.placeholders_eq]
      rfl

end Reader

namespace Phrasing

variable {P : Phrasing φ α} {item : Reader α}

theorem ReadBy.map (h : P.ReadBy item) (f : α → β) :
    (P.map f).ReadBy (do return f (← item)) := by
  intro c b c'
  simp only [Reader.bind_eq_ok, Reader.pure_eq_ok, h c _ _, Phrasing.map]
  constructor
  · rintro ⟨_, _, ⟨p, hpass, havoid, rfl⟩, rfl, rfl⟩
    exact ⟨p, hpass, havoid, rfl⟩
  · rintro ⟨p, hpass, havoid, rfl⟩
    exact ⟨_, c', ⟨p, hpass, havoid, rfl⟩, rfl, rfl⟩

theorem passes_chain_single {separator : String} {p : φ} {c c' : Cursor} :
    c.Passes ((P.chain separator).texts ⟨p, []⟩) ((P.chain separator).holes ⟨p, []⟩) c' ↔
      c.Passes (P.texts p) (P.holes p) c' := by
  simp [Phrasing.chain, Phrasing.totalHoles]

theorem passes_chain_cons {separator : String} {p q : φ} {qs : List φ} {c c' : Cursor} :
    c.Passes ((P.chain separator).texts ⟨p, q :: qs⟩) ((P.chain separator).holes ⟨p, q :: qs⟩) c' ↔
      ∃ mid token rest, c.Passes (P.texts p) (P.holes p) mid ∧ mid.tokens = token :: rest ∧
        token.text = separator ∧ Cursor.Passes { mid with tokens := rest }
          ((P.chain separator).texts ⟨q, qs⟩) ((P.chain separator).holes ⟨q, qs⟩) c' := by
  simp only [Phrasing.chain, List.flatMap_cons, Phrasing.totalHoles, Cursor.passes_append,
    List.cons_append, Cursor.passes_cons, exists_and_left]

theorem goesOn_chain_cons {separator : String} {p q : φ} {qs : List φ} :
    (P.chain separator).goesOn ⟨p, q :: qs⟩ = (P.chain separator).goesOn ⟨q, qs⟩ := by
  simp only [Phrasing.chain, Chain.last, List.getLastD_cons]

theorem ReadBy.chain_sound (h : P.ReadBy item) {separator : String} {c c' : Cursor}
    {a : α × List α} (hread : Reader.chain separator item c = .ok (a, c')) :
    ∃ p, c.Passes ((P.chain separator).texts p) ((P.chain separator).holes p) c' ∧
      c'.Avoids ((P.chain separator).goesOn p) ∧
      a = (P.chain separator).value c.placeholders p := by
  fun_induction Reader.chain separator item c generalizing a c' with
  | case1 c fault hitem => cases hread
  | case2 c first c₁ hitem htokens =>
    obtain ⟨p, hpass, -, rfl⟩ := (h c _ _).mp hitem
    cases hread
    exact ⟨⟨p, []⟩, passes_chain_single.mpr hpass, Cursor.avoids_of_tokens_eq_nil htokens _, rfl⟩
  | case3 c first c₁ hitem token rest htokens hcond fault hrest ih => cases hread
  | case4 c first c₁ hitem token rest htokens hcond second others c₂ hrest ih =>
    obtain ⟨p, hpass, -, rfl⟩ := (h c _ _).mp hitem
    obtain ⟨⟨q, qs⟩, hpass', havoid, hvalue⟩ := ih hrest
    cases hread
    refine ⟨⟨p, q :: qs⟩,
      passes_chain_cons.mpr ⟨c₁, token, rest, hpass, htokens, hcond.1, hpass'⟩, ?_, ?_⟩
    · rwa [goesOn_chain_cons]
    · simp only [Phrasing.chain, Prod.mk.injEq] at hvalue
      simp [Phrasing.chain, Phrasing.values, hvalue, hpass.placeholders_eq]
  | case5 c first c₁ hitem token rest htokens hcond =>
    obtain ⟨p, hpass, havoid, rfl⟩ := (h c _ _).mp hitem
    cases hread
    refine ⟨⟨p, []⟩, passes_chain_single.mpr hpass, ?_, rfl⟩
    -- an item never gives tokens back, so the chain can only have ended for want of a separator
    have hlength := hpass.length_le
    have hne : token.text ≠ separator := by
      intro htext
      rw [htokens, List.length_cons] at hlength
      exact hcond ⟨htext, by omega⟩
    rw [Cursor.avoids_iff_of_tokens_eq_cons htokens] at havoid ⊢
    simpa [Phrasing.chain, Chain.last, hne] using havoid

theorem ReadBy.chain_complete (h : P.ReadBy item) {separator : String}
    (hsep : ∀ p, separator ∉ P.goesOn p) (p : φ) (ps : List φ) {c c' : Cursor}
    (hpass : c.Passes ((P.chain separator).texts ⟨p, ps⟩) ((P.chain separator).holes ⟨p, ps⟩) c')
    (havoid : c'.Avoids ((P.chain separator).goesOn ⟨p, ps⟩)) :
    Reader.chain separator item c = .ok ((P.chain separator).value c.placeholders ⟨p, ps⟩, c') := by
  induction ps generalizing p c with
  | nil =>
    have hpass := passes_chain_single.mp hpass
    have hitem : item c = .ok (P.value c.placeholders p, c') :=
      (h c _ _).mpr ⟨p, hpass, fun token ht hmem => havoid token ht (by simp [Phrasing.chain,
        Chain.last, hmem]), rfl⟩
    rw [Reader.chain, hitem]
    cases htokens : c'.tokens with
    | nil => simp [htokens, Phrasing.chain, Phrasing.values]
    | cons token rest =>
      have hne : token.text ≠ separator := by
        have := (Cursor.avoids_iff_of_tokens_eq_cons htokens).mp havoid
        simp only [Phrasing.chain, List.mem_cons, not_or] at this
        exact this.1
      simp [htokens, hne, Phrasing.chain, Phrasing.values]
  | cons q qs ih =>
    obtain ⟨mid, token, rest, hpass, htokens, htext, hpass'⟩ := passes_chain_cons.mp hpass
    have hitem : item c = .ok (P.value c.placeholders p, mid) := by
      refine (h c _ _).mpr ⟨p, hpass, ?_, rfl⟩
      rw [Cursor.avoids_iff_of_tokens_eq_cons htokens, htext]
      exact hsep p
    rw [goesOn_chain_cons] at havoid
    have hrest := ih q hpass' havoid
    have hlength := hpass.length_le
    rw [htokens, List.length_cons] at hlength
    have hcond : token.text = separator ∧ rest.length < c.tokens.length := ⟨htext, by omega⟩
    rw [Reader.chain, hitem]
    simp only [htokens, if_pos hcond, hrest]
    simp [Phrasing.chain, Phrasing.values, hpass.placeholders_eq]

/-- Repetition takes items as long as a separator follows. -/
theorem ReadBy.chain (h : P.ReadBy item) {separator : String}
    (hsep : ∀ p, separator ∉ P.goesOn p) :
    (P.chain separator).ReadBy (Reader.chain separator item) := by
  intro c a c'
  constructor
  · exact h.chain_sound
  · rintro ⟨⟨p, ps⟩, hpass, havoid, rfl⟩
    exact h.chain_complete hsep p ps hpass havoid

/-- A clause is there exactly when its keyword is. -/
theorem ReadBy.clause (h : P.ReadBy item) (keyword : Keyword) :
    (P.clause keyword.spelling).ReadBy (Reader.after keyword item) := by
  intro c a c'
  simp only [Reader.after, Reader.bind_eq_ok, Reader.accept_eq_ok]
  constructor
  · rintro ⟨_, mid, ⟨rfl, hkey⟩ | ⟨rfl, rfl, havoid⟩, hread⟩
    · obtain ⟨_, _, hitem, hpure⟩ := Reader.bind_eq_ok.mp hread
      obtain ⟨p, hpass, havoid, rfl⟩ := (h _ _ _).mp hitem
      obtain ⟨rfl, rfl⟩ := Reader.pure_eq_ok.mp hpure
      have hall := Cursor.passes_append.mpr ⟨mid, hkey, hpass⟩
      rw [Nat.zero_add] at hall
      refine ⟨some p, hall, havoid, ?_⟩
      rw [hkey.placeholders_eq]
      rfl
    · obtain ⟨rfl, rfl⟩ := Reader.pure_eq_ok.mp hread
      exact ⟨none, Cursor.passes_nil.mpr rfl, havoid, rfl⟩
  · rintro ⟨_ | p, hpass, havoid, rfl⟩
    · obtain rfl := Cursor.passes_nil.mp hpass
      exact ⟨false, c', .inr ⟨rfl, rfl, havoid⟩, rfl⟩
    · change c.Passes ([keyword.spelling] ++ P.texts p) (P.holes p) c' at hpass
      rw [← Nat.zero_add (P.holes p)] at hpass
      obtain ⟨mid, hkey, hpass⟩ := Cursor.passes_append.mp hpass
      refine ⟨true, mid, .inl ⟨rfl, hkey⟩, ?_⟩
      have hitem := (h mid _ c').mpr ⟨p, hpass, havoid, rfl⟩
      rw [hkey.placeholders_eq] at hitem
      exact Reader.bind_eq_ok.mpr ⟨_, c', hitem, rfl⟩

end Phrasing

namespace Reader

theorem list_readBy {P : Phrasing φ α} {item : Reader α} (h : P.ReadBy item)
    (hsep : ∀ p, "," ∉ P.goesOn p) :
    ((P.chain ",").map fun as => as.1 :: as.2).ReadBy (list item) :=
  (h.chain hsep).map _

theorem conjunction_readBy : conjunctions.ReadBy conjunction :=
  (condition_readBy.chain (by simp [ConditionPhrase.phrasing])).map _

theorem disjunction_readBy : disjunctions.ReadBy disjunction := by
  have hsep : ∀ p, "OR" ∉ conjunctions.goesOn p := by
    intro p
    simp [conjunctions, Phrasing.map, Phrasing.chain, ConditionPhrase.phrasing]
  exact (conjunction_readBy.chain hsep).map _

theorem setClause_readBy : setClause.ReadBy (after .set (list assignment)) :=
  (list_readBy assignment_readBy (by simp [PairPhrase.phrasing])).clause .set

theorem whereClause_readBy : whereClause.ReadBy (after .filter disjunction) :=
  disjunction_readBy.clause .filter

theorem sortClause_readBy : sortClause.ReadBy (after .sort (list sortKey)) :=
  (list_readBy sortKey_readBy (by simp [MemberPhrase.phrasing])).clause .sort

theorem limitClause_readBy : limitClause.ReadBy (after .limit limit) :=
  limit_readBy.clause .limit

theorem finish_eq_ok {u : Unit} {c c' : Cursor} :
    finish c = .ok (u, c') ↔ c.tokens = [] ∧ c' = c := by
  unfold finish
  split
  · next h => simp [h, eq_comm]
  · next h => simp [h]

end Reader

end CategoryStatements
