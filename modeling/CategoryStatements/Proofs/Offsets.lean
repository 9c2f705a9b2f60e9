import CategoryStatements.Grammar
import Mathlib.Tactic.Common

/-! Offsets play no part in reading. Readers that are put before the same texts, wherever in a
descriptor these stand, read the same or find the same fault, up to the place of the fault. One
lemma for each way of putting readers together carries this from single tokens to statements. -/
namespace CategoryStatements

/-- What a fault says, apart from where it is. -/
def Fault.report (fault : Fault) : String × Option String × Option String :=
  (fault.message, fault.expected?, fault.found?)

/-- Cursors before the same texts. -/
def Cursor.Alike (c c' : Cursor) : Prop :=
  c.tokens.map Token.text = c'.tokens.map Token.text ∧ c.placeholders = c'.placeholders

namespace Cursor.Alike

variable {c c' : Cursor}

theorem length_eq (h : c.Alike c') : c.tokens.length = c'.tokens.length := by
  simpa using congrArg List.length h.1

theorem tokens_eq_nil (h : c.Alike c') (hc : c.tokens = []) : c'.tokens = [] := by
  simpa [hc] using h.1

theorem tokens_eq_cons (h : c.Alike c') {token : Token} {rest : List Token}
    (hc : c.tokens = token :: rest) :
    ∃ token' rest', c'.tokens = token' :: rest' ∧ token'.text = token.text ∧
      rest'.length = rest.length ∧ Alike { c with tokens := rest } { c' with tokens := rest' } := by
  have htexts := h.1
  rw [hc, List.map_cons] at htexts
  obtain ⟨token', rest', hc', htoken, hrest⟩ := List.map_eq_cons_iff.mp htexts.symm
  exact ⟨token', rest', hc', htoken, by simpa using congrArg List.length hrest, hrest.symm, h.2⟩

end Cursor.Alike

namespace Reader

/-- Two outcomes: results in a relation before the same texts, or faults that say the same. -/
inductive Agree (R : α → β → Prop) :
    Except Fault (α × Cursor) → Except Fault (β × Cursor) → Prop
  | ok {a : α} {b : β} {c c' : Cursor} (related : R a b) (alike : c.Alike c') :
      Agree R (.ok (a, c)) (.ok (b, c'))
  | error {fault fault' : Fault} (same : fault.report = fault'.report) :
      Agree R (.error fault) (.error fault')

theorem Agree.of_ok {R : α → β → Prop} {a : α} {c : Cursor} {y : Except Fault (β × Cursor)}
    (h : Agree R (.ok (a, c)) y) : ∃ b c', y = .ok (b, c') ∧ R a b ∧ c.Alike c' := by
  cases h with
  | ok related alike => exact ⟨_, _, rfl, related, alike⟩

theorem Agree.of_error {R : α → β → Prop} {fault : Fault} {y : Except Fault (β × Cursor)}
    (h : Agree R (.error fault) y) :
    ∃ fault', y = .error fault' ∧ fault.report = fault'.report := by
  cases h with
  | error same => exact ⟨_, rfl, same⟩

/-- Readers that agree before the same texts. -/
def Parallel (R : α → β → Prop) (r : Reader α) (r' : Reader β) : Prop :=
  ∀ c c', c.Alike c' → Agree R (r c) (r' c')

/-- A reader to which only the texts matter. -/
def Blind (r : Reader α) : Prop := Parallel Eq r r

theorem Parallel.pure {R : α → β → Prop} {a : α} {b : β} (h : R a b) :
    Parallel R (pure a : Reader α) (pure b : Reader β) :=
  fun _ _ halike => .ok h halike

theorem Parallel.throw {R : α → β → Prop} {fault fault' : Fault}
    (h : fault.report = fault'.report) :
    Parallel R (throw fault : Reader α) (throw fault' : Reader β) :=
  fun _ _ _ => .error h

theorem Parallel.bind {R : α → β → Prop} {S : γ → δ → Prop} {x : Reader α} {y : Reader β}
    {f : α → Reader γ} {g : β → Reader δ} (hx : Parallel R x y)
    (hf : ∀ a b, R a b → Parallel S (f a) (g b)) : Parallel S (x >>= f) (y >>= g) := by
  intro c c' halike
  change Agree S (x c >>= fun p => f p.1 p.2) (y c' >>= fun p => g p.1 p.2)
  have hagree := hx c c' halike
  cases hxc : x c with
  | error fault =>
    rw [hxc] at hagree
    obtain ⟨fault', hyc, same⟩ := hagree.of_error
    rw [hyc]
    exact .error same
  | ok p =>
    rw [hxc] at hagree
    obtain ⟨b, mid, hyc, related, alike⟩ := hagree.of_ok
    rw [hyc]
    exact hf _ _ related _ _ alike

theorem Blind.bind {x : Reader α} {f : α → Reader β} (hx : Blind x) (hf : ∀ a, Blind (f a)) :
    Blind (x >>= f) := by
  apply Parallel.bind hx
  rintro a _ rfl
  exact hf a

/-- The next tokens have one text, or both cursors are at the end. -/
theorem next_parallel (expected : Expectation) :
    Parallel (fun token token' => token.text = token'.text) (next expected) (next expected) := by
  intro c c' halike
  cases hc : c.tokens with
  | nil =>
    have hc' := halike.tokens_eq_nil hc
    simp only [next, hc, hc']
    exact .error rfl
  | cons token rest =>
    obtain ⟨token', rest', hc', htoken, -, hrest⟩ := halike.tokens_eq_cons hc
    simp only [next, hc, hc']
    exact .ok htoken.symm hrest

/-- What is done with a token has to depend on its text alone. -/
theorem Blind.next_bind {expected : Expectation} {f : Token → Reader α}
    (hf : ∀ text span span', Parallel Eq (f ⟨text, span⟩) (f ⟨text, span'⟩)) :
    Blind (next expected >>= f) := by
  apply Parallel.bind (next_parallel expected)
  rintro ⟨text, span⟩ ⟨text', span'⟩ rfl
  exact hf text span span'

theorem accept_blind (text : String) : Blind (accept text) := by
  intro c c' halike
  cases hc : c.tokens with
  | nil =>
    have hc' := halike.tokens_eq_nil hc
    simp only [accept, hc, hc']
    exact .ok rfl halike
  | cons token rest =>
    obtain ⟨token', rest', hc', htoken, -, hrest⟩ := halike.tokens_eq_cons hc
    simp only [accept, hc, hc', htoken]
    split
    · exact .ok rfl hrest
    · exact .ok rfl halike

theorem Blind.after {body : Reader α} (h : Blind body) (keyword : Keyword) :
    Blind (after keyword body) := by
  apply Blind.bind (accept_blind _)
  rintro (_ | _)
  · exact Parallel.pure rfl
  · exact Blind.bind h fun _ => Parallel.pure rfl

/-- A chain goes on behind an item for the same reason at both cursors. -/
theorem Blind.chain {item : Reader α} (h : Blind item) (separator : String) :
    Blind (Reader.chain separator item) := by
  intro c c' halike
  have hagree := h c c' halike
  fun_induction Reader.chain separator item c generalizing c' with
  | case1 c fault hitem =>
    rw [hitem] at hagree
    obtain ⟨fault', hitem', same⟩ := hagree.of_error
    rw [Reader.chain, hitem']
    exact .error same
  | case2 c first c₁ hitem hc₁ =>
    rw [hitem] at hagree
    obtain ⟨_, c₁', hitem', rfl, alike⟩ := hagree.of_ok
    rw [Reader.chain, hitem']
    simp only [alike.tokens_eq_nil hc₁]
    exact .ok rfl alike
  | case3 c first c₁ hitem token rest hc₁ hsep fault hchain ih =>
    rw [hitem] at hagree
    obtain ⟨_, c₁', hitem', rfl, alike⟩ := hagree.of_ok
    obtain ⟨token', rest', hc₁', htoken, hlength, hrest⟩ := alike.tokens_eq_cons hc₁
    have hsep' : token'.text = separator ∧ rest'.length < c'.tokens.length := by
      rwa [htoken, hlength, ← halike.length_eq]
    have hagree' := ih _ hrest (h _ _ hrest)
    rw [hchain] at hagree'
    obtain ⟨fault', hchain', same⟩ := hagree'.of_error
    rw [Reader.chain, hitem']
    simp only [hc₁', if_pos hsep', hchain']
    exact .error same
  | case4 c first c₁ hitem token rest hc₁ hsep second others c₂ hchain ih =>
    rw [hitem] at hagree
    obtain ⟨_, c₁', hitem', rfl, alike⟩ := hagree.of_ok
    obtain ⟨token', rest', hc₁', htoken, hlength, hrest⟩ := alike.tokens_eq_cons hc₁
    have hsep' : token'.text = separator ∧ rest'.length < c'.tokens.length := by
      rwa [htoken, hlength, ← halike.length_eq]
    have hagree' := ih _ hrest (h _ _ hrest)
    rw [hchain] at hagree'
    obtain ⟨_, c₂', hchain', rfl, alike'⟩ := hagree'.of_ok
    rw [Reader.chain, hitem']
    simp only [hc₁', if_pos hsep', hchain']
    exact .ok rfl alike'
  | case5 c first c₁ hitem token rest hc₁ hsep =>
    rw [hitem] at hagree
    obtain ⟨_, c₁', hitem', rfl, alike⟩ := hagree.of_ok
    obtain ⟨token', rest', hc₁', htoken, hlength, hrest⟩ := alike.tokens_eq_cons hc₁
    have hsep' : ¬(token'.text = separator ∧ rest'.length < c'.tokens.length) := by
      rwa [htoken, hlength, ← halike.length_eq]
    rw [Reader.chain, hitem']
    simp only [hc₁', if_neg hsep']
    exact .ok rfl alike

theorem Blind.list {item : Reader α} (h : Blind item) : Blind (list item) :=
  (h.chain ",").bind fun _ => Parallel.pure rfl

theorem finish_blind : Blind finish := by
  intro c c' halike
  cases hc : c.tokens with
  | nil =>
    simp only [finish, hc, halike.tokens_eq_nil hc]
    exact .ok rfl halike
  | cons token rest =>
    obtain ⟨⟨text, span⟩, rest', hc', rfl, -, -⟩ := halike.tokens_eq_cons hc
    simp only [finish, hc, hc']
    exact .error rfl

theorem place_blind (isKey : Bool) (r : Reading) : Blind (place isKey r) := by
  intro c c' halike
  cases r with
  | literal l => exact Parallel.pure rfl c c' halike
  | placeholder type =>
    simp only [place, halike.2]
    exact .ok rfl ⟨halike.1, rfl⟩

/-- What a token means as a term depends on its text alone, and so does what is wrong with it. -/
theorem readToken_cases_text (clause : Clause) (isKey : Bool) (text : String) :
    (∃ r, ∀ span, readToken clause isKey ⟨text, span⟩ = .ok r) ∨
      ∃ fault : Span → Fault, (∀ span, readToken clause isKey ⟨text, span⟩ = .error (fault span)) ∧
        ∀ span span', (fault span).report = (fault span').report := by
  simp only [readToken]
  split
  · exact .inr ⟨_, fun _ => rfl, fun _ _ => rfl⟩
  split
  · split
    · exact .inr ⟨_, fun _ => rfl, fun _ _ => rfl⟩
    · split
      · exact .inl ⟨_, fun _ => rfl⟩
      · exact .inr ⟨_, fun _ => rfl, fun _ _ => rfl⟩
  split
  · split
    · exact .inl ⟨_, fun _ => rfl⟩
    · exact .inr ⟨_, fun _ => rfl, fun _ _ => rfl⟩
  split
  · exact .inl ⟨_, fun _ => rfl⟩
  split
  · exact .inl ⟨_, fun _ => rfl⟩
  split
  · split
    · exact .inl ⟨_, fun _ => rfl⟩
    · exact .inr ⟨_, fun _ => rfl, fun _ _ => rfl⟩
  split
  · exact .inl ⟨_, fun _ => rfl⟩
  · exact .inr ⟨_, fun _ => rfl, fun _ _ => rfl⟩

theorem readToken_parallel (clause : Clause) (isKey : Bool) (text : String) (span span' : Span) :
    Parallel Eq (liftM (readToken clause isKey ⟨text, span⟩) : Reader Reading)
      (liftM (readToken clause isKey ⟨text, span'⟩)) := by
  rcases readToken_cases_text clause isKey text with ⟨r, hr⟩ | ⟨fault, hfault, hreport⟩
  · rw [hr, hr]
    exact Parallel.pure rfl
  · rw [hfault, hfault]
    exact Parallel.throw (hreport span span')

theorem value_blind (clause : Clause) : Blind (value clause) :=
  Blind.next_bind fun text span span' =>
    (readToken_parallel clause false text span span').bind fun _ r h => h ▸ place_blind false r

theorem key_blind (clause : Clause) : Blind (key clause) := by
  apply Blind.next_bind
  intro text span span'
  apply (readToken_parallel clause true text span span').bind
  rintro (l | type) _ rfl
  · cases l with
    | string name => exact place_blind true _
    | int | long | boolean => exact Parallel.throw rfl
  · exact place_blind true _

theorem equals_blind : Blind equals := by
  apply Blind.next_bind
  intro text span span'
  by_cases h : text = Comparison.equal.spelling
  · simp only [h, if_true]
    exact Parallel.pure rfl
  · simp only [h, if_false]
    exact Parallel.throw rfl

theorem comparisonOperator_blind : Blind comparisonOperator := by
  apply Blind.next_bind
  intro text span span'
  cases Comparison.ofText? text with
  | some op => exact Parallel.pure rfl
  | none => exact Parallel.throw rfl

theorem direction_blind : Blind direction := by
  apply Blind.next_bind
  intro text span span'
  cases Direction.ofText? text with
  | some d => exact Parallel.pure rfl
  | none => exact Parallel.throw rfl

theorem kind_blind : Blind kind := by
  apply Blind.next_bind
  intro text span span'
  cases readKind? text with
  | some read => exact Parallel.pure rfl
  | none => exact Parallel.throw rfl

theorem categoryName_blind (category : Category) : Blind (categoryName category) := by
  apply Blind.next_bind
  intro text span span'
  by_cases h : unquote text = category.name
  · simp only [h, if_true]
    exact Parallel.pure rfl
  · simp only [h, if_false]
    exact Parallel.throw rfl

theorem assignment_blind : Blind assignment :=
  (key_blind .set).bind fun _ => equals_blind.bind fun _ => (value_blind .set).bind fun _ =>
    Parallel.pure rfl

theorem comparison_blind : Blind comparison :=
  (key_blind .filter).bind fun _ => comparisonOperator_blind.bind fun _ =>
    (value_blind .filter).bind fun _ => Parallel.pure rfl

theorem negations_blind : Blind negations := by
  intro c c' halike
  have hcount : ∀ tokens : List Token,
      (tokens.takeWhile fun token => token.text = Keyword.not.spelling).length =
        ((tokens.map Token.text).takeWhile fun text => text = Keyword.not.spelling).length := by
    intro tokens
    rw [List.takeWhile_map, List.length_map]
    rfl
  simp only [negations, hcount, halike.1]
  exact .ok rfl ⟨by simp only [List.map_drop, halike.1], halike.2⟩

theorem condition_blind : Blind condition :=
  negations_blind.bind fun _ => comparison_blind.bind fun _ => Parallel.pure rfl

theorem conjunction_blind : Blind conjunction :=
  (condition_blind.chain _).bind fun _ => Parallel.pure rfl

theorem disjunction_blind : Blind disjunction :=
  (conjunction_blind.chain _).bind fun _ => Parallel.pure rfl

theorem sortKey_blind : Blind sortKey :=
  (key_blind .sort).bind fun _ => direction_blind.bind fun _ => Parallel.pure rfl

theorem limit_blind : Blind limit := by
  apply (value_blind .limit).bind
  rintro ⟨l | p, isKey⟩
  · cases l with
    | int n => exact Parallel.pure rfl
    | string | long | boolean => exact Parallel.throw rfl
  · exact Parallel.pure rfl

theorem get_parallel : Parallel Cursor.Alike (get : Reader Cursor) get :=
  fun _ _ halike => .ok halike halike

theorem statement_blind (category : Category) : Blind (statement category) := by
  apply kind_blind.bind
  intro read
  apply (categoryName_blind category).bind
  intro name
  apply (assignment_blind.list.after .set).bind
  intro assignments
  apply (disjunction_blind.after .filter).bind
  intro filter
  apply (sortKey_blind.list.after .sort).bind
  intro order
  apply (limit_blind.after .limit).bind
  intro limit
  apply finish_blind.bind
  intro _
  apply get_parallel.bind
  intro c c' halike
  exact Parallel.pure (by rw [halike.2])

end Reader

/-- Two descriptors with the same token texts are read as the same statement, or have faults that
say the same. -/
theorem parseTokens_report (category : Category) {tokens tokens' : List Token}
    (h : tokens.map Token.text = tokens'.map Token.text) (stop stop' : Nat) :
    (parseTokens category tokens stop).mapError Fault.report =
      (parseTokens category tokens' stop').mapError Fault.report := by
  have hagree := Reader.statement_blind category ⟨tokens, stop, 0⟩ ⟨tokens', stop', 0⟩ ⟨h, rfl⟩
  unfold parseTokens
  generalize Reader.statement category ⟨tokens, stop, 0⟩ = x at hagree
  generalize Reader.statement category ⟨tokens', stop', 0⟩ = y at hagree
  cases hagree with
  | ok related alike =>
    obtain rfl := related
    rfl
  | error same => exact congrArg Except.error same

end CategoryStatements
