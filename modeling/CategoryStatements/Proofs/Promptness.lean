import CategoryStatements.Proofs.Acceptance

/-! Readers are prompt. A fault is found at the first token that shows it, and whatever stands
behind this token makes no difference; a success depends on the tokens that are taken and on the
next one only. -/
namespace CategoryStatements

/-- A fault that is found at a token behind others. It has the span of the token, and its text
where it names what was found. Only a literal that is no limit is found without a span. -/
inductive Fault.FoundAt (before : List Token) (token : Token) : Fault → Prop
  | marked {fault : Fault} (span : fault.span? = some token.span)
      (text : ∀ text ∈ fault.found?, text = token.text)
      (found : fault.expected?.isSome → fault.found?.isSome) : FoundAt before token fault
  | limit {l : Literal} (keyword : before.getLast?.map Token.text = some Keyword.limit.spelling)
      (wellFormed : TermToken .limit false token.text (.literal l)) (notInt : ∀ n, l ≠ .int n) :
      FoundAt before token (.limitNotInteger l)

/-- The token that a fault is about, for those that name one. -/
def Fault.token? : Fault → Option Token
  | premature _ _ | limitNotInteger _ => none
  | unexpected _ found | unknownKind found | otherCategory found _ | invalidPlaceholder found
  | forbiddenPlaceholder found _ _ | misquoted found | malformedNumber found | unquoted found
  | notAKey found _ _ | trailing found => some found

theorem Fault.FoundAt.of_token? {before : List Token} {token : Token} {fault : Fault}
    (h : fault.token? = some token) : fault.FoundAt before token := by
  cases fault <;> cases h <;>
    exact .marked rfl (by simp [found?]) (by simp [expected?, found?])

theorem Fault.FoundAt.append {before : List Token} {token : Token} {fault : Fault}
    (h : fault.FoundAt before token) (used : List Token) :
    fault.FoundAt (used ++ before) token := by
  cases h with
  | marked span text found => exact .marked span text found
  | limit keyword wellFormed notInt =>
    have hne : before ≠ [] := by
      rintro rfl
      cases keyword
    refine .limit ?_ wellFormed notInt
    rw [List.getLast?_append_of_ne_nil _ hne, keyword]

theorem Cursor.eq_mk_of_tokens {c : Cursor} {tokens : List Token} (h : c.tokens = tokens) :
    c = ⟨tokens, c.stop, c.placeholders⟩ := by
  rw [← h]

theorem Cursor.exists_of_not_avoids {c : Cursor} {text : String} (h : ¬c.Avoids [text]) :
    ∃ token rest, c.tokens = token :: rest ∧ token.text = text := by
  cases hc : c.tokens with
  | nil => exact absurd (avoids_of_tokens_eq_nil hc _) h
  | cons token rest =>
    rw [avoids_iff_of_tokens_eq_cons hc, List.mem_singleton, not_not] at h
    exact ⟨token, rest, rfl, h⟩

namespace Reader

/-- How a reader comes out at a cursor, and of which tokens this does not depend. -/
inductive Settles (r : Reader α) (c : Cursor) : Prop
  /-- A token is missing. -/
  | short (expected : Expectation) (result : r c = .error (.premature expected c.stop))
  /-- A token is wrong, whatever is behind it. -/
  | wrong {fault : Fault} (before : List Token) (token : Token) (after : List Token)
      (tokens : c.tokens = before ++ token :: after) (found : fault.FoundAt before token)
      (result : ∀ after' stop,
        r ⟨before ++ token :: after', stop, c.placeholders⟩ = .error fault)
  /-- Tokens are taken, whatever is behind the next one. -/
  | done (a : α) (used rest : List Token) (n : Nat) (tokens : c.tokens = used ++ rest)
      (result : ∀ rest' stop, rest'.head? = rest.head? →
        r ⟨used ++ rest', stop, c.placeholders⟩ = .ok (a, ⟨rest', stop, n⟩))

def Prompt (r : Reader α) : Prop := ∀ c, r.Settles c

/-- A reader that goes on like another one behind some tokens settles as this one does. -/
theorem Settles.behind {r r' : Reader α} {c : Cursor} {used rest : List Token} {n : Nat}
    (h : r'.Settles ⟨rest, c.stop, n⟩) (hc : c.tokens = used ++ rest)
    (hr : ∀ rest' stop, rest'.head? = rest.head? →
      r ⟨used ++ rest', stop, c.placeholders⟩ = r' ⟨rest', stop, n⟩) : r.Settles c := by
  cases h with
  | short expected result =>
    rw [← hr rest c.stop rfl, ← Cursor.eq_mk_of_tokens hc] at result
    exact .short expected result
  | wrong before token after tokens found result =>
    obtain rfl := tokens
    refine .wrong (used ++ before) token after (by rw [hc, ← List.append_assoc])
      (found.append used) ?_
    intro after' stop
    rw [List.append_assoc, hr _ _ (by cases before <;> rfl), result]
  | done a used' rest' n' tokens result =>
    obtain rfl := tokens
    refine .done a (used ++ used') rest' n' (by rw [hc, ← List.append_assoc]) ?_
    intro rest'' stop hhead
    rw [List.append_assoc, hr _ _ (by cases used' <;> simp [hhead]), result _ _ hhead]

theorem bind_apply (x : Reader α) (f : α → Reader β) (c : Cursor) :
    (x >>= f) c = (x c).bind fun p => f p.1 p.2 := rfl

theorem Settles.bind {x : Reader α} {f : α → Reader β} {c : Cursor} (hx : x.Settles c)
    (hf : ∀ a, (f a).Prompt) : (x >>= f).Settles c := by
  cases hx with
  | short expected result => exact .short expected (by rw [bind_apply, result]; rfl)
  | wrong before token after tokens found result =>
    exact .wrong before token after tokens found fun after' stop => by rw [bind_apply, result]; rfl
  | done a used rest n tokens result =>
    refine (hf a ⟨rest, c.stop, n⟩).behind tokens ?_
    intro rest' stop hhead
    rw [bind_apply, result rest' stop hhead]
    rfl

theorem Prompt.bind {x : Reader α} {f : α → Reader β} (hx : x.Prompt) (hf : ∀ a, (f a).Prompt) :
    (x >>= f).Prompt :=
  fun c => (hx c).bind hf

theorem pure_prompt (a : α) : (pure a : Reader α).Prompt :=
  fun c => .done a [] c.tokens c.placeholders rfl fun _ _ _ => rfl

theorem after_of_avoids {keyword : Keyword} {body : Reader α} {c : Cursor}
    (h : c.Avoids [keyword.spelling]) : after keyword body c = .ok (none, c) := by
  have haccept : accept keyword.spelling c = .ok (false, c) :=
    accept_eq_ok.mpr (.inr ⟨rfl, rfl, h⟩)
  rw [after, bind_apply, haccept]
  rfl

theorem after_of_keyword {keyword : Keyword} {body : Reader α} {token : Token}
    (ht : token.text = keyword.spelling) {rest : List Token} {stop n : Nat} :
    after keyword body ⟨token :: rest, stop, n⟩ =
      (body >>= fun a => pure (some a)) ⟨rest, stop, n⟩ := by
  have haccept : accept keyword.spelling ⟨token :: rest, stop, n⟩ = .ok (true, ⟨rest, stop, n⟩) :=
    accept_eq_ok.mpr (.inl ⟨rfl, Cursor.passes_singleton.mpr ⟨token, rfl, ht, rfl, rfl⟩⟩)
  rw [after, bind_apply, haccept]
  rfl

/-- Without its keyword a clause takes nothing. -/
theorem settles_of_avoids {keyword : Keyword} {c : Cursor} (h : c.Avoids [keyword.spelling])
    (body : Reader α) : (after keyword body).Settles c := by
  refine .done none [] c.tokens c.placeholders rfl fun rest' stop hhead => ?_
  exact after_of_avoids fun token ht => h token (hhead ▸ ht)

theorem Prompt.after {body : Reader α} (h : body.Prompt) (keyword : Keyword) :
    (after keyword body).Prompt := by
  intro c
  by_cases havoid : c.Avoids [keyword.spelling]
  · exact settles_of_avoids havoid body
  · obtain ⟨token, rest, hc, ht⟩ := Cursor.exists_of_not_avoids havoid
    have hbody := h.bind (fun a => pure_prompt (some a)) ⟨rest, c.stop, c.placeholders⟩
    rw [← List.singleton_append] at hc
    exact hbody.behind hc fun rest' stop _ => after_of_keyword ht

/-- A chain that meets a separator behind an item goes on with the items behind it. -/
theorem chain_of_separator {item : Reader α} {separator : String} {c c₁ : Cursor} {a : α}
    {token : Token} {rest : List Token} (hitem : item c = .ok (a, c₁))
    (hc₁ : c₁.tokens = token :: rest) (hsep : token.text = separator)
    (hlt : rest.length < c.tokens.length) :
    chain separator item c =
      (do let (b, bs) ← chain separator item; return (a, b :: bs) : Reader (α × List α))
        { c₁ with tokens := rest } := by
  rw [chain, hitem, bind_apply]
  simp only [hc₁, hsep, hlt, and_self, if_true]
  cases chain separator item { c₁ with tokens := rest } <;> rfl

theorem chain_of_avoids {item : Reader α} {separator : String} {c c₁ : Cursor} {a : α}
    (hitem : item c = .ok (a, c₁)) (hsep : c₁.Avoids [separator]) :
    chain separator item c = .ok ((a, []), c₁) := by
  rw [chain, hitem]
  cases hc₁ : c₁.tokens with
  | nil => simp [hc₁]
  | cons token rest =>
    have hne : token.text ≠ separator := by
      simpa using (Cursor.avoids_iff_of_tokens_eq_cons hc₁).mp hsep
    simp [hc₁, hne]

theorem Prompt.chain {item : Reader α} (h : item.Prompt) (separator : String) :
    Prompt (Reader.chain separator item) := by
  intro c
  -- by induction on the number of tokens, of which each round takes at least the separator
  induction hlen : c.tokens.length using Nat.strongRecOn generalizing c with
  | ind len ih =>
  cases h c with
  | short expected result => exact .short expected (by rw [Reader.chain, result])
  | wrong before token after tokens found result =>
    exact .wrong before token after tokens found fun after' stop => by rw [Reader.chain, result]
  | done a used rest n tokens result =>
    by_cases hsep : ∃ token rest₁, rest = token :: rest₁ ∧ token.text = separator
    · obtain ⟨token, rest, rfl, ht⟩ := hsep
      have hlt : rest.length < len := by
        rw [← hlen, tokens, List.length_append, List.length_cons]
        omega
      have hrest := ih _ hlt ⟨rest, c.stop, n⟩ rfl
      have hmore := hrest.bind fun b => pure_prompt (a, b.1 :: b.2)
      have hbehind : c.tokens = (used ++ [token]) ++ rest := by
        rw [tokens, List.append_assoc, List.singleton_append]
      refine hmore.behind hbehind ?_
      intro rest' stop _
      have hitem := result (token :: rest') stop rfl
      rw [List.append_assoc, List.singleton_append,
        chain_of_separator hitem rfl ht (by simp; omega)]
    · have havoid : ∀ rest' stop, rest'.head? = rest.head? →
          Cursor.Avoids ⟨rest', stop, n⟩ [separator] := by
        intro rest' stop hhead token htoken
        rw [hhead] at htoken
        obtain ⟨rest₁, hrest⟩ := List.head?_eq_some_iff.mp htoken
        simpa using fun ht => hsep ⟨token, rest₁, hrest, ht⟩
      exact .done (a, []) used rest n tokens fun rest' stop hhead =>
        chain_of_avoids (result rest' stop hhead) (havoid rest' stop hhead)

/-- What is done with a token that was taken: it is read, whatever comes next, or it has a fault
of the given sort. -/
def Judges (P : Fault → Prop) (r : Reader α) : Prop :=
  (∃ (value : Nat → α) (holes : Nat), ∀ c, r c =
    .ok (value c.placeholders, { c with placeholders := c.placeholders + holes })) ∨
  ∃ fault, P fault ∧ ∀ c, r c = .error fault

theorem pure_judges (P : Fault → Prop) (a : α) : (pure a : Reader α).Judges P :=
  .inl ⟨fun _ => a, 0, fun _ => rfl⟩

theorem throw_judges {P : Fault → Prop} {fault : Fault} (h : P fault) :
    (throw fault : Reader α).Judges P :=
  .inr ⟨fault, h, fun _ => rfl⟩

theorem place_judges (P : Fault → Prop) (isKey : Bool) (r : Reading) :
    (place isKey r).Judges P := by
  cases r with
  | literal l => exact pure_judges P _
  | placeholder type => exact .inl ⟨fun n => ⟨.placeholder ⟨n, type⟩, isKey⟩, 1, fun _ => rfl⟩

theorem Judges.bind_pure {P : Fault → Prop} {r : Reader α} (h : r.Judges P) (g : α → β) :
    (r >>= fun a => pure (g a)).Judges P := by
  rcases h with ⟨value, holes, hr⟩ | ⟨fault, hfault, hr⟩
  · exact .inl ⟨fun n => g (value n), holes, fun c => by rw [bind_apply, hr]; rfl⟩
  · exact .inr ⟨fault, hfault, fun c => by rw [bind_apply, hr]; rfl⟩

theorem Judges.lift_bind {P : Fault → Prop} {x : Except Fault α} {f : α → Reader β}
    (herror : ∀ fault, x = .error fault → P fault) (hok : ∀ a, x = .ok a → (f a).Judges P) :
    ((liftM x : Reader α) >>= f).Judges P := by
  cases x with
  | error fault => exact throw_judges (herror fault rfl)
  | ok a => exact hok a rfl

/-- Readers that take one token and judge it. -/
def TakesOne (r : Reader α) : Prop :=
  ∃ expected f, r = next expected >>= f ∧ ∀ token, (f token).Judges (Fault.FoundAt [] token)

theorem TakesOne.prompt {r : Reader α} (h : r.TakesOne) : r.Prompt := by
  obtain ⟨expected, f, rfl, hf⟩ := h
  intro c
  cases hc : c.tokens with
  | nil =>
    refine .short expected ?_
    rw [Cursor.eq_mk_of_tokens hc]
    rfl
  | cons token rest =>
    rcases hf token with ⟨value, holes, hr⟩ | ⟨fault, hfault, hr⟩
    · exact .done (value c.placeholders) [token] rest (c.placeholders + holes) hc
        fun rest' stop _ => hr ⟨rest', stop, c.placeholders⟩
    · exact .wrong [] token rest hc hfault fun after' stop => hr ⟨after', stop, c.placeholders⟩

end Reader

/-- What is wrong with a token as a term is said of this token. -/
theorem token?_of_readToken {clause : Clause} {isKey : Bool} {token : Token} {fault : Fault}
    (h : readToken clause isKey token = .error fault) : fault.token? = some token := by
  revert h
  simp only [readToken]
  split
  · rintro ⟨⟩
    rfl
  split
  · split
    · rintro ⟨⟩
      rfl
    · split <;> rintro ⟨⟩
      rfl
  split
  · split <;> rintro ⟨⟩
    rfl
  split
  · rintro ⟨⟩
  split
  · rintro ⟨⟩
  split
  · split <;> rintro ⟨⟩
    rfl
  split <;> rintro ⟨⟩
  rfl

namespace Reader

theorem value_takesOne (clause : Clause) : (value clause).TakesOne := by
  refine ⟨_, _, rfl, fun token => ?_⟩
  exact .lift_bind (fun fault h => Fault.FoundAt.of_token? (token?_of_readToken h)) fun r _ =>
    place_judges _ false r

theorem key_takesOne (clause : Clause) : (key clause).TakesOne := by
  refine ⟨_, _, rfl, fun token => ?_⟩
  refine .lift_bind (fun fault h => Fault.FoundAt.of_token? (token?_of_readToken h)) ?_
  rintro (l | type) -
  · cases l with
    | string name => exact place_judges _ true _
    | int | long | boolean =>
      exact throw_judges (.of_token? rfl)
  · exact place_judges _ true _

theorem equals_takesOne : equals.TakesOne := by
  refine ⟨_, _, rfl, fun token => ?_⟩
  by_cases h : token.text = Comparison.equal.spelling
  · simp only [h, if_true]
    exact pure_judges _ ()
  · simp only [h, if_false]
    exact throw_judges (.of_token? rfl)

theorem comparisonOperator_takesOne : comparisonOperator.TakesOne := by
  refine ⟨_, _, rfl, fun token => ?_⟩
  cases Comparison.ofText? token.text with
  | some op => exact pure_judges _ op
  | none => exact throw_judges (.of_token? rfl)

theorem direction_takesOne : direction.TakesOne := by
  refine ⟨_, _, rfl, fun token => ?_⟩
  cases Direction.ofText? token.text with
  | some d => exact pure_judges _ d
  | none => exact throw_judges (.of_token? rfl)

theorem kind_takesOne : kind.TakesOne := by
  refine ⟨_, _, rfl, fun token => ?_⟩
  cases readKind? token.text with
  | some read => exact pure_judges _ read
  | none => exact throw_judges (.of_token? rfl)

theorem categoryName_takesOne (category : Category) : (categoryName category).TakesOne := by
  refine ⟨_, _, rfl, fun token => ?_⟩
  by_cases h : unquote token.text = category.name
  · simp only [h, if_true]
    exact pure_judges _ category.name
  · simp only [h, if_false]
    exact throw_judges (.of_token? rfl)

theorem negations_prompt : negations.Prompt := by
  intro c
  obtain ⟨k, c', h⟩ : ∃ k c', negations c = .ok (k, c') := ⟨_, _, rfl⟩
  obtain ⟨⟨used, hused, htexts, -, hn⟩, havoid⟩ := negations_eq_ok.mp h
  refine .done k used c'.tokens c.placeholders hused fun rest' stop hhead => ?_
  exact negations_eq_ok.mpr
    ⟨⟨used, rfl, htexts, rfl, rfl⟩, fun token ht => havoid token (hhead ▸ ht)⟩

theorem assignment_prompt : assignment.Prompt :=
  (key_takesOne .set).prompt.bind fun _ => equals_takesOne.prompt.bind fun _ =>
    (value_takesOne .set).prompt.bind fun _ => pure_prompt _

theorem comparison_prompt : comparison.Prompt :=
  (key_takesOne .filter).prompt.bind fun _ => comparisonOperator_takesOne.prompt.bind fun _ =>
    (value_takesOne .filter).prompt.bind fun _ => pure_prompt _

theorem condition_prompt : condition.Prompt :=
  negations_prompt.bind fun _ => comparison_prompt.bind fun _ => pure_prompt _

theorem conjunction_prompt : conjunction.Prompt :=
  (condition_prompt.chain _).bind fun _ => pure_prompt _

theorem disjunction_prompt : disjunction.Prompt :=
  (conjunction_prompt.chain _).bind fun _ => pure_prompt _

theorem sortKey_prompt : sortKey.Prompt :=
  (key_takesOne .sort).prompt.bind fun _ => direction_takesOne.prompt.bind fun _ => pure_prompt _

theorem Prompt.list {item : Reader α} (h : item.Prompt) : (list item).Prompt :=
  (h.chain ",").bind fun _ => pure_prompt _

/-- A limit is one token. Of what is wrong with it one thing shows only behind the keyword. -/
theorem limit_eq_next_bind : ∃ f : Token → Reader Term, limit = next .term >>= f ∧
    ∀ token, (f token).Judges fun fault => ∀ before : List Token,
      before.getLast?.map Token.text = some Keyword.limit.spelling →
        fault.FoundAt before token := by
  refine ⟨_, bind_assoc _ _ _, fun token => ?_⟩
  rw [bind_assoc]
  refine .lift_bind (fun fault h before _ => Fault.FoundAt.of_token? (token?_of_readToken h)) ?_
  rintro (l | type) hread
  · cases l with
    | int n => exact pure_judges _ _
    | string | long | boolean =>
      exact throw_judges fun before hbefore =>
        .limit hbefore (readToken_value_iff.mp hread) (by simp)
  · exact (place_judges _ false (.placeholder type)).bind_pure id

theorem limitClause_prompt : (after .limit limit).Prompt := by
  obtain ⟨f, hlimit, hf⟩ := limit_eq_next_bind
  intro c
  by_cases havoid : c.Avoids [Keyword.limit.spelling]
  · exact settles_of_avoids havoid limit
  · obtain ⟨keyword, rest, hc, ht⟩ := Cursor.exists_of_not_avoids havoid
    have hafter : ∀ rest' stop, after .limit limit ⟨keyword :: rest', stop, c.placeholders⟩ =
        (next .term >>= fun token => f token >>= fun t => pure (some t))
          ⟨rest', stop, c.placeholders⟩ := by
      intro rest' stop
      rw [after_of_keyword ht, hlimit, bind_assoc]
    cases rest with
    | nil =>
      refine .short .term ?_
      rw [Cursor.eq_mk_of_tokens hc, hafter]
      rfl
    | cons token rest =>
      rcases (hf token).bind_pure some with ⟨value, holes, hr⟩ | ⟨fault, hfault, hr⟩
      · exact .done (value c.placeholders) [keyword, token] rest (c.placeholders + holes) hc
          fun rest' stop _ => (hafter (token :: rest') stop).trans (hr _)
      · have hbefore : [keyword].getLast?.map Token.text = some Keyword.limit.spelling := by
          simp [ht]
        exact .wrong [keyword] token rest hc (hfault _ hbefore)
          fun after' stop => (hafter (token :: after') stop).trans (hr _)

theorem statement_prompt (category : Category) : (statement category).Prompt := by
  apply kind_takesOne.prompt.bind
  intro read
  apply (categoryName_takesOne category).prompt.bind
  intro name
  apply (assignment_prompt.list.after .set).bind
  intro assignments
  apply (disjunction_prompt.after .filter).bind
  intro filter
  apply (sortKey_prompt.list.after .sort).bind
  intro order
  apply limitClause_prompt.bind
  intro limit c
  cases hc : c.tokens with
  | nil =>
    refine .done { kind := read.1, aggregateKey := read.2, category := name, assignments, order,
                   filter := filter.map fun f => ⟨some f⟩, limit, placeholders := c.placeholders }
      [] [] c.placeholders hc fun rest' stop hhead => ?_
    rw [List.head?_nil, List.head?_eq_none_iff] at hhead
    rw [hhead]
    rfl
  | cons token rest =>
    exact .wrong [] token rest hc (.of_token? rfl) fun _ _ => rfl

end Reader
end CategoryStatements
