import CategoryStatements.Proofs.Completion
import CategoryStatements.Proofs.RoundTrip

/-! The earliest fault. A text that is rejected only because it ends can be continued to one that
is accepted. In every other rejected text one token is at fault: up to it the text can still be
continued, with it no longer, and nothing behind it changes the fault. -/
namespace CategoryStatements

/-- A fault that reports a token missing at the end of the text. -/
def Fault.AtEnd (stop : Nat) (fault : Fault) : Prop :=
  fault.expected?.isSome ∧ fault.found? = none ∧ fault.span? = some ⟨stop, stop⟩

instance (stop : Nat) (fault : Fault) : Decidable (fault.AtEnd stop) :=
  inferInstanceAs (Decidable (_ ∧ _))

theorem Fault.FoundAt.not_atEnd {before : List Token} {token : Token} {fault : Fault}
    (h : fault.FoundAt before token) (stop : Nat) : ¬fault.AtEnd stop := by
  rintro ⟨hexpected, hfound, hspan⟩
  cases h with
  | marked span text found =>
    have := found hexpected
    rw [hfound] at this
    cases this
  | limit keyword wellFormed notInt => cases hspan

/-- What stands behind a delimiter leaves the tokens before it as they are. -/
theorem tokensFrom_append_delimiter {d : Char} (hd : isDelimiter d) (offset : Nat)
    (cs rest : List Char) :
    ∃ more, tokensFrom offset (cs ++ d :: rest) = tokensFrom offset cs ++ more := by
  fun_induction tokensFrom offset cs with
  | case1 offset => exact ⟨_, rfl⟩
  | case2 offset c cs hc ih =>
    obtain ⟨more, ih⟩ := ih
    refine ⟨more, ?_⟩
    rw [List.cons_append, tokensFrom, if_pos hc, ih]
  | case3 offset c cs hc chars stop ih =>
    obtain ⟨more, ih⟩ := ih
    refine ⟨more, ?_⟩
    rw [List.cons_append, tokensFrom, if_neg hc, splitToken_append_delimiter hd]
    simp only [List.cons_append, List.cons.injEq]
    exact ⟨rfl, ih⟩

theorem tokenize_append_space (text more : String) :
    ∃ tokens, tokenize (text ++ " " ++ more) = tokenize text ++ tokens := by
  have htext : (text ++ " " ++ more).toList = text.toList ++ ' ' :: more.toList := by simp
  rw [tokenize, htext]
  exact tokensFrom_append_delimiter (by decide) 0 _ _

section

variable {category : Category}

/-- Behind some tokens one is at fault, whatever comes after it. -/
structure FailsAt (category : Category) (before : List Token) (token : Token) (fault : Fault) :
    Prop where
  found : fault.FoundAt before token
  lasting : ∀ after stop, parseTokens category (before ++ token :: after) stop = .error fault

/-- How reading a whole sequence of tokens comes out. -/
theorem parseTokens_cases (category : Category) (tokens : List Token) (stop : Nat) :
    (∃ expected, parseTokens category tokens stop = .error (.premature expected stop)) ∨
    (∃ fault before token after, tokens = before ++ token :: after ∧
      FailsAt category before token fault) ∨
    ∃ s, parseTokens category tokens stop = .ok s := by
  cases Reader.statement_prompt category ⟨tokens, stop, 0⟩ with
  | short expected result => exact .inl ⟨expected, by rw [parseTokens, result]⟩
  | wrong before token after htokens found result =>
    refine .inr (.inl ⟨_, before, token, after, htokens, found, ?_⟩)
    intro after' stop'
    rw [parseTokens, result]
  | done s used rest n htokens result =>
    have hread := result rest stop rfl
    rw [← show tokens = used ++ rest from htokens] at hread
    exact .inr (.inr ⟨s, by rw [parseTokens, hread]⟩)

/-- The first token at which the tokens are at fault: those before it are accepted, or miss a
token. -/
theorem exists_first_fault {tokens : List Token} {stop : Nat} {fault : Fault}
    (h : parseTokens category tokens stop = .error fault) (hend : ¬fault.AtEnd stop) :
    ∃ before token after, tokens = before ++ token :: after ∧
      FailsAt category before token fault ∧
      ((∃ s, parseTokens category before stop = .ok s) ∨
        ∃ expected, parseTokens category before stop = .error (.premature expected stop)) := by
  induction hlen : tokens.length using Nat.strongRecOn generalizing tokens fault with
  | ind len ih =>
  rcases parseTokens_cases category tokens stop with ⟨expected, hr⟩ |
    ⟨fault', before, token, after, rfl, hfails⟩ | ⟨s, hr⟩
  · rw [hr] at h
    cases h
    exact absurd ⟨rfl, rfl, rfl⟩ hend
  · obtain rfl : fault = fault' := Except.error.inj (h.symm.trans (hfails.lasting after stop))
    rcases parseTokens_cases category before stop with hshort |
      ⟨fault', before', token', after', hbefore, hfails'⟩ | hok
    · exact ⟨before, token, after, rfl, hfails, .inr hshort⟩
    · -- the tokens before are at fault already, and have fewer before their first fault
      have hlt : before.length < len := by
        rw [← hlen, List.length_append, List.length_cons]
        omega
      have herror : parseTokens category before stop = .error fault' := by
        rw [hbefore]
        exact hfails'.lasting after' stop
      obtain ⟨first, t, later, hfirst, hfailsFirst, hviable⟩ :=
        ih _ hlt herror (hfails'.found.not_atEnd stop) rfl
      have hsplit : before ++ token :: after = first ++ t :: (later ++ token :: after) := by
        rw [hfirst, List.append_assoc, List.cons_append]
      have hsame := hfailsFirst.lasting (later ++ token :: after) stop
      rw [← hsplit, h] at hsame
      obtain rfl := Except.error.inj hsame
      exact ⟨first, t, later ++ token :: after, hsplit, hfailsFirst, hviable⟩
    · exact ⟨before, token, after, rfl, hfails, .inl hok⟩
  · rw [hr] at h
    cases h

/-- A text that is accepted once something is added to it. -/
def Extendable (category : Category) (text : String) : Prop :=
  ∃ more s, parse category (text ++ " " ++ more) = .ok s

theorem extendable_of_texts {p : StatementPhrase category} {text : String} {us : List String}
    (hus : ∀ u ∈ us, IsToken u) (h : p.texts = tokenTexts text ++ us) :
    Extendable category text := by
  refine ⟨" ".intercalate us, p.statement, parse_eq_ok.mpr ⟨p, ?_, rfl⟩⟩
  rw [tokenTexts_append_space, tokenTexts_intercalate, flatMap_tokenTexts hus, h]

/-- Tokens that miss one more can be completed, however they are laid out. -/
theorem extendable_of_premature (hsome : ∃ text s, parse category text = .ok s)
    {tokens : List Token} {stop offset : Nat} {expected : Expectation}
    (h : parseTokens category tokens stop = .error (.premature expected offset)) {text : String}
    (htexts : tokenTexts text = tokens.map Token.text) : Extendable category text := by
  obtain ⟨accepted, s, haccepted⟩ := hsome
  obtain ⟨q, hq, -⟩ := parse_eq_ok.mp haccepted
  have hname := isToken_of_texts_eq hq q.category.text (by simp [StatementPhrase.texts])
  unfold parseTokens at h
  split at h
  · cases h
  · next fault hread =>
    cases h
    obtain ⟨p, us, hus, hp⟩ := Reader.statement_completes q.category hname hread
    exact extendable_of_texts hus (htexts ▸ hp)

/-- The text of the first tokens, with spaces between them. -/
def leading (text : String) (k : Nat) : String :=
  " ".intercalate (((tokenize text).take k).map Token.text)

theorem tokenTexts_leading (text : String) (k : Nat) :
    tokenTexts (leading text k) = ((tokenize text).take k).map Token.text := by
  rw [leading, tokenTexts_intercalate]
  apply flatMap_tokenTexts
  intro w hw
  have hmem : w ∈ tokenTexts text := by
    rw [← map_text_tokenize]
    rw [List.map_take] at hw
    exact List.mem_of_mem_take hw
  exact isToken_of_mem hmem

/-- One token of a text is to blame for a fault. -/
structure Blames (category : Category) (text : String) (fault : Fault) (k : Nat) (token : Token) :
    Prop where
  present : (tokenize text)[k]? = some token
  /-- The tokens before it are accepted, or can be continued to an accepted text. -/
  viable : (∃ s, parse category (leading text k) = .ok s) ∨ Extendable category (leading text k)
  /-- With it, no text is accepted. -/
  hopeless : ∀ other s,
    ((tokenize other).map Token.text).take (k + 1) =
      ((tokenize text).map Token.text).take (k + 1) → parse category other ≠ .ok s
  /-- Whatever is added to the text, the fault is the same. -/
  lasting : ∀ more, parse category (text ++ " " ++ more) = .error fault
  found : fault.FoundAt ((tokenize text).take k) token

/-- The first token at fault is to blame. -/
theorem exists_blames (hsome : ∃ text s, parse category text = .ok s) {text : String}
    {fault : Fault} (h : parse category text = .error fault)
    (hend : ¬fault.AtEnd text.utf8ByteSize) : ∃ k token, Blames category text fault k token := by
  obtain ⟨before, token, after, htokens, hfails, hviable⟩ := exists_first_fault h hend
  have htake : (tokenize text).take before.length = before := by simp [htokens]
  have hleading : tokenTexts (leading text before.length) = before.map Token.text := by
    rw [tokenTexts_leading, htake]
  refine ⟨before.length, token, by simp [htokens], ?_, ?_, ?_, htake.symm ▸ hfails.found⟩
  · rcases hviable with ⟨s, hs⟩ | ⟨expected, hshort⟩
    · obtain ⟨p, hp, hstatement⟩ := parseTokens_eq_ok.mp hs
      exact .inl ⟨s, parse_eq_ok.mpr ⟨p, hp.trans hleading.symm, hstatement⟩⟩
    · exact .inr (extendable_of_premature hsome hshort hleading)
  · intro other s hagree hok
    -- the other text has the texts of tokens that start with these and are at fault as well
    have hfirst : ((tokenize text).map Token.text).take (before.length + 1) =
        before.map Token.text ++ [token.text] := by
      simp [htokens, List.take_append, List.take_of_length_le]
    obtain ⟨p, hp, hstatement⟩ := parseTokens_eq_ok.mp hok
    have htexts : p.texts =
        (before ++ token :: (tokenize other).drop (before.length + 1)).map Token.text := by
      rw [hp, ← List.take_append_drop (before.length + 1) ((tokenize other).map Token.text), hagree,
        hfirst]
      simp
    have herror := hfails.lasting ((tokenize other).drop (before.length + 1)) text.utf8ByteSize
    rw [parseTokens_eq_ok.mpr ⟨p, htexts, hstatement⟩] at herror
    cases herror
  · intro more
    obtain ⟨tokens, hmore⟩ := tokenize_append_space text more
    rw [parse, hmore, htokens, List.append_assoc, List.cons_append]
    exact hfails.lasting _ _

/-- Faults are reported at the earliest token. A text lacks a token at its end exactly when it
can be continued to an accepted one; in every other rejected text a token is to blame. -/
theorem parse_fault_earliest (hsome : ∃ text s, parse category text = .ok s) {text : String}
    {fault : Fault} (h : parse category text = .error fault) :
    (fault.AtEnd text.utf8ByteSize ↔ Extendable category text) ∧
      (¬fault.AtEnd text.utf8ByteSize → ∃ k token, Blames category text fault k token) := by
  refine ⟨⟨?_, ?_⟩, exists_blames hsome h⟩
  · intro hend
    rcases parseTokens_cases category (tokenize text) text.utf8ByteSize with ⟨expected, hshort⟩ |
      ⟨fault', before, token, after, htokens, hfails⟩ | ⟨s, hs⟩
    · exact extendable_of_premature hsome hshort (map_text_tokenize text).symm
    · rw [parse, htokens, hfails.lasting] at h
      cases h
      exact absurd hend (hfails.found.not_atEnd _)
    · rw [parse, hs] at h
      cases h
  · rintro ⟨more, s, hs⟩
    by_contra hend
    obtain ⟨k, token, hblames⟩ := exists_blames hsome h hend
    rw [hblames.lasting more] at hs
    cases hs

/-- A limit that is missing, and one that is no integer. -/
theorem parse_fault_earliest_limit :
    Extendable ⟨"c", []⟩ "QUERY c LIMIT" ∧
      ∃ k token,
        Blames ⟨"c", []⟩ "QUERY c LIMIT 'x' ," (.limitNotInteger (.string "x")) k token := by
  have hsome : ∃ text s, parse ⟨"c", []⟩ text = .ok s :=
    ⟨"QUERY c", { kind := .query, category := "c" }, by decide +kernel⟩
  have hshort : parse ⟨"c", []⟩ "QUERY c LIMIT" = .error (.premature .term 13) := by
    decide +kernel
  have hwrong : parse ⟨"c", []⟩ "QUERY c LIMIT 'x' ," =
      .error (.limitNotInteger (.string "x")) := by
    decide +kernel
  exact ⟨(parse_fault_earliest hsome hshort).1.mp (by decide +kernel),
    (parse_fault_earliest hsome hwrong).2 (by decide +kernel)⟩

end

end CategoryStatements
