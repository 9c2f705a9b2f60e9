import CategoryStatements.Token
import Mathlib.Tactic.Common

/-! Token texts without their offsets. Texts with a delimiter between them are split
independently, every token is on its own one token again, and splitting loses nothing but
delimiters. Marks and delimiters are listed apart from the tests that split at them. Which offsets
tokens have is a separate matter. -/
namespace CategoryStatements

/-- The punctuation marks. -/
def marks : List String := ["!=", "<=", ">=", "=", "<", ">", ","]

/-- Space, tab, carriage return, line feed and form feed. -/
def delimiters : List Char := [' ', '\t', '\r', '\n', '\x0c']

theorem isDelimiter_iff {c : Char} : isDelimiter c ↔ c ∈ delimiters := by
  simp [isDelimiter, delimiters, or_assoc]

/-- The token texts of a sequence of characters. -/
def lexemes : List Char → List (List Char)
  | [] => []
  | c :: cs =>
    if isDelimiter c then lexemes cs
    else (c :: (splitToken c cs).1) :: lexemes (splitToken c cs).2
termination_by cs => cs.length
decreasing_by
  all_goals have := length_splitToken_le c cs
  all_goals simp only [List.length_cons]
  all_goals omega

def tokenTexts (text : String) : List String := (lexemes text.toList).map String.ofList

theorem map_text_tokensFrom (offset : Nat) (cs : List Char) :
    (tokensFrom offset cs).map Token.text = (lexemes cs).map String.ofList := by
  fun_induction lexemes cs generalizing offset with
  | case1 => simp [tokensFrom]
  | case2 c cs hd ih => simp [tokensFrom, hd, ih]
  | case3 c cs hd ih => simp [tokensFrom, hd, ih]

theorem map_text_tokenize (text : String) : (tokenize text).map Token.text = tokenTexts text :=
  map_text_tokensFrom 0 text.toList

/-- A mark is recognised by its first one or two characters. -/
theorem markLength_cons (c : Char) (cs : List Char) :
    markLength (c :: cs) =
      if (c = '!' ∨ c = '<' ∨ c = '>') ∧ cs.head? = some '=' then 2
      else if c = '=' ∨ c = '<' ∨ c = '>' ∨ c = ',' then 1
      else 0 := by
  cases cs with
  | nil =>
    unfold markLength
    split <;> simp_all
  | cons b cs =>
    simp only [List.head?_cons, Option.some.injEq]
    unfold markLength
    split <;> simp_all
    -- `<` and `>` alone, where what follows is known only not to start with `=`
    all_goals
      rename_i hne heq
      obtain ⟨-, rfl⟩ := heq
      simpa using hne cs

/-- Cutting a text short makes no mark. -/
theorem markLength_of_append {cs : List Char} (rest : List Char)
    (h : markLength (cs ++ rest) = 0) : markLength cs = 0 := by
  cases cs with
  | nil => rfl
  | cons c cs => cases cs <;> grind [markLength_cons]

/-- No delimiter is part of a mark. -/
theorem markLength_append_delimiter {d : Char} (hd : isDelimiter d) (c : Char)
    (cs rest : List Char) : markLength (c :: (cs ++ d :: rest)) = markLength (c :: cs) := by
  have hne : d ≠ '=' := by
    rintro rfl
    exact absurd hd (by decide)
  cases cs <;> simp [markLength_cons, hne]

theorem splitWord_append_delimiter {d : Char} (hd : isDelimiter d) (cs rest : List Char) :
    splitWord (cs ++ d :: rest) = ((splitWord cs).1, (splitWord cs).2 ++ d :: rest) := by
  induction cs with
  | nil => simp [splitWord, hd]
  | cons c cs ih =>
    rw [List.cons_append, splitWord, splitWord, markLength_append_delimiter hd]
    split <;> simp [ih]

theorem splitQuoted_append_delimiter {d : Char} (hd : isDelimiter d) (cs rest : List Char) :
    splitQuoted (cs ++ d :: rest) = ((splitQuoted cs).1, (splitQuoted cs).2 ++ d :: rest) := by
  induction cs with
  | nil => simp [splitQuoted, hd]
  | cons c cs ih =>
    rw [List.cons_append, splitQuoted, splitQuoted, ih]
    split
    · rfl
    · split <;> rfl

theorem markLength_le (c : Char) (cs : List Char) : markLength (c :: cs) ≤ cs.length + 1 := by
  cases cs <;> simp only [markLength_cons, List.length_cons] <;> grind

theorem splitToken_append_delimiter {d : Char} (hd : isDelimiter d) (c : Char)
    (cs rest : List Char) :
    splitToken c (cs ++ d :: rest) = ((splitToken c cs).1, (splitToken c cs).2 ++ d :: rest) := by
  have hle := markLength_le c cs
  simp only [splitToken, markLength_append_delimiter hd, splitQuoted_append_delimiter hd,
    splitWord_append_delimiter hd]
  split
  · rfl
  · split
    · rfl
    · simp only [List.splitAt_eq, Prod.mk.injEq]
      exact ⟨List.take_append_of_le_length (by omega), List.drop_append_of_le_length (by omega)⟩

/-- A delimiter separates: the tokens on its two sides do not see each other. -/
theorem lexemes_append_delimiter {d : Char} (hd : isDelimiter d) (cs rest : List Char) :
    lexemes (cs ++ d :: rest) = lexemes cs ++ lexemes rest := by
  fun_induction lexemes cs with
  | case1 => simp [lexemes, hd]
  | case2 c cs hc ih => simp [lexemes, hc, ih]
  | case3 c cs hc ih => simp [lexemes, hc, splitToken_append_delimiter hd, ih]

theorem splitWord_splitWord (cs : List Char) :
    splitWord (splitWord cs).1 = ((splitWord cs).1, []) := by
  induction cs with
  | nil => rfl
  | cons c cs ih =>
    by_cases h : (isDelimiter c || markLength (c :: cs) != 0) = true
    · simp [splitWord, h]
    · have hm : markLength (c :: (splitWord cs).1) = 0 := by
        apply markLength_of_append (splitWord cs).2
        rw [List.cons_append, splitWord_append]
        simp_all
      simp_all [splitWord]

theorem splitQuoted_splitQuoted (cs : List Char) :
    splitQuoted (splitQuoted cs).1 = ((splitQuoted cs).1, []) := by
  fun_induction splitQuoted cs <;> simp_all [splitQuoted]

theorem markLength_take (c : Char) (cs : List Char) :
    markLength (c :: cs.take (markLength (c :: cs) - 1)) = markLength (c :: cs) := by
  cases cs with
  | nil => simp
  | cons b cs =>
    by_cases hb : b = '='
    · by_cases hc : c = '!' ∨ c = '<' ∨ c = '>' <;> simp [markLength_cons, hb, hc]
    · simp only [markLength_cons, List.head?_cons, Option.some.injEq, hb, and_false, if_false]
      split <;> simp_all

theorem splitToken_splitToken (c : Char) (cs : List Char) :
    splitToken c (splitToken c cs).1 = ((splitToken c cs).1, []) := by
  by_cases hq : c = quoteMark
  · simpa [splitToken, hq] using splitQuoted_splitQuoted cs
  by_cases hm : markLength (c :: cs) = 0
  · have hw : markLength (c :: (splitWord cs).1) = 0 := by
      apply markLength_of_append (splitWord cs).2
      rwa [List.cons_append, splitWord_append]
    simpa [splitToken, hq, hm, hw] using splitWord_splitWord cs
  · have ht := markLength_take c cs
    simp [splitToken, hq, hm, ht, List.splitAt_eq, List.take_take]

theorem splitWord_not_delimiter (cs : List Char) : ∀ x ∈ (splitWord cs).1, ¬isDelimiter x := by
  fun_induction splitWord cs <;> simp_all

theorem splitQuoted_not_delimiter (cs : List Char) :
    ∀ x ∈ (splitQuoted cs).1, ¬isDelimiter x := by
  fun_induction splitQuoted cs <;> simp_all

theorem splitToken_not_delimiter (c : Char) (cs : List Char) :
    ∀ x ∈ (splitToken c cs).1, ¬isDelimiter x := by
  unfold splitToken
  split
  · exact splitQuoted_not_delimiter cs
  split
  · exact splitWord_not_delimiter cs
  -- of a mark at most the second character is left, and it is `=`
  · intro x hx
    cases cs with
    | nil => simp at hx
    | cons b cs =>
      simp only [List.splitAt_eq, markLength_cons, List.head?_cons, Option.some.injEq] at hx
      split at hx
      · next h =>
        obtain rfl : x = b := by simpa using hx
        rw [h.2]
        decide
      · split at hx <;> simp at hx

/-- Splitting loses nothing but delimiters. -/
theorem flatten_lexemes (cs : List Char) :
    (lexemes cs).flatten = cs.filter fun c => !isDelimiter c := by
  fun_induction lexemes cs with
  | case1 => rfl
  | case2 c cs hc ih => simp [hc, ih]
  | case3 c cs hc ih =>
    have hd := splitToken_not_delimiter c cs
    have hcs : cs.filter (fun c => !isDelimiter c) =
        (splitToken c cs).1 ++ (splitToken c cs).2.filter fun c => !isDelimiter c := by
      conv_lhs => rw [← splitToken_append c cs]
      rw [List.filter_append, List.filter_eq_self.mpr (by simpa using hd)]
    simp [hc, ih, hcs]

/-- A text that is one token. -/
def IsLexeme (cs : List Char) : Prop := lexemes cs = [cs]

theorem isLexeme_of_mem {w cs : List Char} (h : w ∈ lexemes cs) : IsLexeme w := by
  fun_induction lexemes cs with
  | case1 => simp at h
  | case2 c cs hc ih => exact ih h
  | case3 c cs hc ih =>
    rcases List.mem_cons.mp h with rfl | h
    · simp [IsLexeme, lexemes, hc, splitToken_splitToken]
    · exact ih h

/-- A token has no delimiter in it, and is split off whole. -/
theorem isLexeme_cons {c : Char} {cs : List Char} :
    IsLexeme (c :: cs) ↔ ¬isDelimiter c ∧ splitToken c cs = (cs, []) := by
  constructor
  · intro h
    have hall := flatten_lexemes (c :: cs)
    rw [h, List.flatten_singleton] at hall
    have hc : ¬isDelimiter c := by
      simpa using List.filter_eq_self.mp hall.symm c (by simp)
    simp only [IsLexeme, lexemes, hc, Bool.false_eq_true, if_false, List.cons.injEq,
      true_and] at h
    have happ := splitToken_append c cs
    rw [h.1] at happ
    exact ⟨hc, Prod.ext h.1 (by simpa using happ)⟩
  · rintro ⟨hc, hs⟩
    simp [IsLexeme, lexemes, hc, hs]

/-- Characters that go on with a word. An exclamation mark is one of them, since what would
make it a mark is not. -/
def isWordChar (c : Char) : Bool :=
  !isDelimiter c && c != '=' && c != '<' && c != '>' && c != ','

theorem markLength_of_wordChars {c : Char} {cs : List Char} (h : ∀ x ∈ c :: cs, isWordChar x) :
    markLength (c :: cs) = 0 := by
  have hhead : cs.head? ≠ some '=' := by
    intro he
    obtain ⟨rest, rfl⟩ := List.head?_eq_some_iff.mp he
    exact absurd (h '=' (by simp)) (by decide)
  have hc := h c (by simp)
  simp only [isWordChar, Bool.and_eq_true, bne_iff_ne, ne_eq] at hc
  simp [markLength_cons, hhead, hc]

theorem splitWord_of_wordChars {cs : List Char} (h : ∀ x ∈ cs, isWordChar x) :
    splitWord cs = (cs, []) := by
  induction cs with
  | nil => rfl
  | cons c cs ih =>
    have hc := h c (by simp)
    have hm := markLength_of_wordChars h
    have hrest := ih fun x hx => h x (by simp [hx])
    simp only [isWordChar, Bool.and_eq_true, Bool.not_eq_true'] at hc
    simp [splitWord, hc, hm, hrest]

theorem wordChars_splitWord (cs : List Char) : ∀ x ∈ (splitWord cs).1, isWordChar x := by
  induction cs with
  | nil => simp [splitWord]
  | cons c cs ih =>
    unfold splitWord
    split
    · simp
    · next h =>
      simp only [Bool.or_eq_true, bne_iff_ne, ne_eq, not_or, not_not] at h
      have hc : isWordChar c := by
        have hm := h.2
        simp only [markLength_cons] at hm
        grind [isWordChar]
      simpa [hc] using ih

theorem isLexeme_word {c : Char} {cs : List Char} (hq : c ≠ quoteMark)
    (h : ∀ x ∈ c :: cs, isWordChar x) : IsLexeme (c :: cs) := by
  have hc := h c (by simp)
  have hm := markLength_of_wordChars h
  have hs := splitWord_of_wordChars fun x hx => h x (List.mem_cons_of_mem c hx)
  simp only [isWordChar, Bool.and_eq_true, Bool.not_eq_true'] at hc
  simp [isLexeme_cons, splitToken, hq, hc, hm, hs]

theorem wordChars_of_isLexeme {c : Char} {cs : List Char} (hq : c ≠ quoteMark)
    (hm : markLength (c :: cs) = 0) (h : IsLexeme (c :: cs)) : ∀ x ∈ cs, isWordChar x := by
  have hs := (isLexeme_cons.mp h).2
  simp only [splitToken, hq, if_false, hm, if_true] at hs
  have := wordChars_splitWord cs
  rwa [hs] at this

/-- Between the quotes of a quoted token there is neither a quote nor a delimiter. -/
theorem isLexeme_quoted {cs : List Char} :
    IsLexeme (quoteMark :: (cs ++ [quoteMark])) ↔ ∀ x ∈ cs, x ≠ quoteMark ∧ ¬isDelimiter x := by
  have hqd : isDelimiter quoteMark = false := by decide
  have hsplit : splitQuoted (cs ++ [quoteMark]) = (cs ++ [quoteMark], []) ↔
      ∀ x ∈ cs, x ≠ quoteMark ∧ ¬isDelimiter x := by
    induction cs with
    | nil => simp [splitQuoted, hqd]
    | cons c cs ih =>
      by_cases hd : isDelimiter c
      · simp [splitQuoted, hd]
      by_cases hq : c = quoteMark
      · simp [splitQuoted, hqd, hq]
      · rw [List.forall_mem_cons, ← ih]
        simp [splitQuoted, hd, hq, Prod.ext_iff]
  rw [isLexeme_cons, ← hsplit]
  simp [splitToken, hqd]

/-- A text that is one token, as a string. -/
def IsToken (text : String) : Prop := tokenTexts text = [text]

theorem isToken_iff {text : String} : IsToken text ↔ IsLexeme text.toList := by
  simp only [IsToken, IsLexeme, tokenTexts]
  constructor
  · intro h
    obtain ⟨cs, hcs, he⟩ := List.map_eq_singleton_iff.mp h
    rw [hcs, ← he, String.toList_ofList]
  · intro h
    simp [h]

theorem isToken_of_mem {token text : String} (h : token ∈ tokenTexts text) : IsToken token := by
  obtain ⟨cs, hcs, rfl⟩ := List.mem_map.mp h
  rw [isToken_iff, String.toList_ofList]
  exact isLexeme_of_mem hcs

theorem tokenTexts_append_space (a b : String) :
    tokenTexts (a ++ " " ++ b) = tokenTexts a ++ tokenTexts b := by
  have hs : (a ++ " " ++ b).toList = a.toList ++ ' ' :: b.toList := by simp
  rw [tokenTexts, hs, lexemes_append_delimiter (by decide), List.map_append]
  rfl

/-- Words joined by spaces are split word by word. -/
theorem tokenTexts_intercalate (words : List String) :
    tokenTexts (" ".intercalate words) = words.flatMap tokenTexts := by
  induction words with
  | nil => simp [tokenTexts, lexemes]
  | cons w words ih =>
    cases words with
    | nil => simp
    | cons v words =>
      rw [String.intercalate_cons_cons, tokenTexts_append_space, ih]
      rfl

theorem flatMap_tokenTexts {words : List String} (h : ∀ w ∈ words, IsToken w) :
    words.flatMap tokenTexts = words := by
  induction words with
  | nil => rfl
  | cons w words ih =>
    rw [List.flatMap_cons, h w (by simp), ih fun v hv => h v (by simp [hv])]
    rfl

theorem length_le_of_mem_tokenTexts {token text : String} (h : token ∈ tokenTexts text) :
    token.length ≤ text.length := by
  obtain ⟨cs, hcs, rfl⟩ := List.mem_map.mp h
  have hle := (List.sublist_flatten_of_mem hcs).length_le
  rw [flatten_lexemes] at hle
  have := List.length_filter_le (fun c => !isDelimiter c) text.toList
  simp only [← String.length_toList, String.toList_ofList]
  omega

end CategoryStatements
