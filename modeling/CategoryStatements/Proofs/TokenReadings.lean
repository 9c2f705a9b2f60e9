import CategoryStatements.Proofs.Phrases
import Mathlib.Data.List.Induction
import Mathlib.Data.List.Nodup

/-! What single tokens mean. Every test that reads one token is shown to say yes exactly to the
tokens of the grammar: kinds with their keys, terms in the place of keys and of values, and
limits. The order in which the tests are made plays no part in the statements. -/
namespace CategoryStatements

/-! ### Words -/

@[simp] theorem Kind.word_eq (kind : Kind) : kind.word = kind.spelling := by cases kind <;> rfl

@[simp] theorem Comparison.word_eq (op : Comparison) : op.word = op.spelling := by
  cases op <;> rfl

@[simp] theorem Direction.word_eq (d : Direction) : d.word = d.spelling := by cases d <;> rfl

@[simp] theorem ParamType.word_eq (type : ParamType) : type.word = type.spelling := by
  obtain ⟨element, isList⟩ := type
  cases element <;> cases isList <;> rfl

theorem Value.boolText_eq (b : Bool) : boolText b = if b then "true" else "false" := by
  cases b <;> rfl

/-- A search for a spelling finds what is spelled so, when spellings are distinct. -/
theorem find?_spelling [DecidableEq β] {all : List α} {spelling : α → β}
    (hmem : ∀ a, a ∈ all) (hnodup : (all.map spelling).Nodup) {text : β} {a : α} :
    all.find? (fun x => spelling x = text) = some a ↔ spelling a = text := by
  constructor
  · intro h
    simpa using List.find?_some h
  · rintro rfl
    cases h : all.find? (fun x => spelling x = spelling a) with
    | none =>
      have := List.find?_eq_none.mp h a (hmem a)
      simp at this
    | some b =>
      have hb : spelling b = spelling a := by simpa using List.find?_some h
      rw [List.inj_on_of_nodup_map hnodup (hmem b) (hmem a) hb]

theorem Comparison.ofText?_eq_some {text : String} {op : Comparison} :
    ofText? text = some op ↔ op.spelling = text := find?_spelling mem_all (by decide)

theorem Direction.ofText?_eq_some {text : String} {d : Direction} :
    ofText? text = some d ↔ d.spelling = text := find?_spelling mem_all (by decide)

theorem Kind.ofText?_eq_some {text : String} {kind : Kind} :
    ofText? text = some kind ↔ kind.spelling = text := find?_spelling mem_all (by decide)

theorem Element.ofLetter?_eq_some {c : Char} {e : Element} :
    ofLetter? c = some e ↔ e.letter = c := find?_spelling mem_all (by decide)

theorem ParamType.ofText?_eq_some {text : String} {type : ParamType} :
    ofText? text = some type ↔ type.spelling = text := by
  constructor
  · intro h
    rw [← String.toList_inj, ParamType.spelling, String.toList_ofList]
    unfold ofText? at h
    split at h
    · next c heq =>
      obtain ⟨e, he, rfl⟩ := Option.map_eq_some_iff.mp h
      simp [heq, Element.ofLetter?_eq_some.mp he]
    · next c heq =>
      obtain ⟨e, he, rfl⟩ := Option.map_eq_some_iff.mp h
      simp [heq, Element.ofLetter?_eq_some.mp he]
    · cases h
  · rintro rfl
    exact ofText?_spelling type

/-- The texts that belong to the grammar itself. -/
def structuralTexts : List String :=
  Keyword.all.map Keyword.spelling ++ Comparison.all.map Comparison.spelling ++ [","]

theorem isStructural_iff {text : String} : isStructural text ↔ text ∈ structuralTexts := by
  simp only [isStructural, Keyword.ofText?, Comparison.ofText?, structuralTexts,
    Bool.or_eq_true, List.find?_isSome, decide_eq_true_eq, beq_iff_eq, List.mem_append,
    List.mem_map, List.mem_singleton]

/-- A text with a property that no text of the grammar itself has is not one of them. -/
theorem isStructural_eq_false {text : String} (p : List Char → Bool) (h : p text.toList)
    (hp : ∀ t ∈ structuralTexts, p t.toList = false) : isStructural text = false := by
  rw [Bool.eq_false_iff]
  intro hs
  rw [hp text (isStructural_iff.mp hs)] at h
  cases h

/-! ### Numbers -/

theorem natOfDigits_append_singleton (digits : List Char) (c : Char) :
    natOfDigits (digits ++ [c]) = 10 * natOfDigits digits + digitValue c := by
  simp [natOfDigits]

/-- Reading from the front adds up to the same number as counting places from the end. -/
theorem natOfDigits_eq_placeValue (digits : List Char) :
    natOfDigits digits = placeValue digits := by
  -- one more digit at the end moves all others up one place, on both sides
  induction digits using List.reverseRecOn with
  | nil => rfl
  | append_singleton digits c ih =>
    rw [natOfDigits_append_singleton, ih]
    simp only [placeValue, List.reverse_append, List.reverse_singleton, List.singleton_append,
      List.map_cons, Nat.ofDigits_cons]
    exact Nat.add_comm _ _

theorem readNat?_eq_some {text : List Char} {n : Nat} :
    readNat? text = some n ↔ text ≠ [] ∧ (∀ c ∈ text, c.isDigit) ∧ placeValue text = n := by
  simp [readNat?, natOfDigits_eq_placeValue, and_assoc]

theorem readInt?_eq_some {text : List Char} {n : Int} :
    readInt? text = some n ↔ Numeral text n := by
  constructor
  · intro h
    unfold readInt? at h
    split at h
    · next digits =>
      obtain ⟨m, hm, rfl⟩ : ∃ m, readNat? digits = some m ∧ -(m : Int) = n := by
        cases hm : readNat? digits <;> simp_all
      obtain ⟨hne, hall, rfl⟩ := readNat?_eq_some.mp hm
      exact .negative hne hall
    · obtain ⟨m, hm, rfl⟩ : ∃ m, readNat? text = some m ∧ (m : Int) = n := by
        cases hm : readNat? text <;> simp_all
      obtain ⟨hne, hall, rfl⟩ := readNat?_eq_some.mp hm
      exact .unsigned hne hall
  · intro h
    cases h with
    | unsigned hne hall =>
      have hminus : ∀ digits, text ≠ '-' :: digits := by
        rintro digits rfl
        exact absurd (hall '-' (by simp)) (by decide)
      rw [readInt?.eq_2 text hminus, readNat?_eq_some.mpr ⟨hne, hall, rfl⟩]
      rfl
    | negative hne hall =>
      rw [readInt?.eq_1, readNat?_eq_some.mpr ⟨hne, hall, rfl⟩]
      rfl

namespace Numeral

theorem startsNumber {text : List Char} {n : Int} (h : Numeral text n) (rest : List Char) :
    startsNumber (text ++ rest) := by
  cases h with
  | unsigned hne hall =>
    obtain ⟨c, cs, rfl⟩ := List.exists_cons_of_ne_nil hne
    have hc := hall c (by simp)
    have hminus : c ≠ '-' := by
      rintro rfl
      exact absurd hc (by decide)
    cases cs <;> cases rest <;> simp_all [CategoryStatements.startsNumber]
  | negative hne hall =>
    obtain ⟨c, cs, rfl⟩ := List.exists_cons_of_ne_nil hne
    simpa [CategoryStatements.startsNumber] using hall c (by simp)

theorem getLast?_isDigit {text : List Char} {n : Int} (h : Numeral text n) :
    ∃ c, text.getLast? = some c ∧ c.isDigit := by
  cases h with
  | unsigned hne hall => exact ⟨_, List.getLast?_eq_some_getLast hne, hall _ (List.getLast_mem hne)⟩
  | negative hne hall =>
    refine ⟨_, ?_, hall _ (List.getLast_mem hne)⟩
    rw [List.getLast?_cons, List.getLast?_eq_some_getLast hne]
    rfl

end Numeral

theorem readNumber?_eq_some {text : List Char} {l : Literal} :
    readNumber? text = some l ↔
      (∃ n, Numeral text n ∧ (-2147483648 ≤ n ∧ n ≤ 2147483647) ∧ l = .int (Int32.ofInt n)) ∨
      ∃ body mark n, text = body ++ [mark] ∧ (mark = 'L' ∨ mark = 'l') ∧ Numeral body n ∧
        (-9223372036854775808 ≤ n ∧ n ≤ 9223372036854775807) ∧ l = .long (Int64.ofInt n) := by
  constructor
  · intro h
    unfold readNumber? at h
    split at h
    · next hmark =>
      obtain ⟨mark, hm, hlast⟩ :
          ∃ mark, (mark = 'L' ∨ mark = 'l') ∧ text.getLast? = some mark := by
        rcases hmark with h | h
        · exact ⟨'L', .inl rfl, h⟩
        · exact ⟨'l', .inr rfl, h⟩
      obtain ⟨body, rfl⟩ := List.getLast?_eq_some_iff.mp hlast
      rw [List.dropLast_concat] at h
      cases hread : readInt? body with
      | none => simp [hread] at h
      | some n =>
        simp only [hread, Option.ite_none_right_eq_some, Option.some.injEq] at h
        exact .inr ⟨body, mark, n, rfl, hm, readInt?_eq_some.mp hread, h.1, h.2.symm⟩
    · cases hread : readInt? text with
      | none => simp [hread] at h
      | some n =>
        simp only [hread, Option.ite_none_right_eq_some, Option.some.injEq] at h
        exact .inl ⟨n, readInt?_eq_some.mp hread, h.1, h.2.symm⟩
  · rintro (⟨n, hn, hr, rfl⟩ | ⟨body, mark, n, rfl, hm, hn, hr, rfl⟩)
    · have hmark : ¬(text.getLast? = some 'L' ∨ text.getLast? = some 'l') := by
        obtain ⟨c, hc, hd⟩ := hn.getLast?_isDigit
        rw [hc]
        rintro (h | h) <;> cases h <;> exact absurd hd (by decide)
      rw [readNumber?, if_neg hmark, readInt?_eq_some.mpr hn]
      exact if_pos hr
    · have hmark : (body ++ [mark]).getLast? = some 'L' ∨ (body ++ [mark]).getLast? = some 'l' := by
        simpa using hm
      rw [readNumber?, if_pos hmark, List.dropLast_concat, readInt?_eq_some.mpr hn]
      exact if_pos hr

theorem startsNumber_iff {text : List Char} : startsNumber text ↔ StartsLikeNumber text := by
  constructor
  · intro h
    unfold startsNumber at h
    split at h
    · next c rest => exact ⟨c, rest, h, .inr rfl⟩
    · next c rest _ => exact ⟨c, rest, h, .inl rfl⟩
    · cases h
  · rintro ⟨c, rest, hc, rfl | rfl⟩
    · have hminus : c ≠ '-' := by
        rintro rfl
        exact absurd hc (by decide)
      cases rest <;> simp [startsNumber, hminus, hc]
    · exact hc

theorem startsNumber_eq_false {text : List Char} :
    startsNumber text = false ↔ ¬StartsLikeNumber text := by
  rw [← startsNumber_iff, Bool.not_eq_true]

/-! ### Quotes and bare words -/

theorem toList_quoted (s : String) :
    (quoted s).toList = quoteMark :: (s.toList ++ [quoteMark]) := by
  simp [quoted, quoteMark]

theorem unquote_quoted (s : String) : unquote (quoted s) = s := by
  rw [unquote, toList_quoted, betweenQuotes?_quoted]
  exact String.ofList_toList

theorem unquoted_unquote (text : String) : Unquoted text (unquote text) := by
  unfold unquote
  split
  · next inner h =>
    have htext : text = quoted (String.ofList inner) := by
      rw [← String.toList_inj, toList_quoted, String.toList_ofList]
      exact eq_of_betweenQuotes? h
    rw [htext]
    exact .quoted _
  · next h =>
    refine .plain fun inner htext => ?_
    rw [htext, toList_quoted, betweenQuotes?_quoted] at h
    cases h

/-- A text with quotes at its ends is the quoted form of what stands between them, and every
other text is left as it is. -/
theorem unquote_cases (text : String) : text = quoted (unquote text) ∨ unquote text = text := by
  have h := unquoted_unquote text
  generalize unquote text = s at h
  cases h with
  | quoted => exact .inl rfl
  | plain => exact .inr rfl

theorem unquote_eq_iff {text s : String} : unquote text = s ↔ Unquoted text s := by
  constructor
  · rintro rfl
    exact unquoted_unquote text
  · intro h
    cases h with
    | quoted => exact unquote_quoted s
    | plain hplain =>
      rcases unquote_cases text with hq | hq
      · exact absurd hq (hplain _)
      · exact hq

theorem head?_ne_of_startsNumber {cs : List Char} (h : startsNumber cs) {c : Char}
    (hc : c ≠ '-' ∧ c.isDigit = false) : cs.head? ≠ some c := by
  intro he
  obtain ⟨rest, rfl⟩ := List.head?_eq_some_iff.mp he
  cases rest <;> simp_all [startsNumber]

theorem isWhiteSpace_iff {c : Char} : isWhiteSpace c ↔ c.toNat ∈ whiteSpaceCodes := by
  simp only [isWhiteSpace, whiteSpaceRuns, whiteSpaceCodes, List.any_cons, List.any_nil,
    Bool.or_eq_true, Bool.and_eq_true, decide_eq_true_eq, Bool.false_eq_true, List.mem_cons,
    List.not_mem_nil, or_false]
  omega

theorem isReserved_eq_false {c : Char} :
    isReserved c = false ↔
      c.toNat ∉ whiteSpaceCodes ∧ c ∉ ['\x27', '=', '!', '<', '>', ','] := by
  rw [← isWhiteSpace_iff, Bool.not_eq_true]
  simp [isReserved, quoteMark, and_assoc]

theorem mem_reservedWords {text : String} :
    text ∈ reservedWords ↔ (Keyword.ofText? text).isSome ∨ text = "true" ∨ text = "false" := by
  have hwords : reservedWords = Keyword.all.map Keyword.spelling ++ ["true", "false"] := rfl
  simp only [hwords, Keyword.ofText?, List.find?_isSome, decide_eq_true_eq, List.mem_append,
    List.mem_map, List.mem_cons, List.not_mem_nil, or_false]

theorem isBareWord_iff {text : String} : isBareWord text ↔ BareWord text := by
  have hreserved : text ∉ reservedWords ↔
      text ≠ "true" ∧ text ≠ "false" ∧ Keyword.ofText? text = none := by
    simp only [mem_reservedWords, not_or, Bool.not_eq_true, Option.isSome_eq_false_iff,
      Option.isNone_iff_eq_none]
    tauto
  unfold isBareWord
  split
  · next h =>
    have hempty : text = "" := String.toList_inj.mp h
    simp only [Bool.false_eq_true, false_iff]
    exact fun hbare => hbare.nonempty hempty
  · next c cs h =>
    have hnonempty : text ≠ "" := by
      rintro rfl
      cases h
    simp only [Bool.and_eq_true, Bool.not_eq_true', bne_iff_ne, Option.isNone_iff_eq_none,
      List.any_eq_false, Bool.not_eq_true, isReserved_eq_false, ← h, startsNumber_eq_false]
    constructor
    · rintro ⟨⟨⟨⟨⟨hnumber, hplaceholder⟩, htrue⟩, hfalse⟩, hkeyword⟩, hchars⟩
      exact ⟨hnonempty, hreserved.mpr ⟨htrue, hfalse, hkeyword⟩, hnumber, by simpa [h], hchars⟩
    · intro hbare
      obtain ⟨htrue, hfalse, hkeyword⟩ := hreserved.mp hbare.notReserved
      have hplaceholder : c ≠ '?' := by simpa [h] using hbare.notPlaceholder
      exact ⟨⟨⟨⟨⟨hbare.notNumber, hplaceholder⟩, htrue⟩, hfalse⟩, hkeyword⟩, hbare.chars⟩

instance (text : String) : Decidable (BareWord text) :=
  decidable_of_iff (isBareWord text) isBareWord_iff

theorem BareWord.not_isReserved {word : String} (h : BareWord word) :
    ∀ c ∈ word.toList, isReserved c = false :=
  fun c hc => isReserved_eq_false.mpr (h.chars c hc)

/-- A bare word does not start with a quote. -/
theorem BareWord.head?_ne_quoteMark {word : String} (h : BareWord word) :
    word.toList.head? ≠ some quoteMark := by
  intro hq
  have hreserved := h.not_isReserved quoteMark (List.mem_of_mem_head? hq)
  exact absurd hreserved (by decide)

theorem Clause.permits_iff {clause : Clause} {type : ParamType} :
    clause.permits type ↔ clause.Takes type := by
  constructor
  · intro h
    obtain ⟨element, isList⟩ := type
    cases clause with
    | set => exact .set _
    | filter =>
      simp only [permits, Bool.and_eq_true, Bool.not_eq_true', bne_iff_ne] at h
      obtain ⟨rfl, hrecord⟩ := h
      exact .filter hrecord
    | sort =>
      rw [permits, beq_iff_eq] at h
      rw [h]
      exact .sort
    | limit =>
      rw [permits, beq_iff_eq] at h
      rw [h]
      exact .limit
  · intro h
    cases h with
    | filter noRecord => simpa [permits] using noRecord
    | set | sort | limit => rfl

section readToken

variable {clause : Clause} {isKey : Bool} {token : Token}

theorem readToken_placeholder {type : ParamType} (takes : clause.Takes type)
    (ht : token.text = type.word) : readToken clause isKey token = .ok (.placeholder type) := by
  rw [ParamType.word_eq] at ht
  have hhead : type.spelling.toList.head? = some '?' := by
    unfold ParamType.spelling
    split <;> simp
  have hs : isStructural type.spelling = false :=
    isStructural_eq_false (fun cs => cs.head? = some '?') (by simp [hhead]) (by decide)
  simp [readToken, ht, hs, hhead, ParamType.ofText?_spelling,
    Clause.permits_iff.mpr takes]

theorem readToken_quoted {s : String} (ht : token.text = quoted s) :
    readToken clause isKey token = .ok (.literal (.string s)) := by
  have hs : isStructural (quoted s) = false :=
    isStructural_eq_false (fun cs => cs.head? = some quoteMark) (by simp [toList_quoted])
      (by decide)
  have hq : quoteMark ≠ '?' := by decide
  simp [readToken, ht, hs, toList_quoted, betweenQuotes?_quoted, hq]

theorem readToken_boolean {b : Bool} (ht : token.text = if b then "true" else "false") :
    readToken clause isKey token = .ok (.literal (.boolean b)) := by
  cases b <;> simp only [readToken, ht] <;> rfl

/-- A token that starts like a number is read as one, whatever stands behind the start. -/
theorem readToken_of_startsNumber (hstart : startsNumber token.text.toList) :
    readToken clause isKey token =
      (readNumber? token.text.toList).elim (.error (.malformedNumber token))
        fun l => .ok (.literal l) := by
  have hs : isStructural token.text = false :=
    isStructural_eq_false startsNumber hstart (by decide)
  have hp := head?_ne_of_startsNumber hstart (c := '?') (by decide)
  have hq := head?_ne_of_startsNumber hstart (c := quoteMark) (by decide)
  have htrue : token.text ≠ "true" := by
    intro ht
    rw [ht] at hstart
    exact absurd hstart (by decide)
  have hfalse : token.text ≠ "false" := by
    intro ht
    rw [ht] at hstart
    exact absurd hstart (by decide)
  simp only [readToken, hs, hp, hq, htrue, hfalse, hstart, Bool.false_eq_true, if_false, if_true]
  cases readNumber? token.text.toList <;> rfl

theorem readToken_number {l : Literal} (hstart : startsNumber token.text.toList)
    (h : readNumber? token.text.toList = some l) :
    readToken clause isKey token = .ok (.literal l) := by
  rw [readToken_of_startsNumber hstart, h]
  rfl

theorem readToken_bareWord (h : BareWord token.text) :
    readToken clause true token = .ok (.literal (.string token.text)) := by
  have hplain : ∀ text, text.toList.any isReserved → token.text ≠ text := by
    rintro _ hreserved rfl
    obtain ⟨c, hc, hchar⟩ := List.any_eq_true.mp hreserved
    rw [h.not_isReserved c hc] at hchar
    cases hchar
  have hkeyword : Keyword.ofText? token.text = none := by
    have := h.notReserved
    rw [mem_reservedWords, not_or] at this
    simpa using this.1
  have hs : isStructural token.text = false := by
    -- the spellings that are no keywords all have a reserved character
    have hop : Comparison.ofText? token.text = none := by
      rw [Option.eq_none_iff_forall_ne_some]
      intro op hop
      exact hplain op.spelling (by cases op <;> decide) (Comparison.ofText?_eq_some.mp hop).symm
    simp [isStructural, hkeyword, hop, hplain "," (by decide)]
  have htrue : token.text ≠ "true" := by
    intro ht
    exact h.notReserved (ht ▸ by decide)
  have hfalse : token.text ≠ "false" := by
    intro ht
    exact h.notReserved (ht ▸ by decide)
  simp [readToken, hs, h.notPlaceholder, h.head?_ne_quoteMark, htrue, hfalse,
    startsNumber_eq_false.mpr h.notNumber, isBareWord_iff.mpr h]

/-- What a token means, the classes of the grammar being apart. -/
theorem readToken_cases {r : Reading} (h : readToken clause isKey token = .ok r) :
    TermToken clause false token.text r ∨
      isKey ∧ BareWord token.text ∧ r = .literal (.string token.text) := by
  simp only [readToken] at h
  split at h
  · cases h
  split at h
  · split at h
    · cases h
    · next type htype =>
      split at h
      · next permitted =>
        cases h
        rw [← ParamType.ofText?_eq_some.mp htype, ← ParamType.word_eq]
        exact .inl (.placeholder (Clause.permits_iff.mp permitted))
      · cases h
  split at h
  · split at h
    · next inner hinner =>
      cases h
      have ht : token.text = quoted (String.ofList inner) := by
        rw [← String.toList_inj, toList_quoted, String.toList_ofList]
        exact eq_of_betweenQuotes? hinner
      rw [ht]
      exact .inl (.quoted _)
    · cases h
  split at h
  · next ht =>
    cases h
    rw [ht]
    exact .inl (.boolean true)
  split at h
  · next ht =>
    cases h
    rw [ht]
    exact .inl (.boolean false)
  split at h
  · split at h
    · next l hl =>
      cases h
      rcases readNumber?_eq_some.mp hl with ⟨n, hn, hr, rfl⟩ | ⟨body, mark, n, hb, hm, hn, hr, rfl⟩
      · rw [← String.ofList_toList (s := token.text)]
        exact .inl (.int hn hr)
      · rw [← String.ofList_toList (s := token.text), hb]
        exact .inl (.long hn hm hr)
    · cases h
  split at h
  · next hbare =>
    cases h
    exact .inr (by simpa [isBareWord_iff] using hbare)
  · cases h

theorem readToken_of_termToken {text : String} {r : Reading}
    (h : TermToken clause isKey text r) (ht : token.text = text) :
    readToken clause isKey token = .ok r := by
  cases h with
  | placeholder takes => exact readToken_placeholder takes ht
  | quoted s => exact readToken_quoted ht
  | bareWord bare =>
    subst ht
    exact readToken_bareWord bare
  | int hn hr =>
    have hchars := congrArg String.toList ht
    rw [String.toList_ofList] at hchars
    apply readToken_number
    · simpa [hchars] using hn.startsNumber []
    · rw [hchars]
      exact readNumber?_eq_some.mpr (.inl ⟨_, hn, hr, rfl⟩)
  | long hn hm hr =>
    have hchars := congrArg String.toList ht
    rw [String.toList_ofList] at hchars
    apply readToken_number
    · rw [hchars]
      exact hn.startsNumber _
    · rw [hchars]
      exact readNumber?_eq_some.mpr (.inr ⟨_, _, _, rfl, hm, hn, hr, rfl⟩)
  | boolean b => exact readToken_boolean ht

theorem readToken_value_iff {r : Reading} :
    readToken clause false token = .ok r ↔ TermToken clause false token.text r := by
  constructor
  · intro h
    simpa using readToken_cases h
  · intro h
    exact readToken_of_termToken h rfl

/-- A key is a placeholder or a string, where numbers and truth values also have a meaning. -/
theorem readToken_key_iff {r : Reading} :
    readToken clause true token = .ok r ∧ (∀ l, r = .literal l → ∃ s, l = .string s) ↔
      TermToken clause true token.text r := by
  constructor
  · rintro ⟨h, hkey⟩
    rcases readToken_cases h with h | ⟨-, hbare, rfl⟩
    · generalize token.text = text at h
      cases h with
      | placeholder takes => exact .placeholder takes
      | quoted s => exact .quoted s
      | int | long | boolean =>
        obtain ⟨s, hs⟩ := hkey _ rfl
        cases hs
    · exact .bareWord hbare
  · intro h
    refine ⟨readToken_of_termToken h rfl, ?_⟩
    rintro l rfl
    generalize token.text = text at h
    cases h <;> exact ⟨_, rfl⟩

end readToken

/-- A token has at most one meaning in its place. -/
theorem TermToken.unique {clause : Clause} {isKey : Bool} {text : String} {r r' : Reading}
    (h : TermToken clause isKey text r) (h' : TermToken clause isKey text r') : r = r' := by
  have hr : readToken clause isKey ⟨text, ⟨0, 0⟩⟩ = .ok r := readToken_of_termToken h rfl
  rw [readToken_of_termToken h' rfl] at hr
  cases hr
  rfl

/-- A limit is a value of its clause that is no literal but an integer. -/
theorem limitToken_iff {text : String} {r : Reading} :
    LimitToken text r ↔
      TermToken .limit false text r ∧ ∀ l, r = .literal l → ∃ n, l = .int n := by
  constructor
  · intro h
    cases h with
    | placeholder =>
      have hi : TermToken .limit false (ParamType.word ⟨.int, false⟩) _ := .placeholder .limit
      exact ⟨hi, by simp⟩
    | int hn hr => exact ⟨.int hn hr, by simp⟩
  · rintro ⟨h, hint⟩
    cases h with
    | placeholder takes =>
      cases takes
      exact .placeholder
    | int hn hr => exact .int hn hr
    | quoted | long | boolean =>
      obtain ⟨n, hn⟩ := hint _ rfl
      cases hn

theorem LimitToken.unique {text : String} {r r' : Reading} (h : LimitToken text r)
    (h' : LimitToken text r') : r = r' :=
  (limitToken_iff.mp h).1.unique (limitToken_iff.mp h').1

/-- Terms are told from the texts of the grammar itself. -/
theorem TermToken.not_structural {clause : Clause} {isKey : Bool} {text : String} {r : Reading}
    (h : TermToken clause isKey text r) : isStructural text = false := by
  have hr : readToken clause isKey ⟨text, ⟨0, 0⟩⟩ = .ok r := readToken_of_termToken h rfl
  rw [Bool.eq_false_iff]
  intro hs
  simp [readToken, hs] at hr

theorem TermPhrase.text_ne_keyword {clause : Clause} {isKey : Bool} (p : TermPhrase clause isKey)
    (keyword : Keyword) : p.text ≠ keyword.spelling := by
  intro h
  have hs := p.derives.not_structural
  rw [h] at hs
  exact absurd hs (by cases keyword <;> decide)

theorem betweenParens?_eq_some {cs inner : List Char} :
    betweenParens? cs = some inner ↔
      cs = '(' :: (inner ++ [')']) ∧ inner ≠ [] ∧ ∀ c ∈ inner, c ≠ '(' ∧ c ≠ ')' := by
  constructor
  · intro h
    unfold betweenParens? at h
    split at h
    · next cs =>
      simp only [Option.ite_none_right_eq_some, Option.some.injEq] at h
      obtain ⟨⟨hlast, hne, hall⟩, rfl⟩ := h
      obtain ⟨body, rfl⟩ := List.getLast?_eq_some_iff.mp hlast
      exact ⟨by simp, hne, by simpa using hall⟩
    · cases h
  · rintro ⟨rfl, hne, hall⟩
    simpa [betweenParens?, hne] using hall

theorem keyBehind?_eq_some {kind : Kind} {text key : String} :
    keyBehind? kind text = some key ↔
      ∃ inner : String, text = kind.spelling ++ "(" ++ inner ++ ")" ∧ inner ≠ "" ∧
        (∀ c ∈ inner.toList, c ≠ '(' ∧ c ≠ ')') ∧ Unquoted inner key := by
  constructor
  · intro h
    simp only [keyBehind?, Option.ite_none_right_eq_some] at h
    obtain ⟨hpre, h⟩ := h
    obtain ⟨rest, hrest⟩ := List.isPrefixOf_iff_prefix.mp hpre
    rw [← hrest, List.drop_left] at h
    obtain ⟨inner, hinner, rfl⟩ := Option.map_eq_some_iff.mp h
    obtain ⟨rfl, hne, hall⟩ := betweenParens?_eq_some.mp hinner
    refine ⟨String.ofList inner, ?_, ?_, by simpa using hall, unquoted_unquote _⟩
    · rw [← String.toList_inj, ← hrest]
      simp
    · simpa [← String.toList_inj] using hne
  · rintro ⟨inner, rfl, hne, hall, hkey⟩
    have hinner : inner.toList ≠ [] := by
      intro he
      exact hne (String.toList_inj.mp he)
    have hparens : betweenParens? ('(' :: (inner.toList ++ [')'])) = some inner.toList :=
      betweenParens?_eq_some.mpr ⟨rfl, hinner, hall⟩
    simp [keyBehind?, hparens, unquote_eq_iff.mpr hkey]

/-- What follows an aggregate in parentheses is no part of another kind's spelling. -/
theorem keyBehind?_spelling {kind : Kind} {text key : String}
    (h : keyBehind? kind text = some key) (other : Kind) : other.spelling ≠ text := by
  obtain ⟨inner, rfl, -⟩ := keyBehind?_eq_some.mp h
  intro he
  have hmem : '(' ∈ other.spelling.toList := by
    rw [he]
    simp
  exact absurd hmem (by cases other <;> decide)

theorem keyBehind?_count_distinct {text : String} {key key' : String}
    (h : keyBehind? .count text = some key) (h' : keyBehind? .distinct text = some key') :
    False := by
  obtain ⟨inner, rfl, -⟩ := keyBehind?_eq_some.mp h
  obtain ⟨inner', he, -⟩ := keyBehind?_eq_some.mp h'
  have hget := congrArg (fun t : String => t.toList[6]?) he
  simp [Kind.spelling] at hget

theorem Kind.isAggregate_iff {kind : Kind} :
    kind.isAggregate ↔ kind = .count ∨ kind = .distinct := by
  cases kind <;> decide

theorem readKind?_eq_some {text : String} {r : Kind × Option String} :
    readKind? text = some r ↔ KindToken text r := by
  have hkeyed (kind : Kind) (aggregate : kind = .count ∨ kind = .distinct) {key : String}
      (h : keyBehind? kind text = some key) : KindToken text (kind, some key) := by
    obtain ⟨inner, rfl, hne, hall, hkey⟩ := keyBehind?_eq_some.mp h
    rw [← kind.word_eq]
    exact .keyed aggregate hne hall hkey
  constructor
  · intro h
    unfold readKind? at h
    split at h
    · next kind hkind =>
      cases h
      rw [← Kind.ofText?_eq_some.mp hkind, ← kind.word_eq]
      exact .plain kind
    · split at h
      · next key hkey =>
        cases h
        exact hkeyed .count (.inl rfl) hkey
      · next key _ hkey =>
        cases h
        exact hkeyed .distinct (.inr rfl) hkey
      · cases h
  · intro h
    cases h with
    | plain kind => rw [readKind?, Kind.ofText?_eq_some.mpr kind.word_eq.symm]
    | @keyed kind inner key aggregate hne hall hunquoted =>
      have hkey : keyBehind? kind (kind.word ++ "(" ++ inner ++ ")") = some key :=
        keyBehind?_eq_some.mpr ⟨inner, by rw [kind.word_eq], hne, hall, hunquoted⟩
      have hplain : Kind.ofText? (kind.word ++ "(" ++ inner ++ ")") = none := by
        rw [Option.eq_none_iff_forall_ne_some]
        intro other hother
        exact keyBehind?_spelling hkey other (Kind.ofText?_eq_some.mp hother)
      rcases aggregate with rfl | rfl
      · rw [readKind?, hplain, hkey]
      · rw [readKind?, hplain, hkey]
        cases hcount : keyBehind? .count (Kind.distinct.word ++ "(" ++ inner ++ ")") with
        | none => rfl
        | some key' => exact (keyBehind?_count_distinct hcount hkey).elim

end CategoryStatements
