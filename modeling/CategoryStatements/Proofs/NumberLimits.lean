import CategoryStatements.Proofs.Canonical
import CategoryStatements.Proofs.Spans

/-! Numbers at their limits. What the numeral of a token denotes is said in positional notation
and without bounds, and the two widths are ranges of whole numbers. A token that starts like a
number is then read as the one number that it denotes, or refused when its width cannot hold that
number. Every number of either width is written as a token of this kind. -/
namespace CategoryStatements

/-- A numeral that denotes a number of 32 bits. -/
def IsIntText (text : List Char) (n : Int) : Prop :=
  Numeral text n ∧ -2 ^ 31 ≤ n ∧ n ≤ 2 ^ 31 - 1

/-- A numeral that denotes a number of 64 bits, with the mark of the wider type behind it. -/
def IsLongText (text : List Char) (n : Int) : Prop :=
  ∃ body mark, text = body ++ [mark] ∧ (mark = 'L' ∨ mark = 'l') ∧ Numeral body n ∧
    -2 ^ 63 ≤ n ∧ n ≤ 2 ^ 63 - 1

/-- A result that tells which number a token is, or that it is none. The result for a literal is
given, since it depends on what is read and where. -/
structure TellsNumber (token : Token) (gives : Literal → Except Fault α)
    (result : Except Fault α) : Prop where
  int (n : Int) :
    (∃ m : Int32, m.toInt = n ∧ result = gives (.int m)) ↔ IsIntText token.text.toList n
  long (n : Int) :
    (∃ m : Int64, m.toInt = n ∧ result = gives (.long m)) ↔ IsLongText token.text.toList n
  malformed :
    result = .error (.malformedNumber token) ↔
      ¬∃ n, IsIntText token.text.toList n ∨ IsLongText token.text.toList n

/-- A literal that is written as one token, starting like a number, and read from it again. -/
structure Literal.ReadsBack (l : Literal) : Prop where
  token : tokenize l.render = [⟨l.render, ⟨0, l.render.utf8ByteSize⟩⟩]
  starts : StartsLikeNumber l.render.toList
  meaning (clause : Clause) (isKey : Bool) (span : Span) :
    readToken clause isKey ⟨l.render, span⟩ = .ok (.literal l)
  value (clause : Clause) (rest : List Token) (stop k : Nat) :
    Reader.value clause ⟨tokenize l.render ++ rest, stop, k⟩ =
      .ok (⟨.literal l, false⟩, ⟨rest, stop, k⟩)

/-! ### Digits -/

theorem natDigits_eq_toDigits (n : Nat) : natDigits n = Nat.toDigits 10 n := by
  have hchar : ∀ d < 10, digitChar d = Nat.digitChar d := by decide
  induction n using natDigits.induct with
  | case1 n hn => rw [natDigits, if_pos hn, Nat.toDigits_of_lt_base hn, hchar n hn]
  | case2 n hn ih =>
    have hten : 10 ≤ n := by omega
    rw [natDigits, if_neg hn, ih, hchar _ (Nat.mod_lt n (by omega)),
      Nat.toDigits_of_base_le (by omega) hten]

/-- Numbers are written the usual way. -/
theorem intText_eq_toString (n : Int) : intText n = toString n := by
  rw [Int.toString_eq_repr, Int.repr_eq_if, intText, intChars]
  split
  · next h =>
    rw [if_neg (by omega), Nat.repr_eq_ofList_toDigits, natDigits_eq_toDigits,
      show (-n).toNat = n.natAbs by omega]
    simp
  · next h =>
    rw [if_pos (by omega), Nat.repr_eq_ofList_toDigits, natDigits_eq_toDigits,
      show n.toNat = n.natAbs by omega]

/-! ### Reading -/

theorem readNumber?_eq_int {text : List Char} {m : Int32} :
    readNumber? text = some (.int m) ↔ IsIntText text m.toInt := by
  rw [readNumber?_eq_some, IsIntText]
  constructor
  · rintro (⟨n, hn, hr, hm⟩ | ⟨_, _, _, _, _, _, _, hm⟩)
    · rw [Literal.int.inj hm, Int32.toInt_ofInt_of_le (by omega) (by omega)]
      exact ⟨hn, by omega⟩
    · cases hm
  · rintro ⟨hn, hr⟩
    exact .inl ⟨m.toInt, hn, by omega, by rw [Int32.ofInt_toInt]⟩

theorem readNumber?_eq_long {text : List Char} {m : Int64} :
    readNumber? text = some (.long m) ↔ IsLongText text m.toInt := by
  simp only [readNumber?_eq_some, IsLongText]
  constructor
  · rintro (⟨_, _, _, hm⟩ | ⟨body, mark, n, htext, hmark, hn, hr, hm⟩)
    · cases hm
    · rw [Literal.long.inj hm, Int64.toInt_ofInt_of_le (by omega) (by omega)]
      exact ⟨body, mark, htext, hmark, hn, by omega⟩
  · rintro ⟨body, mark, htext, hmark, hn, hr⟩
    exact .inr ⟨body, mark, m.toInt, htext, hmark, hn, by omega, by rw [Int64.ofInt_toInt]⟩

theorem IsIntText.exists_int32 {text : List Char} {n : Int} (h : IsIntText text n) :
    ∃ m : Int32, m.toInt = n := by
  obtain ⟨-, hle, hge⟩ := h
  exact ⟨Int32.ofInt n, Int32.toInt_ofInt_of_le hle (by omega)⟩

theorem IsLongText.exists_int64 {text : List Char} {n : Int} (h : IsLongText text n) :
    ∃ m : Int64, m.toInt = n := by
  obtain ⟨-, -, -, -, -, hle, hge⟩ := h
  exact ⟨Int64.ofInt n, Int64.toInt_ofInt_of_le hle (by omega)⟩

/-- What holds only of the numbers of a width can be said of the width instead. -/
theorem exists_toInt_iff {toInt : β → Int} {P : Int → Prop} (h : ∀ n, P n → ∃ m, toInt m = n)
    (n : Int) : (∃ m, toInt m = n ∧ P (toInt m)) ↔ P n := by
  constructor
  · rintro ⟨m, rfl, hm⟩
    exact hm
  · intro hn
    obtain ⟨m, rfl⟩ := h n hn
    exact ⟨m, rfl, hn⟩

/-- What is read as a number is an integer or a long. -/
theorem int_or_long_of_readNumber? {text : List Char} {l : Literal}
    (h : readNumber? text = some l) : (∃ m, l = .int m) ∨ ∃ m, l = .long m := by
  rcases readNumber?_eq_some.mp h with ⟨_, _, _, rfl⟩ | ⟨_, _, _, _, _, _, _, rfl⟩
  · exact .inl ⟨_, rfl⟩
  · exact .inr ⟨_, rfl⟩

theorem readNumber?_eq_none {text : List Char} :
    readNumber? text = none ↔ ¬∃ n, IsIntText text n ∨ IsLongText text n := by
  rw [← not_iff_not, not_not, ← ne_eq, Option.ne_none_iff_exists']
  symm
  constructor
  · rintro ⟨n, h | h⟩
    · obtain ⟨m, rfl⟩ := h.exists_int32
      exact ⟨_, readNumber?_eq_int.mpr h⟩
    · obtain ⟨m, rfl⟩ := h.exists_int64
      exact ⟨_, readNumber?_eq_long.mpr h⟩
  · rintro ⟨l, h⟩
    rcases int_or_long_of_readNumber? h with ⟨m, rfl⟩ | ⟨m, rfl⟩
    · exact ⟨_, .inl (readNumber?_eq_int.mp h)⟩
    · exact ⟨_, .inr (readNumber?_eq_long.mp h)⟩

/-- A result that depends on the token only through the number in it tells that number. -/
theorem tellsNumber_of_readNumber? {token : Token} {gives : Literal → Except Fault α}
    {result : Except Fault α} (hinj : Function.Injective gives)
    (hgives : ∀ l, gives l ≠ .error (.malformedNumber token))
    (hsome : ∀ l, readNumber? token.text.toList = some l → result = gives l)
    (hnone : readNumber? token.text.toList = none → result = .error (.malformedNumber token)) :
    TellsNumber token gives result := by
  -- the results are all different, so the result leads back to the number
  have hliteral (l : Literal) : result = gives l ↔ readNumber? token.text.toList = some l := by
    refine ⟨fun hresult => ?_, hsome l⟩
    cases hread : readNumber? token.text.toList with
    | none => exact absurd (hresult.symm.trans (hnone hread)) (hgives l)
    | some l' => rw [hinj (hresult.symm.trans (hsome l' hread))]
  have hfault :
      result = .error (.malformedNumber token) ↔ readNumber? token.text.toList = none := by
    refine ⟨fun hresult => ?_, hnone⟩
    rw [Option.eq_none_iff_forall_ne_some]
    intro l hread
    exact hgives l ((hsome l hread).symm.trans hresult)
  refine ⟨fun n => ?_, fun n => ?_, hfault.trans readNumber?_eq_none⟩
  · simp only [hliteral, readNumber?_eq_int]
    exact exists_toInt_iff (fun _ => IsIntText.exists_int32) n
  · simp only [hliteral, readNumber?_eq_long]
    exact exists_toInt_iff (fun _ => IsLongText.exists_int64) n

theorem tellsNumber_readToken (clause : Clause) (isKey : Bool) {token : Token}
    (hstart : StartsLikeNumber token.text.toList) :
    TellsNumber token (fun l => .ok (.literal l)) (readToken clause isKey token) := by
  rw [readToken_of_startsNumber (startsNumber_iff.mpr hstart)]
  refine tellsNumber_of_readNumber? ?_ (by simp) (fun l h => by rw [h]; rfl) fun h => by rw [h]; rfl
  intro l l' h
  simpa using h

namespace Reader

/-- A reader that asks of its token what it means takes the token and goes on from the answer. -/
theorem next_bind_lift_cons {expected : Expectation} (read : Token → Except Fault α)
    (f : Token → α → Reader β) {token : Token} {rest : List Token} {stop k : Nat} :
    (next expected >>= fun token => (liftM (read token) : Reader α) >>= f token)
        ⟨token :: rest, stop, k⟩ =
      (read token).bind fun a => f token a ⟨rest, stop, k⟩ := by
  change ((liftM (read token) : Reader α) >>= f token) ⟨rest, stop, k⟩ = _
  cases read token <;> rfl

variable (clause : Clause) {token : Token} (rest : List Token) (stop k : Nat)

theorem tellsNumber_value (hstart : StartsLikeNumber token.text.toList) :
    TellsNumber token (fun l => .ok (⟨.literal l, false⟩, ⟨rest, stop, k⟩))
      (value clause ⟨token :: rest, stop, k⟩) := by
  rw [value, next_bind_lift_cons, readToken_of_startsNumber (startsNumber_iff.mpr hstart)]
  refine tellsNumber_of_readNumber? ?_ (by simp) (fun l h => by rw [h]; rfl) fun h => by rw [h]; rfl
  intro l l' h
  simpa using h

/-- In the place of a key the number is told by the fault. -/
theorem tellsNumber_key (hstart : StartsLikeNumber token.text.toList) :
    TellsNumber token (fun l => .error (.notAKey token l clause))
      (key clause ⟨token :: rest, stop, k⟩) := by
  rw [key, next_bind_lift_cons, readToken_of_startsNumber (startsNumber_iff.mpr hstart)]
  refine tellsNumber_of_readNumber? ?_ (by simp) (fun l h => ?_) fun h => by rw [h]; rfl
  · intro l l' h
    simpa using h
  · rw [h]
    rcases int_or_long_of_readNumber? h with ⟨m, rfl⟩ | ⟨m, rfl⟩ <;> rfl

end Reader

/-! ### Writing -/

theorem IsToken.tokenize_eq {text : String} (h : IsToken text) :
    tokenize text = [⟨text, ⟨0, text.utf8ByteSize⟩⟩] := by
  rw [isToken_iff] at h
  cases hcs : text.toList with
  | nil => simp [IsLexeme, lexemes, hcs] at h
  | cons c cs =>
    rw [hcs, isLexeme_cons] at h
    obtain ⟨hc, hs⟩ := h
    have htext : String.ofList (c :: cs) = text := by rw [← hcs, String.ofList_toList]
    rw [tokenize, hcs, tokensFrom]
    simp only [hc, hs, tokensFrom, Bool.false_eq_true, if_false, htext, byteLength_eq_utf8ByteSize,
      Nat.zero_add]

namespace Literal

theorem readsBack_of_readNumber? {l : Literal} (htoken : IsToken l.render)
    (hstart : startsNumber l.render.toList) (hread : readNumber? l.render.toList = some l) :
    l.ReadsBack := by
  have hmeaning (clause : Clause) (isKey : Bool) (span : Span) :
      readToken clause isKey ⟨l.render, span⟩ = .ok (.literal l) := by
    apply readToken_number
    · exact hstart
    · exact hread
  refine ⟨htoken.tokenize_eq, startsNumber_iff.mp hstart, hmeaning, fun clause rest stop k => ?_⟩
  rw [htoken.tokenize_eq, List.singleton_append, Reader.value, Reader.next_bind_lift_cons, hmeaning]
  rfl

theorem isIntText_render (n : Int32) : IsIntText (int n).render.toList n.toInt := by
  have hlt := n.toInt_lt
  refine ⟨?_, n.le_toInt, by omega⟩
  rw [render, intText, String.toList_ofList]
  exact numeral_intChars n.toInt

theorem isLongText_render (n : Int64) : IsLongText (long n).render.toList n.toInt := by
  have hlt := n.toInt_lt
  refine ⟨intChars n.toInt, 'L', ?_, .inl rfl, numeral_intChars n.toInt, n.le_toInt, by omega⟩
  simp [render, intText]

theorem readsBack_int (n : Int32) : (int n).ReadsBack := by
  refine readsBack_of_readNumber? (isToken_render (by simp)) ?_
    (readNumber?_eq_int.mpr (isIntText_render n))
  simpa [render, intText] using (numeral_intChars n.toInt).startsNumber []

theorem readsBack_long (n : Int64) : (long n).ReadsBack := by
  refine readsBack_of_readNumber? (isToken_render (by simp)) ?_
    (readNumber?_eq_long.mpr (isLongText_render n))
  simpa [render, intText] using (numeral_intChars n.toInt).startsNumber ['L']

end Literal

/-- Number literals are exact. A token that starts like a number is an integer or a long exactly
when its digits denote a number of that width, which is then the number that is read, and it is
malformed otherwise. Every number of either width is written in the usual way, as a token of its
kind that is read back as the same literal. -/
theorem number_literals_exact :
    (∀ (clause : Clause) (token : Token), StartsLikeNumber token.text.toList →
      (∀ isKey, TellsNumber token (fun l => .ok (.literal l)) (readToken clause isKey token)) ∧
      ∀ (rest : List Token) (stop k : Nat),
        TellsNumber token (fun l => .ok (⟨.literal l, false⟩, ⟨rest, stop, k⟩))
          (Reader.value clause ⟨token :: rest, stop, k⟩) ∧
        TellsNumber token (fun l => .error (.notAKey token l clause))
          (Reader.key clause ⟨token :: rest, stop, k⟩)) ∧
    (∀ n : Int32, (Literal.int n).render = toString n.toInt ∧
      IsIntText (Literal.int n).render.toList n.toInt ∧ (Literal.int n).ReadsBack) ∧
    ∀ n : Int64, (Literal.long n).render = toString n.toInt ++ "L" ∧
      IsLongText (Literal.long n).render.toList n.toInt ∧ (Literal.long n).ReadsBack := by
  refine ⟨?_, ?_, ?_⟩
  · intro clause token hstart
    refine ⟨fun isKey => tellsNumber_readToken clause isKey hstart, fun rest stop k => ⟨?_, ?_⟩⟩
    · exact Reader.tellsNumber_value clause rest stop k hstart
    · exact Reader.tellsNumber_key clause rest stop k hstart
  · intro n
    refine ⟨?_, Literal.isIntText_render n, Literal.readsBack_int n⟩
    exact intText_eq_toString n.toInt
  · intro n
    refine ⟨?_, Literal.isLongText_render n, Literal.readsBack_long n⟩
    rw [Literal.render, intText_eq_toString]

/-- The least integer behind zeros, and the number after the greatest long. -/
theorem number_literals_exact_at_limits :
    let least : Token := ⟨"-002147483648", ⟨0, 13⟩⟩
    let beyond : Token := ⟨"9223372036854775808l", ⟨14, 34⟩⟩
    StartsLikeNumber least.text.toList ∧ StartsLikeNumber beyond.text.toList ∧
      Reader.value .filter ⟨[least, beyond], 34, 1⟩ =
        .ok (⟨.literal (.int Int32.minValue), false⟩, ⟨[beyond], 34, 1⟩) ∧
      ¬∃ n, IsIntText beyond.text.toList n ∨ IsLongText beyond.text.toList n := by
  intro least beyond
  have hleast : StartsLikeNumber least.text.toList := startsNumber_iff.mp (by decide)
  have hbeyond : StartsLikeNumber beyond.text.toList := startsNumber_iff.mp (by decide)
  have hint : IsIntText least.text.toList (-2147483648) := by
    have hdigits : ∀ c ∈ "002147483648".toList, c.isDigit := List.all_eq_true.mp (by decide)
    have hvalue : (-placeValue "002147483648".toList : Int) = -2147483648 := by
      rw [← natOfDigits_eq_placeValue]
      decide
    have htext : least.text.toList = '-' :: "002147483648".toList := by decide
    rw [htext, ← hvalue]
    exact ⟨.negative (by decide) hdigits, by rw [hvalue]; decide, by rw [hvalue]; decide⟩
  refine ⟨hleast, hbeyond, ?_, ?_⟩
  · obtain ⟨m, hm, hread⟩ :=
      (((number_literals_exact.1 .filter least hleast).2 [beyond] 34 1).1.int _).mpr hint
    obtain rfl : m = Int32.minValue := Int32.toInt_inj.mp hm
    exact hread
  · have hfault : readToken .filter false beyond = .error (.malformedNumber beyond) := by decide
    exact ((number_literals_exact.1 .filter beyond hbeyond).1 false).malformed.mp hfault

end CategoryStatements
