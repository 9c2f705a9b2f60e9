import CategoryStatements.Proofs.Lexemes
import Mathlib.Data.List.Pairwise

/-! Tokens as slices of their text. Spans are read here as positions of the text, which stand
between two of its characters: a token is what the text has between the two ends of its span. The
tokens follow each other without overlap, leave out nothing but delimiters, and each of them has
one of four shapes. -/
namespace CategoryStatements

inductive Shape
  | mark | quoted | unclosed | word
  deriving DecidableEq

/-- What the tokens of a shape look like. -/
def Shape.Describes : Shape → String → Prop
  | mark, text => text ∈ marks
  | quoted, text =>
    ∃ inner, text.toList = quoteMark :: (inner ++ [quoteMark]) ∧ quoteMark ∉ inner
  | unclosed, text => ∃ inner, text.toList = quoteMark :: inner ∧ quoteMark ∉ inner
  | word, text =>
    text.toList.head? ≠ some quoteMark ∧ ∀ mark ∈ marks, ¬mark.toList <:+: text.toList

/-- A token is what its text has between two positions, which are the ends of its span. -/
structure Token.CutAt {text : String} (t : Token) (start stop : text.Pos) : Prop where
  start_eq : start.offset.byteIdx = t.span.start
  stop_eq : stop.offset.byteIdx = t.span.stop
  nonempty : start < stop
  slice : text.extract start stop = t.text

theorem byteLength_eq_utf8ByteSize (cs : List Char) :
    byteLength cs = (String.ofList cs).utf8ByteSize := by
  induction cs with
  | nil => rfl
  | cons c cs ih =>
    rw [byteLength, ih, String.ofList_cons, String.utf8ByteSize_append,
      String.utf8ByteSize_singleton]

theorem byteLength_append (cs ds : List Char) :
    byteLength (cs ++ ds) = byteLength cs + byteLength ds := by
  simp only [byteLength_eq_utf8ByteSize, String.ofList_append, String.utf8ByteSize_append]

/-- Every token starts at a character that is no delimiter, and goes on with what is split off
behind it. -/
theorem exists_split_of_mem {offset : Nat} {cs : List Char} {t : Token}
    (h : t ∈ tokensFrom offset cs) :
    ∃ before c rest, cs = before ++ c :: rest ∧ ¬isDelimiter c ∧
      t.text.toList = c :: (splitToken c rest).1 ∧
      t.span = ⟨offset + byteLength before,
        offset + byteLength before + byteLength t.text.toList⟩ := by
  fun_induction tokensFrom offset cs with
  | case1 offset => cases h
  | case2 offset d cs hd ih =>
    obtain ⟨before, c, rest, rfl, hc, htext, hspan⟩ := ih h
    refine ⟨d :: before, c, rest, rfl, hc, htext, ?_⟩
    rw [hspan, byteLength, ← Nat.add_assoc]
  | case3 offset d cs hd chars stop ih =>
    rcases List.mem_cons.mp h with rfl | h
    · refine ⟨[], d, cs, rfl, hd, String.toList_ofList, ?_⟩
      simp [chars, stop, byteLength]
    · obtain ⟨before, c, rest, hrest, hc, htext, hspan⟩ := ih h
      refine ⟨chars ++ before, c, rest, ?_, hc, htext, ?_⟩
      · rw [List.append_assoc, ← hrest]
        exact congrArg (d :: ·) (splitToken_append d cs).symm
      · rw [hspan, byteLength_append, ← Nat.add_assoc]

theorem pairwise_tokensFrom (offset : Nat) (cs : List Char) :
    (tokensFrom offset cs).Pairwise fun t u => t.span.stop ≤ u.span.start := by
  fun_induction tokensFrom offset cs with
  | case1 offset => exact List.Pairwise.nil
  | case2 offset c cs hc ih => exact ih
  | case3 offset c cs hc chars stop ih =>
    refine List.pairwise_cons.mpr ⟨?_, ih⟩
    intro u hu
    obtain ⟨before, _, _, -, -, -, hspan⟩ := exists_split_of_mem hu
    rw [hspan]
    exact Nat.le_add_right stop (byteLength before)

/-- A character that is no delimiter is part of a token. -/
theorem exists_token_around {c : Char} (hc : ¬isDelimiter c) (offset : Nat) (cs : List Char) :
    ∀ before after, cs = before ++ c :: after →
      ∃ t ∈ tokensFrom offset cs, t.span.start ≤ offset + byteLength before ∧
        offset + byteLength before + c.utf8Size ≤ t.span.stop := by
  fun_induction tokensFrom offset cs with
  | case1 offset => simp
  | case2 offset d cs hd ih =>
    intro before after hcs
    cases before with
    | nil =>
      cases hcs
      exact absurd hd hc
    | cons b before =>
      obtain ⟨rfl, hrest⟩ := List.cons.inj hcs
      obtain ⟨t, ht, hstart, hstop⟩ := ih before after hrest
      rw [byteLength, ← Nat.add_assoc]
      exact ⟨t, ht, hstart, hstop⟩
  | case3 offset d cs hd chars stop ih =>
    intro before after hcs
    have hsplit : chars ++ (splitToken d cs).2 = before ++ c :: after := by
      rw [← hcs]
      exact congrArg (d :: ·) (splitToken_append d cs)
    rcases List.append_eq_append_iff.mp hsplit with ⟨more, rfl, hrest⟩ | ⟨more, hchars, hrest⟩
    · obtain ⟨t, ht, hstart, hstop⟩ := ih more after hrest
      refine ⟨t, List.mem_cons_of_mem _ ht, ?_⟩
      rw [byteLength_append, ← Nat.add_assoc]
      exact ⟨hstart, hstop⟩
    · cases more with
      -- the character is the first one behind the token
      | nil =>
        obtain ⟨t, ht, hstart, hstop⟩ := ih [] after (by simpa using hrest.symm)
        have hbefore : stop = offset + byteLength before := by simp [stop, hchars]
        rw [byteLength, Nat.add_zero, hbefore] at hstart hstop
        exact ⟨t, List.mem_cons_of_mem _ ht, hstart, hstop⟩
      | cons b more =>
        obtain ⟨rfl, -⟩ := List.cons.inj hrest
        refine ⟨_, List.mem_cons_self .., Nat.le_add_right offset _, ?_⟩
        have hstop : stop = offset + byteLength before + (c.utf8Size + byteLength more) := by
          rw [show stop = offset + byteLength chars from rfl, hchars, byteLength_append, byteLength,
            Nat.add_assoc]
        change _ ≤ stop
        omega

theorem head_ne_quoteMark_of_mem_marks {text : String} (h : text ∈ marks) :
    text.toList.head? ≠ some quoteMark := by
  have hall : ∀ mark ∈ marks, mark.toList.head? ≠ some quoteMark := by decide
  exact hall text h

/-- The only shape that a text can have. -/
def Shape.of (text : String) : Shape :=
  if text ∈ marks then mark
  else if text.toList.head? ≠ some quoteMark then word
  else if text.toList.count quoteMark = 1 then unclosed
  else quoted

theorem Shape.Describes.eq_of {shape : Shape} {text : String} (h : shape.Describes text) :
    shape = Shape.of text := by
  cases shape with
  | mark => exact (if_pos h).symm
  | quoted =>
    obtain ⟨inner, htext, hinner⟩ := h
    have hmark : text ∉ marks := fun hm => head_ne_quoteMark_of_mem_marks hm (by simp [htext])
    simp [Shape.of, hmark, htext, List.count_eq_zero_of_not_mem hinner]
  | unclosed =>
    obtain ⟨inner, htext, hinner⟩ := h
    have hmark : text ∉ marks := fun hm => head_ne_quoteMark_of_mem_marks hm (by simp [htext])
    simp [Shape.of, hmark, htext, List.count_eq_zero_of_not_mem hinner]
  | word =>
    have hmark : text ∉ marks := fun hm => h.2 text hm List.infix_rfl
    simp [Shape.of, hmark, h.1]

/-- What continues a quoted text ends with its only quote, or has none and stops in front of a
delimiter. -/
theorem splitQuoted_closed_or_open (cs : List Char) :
    (∃ inner, (splitQuoted cs).1 = inner ++ [quoteMark] ∧ quoteMark ∉ inner) ∨
      quoteMark ∉ (splitQuoted cs).1 ∧ ∀ d ∈ (splitQuoted cs).2.head?, isDelimiter d := by
  fun_induction splitQuoted cs with
  | case1 => simp
  | case2 c cs hc => exact .inr (by simpa using hc)
  | case3 cs => exact .inl ⟨[], by simp⟩
  | case4 c cs hc hq ih =>
    rcases ih with ⟨inner, hclosed, hinner⟩ | ⟨hopen, hrest⟩
    · exact .inl ⟨c :: inner, by simp [hclosed], by simp [hinner, Ne.symm hq]⟩
    · exact .inr ⟨by simp [hopen, Ne.symm hq], hrest⟩

/-- Every mark has a character that no word has. -/
theorem not_infix_of_wordChars {cs : List Char} (h : ∀ x ∈ cs, isWordChar x) :
    ∀ mark ∈ marks, ¬mark.toList <:+: cs := by
  intro mark hmark hpart
  have hall : ∀ mark ∈ marks, ∃ x ∈ mark.toList, ¬isWordChar x := by simp [marks, isWordChar]
  obtain ⟨x, hx, hword⟩ := hall mark hmark
  exact hword (h x (hpart.subset hx))

theorem mem_marks_of_markLength {c : Char} {rest : List Char} (h : markLength (c :: rest) ≠ 0) :
    String.ofList (c :: rest.take (markLength (c :: rest) - 1)) ∈ marks := by
  rw [markLength_cons] at h ⊢
  split
  · next htwo =>
    obtain ⟨hc, hhead⟩ := htwo
    obtain ⟨rest, rfl⟩ := List.head?_eq_some_iff.mp hhead
    rcases hc with rfl | rfl | rfl <;> simp [marks]
  · split
    · next hone => rcases hone with rfl | rfl | rfl | rfl <;> simp [marks]
    · simp_all

theorem isWordChar_of_markLength {c : Char} {rest : List Char} (hc : ¬isDelimiter c)
    (hm : markLength (c :: rest) = 0) : isWordChar c := by
  rw [markLength_cons] at hm
  grind [isWordChar]

/-- A token has one of the shapes, and behind an unclosed one there is a delimiter if anything. -/
theorem exists_describes {text : String} {c : Char} {rest : List Char} (hc : ¬isDelimiter c)
    (htext : text.toList = c :: (splitToken c rest).1) :
    ∃ shape : Shape, shape.Describes text ∧
      (shape = .unclosed → ∀ d ∈ (splitToken c rest).2.head?, isDelimiter d) := by
  by_cases hq : c = quoteMark
  · subst hq
    have hsplit : splitToken quoteMark rest = splitQuoted rest := if_pos rfl
    rw [hsplit] at htext ⊢
    rcases splitQuoted_closed_or_open rest with ⟨inner, hclosed, hinner⟩ | ⟨hopen, hrest⟩
    · exact ⟨.quoted, ⟨inner, by rw [htext, hclosed], hinner⟩, by simp⟩
    · exact ⟨.unclosed, ⟨_, htext, hopen⟩, fun _ => hrest⟩
  by_cases hm : markLength (c :: rest) = 0
  · have hsplit : splitToken c rest = splitWord rest := by simp [splitToken, hq, hm]
    rw [hsplit] at htext
    have hword : ∀ x ∈ text.toList, isWordChar x := by
      rw [htext]
      exact List.forall_mem_cons.mpr ⟨isWordChar_of_markLength hc hm, wordChars_splitWord rest⟩
    exact ⟨.word, ⟨by simp [htext, hq], not_infix_of_wordChars hword⟩, by simp⟩
  · have hsplit : (splitToken c rest).1 = rest.take (markLength (c :: rest) - 1) := by
      simp [splitToken, hq, hm]
    have hmark := mem_marks_of_markLength hm
    rw [← hsplit, ← htext, String.ofList_toList] at hmark
    exact ⟨.mark, hmark, by simp⟩

theorem Token.cutAt_of_splits {text before after : String} {t : Token} {start stop : text.Pos}
    (hstart : start.Splits before (t.text ++ after)) (hstop : stop.Splits (before ++ t.text) after)
    (hne : t.text ≠ "")
    (hspan : t.span = ⟨before.utf8ByteSize, before.utf8ByteSize + t.text.utf8ByteSize⟩) :
    t.CutAt start stop := by
  obtain ⟨hle, hslice⟩ := String.copy_slice_eq_iff_splits.mpr ⟨before, after, hstart, hstop⟩
  exact {
    start_eq := by simp [hspan, hstart.offset_eq_rawEndPos]
    stop_eq := by simp [hspan, hstop.offset_eq_rawEndPos]
    nonempty := (hstart.lt_iff_exists_eq_append hstop).mpr ⟨t.text, hne, rfl, rfl⟩
    slice := (String.extract_eq_copy_slice start stop hle).trans hslice }

/-- The two ends of a token, with what stands in front of it and behind it. -/
theorem exists_ends_of_mem {text : String} {t : Token} (ht : t ∈ tokenize text) :
    ∃ (start stop : text.Pos) (before : String) (c : Char) (rest : List Char),
      t.CutAt start stop ∧ ¬isDelimiter c ∧ t.text.toList = c :: (splitToken c rest).1 ∧
      stop.Splits (before ++ t.text) (String.ofList (splitToken c rest).2) := by
  obtain ⟨before, c, rest, hcs, hc, htext, hspan⟩ := exists_split_of_mem ht
  have heq : text = String.ofList before ++ (t.text ++ String.ofList (splitToken c rest).2) := by
    rw [← String.toList_inj]
    simp [htext, hcs, splitToken_append]
  have heq' : text = String.ofList before ++ t.text ++ String.ofList (splitToken c rest).2 := by
    rw [String.append_assoc, ← heq]
  have hstart := String.Pos.splits_ofEqAppend heq
  have hstop := String.Pos.splits_ofEqAppend heq'
  refine ⟨_, _, _, c, rest, Token.cutAt_of_splits hstart hstop ?_ ?_, hc, htext, hstop⟩
  · intro hempty
    simp [hempty] at htext
  · rw [hspan, byteLength_eq_utf8ByteSize, byteLength_eq_utf8ByteSize, String.ofList_toList,
      Nat.zero_add]

def Token.Apart (t u : Token) : Prop := t.span.stop ≤ u.span.start ∨ u.span.stop ≤ t.span.start

instance : Std.Symm Token.Apart := ⟨fun _ _ h => h.symm⟩

/-- Spans share no byte, so a byte is in one of them at most. -/
theorem eq_of_mem_tokenize {text : String} {t u : Token} (ht : t ∈ tokenize text)
    (hu : u ∈ tokenize text) {i j : Nat} (hij : i < j) (hti : t.span.start ≤ i)
    (htj : j ≤ t.span.stop) (hui : u.span.start ≤ i) (huj : j ≤ u.span.stop) : t = u := by
  by_contra hne
  have hall : (tokenize text).Pairwise Token.Apart :=
    (pairwise_tokensFrom 0 text.toList).imp Or.inl
  rcases hall.forall ht hu hne with hle | hle <;> omega

theorem mem_head_of_splits {text before : String} {after : List Char} {p : text.Pos}
    (hp : p.Splits before (String.ofList after)) (h : p ≠ text.endPos) :
    p.get h ∈ after.head? := by
  obtain ⟨rest, hrest⟩ := hp.exists_eq_singleton_append h
  have hhead := congrArg (·.toList.head?) hrest
  simpa using hhead

theorem exists_token_at {text : String} {p : text.Pos} {h : p ≠ text.endPos}
    (hp : ¬isDelimiter (p.get h)) :
    ∃ t ∈ tokenize text, t.span.start ≤ p.offset.byteIdx ∧
      (p.next h).offset.byteIdx ≤ t.span.stop := by
  have hat := p.splits_next_right h
  have hoffset : p.offset.byteIdx = byteLength (text.sliceTo p).copy.toList := by
    rw [byteLength_eq_utf8ByteSize, String.ofList_toList, hat.offset_eq_rawEndPos]
    rfl
  have htext : text.toList = (text.sliceTo p).copy.toList ++
      p.get h :: (text.sliceFrom (p.next h)).copy.toList := by
    simpa using congrArg String.toList hat.eq_append
  obtain ⟨t, ht, hstart, hstop⟩ := exists_token_around hp 0 text.toList _ _ htext
  rw [Nat.zero_add, ← hoffset] at hstart hstop
  exact ⟨t, ht, hstart, by simpa using hstop⟩

/-- Tokens are slices of the text one behind the other, each of one shape, and what is in no
token is a delimiter. -/
theorem tokenize_lossless (text : String) :
    ((tokenize text).Pairwise fun t u => t.span.stop ≤ u.span.start) ∧
      (∀ t ∈ tokenize text, ∃ start stop : text.Pos, t.CutAt start stop ∧
        (∀ c ∈ t.text.toList, c ∉ delimiters) ∧
        (∃! shape : Shape, shape.Describes t.text) ∧
        (Shape.unclosed.Describes t.text →
          ∀ h : stop ≠ text.endPos, stop.get h ∈ delimiters)) ∧
      ∀ (p : text.Pos) (h : p ≠ text.endPos), p.get h ∉ delimiters →
        ∃! t, t ∈ tokenize text ∧ t.span.start ≤ p.offset.byteIdx ∧
          (p.next h).offset.byteIdx ≤ t.span.stop := by
  simp only [← isDelimiter_iff]
  refine ⟨pairwise_tokensFrom 0 text.toList, ?_, ?_⟩
  · intro t ht
    obtain ⟨start, stop, before, c, rest, hcut, hc, htext, hbehind⟩ := exists_ends_of_mem ht
    obtain ⟨shape, hshape, hopen⟩ := exists_describes hc htext
    refine ⟨start, stop, hcut, ?_, ⟨shape, hshape, ?_⟩, ?_⟩
    · rw [htext]
      exact List.forall_mem_cons.mpr ⟨hc, splitToken_not_delimiter c rest⟩
    · intro other hother
      rw [hother.eq_of, hshape.eq_of]
    · intro hunclosed h
      have hshape' : shape = .unclosed := hshape.eq_of.trans hunclosed.eq_of.symm
      exact hopen hshape' _ (mem_head_of_splits hbehind h)
  · intro p h hp
    obtain ⟨t, ht, hstart, hstop⟩ := exists_token_at hp
    have hlt : p.offset.byteIdx < (p.next h).offset.byteIdx := p.lt_next
    refine ⟨t, ⟨ht, hstart, hstop⟩, ?_⟩
    rintro u ⟨hu, hustart, hustop⟩
    exact eq_of_mem_tokenize hu ht hlt hustart hustop hstart hstop

/-- A quote inside a word is a character like any other, and one that is left open swallows
marks. -/
example : tokenize "é<='a' b'c 'd=e" =
    [⟨"é", 0, 2⟩, ⟨"<=", 2, 4⟩, ⟨"'a'", 4, 7⟩, ⟨"b'c", 8, 11⟩, ⟨"'d=e", 12, 16⟩] := by
  cbv

end CategoryStatements
