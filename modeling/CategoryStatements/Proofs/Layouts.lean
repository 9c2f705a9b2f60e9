import CategoryStatements.Proofs.Offsets
import CategoryStatements.Proofs.RoundTrip
import Mathlib.Data.List.Chain

/-! Layouts. The tokens of a text can be written with other delimiters around them. As long as
there is one between any two tokens they are the same tokens. In the clauses of a statement
tokens may even touch, where one of the two is a mark: what stands beside a mark there is a term
or a keyword, which neither swallows the mark nor makes it a longer one. -/
namespace CategoryStatements

/-- Texts that split off as tokens of their own: comparison operators and the comma. -/
def isMark (text : String) : Bool := text ∈ marks

/-- Tokens, each with what stands behind it, and what stands before the first of them. -/
structure Layout where
  lead : String
  pieces : List (String × String)

namespace Layout

def text (l : Layout) : String := l.lead ++ String.join (l.pieces.map fun p => p.1 ++ p.2)

def tokens (l : Layout) : List String := l.pieces.map Prod.fst

/-- Around the tokens there are only delimiters. -/
def IsBlank (l : Layout) : Prop :=
  (∀ c ∈ l.lead.toList, c ∈ delimiters) ∧ ∀ p ∈ l.pieces, ∀ c ∈ p.2.toList, c ∈ delimiters

/-- Tokens have something between them, unless the tokens at the given place may touch. -/
def Separated (l : Layout) (mayTouch : Nat → String → String → Prop) : Prop :=
  ∀ i p q, l.pieces[i]? = some p → l.pieces[i + 1]? = some q → p.2 = "" → mayTouch i p.1 q.1

theorem isBlank_iff {l : Layout} :
    (l.lead.toList.all (· ∈ delimiters) && l.pieces.all fun p => p.2.toList.all (· ∈ delimiters)) =
      true ↔ l.IsBlank := by
  simp [IsBlank]

instance (l : Layout) : Decidable l.IsBlank := decidable_of_iff _ isBlank_iff

theorem separated_iff {l : Layout} {mayTouch : Nat → String → String → Prop} :
    (∀ i < l.pieces.length, ∀ p ∈ l.pieces[i]?, ∀ q ∈ l.pieces[i + 1]?,
      p.2 = "" → mayTouch i p.1 q.1) ↔ l.Separated mayTouch := by
  constructor
  · intro h i p q hp hq
    exact h i (List.getElem?_eq_some_iff.mp hp).1 p hp q hq
  · intro h i _ p hp q hq
    exact h i p q hp hq

instance (l : Layout) (mayTouch : Nat → String → String → Prop)
    [∀ i t u, Decidable (mayTouch i t u)] : Decidable (l.Separated mayTouch) :=
  decidable_of_iff _ separated_iff

end Layout

/-- One text ends as a token where the other begins. -/
def Parts (t u : String) : Prop :=
  ∀ rest, lexemes (t.toList ++ (u.toList ++ rest)) = t.toList :: lexemes (u.toList ++ rest)

theorem lexemes_blank_append {gap : List Char} (h : ∀ c ∈ gap, c ∈ delimiters) (rest : List Char) :
    lexemes (gap ++ rest) = lexemes rest := by
  induction gap with
  | nil => rfl
  | cons c gap ih =>
    obtain ⟨hc, hgap⟩ := List.forall_mem_cons.mp h
    rw [List.cons_append, lexemes, if_pos (isDelimiter_iff.mpr hc), ih hgap]

theorem IsLexeme.append_blank {t gap : List Char} (ht : IsLexeme t)
    (h : ∀ c ∈ gap, c ∈ delimiters) (hne : gap ≠ []) (rest : List Char) :
    lexemes (t ++ (gap ++ rest)) = t :: lexemes rest := by
  obtain ⟨c, gap, rfl⟩ := List.exists_cons_of_ne_nil hne
  obtain ⟨hc, hgap⟩ := List.forall_mem_cons.mp h
  rw [List.cons_append, lexemes_append_delimiter (isDelimiter_iff.mpr hc), ht,
    lexemes_blank_append hgap]
  rfl

/-- Pieces whose tokens are apart are split piece by piece. -/
theorem lexemes_pieces {pieces : List (String × String)} (htoken : ∀ p ∈ pieces, IsToken p.1)
    (hblank : ∀ p ∈ pieces, ∀ c ∈ p.2.toList, c ∈ delimiters)
    (hchain : pieces.IsChain fun p q => p.2 = "" → Parts p.1 q.1) :
    lexemes (pieces.flatMap fun p => p.1.toList ++ p.2.toList) =
      pieces.map fun p => p.1.toList := by
  induction pieces with
  | nil => simp [lexemes]
  | cons p pieces ih =>
    obtain ⟨hp, htoken⟩ := List.forall_mem_cons.mp htoken
    obtain ⟨hgap, hblank⟩ := List.forall_mem_cons.mp hblank
    rw [isToken_iff] at hp
    rw [List.flatMap_cons, List.map_cons, List.append_assoc]
    by_cases hne : p.2 = ""
    · cases pieces with
      | nil => simpa [hne, IsLexeme] using hp
      | cons q pieces =>
        obtain ⟨htouch, hchain⟩ := List.isChain_cons_cons.mp hchain
        have hrest := ih htoken hblank hchain
        rw [List.flatMap_cons, List.append_assoc] at hrest
        rw [hne, String.toList_empty, List.nil_append, List.flatMap_cons, List.append_assoc,
          htouch hne, hrest]
    · have hne' : p.2.toList ≠ [] := by simpa using hne
      rw [hp.append_blank hgap hne', ih htoken hblank hchain.tail]

namespace Layout

variable {l : Layout}

theorem toList_text (l : Layout) :
    l.text.toList =
      l.lead.toList ++ l.pieces.flatMap fun p => p.1.toList ++ p.2.toList := by
  simp [text, List.flatMap_def, Function.comp_def]

/-- A layout that keeps its tokens apart has them as its tokens. -/
theorem tokenTexts_text (hblank : l.IsBlank) (htokens : ∀ t ∈ l.tokens, IsToken t)
    (hapart : l.Separated fun _ t u => Parts t u) : tokenTexts l.text = l.tokens := by
  have hchain : l.pieces.IsChain fun p q => p.2 = "" → Parts p.1 q.1 := by
    rw [List.isChain_iff_getElem]
    intro i hi
    exact hapart i _ _ (List.getElem?_eq_getElem _) (List.getElem?_eq_getElem _)
  have htoken : ∀ p ∈ l.pieces, IsToken p.1 := fun p hp => htokens p.1 (List.mem_map_of_mem hp)
  rw [tokenTexts, toList_text, lexemes_blank_append hblank.1, lexemes_pieces htoken hblank.2 hchain]
  simp [tokens, Function.comp_def]

end Layout

/-- Words without an exclamation mark in them and closed quoted texts: what a mark can follow. -/
inductive Solid : List Char → Prop
  | word {c : Char} {cs : List Char} (unquoted : c ≠ quoteMark)
      (chars : ∀ x ∈ c :: cs, isWordChar x ∧ x ≠ '!') : Solid (c :: cs)
  | quoted {cs : List Char} (chars : ∀ x ∈ cs, x ≠ quoteMark ∧ ¬isDelimiter x) :
      Solid (quoteMark :: (cs ++ [quoteMark]))

theorem splitQuoted_append_quote {cs : List Char} (h : ∀ x ∈ cs, x ≠ quoteMark ∧ ¬isDelimiter x)
    (rest : List Char) :
    splitQuoted (cs ++ quoteMark :: rest) = (cs ++ [quoteMark], rest) := by
  have hq : ¬isDelimiter quoteMark := by decide
  induction cs with
  | nil => simp [splitQuoted, hq]
  | cons c cs ih =>
    obtain ⟨hc, hcs⟩ := List.forall_mem_cons.mp h
    simp [splitQuoted, hc, ih hcs]

/-- A word ends where a mark begins, if it has no exclamation mark that could go with it. -/
theorem splitWord_append_mark {cs mark : List Char} (h : ∀ x ∈ cs, isWordChar x ∧ x ≠ '!')
    (hmark : markLength mark ≠ 0) : splitWord (cs ++ mark) = (cs, mark) := by
  induction cs with
  | nil =>
    cases mark with
    | nil => exact absurd rfl hmark
    | cons c cs => simp [splitWord, hmark]
  | cons c cs ih =>
    obtain ⟨hc, hcs⟩ := List.forall_mem_cons.mp h
    have hnone : markLength (c :: (cs ++ mark)) = 0 := by
      simp only [isWordChar, Bool.and_eq_true, bne_iff_ne] at hc
      simp [markLength_cons, hc]
    have hdelimiter : isDelimiter c = false := by
      simp only [isWordChar, Bool.and_eq_true, Bool.not_eq_true'] at hc
      exact hc.1.1.1.1.1
    simp [splitWord, hdelimiter, hnone, ih hcs]

theorem parts_of_splitToken {t u : String} {c : Char} {cs : List Char} (ht : t.toList = c :: cs)
    (hc : ¬isDelimiter c)
    (h : ∀ rest, splitToken c (cs ++ (u.toList ++ rest)) = (cs, u.toList ++ rest)) : Parts t u := by
  intro rest
  rw [ht, List.cons_append, lexemes, if_neg hc, h rest]

theorem toList_of_isMark {text : String} (h : isMark text) :
    text.toList ∈ [['='], ['!', '='], ['<'], ['<', '='], ['>'], ['>', '='], [',']] := by
  simp only [isMark, marks, List.mem_cons, List.not_mem_nil, or_false, decide_eq_true_eq] at h
  rcases h with rfl | rfl | rfl | rfl | rfl | rfl | rfl <;> decide

theorem markLength_of_isMark {text : String} (h : isMark text) (rest : List Char) :
    markLength (text.toList ++ rest) ≠ 0 := by
  have hchars := toList_of_isMark h
  simp only [List.mem_cons, List.not_mem_nil, or_false] at hchars
  rcases hchars with h | h | h | h | h | h | h <;> rw [h] <;> grind [markLength_cons]

/-- What is solid ends where a mark begins. -/
theorem Solid.parts_mark {t u : String} (ht : Solid t.toList) (hu : isMark u) : Parts t u := by
  generalize htext : t.toList = chars at ht
  cases ht with
  | @word c cs unquoted chars =>
    obtain ⟨hc, hcs⟩ := List.forall_mem_cons.mp chars
    have hdelimiter : ¬isDelimiter c := by
      simp only [isWordChar, Bool.and_eq_true, Bool.not_eq_true'] at hc
      simp [hc]
    refine parts_of_splitToken htext hdelimiter fun rest => ?_
    have hmark := markLength_of_isMark hu rest
    have hnone : markLength (c :: (cs ++ (u.toList ++ rest))) = 0 := by
      simp only [isWordChar, Bool.and_eq_true, bne_iff_ne] at hc
      simp [markLength_cons, hc]
    simp [splitToken, unquoted, hnone, splitWord_append_mark hcs hmark]
  | @quoted cs chars =>
    refine parts_of_splitToken htext (by decide) fun rest => ?_
    simp [splitToken, splitQuoted_append_quote chars]

theorem Solid.head?_ne_equals {chars : List Char} (h : Solid chars) (rest : List Char) :
    (chars ++ rest).head? ≠ some '=' := by
  cases h with
  | word unquoted chars =>
    have hc := (List.forall_mem_cons.mp chars).1
    rintro ⟨⟩
    exact absurd hc (by decide)
  | quoted chars => simp [quoteMark]

theorem Solid.not_isMark {t : String} (h : Solid t.toList) : isMark t = false := by
  rw [Bool.eq_false_iff]
  intro hm
  have hchars := toList_of_isMark hm
  generalize t.toList = chars at h hchars
  cases h with
  | @word c cs unquoted chars =>
    have hc := chars c (by simp)
    simp only [isWordChar, Bool.and_eq_true, bne_iff_ne] at hc
    simp only [List.mem_cons, List.cons.injEq, List.not_mem_nil, or_false] at hchars
    grind
  | quoted chars => simp [quoteMark] at hchars

/-- A mark ends where something solid begins, since this starts with no equals sign. -/
theorem Solid.mark_parts {t u : String} (ht : isMark t) (hu : Solid u.toList) : Parts t u := by
  have hchars := toList_of_isMark ht
  simp only [List.mem_cons, List.not_mem_nil, or_false] at hchars
  rcases hchars with h | h | h | h | h | h | h
  all_goals
    refine parts_of_splitToken h (by decide) fun rest => ?_
    have hhead := hu.head?_ne_equals rest
    generalize u.toList ++ rest = after at hhead
    simp [splitToken, markLength_cons, quoteMark, hhead]

theorem Solid.of_forall {chars : List Char} (hne : chars ≠ [])
    (hq : chars.head? ≠ some quoteMark) (h : ∀ x ∈ chars, isWordChar x ∧ x ≠ '!') :
    Solid chars := by
  obtain ⟨c, cs, rfl⟩ := List.exists_cons_of_ne_nil hne
  exact .word (by simpa using hq) h

theorem Keyword.solid (keyword : Keyword) : Solid keyword.spelling.toList := by
  cases keyword <;>
    exact .of_forall (by decide) (by decide) (List.forall_iff_forall_mem.mp (by decide))

theorem Numeral.digit_or_minus {text : List Char} {n : Int} (h : Numeral text n) :
    ∀ c ∈ text, c.isDigit ∨ c = '-' := by
  cases h with
  | unsigned nonempty all => exact fun c hc => .inl (all c hc)
  | negative nonempty all =>
    exact List.forall_mem_cons.mpr ⟨.inr rfl, fun c hc => .inl (all c hc)⟩

/-- A numeral is solid, also with the mark of the wider type behind it. -/
theorem Numeral.solid {text : List Char} {n : Int} (h : Numeral text n) (suffix : List Char)
    (hsuffix : ∀ c ∈ suffix, isWordChar c ∧ c ≠ '!') : Solid (text ++ suffix) := by
  refine .of_forall (by simp [h.wordChars.1])
    (head?_ne_of_startsNumber (h.startsNumber suffix) (by decide)) ?_
  intro c hc
  rcases List.mem_append.mp hc with hc | hc
  · refine ⟨h.wordChars.2 c hc, ?_⟩
    rintro rfl
    exact absurd (h.digit_or_minus '!' hc) (by decide)
  · exact hsuffix c hc

theorem BareWord.solid {word : String} (h : BareWord word) : Solid word.toList := by
  refine .of_forall (fun hnil => h.nonempty (String.toList_inj.mp hnil)) h.head?_ne_quoteMark
    fun c hc => ⟨isWordChar_of_not_isReserved (h.not_isReserved c hc), ?_⟩
  rintro rfl
  exact absurd (h.not_isReserved '!' hc) (by decide)

/-- Terms are solid: bare words hold no exclamation mark, and a quoted text that is one token is
closed. -/
theorem TermToken.solid {clause : Clause} {isKey : Bool} {text : String} {r : Reading}
    (h : TermToken clause isKey text r) (ht : IsToken text) : Solid text.toList := by
  cases h with
  | @placeholder isKey type takes =>
    obtain ⟨element, isList⟩ := type
    cases element <;> cases isList <;>
      exact .of_forall (by decide) (by decide) (List.forall_iff_forall_mem.mp (by decide))
  | quoted s =>
    rw [isToken_iff, toList_quoted, isLexeme_quoted] at ht
    rw [toList_quoted]
    exact .quoted ht
  | bareWord bare => exact bare.solid
  | int numeral inRange => simpa using numeral.solid [] (by simp)
  | long numeral isMark inRange =>
    rw [String.toList_ofList]
    apply numeral.solid
    rcases isMark with rfl | rfl <;> exact List.forall_iff_forall_mem.mp (by decide)
  | boolean b =>
    cases b <;>
      exact .of_forall (by decide) (by decide) (List.forall_iff_forall_mem.mp (by decide))

/-- Texts with marks only between solid ones. -/
inductive Interleaved : List String → Prop
  | single {t : String} (solid : Solid t.toList) : Interleaved [t]
  | solid {t : String} {ts : List String} (solid : Solid t.toList) (rest : Interleaved ts) :
      Interleaved (t :: ts)
  | mark {t m : String} {ts : List String} (solid : Solid t.toList) (isMark : isMark m)
      (rest : Interleaved ts) : Interleaved (t :: m :: ts)

namespace Interleaved

theorem append {ts us : List String} (ht : Interleaved ts) (hu : Interleaved us) :
    Interleaved (ts ++ us) := by
  induction ht with
  | single solid => exact .solid solid hu
  | solid solid rest ih => exact .solid solid ih
  | mark solid isMark rest ih => exact .mark solid isMark ih

theorem append_mark {ts us : List String} {m : String} (ht : Interleaved ts) (hm : isMark m)
    (hu : Interleaved us) : Interleaved (ts ++ m :: us) := by
  induction ht with
  | single solid => exact .mark solid hm hu
  | solid solid rest ih => exact .solid solid ih
  | mark solid isMark rest ih => exact .mark solid isMark ih

theorem exists_cons {ts : List String} (h : Interleaved ts) :
    ∃ t rest, ts = t :: rest ∧ Solid t.toList := by
  cases h with
  | single solid => exact ⟨_, _, rfl, solid⟩
  | solid solid rest => exact ⟨_, _, rfl, solid⟩
  | mark solid isMark rest => exact ⟨_, _, rfl, solid⟩

/-- Beside a mark, texts end where the next one begins. -/
theorem isChain {ts : List String} (h : Interleaved ts) :
    ts.IsChain fun t u => isMark t ∨ isMark u → Parts t u := by
  induction h with
  | single solid => exact .singleton _
  | solid solid rest ih =>
    obtain ⟨u, us, rfl, hu⟩ := rest.exists_cons
    refine List.isChain_cons_cons.mpr ⟨?_, ih⟩
    simp [solid.not_isMark, hu.not_isMark]
  | mark solid isMark rest ih =>
    obtain ⟨u, us, rfl, hu⟩ := rest.exists_cons
    exact List.isChain_cons_cons.mpr ⟨fun _ => solid.parts_mark isMark,
      List.isChain_cons_cons.mpr ⟨fun _ => hu.mark_parts isMark, ih⟩⟩

end Interleaved

namespace Phrasing

/-- The texts of every phrase that is made of tokens have marks only between solid ones. -/
def Interleaves (P : Phrasing φ α) : Prop :=
  ∀ p, (∀ t ∈ P.texts p, IsToken t) → Interleaved (P.texts p)

variable {P : Phrasing φ α}

theorem Interleaves.map (h : P.Interleaves) (f : α → β) : (P.map f).Interleaves := h

/-- Phrases joined by one text, as long as this keeps what stands around it apart. -/
theorem Interleaves.chain (h : P.Interleaves) {separator : String}
    (hsep : ∀ ts us, Interleaved ts → Interleaved us → Interleaved (ts ++ separator :: us)) :
    (P.chain separator).Interleaves := by
  rintro ⟨p, ps⟩ htok
  induction ps generalizing p with
  | nil =>
    rw [texts_chain_nil] at htok ⊢
    exact h p htok
  | cons q ps ih =>
    rw [texts_chain_cons] at htok ⊢
    obtain ⟨hp, hps⟩ := List.forall_mem_append.mp htok
    exact hsep _ _ (h p hp) (ih q (List.forall_mem_cons.mp hps).2)

theorem Interleaves.chain_mark (h : P.Interleaves) (mark : String) (hm : isMark mark) :
    (P.chain mark).Interleaves :=
  h.chain fun _ _ ht hu => ht.append_mark hm hu

theorem Interleaves.chain_solid (h : P.Interleaves) {word : String} (hw : Solid word.toList) :
    (P.chain word).Interleaves :=
  h.chain fun _ _ ht hu => ht.append (.solid hw hu)

/-- What a clause that may be absent adds to texts behind it. -/
theorem Interleaves.clause_append (h : P.Interleaves) {word : String} (hw : Solid word.toList)
    (p : Option φ) (htok : ∀ t ∈ (P.clause word).texts p, IsToken t) {us : List String}
    (hu : us = [] ∨ Interleaved us) :
    (P.clause word).texts p ++ us = [] ∨ Interleaved ((P.clause word).texts p ++ us) := by
  cases p with
  | none => exact hu
  | some p =>
    have hp : Interleaved ((P.clause word).texts (some p)) :=
      .solid hw (h p (List.forall_mem_cons.mp htok).2)
    rcases hu with rfl | hu
    · rw [List.append_nil]
      exact .inr hp
    · exact .inr (hp.append hu)

end Phrasing

theorem PairPhrase.interleaves : PairPhrase.phrasing.Interleaves := by
  rintro ⟨key, value⟩ htok
  simp only [phrasing, List.forall_mem_cons] at htok
  exact .mark (key.derives.solid htok.1) (by decide) (.single (value.derives.solid htok.2.2.1))

theorem ConditionPhrase.interleaves : ConditionPhrase.phrasing.Interleaves := by
  intro p htok
  induction p with
  | compare p =>
    obtain ⟨key, op, value⟩ := p
    simp only [phrasing, texts, ComparisonPhrase.phrasing, List.forall_mem_cons] at htok
    have hop : isMark op.word := by cases op <;> decide
    exact .mark (key.derives.solid htok.1) hop (.single (value.derives.solid htok.2.2.1))
  | not p ih => exact .solid Keyword.not.solid (ih (List.forall_mem_cons.mp htok).2)

theorem MemberPhrase.interleaves : MemberPhrase.phrasing.Interleaves := by
  rintro ⟨key, direction⟩ htok
  simp only [phrasing, List.forall_mem_cons] at htok
  have hdirection : Solid direction.word.toList := by
    cases direction
    · exact Keyword.ascending.solid
    · exact Keyword.descending.solid
  exact .solid (key.derives.solid htok.1) (.single hdirection)

theorem LimitPhrase.interleaves : LimitPhrase.phrasing.Interleaves := by
  intro p htok
  have hterm := (limitToken_iff.mp p.derives).1
  exact .single (hterm.solid (htok p.text (by simp [phrasing])))

/-- The clauses of a statement have marks only between solid texts. -/
theorem StatementPhrase.interleaved {category : Category} (p : StatementPhrase category)
    (htok : ∀ t ∈ p.clauseTexts, IsToken t) : p.clauseTexts = [] ∨ Interleaved p.clauseTexts := by
  have hset := (PairPhrase.interleaves.chain_mark "," (by decide)).map
    fun as => as.1 :: as.2
  have hand : conjunctions.Interleaves :=
    (ConditionPhrase.interleaves.chain_solid Keyword.and.solid).map _
  have hor : disjunctions.Interleaves := (hand.chain_solid Keyword.or.solid).map _
  have hsort := (MemberPhrase.interleaves.chain_mark "," (by decide)).map
    fun ks => ks.1 :: ks.2
  simp only [clauseTexts, List.forall_mem_append] at htok
  obtain ⟨htset, htfilter, htsort, htlimit⟩ := htok
  apply hset.clause_append Keyword.set.solid _ htset
  apply hor.clause_append Keyword.filter.solid _ htfilter
  apply hsort.clause_append Keyword.sort.solid _ htsort
  have hlimit := LimitPhrase.interleaves.clause_append Keyword.limit.solid p.limit htlimit
    (.inl rfl)
  rwa [List.append_nil] at hlimit

/-- Behind the name of the category, texts beside a mark end where the next one begins. -/
theorem StatementPhrase.isChain_clauseTexts {category : Category} (p : StatementPhrase category)
    (htok : ∀ t ∈ p.clauseTexts, IsToken t) :
    (p.category.text :: p.clauseTexts).IsChain fun t u => isMark t ∨ isMark u → Parts t u := by
  rcases p.interleaved htok with hnil | h
  · rw [hnil]
    exact .singleton _
  · -- the name may itself be a mark, but the clauses start with a keyword
    have hchain := h.isChain
    obtain ⟨t, ts, hts, ht⟩ := h.exists_cons
    rw [hts] at hchain ⊢
    refine List.isChain_cons_cons.mpr ⟨?_, hchain⟩
    rintro (hname | hmark)
    · exact ht.mark_parts hname
    · rw [ht.not_isMark] at hmark
      cases hmark

/-- Tokens may touch beside a mark behind the name of the category. -/
def touchesMark (i : Nat) (t u : String) : Prop := 1 ≤ i ∧ (isMark t ∨ isMark u)

instance (i : Nat) (t u : String) : Decidable (touchesMark i t u) :=
  inferInstanceAs (Decidable (_ ∧ _))

/-- A layout of an accepted text whose tokens touch only beside marks keeps them apart. -/
theorem Layout.Separated.parts {category : Category} {p : StatementPhrase category}
    (htok : ∀ t ∈ p.texts, IsToken t) {l : Layout} (htexts : l.tokens = p.texts)
    (h : l.Separated touchesMark) : l.Separated fun _ t u => Parts t u := by
  intro i first second hfirst hsecond hgap
  obtain ⟨hi, hmark⟩ := h i first second hfirst hsecond hgap
  obtain ⟨j, rfl⟩ := Nat.exists_eq_add_of_le' hi
  simp only [StatementPhrase.texts, List.forall_mem_cons] at htok htexts
  have hchain := List.isChain_iff_getElem.mp (p.isChain_clauseTexts htok.2.2)
  have hget : ∀ k piece, l.pieces[k + 1]? = some piece →
      (p.category.text :: p.clauseTexts)[k]? = some piece.1 := by
    intro k piece hpiece
    have := congrArg (·[k + 1]?) htexts
    simpa [tokens, hpiece] using this.symm
  obtain ⟨hj, hfirst⟩ := List.getElem?_eq_some_iff.mp (hget j first hfirst)
  obtain ⟨hj', hsecond⟩ := List.getElem?_eq_some_iff.mp (hget (j + 1) second hsecond)
  have hparts := hchain j hj'
  rw [hfirst, hsecond] at hparts
  exact hparts hmark

/-- Layout does not matter. Delimiters between tokens keep them as they are; texts with the same
tokens are read as the same statement or have faults that say the same; and in an accepted text
the delimiters beside marks can be left out. -/
theorem layout_irrelevant (category : Category) :
    (∀ (text : String) (l : Layout), l.tokens = (tokenize text).map Token.text → l.IsBlank →
      l.Separated (fun _ _ _ => False) →
        (tokenize l.text).map Token.text = (tokenize text).map Token.text) ∧
    (∀ text text' : String, (tokenize text).map Token.text = (tokenize text').map Token.text →
      (parse category text).mapError Fault.report =
        (parse category text').mapError Fault.report) ∧
    (∀ (text : String) (s : Statement) (l : Layout), parse category text = .ok s →
      l.tokens = (tokenize text).map Token.text → l.IsBlank → l.Separated touchesMark →
        parse category l.text = .ok s) := by
  refine ⟨?_, ?_, ?_⟩
  · intro text l htokens hblank hapart
    rw [map_text_tokenize] at htokens
    rw [map_text_tokenize, map_text_tokenize, ← htokens]
    apply l.tokenTexts_text hblank
    · rw [htokens]
      exact fun t ht => isToken_of_mem ht
    · exact fun i p q hp hq hgap => (hapart i p q hp hq hgap).elim
  · intro text text' h
    exact parseTokens_report category h _ _
  · intro text s l hparse htokens hblank htouch
    obtain ⟨p, htexts, hstatement⟩ := parse_eq_ok.mp hparse
    have htok := isToken_of_texts_eq htexts
    rw [map_text_tokenize, ← htexts] at htokens
    refine parse_eq_ok.mpr ⟨p, ?_, hstatement⟩
    rw [l.tokenTexts_text hblank (htokens ▸ htok) (htouch.parts htok htokens), htokens]

/-- Assignments that touch are read like those with spaces between their tokens. -/
theorem layout_irrelevant_assignments :
    ∃ s, parse ⟨"c", []⟩ "UPDATE c SET k1 = ?s , k2 = ?i WHERE a != 'x'" = .ok s ∧
      parse ⟨"c", []⟩ "UPDATE c SET k1=?s,k2=?i\tWHERE a!='x'" = .ok s := by
  let l : Layout := ⟨"", [("UPDATE", " "), ("c", " "), ("SET", " "), ("k1", ""), ("=", ""),
    ("?s", ""), (",", ""), ("k2", ""), ("=", ""), ("?i", "\t"), ("WHERE", " "), ("a", ""),
    ("!=", ""), ("'x'", "")]⟩
  have hspaced : parse ⟨"c", []⟩ "UPDATE c SET k1 = ?s , k2 = ?i WHERE a != 'x'" = .ok
      { kind := .update, category := "c"
        assignments := some [⟨⟨.literal (.string "k1"), true⟩,
            ⟨.placeholder ⟨0, ⟨.string, false⟩⟩, false⟩⟩,
          ⟨⟨.literal (.string "k2"), true⟩, ⟨.placeholder ⟨1, ⟨.int, false⟩⟩, false⟩⟩]
        filter := some ⟨some (.compare ⟨.literal (.string "a"), true⟩ .notEqual
          ⟨.literal (.string "x"), false⟩)⟩
        placeholders := 2 } := by
    decide +kernel
  exact ⟨_, hspaced, (layout_irrelevant ⟨"c", []⟩).2.2 _ _ l hspaced (by decide +kernel)
    (by decide +kernel) (by decide +kernel)⟩

end CategoryStatements
