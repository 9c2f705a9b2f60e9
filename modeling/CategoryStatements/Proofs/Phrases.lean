import CategoryStatements.Grammar
import Mathlib.Data.Nat.Digits.Defs

/-! The grammar of statements, said without a reader. A phrase is a derivation: it knows the
token texts that spell it, how many placeholders it has, and what it means when a given number
of placeholders stands before it. That the readers accept exactly these phrases is separate.

The grammar has its own words and its own account of digits, quotes and bare words. None of them
is taken from what the readers compute. -/
namespace CategoryStatements

def Kind.word : Kind → String
  | query => "QUERY"
  | count => "QUERY-COUNT"
  | distinct => "QUERY-DISTINCT"
  | add => "ADD"
  | replace => "REPLACE"
  | update => "UPDATE"
  | remove => "REMOVE"

def Comparison.word : Comparison → String
  | equal => "="
  | notEqual => "!="
  | less => "<"
  | lessEqual => "<="
  | greater => ">"
  | greaterEqual => ">="

def Direction.word : Direction → String
  | ascending => "ASC"
  | descending => "DSC"

def Element.word : Element → String
  | string => "s"
  | int => "i"
  | long => "l"
  | boolean => "b"
  | double => "d"
  | record => "p"

/-- A placeholder is a question mark and its type, with a bracket behind it for lists. -/
def ParamType.word (type : ParamType) : String :=
  "?" ++ type.element.word ++ if type.isList then "[" else ""

/-- The words that no key can be without quotes. -/
def reservedWords : List String :=
  ["QUERY", "ADD", "REPLACE", "UPDATE", "REMOVE", "SET", "WHERE", "SORT", "LIMIT", "AND", "OR",
    "NOT", "ASC", "DSC", "true", "false"]

/-- The number that digits denote in positional notation, the last of them counting units. -/
def placeValue (digits : List Char) : Nat :=
  Nat.ofDigits 10 (digits.reverse.map fun c => c.toNat - '0'.toNat)

/-- An optional minus sign and at least one digit, with the number they denote. -/
inductive Numeral : List Char → Int → Prop
  | unsigned {digits : List Char} (nonempty : digits ≠ []) (all : ∀ c ∈ digits, c.isDigit) :
      Numeral digits (placeValue digits)
  | negative {digits : List Char} (nonempty : digits ≠ []) (all : ∀ c ∈ digits, c.isDigit) :
      Numeral ('-' :: digits) (-placeValue digits)

/-- A digit stands first, or second behind a minus sign. -/
def StartsLikeNumber (text : List Char) : Prop :=
  ∃ c rest, c.isDigit ∧ (text = c :: rest ∨ text = '-' :: c :: rest)

/-- The code points of white space. -/
def whiteSpaceCodes : List Nat :=
  [0x9, 0xa, 0xb, 0xc, 0xd, 0x20, 0x85, 0xa0, 0x1680, 0x2000, 0x2001, 0x2002, 0x2003, 0x2004,
    0x2005, 0x2006, 0x2007, 0x2008, 0x2009, 0x200a, 0x2028, 0x2029, 0x202f, 0x205f, 0x3000]

/-- A text that can be a key without quotes. -/
structure BareWord (text : String) : Prop where
  nonempty : text ≠ ""
  notReserved : text ∉ reservedWords
  notNumber : ¬StartsLikeNumber text.toList
  notPlaceholder : text.toList.head? ≠ some '?'
  chars : ∀ c ∈ text.toList, c.toNat ∉ whiteSpaceCodes ∧ c ∉ ['\x27', '=', '!', '<', '>', ',']

/-- A text and what it says without the quotes around it, if both of them are there. -/
inductive Unquoted : String → String → Prop
  | quoted (inner : String) : Unquoted (quoted inner) inner
  | plain {text : String} (unquoted : ∀ inner, text ≠ CategoryStatements.quoted inner) :
      Unquoted text text

/-- Which placeholders a clause takes: SET all of them, WHERE those of single values that are no
records, SORT those of strings, and LIMIT those of integers. -/
inductive Clause.Takes : Clause → ParamType → Prop
  | set (type : ParamType) : Takes .set type
  | filter {element : Element} (noRecord : element ≠ .record) : Takes .filter ⟨element, false⟩
  | sort : Takes .sort ⟨.string, false⟩
  | limit : Takes .limit ⟨.int, false⟩

/-- What a token means as a term of a clause, in the place of a key or in that of a value. -/
inductive TermToken (clause : Clause) : Bool → String → Reading → Prop
  | placeholder {isKey : Bool} {type : ParamType} (takes : clause.Takes type) :
      TermToken clause isKey type.word (.placeholder type)
  | quoted {isKey : Bool} (s : String) : TermToken clause isKey (quoted s) (.literal (.string s))
  | bareWord {word : String} (bare : BareWord word) :
      TermToken clause true word (.literal (.string word))
  | int {text : List Char} {n : Int} (numeral : Numeral text n)
      (inRange : -2147483648 ≤ n ∧ n ≤ 2147483647) :
      TermToken clause false (String.ofList text) (.literal (.int (Int32.ofInt n)))
  | long {text : List Char} {n : Int} {mark : Char} (numeral : Numeral text n)
      (isMark : mark = 'L' ∨ mark = 'l')
      (inRange : -9223372036854775808 ≤ n ∧ n ≤ 9223372036854775807) :
      TermToken clause false (String.ofList (text ++ [mark])) (.literal (.long (Int64.ofInt n)))
  | boolean (b : Bool) :
      TermToken clause false (if b then "true" else "false") (.literal (.boolean b))

/-- A limit is an integer or the placeholder of one. -/
inductive LimitToken : String → Reading → Prop
  | placeholder : LimitToken "?i" (.placeholder ⟨.int, false⟩)
  | int {text : List Char} {n : Int} (numeral : Numeral text n)
      (inRange : -2147483648 ≤ n ∧ n ≤ 2147483647) :
      LimitToken (String.ofList text) (.literal (.int (Int32.ofInt n)))

/-- A kind, and for an aggregate the key that may follow it in parentheses. -/
inductive KindToken : String → Kind × Option String → Prop
  | plain (kind : Kind) : KindToken kind.word (kind, none)
  | keyed {kind : Kind} {inner key : String} (aggregate : kind = .count ∨ kind = .distinct)
      (nonempty : inner ≠ "") (noParens : ∀ c ∈ inner.toList, c ≠ '(' ∧ c ≠ ')')
      (unquoted : Unquoted inner key) :
      KindToken (kind.word ++ "(" ++ inner ++ ")") (kind, some key)

structure TermPhrase (clause : Clause) (isKey : Bool) where
  text : String
  reading : Reading
  derives : TermToken clause isKey text reading

structure LimitPhrase where
  text : String
  reading : Reading
  derives : LimitToken text reading

structure KindPhrase where
  text : String
  reading : Kind × Option String
  derives : KindToken text reading

structure CategoryPhrase (category : Category) where
  text : String
  names : Unquoted text category.name

structure PairPhrase where
  key : TermPhrase .set true
  value : TermPhrase .set false

structure ComparisonPhrase where
  key : TermPhrase .filter true
  op : Comparison
  value : TermPhrase .filter false

inductive ConditionPhrase
  | compare (comparison : ComparisonPhrase)
  | not (inner : ConditionPhrase)

structure MemberPhrase where
  key : TermPhrase .sort true
  direction : Direction

/-- One or more phrases with separators between them. -/
structure Chain (φ : Type) where
  first : φ
  others : List φ

namespace Chain

def last (p : Chain φ) : φ := p.others.getLastD p.first

/-- Joins the members from the left. -/
def join (f : α → α → α) (c : Chain α) : α := c.others.foldl f c.first

@[simp] theorem join_nil (f : α → α → α) (a : α) : join f ⟨a, []⟩ = a := rfl

theorem join_cons (f : α → α → α) (a b : α) (bs : List α) :
    join f ⟨a, b :: bs⟩ = join f ⟨f a b, bs⟩ := rfl

end Chain

/-- How phrases are spelled and what they mean. -/
structure Phrasing (φ α : Type) where
  texts : φ → List String
  /-- The number of placeholders. -/
  holes : φ → Nat
  /-- The meaning behind that many placeholders. -/
  value : Nat → φ → α
  /-- Texts that go on with the phrase, so that it cannot end before one of them. -/
  goesOn : φ → List String

namespace Phrasing

/-- The meanings of phrases in a row. -/
def values (P : Phrasing φ α) : Nat → List φ → List α
  | _, [] => []
  | n, p :: ps => P.value n p :: P.values (n + P.holes p) ps

/-- The number of placeholders of phrases in a row. -/
def totalHoles (P : Phrasing φ α) : List φ → Nat
  | [] => 0
  | p :: ps => P.holes p + P.totalHoles ps

def chain (separator : String) (P : Phrasing φ α) : Phrasing (Chain φ) (α × List α) where
  texts p := P.texts p.first ++ p.others.flatMap fun q => separator :: P.texts q
  holes p := P.holes p.first + P.totalHoles p.others
  value n p := (P.value n p.first, P.values (n + P.holes p.first) p.others)
  goesOn p := separator :: P.goesOn p.last

/-- The same phrases with their meaning passed through a function. -/
def map (f : α → β) (P : Phrasing φ α) : Phrasing φ β where
  texts := P.texts
  holes := P.holes
  value n p := f (P.value n p)
  goesOn := P.goesOn

/-- A phrase after a word that announces it, or nothing. -/
def clause (word : String) (P : Phrasing φ α) : Phrasing (Option φ) (Option α) where
  texts
    | none => []
    | some p => word :: P.texts p
  holes
    | none => 0
    | some p => P.holes p
  value n p := p.map (P.value n)
  goesOn
    | none => [word]
    | some p => P.goesOn p

end Phrasing

namespace Reading

def holes : Reading → Nat
  | literal _ => 0
  | placeholder _ => 1

/-- The term that is read behind `n` placeholders. -/
def term (isKey : Bool) (n : Nat) : Reading → Term
  | literal l => ⟨.literal l, isKey⟩
  | placeholder type => ⟨.placeholder ⟨n, type⟩, isKey⟩

end Reading

def TermPhrase.phrasing (clause : Clause) (isKey : Bool) :
    Phrasing (TermPhrase clause isKey) Term where
  texts p := [p.text]
  holes p := p.reading.holes
  value n p := p.reading.term isKey n
  goesOn _ := []

def PairPhrase.phrasing : Phrasing PairPhrase Assignment where
  texts p := [p.key.text, "=", p.value.text]
  holes p := p.key.reading.holes + p.value.reading.holes
  value n p := ⟨p.key.reading.term true n, p.value.reading.term false (n + p.key.reading.holes)⟩
  goesOn _ := []

def ComparisonPhrase.phrasing : Phrasing ComparisonPhrase Filter where
  texts p := [p.key.text, p.op.word, p.value.text]
  holes p := p.key.reading.holes + p.value.reading.holes
  value n p :=
    .compare (p.key.reading.term true n) p.op
      (p.value.reading.term false (n + p.key.reading.holes))
  goesOn _ := []

namespace ConditionPhrase

def texts : ConditionPhrase → List String
  | compare p => ComparisonPhrase.phrasing.texts p
  | not inner => "NOT" :: inner.texts

def holes : ConditionPhrase → Nat
  | compare p => ComparisonPhrase.phrasing.holes p
  | not inner => inner.holes

def filter (n : Nat) : ConditionPhrase → Filter
  | compare p => ComparisonPhrase.phrasing.value n p
  | not inner => .not (inner.filter n)

def phrasing : Phrasing ConditionPhrase Filter where
  texts := texts
  holes := holes
  value := filter
  goesOn _ := []

end ConditionPhrase

/-- Conditions joined by AND. -/
def conjunctions : Phrasing (Chain ConditionPhrase) Filter :=
  (ConditionPhrase.phrasing.chain "AND").map fun fs =>
    Chain.join (.combine .and) ⟨fs.1, fs.2⟩

/-- Conjunctions joined by OR. -/
def disjunctions : Phrasing (Chain (Chain ConditionPhrase)) Filter :=
  (conjunctions.chain "OR").map fun fs => Chain.join (.combine .or) ⟨fs.1, fs.2⟩

def MemberPhrase.phrasing : Phrasing MemberPhrase SortKey where
  texts p := [p.key.text, p.direction.word]
  holes p := p.key.reading.holes
  value n p := ⟨p.key.reading.term true n, p.direction⟩
  goesOn _ := []

def LimitPhrase.phrasing : Phrasing LimitPhrase Term where
  texts p := [p.text]
  holes p := p.reading.holes
  value n p := p.reading.term false n
  goesOn _ := []

def setClause : Phrasing (Option (Chain PairPhrase)) (Option (List Assignment)) :=
  ((PairPhrase.phrasing.chain ",").map fun as => as.1 :: as.2).clause "SET"

def whereClause : Phrasing (Option (Chain (Chain ConditionPhrase))) (Option Filter) :=
  disjunctions.clause "WHERE"

def sortClause : Phrasing (Option (Chain MemberPhrase)) (Option (List SortKey)) :=
  ((MemberPhrase.phrasing.chain ",").map fun ks => ks.1 :: ks.2).clause "SORT"

def limitClause : Phrasing (Option LimitPhrase) (Option Term) :=
  LimitPhrase.phrasing.clause "LIMIT"

/-- A whole statement about a category. -/
structure StatementPhrase (category : Category) where
  kind : KindPhrase
  category : CategoryPhrase category
  assignments : Option (Chain PairPhrase)
  filter : Option (Chain (Chain ConditionPhrase))
  order : Option (Chain MemberPhrase)
  limit : Option LimitPhrase

namespace StatementPhrase

variable {category : Category}

def clauseTexts (p : StatementPhrase category) : List String :=
  setClause.texts p.assignments ++ (whereClause.texts p.filter ++
    (sortClause.texts p.order ++ limitClause.texts p.limit))

def texts (p : StatementPhrase category) : List String :=
  p.kind.text :: p.category.text :: p.clauseTexts

/-- The statement, its placeholders numbered from zero in the order of the text. -/
def statement (p : StatementPhrase category) : Statement :=
  let beforeFilter := setClause.holes p.assignments
  let beforeOrder := beforeFilter + whereClause.holes p.filter
  let beforeLimit := beforeOrder + sortClause.holes p.order
  { kind := p.kind.reading.1
    aggregateKey := p.kind.reading.2
    category := category.name
    assignments := setClause.value 0 p.assignments
    filter := (whereClause.value beforeFilter p.filter).map fun f => ⟨some f⟩
    order := sortClause.value beforeOrder p.order
    limit := limitClause.value beforeLimit p.limit
    placeholders := beforeLimit + limitClause.holes p.limit }

end StatementPhrase
end CategoryStatements
