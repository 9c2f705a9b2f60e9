import CategoryStatements.Json
import CategoryStatements.Text.Numeral
import CategoryStatements.Decimal.Nearest

/-! Reading a JSON document from its text. A number with neither fraction nor exponent stays
whole as long as it fits into 64 bits; every other number is a double. -/
namespace CategoryStatements.Json

def isBlank (c : Char) : Bool := c == ' ' || c == '\t' || c == '\n' || c == '\r'

def skipBlanks (cs : List Char) : List Char := cs.dropWhile isBlank

def hexValue? (c : Char) : Option Nat :=
  if c.isDigit then some (c.toNat - 48)
  else if 'a' ≤ c ∧ c ≤ 'f' then some (c.toNat - 87)
  else if 'A' ≤ c ∧ c ≤ 'F' then some (c.toNat - 55)
  else none

/-- The number that four hexadecimal digits denote. -/
def readUnit? (a b c d : Char) : Option Nat := do
  return 4096 * (← hexValue? a) + 256 * (← hexValue? b) + 16 * (← hexValue? c) + (← hexValue? d)

def unescape? (c : Char) : Option Char :=
  if c = '"' ∨ c = '\\' ∨ c = '/' then some c
  else if c = 'b' then some '\x08'
  else if c = 'f' then some '\x0c'
  else if c = 'n' then some '\n'
  else if c = 'r' then some '\r'
  else if c = 't' then some '\t'
  else none

/-- The character of a code unit, if it stands for one alone. -/
def charOfUnit? (unit : Nat) : Option Char :=
  if 0xd800 ≤ unit ∧ unit < 0xe000 then none else some (Char.ofNat unit)

/-- The character of a leading and a trailing surrogate. -/
def charOfPair? (high low : Nat) : Option Char :=
  if 0xd800 ≤ high ∧ high < 0xdc00 ∧ 0xdc00 ≤ low ∧ low < 0xe000 then
    some (Char.ofNat (0x10000 + (high - 0xd800) * 0x400 + (low - 0xdc00)))
  else none

/-- The characters of a string up to its closing quote, and what follows it. -/
def readString? : List Char → Option (List Char × List Char)
  | [] => none
  | '"' :: rest => some ([], rest)
  | '\\' :: 'u' :: a :: b :: c :: d :: '\\' :: 'u' :: e :: f :: g :: h :: rest => do
    let high ← readUnit? a b c d
    match charOfUnit? high with
    | some first =>
      let (chars, rest) ← readString? ('\\' :: 'u' :: e :: f :: g :: h :: rest)
      return (first :: chars, rest)
    | none =>
      let both ← charOfPair? high (← readUnit? e f g h)
      let (chars, rest) ← readString? rest
      return (both :: chars, rest)
  | '\\' :: 'u' :: a :: b :: c :: d :: rest => do
    let first ← charOfUnit? (← readUnit? a b c d)
    let (chars, rest) ← readString? rest
    return (first :: chars, rest)
  | '\\' :: c :: rest => do
    let first ← unescape? c
    let (chars, rest) ← readString? rest
    return (first :: chars, rest)
  | c :: rest =>
    if c.toNat < 32 then none
    else do
      let (chars, rest) ← readString? rest
      return (c :: chars, rest)

/-- The digits after a point, empty if there is no point. -/
def readFraction? : List Char → Option (List Char × List Char)
  | '.' :: rest =>
    let digits := rest.takeWhile Char.isDigit
    if digits = [] then none else some (digits, rest.drop digits.length)
  | rest => some ([], rest)

/-- The power of ten after the mark `e`, if there is one. -/
def readPower? (cs : List Char) : Option (Option Int × List Char) :=
  match cs with
  | c :: rest =>
    if c = 'e' ∨ c = 'E' then
      let unsigned := if rest.head? = some '-' ∨ rest.head? = some '+' then rest.drop 1 else rest
      let digits := unsigned.takeWhile Char.isDigit
      let power : Int := natOfDigits digits
      if digits = [] then none
      else some (some (if rest.head? = some '-' then -power else power),
        unsigned.drop digits.length)
    else some (none, cs)
  | [] => some (none, [])

/-- The number with the given digits before and after the point and power of ten. -/
def number? (negative : Bool) (whole fraction : List Char) (power : Option Int) : Option Json :=
  let digits := natOfDigits (whole ++ fraction)
  let n : Int := if negative then -digits else digits
  if fraction = [] ∧ power = none ∧ ¬(negative ∧ digits = 0) ∧ -9223372036854775808 ≤ n ∧
      n ≤ 18446744073709551615 then
    some (int n)
  else
    (Double.ofDecimal? negative digits (power.getD 0 - fraction.length)).map double

def readNumber? (cs : List Char) : Option (Json × List Char) := do
  let negative := cs.head? = some '-'
  let unsigned := if negative then cs.drop 1 else cs
  let whole := unsigned.takeWhile Char.isDigit
  if whole = [] ∨ whole.head? = some '0' ∧ whole.length ≠ 1 then none
  else
    let (fraction, rest) ← readFraction? (unsigned.drop whole.length)
    let (power, rest) ← readPower? rest
    return (← number? negative whole fraction power, rest)

mutual

/-- Reads one value. The first argument bounds the depth of the search; the length of the
text is always enough. -/
def readValue? : Nat → List Char → Option (Json × List Char)
  | 0, _ => none
  | fuel + 1, cs =>
    match skipBlanks cs with
    | 'n' :: 'u' :: 'l' :: 'l' :: rest => some (null, rest)
    | 't' :: 'r' :: 'u' :: 'e' :: rest => some (bool true, rest)
    | 'f' :: 'a' :: 'l' :: 's' :: 'e' :: rest => some (bool false, rest)
    | '"' :: rest => (readString? rest).map fun read => (string (String.ofList read.1), read.2)
    | '[' :: rest =>
      match skipBlanks rest with
      | ']' :: rest => some (array [], rest)
      | _ => (readItems? fuel rest).map fun read => (array read.1, read.2)
    | '\x7b' :: rest =>
      match skipBlanks rest with
      | '\x7d' :: rest => some (object [], rest)
      | _ => (readFields? fuel rest).map fun read => (ofFields read.1, read.2)
    | rest => readNumber? rest

/-- Reads the items of an array after its bracket, with the closing one. -/
def readItems? : Nat → List Char → Option (List Json × List Char)
  | 0, _ => none
  | fuel + 1, cs => do
    let (item, rest) ← readValue? fuel cs
    match skipBlanks rest with
    | ',' :: rest =>
      let (items, rest) ← readItems? fuel rest
      return (item :: items, rest)
    | ']' :: rest => return ([item], rest)
    | _ => none

/-- Reads the fields of an object after its brace, with the closing one. -/
def readFields? : Nat → List Char → Option (List (String × Json) × List Char)
  | 0, _ => none
  | fuel + 1, cs => do
    let '"' :: rest := skipBlanks cs | none
    let (name, rest) ← readString? rest
    let ':' :: rest := skipBlanks rest | none
    let (value, rest) ← readValue? fuel rest
    match skipBlanks rest with
    | ',' :: rest =>
      let (fields, rest) ← readFields? fuel rest
      return ((String.ofList name, value) :: fields, rest)
    | '\x7d' :: rest => return ([(String.ofList name, value)], rest)
    | _ => none

end

/-- The document that a text holds, if it holds exactly one. -/
def read? (text : String) : Option Json :=
  match readValue? (text.length + 1) text.toList with
  | some (document, rest) => if skipBlanks rest = [] then some document else none
  | none => none

end CategoryStatements.Json
