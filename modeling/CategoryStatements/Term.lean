import CategoryStatements.Keyword
import CategoryStatements.Value
import CategoryStatements.Text.Blank

/-! Terms of a statement: literals, and placeholders numbered from zero. A term stands either
for a key or for a value, and only as a key may a string be written without quotes. -/
namespace CategoryStatements

inductive Literal
  | string (s : String)
  | int (n : Int32)
  | long (n : Int64)
  | boolean (b : Bool)
  deriving DecidableEq

namespace Literal

def toValue : Literal → Value
  | string s => .string s
  | int n => .int n
  | long n => .long n
  | boolean b => .boolean b

def render : Literal → String
  | string s => quoted s
  | int n => intText n.toInt
  | long n => intText n.toInt ++ "L"
  | boolean b => Value.boolText b

end Literal

structure Placeholder where
  index : Nat
  type : ParamType
  deriving DecidableEq

inductive Atom
  | literal (l : Literal)
  | placeholder (p : Placeholder)
  deriving DecidableEq

structure Term where
  atom : Atom
  isKey : Bool
  deriving DecidableEq

/-- Characters that end a word or could be taken for the start of something else. -/
def isReserved (c : Char) : Bool :=
  isWhiteSpace c || c == quoteMark || c == '=' || c == '!' || c == '<' || c == '>' || c == ','

/-- Whether a key can be written without quotes. -/
def isBareWord (text : String) : Bool :=
  match text.toList with
  | [] => false
  | c :: cs =>
    !startsNumber (c :: cs) && c != '?' && text != "true" && text != "false" &&
      (Keyword.ofText? text).isNone && !(c :: cs).any isReserved

namespace Term

def placeholder? (t : Term) : Option Placeholder :=
  match t.atom with
  | .placeholder p => some p
  | .literal _ => none

def keyName? (t : Term) : Option String :=
  match t.atom with
  | .literal (.string name) => some name
  | _ => none

def render (t : Term) : String :=
  match t.atom with
  | .placeholder p => p.type.spelling
  | .literal (.string name) => if t.isKey && isBareWord name then name else quoted name
  | .literal l => l.render

end Term
end CategoryStatements
