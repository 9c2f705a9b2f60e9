import CategoryStatements.Grammar.Reader
import CategoryStatements.Operator

/-! Reading terms. What a single token means does not depend on the tokens around it, only on
its clause and on whether a key is wanted there. -/
namespace CategoryStatements

/-- A whole number, with the mark `L` in either case for the wider type. -/
def readNumber? (text : List Char) : Option Literal :=
  if text.getLast? = some 'L' ∨ text.getLast? = some 'l' then
    match readInt? text.dropLast with
    | some n =>
      if -9223372036854775808 ≤ n ∧ n ≤ 9223372036854775807 then some (.long (Int64.ofInt n))
      else none
    | none => none
  else
    match readInt? text with
    | some n => if -2147483648 ≤ n ∧ n ≤ 2147483647 then some (.int (Int32.ofInt n)) else none
    | none => none

/-- The meaning of a token as a term, before placeholders are numbered. -/
inductive Reading
  | literal (l : Literal)
  | placeholder (type : ParamType)
  deriving DecidableEq

/-- Whether a token belongs to the grammar itself and can never be a term. -/
def isStructural (text : String) : Bool :=
  (Keyword.ofText? text).isSome || (Comparison.ofText? text).isSome || text == ","

def readToken (clause : Clause) (isKey : Bool) (token : Token) : Except Fault Reading :=
  let chars := token.text.toList
  if isStructural token.text then .error (.unexpected .term token)
  else if chars.head? = some '?' then
    match ParamType.ofText? token.text with
    | none => .error (.invalidPlaceholder token)
    | some type =>
      if clause.permits type then .ok (.placeholder type)
      else .error (.forbiddenPlaceholder token type clause)
  else if chars.head? = some quoteMark then
    match betweenQuotes? chars with
    | some inner => .ok (.literal (.string (String.ofList inner)))
    | none => .error (.misquoted token)
  else if token.text = "true" then .ok (.literal (.boolean true))
  else if token.text = "false" then .ok (.literal (.boolean false))
  else if startsNumber chars then
    match readNumber? chars with
    | some l => .ok (.literal l)
    | none => .error (.malformedNumber token)
  else if isKey && isBareWord token.text then .ok (.literal (.string token.text))
  else .error (.unquoted token)

namespace Reader

/-- Gives a placeholder the next number. -/
def place (isKey : Bool) : Reading → Reader Term
  | .literal l => return ⟨.literal l, isKey⟩
  | .placeholder type => fun c =>
    .ok (⟨.placeholder ⟨c.placeholders, type⟩, isKey⟩, { c with placeholders := c.placeholders + 1 })

def value (clause : Clause) : Reader Term := do
  let token ← next .term
  place false (← readToken clause false token)

/-- Reads a key, which no number or truth value can be. -/
def key (clause : Clause) : Reader Term := do
  let token ← next .term
  match ← readToken clause true token with
  | .placeholder type => place true (.placeholder type)
  | .literal (.string name) => place true (.literal (.string name))
  | .literal l => throw (.notAKey token l clause)

end Reader
end CategoryStatements
