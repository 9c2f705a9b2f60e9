import CategoryStatements.Grammar.Clauses
import CategoryStatements.Category

/-! The grammar of statements: a kind, a category, and clauses in a fixed order, each of which
may be left out. -/
namespace CategoryStatements

/-- What stands between the parentheses of a text, if it is not empty and holds none. -/
def betweenParens? : List Char → Option (List Char)
  | '(' :: cs =>
    let inner := cs.dropLast
    if cs.getLast? = some ')' ∧ inner ≠ [] ∧ inner.all fun c => c != '(' && c != ')' then
      some inner
    else none
  | _ => none

/-- The key of an aggregate that is written out behind its kind. -/
def keyBehind? (kind : Kind) (text : String) : Option String :=
  let spelling := kind.spelling.toList
  if spelling.isPrefixOf text.toList then
    (betweenParens? (text.toList.drop spelling.length)).map fun inner =>
      unquote (String.ofList inner)
  else none

/-- The kind that a token spells, and the aggregate key if it has one. -/
def readKind? (text : String) : Option (Kind × Option String) :=
  match Kind.ofText? text with
  | some kind => some (kind, none)
  | none =>
    match keyBehind? .count text, keyBehind? .distinct text with
    | some key, _ => some (.count, some key)
    | none, some key => some (.distinct, some key)
    | none, none => none

namespace Reader

def kind : Reader (Kind × Option String) := do
  let token ← next .kind
  match readKind? token.text with
  | some read => return read
  | none => throw (.unknownKind token)

def categoryName (category : Category) : Reader String := do
  let token ← next .category
  if unquote token.text = category.name then return category.name
  else throw (.otherCategory token category.name)

def statement (category : Category) : Reader Statement := do
  let (kind, aggregateKey) ← kind
  let name ← categoryName category
  let assignments ← after .set (list assignment)
  let filter ← after .filter disjunction
  let order ← after .sort (list sortKey)
  let limit ← after .limit limit
  finish
  return {
    kind, aggregateKey, category := name, assignments
    filter := filter.map fun f => ⟨some f⟩
    order, limit
    placeholders := (← get).placeholders }

end Reader

/-- Reads a whole sequence of tokens; `stop` is the offset of the end of their text. -/
def parseTokens (category : Category) (tokens : List Token) (stop : Nat) :
    Except Fault Statement :=
  match Reader.statement category { tokens, stop } with
  | .ok (statement, _) => .ok statement
  | .error fault => .error fault

def parse (category : Category) (text : String) : Except Fault Statement :=
  parseTokens category (tokenize text) text.utf8ByteSize

end CategoryStatements
