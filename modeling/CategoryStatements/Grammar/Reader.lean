import CategoryStatements.Grammar.Fault

/-! Readers take tokens off the front of a sequence and number the placeholders they meet. -/
namespace CategoryStatements

structure Cursor where
  tokens : List Token
  /-- The offset of the end of the text. -/
  stop : Nat
  /-- How many placeholders have been read. -/
  placeholders : Nat := 0

abbrev Reader := StateT Cursor (Except Fault)

namespace Reader

/-- Takes the next token, whatever it is. -/
def next (expected : Expectation) : Reader Token := fun c =>
  match c.tokens with
  | [] => .error (.premature expected c.stop)
  | token :: rest => .ok (token, { c with tokens := rest })

/-- Takes the next token if it has the given text. -/
def accept (text : String) : Reader Bool := fun c =>
  match c.tokens with
  | [] => .ok (false, c)
  | token :: rest =>
    if token.text = text then .ok (true, { c with tokens := rest }) else .ok (false, c)

/-- Reads what follows a keyword, if the keyword is there. -/
def after (keyword : Keyword) (body : Reader α) : Reader (Option α) := do
  if ← accept keyword.spelling then return some (← body) else return none

/-- Reads one item, and another one after each separator. -/
def chain (separator : String) (item : Reader α) (c : Cursor) :
    Except Fault ((α × List α) × Cursor) :=
  match item c with
  | .error fault => .error fault
  | .ok (first, c₁) =>
    match c₁.tokens with
    | [] => .ok ((first, []), c₁)
    | token :: rest =>
      if token.text = separator ∧ rest.length < c.tokens.length then
        match chain separator item { c₁ with tokens := rest } with
        | .error fault => .error fault
        | .ok ((second, others), c₂) => .ok ((first, second :: others), c₂)
      else .ok ((first, []), c₁)
termination_by c.tokens.length

/-- Reads items with commas between them. -/
def list (item : Reader α) : Reader (List α) := do
  let (first, others) ← chain "," item
  return first :: others

/-- Succeeds only when no token is left. -/
def finish : Reader Unit := fun c =>
  match c.tokens with
  | [] => .ok ((), c)
  | token :: _ => .error (.trailing token)

end Reader
end CategoryStatements
