import CategoryStatements.Token
import CategoryStatements.Term

/-! Why a text is not a statement. Every fault but one is found at a token or at the end. -/
namespace CategoryStatements

/-- What the grammar asks for next. -/
inductive Expectation
  | kind | category | equals | term | comparison | direction
  deriving DecidableEq

def Expectation.text : Expectation → String
  | kind => "statement type"
  | category => "category name"
  | equals => "'='"
  | term => "term"
  | comparison => "comparison operator"
  | direction => "ASC or DSC"

inductive Fault
  | premature (expected : Expectation) (offset : Nat)
  | unexpected (expected : Expectation) (found : Token)
  | unknownKind (found : Token)
  | otherCategory (found : Token) (category : String)
  | invalidPlaceholder (found : Token)
  | forbiddenPlaceholder (found : Token) (type : ParamType) (clause : Clause)
  | misquoted (found : Token)
  | malformedNumber (found : Token)
  | unquoted (found : Token)
  | notAKey (found : Token) (literal : Literal) (clause : Clause)
  | limitNotInteger (literal : Literal)
  | trailing (found : Token)
  deriving DecidableEq

namespace Fault

def message : Fault → String
  | premature expected _ => "Premature end of descriptor: expected " ++ expected.text
  | unexpected expected found =>
    "Unexpected token: expected " ++ expected.text ++ ", found '" ++ found.text ++ "'"
  | unknownKind found => "Unknown statement type '" ++ found.text ++ "'"
  | otherCategory found category =>
    "Category '" ++ unquote found.text ++ "' does not match category '" ++ category ++ "'"
  | invalidPlaceholder found => "Invalid free parameter '" ++ found.text ++ "'"
  | forbiddenPlaceholder _ type clause =>
    "Free parameter of type " ++ type.spelling ++ " not allowed in " ++ clause.spelling
  | misquoted found => "Improperly quoted string literal " ++ found.text
  | malformedNumber found => "Malformed number literal '" ++ found.text ++ "'"
  | unquoted found => "Unquoted string literal " ++ found.text
  | notAKey _ literal clause =>
    "Expected a key in " ++ clause.spelling ++ ", found " ++ literal.render
  | limitNotInteger literal => "LIMIT requires an integer, found " ++ literal.render
  | trailing found => "Unexpected token '" ++ found.text ++ "' after end of statement"

/-- Where the fault is, the end of the text being an empty span. -/
def span? : Fault → Option Span
  | premature _ offset => some ⟨offset, offset⟩
  | limitNotInteger _ => none
  | unexpected _ found | unknownKind found | otherCategory found _ | invalidPlaceholder found
  | forbiddenPlaceholder found _ _ | misquoted found | malformedNumber found | unquoted found
  | notAKey found _ _ | trailing found => some found.span

def expected? : Fault → Option String
  | premature expected _ | unexpected expected _ => some expected.text
  | _ => none

def found? : Fault → Option String
  | unexpected _ found => some found.text
  | _ => none

end Fault
end CategoryStatements
