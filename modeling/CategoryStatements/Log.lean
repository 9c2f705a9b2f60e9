import CategoryStatements.Rule
import CategoryStatements.Text.Numeral

/-! Notes for the log, each with a level, a message and named fields. -/
namespace CategoryStatements

inductive Note
  | parsed (text : String) (kind : Kind) (placeholders : Nat)
  | rejected (kind : Kind) (rule : Rule) (violation : Violation)
  | cacheHit (text : String)
  | cacheMiss (text : String)
  | cacheEviction (category text : String)
  | bound (statement : String)
  | executingWrite (statement : String)
  | executingQuery (statement : String)
  deriving DecidableEq

namespace Note

def level : Note → String
  | bound _ => "TRACE"
  | _ => "DEBUG"

def message : Note → String
  | parsed _ _ _ => "Parsed statement descriptor"
  | rejected _ _ _ => "Descriptor rejected"
  | cacheHit _ => "Statement cache hit"
  | cacheMiss _ => "Statement cache miss"
  | cacheEviction _ _ => "Statement cache eviction"
  | bound _ => "Patched statement"
  | executingWrite _ => "Executing write statement"
  | executingQuery _ => "Executing query"

def fields : Note → List (String × String)
  | parsed text kind placeholders =>
    [("descriptor", text), ("kind", kind.spelling), ("parameters", natText placeholders)]
  | rejected kind rule violation =>
    [("kind", kind.spelling), ("rule", rule.name), ("error", violation.message)]
  | cacheHit text => [("descriptor", text)]
  | cacheMiss text => [("descriptor", text)]
  | cacheEviction category text => [("category", category), ("descriptor", text)]
  | bound statement => [("statement", statement)]
  | executingWrite statement => [("statement", statement)]
  | executingQuery statement => [("statement", statement)]

end Note
end CategoryStatements
