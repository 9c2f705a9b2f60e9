import CategoryStatements.Operator
import CategoryStatements.Term

/-! Filters of a WHERE clause. They are written without parentheses: negation binds closest,
then conjunction, then disjunction. -/
namespace CategoryStatements

inductive Filter
  | compare (key : Term) (op : Comparison) (value : Term)
  | not (inner : Filter)
  | combine (op : Connective) (left right : Filter)
  deriving DecidableEq

namespace Filter

/-- A filter under that many negations. -/
def negate : Nat → Filter → Filter
  | 0, f => f
  | n + 1, f => not (negate n f)

/-- Joins filters from the left. -/
def join (op : Connective) (first : Filter) (others : List Filter) : Filter :=
  others.foldl (combine op) first

/-- The words that write a filter, one for each token. -/
def words : Filter → List String
  | compare key op value => [key.render, op.spelling, value.render]
  | not inner => Keyword.not.spelling :: inner.words
  | combine op left right => left.words ++ op.spelling :: right.words

end Filter

/-- A WHERE clause, which may be present and still hold no filter. -/
structure WhereClause where
  root : Option Filter
  deriving DecidableEq

def WhereClause.words (clause : WhereClause) : List String :=
  match clause.root with
  | some filter => filter.words
  | none => ["<incomplete>"]

end CategoryStatements
