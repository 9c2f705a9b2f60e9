import CategoryStatements.Statement

/-! The canonical text of a statement: its words with single spaces between them. -/
namespace CategoryStatements

def Assignment.words (a : Assignment) : List String := [a.key.render, "=", a.value.render]

def SortKey.words (s : SortKey) : List String := [s.key.render, s.direction.spelling]

/-- Items with commas between them. A list without items is one empty word. -/
def listWords : List (List String) → List String
  | [] => [""]
  | [item] => item
  | item :: items => item ++ "," :: listWords items

/-- A clause that may be absent, after its keyword. -/
def clauseWords (clause : Clause) : Option (List String) → List String
  | some words => clause.spelling :: words
  | none => []

namespace Statement

/-- The kind, with the aggregate key in parentheses. -/
def kindText (s : Statement) : String :=
  match s.aggregateKey with
  | some key => s.kind.spelling ++ "(" ++ key ++ ")"
  | none => s.kind.spelling

def setWords (s : Statement) : List String :=
  clauseWords .set (s.assignments.map fun as => listWords (as.map Assignment.words))

/-- The clauses after SET. -/
def suffixWords (s : Statement) : List String :=
  clauseWords .filter (s.filter.map WhereClause.words) ++
    clauseWords .sort (s.order.map fun keys => listWords (keys.map SortKey.words)) ++
    clauseWords .limit (s.limit.map fun t => [t.render])

def words (s : Statement) : List String :=
  s.kindText :: s.category :: (s.setWords ++ s.suffixWords)

def renderSuffix (s : Statement) : String := " ".intercalate s.suffixWords

def render (s : Statement) : String := " ".intercalate s.words

end Statement
end CategoryStatements
