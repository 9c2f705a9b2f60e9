import CategoryStatements.Filter

/-! Statements: what is done, to which category, and with which clauses. -/
namespace CategoryStatements

inductive Kind
  | query | count | distinct
  | add | replace | update | remove
  deriving DecidableEq

namespace Kind

def all : List Kind := [query, count, distinct, add, replace, update, remove]

def spelling : Kind → String
  | query => "QUERY"
  | count => "QUERY-COUNT"
  | distinct => "QUERY-DISTINCT"
  | add => "ADD"
  | replace => "REPLACE"
  | update => "UPDATE"
  | remove => "REMOVE"

/-- Queries read; all other statements write. -/
def isQuery : Kind → Bool
  | query | count | distinct => true
  | add | replace | update | remove => false

/-- Aggregates summarise what a query finds, and may name a key to do so. -/
def isAggregate : Kind → Bool
  | count | distinct => true
  | _ => false

def ofText? (text : String) : Option Kind := all.find? fun kind => kind.spelling = text

theorem mem_all (kind : Kind) : kind ∈ all := by cases kind <;> decide

end Kind

structure Assignment where
  key : Term
  value : Term
  deriving DecidableEq

structure SortKey where
  key : Term
  direction : Direction
  deriving DecidableEq

structure Statement where
  kind : Kind
  aggregateKey : Option String := none
  category : String
  assignments : Option (List Assignment) := none
  filter : Option WhereClause := none
  order : Option (List SortKey) := none
  limit : Option Term := none
  /-- How many placeholders the statement has. -/
  placeholders : Nat := 0
  deriving DecidableEq

namespace Statement

/-- The names of the keys that the SET clause assigns, as far as they are literal strings. -/
def assignedNames (s : Statement) : List String :=
  (s.assignments.getD []).filterMap fun a => a.key.keyName?

end Statement
end CategoryStatements
