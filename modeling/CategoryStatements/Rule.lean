import CategoryStatements.Category
import CategoryStatements.Statement

/-! Rules that a statement must keep beyond the grammar. Each kind of statement has its rules
in a fixed order, and the first one that is broken rejects the statement. -/
namespace CategoryStatements

inductive Rule
  | whereForbidden | whereRequired
  | setForbidden | setRequired
  | setKeysLiteral | setKeysUnique | setKeysExact | setKeysKnown
  | sortForbidden | limitForbidden
  | aggregateKeyRequired | aggregateKeyKnown
  deriving DecidableEq

/-- How a rule is broken. -/
inductive Violation
  | whereForbidden (kind : Kind)
  | whereRequired (kind : Kind)
  | setForbidden (kind : Kind)
  | setRequired (kind : Kind)
  | placeholderKey
  | duplicateKeys (names : List String)
  | otherKeys (expected actual : List String)
  | unknownKeys (names : List String)
  | sortForbidden (kind : Kind)
  | limitForbidden (kind : Kind)
  | aggregateKeyRequired (kind : Kind)
  | unknownAggregateKey (key : String) (kind : Kind) (category : String)
  deriving DecidableEq

def commaList (names : List String) : String := ", ".intercalate names

def Violation.message : Violation → String
  | whereForbidden kind => "WHERE clause not allowed for " ++ kind.spelling
  | whereRequired kind => "WHERE clause required for " ++ kind.spelling
  | setForbidden kind => "SET not allowed for " ++ kind.spelling
  | setRequired kind => "SET list required for " ++ kind.spelling
  | placeholderKey => "LHS of set list pair must not be a free variable."
  | duplicateKeys names => "Duplicate key(s) in SET: '" ++ commaList names ++ "'"
  | otherKeys expected actual =>
    "Keys don't match keys in category. Expected the following keys: [" ++ commaList expected ++
      "] got [" ++ commaList actual ++ "]"
  | unknownKeys names => "Unknown key(s) in SET: '" ++ commaList names ++ "'"
  | sortForbidden kind => "SORT not allowed for " ++ kind.spelling
  | limitForbidden kind => "LIMIT not allowed for " ++ kind.spelling
  | aggregateKeyRequired kind => "Aggregate key required for " ++ kind.spelling
  | unknownAggregateKey key kind category =>
    "Unknown aggregate key '" ++ key ++ "' for " ++ kind.spelling ++ " in category '" ++
      category ++ "'"

/-- The names that have occurred before, in order. -/
def repeatedNames (seen : List String) : List String → List String
  | [] => []
  | name :: names =>
    if name ∈ seen then name :: repeatedNames seen names else repeatedNames (name :: seen) names

namespace Rule

def name : Rule → String
  | whereForbidden => "WhereForbidden"
  | whereRequired => "WhereRequired"
  | setForbidden => "SetForbidden"
  | setRequired => "SetRequired"
  | setKeysLiteral => "SetKeysLiteral"
  | setKeysUnique => "SetKeysUnique"
  | setKeysExact => "SetKeysExact"
  | setKeysKnown => "SetKeysKnown"
  | sortForbidden => "SortForbidden"
  | limitForbidden => "LimitForbidden"
  | aggregateKeyRequired => "AggregateKeyRequired"
  | aggregateKeyKnown => "AggregateKeyKnown"

def violation? (rule : Rule) (s : Statement) (category : Category) : Option Violation :=
  match rule with
  | whereForbidden => if s.filter.isSome then some (.whereForbidden s.kind) else none
  | whereRequired => if s.filter.isNone then some (.whereRequired s.kind) else none
  | setForbidden => if s.assignments.isSome then some (.setForbidden s.kind) else none
  | setRequired => if s.assignments.getD [] = [] then some (.setRequired s.kind) else none
  | setKeysLiteral =>
    if (s.assignments.getD []).any fun a => a.key.placeholder?.isSome then some .placeholderKey
    else none
  | setKeysUnique =>
    match repeatedNames [] s.assignedNames with
    | [] => none
    | names => some (.duplicateKeys names)
  | setKeysExact =>
    if s.assignments.isNone ∨ category.keyNames = distinctNames s.assignedNames then none
    else some (.otherKeys category.keyNames (distinctNames s.assignedNames))
  | setKeysKnown =>
    match s.assignedNames.filter fun name => !category.hasKey name with
    | [] => none
    | names => some (.unknownKeys names)
  | sortForbidden => if s.order.isSome then some (.sortForbidden s.kind) else none
  | limitForbidden => if s.limit.isSome then some (.limitForbidden s.kind) else none
  | aggregateKeyRequired =>
    if s.aggregateKey.isNone then some (.aggregateKeyRequired s.kind) else none
  | aggregateKeyKnown =>
    match s.aggregateKey with
    | none => none
    | some key =>
      if category.hasKey key then none
      else some (.unknownAggregateKey key s.kind category.name)

end Rule

namespace Kind

/-- The rules of a kind, in the order in which they are checked. -/
def rules : Kind → List Rule
  | query => [.setForbidden]
  | count => [.setForbidden, .aggregateKeyKnown]
  | distinct => [.setForbidden, .aggregateKeyRequired, .aggregateKeyKnown]
  | add =>
    [.whereForbidden, .setRequired, .setKeysLiteral, .setKeysUnique, .setKeysExact,
      .sortForbidden, .limitForbidden]
  | replace =>
    [.whereRequired, .setRequired, .setKeysLiteral, .setKeysUnique, .setKeysExact,
      .sortForbidden, .limitForbidden]
  | update =>
    [.setRequired, .setKeysLiteral, .setKeysUnique, .setKeysKnown, .whereRequired,
      .sortForbidden, .limitForbidden]
  | remove => [.setForbidden, .sortForbidden, .limitForbidden]

end Kind

/-- The first broken rule of a statement, with how it is broken. -/
def Statement.violation? (s : Statement) (category : Category) : Option (Rule × Violation) :=
  s.kind.rules.findSome? fun rule => (rule.violation? s category).map fun v => (rule, v)

end CategoryStatements
