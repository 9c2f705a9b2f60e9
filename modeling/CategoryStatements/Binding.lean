import CategoryStatements.Binding.Parameters
import CategoryStatements.Condition
import CategoryStatements.Statement

/-! Binding: the terms of a statement become keys and values, clause by clause in the order of
the text. A bound statement is given to the store as a list of directives. -/
namespace CategoryStatements

def Atom.resolve (ps : Parameters) : Atom → Except BindingFault Value
  | .literal l => .ok l.toValue
  | .placeholder p => do
    let value ← ps.get p.index
    if p.type.accepts value then return value
    else throw (.typeMismatch p.index p.type value.description)

/-- A term in the place of a key must be a string. -/
def Term.resolve (ps : Parameters) (t : Term) : Except BindingFault Resolved := do
  let value ← t.atom.resolve ps
  if t.isKey then
    match value with
    | .string name => return .key name
    | other => throw (.misuse (.keyNotString other.description))
  else return .value value

def Resolved.asKey (place : Place) : Resolved → Except BindingFault String
  | .key name => .ok name
  | .value v => .error (.misuse (.keyWanted place (.value v)))

def Resolved.asValue (place : Place) : Resolved → Except BindingFault Value
  | .value v => .ok v
  | .key name => .error (.misuse (.valueWanted place (.key name)))

/-- Both sides of a comparison are resolved before either is used. -/
def Filter.bind (ps : Parameters) : Filter → Except BindingFault Condition
  | compare key op value => do
    let left ← key.resolve ps
    let right ← value.resolve ps
    return .compare (← left.asKey .comparison) op (← right.asValue .comparison)
  | not inner => do return .not (← inner.bind ps)
  | combine op left right => do
    let l ← left.bind ps
    let r ← right.bind ps
    return .combine op l r

def WhereClause.bind (ps : Parameters) (clause : WhereClause) : Except BindingFault Condition :=
  match clause.root with
  | some filter => filter.bind ps
  | none => .error .incomplete

def Assignment.bind (ps : Parameters) (a : Assignment) :
    Except BindingFault (String × Value) := do
  if a.key.placeholder?.isSome then throw (.misuse .placeholderKey)
  else
    let key ← (← a.key.resolve ps).asKey .set
    let value ← (← a.value.resolve ps).asValue .set
    return (key, value)

def SortKey.bind (ps : Parameters) (s : SortKey) : Except BindingFault (String × Direction) := do
  let key ← (← s.key.resolve ps).asKey .sort
  return (key, s.direction)

def bindLimit (ps : Parameters) (t : Term) : Except BindingFault Int32 := do
  match ← (← t.resolve ps).asValue .limit with
  | .int n => return n
  | other => throw (.misuse (.limitNotInt other.description))

/-- A statement whose clauses hold keys and values. -/
structure Bound where
  assignments : List (String × Value)
  filter : Option Condition
  order : List (String × Direction)
  limit : Option Int32

def Statement.bind (ps : Parameters) (s : Statement) : Except BindingFault Bound := do
  let assignments ← (s.assignments.getD []).mapM (Assignment.bind ps)
  let filter ← s.filter.mapM (WhereClause.bind ps)
  let order ← (s.order.getD []).mapM (SortKey.bind ps)
  let limit ← s.limit.mapM (bindLimit ps)
  return { assignments, filter, order, limit }

/-- One thing that a store is told about a statement. -/
inductive Directive
  | assign (key : String) (value : Value)
  | filter (condition : Condition)
  | sort (key : String) (direction : Direction)
  | limit (n : Int32)

namespace Bound

def assignDirectives (b : Bound) : List Directive :=
  b.assignments.map fun a => .assign a.1 a.2

def filterDirectives (b : Bound) : List Directive := (b.filter.map Directive.filter).toList

def sortDirectives (b : Bound) : List Directive := b.order.map fun s => .sort s.1 s.2

def limitDirectives (b : Bound) : List Directive := (b.limit.map Directive.limit).toList

/-- What the store is told of a statement of the given kind. -/
def directives (b : Bound) : Kind → List Directive
  | .query | .count | .distinct => b.filterDirectives ++ b.sortDirectives ++ b.limitDirectives
  | .add => b.assignDirectives
  | .replace | .update => b.assignDirectives ++ b.filterDirectives
  | .remove => b.filterDirectives

end Bound
end CategoryStatements
