import CategoryStatements.Value

/-! Why values cannot fill the placeholders of a statement. -/
namespace CategoryStatements

/-- What a term stands for once its placeholder is filled. -/
inductive Resolved
  | key (name : String)
  | value (v : Value)

def Resolved.render : Resolved → String
  | key name => "key " ++ name
  | value v => "value " ++ v.render

/-- Where a term stands. -/
inductive Place
  | set | comparison | sort | limit
  deriving DecidableEq

def Place.name : Place → String
  | set => "SET"
  | comparison => "comparison"
  | sort => "SORT"
  | limit => "LIMIT"

/-- How a term is out of place. -/
inductive Misuse
  | placeholderKey
  | keyNotString (description : String)
  | keyWanted (place : Place) (found : Resolved)
  | valueWanted (place : Place) (found : Resolved)
  | limitNotInt (description : String)

def Misuse.message : Misuse → String
  | placeholderKey => "LHS of set list pair must not be a free variable."
  | keyNotString description => "key must be a string, got " ++ description
  | keyWanted place found => place.name ++ " requires a key, got " ++ found.render
  | valueWanted place found => place.name ++ " requires a value, got " ++ found.render
  | limitNotInt description => "LIMIT requires an int, got " ++ description

inductive BindingFault
  | indexOutOfRange (index count : Nat)
  | unbound (index : Nat)
  | typeMismatch (index : Nat) (expected : ParamType) (actual : String)
  | incomplete
  | misuse (cause : Misuse)
  | notARecord (typeName : String)
  | notSerializable (reason : String)

def BindingFault.message : BindingFault → String
  | indexOutOfRange index count =>
    "Parameter index '" ++ natText index ++ "' out of range (statement has " ++ natText count ++
      " parameters)"
  | unbound index => "No value bound for parameter " ++ natText index
  | typeMismatch index expected actual =>
    "Expected parameter " ++ natText index ++ " of type " ++ expected.spelling ++ " but got " ++
      actual
  | incomplete => "Incomplete statement tree: WHERE expression is empty"
  | misuse cause => "Invalid term: " ++ cause.message
  | notARecord typeName => "Value of type '" ++ typeName ++ "' does not serialize to an object"
  | notSerializable reason => "Failed to serialize Pojo: " ++ reason

end CategoryStatements
