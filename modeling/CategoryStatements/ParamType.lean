/-! Types of values, as placeholders spell them: a question mark, a letter for the element,
and a bracket for a list. Each clause admits some of them. -/
namespace CategoryStatements

inductive Element
  | string | int | long | boolean | double | record
  deriving DecidableEq

namespace Element

def all : List Element := [string, int, long, boolean, double, record]

def letter : Element → Char
  | string => 's'
  | int => 'i'
  | long => 'l'
  | boolean => 'b'
  | double => 'd'
  | record => 'p'

def ofLetter? (c : Char) : Option Element := all.find? fun e => e.letter = c

theorem mem_all (e : Element) : e ∈ all := by cases e <;> decide

end Element

structure ParamType where
  element : Element
  isList : Bool
  deriving DecidableEq

namespace ParamType

def all : List ParamType := Element.all.flatMap fun e => [⟨e, false⟩, ⟨e, true⟩]

def spelling (type : ParamType) : String :=
  String.ofList (if type.isList then ['?', type.element.letter, '['] else ['?', type.element.letter])

def ofText? (text : String) : Option ParamType :=
  match text.toList with
  | ['?', c] => (Element.ofLetter? c).map fun e => ⟨e, false⟩
  | ['?', c, '['] => (Element.ofLetter? c).map fun e => ⟨e, true⟩
  | _ => none

theorem ofText?_spelling (type : ParamType) : ofText? type.spelling = some type := by
  obtain ⟨e, list⟩ := type
  cases e <;> cases list <;> decide

end ParamType

/-- The clauses that hold terms. -/
inductive Clause
  | set | filter | sort | limit
  deriving DecidableEq

namespace Clause

def all : List Clause := [set, filter, sort, limit]

def spelling : Clause → String
  | set => "SET"
  | filter => "WHERE"
  | sort => "SORT"
  | limit => "LIMIT"

/-- Which placeholders may stand in a clause. -/
def permits : Clause → ParamType → Bool
  | set, _ => true
  | filter, type => !type.isList && type.element != .record
  | sort, type => type == ⟨.string, false⟩
  | limit, type => type == ⟨.int, false⟩

end Clause
end CategoryStatements
