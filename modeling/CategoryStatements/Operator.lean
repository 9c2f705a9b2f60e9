/-! Operators of a filter and directions of an ordering, with their spellings. -/
namespace CategoryStatements

inductive Comparison
  | equal | notEqual | less | lessEqual | greater | greaterEqual
  deriving DecidableEq

namespace Comparison

def all : List Comparison := [equal, notEqual, less, lessEqual, greater, greaterEqual]

def spelling : Comparison → String
  | equal => "="
  | notEqual => "!="
  | less => "<"
  | lessEqual => "<="
  | greater => ">"
  | greaterEqual => ">="

def ofText? (text : String) : Option Comparison := all.find? fun op => op.spelling = text

theorem mem_all (op : Comparison) : op ∈ all := by cases op <;> decide

end Comparison

inductive Connective
  | and | or
  deriving DecidableEq

def Connective.spelling : Connective → String
  | and => "AND"
  | or => "OR"

inductive Direction
  | ascending | descending
  deriving DecidableEq

namespace Direction

def all : List Direction := [ascending, descending]

def spelling : Direction → String
  | ascending => "ASC"
  | descending => "DSC"

def ofText? (text : String) : Option Direction := all.find? fun d => d.spelling = text

theorem mem_all (d : Direction) : d ∈ all := by cases d <;> decide

end Direction
end CategoryStatements
