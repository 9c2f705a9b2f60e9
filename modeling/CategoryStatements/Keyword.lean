/-! The reserved words. They are written in capitals and nowhere else can stand unquoted. -/
namespace CategoryStatements

inductive Keyword
  | query | add | replace | update | remove
  | set | filter | sort | limit
  | and | or | not
  | ascending | descending
  deriving DecidableEq

namespace Keyword

def all : List Keyword :=
  [query, add, replace, update, remove, set, filter, sort, limit, and, or, not,
    ascending, descending]

def spelling : Keyword → String
  | query => "QUERY"
  | add => "ADD"
  | replace => "REPLACE"
  | update => "UPDATE"
  | remove => "REMOVE"
  | set => "SET"
  | filter => "WHERE"
  | sort => "SORT"
  | limit => "LIMIT"
  | and => "AND"
  | or => "OR"
  | not => "NOT"
  | ascending => "ASC"
  | descending => "DSC"

def ofText? (text : String) : Option Keyword := all.find? fun k => k.spelling = text

end Keyword
end CategoryStatements
