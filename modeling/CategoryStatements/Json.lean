import CategoryStatements.Text.Named
import CategoryStatements.Double

/-! JSON documents. Whole numbers and doubles are kept apart, and the fields of an object are
ordered by name. -/
namespace CategoryStatements

inductive Json
  | null
  | bool (b : Bool)
  | int (n : Int)
  | double (x : Double)
  | string (s : String)
  | array (items : List Json)
  | object (fields : List (String × Json))

namespace Json

/-- An object from its fields in any order. Of fields with one name the last one counts. -/
def ofFields (fields : List (String × Json)) : Json :=
  object (orderedByName Prod.fst fields)

mutual

/-- Equality of documents, with numbers compared as numbers of their own sort. -/
def same : Json → Json → Bool
  | null, null => true
  | bool a, bool b => a == b
  | int a, int b => a == b
  | double a, double b => a.same b
  | string a, string b => a == b
  | array as, array bs => sameItems as bs
  | object as, object bs => sameFields as bs
  | _, _ => false

def sameItems : List Json → List Json → Bool
  | [], [] => true
  | a :: as, b :: bs => same a b && sameItems as bs
  | _, _ => false

def sameFields : List (String × Json) → List (String × Json) → Bool
  | [], [] => true
  | (m, a) :: as, (n, b) :: bs => m == n && same a b && sameFields as bs
  | _, _ => false

end

end Json
end CategoryStatements
