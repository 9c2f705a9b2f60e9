import CategoryStatements.ParamType
import CategoryStatements.Text.Quoted
import CategoryStatements.Json.Writer

/-! Values that fill placeholders: strings, integers of two widths, booleans, doubles and
records, and lists of each. A record is a JSON object with the name of the type it came from. -/
namespace CategoryStatements

structure Record where
  typeName : String
  fields : List (String × Json)

namespace Record

def toJson (r : Record) : Json := .object r.fields

/-- Records are compared by type name and document. -/
def same (r s : Record) : Bool := r.typeName == s.typeName && r.toJson.same s.toJson

end Record

inductive Value
  | string (s : String)
  | int (n : Int32)
  | long (n : Int64)
  | boolean (b : Bool)
  | double (x : Double)
  | record (r : Record)
  | strings (ss : List String)
  | ints (ns : List Int32)
  | longs (ns : List Int64)
  | booleans (bs : List Bool)
  | doubles (xs : List Double)
  | records (rs : List Record)

/-- Lists of one length whose items agree one by one. -/
def agreeAll (same : α → α → Bool) : List α → List α → Bool
  | [], [] => true
  | a :: as, b :: bs => same a b && agreeAll same as bs
  | _, _ => false

namespace Value

def type : Value → ParamType
  | string _ => ⟨.string, false⟩
  | int _ => ⟨.int, false⟩
  | long _ => ⟨.long, false⟩
  | boolean _ => ⟨.boolean, false⟩
  | double _ => ⟨.double, false⟩
  | record _ => ⟨.record, false⟩
  | strings _ => ⟨.string, true⟩
  | ints _ => ⟨.int, true⟩
  | longs _ => ⟨.long, true⟩
  | booleans _ => ⟨.boolean, true⟩
  | doubles _ => ⟨.double, true⟩
  | records _ => ⟨.record, true⟩

/-- What error messages call the value: its type, and for records also their type name. -/
def description : Value → String
  | record r => "Pojo(" ++ r.typeName ++ ")"
  | records [] => "Pojo[]"
  | records (r :: _) => "Pojo(" ++ r.typeName ++ ")[]"
  | value => value.type.spelling

def toJson : Value → Json
  | string s => .string s
  | int n => .int n.toInt
  | long n => .int n.toInt
  | boolean b => .bool b
  | double x => .double x
  | record r => r.toJson
  | strings ss => .array (ss.map .string)
  | ints ns => .array (ns.map fun n => .int n.toInt)
  | longs ns => .array (ns.map fun n => .int n.toInt)
  | booleans bs => .array (bs.map .bool)
  | doubles xs => .array (xs.map .double)
  | records rs => .array (rs.map Record.toJson)

/-- Doubles are written out in full, without a fraction if they are whole. -/
def doubleStyle : DoubleStyle where
  tie := .up
  isPlain _ := true
  wholeSuffix := ""
  notANumber := "NaN"
  infinite negative := if negative then "-inf" else "inf"

def boolText : Bool → String
  | true => "true"
  | false => "false"

def render : Value → String
  | string s => quoted s
  | int n => intText n.toInt
  | long n => intText n.toInt ++ "L"
  | boolean b => boolText b
  | double x => doubleStyle.write x
  | value => value.toJson.write

/-- Equality of values, with doubles and documents compared as such. -/
def same : Value → Value → Bool
  | string a, string b => a == b
  | int a, int b => a == b
  | long a, long b => a == b
  | boolean a, boolean b => a == b
  | double a, double b => a.same b
  | record a, record b => a.same b
  | strings as, strings bs => as == bs
  | ints as, ints bs => as == bs
  | longs as, longs bs => as == bs
  | booleans as, booleans bs => as == bs
  | doubles as, doubles bs => agreeAll Double.same as bs
  | records as, records bs => agreeAll Record.same as bs
  | _, _ => false

end Value

/-- A placeholder takes the values of exactly its own type. -/
def ParamType.accepts (type : ParamType) (value : Value) : Bool := value.type = type

end CategoryStatements
