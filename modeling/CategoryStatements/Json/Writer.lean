import CategoryStatements.Json
import CategoryStatements.Text.Numeral
import CategoryStatements.Decimal.Style

/-! The compact text of a JSON document, without blanks. -/
namespace CategoryStatements.Json

/-- Doubles are written out from a hundred-thousandth up to sixteen digits before the point,
always with a fraction, and in powers of ten beyond. What is not finite becomes null. -/
def doubleStyle : DoubleStyle where
  tie := .toEven
  isPlain point := -4 ≤ point && point ≤ 16
  wholeSuffix := ".0"
  notANumber := "null"
  infinite _ := "null"

def hexDigit (d : Nat) : Char := if d < 10 then Char.ofNat (48 + d) else Char.ofNat (87 + d)

/-- A character inside a string. Only quotes, backslashes and control characters are escaped. -/
def escape (c : Char) : List Char :=
  if c = '"' then ['\\', '"']
  else if c = '\\' then ['\\', '\\']
  else if c = '\x08' then ['\\', 'b']
  else if c = '\x0c' then ['\\', 'f']
  else if c = '\n' then ['\\', 'n']
  else if c = '\r' then ['\\', 'r']
  else if c = '\t' then ['\\', 't']
  else if c.toNat < 32 then
    ['\\', 'u', '0', '0', hexDigit (c.toNat / 16), hexDigit (c.toNat % 16)]
  else [c]

def writeString (s : String) : String :=
  "\"" ++ String.ofList (s.toList.flatMap escape) ++ "\""

mutual

def write : Json → String
  | null => "null"
  | bool true => "true"
  | bool false => "false"
  | int n => intText n
  | double x => doubleStyle.write x
  | string s => writeString s
  | array items => "[" ++ ",".intercalate (writeItems items) ++ "]"
  | object fields => "\x7b" ++ ",".intercalate (writeFields fields) ++ "\x7d"

def writeItems : List Json → List String
  | [] => []
  | item :: items => write item :: writeItems items

def writeFields : List (String × Json) → List String
  | [] => []
  | (name, value) :: fields => (writeString name ++ ":" ++ write value) :: writeFields fields

end

end CategoryStatements.Json
