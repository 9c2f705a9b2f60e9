import CategoryStatements.Text.Numeral
import CategoryStatements.Decimal.Shortest

/-! Ways to write a double with its shortest digits. A style says where plain digits end and
powers of ten begin, and what is written for the values that have no digits. -/
namespace CategoryStatements

structure DoubleStyle where
  tie : Tie
  /-- Whether digits are written out when the point stands after that many of them. -/
  isPlain : Int → Bool
  /-- What follows the digits of a whole number. -/
  wholeSuffix : String
  notANumber : String
  infinite : Bool → String

namespace DoubleStyle

def zeros (n : Nat) : List Char := List.replicate n '0'

/-- The place of the point, counted from the front of the digits. -/
def pointOf (d : Decimal) : Int := (natDigits d.digits).length + d.exponent

def plain (style : DoubleStyle) (d : Decimal) : String :=
  let digits := natDigits d.digits
  let point := pointOf d
  if 0 ≤ d.exponent then String.ofList (digits ++ zeros d.exponent.toNat) ++ style.wholeSuffix
  else if 0 < point then
    String.ofList (digits.take point.toNat ++ '.' :: digits.drop point.toNat)
  else String.ofList ('0' :: '.' :: zeros (-point).toNat ++ digits)

def powered (d : Decimal) : String :=
  let power := pointOf d - 1
  let mantissa :=
    match natDigits d.digits with
    | [] => []
    | [first] => [first]
    | first :: rest => first :: '.' :: rest
  String.ofList (mantissa ++ 'e' :: (if power < 0 then '-' else '+') :: natDigits power.natAbs)

def writeDecimal (style : DoubleStyle) (d : Decimal) : String :=
  if style.isPlain (pointOf d) then style.plain d else powered d

def write (style : DoubleStyle) (x : Double) : String :=
  match x.magnitude with
  | .notANumber => style.notANumber
  | .infinite => style.infinite x.isNegative
  | .finite m q =>
    (if x.isNegative then "-" else "") ++
      style.writeDecimal (Decimal.shortest style.tie m q x.isNarrowBelow)

end DoubleStyle
end CategoryStatements
