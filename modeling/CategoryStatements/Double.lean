/-! Numbers of double precision, held as the 64 bits of their binary form. -/
namespace CategoryStatements

structure Double where
  bits : UInt64
  deriving DecidableEq

/-- A size without its sign. A finite one is `significand * 2 ^ exponent`. -/
inductive Magnitude
  | finite (significand : Nat) (exponent : Int)
  | infinite
  | notANumber
  deriving DecidableEq

namespace Double

/-- How many fractions share an exponent. -/
def fractionCount : Nat := 1 <<< 52

def isNegative (x : Double) : Bool := 1 <<< 63 ≤ x.bits.toNat

def exponentField (x : Double) : Nat := x.bits.toNat / fractionCount % 2048

def fractionField (x : Double) : Nat := x.bits.toNat % fractionCount

def magnitude (x : Double) : Magnitude :=
  if x.exponentField = 2047 then if x.fractionField = 0 then .infinite else .notANumber
  else if x.exponentField = 0 then .finite x.fractionField (-1074)
  else .finite (x.fractionField + fractionCount) (x.exponentField - 1075)

/-- Whether the next smaller number is only half as far away as the next larger one. -/
def isNarrowBelow (x : Double) : Bool := x.fractionField == 0 && 1 < x.exponentField

def isZero (x : Double) : Bool := x.exponentField == 0 && x.fractionField == 0

def isNaN (x : Double) : Bool := x.magnitude == .notANumber

/-- Equality as numbers: zeros of both signs are equal, and what is not a number equals
nothing. -/
def same (x y : Double) : Bool :=
  !x.isNaN && !y.isNaN && (x.bits == y.bits || x.isZero && y.isZero)

end Double
end CategoryStatements
