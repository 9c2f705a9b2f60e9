import CategoryStatements.Double

/-! The double nearest to a decimal. A half goes to the even neighbour. -/
namespace CategoryStatements

/-- The quotient rounded to the nearest whole number, a half to the even one. -/
def roundedQuotient (num den : Nat) : Nat :=
  let quotient := num / den
  let twice := 2 * (num % den)
  if twice < den then quotient
  else if den < twice then quotient + 1
  else quotient + quotient % 2

/-- The largest power of two, by exponent, that is not above a positive quotient. -/
def binaryOrder (num den : Nat) : Int :=
  let e : Int := Nat.log2 num - Nat.log2 den
  if den <<< e.toNat ≤ num <<< (-e).toNat then e else e - 1

namespace Double

/-- The bits of the double nearest to a positive quotient, if it is in range. -/
def bitsOfQuotient? (num den : Nat) : Option Nat :=
  let q : Int := max (binaryOrder num den - 52) (-1074)
  let m := roundedQuotient (num <<< (-q).toNat) (den <<< q.toNat)
  let bits := if m < fractionCount then m else (q + 1074).toNat * fractionCount + m
  if bits < 2047 * fractionCount then some bits else none

/-- The double nearest to `digits * 10 ^ exponent`, if it is in range. -/
def ofDecimal? (negative : Bool) (digits : Nat) (exponent : Int) : Option Double :=
  let sign := if negative then 1 <<< 63 else 0
  let order : Int := Nat.log2 digits / 3 + exponent
  if digits = 0 ∨ order < -400 then some ⟨UInt64.ofNat sign⟩
  else if 1000 < exponent then none
  else
    (bitsOfQuotient? (digits * Nat.pow 10 exponent.toNat) (Nat.pow 10 (-exponent).toNat)).map fun bits =>
      ⟨UInt64.ofNat (sign + bits)⟩

end Double
end CategoryStatements
