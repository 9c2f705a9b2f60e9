import CategoryStatements.Double

/-! The shortest decimal of a binary number: a point of the coarsest decimal grid that still
rounds to the number, and of two such points the nearer. All comparisons are exact, in
quarters of the last binary place. -/
namespace CategoryStatements

/-- The number `digits * 10 ^ exponent`. -/
structure Decimal where
  digits : Nat
  exponent : Int
  deriving DecidableEq

/-- Which of two equally near points is taken. -/
inductive Tie
  | toEven | up
  deriving DecidableEq

def Tie.pick (tie : Tie) (lower : Nat) : Nat :=
  match tie with
  | .toEven => if lower % 2 = 0 then lower else lower + 1
  | .up => lower + 1

namespace Decimal

/-- The unit of the grid `10 ^ k` beside a quarter of `2 ^ q`, both as whole numbers. -/
def gridUnit (q k : Int) : Nat := Nat.pow 10 k.toNat <<< (2 - q).toNat

def quarterUnit (q k : Int) : Nat := Nat.pow 10 (-k).toNat <<< (q - 2).toNat

/-- Whether the point `d * 10 ^ k` rounds to `m * 2 ^ q`. The ends of the interval round to
it when `m` is even. -/
def roundsTo (m : Nat) (q : Int) (narrow : Bool) (k : Int) (d : Nat) : Bool :=
  let low := (4 * m - if narrow then 1 else 2) * quarterUnit q k
  let high := (4 * m + 2) * quarterUnit q k
  let point := d * gridUnit q k
  if m % 2 = 0 then low ≤ point && point ≤ high else low < point && point < high

/-- The point of the grid `10 ^ k` that rounds to `m * 2 ^ q`, the nearer if there are two. -/
def onGrid? (tie : Tie) (m : Nat) (q : Int) (narrow : Bool) (k : Int) : Option Decimal :=
  let exact := 4 * m * quarterUnit q k
  let lower := exact / gridUnit q k
  let middle := (2 * lower + 1) * gridUnit q k
  match roundsTo m q narrow k lower, roundsTo m q narrow k (lower + 1) with
  | true, true =>
    if 2 * exact < middle then some ⟨lower, k⟩
    else if middle < 2 * exact then some ⟨lower + 1, k⟩
    else some ⟨tie.pick lower, k⟩
  | true, false => some ⟨lower, k⟩
  | false, true => some ⟨lower + 1, k⟩
  | false, false => none

/-- Exponents of the grids, coarsest first. The first is above every finite number, and the
last is finer than the last place of the smallest. -/
def grids : List Int := (List.range 636).map fun (i : Nat) => 310 - (i : Int)

/-- The shortest decimal that rounds to `m * 2 ^ q`. -/
def shortest (tie : Tie) (m : Nat) (q : Int) (narrow : Bool) : Decimal :=
  if m = 0 then ⟨0, 0⟩ else (grids.findSome? (onGrid? tie m q narrow)).getD ⟨0, 0⟩

end Decimal
end CategoryStatements
