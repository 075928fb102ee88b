/-
Rounding to the nearest double, ties to the even significand.

Everything goes through one function: `ofRatio` rounds `a / d` units of
`2 ^ -1074`. Decimals round correctly whatever the size of their
coefficient and exponent; past the range of the doubles `ofDecimal` answers
without computing the power of ten.
-/
import SchemaSharp.Decimal
import SchemaSharp.Double.Basic

namespace SchemaSharp

namespace Double

/-- The whole number nearest `a / d`, a tie going to the even one. -/
def nearestEven (a d : Nat) : Nat :=
  if 2 * (a % d) < d then a / d
  else if d < 2 * (a % d) then a / d + 1
  else a / d + a / d % 2

/-- The significand and exponent nearest `a / d` units, the exponent
unbounded: it leaves a quotient of 53 bits or is the smallest one, and a
significand rounded up to `2 ^ 53` moves to the next exponent. -/
def roundUnits (a d : Nat) : Nat × Nat :=
  let e := (a / d).log2 - 52
  let s := nearestEven a (d * 2 ^ e)
  if s = 2 ^ 53 then (2 ^ 52, e + 1) else (s, e)

/-- The double nearest `± a / d` units. -/
def ofRatio (negative : Bool) (a d : Nat) : Double :=
  ofParts negative (roundUnits a d).1 (roundUnits a d).2

/-- The double nearest a natural number. -/
def ofNat (n : Nat) : Double := ofRatio false (n * 2 ^ 1074) 1

/-- The double nearest a whole number. -/
def ofInt (n : Int) : Double := ofRatio (n < 0) (n.natAbs * 2 ^ 1074) 1

/-! ## Decimals -/

/-- The double nearest `± c * 10 ^ k`. From `10 ^ 309` on every number but
zero is infinite. -/
def ofScaledUp (negative : Bool) (c k : Nat) : Double :=
  if c = 0 then ofRatio negative 0 1
  else if 309 ≤ k then .infinite negative
  else ofRatio negative (c * 10 ^ k * 2 ^ 1074) 1

/-- The double nearest `± c / 10 ^ k`. A quotient below `10 ^ -324` is less
than half the smallest double. -/
def ofScaledDown (negative : Bool) (c k : Nat) : Double :=
  if c.log2 + 1 + 324 ≤ k then ofRatio negative 0 1
  else ofRatio negative (c * 2 ^ 1074) (10 ^ k)

/-- The double nearest a decimal. -/
def ofDecimal (d : Decimal) : Double :=
  match d.exponent with
  | .ofNat k => ofScaledUp d.negative d.coefficient k
  | .negSucc k => ofScaledDown d.negative d.coefficient (k + 1)

/-! ## Powers of ten -/

/-- The units of the double nearest `10 ^ k`, for `k ≤ 308`. -/
def tenPower (k : Nat) : Nat :=
  let (s, e) := roundUnits (10 ^ k * 2 ^ 1074) 1
  s * 2 ^ e

/-- The product with the double nearest `10 ^ k`, rounded. -/
def timesTenPower (x : Double) (k : Nat) : Double :=
  match x with
  | finite negative s e _ => ofRatio negative (s * 2 ^ e * tenPower k) (2 ^ 1074)
  | x => x

/-- The quotient by the double nearest `10 ^ k`, rounded. -/
def overTenPower (x : Double) (k : Nat) : Double :=
  match x with
  | finite negative s e _ => ofRatio negative (s * 2 ^ e * 2 ^ 1074) (tenPower k)
  | x => x

end Double

end SchemaSharp
