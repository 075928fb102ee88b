/-
Double-precision numbers as exact integers.

A finite double is `± significand * 2 ^ exponent` in units of `2 ^ -1074`,
the smallest positive double. `Encodable` says which pairs occur, so that
each finite double has one significand and one exponent; there is one NaN.
Comparison by value (`ieeeEq`) is kept apart from identity (`=`): NaN
differs from itself by value, and the two zeros are equal by value.
-/
import SchemaSharp.Numeral

namespace SchemaSharp

/-- A significand has 53 bits, the first of them set unless the exponent is
the smallest one. -/
def Encodable (significand exponent : Nat) : Prop :=
  significand < 2 ^ 53 ∧ (2 ^ 52 ≤ significand ∨ exponent = 0) ∧ exponent ≤ 2045

instance (s e : Nat) : Decidable (Encodable s e) := inferInstanceAs (Decidable (_ ∧ _))

/-- A number of double precision: a sign with a size of `significand * 2 ^ exponent` units, an
infinity, or the one NaN. -/
inductive Double
  | finite (negative : Bool) (significand exponent : Nat)
      (encodable : Encodable significand exponent)
  | infinite (negative : Bool)
  | nan
  deriving DecidableEq

namespace Double

/-- A significand and an exponent with a sign, infinite where the exponent
is too large. -/
def ofParts (negative : Bool) (s e : Nat) : Double :=
  if h : Encodable s e then .finite negative s e h else .infinite negative

/-- Neither an infinity nor NaN. -/
def isFinite : Double → Bool
  | finite .. => true
  | _ => false

/-- The exact value of a finite double, in units of `2 ^ -1074`. -/
def scaled? : Double → Option Int
  | finite negative s e _ =>
    some (if negative then -((s * 2 ^ e : Nat) : Int) else ((s * 2 ^ e : Nat) : Int))
  | _ => none

/-- The integer that a finite double without a fraction is. -/
def toInt? (x : Double) : Option Int :=
  x.scaled?.bind fun n => if n % 2 ^ 1074 = 0 then some (n / 2 ^ 1074) else none

/-- Equality by value. -/
def ieeeEq : Double → Double → Bool
  | infinite a, infinite b => a == b
  | x, y => match x.scaled?, y.scaled? with
    | some m, some n => m == n
    | _, _ => false

/-! ## Interchange format -/

/-- The sign, the biased exponent and the fraction of a 64-bit word. -/
def ofBits (word : UInt64) : Double :=
  let negative := word >>> 63 == 1
  let biased := (word >>> 52 &&& 0x7ff).toNat
  let fraction := (word &&& 0xfffffffffffff).toNat
  if biased = 0x7ff then
    if fraction = 0 then .infinite negative else .nan
  else if biased = 0 then ofParts negative fraction 0
  else ofParts negative (2 ^ 52 + fraction) (biased - 1)

/-- The word of a double, a quiet one for NaN. -/
def toBits : Double → UInt64
  | finite negative s e _ =>
    let sign := if negative then 2 ^ 63 else 0
    .ofNat (if s < 2 ^ 52 then sign + s else sign + (e + 1) * 2 ^ 52 + (s - 2 ^ 52))
  | infinite negative => .ofNat ((if negative then 2 ^ 63 else 0) + 0x7ff * 2 ^ 52)
  | nan => .ofNat (0x7ff * 2 ^ 52 + 2 ^ 51)

end Double

end SchemaSharp
