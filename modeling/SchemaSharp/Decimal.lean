/-
Decimal numbers: a sign, a whole coefficient and a power of ten.

`Decimal.read?` accepts an optional sign, digits with an optional point
(a digit on at least one side of it), and an optional exponent. There are
two ways to write a decimal. `Decimal.plain` is positional: all zeros
spelled out, none of them trailing in the fraction, no point without a
fraction. `Decimal.scientific` puts one digit before the point and counts
the power of ten of that digit.
-/
import SchemaSharp.Numeral

namespace SchemaSharp

/-- The number `± coefficient * 10 ^ exponent`. The sign is kept apart, so
that zero has one as well. -/
structure Decimal where
  negative : Bool
  coefficient : Nat
  exponent : Int
  deriving DecidableEq

namespace Decimal

/-! ## Reading -/

/-- The power of ten that follows the digits: nothing, or an `e` of either
case and a whole number. -/
def exponent? : List Char → Option Int
  | [] => some 0
  | c :: cs => if c = 'e' ∨ c = 'E' then Numeral.integer? 10 cs else none

/-- The digits after a point, if one comes next, and what follows them. -/
def fraction : List Char → List Char × List Char
  | '.' :: cs => (cs.takeWhile Char.isDigit, cs.dropWhile Char.isDigit)
  | cs => ([], cs)

/-- Reads a number without a sign. -/
def unsigned? (negative : Bool) (cs : List Char) : Option Decimal :=
  let whole := cs.takeWhile Char.isDigit
  let (part, rest) := fraction (cs.dropWhile Char.isDigit)
  if whole ++ part = [] then none
  else (exponent? rest).map fun e =>
    ⟨negative, Nat.ofDigitChars 10 (whole ++ part) 0, e - part.length⟩

/-- Reads a number in decimal notation. -/
def read? (cs : List Char) : Option Decimal :=
  unsigned? (Numeral.sign cs).1 (Numeral.sign cs).2

/-! ## Writing -/

/-- Drops the zeros at the end. -/
def dropTrailingZeros (cs : List Char) : List Char :=
  (cs.reverse.dropWhile (· = '0')).reverse

/-- The fraction `n / 10 ^ width`, with its point unless it is zero. -/
def fractionText (width n : Nat) : List Char :=
  match dropTrailingZeros ((Nat.toDigits 10 n).leftpad width '0') with
  | [] => []
  | cs => '.' :: cs

/-- The digits of `coefficient * 10 ^ exponent`, without an exponent. -/
def magnitudeText (coefficient : Nat) : Int → List Char
  | .ofNat k => Nat.toDigits 10 (coefficient * 10 ^ k)
  | .negSucc k =>
    Nat.toDigits 10 (coefficient / 10 ^ (k + 1)) ++
      fractionText (k + 1) (coefficient % 10 ^ (k + 1))

/-- Positional notation. A negative zero keeps its sign. -/
def plain (d : Decimal) : List Char :=
  let digits := magnitudeText d.coefficient d.exponent
  if d.negative then '-' :: digits else digits

/-- The power of ten of the first digit. -/
def leadingExponent (d : Decimal) : Int :=
  d.exponent + (Nat.toDigits 10 d.coefficient).length - 1

/-- A signed exponent behind its mark. -/
def exponentText (n : Int) : List Char :=
  'e' :: (if n < 0 then '-' else '+') :: Nat.toDigits 10 n.natAbs

/-- Scientific notation, without trailing zeros. -/
def scientific (d : Decimal) : List Char :=
  let text := match dropTrailingZeros (Nat.toDigits 10 d.coefficient) with
    | c :: c' :: cs => c :: '.' :: c' :: cs
    | cs => cs
  let digits := text ++ exponentText d.leadingExponent
  if d.negative then '-' :: digits else digits

end Decimal

end SchemaSharp
