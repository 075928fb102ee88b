/-
JSON numbers as written.

A number without fraction and exponent is whole if it fits 64 bits; all
others are doubles, `-0` among them. A double is not read in one rounding:
the digits count as long as their number stays below `2 ^ 64`, that number
is rounded, and the result is multiplied or divided by the double nearest a
power of ten. Past the powers of ten that doubles hold, a large number is
refused, and a small one is divided in two steps or is zero.
-/
import SchemaSharp.Json.Basic
import SchemaSharp.Double.Rounding

namespace SchemaSharp

namespace Json

namespace Number

/-! ## Doubles -/

/-- Appends digits to the number `n` as long as it stays below `2 ^ 64`,
and counts the digits left over. -/
def absorb (n : Nat) : List Char → Nat × Nat
  | [] => (n, 0)
  | c :: cs =>
    if Nat.ofDigitChars 10 [c] n < 2 ^ 64 then absorb (Nat.ofDigitChars 10 [c] n) cs
    else (n, cs.length + 1)

/-- `± significand * 10 ^ exponent`, in at most three roundings, or nothing
if it is too large. -/
def scale (negative : Bool) (significand : Nat) (exponent : Int) : Option Double :=
  let x := Double.ofRatio negative (significand * 2 ^ 1074) 1
  match exponent with
  | .ofNat k =>
    if k ≤ 308 then some (x.timesTenPower k) else if significand = 0 then some x else none
  | .negSucc k =>
    if k < 308 then some (x.overTenPower (k + 1))
    else if k < 616 then some ((x.overTenPower 308).overTenPower (k + 1 - 308))
    else some (.ofRatio negative 0 1)

/-- The double that the digits before and after the point and an exponent
stand for. -/
def real? (negative : Bool) (whole fraction : List Char) (exponent : Int) : Option Number :=
  let (n, above) := absorb 0 whole
  let (significand, ignored) := absorb n fraction
  (scale negative significand (exponent + above - (fraction.length - ignored : Nat))).bind fun x =>
    if h : x.isFinite = true then some (.real x h) else none

/-! ## Grammar -/

/-- A number without fraction and exponent. -/
def whole? (negative : Bool) (digits : List Char) : Option Number :=
  let n : Int := Nat.ofDigitChars 10 digits 0
  let signed := if negative then -n else n
  if h : (-(2 ^ 63) ≤ signed ∧ signed < 2 ^ 64) ∧ ¬(negative ∧ n = 0) then some (.whole signed h.1)
  else real? negative digits [] 0

/-- Digits before a point or an exponent: at least one, and no zero before
another digit. -/
def wellFormed : List Char → Bool
  | [] => false
  | ['0'] => true
  | '0' :: _ => false
  | _ => true

/-- The exponent that may follow, and the rest. -/
def exponent? : List Char → Option (Option Int × List Char)
  | 'e' :: cs | 'E' :: cs =>
    let digits := (Numeral.sign cs).2
    (Numeral.natural? 10 (digits.takeWhile Char.isDigit)).map fun n =>
      (some (if (Numeral.sign cs).1 then -(n : Int) else n), digits.dropWhile Char.isDigit)
  | cs => some (none, cs)

/-- The fraction that may follow, and the rest. A point needs a digit after
it. -/
def fraction? : List Char → Option (Option (List Char) × List Char)
  | '.' :: cs =>
    if cs.takeWhile Char.isDigit = [] then none
    else some (some (cs.takeWhile Char.isDigit), cs.dropWhile Char.isDigit)
  | cs => some (none, cs)

/-- Reads a number without its sign off the front of the text. -/
def readUnsigned (negative : Bool) (cs : List Char) : Option (Number × List Char) :=
  let digits := cs.takeWhile Char.isDigit
  if wellFormed digits then
    (fraction? (cs.dropWhile Char.isDigit)).bind fun (fraction, cs) =>
    (exponent? cs).bind fun (exponent, cs) =>
    let number? := match fraction, exponent with
      | none, none => whole? negative digits
      | _, _ => real? negative digits (fraction.getD []) (exponent.getD 0)
    number?.map fun n => (n, cs)
  else none

/-- Reads a number off the front of the text. -/
def read : List Char → Option (Number × List Char)
  | '-' :: cs => readUnsigned true cs
  | cs => readUnsigned false cs

end Number

end Json

end SchemaSharp
