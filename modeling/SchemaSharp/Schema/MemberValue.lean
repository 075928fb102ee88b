/-
Values of enum members, and what declared text or a number means as one.

A number without a fraction is an integer as long as it fits 64 bits; text
is a number if it reads as one, and otherwise stands for itself.
-/
import SchemaSharp.Double.Rounding
import SchemaSharp.Text.Blank

namespace SchemaSharp

/-- The value declared for an enum member. A member without one is counted
by its position. -/
inductive MemberValue
  | integer (n : Int64)
  | float (x : Double)
  | text (t : String)
  | positional
  deriving DecidableEq

namespace MemberValue

/-- An explicit integer. -/
def isInteger : MemberValue → Bool
  | integer _ => true
  | _ => false

/-- An explicit float. -/
def isFloat : MemberValue → Bool
  | float _ => true
  | _ => false

/-- An explicit text. -/
def isText : MemberValue → Bool
  | text _ => true
  | _ => false

/-- Equality of values, floats compared by value: a NaN differs from
itself. -/
def agrees : MemberValue → MemberValue → Bool
  | integer m, integer n => m == n
  | float x, float y => x.ieeeEq y
  | text s, text t => s == t
  | positional, positional => true
  | _, _ => false

/-! ## Numbers -/

/-- The value of a number: an integer if it is whole and fits 64 bits. -/
def ofDouble (x : Double) : MemberValue :=
  match x.toInt? with
  | some n => if Numeral.FitsInt64 n then integer (.ofInt n) else float x
  | none => float x

/-- The value of a whole number of any size. -/
def ofInt (n : Int) : MemberValue :=
  if Numeral.FitsInt64 n then integer (.ofInt n) else ofDouble (.ofInt n)

/-! ## Declared text -/

/-- An integer in decimal, or in another base after its marker. A sign
stands after the marker. -/
def integerText? : List Char → Option Int64
  | '0' :: 'x' :: cs | '0' :: 'X' :: cs => Numeral.int64? 16 cs
  | '0' :: 'o' :: cs | '0' :: 'O' :: cs => Numeral.int64? 8 cs
  | '0' :: 'b' :: cs | '0' :: 'B' :: cs => Numeral.int64? 2 cs
  | cs => Numeral.int64? 10 cs

/-- The number that trimmed text stands for. Decimals too large for a
double are not numbers. -/
def number? (cs : List Char) : Option MemberValue :=
  match integerText? cs with
  | some n => some (integer n)
  | none =>
    ((Decimal.read? cs).map Double.ofDecimal).bind fun x =>
      if x.isFinite then some (ofDouble x) else none

/-- What declared text means: nothing declared counts by position, blank
text is zero, a number is read around blanks, and all else is kept as it
stands. -/
def classify : Option String → MemberValue
  | none => positional
  | some t =>
    if t = "" then positional
    else if Text.trim t.toList = [] then integer 0
    else (number? (Text.trim t.toList)).getD (text t)

end MemberValue

end SchemaSharp
