/-
The shortest decimal that reads back as a given double.

For one digit, two digits and so on the double lies between two
neighbours on the decimal grid of that many digits. The first grid with a
neighbour that rounds to the double gives the answer: the nearer neighbour
if both do. Where they are equally near, the caller's rule decides. Whether
a decimal reads back is decided by rounding it, so what is written always
reads back.
-/
import SchemaSharp.Double.Rounding

namespace SchemaSharp

namespace Double

/-- The exact decimal value: `2 ^ -1074` is `5 ^ 1074` units of
`10 ^ -1074`. -/
def exactDecimal (negative : Bool) (s e : Nat) : Decimal :=
  ⟨negative, s * 2 ^ e * 5 ^ 1074, -1074⟩

/-- Which of two equally near decimals is taken: the upper one, or the one
whose last digit is even. -/
inductive Tie
  | up
  | toEven
  deriving DecidableEq

/-- Whether the upper neighbour is taken when `part / unit` is cut off a
coefficient and `below` remains. -/
def Tie.takesAbove (tie : Tie) (below part unit : Nat) : Bool :=
  unit < 2 * part || (unit == 2 * part && (tie = up || below % 2 = 1))

/-- The neighbour of `exact` that reads back as `x`, on the grid of the
decimals that leave out its last `drop` digits. -/
def neighbour? (tie : Tie) (x : Double) (exact : Decimal) (drop : Nat) : Option Decimal :=
  let unit := 10 ^ drop
  let lower := exact.coefficient / unit
  let below : Decimal := ⟨exact.negative, lower, exact.exponent + drop⟩
  let above : Decimal := ⟨exact.negative, lower + 1, exact.exponent + drop⟩
  if ofDecimal below = x then
    if tie.takesAbove lower (exact.coefficient % unit) unit ∧ ofDecimal above = x then some above
    else some below
  else if ofDecimal above = x then some above
  else none

/-- The shortest decimal for the finite double `x` whose exact value is
given. Seventeen digits always suffice; the exact value stands behind
them. -/
def shortestFor (tie : Tie) (x : Double) (exact : Decimal) : Decimal :=
  let size := (Nat.toDigits 10 exact.coefficient).length
  ((List.range 17).findSome? fun n => neighbour? tie x exact (size - (n + 1))).getD exact

/-- The shortest decimal of a finite double. -/
def shortest? (tie : Tie) : Double → Option Decimal
  | finite negative s e h =>
    some (shortestFor tie (.finite negative s e h) (exactDecimal negative s e))
  | _ => none

/-- Positional text of the shortest decimal, without a point for whole
numbers. Equally near decimals are rounded up. -/
def text (x : Double) : List Char :=
  match x, x.shortest? .up with
  | _, some d => d.plain
  | infinite false, none => ['i', 'n', 'f']
  | infinite true, none => ['-', 'i', 'n', 'f']
  | _, none => ['N', 'a', 'N']

end Double

end SchemaSharp
