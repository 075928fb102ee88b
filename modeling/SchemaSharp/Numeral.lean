/-
Numbers written as text, digit by digit in some base.

Reading is strict: no digit at all is not a number, and one character that
is not a digit of the base refuses the whole text. A sign stands only in
front of the digits.
-/

namespace SchemaSharp

/-- Powers of whole numbers are core's, also where a module brings others
into scope. -/
@[default_instance 20000]
instance corePow {α : Type} [NatPow α] : Pow α Nat := instPowNat

namespace Numeral

/-! ## Digits -/

/-- The value of a digit. Letters of either case go on from ten. -/
def digit? (base : Nat) (c : Char) : Option Nat :=
  let value :=
    if '0' ≤ c ∧ c ≤ '9' then some (c.toNat - '0'.toNat)
    else if 'a' ≤ c ∧ c ≤ 'z' then some (c.toNat - 'a'.toNat + 10)
    else if 'A' ≤ c ∧ c ≤ 'Z' then some (c.toNat - 'A'.toNat + 10)
    else none
  value.filter (· < base)

/-- Reads on from the number `n` that the digits so far stand for. -/
def continue? (base n : Nat) : List Char → Option Nat
  | [] => some n
  | c :: cs => (digit? base c).bind fun d => continue? base (n * base + d) cs

/-- The number that a non-empty list of digits stands for. -/
def natural? (base : Nat) : List Char → Option Nat
  | [] => none
  | c :: cs => continue? base 0 (c :: cs)

/-! ## Signs -/

/-- Takes one sign off the front: whether the number is negative, and the
rest. -/
def sign : List Char → Bool × List Char
  | '-' :: cs => (true, cs)
  | '+' :: cs => (false, cs)
  | cs => (false, cs)

/-- A number with an optional sign. -/
def integer? (base : Nat) (cs : List Char) : Option Int :=
  (natural? base (sign cs).2).map fun n => if (sign cs).1 then -(n : Int) else n

/-- The 64-bit integers among all integers. -/
def FitsInt64 (n : Int) : Prop := -(2 ^ 63) ≤ n ∧ n < 2 ^ 63

instance (n : Int) : Decidable (FitsInt64 n) := inferInstanceAs (Decidable (_ ∧ _))

/-- A signed number that fits 64 bits. -/
def int64? (base : Nat) (cs : List Char) : Option Int64 :=
  (integer? base cs).bind fun n => if FitsInt64 n then some (.ofInt n) else none

/-! ## Writing -/

/-- The decimal digits of a natural number. -/
def natText (n : Nat) : String := .ofList (Nat.toDigits 10 n)

/-- Decimal digits, a minus sign in front of a negative number. -/
def ofInt (n : Int) : List Char :=
  if n < 0 then '-' :: Nat.toDigits 10 n.natAbs else Nat.toDigits 10 n.natAbs

/-- The digits of an integer as a text. -/
def intText (n : Int) : String := .ofList (ofInt n)

/-- The last four hexadecimal digits of `n`, in lower case. -/
def hex4 (n : Nat) : List Char :=
  [n / 4096 % 16, n / 256 % 16, n / 16 % 16, n % 16].map Nat.digitChar

end Numeral

end SchemaSharp
