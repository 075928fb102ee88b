/-
C# literals of member values.

Text becomes a regular string literal: quotation marks, backslashes and
control characters are escaped, everything else stands as it is.
-/
import SchemaSharp.Double.Shortest
import SchemaSharp.Schema.MemberValue

namespace SchemaSharp

/-- A literal and the C# type that a constant of it has. -/
structure Literal where
  type : String
  text : String
  deriving DecidableEq

namespace Literal

/-! ## String literals -/

/-- The control characters of the general category Cc. -/
def isControl (c : Char) : Bool := c ≤ '\x1f' || ('\x7f' ≤ c && c ≤ '\u009f')

/-- A character inside a string literal. -/
def escapeChar (c : Char) : List Char :=
  match c with
  | '\\' => ['\\', '\\']
  | '"' => ['\\', '"']
  | '\n' => ['\\', 'n']
  | '\r' => ['\\', 'r']
  | '\t' => ['\\', 't']
  | '\x00' => ['\\', '0']
  | c => if isControl c then '\\' :: 'u' :: Numeral.hex4 c.toNat else [c]

/-- The inside of a string literal. -/
def escape (t : String) : String := .ofList (t.toList.flatMap escapeChar)

/-- A text as a string literal. -/
def quote (t : String) : String := "\"" ++ escape t ++ "\""

end Literal

/-! ## Member values -/

/-- The 32-bit integers. -/
def FitsInt32 (n : Int) : Prop := -(2 ^ 31) ≤ n ∧ n < 2 ^ 31

instance (n : Int) : Decidable (FitsInt32 n) := inferInstanceAs (Decidable (_ ∧ _))

/-- The literal of a value at a position. -/
def MemberValue.literal (position : Nat) : MemberValue → Literal
  | integer n => ⟨if FitsInt32 n.toInt then "int" else "long", Numeral.intText n.toInt⟩
  | float x => ⟨"float", .ofList x.text⟩
  | text t => ⟨"string", Literal.quote t⟩
  | positional => ⟨"int", Numeral.natText position⟩

/-- The literal of a named constant: floats are marked as single-precision. -/
def MemberValue.constant (position : Nat) (v : MemberValue) : Literal :=
  match v with
  | float x => ⟨"float", .ofList (x.text ++ ['f'])⟩
  | v => v.literal position

end SchemaSharp
