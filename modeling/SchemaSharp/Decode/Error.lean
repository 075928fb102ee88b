/-
Why a JSON tree does not describe what was asked for.

An error says what was found by an outline: a scalar with its value, an
array or an object by its kind alone.
-/
import SchemaSharp.Double.Shortest
import SchemaSharp.Json.Basic
import SchemaSharp.Text.Quoted

namespace SchemaSharp

/-! ## What was found -/

/-- What an error says about a tree. -/
inductive Outline
  | null
  | bool (b : Bool)
  | whole (n : Int)
  | real (x : Double)
  | string (s : String)
  | sequence
  | map
  deriving DecidableEq

/-- A decimal as errors show it: positional from `10 ^ -5` up to `10 ^ 16`,
with a fraction in any case, and scientific outside of that range. -/
def Decimal.outline (d : Decimal) : List Char :=
  if d.coefficient = 0 ∨ -5 ≤ d.leadingExponent ∧ d.leadingExponent < 16 then
    if '.' ∈ d.plain then d.plain else d.plain ++ ['.', '0']
  else d.scientific

/-- A double as errors show it: its shortest decimal, the even one of two
equally near ones. -/
def Double.outline (x : Double) : String :=
  .ofList (((x.shortest? .toEven).map Decimal.outline).getD x.text)

namespace Outline

/-- The outline of a tree. -/
def ofJson : Json → Outline
  | .null => null
  | .bool b => bool b
  | .number (.whole n _) => whole n
  | .number (.real x _) => real x
  | .string s => string s
  | .array _ => sequence
  | .object _ => map

/-- An outline as errors word it. -/
def text : Outline → String
  | null => "null"
  | bool b => "boolean `" ++ (if b then "true" else "false") ++ "`"
  | whole n => "integer `" ++ Numeral.intText n ++ "`"
  | real x => "floating point `" ++ x.outline ++ "`"
  | string s => "string " ++ Text.quoted s
  | sequence => "sequence"
  | map => "map"

end Outline

/-! ## What was wanted -/

/-- What was asked for. -/
inductive Wanted
  | string
  | bool
  | sequence
  | index
  | enumKind
  | nothing
  | record (title : String)
  deriving DecidableEq

/-- What was asked for, as errors word it. -/
def Wanted.text : Wanted → String
  | string => "a string"
  | bool => "a boolean"
  | sequence => "a sequence"
  | index => "u16"
  | enumKind => "string or map"
  | nothing => "unit"
  | record title => "struct " ++ title

/-! ## Errors -/

/-- Why a tree is not what was asked for. -/
inductive DataError
  /-- A value of another type. -/
  | wrongType (found : Outline) (wanted : Wanted)
  /-- A whole number that is no index. -/
  | indexRange (n : Int)
  | missingField (key : String)
  /-- One field under two spellings. -/
  | repeatedField (key : String)
  /-- An array that ends before the required field at a position. -/
  | tooShort (position : Nat) (title : String) (size : Nat)
  /-- An array longer than the record. -/
  | tooLong (length : Nat)
  | unknownEnumKind (name : String)
  /-- An object in place of an enum kind, without exactly one key. -/
  | notOneKey
  /-- A member value that is neither a number nor a string. -/
  | noMemberValue
  deriving DecidableEq

namespace DataError

/-- The text of an error. -/
def message : DataError → String
  | wrongType found wanted => "invalid type: " ++ found.text ++ ", expected " ++ wanted.text
  | indexRange n =>
    "invalid value: " ++ (Outline.whole n).text ++ ", expected " ++ Wanted.index.text
  | missingField key => "missing field `" ++ key ++ "`"
  | repeatedField key => "duplicate field `" ++ key ++ "`"
  | tooShort position title size =>
    "invalid length " ++ Numeral.natText position ++ ", expected struct " ++ title ++ " with " ++
      Numeral.natText size ++ " elements"
  | tooLong length =>
    "invalid length " ++ Numeral.natText length ++ ", expected fewer elements in array"
  | unknownEnumKind name =>
    "unknown variant `" ++ name ++ "`, expected `enumeration` or `constantGroup`"
  | notOneKey => "invalid value: map, expected map with a single key"
  | noMemberValue => "data did not match any variant of untagged enum RawMemberValue"

end DataError

end SchemaSharp
