/-
Why a run generates nothing.
-/
import SchemaSharp.Schema.Validation

namespace SchemaSharp

/-- Why a run fails: its input, one of its descriptors, or one of their types. -/
inductive GenerateError
  | load (e : LoadError)
  | schema (e : SchemaError)
  | file (e : FileError)
  | generation (message : String)
  | unresolvedType (owner property type : String)
  | unknownContainer (owner property type : String)
  | outOfIntRange (owner member : String) (value : Int64)
  | duplicateOutput (file kind descriptor : String)
  deriving DecidableEq

namespace GenerateError

/-- The error of a descriptor without a name. -/
def unnamed (kind : String) : GenerateError := .generation s!"{kind} descriptor without a name"

/-- The text of an error. -/
def message : GenerateError → String
  | load e => "context parse error: " ++ e.message
  | schema e => "schema error: " ++ e.message
  | file e => "IO error: " ++ e.message
  | generation message => s!"generation error: {message}"
  | unresolvedType owner property type =>
    s!"unknown type '{type}' in property '{property}' of '{owner}'"
  | unknownContainer owner property type =>
    s!"unknown container type '{type}' in property '{property}' of '{owner}'"
  | outOfIntRange owner member value =>
    let number := Numeral.intText value.toInt
    s!"value {number} of member '{member}' in '{owner}' is outside the int range"
  | duplicateOutput output kind descriptor =>
    s!"duplicate output file '{output}' produced by {kind} '{descriptor}'"

/-- The message of the error that this one passes on. -/
def cause : GenerateError → Option String
  | load e => some e.message
  | schema e => some e.message
  | file e => some e.message
  | _ => none

end GenerateError

end SchemaSharp
