/-
Loading schemas from JSON text and from files.

A document is a JSON object; the array spelling, which other records have
too, is refused for it. A file is its bytes, or nothing if it does not
exist, and has to hold UTF-8.
-/
import SchemaSharp.Json.Reader
import SchemaSharp.Schema.Decode

namespace SchemaSharp

/-! ## Errors -/

/-- Text that is not JSON, or not the JSON that was asked for. -/
inductive JsonError
  | malformed
  | data (e : DataError)
  deriving DecidableEq

/-- The text of an error. -/
def JsonError.message : JsonError → String
  | malformed => "malformed JSON"
  | data e => e.message

/-- A file that gives no text. -/
inductive FileError
  | notFound
  | notUtf8
  | other (description : String)
  deriving DecidableEq

/-- The text of an error. -/
def FileError.message : FileError → String
  | notFound => "file not found"
  | notUtf8 => "file is not UTF-8 text"
  | other description => description

/-- Why a schema does not load. -/
inductive LoadError
  | json (e : JsonError)
  | file (e : FileError)
  | notObject
  deriving DecidableEq

namespace LoadError

/-- The text of an error. -/
def message : LoadError → String
  | json e => "JSON parsing error: " ++ e.message
  | file e => "IO error: " ++ e.message
  | notObject => "invalid context structure: context root must be a JSON object"

end LoadError

/-! ## Loading -/

/-- Reads JSON text as a value that trees decode to. -/
def Decode.ofText {α : Type} (decode : Json → Except DataError α) (text : String) :
    Except JsonError α :=
  match Json.read? text with
  | none => .error .malformed
  | some j => (decode j).mapError .data

/-- The text of a file. -/
def fileText : Option ByteArray → Except FileError String
  | none => .error .notFound
  | some bytes => match String.fromUTF8? bytes with
    | some text => .ok text
    | none => .error .notUtf8

namespace Schema

/-- The schema that a whole document describes. -/
def ofJson : Json → Except LoadError Schema
  | .object members => (decode (.object members)).mapError fun e => .json (.data e)
  | _ => .error .notObject

/-- Loads a schema from text. -/
def load (text : String) : Except LoadError Schema :=
  match Json.read? text with
  | none => .error (.json .malformed)
  | some j => ofJson j

/-- Loads a schema from a file. -/
def loadFile (bytes : Option ByteArray) : Except LoadError Schema :=
  ((fileText bytes).mapError .file).bind load

end Schema

end SchemaSharp
