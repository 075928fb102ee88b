/-
Options of a generation run: a namespace around every declaration, and one
more using directive for the files of interfaces. An empty text counts as
none.
-/
import SchemaSharp.Decode.Record

namespace SchemaSharp

/-- What a run may be told besides the schema. -/
structure Options where
  targetNamespace : Option String := none
  extraUsing : Option String := none
  deriving DecidableEq

namespace Options

/-- The empty text stands for none. -/
def isGiven (text : String) : Bool := text ≠ ""

/-- The namespace in effect. -/
def effectiveNamespace (o : Options) : Option String := o.targetNamespace.filter isGiven

/-- The extra using directive in effect. -/
def effectiveUsing (o : Options) : Option String := o.extraUsing.filter isGiven

/-- What stands before the lines of a declaration. -/
def indent (o : Options) : String := if o.effectiveNamespace.isSome then "\t" else ""

/-- The options as a record, under the names that files give them. -/
def shape : Shape Options where
  title := "GenerateOptions"
  blank := {}
  slots := [
    .optional "namespace" (Decode.optional Decode.string) fun n o => { o with targetNamespace := n },
    .optional "using" (Decode.optional Decode.string) fun u o => { o with extraUsing := u }]

/-- Reads options from a tree. -/
def decode : Json → Except DataError Options := shape.decode

end Options

end SchemaSharp
