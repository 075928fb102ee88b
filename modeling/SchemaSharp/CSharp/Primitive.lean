/-
The primitive types of schemas and their C# types.
-/

namespace SchemaSharp

/-- The primitive types that a property may declare. -/
inductive Primitive
  | string | number | boolean
  | int8 | uint8 | int16 | uint16 | int32 | uint32 | int64 | uint64
  | float32 | float64
  deriving DecidableEq

namespace Primitive

/-- The primitives in order of declaration. -/
def all : List Primitive :=
  [string, number, boolean, int8, uint8, int16, uint16, int32, uint32, int64, uint64,
    float32, float64]

/-- The name that declares a primitive. -/
def schemaName : Primitive → String
  | string => "string"
  | number => "number"
  | boolean => "boolean"
  | int8 => "int8"
  | uint8 => "uint8"
  | int16 => "int16"
  | uint16 => "uint16"
  | int32 => "int32"
  | uint32 => "uint32"
  | int64 => "int64"
  | uint64 => "uint64"
  | float32 => "float32"
  | float64 => "float64"

/-- The C# type of a primitive. Untyped numbers are single-precision. -/
def csharpName : Primitive → String
  | string => "string"
  | number => "float"
  | boolean => "bool"
  | int8 => "sbyte"
  | uint8 => "byte"
  | int16 => "short"
  | uint16 => "ushort"
  | int32 => "int"
  | uint32 => "uint"
  | int64 => "long"
  | uint64 => "ulong"
  | float32 => "float"
  | float64 => "double"

/-- The primitive that a name declares. -/
def ofName? (name : String) : Option Primitive := all.find? (·.schemaName = name)

end Primitive

end SchemaSharp
