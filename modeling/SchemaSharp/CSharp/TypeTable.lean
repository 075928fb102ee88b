/-
Type tables: the C# names of the types that properties may declare.

A table starts with the primitives; an enum is registered under its own
name, in place of an earlier entry of that name.
-/
import SchemaSharp.CSharp.Primitive
import SchemaSharp.Schema.Basic

namespace SchemaSharp

/-- The names that may be declared, and what each of them stands for. -/
structure TypeTable where
  entries : List (String × String)
  deriving DecidableEq

namespace TypeTable

/-- Sets the entry of a name, at its place if there is one. -/
def set (name target : String) : List (String × String) → List (String × String)
  | [] => [(name, target)]
  | (k, v) :: rest => if k = name then (name, target) :: rest else (k, v) :: set name target rest

/-- The table of the primitives. -/
def primitives : TypeTable := ⟨Primitive.all.map fun p => (p.schemaName, p.csharpName)⟩

/-- Registers an enum, which keeps its name. -/
def register (table : TypeTable) (name : String) : TypeTable := ⟨set name name table.entries⟩

/-- The primitives and every enum of a schema. -/
def ofSchema (s : Schema) : TypeTable :=
  s.enums.foldl (fun table e => table.register e.name) primitives

/-- The C# name of a declared type. -/
def lookup (table : TypeTable) (name : String) : Option String := table.entries.lookup name

/-- The number of names. -/
def size (table : TypeTable) : Nat := table.entries.length

/-- Whether no name may be declared. -/
def isEmpty (table : TypeTable) : Bool := table.entries.isEmpty

end TypeTable

end SchemaSharp
