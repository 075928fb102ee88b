/-
Structural validation: names are unique in a schema, names and indices in
each class and interface, names in each enum, and a property has a child
type exactly if its declared type asks for one.

Each check judges one item by the items before it. The first fault in order
of declaration is reported.
-/
import SchemaSharp.Schema.Load

namespace SchemaSharp

/-! ## Errors -/

/-- What may be wrong with the structure of a schema. -/
inductive SchemaError
  | load (e : LoadError)
  | duplicateDefinition (kind name : String)
  | duplicateIndex (owner : String) (index : UInt16) (first second : String)
  | duplicateProperty (owner property : String)
  | missingChild (owner property type : String)
  | unexpectedChild (owner property type : String)
  | invalid (message : String)
  deriving DecidableEq

namespace SchemaError

/-- The error of a member without a name. -/
def unnamedMember (owner : String) : SchemaError := .invalid s!"Unnamed member in enum '{owner}'"

/-- The text of an error. -/
def message : SchemaError → String
  | load e => "parse error: " ++ e.message
  | duplicateDefinition kind name => s!"duplicate {kind} definition: '{name}'"
  | duplicateIndex owner index first second =>
    let number := Numeral.natText index.toNat
    s!"duplicate index {number} in '{owner}': '{first}' and '{second}'"
  | duplicateProperty owner property => s!"duplicate property '{property}' in '{owner}'"
  | missingChild owner property type =>
    s!"property '{property}' in '{owner}' has type '{type}' but no childType"
  | unexpectedChild owner property type =>
    s!"property '{property}' in '{owner}' has type '{type}' which takes no childType"
  | invalid message => s!"validation error: {message}"

end SchemaError

/-! ## Faults -/

/-- The first fault found when each item is judged by the items before it. -/
def firstFault {α ε : Type} (judge : List α → α → Option ε) (before : List α) :
    List α → Option ε
  | [] => none
  | a :: rest => match judge before a with
    | some e => some e
    | none => firstFault judge (before ++ [a]) rest

namespace Descriptor

/-- Each name is declared once. -/
def fault? (before : List Descriptor) (d : Descriptor) : Option SchemaError :=
  if d.name ∈ before.map name then some (.duplicateDefinition d.kind d.name) else none

end Descriptor

namespace Property

/-- References and containers need a child type, other properties take
none. -/
def childFault? (owner : String) (p : Property) : Option SchemaError :=
  match p.kind, p.hasChild with
  | .plain, true => some (.unexpectedChild owner p.name p.type)
  | .plain, false => none
  | _, false => some (.missingChild owner p.name p.type)
  | _, true => none

/-- The name is looked at first, then the index, then the child type. -/
def fault? (owner : String) (before : List Property) (p : Property) : Option SchemaError :=
  if p.name ∈ before.map name then some (.duplicateProperty owner p.name)
  else match before.find? (·.index = p.index) with
    | some first => some (.duplicateIndex owner p.index first.name p.name)
    | none => p.childFault? owner

end Property

namespace Member

/-- A member has a name, and no other member has it. -/
def fault? (owner : String) (before : List Member) (m : Member) : Option SchemaError :=
  if m.name = "" then some (.unnamedMember owner)
  else if m.name ∈ before.map name then some (.duplicateProperty owner m.name)
  else none

end Member

namespace Schema

/-- The first fault of a schema: names come first, then the properties of
classes and of interfaces, then the members of enums. -/
def fault? (s : Schema) : Option SchemaError :=
  firstFault Descriptor.fault? [] s.declarations <|>
    s.classes.findSome? (fun c => firstFault (Property.fault? c.name) [] c.properties) <|>
    s.interfaces.findSome? (fun i => firstFault (Property.fault? i.name) [] i.properties) <|>
    s.enums.findSome? (fun e => firstFault (Member.fault? e.name) [] e.members)

/-- Accepts a schema or reports its first fault. -/
def validate (s : Schema) : Except SchemaError Unit :=
  match s.fault? with
  | some e => .error e
  | none => .ok ()

end Schema

end SchemaSharp
