/-
Properties: the typed, indexed fields of classes and interfaces.

The declared type is a primitive or enum name, `ref`, or one of the four
container names. The child type of a reference or container names the
structure it refers to or its elements; whether that name is user-defined
is settled when the child type is made, by its first letter.
-/

namespace SchemaSharp

/-! ## Containers -/

/-- The four kinds of containers. -/
inductive ContainerKind
  | array | map | set | collection
  deriving DecidableEq

namespace ContainerKind

/-- The name that declares a container. -/
def schemaName : ContainerKind → String
  | array => "array"
  | map => "map"
  | set => "set"
  | collection => "collection"

/-- The kinds in order of declaration. -/
def all : List ContainerKind := [array, map, set, collection]

/-- The kind that a name declares. -/
def ofName? (name : String) : Option ContainerKind := all.find? (·.schemaName = name)

end ContainerKind

/-! ## Child types -/

/-- The declared child type of a reference or container. -/
structure ChildType where
  name : String
  userDefined : Bool
  deriving DecidableEq

namespace ChildType

/-- User-defined names start with one of the letters A to Z. -/
def isUserDefined (name : String) : Bool :=
  match name.toList with
  | c :: _ => 'A' ≤ c && c ≤ 'Z'
  | [] => false

/-- The child type of a given name. -/
def ofName (name : String) : ChildType := ⟨name, isUserDefined name⟩

end ChildType

/-! ## Properties -/

/-- The declared type of references. -/
def refType : String := "ref"

/-- A field of a class or an interface. -/
structure Property where
  name : String
  index : UInt16 := 0
  type : String
  child : Option ChildType := none
  enumType : Option String := none
  deprecated : Bool := false
  deriving DecidableEq

/-- What the declared type says about the shape of a property. -/
inductive PropertyKind
  | reference
  | container (kind : ContainerKind)
  | plain
  deriving DecidableEq

namespace Property

/-- The kind of the declared type. -/
def kind (p : Property) : PropertyKind :=
  if p.type = refType then .reference
  else match ContainerKind.ofName? p.type with
    | some kind => .container kind
    | none => .plain

/-- Whether a child type is declared. -/
def hasChild (p : Property) : Bool := p.child.isSome

end Property

end SchemaSharp
