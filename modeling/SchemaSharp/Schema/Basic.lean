/-
Schemas: the classes, interfaces and enums that sources are generated for,
each in the order of declaration.
-/
import SchemaSharp.Schema.MemberValue
import SchemaSharp.Schema.Property

namespace SchemaSharp

/-! ## Classes and interfaces -/

/-- An object tracked by the schema. -/
structure ClassDecl where
  name : String
  base : String
  properties : List Property := []
  deriving DecidableEq

/-- A plain carrier of data. -/
structure InterfaceDecl where
  name : String
  properties : List Property := []
  deriving DecidableEq

/-! ## Enums -/

/-- An enumeration is closed and backed by integers; a constant group holds
named constants of any type. -/
inductive EnumKind
  | enumeration
  | constantGroup
  deriving DecidableEq

namespace EnumKind

/-- The name that declares a kind. -/
def schemaName : EnumKind → String
  | enumeration => "enumeration"
  | constantGroup => "constantGroup"

/-- The kind of an enum that declares none: names ending in `Enum` are
enumerations. -/
def infer (name : String) : EnumKind :=
  if "Enum".toList.isSuffixOf name.toList then enumeration else constantGroup

end EnumKind

/-- A named value of an enum. -/
structure Member where
  name : String
  value : MemberValue
  deriving DecidableEq

/-- A member whose value is what declared text means. -/
def Member.ofDeclared (name : String) (declared : Option String) : Member :=
  ⟨name, .classify declared⟩

/-- An enum of either kind. -/
structure EnumDecl where
  name : String
  kind : EnumKind
  members : List Member := []
  deriving DecidableEq

/-- Equality of members, floats compared by value. -/
def Member.agrees (a b : Member) : Bool := a.name == b.name && a.value.agrees b.value

namespace EnumDecl

/-- The enum of operation codes, which the runtime brings along. -/
def reservedName : String := "OPERATION"

/-- No file is generated for this enum. -/
def isReserved (e : EnumDecl) : Bool := e.name = reservedName

/-- Equality of enums, floats compared by value. -/
def agrees (a b : EnumDecl) : Bool :=
  a.name == b.name && a.kind == b.kind && a.members.length == b.members.length &&
    (a.members.zip b.members).all fun (m, n) => m.agrees n

end EnumDecl

/-! ## Schemas -/

/-- All that is declared together. -/
structure Schema where
  classes : List ClassDecl := []
  interfaces : List InterfaceDecl := []
  enums : List EnumDecl := []
  deriving DecidableEq

namespace Schema

/-- Nothing is declared. -/
def isEmpty (s : Schema) : Bool := s.classes.isEmpty && s.interfaces.isEmpty && s.enums.isEmpty

/-- The first class of a given name. -/
def class? (s : Schema) (name : String) : Option ClassDecl := s.classes.find? (·.name = name)

/-- The first enum of a given name. -/
def enum? (s : Schema) (name : String) : Option EnumDecl := s.enums.find? (·.name = name)

/-- The enums that sources are generated for. -/
def userEnums (s : Schema) : List EnumDecl := s.enums.filter (!·.isReserved)

end Schema

/-! ## Descriptors -/

/-- One declaration of a schema. -/
inductive Descriptor
  | ofClass (c : ClassDecl)
  | ofInterface (i : InterfaceDecl)
  | ofEnum (e : EnumDecl)
  deriving DecidableEq

namespace Descriptor

/-- The declared name. -/
def name : Descriptor → String
  | ofClass c => c.name
  | ofInterface i => i.name
  | ofEnum e => e.name

/-- The word for the kind of a declaration. -/
def kind : Descriptor → String
  | ofClass _ => "class"
  | ofInterface _ => "interface"
  | ofEnum _ => "enum"

end Descriptor

namespace Schema

/-- All declarations: classes, interfaces, enums. -/
def declarations (s : Schema) : List Descriptor :=
  s.classes.map .ofClass ++ s.interfaces.map .ofInterface ++ s.enums.map .ofEnum

/-- The declarations that sources are generated for, in output order. -/
def outputs (s : Schema) : List Descriptor :=
  s.classes.map .ofClass ++ s.interfaces.map .ofInterface ++ s.userEnums.map .ofEnum

end Schema

end SchemaSharp
