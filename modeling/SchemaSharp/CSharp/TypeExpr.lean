/-
C# types of properties.

An enum type is taken as it is. A property with a child type refers to that
child or holds several of them: tracked fields use the runtime's container
classes, data carriers plain arrays. All other properties have the type
that the table gives for the declared one.
-/
import SchemaSharp.CSharp.TypeTable
import SchemaSharp.Error
import SchemaSharp.Text.Capital

namespace SchemaSharp

/-- A C# type as it occurs in fields. -/
inductive TypeExpr
  | named (name : String)
  | container (kind : ContainerKind) (element : String)
  | array (element : String)
  deriving DecidableEq

/-- The runtime class of a container. -/
def ContainerKind.className (kind : ContainerKind) : String :=
  Text.capitalize kind.schemaName ++ "Schema"

/-- A type as it is written. -/
def TypeExpr.text : TypeExpr → String
  | named name => name
  | container kind element => s!"{kind.className}<{element}>"
  | array element => element ++ "[]"

namespace TypeTable

/-- The type of a property without a child type. -/
def resolvePlain (table : TypeTable) (owner : String) (p : Property) :
    Except GenerateError String :=
  match ContainerKind.ofName? p.type with
  | some _ => .error (.schema (.missingChild owner p.name p.type))
  | none => match table.lookup p.type with
    | some target => .ok target
    | none => .error (.unresolvedType owner p.name p.type)

/-- The type of a child: user-defined names stand for themselves. -/
def resolveChild (table : TypeTable) (owner : String) (p : Property) (child : ChildType) :
    Except GenerateError String :=
  if child.userDefined then .ok child.name
  else match table.lookup child.name with
    | some target => .ok target
    | none => .error (.unresolvedType owner p.name child.name)

/-- The container that a property with a child type declares. -/
def resolveContainer (owner : String) (p : Property) : Except GenerateError ContainerKind :=
  match ContainerKind.ofName? p.type with
  | some kind => .ok kind
  | none => .error (.unknownContainer owner p.name p.type)

/-- The type of a tracked field. -/
def resolve (table : TypeTable) (owner : String) (p : Property) :
    Except GenerateError TypeExpr :=
  match p.enumType, p.child with
  | some enumType, _ => .ok (.named enumType)
  | none, none => (table.resolvePlain owner p).map .named
  | none, some child =>
    (table.resolveChild owner p child).bind fun element =>
      if p.type = refType then .ok (.named element)
      else (resolveContainer owner p).map (.container · element)

/-- The type of a data carrier's field: the same, with arrays for the
containers. -/
def resolveCarrier (table : TypeTable) (owner : String) (p : Property) :
    Except GenerateError TypeExpr :=
  match p.enumType, p.child with
  | none, some child =>
    if p.type = refType then table.resolve owner p
    else (resolveContainer owner p).bind fun _ =>
      (table.resolveChild owner p child).map .array
  | _, _ => table.resolve owner p

end TypeTable

end SchemaSharp
