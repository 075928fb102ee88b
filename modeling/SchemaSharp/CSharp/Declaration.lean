/-
The C# declarations that descriptors become.

Classes are tracked by the schema runtime, which finds their fields by
attributes; interfaces become plain carriers of data; enums become
integer-backed enumerations or groups of constants. Names are written as
they are declared.
-/
import SchemaSharp.CSharp.Literal
import SchemaSharp.CSharp.Source
import SchemaSharp.CSharp.TypeExpr
import SchemaSharp.Options

namespace SchemaSharp

/-! ## Fields -/

namespace Property

/-- The arguments of the attribute that tells the runtime a field's type:
the declared type, the C# type of references and containers, and the child
type if the runtime has to build it from its name. -/
def typeArguments (p : Property) (type : TypeExpr) : String :=
  s!"\"{p.type}\"" ++ match p.child with
    | none => ""
    | some child =>
      s!", typeof({type.text})" ++ if child.userDefined then "" else s!", \"{child.name}\""

/-- References and containers start out empty, values with their default. -/
def initializer (p : Property) : String := if p.hasChild then "new()" else "default"

/-- The lines of a tracked field, without indentation. -/
def trackedField (p : Property) (table : TypeTable) (owner : String) :
    Except GenerateError (List String) :=
  (table.resolve owner p).map fun type =>
    (if p.deprecated then [s!"[System.Obsolete(\"field '{p.name}' is deprecated.\", true)]"]
      else []) ++
    [s!"[Type({Numeral.natText p.index.toNat}, {p.typeArguments type})]",
      s!"public {type.text} {p.name} = {p.initializer};"]

/-- The lines of a data carrier's field, without indentation. -/
def carrierField (p : Property) (table : TypeTable) (owner : String) :
    Except GenerateError (List String) :=
  (table.resolveCarrier owner p).map fun type => [s!"public {type.text} {p.name};"]

end Property

/-- The lines of a field on their own, one tab deeper than `indent`. -/
def fieldText (indent : String) (lines : List String) : String :=
  "\n".intercalate (lines.map fun line => "\t" ++ indent ++ line)

/-- The fields of all properties; the first failure counts. -/
def collectFields (field : Property → Except GenerateError (List String)) :
    List Property → Except GenerateError (List (List String))
  | [] => .ok []
  | p :: ps => (field p).bind fun lines => (collectFields field ps).map (lines :: ·)

/-! ## Classes and interfaces -/

namespace ClassDecl

/-- Every field stands after a blank line. -/
def body (c : ClassDecl) (fields : List (List String)) : List Line :=
  [.code 0 s!"public partial class {c.name} : {c.base} \x7b",
    .code 1 "[Preserve]",
    .code 1 s!"public {c.name}() \x7b \x7d"] ++
  fields.flatMap (fun lines => .blank :: lines.map (.code 1)) ++
  [.code 0 "\x7d"]

/-- The file of a class. -/
def source (c : ClassDecl) (table : TypeTable) : Except GenerateError Source :=
  (collectFields (·.trackedField table c.name) c.properties).map fun fields =>
    ⟨["Colyseus.Schema", "UnityEngine.Scripting"], c.body fields⟩

end ClassDecl

namespace InterfaceDecl

/-- The fields stand right behind one another. -/
def body (i : InterfaceDecl) (fields : List (List String)) : List Line :=
  [.code 0 "[MessagePackObject(keyAsPropertyName: true)]",
    .code 0 s!"public class {i.name} \x7b"] ++
  fields.flatMap (·.map (.code 1)) ++
  [.code 0 "\x7d"]

/-- The file of an interface, with the extra using directive if there is one. -/
def source (i : InterfaceDecl) (table : TypeTable) (options : Options) :
    Except GenerateError Source :=
  (collectFields (·.carrierField table i.name) i.properties).map fun fields =>
    ⟨"MessagePack" :: options.effectiveUsing.toList, i.body fields⟩

end InterfaceDecl

/-! ## Enums -/

namespace EnumDecl

/-- A member of an enumeration, whose integer has to fit the backing type. -/
def enumerationLine (owner : String) (position : Nat) (m : Member) :
    Except GenerateError Line :=
  let line := Line.code 1 s!"{m.name} = {(m.value.literal position).text},"
  match m.value with
  | .integer n =>
    if FitsInt32 n.toInt then .ok line else .error (.outOfIntRange owner m.name n)
  | _ => .ok line

/-- The members of an enumeration from a position on; the first failure
counts. -/
def enumerationLines (owner : String) (position : Nat) :
    List Member → Except GenerateError (List Line)
  | [] => .ok []
  | m :: ms => (enumerationLine owner position m).bind fun line =>
    (enumerationLines owner (position + 1) ms).map (line :: ·)

/-- A constant of a group, typed by its value. -/
def constantLine (position : Nat) (m : Member) : Line :=
  let literal := m.value.constant position
  .code 1 s!"public const {literal.type} {m.name} = {literal.text};"

/-- The members stand behind a blank line. -/
def body (heading : String) (members : List Line) : List Line :=
  [.code 0 heading, .blank] ++ members ++ [.code 0 "\x7d"]

/-- The file of an enum, which uses no namespaces. -/
def source (e : EnumDecl) : Except GenerateError Source :=
  match e.kind with
  | .enumeration =>
    (enumerationLines e.name 0 e.members).map fun members =>
      ⟨[], body s!"public enum {e.name} : int \x7b" members⟩
  | .constantGroup =>
    .ok ⟨[], body s!"public struct {e.name} \x7b" (e.members.mapIdx constantLine)⟩

end EnumDecl

/-! ## Descriptors -/

namespace Descriptor

/-- The file of a descriptor as lines. -/
def source (d : Descriptor) (table : TypeTable) (options : Options) :
    Except GenerateError Source :=
  match d with
  | ofClass c => c.source table
  | ofInterface i => i.source table options
  | ofEnum e => e.source

/-- The complete text of a descriptor's file. -/
def render (d : Descriptor) (table : TypeTable) (options : Options) :
    Except GenerateError String :=
  (d.source table options).map (·.text options.effectiveNamespace)

end Descriptor

end SchemaSharp
