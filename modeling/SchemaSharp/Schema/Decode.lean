/-
Schemas in JSON: the fields of each descriptor, in order of declaration.
-/
import SchemaSharp.Decode.Record
import SchemaSharp.Schema.Basic

namespace SchemaSharp

/-! ## Properties -/

/-- A child type is its name. -/
def ChildType.decode (j : Json) : Except DataError ChildType := (Decode.string j).map .ofName

/-- The fields of a property. -/
def Property.shape : Shape Property where
  title := "PropertyDef"
  blank := ⟨"", 0, "", none, none, false⟩
  slots := [
    .required "name" Decode.string fun name p => { p with name },
    .optional "index" Decode.index fun index p => { p with index },
    .required "type" Decode.string fun type p => { p with type },
    .optional "childType" (Decode.optional ChildType.decode) fun child p => { p with child },
    .optional "enumType" (Decode.optional Decode.string) fun enumType p => { p with enumType },
    .optional "deprecated" Decode.bool fun deprecated p => { p with deprecated }]

/-- Reads a property. -/
def Property.decode : Json → Except DataError Property := Property.shape.decode

/-! ## Classes and interfaces -/

/-- The fields of a class. -/
def ClassDecl.shape : Shape ClassDecl where
  title := "ClassDef"
  blank := ⟨"", "", []⟩
  slots := [
    .required "name" Decode.string fun name c => { c with name },
    .required "extends" Decode.string fun base c => { c with base },
    .optional "properties" (Decode.list Property.decode) fun properties c => { c with properties }]

/-- Reads a class. -/
def ClassDecl.decode : Json → Except DataError ClassDecl := ClassDecl.shape.decode

/-- The fields of an interface. -/
def InterfaceDecl.shape : Shape InterfaceDecl where
  title := "InterfaceDef"
  blank := ⟨"", []⟩
  slots := [
    .required "name" Decode.string fun name i => { i with name },
    .optional "properties" (Decode.list Property.decode) fun properties i => { i with properties }]

/-- Reads an interface. -/
def InterfaceDecl.decode : Json → Except DataError InterfaceDecl := InterfaceDecl.shape.decode

/-! ## Enums -/

/-- A kind is its name, or an object with its name for the only key and
null for the value. -/
def EnumKind.decode : Json → Except DataError EnumKind
  | .string s => ofName s
  | .object members =>
    match Json.byKey members with
    | [(key, value)] => (ofName key).bind fun kind => match value with
      | .null => .ok kind
      | j => .error (.wrongType (.ofJson j) .nothing)
    | _ => .error .notOneKey
  | j => .error (.wrongType (.ofJson j) .enumKind)
where
  ofName (s : String) : Except DataError EnumKind :=
    match [enumeration, constantGroup].find? (·.schemaName = s) with
    | some kind => .ok kind
    | none => .error (.unknownEnumKind s)

/-- A member without a value is null; numbers and text are classified. -/
def MemberValue.decode : Json → Except DataError MemberValue
  | .null => .ok positional
  | .number (.whole n _) => .ok (ofInt n)
  | .number (.real x _) => .ok (ofDouble x)
  | .string s => .ok (classify (some s))
  | _ => .error .noMemberValue

/-- The fields of a member; its value has two keys. -/
def Member.shape : Shape Member where
  title := "RawEnumMember"
  blank := ⟨"", .positional⟩
  slots := [
    .required "name" Decode.string fun name m => { m with name },
    (Slot.optional "type" MemberValue.decode fun value m => { m with value }).orKey "value"]

/-- Reads a member. -/
def Member.decode : Json → Except DataError Member := Member.shape.decode

/-- An enum as it is written, with or without a kind. -/
structure EnumDraft where
  name : String
  kind : Option EnumKind
  members : List Member

/-- The fields of an enum; its members have two keys. -/
def EnumDraft.shape : Shape EnumDraft where
  title := "RawEnumDef"
  blank := ⟨"", none, []⟩
  slots := [
    .required "name" Decode.string fun name e => { e with name },
    .optional "kind" (Decode.optional EnumKind.decode) fun kind e => { e with kind },
    (Slot.optional "properties" (Decode.list Member.decode)
      fun members e => { e with members }).orKey "members"]

/-- The enum, its kind inferred from the name where none is written. -/
def EnumDraft.toDecl (e : EnumDraft) : EnumDecl :=
  ⟨e.name, e.kind.getD (.infer e.name), e.members⟩

/-- Reads an enum. -/
def EnumDecl.decode (j : Json) : Except DataError EnumDecl :=
  (EnumDraft.shape.decode j).map EnumDraft.toDecl

/-! ## Schemas -/

/-- The fields of a schema, none of them required. -/
def Schema.shape : Shape Schema where
  title := "Context"
  blank := {}
  slots := [
    .optional "classes" (Decode.list ClassDecl.decode) fun classes s => { s with classes },
    .optional "interfaces" (Decode.list InterfaceDecl.decode) fun interfaces s =>
      { s with interfaces },
    .optional "enums" (Decode.list EnumDecl.decode) fun enums s => { s with enums }]

/-- Reads a schema in either spelling. -/
def Schema.decode : Json → Except DataError Schema := Schema.shape.decode

end SchemaSharp
