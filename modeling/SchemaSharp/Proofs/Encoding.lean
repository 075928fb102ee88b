/-
Schemas as JSON.

Each record is written as an object of all its fields, in ascending order of
keys. A child type is written by its name and a member value without its
constructor, so it is the normalized schemas that come back
(`decode_entries`). Nothing else is ever loaded, which makes them exactly the
schemas that JSON stands for (`normalized_iff_decodes`).
-/
import SchemaSharp.Proofs.Normalized

namespace SchemaSharp

namespace Json

/-- A name or, without one, null. -/
def ofOptional {α : Type} (name : α → String) : Option α → Json
  | none => .null
  | some a => .string (name a)

/-- An index as a number. -/
def ofIndex (i : UInt16) : Json :=
  .number (.whole i.toNat ⟨by omega, by have h := i.toNat_lt; omega⟩)

end Json

theorem Decode.optional_ofOptional {α : Type} {decode : Json → Except DataError α}
    {name : α → String} {o : Option α}
    (h : ∀ a, o = some a → decode (.string (name a)) = .ok a) :
    optional decode (.ofOptional name o) = .ok o := by
  cases o with
  | none => rfl
  | some a =>
    change (decode (.string (name a))).map some = .ok (some a)
    rw [h a rfl]
    rfl

theorem Decode.index_ofIndex (i : UInt16) : index (.ofIndex i) = .ok i := by
  have h := i.toNat_lt
  have hi : (0 : Int) ≤ i.toNat ∧ (i.toNat : Int) < 2 ^ 16 := by omega
  rw [Json.ofIndex, index, if_pos hi, Int.toNat_natCast, UInt16.ofNat_toNat]

namespace MemberValue

/-- Numbers are written as numbers; JSON has none that are not finite. -/
def toJson : MemberValue → Json
  | positional => .null
  | integer n => .number (.whole n.toInt ⟨n.le_toInt, by have h := n.toInt_lt; omega⟩)
  | float x => if h : x.isFinite = true then .number (.real x h) else .null
  | text t => .string t

theorem decode_toJson {v : MemberValue} (h : v.Normalized) : decode v.toJson = .ok v := by
  cases v with
  | integer n => exact congrArg Except.ok (ofInt_toInt n)
  | float x =>
    obtain ⟨hx, hw⟩ := h
    rw [toJson, dif_pos hx]
    exact congrArg Except.ok (ofDouble_of_not_fitsInt64 hw)
  | text t => exact congrArg Except.ok h.2
  | positional => rfl

end MemberValue

section Descriptors

open Shape (takes_of_decode)

/-- All fields of a property, in ascending order of keys. -/
def Property.entries (p : Property) : List (Entry Property) := [
  ⟨"childType", .ofOptional ChildType.name p.child, fun q => { q with child := p.child }⟩,
  ⟨"deprecated", .bool p.deprecated, fun q => { q with deprecated := p.deprecated }⟩,
  ⟨"enumType", .ofOptional id p.enumType, fun q => { q with enumType := p.enumType }⟩,
  ⟨"index", .ofIndex p.index, fun q => { q with index := p.index }⟩,
  ⟨"name", .string p.name, fun q => { q with name := p.name }⟩,
  ⟨"type", .string p.type, fun q => { q with type := p.type }⟩]

/-- A property as an object. -/
def Property.toJson (p : Property) : Json := .object (p.entries.map Entry.member)

theorem Property.decode_toJson {p : Property} (h : p.Normalized) : decode p.toJson = .ok p := by
  have hchild : Decode.optional ChildType.decode (.ofOptional ChildType.name p.child) =
      .ok p.child := by
    refine Decode.optional_ofOptional fun child hc => ?_
    exact congrArg Except.ok (ChildType.normalized_iff.mp (h child hc))
  have henum : Decode.optional Decode.string (.ofOptional id p.enumType) = .ok p.enumType :=
    Decode.optional_ofOptional fun _ _ => rfl
  have hindex : Decode.index (.ofIndex p.index) = .ok p.index := Decode.index_ofIndex p.index
  refine Shape.decode_object p.entries ?takes ?keys ?required
  case takes =>
    simp only [entries, List.mem_cons, List.not_mem_nil, or_false, forall_eq_or_imp, forall_eq]
    exact ⟨takes_of_decode rfl rfl (fun _ => rfl) hchild rfl,
      takes_of_decode rfl rfl (fun _ => rfl) rfl rfl,
      takes_of_decode rfl rfl (fun _ => rfl) henum rfl,
      takes_of_decode rfl rfl (fun _ => rfl) hindex rfl,
      takes_of_decode rfl rfl (fun _ => rfl) rfl rfl,
      takes_of_decode rfl rfl (fun _ => rfl) rfl rfl⟩
  case keys =>
    show ["childType", "deprecated", "enumType", "index", "name", "type"].Pairwise (· < ·)
    decide
  case required => simp [shape, entries, Slot.required, Slot.optional]

theorem Property.decode_list {ps : List Property} (h : ∀ p ∈ ps, p.Normalized) :
    Decode.list decode (.array (ps.map toJson)) = .ok ps :=
  Decode.list_map fun p hp => decode_toJson (h p hp)

/-- All fields of a class. -/
def ClassDecl.entries (c : ClassDecl) : List (Entry ClassDecl) := [
  ⟨"extends", .string c.base, fun d => { d with base := c.base }⟩,
  ⟨"name", .string c.name, fun d => { d with name := c.name }⟩,
  ⟨"properties", .array (c.properties.map Property.toJson),
    fun d => { d with properties := c.properties }⟩]

/-- A class as an object. -/
def ClassDecl.toJson (c : ClassDecl) : Json := .object (c.entries.map Entry.member)

theorem ClassDecl.decode_toJson {c : ClassDecl} (h : ∀ p ∈ c.properties, p.Normalized) :
    decode c.toJson = .ok c := by
  refine Shape.decode_object c.entries ?takes ?keys ?required
  case takes =>
    simp only [entries, List.mem_cons, List.not_mem_nil, or_false, forall_eq_or_imp, forall_eq]
    exact ⟨takes_of_decode rfl rfl (fun _ => rfl) rfl rfl,
      takes_of_decode rfl rfl (fun _ => rfl) rfl rfl,
      takes_of_decode rfl rfl (fun _ => rfl) (Property.decode_list h) rfl⟩
  case keys =>
    show ["extends", "name", "properties"].Pairwise (· < ·)
    decide
  case required => simp [shape, entries, Slot.required, Slot.optional]

/-- All fields of an interface. -/
def InterfaceDecl.entries (i : InterfaceDecl) : List (Entry InterfaceDecl) := [
  ⟨"name", .string i.name, fun d => { d with name := i.name }⟩,
  ⟨"properties", .array (i.properties.map Property.toJson),
    fun d => { d with properties := i.properties }⟩]

/-- An interface as an object. -/
def InterfaceDecl.toJson (i : InterfaceDecl) : Json := .object (i.entries.map Entry.member)

theorem InterfaceDecl.decode_toJson {i : InterfaceDecl} (h : ∀ p ∈ i.properties, p.Normalized) :
    decode i.toJson = .ok i := by
  refine Shape.decode_object i.entries ?takes ?keys ?required
  case takes =>
    simp only [entries, List.mem_cons, List.not_mem_nil, or_false, forall_eq_or_imp, forall_eq]
    exact ⟨takes_of_decode rfl rfl (fun _ => rfl) rfl rfl,
      takes_of_decode rfl rfl (fun _ => rfl) (Property.decode_list h) rfl⟩
  case keys =>
    show ["name", "properties"].Pairwise (· < ·)
    decide
  case required => simp [shape, entries, Slot.required, Slot.optional]

/-- All fields of a member, its value under the first of the two keys. -/
def Member.entries (m : Member) : List (Entry Member) := [
  ⟨"name", .string m.name, fun n => { n with name := m.name }⟩,
  ⟨"type", m.value.toJson, fun n => { n with value := m.value }⟩]

/-- A member as an object. -/
def Member.toJson (m : Member) : Json := .object (m.entries.map Entry.member)

theorem Member.decode_toJson {m : Member} (h : m.value.Normalized) : decode m.toJson = .ok m := by
  have hvalue := MemberValue.decode_toJson h
  refine Shape.decode_object m.entries ?takes ?keys ?required
  case takes =>
    simp only [entries, List.mem_cons, List.not_mem_nil, or_false, forall_eq_or_imp, forall_eq]
    exact ⟨takes_of_decode rfl rfl (fun _ => rfl) rfl rfl,
      takes_of_decode rfl rfl (fun _ => rfl) hvalue rfl⟩
  case keys =>
    show ["name", "type"].Pairwise (· < ·)
    decide
  case required => simp [shape, entries, Slot.required, Slot.optional, Slot.orKey]

/-- The kind is always written, since the name may suggest the other one. -/
def EnumDecl.entries (e : EnumDecl) : List (Entry EnumDraft) := [
  ⟨"kind", .string e.kind.schemaName, fun d => { d with kind := some e.kind }⟩,
  ⟨"name", .string e.name, fun d => { d with name := e.name }⟩,
  ⟨"properties", .array (e.members.map Member.toJson), fun d => { d with members := e.members }⟩]

/-- An enum as an object, with its kind. -/
def EnumDecl.toJson (e : EnumDecl) : Json := .object (e.entries.map Entry.member)

theorem EnumDecl.decode_toJson {e : EnumDecl} (h : ∀ m ∈ e.members, m.value.Normalized) :
    decode e.toJson = .ok e := by
  have hkind : Decode.optional EnumKind.decode (.string e.kind.schemaName) = .ok (some e.kind) := by
    cases e.kind <;> rfl
  have hmembers : Decode.list Member.decode (.array (e.members.map Member.toJson)) =
      .ok e.members :=
    Decode.list_map fun m hm => Member.decode_toJson (h m hm)
  have hdraft : EnumDraft.shape.decode e.toJson = .ok ⟨e.name, some e.kind, e.members⟩ := by
    refine Shape.decode_object e.entries ?takes ?keys ?required
    case takes =>
      simp only [entries, List.mem_cons, List.not_mem_nil, or_false, forall_eq_or_imp, forall_eq]
      exact ⟨takes_of_decode rfl rfl (fun _ => rfl) hkind rfl,
        takes_of_decode rfl rfl (fun _ => rfl) rfl rfl,
        takes_of_decode rfl rfl (fun _ => rfl) hmembers rfl⟩
    case keys =>
      show ["kind", "name", "properties"].Pairwise (· < ·)
      decide
    case required => simp [EnumDraft.shape, entries, Slot.required, Slot.optional, Slot.orKey]
  exact map_eq_ok.mpr ⟨_, hdraft, rfl⟩

end Descriptors

namespace Schema

/-- All fields of a schema. -/
def entries (s : Schema) : List (Entry Schema) := [
  ⟨"classes", .array (s.classes.map ClassDecl.toJson), fun t => { t with classes := s.classes }⟩,
  ⟨"enums", .array (s.enums.map EnumDecl.toJson), fun t => { t with enums := s.enums }⟩,
  ⟨"interfaces", .array (s.interfaces.map InterfaceDecl.toJson),
    fun t => { t with interfaces := s.interfaces }⟩]

/-- **A normalized schema comes back from the object it is written as.** -/
theorem decode_entries {s : Schema} (h : s.Normalized) :
    decode (.object (s.entries.map Entry.member)) = .ok s := by
  have hclasses : Decode.list ClassDecl.decode (.array (s.classes.map ClassDecl.toJson)) =
      .ok s.classes :=
    Decode.list_map fun c hc => ClassDecl.decode_toJson (h.classes c hc)
  have hinterfaces : Decode.list InterfaceDecl.decode
      (.array (s.interfaces.map InterfaceDecl.toJson)) = .ok s.interfaces :=
    Decode.list_map fun i hi => InterfaceDecl.decode_toJson (h.interfaces i hi)
  have henums : Decode.list EnumDecl.decode (.array (s.enums.map EnumDecl.toJson)) =
      .ok s.enums :=
    Decode.list_map fun e he => EnumDecl.decode_toJson (h.enums e he)
  refine Shape.decode_object s.entries ?takes ?keys ?required
  case takes =>
    simp only [entries, List.mem_cons, List.not_mem_nil, or_false, forall_eq_or_imp, forall_eq]
    exact ⟨Shape.takes_of_decode rfl rfl (fun _ => rfl) hclasses rfl,
      Shape.takes_of_decode rfl rfl (fun _ => rfl) henums rfl,
      Shape.takes_of_decode rfl rfl (fun _ => rfl) hinterfaces rfl⟩
  case keys =>
    show ["classes", "enums", "interfaces"].Pairwise (· < ·)
    decide
  case required => simp [shape, Slot.optional]

/-- **Normalized schemas are those that come from JSON**: whatever is loaded
is normalized, and an object decodes to a schema exactly if it is. -/
theorem normalized_iff_decodes (s : Schema) :
    (∀ text, load text = .ok s → s.Normalized) ∧
      (s.Normalized ↔ ∃ members, ofJson (.object members) = .ok s) := by
  refine ⟨fun text h => normalized_of_load h, fun h => ?written, fun h => ?read⟩
  case written => exact ⟨s.entries.map Entry.member, mapError_eq_ok.mpr (decode_entries h)⟩
  case read =>
    obtain ⟨members, h⟩ := h
    exact normalized_of_ofJson h

theorem normalized_iff_decodes_tempo :
    let text := "\x7b\"enums\": [[\"Tempo\", null, [[\"Slow\", 0.5], [\"Off\", \"-0\"]]]]\x7d"
    let s : Schema := { enums := [⟨"Tempo", .constantGroup,
      [⟨"Slow", .float (.finite false (2 ^ 52) 1021 (by decide))⟩, ⟨"Off", .integer 0⟩]⟩] }
    load text = .ok s ∧ s.Normalized ∧ ∃ members, ofJson (.object members) = .ok s := by
  intro text s
  have hload : load text = .ok s := by decide +kernel
  obtain ⟨hloaded, hdecodes⟩ := normalized_iff_decodes s
  have hs : s.Normalized := hloaded text hload
  exact ⟨hload, hs, hdecodes.mp hs⟩

end Schema

end SchemaSharp
