/-
What a document may say in another way.

The members of an object come in any order, and the objects that describe something may
have members that nobody asks for. `Place` tells what is read where in a document: which
objects describe something, which keys are theirs, and what stands under them. One
`Place.Step` changes the order of some members or puts in an extra one, anywhere in a
document, and `Place.Rearranged` relates what any number of steps, there and back, relate.
No step changes what is read at its place, be it a value or an error (`Step.decode_eq`):
the order in which a reader visits members is that of their keys, and the first thing it
trips over is the same. So no rearrangement changes what a document loads as
(`Schema.load_rearranged`).
-/
import Mathlib.Logic.Relation
import SchemaSharp.Proofs.ObjectView
import SchemaSharp.Proofs.Outcome
import SchemaSharp.Schema.Load

namespace SchemaSharp

/-! ## Places -/

/-- What is read somewhere in a document: a description, a list, the kind of an enum, or
something of which the outline is enough. -/
inductive Place
  | schema
  | classDecl
  | interfaceDecl
  | property
  | enumDecl
  | member
  | list (item : Place)
  | kind
  | scalar

/-- The keys of a field, and the place of what stands under them. -/
structure Place.Field where
  keys : List String
  place : Place

namespace Place

/-- The fields of a description, in order of declaration. -/
def fields : Place → List Field
  | schema => [⟨["classes"], list classDecl⟩, ⟨["interfaces"], list interfaceDecl⟩,
      ⟨["enums"], list enumDecl⟩]
  | classDecl => [⟨["name"], scalar⟩, ⟨["extends"], scalar⟩, ⟨["properties"], list property⟩]
  | interfaceDecl => [⟨["name"], scalar⟩, ⟨["properties"], list property⟩]
  | property => [⟨["name"], scalar⟩, ⟨["index"], scalar⟩, ⟨["type"], scalar⟩,
      ⟨["childType"], scalar⟩, ⟨["enumType"], scalar⟩, ⟨["deprecated"], scalar⟩]
  | enumDecl => [⟨["name"], scalar⟩, ⟨["kind"], kind⟩, ⟨["properties", "members"], list member⟩]
  | member => [⟨["name"], scalar⟩, ⟨["type", "value"], scalar⟩]
  | list _ | kind | scalar => []

/-- The field of a key. -/
def field? (p : Place) (key : String) : Option Field := p.fields.find? fun f => key ∈ f.keys

/-- The place of a member's value. -/
def under (p : Place) (key : String) : Place :=
  match p.field? key with
  | some f => f.place
  | none => scalar

/-- The place of an array's item. A description may be an array as well, of its fields in
order. -/
def item : Place → Nat → Place
  | list item, _ => item
  | p, i => match p.fields[i]? with
    | some f => f.place
    | none => scalar

/-- Whether members with this key are extra. Descriptions have such members, other objects
have none. -/
def ignores (p : Place) (key : String) : Bool := !p.fields.isEmpty && (p.field? key).isNone

/-- One change: the members of an object that repeats no key change places, an extra member
is put in, or there is a change further down. -/
inductive Step : Place → Json → Json → Prop
  | order {p members members'} (hn : (members.map Prod.fst).Nodup) (hp : members.Perm members') :
      Step p (.object members) (.object members')
  | extra {p} (before : List (String × Json)) (key : String) (value : Json) {after}
      (hk : p.ignores key = true) :
      Step p (.object (before ++ after)) (.object (before ++ (key, value) :: after))
  | inMember {p} (before : List (String × Json)) {key value value' after}
      (h : Step (p.under key) value value') :
      Step p (.object (before ++ (key, value) :: after))
        (.object (before ++ (key, value') :: after))
  | inItem {p} (before : List Json) {j j' after} (h : Step (p.item before.length) j j') :
      Step p (.array (before ++ j :: after)) (.array (before ++ j' :: after))

/-- Documents that differ only in the order of members and in extra members. -/
def Rearranged (p : Place) : Json → Json → Prop := Relation.EqvGen p.Step

/-! ## Readers -/

/-- What the reader of a place gives. -/
def Value : Place → Type
  | schema => Schema
  | classDecl => ClassDecl
  | interfaceDecl => InterfaceDecl
  | property => Property
  | enumDecl => EnumDecl
  | member => Member
  | list item => List item.Value
  | kind => Option EnumKind
  | scalar => Outline

/-- The reader of a place. -/
def decode : (p : Place) → Json → Except DataError p.Value
  | schema => Schema.decode
  | classDecl => ClassDecl.decode
  | interfaceDecl => InterfaceDecl.decode
  | property => Property.decode
  | enumDecl => EnumDecl.decode
  | member => Member.decode
  | list item => Decode.list item.decode
  | kind => Decode.optional EnumKind.decode
  | scalar => fun j => .ok (.ofJson j)

theorem item_of_field {p : Place} {i : Nat} {f : Field} (h : p.fields[i]? = some f) :
    p.item i = f.place := by
  cases p with
  | list _ => cases h
  | _ =>
    rw [item, h]
    nofun

end Place

/-- Trees with the same outline are equal, or both arrays, or both objects. -/
theorem Outline.ofJson_cases {j j' : Json} (h : ofJson j = ofJson j') :
    j = j' ∨ (∃ js js', j = .array js ∧ j' = .array js') ∨
      ∃ members members', j = .object members ∧ j' = .object members' := by
  cases j with
  | array js =>
    cases j' with
    | array js' => exact .inr (.inl ⟨js, js', rfl, rfl⟩)
    | number n => cases n <;> cases h
    | _ => cases h
  | object members =>
    cases j' with
    | object members' => exact .inr (.inr ⟨members, members', rfl, rfl⟩)
    | number n => cases n <;> cases h
    | _ => cases h
  | number n =>
    refine .inl ?_
    cases j' with
    | number n' => cases n <;> cases n' <;> cases h <;> rfl
    | _ => cases n <;> cases h
  | _ =>
    refine .inl ?_
    cases j' with
    | number n => cases n <;> cases h
    | _ => cases h <;> rfl

/-- A reader that does not look into arrays and objects. -/
def Shallow {β : Type} (read : Json → Except DataError β) : Prop :=
  (∀ js js', read (.array js) = read (.array js')) ∧
    ∀ members members', read (.object members) = read (.object members')

theorem Shallow.read_eq {β : Type} {read : Json → Except DataError β} (h : Shallow read)
    {j j' : Json} (ho : Outline.ofJson j = Outline.ofJson j') : read j = read j' := by
  rcases Outline.ofJson_cases ho with rfl | ⟨js, js', rfl, rfl⟩ | ⟨members, members', rfl, rfl⟩
  · rfl
  · exact h.1 js js'
  · exact h.2 members members'

/-! ## Records -/

namespace Slot

variable {α β : Type} {slot : Slot α} {keys : List String}

/-- A slot stands for a field: it has the same keys, and makes no difference where the
reader of the field's place makes none. -/
structure Fits (slot : Slot α) (f : Place.Field) : Prop where
  keys : f.keys = slot.key :: slot.otherKey.toList
  read_eq : ∀ {j j'}, f.place.decode j = f.place.decode j' → slot.read j = slot.read j'

theorem fits_of_decode {p : Place} {set : p.Value → α → α}
    (hk : keys = slot.key :: slot.otherKey.toList)
    (hr : ∀ j, slot.read j = (p.decode j).map set) : slot.Fits ⟨keys, p⟩ :=
  ⟨hk, fun h => by rw [hr, hr, h]⟩

theorem fits_of_shallow {decode : Json → Except DataError β} {set : β → α → α}
    (hk : keys = slot.key :: slot.otherKey.toList)
    (hr : ∀ j, slot.read j = (decode j).map set) (hs : Shallow decode) :
    slot.Fits ⟨keys, .scalar⟩ :=
  ⟨hk, fun h => by rw [hr, hr, hs.read_eq (Except.ok.inj h)]⟩

theorem Fits.spelled_eq {f : Place.Field} (h : slot.Fits f) (key : String) :
    slot.spelled key = decide (key ∈ f.keys) := by
  rw [Bool.eq_iff_iff, decide_eq_true_iff, h.keys, spelled, Bool.or_eq_true, decide_eq_true_iff,
    decide_eq_true_iff, List.mem_cons, Option.mem_toList, eq_comm]

theorem find?_of_forall₂ {R : Slot α → Place.Field → Prop} (hR : ∀ {s f}, R s f → s.Fits f)
    {slots : List (Slot α)} {fields : List Place.Field} (h : List.Forall₂ R slots fields)
    {key : String} (hf : slots.find? (·.spelled key) = some slot) :
    ∃ f, fields.find? (fun f => key ∈ f.keys) = some f ∧ R slot f := by
  induction h with
  | nil => cases hf
  | @cons _ f _ _ hrel _ ih =>
    rw [List.find?_cons, (hR hrel).spelled_eq] at hf
    rw [List.find?_cons]
    cases hd : decide (key ∈ f.keys) with
    | true =>
      rw [hd] at hf
      cases hf
      exact ⟨f, rfl, hrel⟩
    | false =>
      rw [hd] at hf
      exact ih hf

end Slot

namespace Shape

variable {α : Type} {shape : Shape α} {p : Place}

/-- The fields of a place are the slots of a record. -/
def Describes (shape : Shape α) (p : Place) : Prop := List.Forall₂ Slot.Fits shape.slots p.fields

/-- An object is read by what its members, the extra ones apart, are read as. -/
theorem Describes.decode_object (h : shape.Describes p) {members members' : List (String × Json)}
    (hm : ∀ key, p.ignores key = false → (Json.last? key members).map (p.under key).decode =
      (Json.last? key members').map (p.under key).decode) :
    shape.decode (.object members) = shape.decode (.object members') := by
  refine decode_object_congr_read fun key slot hslot => ?_
  obtain ⟨f, hf, hfit⟩ := Slot.find?_of_forall₂ id h hslot
  have hfield : p.field? key = some f := hf
  have hunder : p.under key = f.place := by rw [Place.under, hfield]
  have hkey := hm key (by simp [Place.ignores, hfield])
  rw [hunder] at hkey
  cases hv : Json.last? key members with
  | none =>
    rw [hv, Option.map_none, eq_comm, Option.map_eq_none_iff] at hkey
    rw [hkey]
  | some value =>
    rw [hv, Option.map_some, eq_comm, Option.map_eq_some_iff] at hkey
    obtain ⟨value', hv', hvalue⟩ := hkey
    rw [hv', Option.map_some, Option.map_some, hfit.read_eq hvalue]

theorem fill_replace {length position : Nat} {a : α} {slots : List (Slot α)}
    {before after : List Json} {j j' : Json}
    (h : ∀ slot, slots[before.length]? = some slot → slot.read j = slot.read j') :
    shape.fill length position a slots (before ++ j :: after) =
      shape.fill length position a slots (before ++ j' :: after) := by
  induction before generalizing position a slots with
  | nil =>
    cases slots with
    | nil => rfl
    | cons slot slots =>
      have hread : slot.read j = slot.read j' := h slot rfl
      simp only [List.nil_append, fill, hread]
  | cons i before ih =>
    cases slots with
    | nil => rfl
    | cons slot slots =>
      have hrest : ∀ slot', slots[before.length]? = some slot' → slot'.read j = slot'.read j' :=
        fun slot' hs => h slot' (by simpa using hs)
      simp only [List.cons_append, fill, ih hrest]

/-- An array is read by what its items are read as. -/
theorem Describes.decode_array (h : shape.Describes p) {before after : List Json} {j j' : Json}
    (hi : (p.item before.length).decode j = (p.item before.length).decode j') :
    shape.decode (.array (before ++ j :: after)) =
      shape.decode (.array (before ++ j' :: after)) := by
  have hlength : (before ++ j :: after).length = (before ++ j' :: after).length := by simp
  rw [decode, decode, ofArray, ofArray, hlength]
  refine fill_replace fun slot hslot => ?_
  obtain ⟨f, hf⟩ : ∃ f, p.fields[before.length]? = some f := by
    obtain ⟨hlt, _⟩ := List.getElem?_eq_some_iff.mp hslot
    exact ⟨_, List.getElem?_eq_getElem (h.length_eq ▸ hlt)⟩
  rw [Place.item_of_field hf] at hi
  exact (forall₂_getElem? h hslot hf).read_eq hi

end Shape

theorem Decode.items_replace {β : Type} {decode : Json → Except DataError β}
    {before after : List Json} {j j' : Json} (h : decode j = decode j') :
    items decode (before ++ j :: after) = items decode (before ++ j' :: after) := by
  induction before with
  | nil => simp only [List.nil_append, items, h]
  | cons i before ih => simp only [List.cons_append, items, ih]

/-- Of an object that stands for a kind, the keys and the outlines of their values count. -/
theorem EnumKind.decode_object_congr {members members' : List (String × Json)}
    (h : ∀ key, (Json.last? key members).map Place.scalar.decode =
      (Json.last? key members').map Place.scalar.decode) :
    decode (.object members) = decode (.object members') := by
  have hmembers := Json.map_view_byKey (fun _ => true) fun key _ => h key
  simp only [List.filter_true] at hmembers
  rw [decode, decode]
  generalize Json.byKey members = sorted, Json.byKey members' = sorted' at hmembers
  have hlength : sorted.length = sorted'.length := by
    simpa using congrArg List.length hmembers
  match sorted, sorted', hlength with
  | [], [], _ => rfl
  | [m], [n], _ =>
    obtain ⟨key, value⟩ := m
    obtain ⟨key', value'⟩ := n
    simp only [List.map_cons, List.map_nil, List.cons.injEq, Prod.mk.injEq, and_true] at hmembers
    obtain ⟨rfl, hvalue⟩ := hmembers
    have houtline : Outline.ofJson value = Outline.ofJson value' := Except.ok.inj hvalue
    rcases Outline.ofJson_cases houtline with rfl | ⟨js, js', rfl, rfl⟩ | ⟨ms, ms', rfl, rfl⟩
    · rfl
    · rfl
    · rfl
  | _ :: _ :: _, _ :: _ :: _, _ => rfl

/-! ## Descriptions -/

section Descriptions

open Slot

theorem Decode.shallow_string : Shallow Decode.string := ⟨fun _ _ => rfl, fun _ _ => rfl⟩

theorem Property.describes : Property.shape.Describes .property :=
  .cons (fits_of_shallow rfl (fun _ => rfl) Decode.shallow_string) <|
  .cons (fits_of_shallow rfl (fun _ => rfl) ⟨fun _ _ => rfl, fun _ _ => rfl⟩) <|
  .cons (fits_of_shallow rfl (fun _ => rfl) Decode.shallow_string) <|
  .cons (fits_of_shallow rfl (fun _ => rfl) ⟨fun _ _ => rfl, fun _ _ => rfl⟩) <|
  .cons (fits_of_shallow rfl (fun _ => rfl) ⟨fun _ _ => rfl, fun _ _ => rfl⟩) <|
  .cons (fits_of_shallow rfl (fun _ => rfl) ⟨fun _ _ => rfl, fun _ _ => rfl⟩) .nil

theorem ClassDecl.describes : ClassDecl.shape.Describes .classDecl :=
  .cons (fits_of_shallow rfl (fun _ => rfl) Decode.shallow_string) <|
  .cons (fits_of_shallow rfl (fun _ => rfl) Decode.shallow_string) <|
  .cons (fits_of_decode rfl fun _ => rfl) .nil

theorem InterfaceDecl.describes : InterfaceDecl.shape.Describes .interfaceDecl :=
  .cons (fits_of_shallow rfl (fun _ => rfl) Decode.shallow_string) <|
  .cons (fits_of_decode rfl fun _ => rfl) .nil

theorem Member.describes : Member.shape.Describes .member :=
  .cons (fits_of_shallow rfl (fun _ => rfl) Decode.shallow_string) <|
  .cons (fits_of_shallow rfl (fun _ => rfl) ⟨fun _ _ => rfl, fun _ _ => rfl⟩) .nil

theorem EnumDraft.describes : EnumDraft.shape.Describes .enumDecl :=
  .cons (fits_of_shallow rfl (fun _ => rfl) Decode.shallow_string) <|
  .cons (fits_of_decode rfl fun _ => rfl) <|
  .cons (fits_of_decode rfl fun _ => rfl) .nil

theorem Schema.describes : Schema.shape.Describes .schema :=
  .cons (fits_of_decode rfl fun _ => rfl) <|
  .cons (fits_of_decode rfl fun _ => rfl) <|
  .cons (fits_of_decode rfl fun _ => rfl) .nil

end Descriptions

namespace Place

variable {p : Place}

theorem decode_object_congr {members members' : List (String × Json)}
    (h : ∀ key, p.ignores key = false → (Json.last? key members).map (p.under key).decode =
      (Json.last? key members').map (p.under key).decode) :
    p.decode (.object members) = p.decode (.object members') := by
  cases p with
  | schema => exact Schema.describes.decode_object h
  | classDecl => exact ClassDecl.describes.decode_object h
  | interfaceDecl => exact InterfaceDecl.describes.decode_object h
  | property => exact Property.describes.decode_object h
  | enumDecl => exact congrArg (Except.map EnumDraft.toDecl) (EnumDraft.describes.decode_object h)
  | member => exact Member.describes.decode_object h
  | kind =>
    exact congrArg (Except.map some) (EnumKind.decode_object_congr fun key => h key rfl)
  | list _ | scalar => rfl

theorem decode_array_congr {before after : List Json} {j j' : Json}
    (h : (p.item before.length).decode j = (p.item before.length).decode j') :
    p.decode (.array (before ++ j :: after)) = p.decode (.array (before ++ j' :: after)) := by
  cases p with
  | schema => exact Schema.describes.decode_array h
  | classDecl => exact ClassDecl.describes.decode_array h
  | interfaceDecl => exact InterfaceDecl.describes.decode_array h
  | property => exact Property.describes.decode_array h
  | enumDecl => exact congrArg (Except.map EnumDraft.toDecl) (EnumDraft.describes.decode_array h)
  | member => exact Member.describes.decode_array h
  | list item => exact Decode.items_replace h
  | kind | scalar => rfl

/-- **No step changes what is read at its place.** -/
theorem Step.decode_eq {j j' : Json} (h : p.Step j j') : p.decode j = p.decode j' := by
  induction h with
  | order hn hp => exact decode_object_congr fun key _ => by rw [Json.last?_perm hn hp]
  | @extra p _ key _ _ hk =>
    refine decode_object_congr fun key' hk' => ?_
    have hne : key' ≠ key := by
      rintro rfl
      rw [hk] at hk'
      cases hk'
    rw [Json.last?_insert hne]
  | inMember _ _ ih =>
    refine decode_object_congr fun key' _ => Json.map_last?_replace ?_
    rintro rfl
    exact ih
  | inItem _ _ ih => exact decode_array_congr ih

end Place

/-! ## Documents -/

namespace Schema

theorem ofJson_eq_of_step {j j' : Json} (h : Place.schema.Step j j') : ofJson j = ofJson j' := by
  have hdecode : decode j = decode j' := h.decode_eq
  cases h with
  | inItem before h => rfl
  | order hn hp => rw [ofJson, ofJson, hdecode]
  | extra before key value hk => rw [ofJson, ofJson, hdecode]
  | inMember before h => rw [ofJson, ofJson, hdecode]

theorem ofJson_eq_of_rearranged {j j' : Json} (h : Place.schema.Rearranged j j') :
    ofJson j = ofJson j' := by
  induction h with
  | rel _ _ hs => exact ofJson_eq_of_step hs
  | refl => rfl
  | symm _ _ _ ih => exact ih.symm
  | trans _ _ _ _ _ ih ih' => exact ih.trans ih'

/-- **Documents that differ only in the order of members and in extra members load
alike**: as the same schema, or with the same error. -/
theorem load_rearranged {text text' : String} {j j' : Json} (h : Json.read? text = some j)
    (h' : Json.read? text' = some j') (hr : Place.schema.Rearranged j j') :
    load text = load text' := by
  rw [load, load, h, h']
  exact ofJson_eq_of_rearranged hr

/-- The name is no text, and neither is the base. -/
def orbText : String := "\x7b\"classes\": [\x7b\"name\": [], \"extends\": null\x7d]\x7d"

/-- The same class with extra members and in another order. -/
def notedOrbText : String :=
  "\x7b\"note\": [true], \"classes\": " ++
    "[\x7b\"color\": \x7b\x7d, \"extends\": null, \"name\": []\x7d]\x7d"

/-- A class with two faults, of which either comes first in one of the documents. -/
theorem load_rearranged_orb :
    load orbText = load notedOrbText ∧ (load notedOrbText).mapError LoadError.message =
      .error "JSON parsing error: invalid type: null, expected a string" := by
  let name : String × Json := ("name", .array [])
  let base : String × Json := ("extends", .null)
  let note : String × Json := ("note", .array [.bool true])
  have hread : Json.read? orbText =
      some (.object [("classes", .array [.object [name, base]])]) := by
    cbv
  have hread' : Json.read? notedOrbText = some (.object [note, ("classes", .array [
      .object [("color", .object []), base, name]])]) := by
    cbv
  refine ⟨load_rearranged hread hread' ?_, by decide +kernel⟩
  refine .trans _ _ _ (.rel _ _ (.inMember [] (.inItem [] (.order (by decide) (.swap ..))))) ?_
  refine .trans _ _ _ (.rel _ _ (.inMember [] (.inItem [] (.extra [] "color" (.object []) rfl)))) ?_
  exact .rel _ _ (.extra [] "note" _ rfl)

end Schema

end SchemaSharp
