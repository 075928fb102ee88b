/-
Descriptions in their spellings.

A description is an object with the keys of its fields, of which some have a second one,
or the array of what stands under them. One `Place.Respelling` writes an object as an
array, anywhere in a document, and `Place.Respelled` relates what any number of them, there
and back, relate: two objects with different keys for a field as well, by way of the array.
Whatever the spelling, a document is read as the same thing or not at all
(`Place.decode_respelled`). Errors may differ, since the fields of an object are read in
the order of their keys.
-/
import SchemaSharp.Proofs.MemberOrder
import SchemaSharp.Proofs.RecordChanges

namespace SchemaSharp

/-! ## Respellings -/

namespace Place

/-- An object has the items of an array under the keys of their fields: each under one of
them, with nothing under the other. -/
def Spells (p : Place) (members : List (String × Json)) (js : List Json) : Prop :=
  List.Forall₂ (fun f j => ∃ key ∈ f.keys, ∀ k ∈ f.keys,
    Json.last? k members = if k = key then some j else none) p.fields js

/-- One change: an object that has every field of a description is written as an array, or
there is a change further down. -/
inductive Respelling : Place → Json → Json → Prop
  | array {p members js} (hp : p.fields ≠ []) (h : p.Spells members js) :
      Respelling p (.object members) (.array js)
  | inMember {p} (before : List (String × Json)) {key value value' after}
      (h : Respelling (p.under key) value value') :
      Respelling p (.object (before ++ (key, value) :: after))
        (.object (before ++ (key, value') :: after))
  | inItem {p} (before : List Json) {j j' after} (h : Respelling (p.item before.length) j j') :
      Respelling p (.array (before ++ j :: after)) (.array (before ++ j' :: after))

/-- Documents that differ only in the spellings of descriptions. -/
def Respelled (p : Place) : Json → Json → Prop := Relation.EqvGen p.Respelling

variable {p : Place}

theorem not_respelling_scalar {j j' : Json} : ¬scalar.Respelling j j' := by
  intro h
  generalize hp : scalar = p at h
  induction h with
  | array hfields => exact hfields (by rw [← hp]; rfl)
  | inMember _ _ ih => exact ih (by rw [← hp]; rfl)
  | inItem _ _ ih => exact ih (by rw [← hp]; rfl)

/-! ## Keys of fields -/

theorem nodup_keys (p : Place) : (p.fields.flatMap (·.keys)).Nodup := by
  cases p with
  | list _ => exact .nil
  | _ => decide

theorem eq_of_mem_keys {f g : Field} (hf : f ∈ p.fields) (hg : g ∈ p.fields) {key : String}
    (hkf : key ∈ f.keys) (hkg : key ∈ g.keys) : f = g := by
  by_contra hne
  have hsymm : Std.Symm (Function.onFun List.Disjoint Field.keys) :=
    ⟨fun _ _ h _ hk hk' => h hk' hk⟩
  exact (List.nodup_flatMap.mp p.nodup_keys).2.forall hf hg hne hkf hkg

section Names

/- One of the keys of each field. -/
variable {name : Field → String} (hname : ∀ f ∈ p.fields, name f ∈ f.keys)

include hname

theorem nodup_names : (p.fields.map name).Nodup := by
  have hapart := (List.nodup_flatMap.mp p.nodup_keys).2
  refine List.pairwise_map.mpr (hapart.imp_of_mem fun hf hg hdisjoint heq => ?_)
  exact hdisjoint (hname _ hf) (heq ▸ hname _ hg)

theorem spells_zip {js : List Json} (hlength : p.fields.length = js.length) :
    p.Spells ((p.fields.map name).zip js) js := by
  have hkeys : ((p.fields.map name).zip js).map Prod.fst = p.fields.map name :=
    List.map_fst_zip (by rw [List.length_map]; exact Nat.le_of_eq hlength)
  have hlast {key : String} {value : Json} :
      Json.last? key ((p.fields.map name).zip js) = some value ↔
        ∃ f, (f, value) ∈ p.fields.zip js ∧ name f = key := by
    rw [Json.last?_eq_some_iff (by rw [hkeys]; exact nodup_names hname), List.zip_map_left]
    simp
  refine List.forall₂_iff_zip.mpr ⟨hlength, fun {f j} hzip => ?_⟩
  have hf := (List.of_mem_zip hzip).1
  refine ⟨name f, hname f hf, fun k hk => ?_⟩
  by_cases heq : k = name f
  · rw [if_pos heq, hlast]
    exact ⟨f, hzip, heq.symm⟩
  · rw [if_neg heq, Option.eq_none_iff_forall_ne_some]
    intro value hvalue
    obtain ⟨g, hg, rfl⟩ := hlast.mp hvalue
    have hg' := (List.of_mem_zip hg).1
    exact heq (congrArg name (eq_of_mem_keys hg' hf (hname g hg') hk))

end Names

end Place

/-! ## Records -/

/-- What the field's place does not read, the slot does not read. -/
def Slot.Fails {α : Type} (slot : Slot α) (f : Place.Field) : Prop :=
  ∀ {j e}, f.place.decode j = .error e → (slot.read j).toOption = none

namespace Slot

variable {α β : Type} {slot : Slot α} {keys : List String}

theorem fails_of_decode {p : Place} {set : p.Value → α → α}
    (hr : ∀ j, slot.read j = (p.decode j).map set) : slot.Fails ⟨keys, p⟩ := fun h => by
  rw [hr, h]
  rfl

theorem fails_scalar : slot.Fails ⟨keys, .scalar⟩ := fun h => by cases h

theorem give_eq {f : Place.Field} (hfit : slot.Fits f) (hfail : slot.Fails f) {j j' : Json}
    (h : (f.place.decode j).toOption = (f.place.decode j').toOption) :
    slot.give j = slot.give j' := by
  cases hj : f.place.decode j with
  | ok a =>
    have hj' : f.place.decode j' = .ok a := toOption_eq_some.mp (by rw [← h, hj]; rfl)
    rw [give, give, hfit.read_eq (hj.trans hj'.symm)]
  | error e =>
    cases hj' : f.place.decode j' with
    | ok a =>
      rw [hj, hj'] at h
      cases h
    | error e' => rw [give, give, hfail hj, hfail hj']

theorem commutes_of_set {γ : Type} {slot slot' : Slot α} {decode : Json → Except DataError β}
    {decode' : Json → Except DataError γ} {set : β → α → α} {set' : γ → α → α}
    (hr : ∀ j, slot.read j = (decode j).map set) (hr' : ∀ j, slot'.read j = (decode' j).map set')
    (h : ∀ b c a, set b (set' c a) = set' c (set b a)) : slot.Commutes slot' := by
  intro j k c d hc hd a
  obtain ⟨b, _, rfl⟩ := map_eq_ok.mp ((hr j).symm.trans (toOption_eq_some.mp hc))
  obtain ⟨b', _, rfl⟩ := map_eq_ok.mp ((hr' k).symm.trans (toOption_eq_some.mp hd))
  exact h b b' a

end Slot

/-- The fields of a place are the slots of a record, which can be read in any order. -/
structure Shape.Models {α : Type} (shape : Shape α) (p : Place) : Prop where
  describes : shape.Describes p
  fails : List.Forall₂ Slot.Fails shape.slots p.fields
  commutes : shape.slots.Pairwise Slot.Commutes

namespace Shape

variable {α : Type} {shape : Shape α} {p : Place}

theorem Models.nodup_keys (h : shape.Models p) : (shape.slots.flatMap Slot.keys).Nodup := by
  have hkeys : shape.slots.map Slot.keys = p.fields.map (·.keys) := by
    rw [← List.forall₂_eq_eq_eq, List.forall₂_map_left_iff, List.forall₂_map_right_iff]
    exact h.describes.imp fun _ _ hfit => hfit.keys.symm
  rw [List.flatMap_def, hkeys, ← List.flatMap_def]
  exact p.nodup_keys

theorem Models.fits (h : shape.Models p) :
    List.Forall₂ (fun slot f => slot.Fits f ∧ slot.Fails f) shape.slots p.fields := by
  obtain ⟨hlength, hfits⟩ := List.forall₂_iff_zip.mp h.describes
  exact List.forall₂_iff_zip.mpr
    ⟨hlength, fun hm => ⟨hfits hm, (List.forall₂_iff_zip.mp h.fails).2 hm⟩⟩

/-- An object is read by what its members are read as, if they are read. -/
theorem Models.decode_object (h : shape.Models p) {members members' : List (String × Json)}
    (hm : ∀ key, (Json.last? key members).map (fun j => ((p.under key).decode j).toOption) =
      (Json.last? key members').map fun j => ((p.under key).decode j).toOption) :
    (shape.decode (.object members)).toOption = (shape.decode (.object members')).toOption := by
  refine decode_object_agree fun key slot hslot => ?_
  obtain ⟨f, hf, hfit, hfail⟩ := Slot.find?_of_forall₂ And.left h.fits hslot
  have hfield : p.field? key = some f := hf
  have hunder : p.under key = f.place := by rw [Place.under, hfield]
  have hkey := hm key
  rw [hunder] at hkey
  cases hv : Json.last? key members with
  | none =>
    rw [hv, Option.map_none, eq_comm, Option.map_eq_none_iff] at hkey
    rw [hkey]
  | some value =>
    rw [hv, Option.map_some, eq_comm, Option.map_eq_some_iff] at hkey
    obtain ⟨value', hv', hvalue⟩ := hkey
    rw [hv', Option.map_some, Option.map_some, Slot.give_eq hfit hfail hvalue]

theorem Models.decode_array (h : shape.Models p) {before after : List Json} {j j' : Json}
    (hi : ((p.item before.length).decode j).toOption =
      ((p.item before.length).decode j').toOption) :
    (shape.decode (.array (before ++ j :: after))).toOption =
      (shape.decode (.array (before ++ j' :: after))).toOption := by
  refine decode_array_agree fun slot hslot => ?_
  obtain ⟨f, hf⟩ : ∃ f, p.fields[before.length]? = some f := by
    obtain ⟨hlt, _⟩ := List.getElem?_eq_some_iff.mp hslot
    exact ⟨_, List.getElem?_eq_getElem (h.describes.length_eq ▸ hlt)⟩
  rw [Place.item_of_field hf] at hi
  obtain ⟨hfit, hfail⟩ := forall₂_getElem? h.fits hslot hf
  exact Slot.give_eq hfit hfail hi

/-- An object is read as the array that it spells. -/
theorem Models.decode_spelled (h : shape.Models p) {members : List (String × Json)}
    {js : List Json} (hs : p.Spells members js) :
    (shape.decode (.object members)).toOption = (shape.decode (.array js)).toOption := by
  refine decode_object_eq_array h.nodup_keys h.commutes ?_
  refine (forall₂_join h.describes hs.flip).imp fun slot j hslot => ?_
  obtain ⟨f, hfit, hstands⟩ := hslot
  rw [hfit.keys] at hstands
  exact hstands

/-- An object with two keys of one field is refused. -/
theorem Models.decode_repeated (h : shape.Models p) {f : Place.Field} (hf : f ∈ p.fields)
    {key key' : String} (hk : key ∈ f.keys) (hk' : key' ∈ f.keys) (hne : key ≠ key')
    {members : List (String × Json)} {value value' : Json}
    (hv : Json.last? key members = some value) (hv' : Json.last? key' members = some value') :
    ∃ e, shape.decode (.object members) = .error e := by
  have hfields : List.Forall₂ (fun f slot => slot.Fits f) p.fields shape.slots := h.describes.flip
  obtain ⟨slot, hzip, hfit⟩ := forall₂_exists_of_mem hfields hf
  rw [hfit.keys] at hk hk'
  exact decode_object_of_repeated h.nodup_keys (List.of_mem_zip hzip).2 hk hk' hne hv hv'

end Shape

section Descriptions

open Slot

theorem Property.models : Property.shape.Models .property where
  describes := Property.describes
  fails := .cons fails_scalar <| .cons fails_scalar <| .cons fails_scalar <| .cons fails_scalar <|
    .cons fails_scalar <| .cons fails_scalar .nil
  commutes := by
    simp only [Property.shape, List.pairwise_cons, List.forall_mem_cons, List.not_mem_nil,
      false_imp_iff, implies_true, List.Pairwise.nil, and_true]
    and_intros
    all_goals exact commutes_of_set (fun _ => rfl) (fun _ => rfl) fun _ _ _ => rfl

theorem ClassDecl.models : ClassDecl.shape.Models .classDecl where
  describes := ClassDecl.describes
  fails := .cons fails_scalar <| .cons fails_scalar <| .cons (fails_of_decode fun _ => rfl) .nil
  commutes := by
    simp only [ClassDecl.shape, List.pairwise_cons, List.forall_mem_cons, List.not_mem_nil,
      false_imp_iff, implies_true, List.Pairwise.nil, and_true]
    and_intros
    all_goals exact commutes_of_set (fun _ => rfl) (fun _ => rfl) fun _ _ _ => rfl

theorem InterfaceDecl.models : InterfaceDecl.shape.Models .interfaceDecl where
  describes := InterfaceDecl.describes
  fails := .cons fails_scalar <| .cons (fails_of_decode fun _ => rfl) .nil
  commutes := by
    simp only [InterfaceDecl.shape, List.pairwise_cons, List.forall_mem_cons, List.not_mem_nil,
      false_imp_iff, implies_true, List.Pairwise.nil, and_true]
    exact commutes_of_set (fun _ => rfl) (fun _ => rfl) fun _ _ _ => rfl

theorem Member.models : Member.shape.Models .member where
  describes := Member.describes
  fails := .cons fails_scalar <| .cons fails_scalar .nil
  commutes := by
    simp only [Member.shape, List.pairwise_cons, List.forall_mem_cons, List.not_mem_nil,
      false_imp_iff, implies_true, List.Pairwise.nil, and_true]
    exact commutes_of_set (fun _ => rfl) (fun _ => rfl) fun _ _ _ => rfl

theorem EnumDraft.models : EnumDraft.shape.Models .enumDecl where
  describes := EnumDraft.describes
  fails := .cons fails_scalar <| .cons (fails_of_decode fun _ => rfl) <|
    .cons (fails_of_decode fun _ => rfl) .nil
  commutes := by
    simp only [EnumDraft.shape, List.pairwise_cons, List.forall_mem_cons, List.not_mem_nil,
      false_imp_iff, implies_true, List.Pairwise.nil, and_true]
    and_intros
    all_goals exact commutes_of_set (fun _ => rfl) (fun _ => rfl) fun _ _ _ => rfl

theorem Schema.models : Schema.shape.Models .schema where
  describes := Schema.describes
  fails := .cons (fails_of_decode fun _ => rfl) <| .cons (fails_of_decode fun _ => rfl) <|
    .cons (fails_of_decode fun _ => rfl) .nil
  commutes := by
    simp only [Schema.shape, List.pairwise_cons, List.forall_mem_cons, List.not_mem_nil,
      false_imp_iff, implies_true, List.Pairwise.nil, and_true]
    and_intros
    all_goals exact commutes_of_set (fun _ => rfl) (fun _ => rfl) fun _ _ _ => rfl

end Descriptions

/-! ## Documents -/

theorem Decode.items_agree {β : Type} {decode : Json → Except DataError β}
    {before after : List Json} {j j' : Json} (h : (decode j).toOption = (decode j').toOption) :
    (items decode (before ++ j :: after)).toOption =
      (items decode (before ++ j' :: after)).toOption := by
  induction before with
  | nil => simp only [List.nil_append, items, toOption_bind, h]
  | cons i before ih => simp only [List.cons_append, items, toOption_bind, toOption_map, ih]

namespace Place

variable {p : Place}

theorem exists_shape (hp : p.fields ≠ []) : ∃ (α : Type) (shape : Shape α) (of : α → p.Value),
    shape.Models p ∧ ∀ j, p.decode j = (shape.decode j).map of := by
  have same : ∀ {β : Type} (x : Except DataError β), x = x.map id := fun x => by cases x <;> rfl
  cases p with
  | schema => exact ⟨_, _, id, Schema.models, fun _ => same _⟩
  | classDecl => exact ⟨_, _, id, ClassDecl.models, fun _ => same _⟩
  | interfaceDecl => exact ⟨_, _, id, InterfaceDecl.models, fun _ => same _⟩
  | property => exact ⟨_, _, id, Property.models, fun _ => same _⟩
  | enumDecl => exact ⟨_, _, EnumDraft.toDecl, EnumDraft.models, fun _ => rfl⟩
  | member => exact ⟨_, _, id, Member.models, fun _ => same _⟩
  | list _ | kind | scalar => exact absurd rfl hp

/-- **No respelling changes what is read at its place.** -/
theorem Respelling.decode_eq {j j' : Json} (h : p.Respelling j j') :
    (p.decode j).toOption = (p.decode j').toOption := by
  induction h with
  | array hp hs =>
    obtain ⟨α, shape, of, hmodels, hdecode⟩ := exists_shape hp
    rw [hdecode, hdecode, toOption_map, toOption_map, hmodels.decode_spelled hs]
  | @inMember p before key value value' after h ih =>
    by_cases hp : p.fields = []
    · have hunder : p.under key = scalar := by rw [under, field?, hp]; rfl
      exact absurd (hunder ▸ h) not_respelling_scalar
    · obtain ⟨α, shape, of, hmodels, hdecode⟩ := exists_shape hp
      rw [hdecode, hdecode, toOption_map, toOption_map, hmodels.decode_object fun key' => ?_]
      refine Json.map_last?_replace ?_
      rintro rfl
      exact ih
  | @inItem p before j j' after h ih =>
    by_cases hp : p.fields = []
    · cases p with
      | list _ => exact Decode.items_agree ih
      | kind | scalar => exact absurd h not_respelling_scalar
      | _ => cases hp
    · obtain ⟨α, shape, of, hmodels, hdecode⟩ := exists_shape hp
      rw [hdecode, hdecode, toOption_map, toOption_map, hmodels.decode_array ih]

theorem Respelled.decode_eq {j j' : Json} (h : p.Respelled j j') :
    (p.decode j).toOption = (p.decode j').toOption := by
  induction h with
  | rel _ _ hs => exact hs.decode_eq
  | refl => rfl
  | symm _ _ _ ih => exact ih.symm
  | trans _ _ _ _ _ ih ih' => exact ih.trans ih'

/-- **Documents that differ only in the spellings of descriptions are read alike**: as the
same thing, or not at all. An object with two keys of one field is not read. And if it has
one for each field, whichever of them, it is a spelling of the array of its items. -/
theorem decode_respelled (p : Place) :
    (∀ j j', p.Respelled j j' → ∀ d, p.decode j = .ok d ↔ p.decode j' = .ok d) ∧
    (∀ f ∈ p.fields, ∀ key ∈ f.keys, ∀ key' ∈ f.keys, key ≠ key' →
      ∀ members value value', Json.last? key members = some value →
        Json.last? key' members = some value' → ∃ e, p.decode (.object members) = .error e) ∧
    (p.fields ≠ [] → ∀ name : Field → String, (∀ f ∈ p.fields, name f ∈ f.keys) →
      ∀ js : List Json, p.fields.length = js.length →
        p.Respelled (.object ((p.fields.map name).zip js)) (.array js)) := by
  refine ⟨fun j j' h => toOption_eq_iff.mp h.decode_eq, ?_, fun hp name hname js hlength => ?_⟩
  · intro f hf key hk key' hk' hne members value value' hv hv'
    obtain ⟨α, shape, of, hmodels, hdecode⟩ := exists_shape (List.ne_nil_of_mem hf)
    obtain ⟨e, he⟩ := hmodels.decode_repeated hf hk hk' hne hv hv'
    rw [hdecode, he]
    exact ⟨e, rfl⟩
  · exact .rel _ _ (.array hp (spells_zip hname hlength))

/-- An enum under other keys than the usual ones. -/
def hueObject : Json :=
  .object [("members", .array [.object [("value", .string "0x10"), ("name", .string "Red")]]),
    ("kind", .null), ("name", .string "Hue")]

/-- The same enum as an array. -/
def hueArray : Json :=
  .array [.string "Hue", .null, .array [.array [.string "Red", .string "0x10"]]]

theorem respelled_hue : enumDecl.Respelled hueObject hueArray := by
  have hmember : member.Spells [("value", .string "0x10"), ("name", .string "Red")]
      [.string "Red", .string "0x10"] := by
    refine .cons ⟨"name", .head _, ?_⟩ <| .cons ⟨"value", .tail _ (.head _), ?_⟩ .nil
    · exact List.forall_mem_singleton.mpr rfl
    · exact List.forall_mem_cons.mpr ⟨rfl, List.forall_mem_singleton.mpr rfl⟩
  have hdecl (js : Json) : enumDecl.Spells
      [("members", js), ("kind", .null), ("name", .string "Hue")] [.string "Hue", .null, js] := by
    refine .cons ⟨"name", .head _, ?_⟩ <| .cons ⟨"kind", .head _, ?_⟩ <|
      .cons ⟨"members", .tail _ (.head _), ?_⟩ .nil
    · exact List.forall_mem_singleton.mpr rfl
    · exact List.forall_mem_singleton.mpr rfl
    · exact List.forall_mem_cons.mpr ⟨rfl, List.forall_mem_singleton.mpr rfl⟩
  refine .trans _ _ _ (.rel _ _ ?_) (.rel _ _ (.array (List.cons_ne_nil _ _) (hdecl _)))
  exact .inMember [] (.inItem [] (.array (List.cons_ne_nil _ _) hmember))

theorem decode_respelled_hue :
    enumDecl.decode hueObject = .ok ⟨"Hue", .constantGroup, [⟨"Red", .integer 16⟩]⟩ ∧
    (∃ e, member.decode (.object [("name", .string "Red"), ("type", .string "0x10"),
      ("value", .string "0x10")]) = .error e) ∧
    member.Respelled (.object [("name", .string "Red"), ("value", .string "0x10")])
      (.array [.string "Red", .string "0x10"]) := by
  refine ⟨((decode_respelled enumDecl).1 _ _ respelled_hue _).mpr rfl, ?_, ?_⟩
  · exact (decode_respelled member).2.1 _ (.tail _ (.head _)) _ (.head _) _ (.tail _ (.head _))
      (by decide) _ _ _ rfl rfl
  · exact (decode_respelled member).2.2 (List.cons_ne_nil _ _) (fun f => f.keys.getLastD "")
      (by decide) [.string "Red", .string "0x10"] rfl

end Place

end SchemaSharp
