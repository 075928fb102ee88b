/-
How resolution and validation agree on a property.

The fields of tracked objects and of data carriers are resolved in two ways, and
validation judges the child types that both of them rely on. The two resolutions succeed
on the same properties, with arrays in the one where the other has containers
(`resolveCarrier_follows_resolve`). They blame the same fault unless a property has two of
them (`resolutions_fail_alike_iff`). A missing child type is reported as validation reports
it by containers, and as an unknown type name by references
(`missing_child_reported_iff`).
-/
import SchemaSharp.Proofs.Culprit

namespace SchemaSharp

namespace TypeExpr

theorem text_container (kind : ContainerKind) (element : String) :
    (container kind element).text = kind.className ++ "<" ++ element ++ ">" := rfl

theorem text_array (element : String) : (array element).text = element ++ "[]" := rfl

theorem text_array_ne_container (kind : ContainerKind) (element element' : String) :
    (array element).text ≠ (container kind element').text := by
  have harray : (array element).text.toList.getLast? = some ']' := by
    rw [text_array, String.toList_append]
    exact List.getLast?_append_cons ..
  have hcontainer : (container kind element').text.toList.getLast? = some '>' := by
    rw [text_container, String.toList_append]
    exact List.getLast?_concat ..
  intro h
  rw [h, hcontainer] at harray
  cases harray

end TypeExpr

namespace Property

/-- The property holds its children in a container: it has no enum type, and with a child
type it declares a container. -/
def DeclaresContainer (p : Property) (kind : ContainerKind) : Prop :=
  p.enumType = none ∧ p.child.isSome = true ∧ kind.schemaName = p.type

variable {table : TypeTable} {p : Property} {type : TypeExpr} {kind : ContainerKind}

theorem Typed.declaresContainer_iff (h : p.Typed table type) :
    p.DeclaresContainer kind ↔ ∃ element, type = .container kind element := by
  refine ⟨fun hd => ?_, fun hc => ?_⟩
  · obtain ⟨he, hchild, hk⟩ := hd
    cases h with
    | enum he' => simp_all
    | plain _ hc => simp_all
    | reference _ _ ht _ =>
      exact absurd ht (ContainerKind.ne_refType (ContainerKind.ofName?_eq_some.mpr hk))
    | @container _ element kind' _ _ hk' _ =>
      obtain rfl : kind' = kind :=
        ContainerKind.schemaName_injective ((ContainerKind.ofName?_eq_some.mp hk').trans hk.symm)
      exact ⟨element, rfl⟩
  · obtain ⟨element, rfl⟩ := hc
    cases h with
    | container he hc hk _ => exact ⟨he, by rw [hc]; rfl, ContainerKind.ofName?_eq_some.mp hk⟩

end Property

namespace TypeTable

theorem flatten_eq_array_iff {table : TypeTable} {p : Property} {type : TypeExpr}
    (h : p.Typed table type) {element : String} :
    type.flatten = .array element ↔ ∃ kind, type = .container kind element := by
  cases h <;> simp [TypeExpr.flatten]

/-- **The two resolutions follow each other.** They succeed on the same properties, and
find the same type unless the property holds its children in a container: then, and only
then, it is the runtime's container class of an element in the one and an array of the same
element in the other, and their texts differ. -/
theorem resolveCarrier_follows_resolve (table : TypeTable) (owner : String) (p : Property) :
    ((∃ type, table.resolve owner p = .ok type) ↔
      ∃ type, table.resolveCarrier owner p = .ok type) ∧
    ∀ tracked carrier, table.resolve owner p = .ok tracked →
      table.resolveCarrier owner p = .ok carrier →
      (∀ element, carrier = .array element ↔
        ∃ kind, p.DeclaresContainer kind ∧ tracked = .container kind element) ∧
      (∀ kind, p.DeclaresContainer kind →
        ∃ element, tracked = .container kind element ∧ carrier = .array element ∧
          tracked.text = kind.className ++ "<" ++ element ++ ">" ∧
          carrier.text = element ++ "[]") ∧
      ((∀ kind, ¬p.DeclaresContainer kind) → carrier = tracked) ∧
      (carrier.text = tracked.text ↔ ∀ kind, ¬p.DeclaresContainer kind) := by
  refine ⟨by rw [exists_resolve, exists_resolveCarrier], fun tracked carrier h h' => ?_⟩
  have ht : p.Typed table tracked := resolve_eq_ok.mp h
  obtain rfl : tracked.flatten = carrier :=
    Except.ok.inj ((resolveCarrier_eq_ok.mpr ⟨tracked, ht, rfl⟩).symm.trans h')
  have hsame : (∀ kind, ¬p.DeclaresContainer kind) → tracked.flatten = tracked := by
    intro hn
    cases tracked with
    | container kind element => exact absurd (ht.declaresContainer_iff.mpr ⟨element, rfl⟩) (hn kind)
    | named _ => rfl
    | array _ => rfl
  refine ⟨fun element => ?_, fun kind hd => ?_, hsame, fun htext kind hd => ?_, fun hn => ?_⟩
  · rw [flatten_eq_array_iff ht]
    refine exists_congr fun kind => (and_iff_right_of_imp fun hc => ?_).symm
    exact ht.declaresContainer_iff.mpr ⟨element, hc⟩
  · obtain ⟨element, rfl⟩ := ht.declaresContainer_iff.mp hd
    exact ⟨element, rfl, rfl, rfl, rfl⟩
  · obtain ⟨element, rfl⟩ := ht.declaresContainer_iff.mp hd
    exact TypeExpr.text_array_ne_container kind element element htext
  · rw [hsame hn]

theorem resolveCarrier_follows_resolve_scores :
    let p : Property := { name := "scores", type := "map", child := some (.ofName "uint8") }
    ∃ tracked carrier, primitives.resolve "Game" p = .ok tracked ∧
      primitives.resolveCarrier "Game" p = .ok carrier ∧
      tracked.text = "MapSchema<byte>" ∧ carrier.text = "byte[]" := by
  intro p
  have htracked : primitives.resolve "Game" p = .ok (.container .map "byte") := rfl
  have hcarrier : primitives.resolveCarrier "Game" p = .ok (.array "byte") := rfl
  obtain ⟨_, hcontainer, _⟩ :=
    (resolveCarrier_follows_resolve primitives "Game" p).2 _ _ htracked hcarrier
  obtain ⟨element, he, _, htext, htext'⟩ := hcontainer .map ⟨rfl, rfl, rfl⟩
  obtain rfl : "byte" = element := (TypeExpr.container.inj he).2
  have hname : ContainerKind.className .map = "MapSchema" := by decide
  rw [hname] at htext
  exact ⟨_, _, htracked, hcarrier, htext, htext'⟩

end TypeTable

namespace Property

/-- A property with two faults: its child type is nowhere listed, and its type takes none. -/
structure WrongTwice (known : String → Prop) (p : Property) (child : ChildType) : Prop where
  enumType : p.enumType = none
  hasChild : p.child = some child
  userDefined : child.userDefined = false
  unknown : ¬known child.name
  type : p.type ∉ childTakers

variable {known : String → Prop} {owner : String} {p : Property} {e : GenerateError}

theorem WrongTwice.fault_tracked {child : ChildType} (h : p.WrongTwice known child) :
    p.Fault known .tracked owner (.unresolvedType owner p.name child.name) :=
  .unknownChild h.enumType h.hasChild h.userDefined h.unknown nofun

theorem WrongTwice.fault_carrier {child : ChildType} (h : p.WrongTwice known child) :
    p.Fault known .carrier owner (.unknownContainer owner p.name p.type) :=
  .unknownContainer h.enumType h.hasChild h.type nofun

/-- With one fault at most, it is the same one. -/
theorem Fault.carrier (h : p.Fault known .tracked owner e)
    (hw : ∀ child, ¬p.WrongTwice known child) : p.Fault known .carrier owner e := by
  cases h with
  | missingChild he hc hk => exact .missingChild he hc hk
  | unknownType he hc hk hn => exact .unknownType he hc hk hn
  | @unknownChild child he hc hu hn _ =>
    refine .unknownChild he hc hu hn fun _ => ?_
    by_contra ht
    exact hw child ⟨he, hc, hu, hn, ht⟩
  | unknownContainer he hc ht _ => exact .unknownContainer he hc ht nofun

end Property

namespace TypeTable

variable {table : TypeTable} {owner : String} {p : Property}

theorem exists_resolveCarrier_error_iff :
    (∃ e, table.resolveCarrier owner p = .error e) ↔ ∃ e, table.resolve owner p = .error e := by
  have hok := (resolveCarrier_follows_resolve table owner p).1
  cases h : table.resolve owner p <;> cases h' : table.resolveCarrier owner p <;> simp_all

/-- **The two resolutions fail together**, and with the same error exactly if the property
has no two faults. With two, the one blames the child type and the other the container. -/
theorem resolutions_fail_alike_iff (table : TypeTable) (owner : String) (p : Property)
    (h : (∃ e, table.resolve owner p = .error e) ∨ ∃ e, table.resolveCarrier owner p = .error e) :
    (∃ e e', table.resolve owner p = .error e ∧ table.resolveCarrier owner p = .error e' ∧
      (e = e' ↔ ∀ child, ¬p.WrongTwice table.Lists child)) ∧
    ∀ child, p.WrongTwice table.Lists child →
      table.resolve owner p = .error (.unresolvedType owner p.name child.name) ∧
      table.resolveCarrier owner p = .error (.unknownContainer owner p.name p.type) := by
  have hboth : ∀ child, p.WrongTwice table.Lists child →
      table.resolve owner p = .error (.unresolvedType owner p.name child.name) ∧
      table.resolveCarrier owner p = .error (.unknownContainer owner p.name p.type) :=
    fun child hw => ⟨resolve_eq_error_iff.mpr hw.fault_tracked,
      resolveCarrier_eq_error_iff.mpr hw.fault_carrier⟩
  refine ⟨?_, hboth⟩
  by_cases hw : ∃ child, p.WrongTwice table.Lists child
  · obtain ⟨child, hw⟩ := hw
    obtain ⟨htracked, hcarrier⟩ := hboth child hw
    exact ⟨_, _, htracked, hcarrier, iff_of_false nofun fun hn => hn child hw⟩
  · rw [not_exists] at hw
    obtain ⟨e, he⟩ := h.elim id exists_resolveCarrier_error_iff.mp
    have hfault := (resolve_eq_error_iff.mp he).carrier hw
    exact ⟨e, e, he, resolveCarrier_eq_error_iff.mpr hfault, iff_of_true rfl hw⟩

/-- With one fault, a child type that is not listed, both say the same. -/
theorem resolutions_fail_alike_path :
    let p : Property := { name := "path", type := "array", child := some (.ofName "vec3") }
    primitives.resolve "Player" p = .error (.unresolvedType "Player" "path" "vec3") ∧
      primitives.resolveCarrier "Player" p = .error (.unresolvedType "Player" "path" "vec3") := by
  intro p
  have htracked : primitives.resolve "Player" p =
      .error (.unresolvedType "Player" "path" "vec3") := rfl
  obtain ⟨⟨e, e', he, he', hiff⟩, _⟩ :=
    resolutions_fail_alike_iff primitives "Player" p (.inl ⟨_, htracked⟩)
  have hsame : e = e' := hiff.mpr fun child hw => hw.type (by decide)
  obtain rfl : e = _ := Except.error.inj (he.symm.trans htracked)
  exact ⟨he, hsame ▸ he'⟩

/-- A list of vectors, where neither is a type, has two faults. -/
theorem resolutions_can_fail_apart :
    let p : Property := { name := "items", type := "list", child := some (.ofName "vec3") }
    ∃ e e', primitives.resolve "Player" p = .error e ∧
      primitives.resolveCarrier "Player" p = .error e' ∧ e ≠ e' ∧
      e = .unresolvedType "Player" "items" "vec3" ∧
      e' = .unknownContainer "Player" "items" "list" :=
  ⟨_, _, rfl, rfl, nofun, rfl, rfl⟩

end TypeTable

theorem firstFault_append {α ε : Type} {judge : List α → α → Option ε} {before l l' : List α} :
    firstFault judge before (l ++ l') =
      (firstFault judge before l).or (firstFault judge (before ++ l) l') := by
  induction l generalizing before with
  | nil => simp [firstFault]
  | cons a l ih =>
    rw [List.cons_append, firstFault, firstFault]
    cases judge before a with
    | some e => rfl
    | none => simp only [ih, List.append_assoc, List.singleton_append]

namespace Property

/-- The check of a list of properties gets to the child type of `p`: what stands before it
is free of faults, and neither its name nor its index is taken. -/
structure Reached (p : Property) (before : List Property) : Prop where
  wellFormed : WellFormed before
  new : ∀ q ∈ before, q.name ≠ p.name ∧ q.index ≠ p.index

theorem Reached.firstFault_eq {p : Property} {before after : List Property} (h : p.Reached before)
    {owner : String} {e : SchemaError} (hf : p.childFault? owner = some e) :
    firstFault (fault? owner) [] (before ++ p :: after) = some e := by
  have hbefore : firstFault (fault? owner) [] before = none := wellFormed_iff.mpr h.wellFormed
  have hp : p.fault? owner before = some e := (fault?_of_new h.new owner).trans hf
  rw [firstFault_append, hbefore, Option.none_or, List.nil_append, firstFault, hp]

end Property

namespace Schema

/-- Validation gets to the child type of a property `p` of `owner`. -/
inductive Reaches (s : Schema) : String → Property → Prop
  | inClass (cs : List ClassDecl) {c cs'} (before : List Property) {p after}
      (hn : (s.declarations.map Descriptor.name).Nodup)
      (hs : s.classes = cs ++ c :: cs') (hcs : ∀ c' ∈ cs, Property.WellFormed c'.properties)
      (hp : c.properties = before ++ p :: after) (hr : p.Reached before) : s.Reaches c.name p
  | inInterface (is : List InterfaceDecl) {i is'} (before : List Property) {p after}
      (hn : (s.declarations.map Descriptor.name).Nodup)
      (hcs : ∀ c ∈ s.classes, Property.WellFormed c.properties)
      (hs : s.interfaces = is ++ i :: is') (his : ∀ i' ∈ is, Property.WellFormed i'.properties)
      (hp : i.properties = before ++ p :: after) (hr : p.Reached before) : s.Reaches i.name p

theorem findSome?_first {α ε : Type} {f : α → Option ε} {before after : List α} {a : α} {e : ε}
    (hb : ∀ b ∈ before, f b = none) (ha : f a = some e) :
    (before ++ a :: after).findSome? f = some e := by
  rw [List.findSome?_append, List.findSome?_eq_none_iff.mpr hb, Option.none_or, List.findSome?_cons,
    ha]

theorem Reaches.validate_eq {s : Schema} {owner : String} {p : Property} {e : SchemaError}
    (h : s.Reaches owner p) (hf : p.childFault? owner = some e) : s.validate = .error e := by
  have hfault : s.fault? = some e := by
    unfold fault?
    cases h with
    | inClass cs before hn hs hcs hp hr =>
      rw [Descriptor.nodup_names_iff.mpr hn, hs,
        findSome?_first (fun c' hc' => Property.wellFormed_iff.mpr (hcs c' hc'))
          (hp ▸ hr.firstFault_eq hf)]
      rfl
    | inInterface is before hn hcs hs his hp hr =>
      rw [Descriptor.nodup_names_iff.mpr hn,
        List.findSome?_eq_none_iff.mpr fun c hc => Property.wellFormed_iff.mpr (hcs c hc), hs,
        findSome?_first (fun i' hi' => Property.wellFormed_iff.mpr (his i' hi'))
          (hp ▸ hr.firstFault_eq hf)]
      rfl
  rw [validate, hfault]

end Schema

namespace Property

variable {table : TypeTable} {owner : String} {p : Property}

theorem childFault?_of_missing (hc : p.child = none) (hk : p.kind ≠ .plain) :
    p.childFault? owner = some (.missingChild owner p.name p.type) := by
  unfold childFault? hasChild
  cases hkind : p.kind with
  | plain => exact absurd hkind hk
  | _ => rw [hc]; rfl

theorem kind_eq_container_iff {k : ContainerKind} :
    p.kind = .container k ↔ ContainerKind.ofName? p.type = some k := by
  unfold kind
  by_cases hr : p.type = refType
  · rw [if_pos hr]
    exact iff_of_false nofun fun hk => ContainerKind.ne_refType hk hr
  · rw [if_neg hr]
    cases ContainerKind.ofName? p.type <;> simp

theorem kind_eq_reference_iff : p.kind = .reference ↔ p.type = refType := by
  unfold kind
  by_cases hr : p.type = refType
  · simp [hr]
  · rw [if_neg hr]
    cases ContainerKind.ofName? p.type <;> simp [hr]

end Property

/-- **A missing child type is reported as validation reports it exactly for containers.** -/
theorem missing_child_reported_iff (table : TypeTable) (owner : String) (p : Property)
    (he : p.enumType = none) (hc : p.child = none) (hk : p.kind ≠ .plain) :
    (∀ s : Schema, s.Reaches owner p →
      s.validate = .error (.missingChild owner p.name p.type)) ∧
    table.resolveCarrier owner p = table.resolve owner p ∧
    (table.resolve owner p = .error (.schema (.missingChild owner p.name p.type)) ↔
      ∃ kind, p.kind = .container kind) ∧
    (p.kind = .reference → table.resolve owner p = match table.lookup refType with
      | some target => .ok (.named target)
      | none => .error (.unresolvedType owner p.name refType)) := by
  have hresolve : table.resolve owner p = (table.resolvePlain owner p).map .named := by
    rw [TypeTable.resolve, he, hc]
  have hcarrier : table.resolveCarrier owner p = table.resolve owner p := by
    rw [TypeTable.resolveCarrier, he, hc]
  have hiff : table.resolve owner p = .error (.schema (.missingChild owner p.name p.type)) ↔
      ∃ kind, p.kind = .container kind := by
    rw [hresolve, map_eq_error, TypeTable.resolvePlain_eq_error]
    simp [Property.kind_eq_container_iff]
  refine ⟨fun s hs => hs.validate_eq (Property.childFault?_of_missing hc hk), hcarrier, hiff, ?_⟩
  intro hr
  have ht : p.type = refType := Property.kind_eq_reference_iff.mp hr
  have hn : ContainerKind.ofName? refType = none := by decide
  rw [hresolve, TypeTable.resolvePlain, ht, hn]
  cases table.lookup refType <;> rfl

/-- An array is reported even in a table that lists an enum called `array`. -/
theorem missing_child_reported_slots :
    let p : Property := { name := "slots", type := "array" }
    let s : Schema := { classes := [⟨"Chest", "Schema", [p]⟩] }
    let e : SchemaError := .missingChild "Chest" "slots" "array"
    s.validate = .error e ∧
      (TypeTable.primitives.register "array").resolve "Chest" p = .error (.schema e) ∧
      (TypeTable.primitives.register "array").resolveCarrier "Chest" p = .error (.schema e) := by
  intro p s e
  obtain ⟨hvalidate, hcarrier, hiff, _⟩ :=
    missing_child_reported_iff (TypeTable.primitives.register "array") "Chest" p rfl rfl (by decide)
  have hresolve := hiff.mpr ⟨.array, rfl⟩
  have hnames : (s.declarations.map Descriptor.name).Nodup := by decide
  have hreached : p.Reached [] := ⟨⟨.nil, .nil, nofun⟩, nofun⟩
  have hreaches := Schema.Reaches.inClass [] [] hnames rfl nofun rfl hreached
  exact ⟨hvalidate s hreaches, hresolve, hcarrier.trans hresolve⟩

/-- A reference without child type is no missing child type to resolution, and a fine type
once an enum is called `ref`. -/
theorem missing_child_can_be_unreported :
    let p : Property := { name := "rival", type := "ref" }
    Schema.validate { classes := [⟨"Duel", "Schema", [p]⟩] } =
        .error (.missingChild "Duel" "rival" "ref") ∧
      TypeTable.primitives.resolve "Duel" p = .error (.unresolvedType "Duel" "rival" "ref") ∧
      TypeTable.primitives.resolveCarrier "Duel" p = .error (.unresolvedType "Duel" "rival" "ref") ∧
      (TypeTable.primitives.register "ref").resolve "Duel" p = .ok (.named "ref") :=
  ⟨rfl, rfl, rfl, rfl⟩

end SchemaSharp
