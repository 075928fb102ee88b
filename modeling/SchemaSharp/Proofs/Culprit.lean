/-
Whom a failing run blames.

A run fails at the first descriptor in output order that is blocked: it has no
name, repeats an earlier one's, or cannot be rendered. `Descriptor.Culprit` says
which error that is, in terms of what is declared: of a class or interface the
first property whose type is not found, of an enumeration the first integer out
of range, each with the name or value at fault. Of the rest of the schema only
the names of the enums have a say in it (`generate_blames_first_blocked`).
-/
import SchemaSharp.Proofs.Failure

namespace SchemaSharp

/-! ## Properties -/

/-- The two kinds of fields. A tracked field looks for the child type before the
container, a data carrier's field after it. -/
inductive FieldKind
  | tracked
  | carrier
  deriving DecidableEq

/-- What stops a property of `owner`, where `known` are the names with a type. -/
inductive Property.Fault (known : String → Prop) (field : FieldKind) (owner : String)
    (p : Property) : GenerateError → Prop
  | missingChild (he : p.enumType = none) (hc : p.child = none)
      (hk : ∃ kind : ContainerKind, kind.schemaName = p.type) :
      p.Fault known field owner (.schema (.missingChild owner p.name p.type))
  | unknownType (he : p.enumType = none) (hc : p.child = none)
      (hk : ∀ kind : ContainerKind, kind.schemaName ≠ p.type) (hn : ¬known p.type) :
      p.Fault known field owner (.unresolvedType owner p.name p.type)
  | unknownChild {child} (he : p.enumType = none) (hc : p.child = some child)
      (hu : child.userDefined = false) (hn : ¬known child.name)
      (hfirst : field = .carrier → p.type ∈ childTakers) :
      p.Fault known field owner (.unresolvedType owner p.name child.name)
  | unknownContainer {child} (he : p.enumType = none) (hc : p.child = some child)
      (ht : p.type ∉ childTakers)
      (hfirst : field = .tracked → child.userDefined = true ∨ known child.name) :
      p.Fault known field owner (.unknownContainer owner p.name p.type)

theorem Property.Fault.enumType_eq_none {known : String → Prop} {field : FieldKind} {owner : String}
    {p : Property} {e : GenerateError} (h : p.Fault known field owner e) : p.enumType = none := by
  cases h <;> assumption

theorem ChildType.lookedUp_eq_some {child : ChildType} {name : String} :
    child.lookedUp = some name ↔ child.userDefined = false ∧ child.name = name := by
  unfold lookedUp
  cases child.userDefined <;> simp

section Resolution

variable {table : TypeTable} {owner : String} {p : Property} {e : GenerateError}

namespace TypeTable

theorem not_lists_iff {name : String} : ¬table.Lists name ↔ table.lookup name = none := by
  unfold Lists
  cases table.lookup name <;> simp

theorem resolveChild_eq_error_iff {child : ChildType} :
    table.resolveChild owner p child = .error e ↔ child.userDefined = false ∧
      ¬table.Lists child.name ∧ e = .unresolvedType owner p.name child.name := by
  simp only [resolveChild_eq_error, ChildType.lookedUp_eq_some, and_assoc, not_lists_iff]
  refine ⟨fun h => ?_, fun h => ?_⟩
  · obtain ⟨_, hu, rfl, hn, rfl⟩ := h
    exact ⟨hu, hn, rfl⟩
  · obtain ⟨hu, hn, rfl⟩ := h
    exact ⟨_, hu, rfl, hn, rfl⟩

theorem exists_resolveChild {child : ChildType} :
    (∃ element, table.resolveChild owner p child = .ok element) ↔
      child.userDefined = true ∨ table.Lists child.name := by
  simp only [resolveChild_eq_ok, ChildType.exists_stands]

/-- **A tracked field fails exactly at a fault of its property.** -/
theorem resolve_eq_error_iff :
    table.resolve owner p = .error e ↔ p.Fault table.Lists .tracked owner e := by
  unfold resolve
  cases he : p.enumType with
  | some name =>
    refine iff_of_false (by simp) fun h => ?_
    cases he.symm.trans h.enumType_eq_none
  | none =>
    cases hc : p.child with
    | none =>
      simp only [map_eq_error, resolvePlain_eq_error, ContainerKind.ofName?_eq_some,
        ContainerKind.ofName?_eq_none, ← not_lists_iff]
      refine ⟨fun h => ?_, fun h => ?_⟩
      · rcases h with ⟨hk, rfl⟩ | ⟨hk, hn, rfl⟩
        · exact .missingChild he hc hk
        · exact .unknownType he hc hk hn
      · cases h <;> simp_all
    | some child =>
      simp only [bind_eq_error, resolveChild_eq_error_iff]
      refine ⟨fun h => ?_, fun h => ?_⟩
      · rcases h with ⟨hu, hn, rfl⟩ | ⟨element, hs, hk⟩
        · exact .unknownChild he hc hu hn (fun h => by cases h)
        · split at hk
          next => cases hk
          next ht =>
            rw [map_eq_error, resolveContainer_eq_error] at hk
            obtain ⟨hk, rfl⟩ := hk
            refine .unknownContainer he hc ?_ fun _ => exists_resolveChild.mp ⟨element, hs⟩
            simp [mem_childTakers, ht, hk]
      · cases h with
        | missingChild _ hc' => simp_all
        | unknownType _ hc' => simp_all
        | unknownChild _ hc' hu hn =>
          obtain rfl : child = _ := Option.some.inj (hc.symm.trans hc')
          exact .inl ⟨hu, hn, rfl⟩
        | unknownContainer _ hc' ht hfirst =>
          obtain rfl : child = _ := Option.some.inj (hc.symm.trans hc')
          obtain ⟨element, hs⟩ := exists_resolveChild.mpr (hfirst rfl)
          refine .inr ⟨element, hs, ?_⟩
          rw [mem_childTakers, not_or] at ht
          rw [if_neg ht.1, map_eq_error, resolveContainer_eq_error]
          exact ⟨by simpa [Option.eq_none_iff_forall_not_mem] using ht.2, rfl⟩

/-- Without a child type, or with a reference to one, both kinds of fields look
for the same things. -/
theorem fault_carrier_iff {known : String → Prop} (h : p.child.isSome = true → p.type = refType) :
    p.Fault known .carrier owner e ↔ p.Fault known .tracked owner e := by
  have hchild : ∀ {child}, p.child = some child → p.type ∈ childTakers := fun hc =>
    mem_childTakers.mpr (.inl (h (by rw [hc]; rfl)))
  refine ⟨fun hf => ?_, fun hf => ?_⟩
  · cases hf with
    | missingChild he hc hk => exact .missingChild he hc hk
    | unknownType he hc hk hn => exact .unknownType he hc hk hn
    | unknownChild he hc hu hn => exact .unknownChild he hc hu hn fun h => by cases h
    | unknownContainer _ hc ht => exact absurd (hchild hc) ht
  · cases hf with
    | missingChild he hc hk => exact .missingChild he hc hk
    | unknownType he hc hk hn => exact .unknownType he hc hk hn
    | unknownChild he hc hu hn => exact .unknownChild he hc hu hn fun _ => hchild hc
    | unknownContainer _ hc ht => exact absurd (hchild hc) ht

/-- **A data carrier's field fails exactly at a fault of its property.** -/
theorem resolveCarrier_eq_error_iff :
    table.resolveCarrier owner p = .error e ↔ p.Fault table.Lists .carrier owner e := by
  unfold resolveCarrier
  split
  next child he hc =>
    by_cases hr : p.type = refType
    · rw [if_pos hr, resolve_eq_error_iff, fault_carrier_iff fun _ => hr]
    · rw [if_neg hr]
      simp only [bind_eq_error, map_eq_error, resolveContainer_eq_error, resolveContainer_eq_ok,
        resolveChild_eq_error_iff]
      refine ⟨fun h => ?_, fun h => ?_⟩
      · rcases h with ⟨hk, rfl⟩ | ⟨kind, hk, hu, hn, rfl⟩
        · exact .unknownContainer he hc (by simp [mem_childTakers, hr, hk]) fun h => by cases h
        · exact .unknownChild he hc hu hn fun _ => mem_childTakers.mpr (.inr ⟨kind, hk⟩)
      · cases h with
        | missingChild _ hc' => simp_all
        | unknownType _ hc' => simp_all
        | unknownChild _ hc' hu hn hfirst =>
          obtain rfl : child = _ := Option.some.inj (hc.symm.trans hc')
          obtain ⟨kind, hk⟩ := (mem_childTakers.mp (hfirst rfl)).resolve_left hr
          exact .inr ⟨kind, hk, hu, hn, rfl⟩
        | unknownContainer _ _ ht =>
          rw [mem_childTakers, not_or] at ht
          exact .inl ⟨by simpa [Option.eq_none_iff_forall_not_mem] using ht.2, rfl⟩
  next hn =>
    rw [resolve_eq_error_iff]
    cases he : p.enumType with
    | some name =>
      refine iff_of_false (fun h => ?_) (fun h => ?_) <;> cases he.symm.trans h.enumType_eq_none
    | none =>
      have hc : p.child = none := Option.eq_none_iff_forall_ne_some.mpr (hn · he)
      exact (fault_carrier_iff fun h => by rw [hc] at h; cases h).symm

end TypeTable

end Resolution

/-! ## Descriptors -/

namespace Descriptor

/-- What stops a descriptor from being rendered: the first of its properties
with a fault, or the first of its members that does not fit. -/
inductive Fault (known : String → Prop) : Descriptor → GenerateError → Prop
  | ofClass {c before p after e} (hps : c.properties = before ++ p :: after)
      (hb : ∀ q ∈ before, q.Resolves known) (hp : p.Fault known .tracked c.name e) :
      Fault known (.ofClass c) e
  | ofInterface {i before p after e} (hps : i.properties = before ++ p :: after)
      (hb : ∀ q ∈ before, q.Resolves known) (hp : p.Fault known .carrier i.name e) :
      Fault known (.ofInterface i) e
  | ofEnum {en before m after n} (hk : en.kind = .enumeration)
      (hms : en.members = before ++ m :: after) (hb : ∀ m' ∈ before, m'.FitsInt)
      (hv : m.value = .integer n) (hn : ¬FitsInt32 n.toInt) :
      Fault known (.ofEnum en) (.outOfIntRange en.name m.name n)

variable {table : TypeTable} {options : Options} {e : GenerateError}

theorem classSource_eq_error_iff {c : ClassDecl} :
    c.source table = .error e ↔ Fault table.Lists (.ofClass c) e := by
  unfold ClassDecl.source
  simp only [map_eq_error, collectFields_eq_error, Property.trackedField, exists_map_eq_ok,
    TypeTable.exists_resolve, TypeTable.resolve_eq_error_iff]
  refine ⟨fun h => ?_, fun h => ?_⟩
  · obtain ⟨before, p, after, hps, hb, hp⟩ := h
    exact .ofClass hps hb hp
  · cases h with
    | ofClass hps hb hp => exact ⟨_, _, _, hps, hb, hp⟩

theorem interfaceSource_eq_error_iff {i : InterfaceDecl} :
    i.source table options = .error e ↔ Fault table.Lists (.ofInterface i) e := by
  unfold InterfaceDecl.source
  simp only [map_eq_error, collectFields_eq_error, Property.carrierField, exists_map_eq_ok,
    TypeTable.exists_resolveCarrier, TypeTable.resolveCarrier_eq_error_iff]
  refine ⟨fun h => ?_, fun h => ?_⟩
  · obtain ⟨before, p, after, hps, hb, hp⟩ := h
    exact .ofInterface hps hb hp
  · cases h with
    | ofInterface hps hb hp => exact ⟨_, _, _, hps, hb, hp⟩

theorem enumSource_eq_error_iff {known : String → Prop} {en : EnumDecl} :
    en.source = .error e ↔ Fault known (.ofEnum en) e := by
  cases hk : en.kind with
  | enumeration =>
    simp only [EnumDecl.source, hk, map_eq_error, EnumDecl.enumerationLines_eq_error]
    refine ⟨fun h => ?_, fun h => ?_⟩
    · obtain ⟨before, m, after, n, hms, hb, hv, hn, rfl⟩ := h
      exact .ofEnum hk hms hb hv hn
    · cases h with
      | ofEnum _ hms hb hv hn => exact ⟨_, _, _, _, hms, hb, hv, hn, rfl⟩
  | constantGroup =>
    refine iff_of_false ?_ fun h => ?_
    · rw [EnumDecl.constantGroup_source hk]
      exact fun h => by cases h
    · cases h with
      | ofEnum hk' => cases hk.symm.trans hk'

/-- **Rendering fails exactly at the descriptor's first fault**, whatever the
options are. -/
theorem render_eq_error_iff {d : Descriptor} :
    d.render table options = .error e ↔ d.Fault table.Lists e := by
  unfold render
  rw [map_eq_error]
  cases d with
  | ofClass c => exact classSource_eq_error_iff
  | ofInterface i => exact interfaceSource_eq_error_iff
  | ofEnum en => exact enumSource_eq_error_iff

/-- Without a name, with the name of one before, or without a rendering, a
descriptor gets no file. -/
def Blocked (table : TypeTable) (options : Options) (before : List Descriptor) (d : Descriptor) :
    Prop :=
  d.name = "" ∨ d.name ∈ before.map name ∨ ∃ e, d.render table options = .error e

/-- The error of a descriptor that gets no file: that it has no name, or else
that its name repeats one before, or else its own fault. -/
inductive Culprit (known : String → Prop) (before : List Descriptor) (d : Descriptor) :
    GenerateError → Prop
  | unnamed (hn : d.name = "") :
      d.Culprit known before (.generation s!"{d.kind} descriptor without a name")
  | repeated (hn : d.name ≠ "") (hm : d.name ∈ before.map name) :
      d.Culprit known before (.duplicateOutput (d.name ++ ".cs") d.kind d.name)
  | faulty {err} (hn : d.name ≠ "") (hm : d.name ∉ before.map name) (hf : d.Fault known err) :
      d.Culprit known before err

variable {before : List Descriptor} {d : Descriptor}

theorem mem_fileNames :
    d.fileName ∈ (before.map fileName).reverse ↔ d.name ∈ before.map name := by
  simp only [List.mem_reverse, List.mem_map, fileName_inj]

theorem fails_iff_culprit :
    d.Fails (·.render table options) (before.map fileName).reverse e ↔
      d.Culprit table.Lists before e := by
  simp only [Fails, rejection?_eq_some, rejection?_eq_none, mem_fileNames, render_eq_error_iff]
  refine ⟨fun h => ?_, fun h => ?_⟩
  · rcases h with (⟨hn, rfl⟩ | ⟨hn, hm, rfl⟩) | ⟨⟨hn, hm⟩, hf⟩
    · exact .unnamed hn
    · rw [fileName_eq]
      exact .repeated hn hm
    · exact .faulty hn hm hf
  · cases h with
    | unnamed hn => exact .inl (.inl ⟨hn, rfl⟩)
    | repeated hn hm => exact .inl (.inr ⟨hn, hm, by rw [fileName_eq]⟩)
    | faulty hn hm hf => exact .inr ⟨⟨hn, hm⟩, hf⟩

theorem blocked_iff : d.Blocked table options before ↔ ∃ e, d.Culprit table.Lists before e := by
  simp only [Blocked, render_eq_error_iff]
  refine ⟨fun h => ?_, fun h => ?_⟩
  · by_cases hn : d.name = ""
    · exact ⟨_, .unnamed hn⟩
    · by_cases hm : d.name ∈ before.map name
      · exact ⟨_, .repeated hn hm⟩
      · obtain ⟨e, hf⟩ := (h.resolve_left hn).resolve_left hm
        exact ⟨e, .faulty hn hm hf⟩
  · obtain ⟨e, h⟩ := h
    cases h with
    | unnamed hn => exact .inl hn
    | repeated _ hm => exact .inr (.inl hm)
    | faulty _ _ hf => exact .inr (.inr ⟨e, hf⟩)

/-- `d` is the first blocked descriptor of `ds`, between those `before` and
`after` it. -/
structure FirstBlocked (table : TypeTable) (options : Options) (ds before : List Descriptor)
    (d : Descriptor) (after : List Descriptor) : Prop where
  split : ds = before ++ d :: after
  free : ∀ earlier d' later, before = earlier ++ d' :: later → ¬d'.Blocked table options earlier
  blocked : d.Blocked table options before

end Descriptor

/-! ## Runs -/

namespace Run

variable {table : TypeTable} {options : Options} {e : GenerateError}
  {ds before after : List Descriptor} {d : Descriptor}

theorem ofDescriptors_eq_ok_of_append {render : Descriptor → Except GenerateError String}
    {ds' : List Descriptor} {files : List SourceFile}
    (h : (ofDescriptors render [] (ds ++ ds')).result = .ok files) :
    ∃ files', (ofDescriptors render [] ds).result = .ok files' := by
  obtain ⟨⟨hds, hnd⟩, hs⟩ := ofDescriptors_eq_ok.mp h
  obtain ⟨files', _, _, hs', _⟩ := forall₂_append_inv hs
  rw [List.map_append] at hnd
  exact ⟨files', ofDescriptors_eq_ok.mpr
    ⟨⟨fun d hd => hds d (List.mem_append_left _ hd), (List.nodup_append.mp hnd).1⟩, hs'⟩⟩

/-- A run fails exactly at a culprit that it gets to. -/
theorem ofDescriptors_eq_error_iff :
    (ofDescriptors (·.render table options) [] ds).result = .error e ↔ ∃ before d after,
      ds = before ++ d :: after ∧
      (∃ files, (ofDescriptors (·.render table options) [] before).result = .ok files) ∧
      d.Culprit table.Lists before e := by
  simp only [ofDescriptors_eq_error, List.append_nil, Descriptor.fails_iff_culprit]

/-- **A run goes well exactly if no descriptor is blocked.** -/
theorem exists_ofDescriptors_iff :
    (∃ files, (ofDescriptors (·.render table options) [] ds).result = .ok files) ↔
      ∀ before d after, ds = before ++ d :: after → ¬d.Blocked table options before := by
  refine ⟨fun h before d after hds hb => ?_, fun h => ?_⟩
  · obtain ⟨files, h⟩ := h
    obtain ⟨e, hc⟩ := Descriptor.blocked_iff.mp hb
    have hbefore := ofDescriptors_eq_ok_of_append (hds ▸ h)
    rw [ofDescriptors_eq_error_iff.mpr ⟨before, d, after, hds, hbefore, hc⟩] at h
    cases h
  · cases hr : (ofDescriptors (·.render table options) [] ds).result with
    | ok files => exact ⟨files, rfl⟩
    | error e =>
      obtain ⟨before, d, after, hds, _, hc⟩ := ofDescriptors_eq_error_iff.mp hr
      exact absurd (Descriptor.blocked_iff.mpr ⟨e, hc⟩) (h before d after hds)

theorem exists_firstBlocked
    (h : (ofDescriptors (·.render table options) [] ds).result = .error e) :
    ∃ before d after, Descriptor.FirstBlocked table options ds before d after := by
  obtain ⟨before, d, after, hds, hb, hc⟩ := ofDescriptors_eq_error_iff.mp h
  exact ⟨before, d, after, hds, exists_ofDescriptors_iff.mp hb, Descriptor.blocked_iff.mpr ⟨e, hc⟩⟩

/-- The error of a run is that of its first blocked descriptor. -/
theorem eq_error_iff_of_firstBlocked
    (h : Descriptor.FirstBlocked table options ds before d after) :
    (ofDescriptors (·.render table options) [] ds).result = .error e ↔
      d.Culprit table.Lists before e := by
  have hfails : ∀ {e}, d.Culprit table.Lists before e →
      (ofDescriptors (·.render table options) [] ds).result = .error e := fun hc =>
    ofDescriptors_eq_error_iff.mpr
      ⟨before, d, after, h.split, exists_ofDescriptors_iff.mpr h.free, hc⟩
  refine ⟨fun he => ?_, hfails⟩
  obtain ⟨e', hc⟩ := Descriptor.blocked_iff.mp h.blocked
  obtain rfl : e' = e := Except.error.inj ((hfails hc).symm.trans he)
  exact hc

end Run

/-! ## Schemas -/

theorem Schema.declares_congr {s s' : Schema}
    (h : ∀ name, (∃ e ∈ s'.enums, e.name = name) ↔ ∃ e ∈ s.enums, e.name = name) :
    s'.Declares = s.Declares := by
  funext name
  simp only [Declares, h]

theorem generate_eq_error_iff {s : Schema} {options : Options} {before after : List Descriptor}
    {d : Descriptor} {e : GenerateError}
    (h : Descriptor.FirstBlocked (.ofSchema s) options s.outputs before d after) :
    generate s options = .error e ↔ d.Culprit s.Declares before e := by
  rw [generate_eq, Run.eq_error_iff_of_firstBlocked h, TypeTable.lists_ofSchema]

/-- What blocks a descriptor, the options and all that is declared after it
apart. -/
theorem Descriptor.FirstBlocked.of_declares_eq {s s' : Schema} {options options' : Options}
    {before after after' : List Descriptor} {d : Descriptor}
    (h : FirstBlocked (.ofSchema s) options s.outputs before d after)
    (hs : s'.outputs = before ++ d :: after') (hd : s'.Declares = s.Declares) :
    FirstBlocked (.ofSchema s') options' s'.outputs before d after' := by
  have hblocked : ∀ {before d}, Blocked (.ofSchema s') options' before d ↔
      Blocked (.ofSchema s) options before d := fun {before d} => by
    rw [blocked_iff, blocked_iff, TypeTable.lists_ofSchema, TypeTable.lists_ofSchema, hd]
  exact ⟨hs, fun earlier d' later hb => hblocked.not.mpr (h.free earlier d' later hb),
    hblocked.mpr h.blocked⟩

/-- **A failing run blames its first blocked descriptor**: there is one, the
error is that of this descriptor, and there are no files. Neither the options
nor what is declared after it change the error, as long as the enums have the
same names. -/
theorem generate_blames_first_blocked {s : Schema} {options : Options} {e : GenerateError}
    (h : generate s options = .error e) :
    (∀ files, generate s options ≠ .ok files) ∧
    (∃ before d after,
      Descriptor.FirstBlocked (.ofSchema s) options s.outputs before d after) ∧
    ∀ before d after, Descriptor.FirstBlocked (.ofSchema s) options s.outputs before d after →
      (∀ e', d.Culprit s.Declares before e' ↔ e' = e) ∧
      ∀ (s' : Schema) (options' : Options) (after' : List Descriptor),
        s'.outputs = before ++ d :: after' →
        (∀ name, (∃ en ∈ s'.enums, en.name = name) ↔ ∃ en ∈ s.enums, en.name = name) →
        generate s' options' = .error e := by
  refine ⟨fun files hok => ?_, Run.exists_firstBlocked (generate_eq s options ▸ h), ?_⟩
  · rw [h] at hok
    cases hok
  · intro before d after hfirst
    have hculprit : d.Culprit s.Declares before e := (generate_eq_error_iff hfirst).mp h
    refine ⟨fun e' => ⟨fun he' => ?_, fun he' => he' ▸ hculprit⟩, ?_⟩
    · have h' := (generate_eq_error_iff hfirst).mpr he'
      exact Except.error.inj (h'.symm.trans h)
    · intro s' options' after' hs henums
      have hd := Schema.declares_congr henums
      rw [generate_eq_error_iff (hfirst.of_declares_eq hs hd), hd]
      exact hculprit

/-- A class that declares nothing wrong. -/
def boardClass : ClassDecl := ⟨"Board", "Schema", [{ name := "turn", type := "ColorEnum" }]⟩

/-- Two types that are not declared, and a container of nothing. -/
def pieceClass : ClassDecl := ⟨"Piece", "Schema", [
  { name := "color", type := "ColorEnum" },
  { name := "moves", index := 1, type := "list", child := some (.ofName "vec2") },
  { name := "square", index := 2, type := "vec2" },
  { name := "taken", index := 3, type := "array" }]⟩

/-- Behind the two classes come a repeated name, no name, and a number out of range. -/
def boardSchema : Schema where
  classes := [boardClass, pieceClass, ⟨"Board", "Schema", []⟩]
  interfaces := [⟨"", []⟩]
  enums := [⟨"ColorEnum", .enumeration, [⟨"White", .integer 1099511627776⟩]⟩]

/-- A tracked field misses the child type before the container. -/
theorem generate_blames_first_blocked_piece :
    generate boardSchema {} = .error (.unresolvedType "Piece" "moves" "vec2") ∧
    (∀ e, (Descriptor.ofClass pieceClass).Culprit boardSchema.Declares [.ofClass boardClass] e ↔
      e = .unresolvedType "Piece" "moves" "vec2") ∧
    generate { boardSchema with classes := [boardClass, pieceClass], interfaces := [] }
      { targetNamespace := some "Game" } = .error (.unresolvedType "Piece" "moves" "vec2") := by
  have h : generate boardSchema {} = .error (.unresolvedType "Piece" "moves" "vec2") := by rfl
  have hfirst : Descriptor.FirstBlocked (.ofSchema boardSchema) {} boardSchema.outputs
      [.ofClass boardClass] (.ofClass pieceClass)
      [.ofClass ⟨"Board", "Schema", []⟩, .ofInterface ⟨"", []⟩,
        .ofEnum ⟨"ColorEnum", .enumeration, [⟨"White", .integer 1099511627776⟩]⟩] :=
    ⟨rfl, Run.exists_ofDescriptors_iff.mp ⟨_, rfl⟩, .inr (.inr ⟨_, rfl⟩)⟩
  obtain ⟨hculprit, hothers⟩ := (generate_blames_first_blocked h).2.2 _ _ _ hfirst
  exact ⟨h, hculprit, hothers _ _ [.ofEnum _] rfl fun _ => Iff.rfl⟩

end SchemaSharp
