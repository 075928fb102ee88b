/-
What the result of a run depends on.

Of a type table, resolution uses the answers only (`Descriptor.source_congr`), and
these are told by the names of enums (`TypeTable.agrees_ofSchema`). Of a descriptor,
a run uses the name, the kind and the rendering (`run_congr`). Everything else can
be exchanged, which `run_depends` says of what schemas and options have in them that
no file shows.
-/
import SchemaSharp.Proofs.Generation
import SchemaSharp.Proofs.Namespace

namespace SchemaSharp

/-! ## Tables -/

namespace TypeTable

/-- Tables that give the same answers. -/
def Agrees (table table' : TypeTable) : Prop := ∀ name, table.lookup name = table'.lookup name

/-- The names of enums tell the answers of a schema's table. -/
theorem agrees_ofSchema {s s' : Schema}
    (h : ∀ name, name ∈ s.enums.map (·.name) ↔ name ∈ s'.enums.map (·.name)) :
    (ofSchema s).Agrees (ofSchema s') := by
  intro name
  simp only [lookup_ofSchema, h name]

variable {table table' : TypeTable}

theorem resolve_congr (h : table.Agrees table') (owner : String) (p : Property) :
    table.resolve owner p = table'.resolve owner p := by
  have hlookup : table.lookup = table'.lookup := funext h
  unfold resolve resolvePlain resolveChild
  rw [hlookup]

theorem resolveCarrier_congr (h : table.Agrees table') (owner : String) (p : Property) :
    table.resolveCarrier owner p = table'.resolveCarrier owner p := by
  have hlookup : table.lookup = table'.lookup := funext h
  unfold resolveCarrier resolveChild
  rw [hlookup, resolve_congr h]

end TypeTable

theorem collectFields_congr {field field' : Property → Except GenerateError (List String)}
    {ps ps' : List Property} (h : List.Forall₂ (fun p p' => field p = field' p') ps ps') :
    collectFields field ps = collectFields field' ps' := by
  induction h with
  | nil => rfl
  | cons hp _ ih => rw [collectFields, collectFields, hp, ih]

theorem Property.trackedField_congr {table table' : TypeTable} (h : table.Agrees table')
    (p : Property) (owner : String) : p.trackedField table owner = p.trackedField table' owner := by
  unfold trackedField
  rw [TypeTable.resolve_congr h]

theorem Property.carrierField_congr {table table' : TypeTable} (h : table.Agrees table')
    (p : Property) (owner : String) : p.carrierField table owner = p.carrierField table' owner := by
  unfold carrierField
  rw [TypeTable.resolveCarrier_congr h]

section Descriptors

variable {table table' : TypeTable} {options options' : Options}

theorem ClassDecl.source_congr (ht : table.Agrees table') (c : ClassDecl) :
    c.source table = c.source table' := by
  have hfields : collectFields (·.trackedField table c.name) c.properties =
      collectFields (·.trackedField table' c.name) c.properties :=
    collectFields_congr (List.forall₂_same.mpr fun p _ => p.trackedField_congr ht c.name)
  rw [source, hfields, source]

theorem InterfaceDecl.source_congr (ht : table.Agrees table')
    (hu : options.effectiveUsing = options'.effectiveUsing) (i : InterfaceDecl) :
    i.source table options = i.source table' options' := by
  have hfields : collectFields (·.carrierField table i.name) i.properties =
      collectFields (·.carrierField table' i.name) i.properties :=
    collectFields_congr (List.forall₂_same.mpr fun p _ => p.carrierField_congr ht i.name)
  rw [source, hfields, hu, source]

namespace Descriptor

theorem source_congr (ht : table.Agrees table')
    (hu : options.effectiveUsing = options'.effectiveUsing) (d : Descriptor) :
    d.source table options = d.source table' options' := by
  cases d with
  | ofClass c => exact c.source_congr ht
  | ofInterface i => exact i.source_congr ht hu
  | ofEnum e => rfl

/-- **A rendering depends on the answers of the table and on what the options stand
for.** -/
theorem render_congr (ht : table.Agrees table')
    (hn : options.effectiveNamespace = options'.effectiveNamespace)
    (hu : options.effectiveUsing = options'.effectiveUsing) (d : Descriptor) :
    d.render table options = d.render table' options' := by
  rw [render, render, source_congr ht hu, hn]

end Descriptor

/-- A class has no use for the extra using directive. -/
theorem ClassDecl.render_congr (ht : table.Agrees table')
    (hn : options.effectiveNamespace = options'.effectiveNamespace) (c : ClassDecl) :
    (Descriptor.ofClass c).render table options = (Descriptor.ofClass c).render table' options' := by
  have hsource : (Descriptor.ofClass c).source table options =
      (Descriptor.ofClass c).source table' options' := c.source_congr ht
  rw [Descriptor.render, Descriptor.render, hsource, hn]

end Descriptors

/-! ## Runs -/

namespace Run

variable {render render' : Descriptor → Except GenerateError String}

/-- Descriptors with the same file, or the same reason for none. -/
structure Alike (render render' : Descriptor → Except GenerateError String)
    (d d' : Descriptor) : Prop where
  name : d.name = d'.name
  kind : d.kind = d'.kind
  render : render d = render' d'

theorem Alike.rejection? {d d' : Descriptor} (h : Alike render render' d d')
    (earlier : List String) : d.rejection? earlier = d'.rejection? earlier := by
  unfold Descriptor.rejection? Descriptor.fileName
  rw [h.name, h.kind]

theorem ofDescriptors_congr {ds ds' : List Descriptor}
    (h : List.Forall₂ (Alike render render') ds ds') (earlier : List String) :
    ofDescriptors render earlier ds = ofDescriptors render' earlier ds' := by
  induction h generalizing earlier with
  | nil => rfl
  | @cons d d' ds ds' hd _ ih =>
    have hfile : d.fileName = d'.fileName := Descriptor.fileName_inj.mpr hd.name
    rw [ofDescriptors, ofDescriptors, hd.rejection? earlier, hd.render, hd.name, hd.kind, hfile, ih]

end Run

/-- **Runs are the same, log and result, over descriptors that are alike**, if both
schemas or neither have a reserved enum. -/
theorem run_congr {s s' : Schema} {options options' : Options}
    (hd : List.Forall₂ (Run.Alike (·.render (.ofSchema s) options) (·.render (.ofSchema s') options'))
      s.outputs s'.outputs)
    (hr : s.enums.any (·.isReserved) = s'.enums.any (·.isReserved)) :
    run s options = run s' options' := by
  unfold run
  rw [Run.ofDescriptors_congr hd, hr]

theorem run_congr_of_outputs {s s' : Schema} {options options' : Options}
    (ho : s.outputs = s'.outputs)
    (hd : ∀ d : Descriptor, d.render (.ofSchema s) options = d.render (.ofSchema s') options')
    (hr : s.enums.any (·.isReserved) = s'.enums.any (·.isReserved)) :
    run s options = run s' options' := by
  refine run_congr ?_ hr
  rw [← ho]
  exact List.forall₂_same.mpr fun d _ => ⟨rfl, rfl, hd d⟩

theorem exists_file {s s' : Schema} {options options' : Options} {files files' : List SourceFile}
    {d : Descriptor}
    (hd : d.render (.ofSchema s) options = d.render (.ofSchema s') options')
    (h : generate s options = .ok files) (h' : generate s' options' = .ok files') {i j : Nat}
    (hi : s.outputs[i]? = some d) (hj : s'.outputs[j]? = some d) :
    ∃ f, files[i]? = some f ∧ files'[j]? = some f := by
  refine ⟨.of (·.render (.ofSchema s) options) d, ?_, ?_⟩
  · rw [files_eq_map h, List.getElem?_map, hi, Option.map_some]
  · rw [files_eq_map h', List.getElem?_map, hj, Option.map_some, SourceFile.of, ← hd, SourceFile.of]

/-! ## Reserved enums -/

namespace Schema

/-- The names of enums are those of the enums with files, and the reserved one. -/
theorem mem_enumNames {s : Schema} {name : String} :
    name ∈ s.enums.map (·.name) ↔ name ∈ s.userEnums.map (·.name) ∨
      name = EnumDecl.reservedName ∧ s.enums.any (·.isReserved) = true := by
  simp only [userEnums, List.mem_map, List.mem_filter, List.any_eq_true]
  constructor
  · rintro ⟨e, he, rfl⟩
    cases hr : e.isReserved with
    | true => exact .inr ⟨of_decide_eq_true hr, e, he, hr⟩
    | false => exact .inl ⟨e, ⟨he, by rw [hr]; rfl⟩, rfl⟩
  · rintro (⟨e, ⟨he, _⟩, rfl⟩ | ⟨rfl, e, he, hr⟩)
    · exact ⟨e, he, rfl⟩
    · exact ⟨e, he, of_decide_eq_true hr⟩

end Schema

/-- **Of reserved enums, a run depends on whether there are any.** -/
theorem run_congr_of_userEnums {s s' : Schema} (hc : s.classes = s'.classes)
    (hi : s.interfaces = s'.interfaces) (hu : s.userEnums = s'.userEnums)
    (hr : s.enums.any (·.isReserved) = s'.enums.any (·.isReserved)) (options : Options) :
    run s options = run s' options := by
  refine run_congr_of_outputs ?_ (fun d => Descriptor.render_congr ?_ rfl rfl d) hr
  · rw [Schema.outputs, hc, hi, hu, Schema.outputs]
  · refine TypeTable.agrees_ofSchema fun name => ?_
    rw [Schema.mem_enumNames, Schema.mem_enumNames, hu, hr]

section Reserved

variable {s : Schema} {before after : List EnumDecl} {e : EnumDecl}

theorem run_replace_reserved (hs : s.enums = before ++ e :: after) (he : e.name = "OPERATION")
    (options : Options) (kind : EnumKind) (members : List Member) :
    run { s with enums := before ++ ⟨e.name, kind, members⟩ :: after } options = run s options := by
  have hreserved : e.isReserved = true := decide_eq_true he
  have hnew : EnumDecl.isReserved ⟨e.name, kind, members⟩ = true := hreserved
  refine run_congr_of_userEnums ?_ ?_ ?_ ?_ options
  · rfl
  · rfl
  · simp [Schema.userEnums, hs, hreserved, hnew]
  · simp [hs, hreserved, hnew]

theorem run_repeat_reserved (hs : s.enums = before ++ e :: after) (he : e.name = "OPERATION")
    (options : Options) (left right : List EnumDecl) (hlr : s.enums = left ++ right) :
    run { s with enums := left ++ e :: right } options = run s options := by
  have hreserved : e.isReserved = true := decide_eq_true he
  have hany : s.enums.any (·.isReserved) = true := by simp [hs, hreserved]
  refine run_congr_of_userEnums ?_ ?_ ?_ ?_ options
  · rfl
  · rfl
  · simp [Schema.userEnums, hlr, hreserved]
  · rw [hany]
    simp [hreserved]

end Reserved

/-! ## Interfaces -/

namespace InterfaceDecl

/-- A data carrier shows neither the indices of its properties nor which of them are
deprecated. -/
theorem render_of_properties {i : InterfaceDecl} {ps : List Property}
    (h : List.Forall₂ (fun p p' : Property =>
      p' = { p with index := p'.index, deprecated := p'.deprecated }) i.properties ps)
    (table : TypeTable) (options : Options) :
    (Descriptor.ofInterface { i with properties := ps }).render table options =
      (Descriptor.ofInterface i).render table options := by
  have hfields : collectFields (·.carrierField table i.name) ps =
      collectFields (·.carrierField table i.name) i.properties := by
    refine (collectFields_congr (h.imp fun p p' hp => ?_)).symm
    rw [hp]
    rfl
  have hsource : source { i with properties := ps } table options = i.source table options := by
    rw [source, hfields]
    rfl
  exact congrArg (Except.map _) hsource

/-- The line of the extra using directive. -/
def usingLine (options : Options) : String :=
  match options.effectiveUsing with
  | none => ""
  | some name => s!"using {name};\n"

theorem header_eq (i : InterfaceDecl) (options : Options) :
    (Descriptor.ofInterface i).header options = "using MessagePack;\n" ++ usingLine options ++ "\n" := by
  unfold Descriptor.header usingLine
  cases options.effectiveUsing with
  | none => rfl
  | some name =>
    apply String.toList_injective
    simp [toString]

/-- The extra using directive is a line of its own behind the first one. -/
theorem exists_render_using (i : InterfaceDecl) (table : TypeTable) (scope : Option String) :
    ∃ outcome : Except GenerateError String, ∀ name,
      (Descriptor.ofInterface i).render table ⟨scope, name⟩ = outcome.map fun rest =>
        "using MessagePack;\n" ++ usingLine ⟨scope, name⟩ ++ rest := by
  refine ⟨(collectFields (·.carrierField table i.name) i.properties).map fun fields =>
    "\n" ++ Line.join (Source.enclosed (i.body fields) (scope.filter Options.isGiven)),
    fun name => ?_⟩
  cases hf : collectFields (·.carrierField table i.name) i.properties with
  | error e =>
    have hsource : (Descriptor.ofInterface i).source table ⟨scope, name⟩ = .error e :=
      map_eq_error.mpr hf
    rw [Descriptor.render, hsource]
    rfl
  | ok fields =>
    have hsource : (Descriptor.ofInterface i).source table ⟨scope, name⟩ = .ok _ :=
      map_eq_ok.mpr ⟨fields, hf, rfl⟩
    rw [Descriptor.render, hsource]
    refine congrArg Except.ok ?_
    dsimp only
    rw [Source.text_eq_header, Descriptor.header_source hsource, header_eq, String.append_assoc]
    rfl

end InterfaceDecl

theorem run_replace_interface {s : Schema} {options : Options} {left right : List InterfaceDecl}
    {i i' : InterfaceDecl} (hs : s.interfaces = left ++ i :: right)
    (h : Run.Alike (·.render (.ofSchema s) options) (·.render (.ofSchema s) options)
      (.ofInterface i') (.ofInterface i)) :
    run { s with interfaces := left ++ i' :: right } options = run s options := by
  refine run_congr ?_ rfl
  have hsame : ∀ ds : List Descriptor, List.Forall₂
      (Run.Alike (·.render (.ofSchema s) options) (·.render (.ofSchema s) options)) ds ds :=
    fun ds => List.forall₂_same.mpr fun d _ => ⟨rfl, rfl, rfl⟩
  have hinterfaces : List.Forall₂
      (Run.Alike (·.render (.ofSchema s) options) (·.render (.ofSchema s) options))
      ((left ++ i' :: right).map .ofInterface) (s.interfaces.map .ofInterface) := by
    rw [hs, List.map_append, List.map_append]
    exact List.rel_append (hsame _) (.cons h (hsame _))
  exact List.rel_append (List.rel_append (hsame _) hinterfaces) (hsame _)

/-! ## Independence -/

/-- **What no file shows.** A run is the same, log and result, whatever kind and
members a reserved enum has, and with one more of it at any place. A class is
rendered alike, text or error, over all schemas with the same names of enums and all
options with the same namespace. A data carrier is rendered alike whatever indices
its properties have and whichever of them are deprecated; the extra using directive
is one line of it behind the first, and changes nothing else. An empty namespace or
using directive is none. -/
theorem run_depends (options : Options) :
    (∀ (s : Schema) before e after, s.enums = before ++ e :: after → e.name = "OPERATION" →
      (∀ kind members, run { s with enums := before ++ ⟨e.name, kind, members⟩ :: after } options =
        run s options) ∧
      ∀ left right, s.enums = left ++ right →
        run { s with enums := left ++ e :: right } options = run s options) ∧
    (∀ (s s' : Schema) (options' : Options),
      (∀ name, name ∈ s.enums.map (·.name) ↔ name ∈ s'.enums.map (·.name)) →
      options.effectiveNamespace = options'.effectiveNamespace → ∀ c : ClassDecl,
        (Descriptor.ofClass c).render (.ofSchema s) options =
          (Descriptor.ofClass c).render (.ofSchema s') options' ∧
        ∀ files files', generate s options = .ok files → generate s' options' = .ok files' →
          ∀ i j : Nat, s.outputs[i]? = some (Descriptor.ofClass c) →
            s'.outputs[j]? = some (Descriptor.ofClass c) →
            ∃ f, files[i]? = some f ∧ files'[j]? = some f) ∧
    (∀ (s : Schema) left i right ps, s.interfaces = left ++ i :: right →
      List.Forall₂ (fun p p' : Property =>
        p' = { p with index := p'.index, deprecated := p'.deprecated }) i.properties ps →
      (∀ table, (Descriptor.ofInterface { i with properties := ps }).render table options =
        (Descriptor.ofInterface i).render table options) ∧
      run { s with interfaces := left ++ { i with properties := ps } :: right } options =
        run s options) ∧
    (∀ (table : TypeTable) (scope : Option String) (i : InterfaceDecl),
      ∃ outcome : Except GenerateError String, ∀ name,
        (Descriptor.ofInterface i).render table ⟨scope, name⟩ = outcome.map fun rest =>
          "using MessagePack;\n" ++ InterfaceDecl.usingLine ⟨scope, name⟩ ++ rest) ∧
    ∀ (s : Schema) (scope name : Option String),
      run s ⟨some "", name⟩ = run s ⟨none, name⟩ ∧
      run s ⟨scope, some ""⟩ = run s ⟨scope, none⟩ := by
  refine ⟨?_, ?_, ?_, ?_, ?_⟩
  · intro s before e after hs he
    exact ⟨run_replace_reserved hs he options, run_repeat_reserved hs he options⟩
  · intro s s' options' hnames hscope c
    have hrender := ClassDecl.render_congr (TypeTable.agrees_ofSchema hnames) hscope c
    exact ⟨hrender, fun files files' h h' i j => exists_file hrender h h'⟩
  · intro s left i right ps hs hps
    have hrender := InterfaceDecl.render_of_properties hps
    exact ⟨fun table => hrender table options,
      run_replace_interface hs ⟨rfl, rfl, hrender (.ofSchema s) options⟩⟩
  · exact fun table scope i => i.exists_render_using table scope
  · intro s scope name
    refine ⟨run_congr_of_outputs rfl (fun d => ?_) rfl, run_congr_of_outputs rfl (fun d => ?_) rfl⟩
    · exact Descriptor.render_congr (fun _ => rfl) rfl rfl d
    · exact Descriptor.render_congr (fun _ => rfl) rfl rfl d

/-- A class over an enum, a data carrier, and the reserved enum. -/
def relaySchema : Schema where
  classes := [⟨"Relay", "Schema", [{ name := "mode", type := "Mode" }]⟩]
  interfaces := [⟨"Wire", [{ name := "size", type := "int32" }]⟩]
  enums := [⟨"OPERATION", .enumeration, [⟨"Add", .integer 128⟩]⟩, ⟨"Mode", .constantGroup, []⟩]

/-- A schema that has only the names of enums in common with it. -/
def switchSchema : Schema where
  enums := [⟨"Mode", .enumeration, [⟨"On", .text "on"⟩]⟩, ⟨"OPERATION", .constantGroup, []⟩]

theorem run_depends_relay :
    run { relaySchema with enums := [⟨"OPERATION", .constantGroup, []⟩, ⟨"Mode", .constantGroup, []⟩] }
        {} = run relaySchema {} ∧
    (∀ name, name ∈ relaySchema.enums.map (·.name) ↔ name ∈ switchSchema.enums.map (·.name)) ∧
    (∀ c, (Descriptor.ofClass c).render (.ofSchema relaySchema) {} =
      (Descriptor.ofClass c).render (.ofSchema switchSchema) { extraUsing := some "System" }) ∧
    run { relaySchema with interfaces :=
        [⟨"Wire", [{ name := "size", type := "int32", index := 9, deprecated := true }]⟩] } {} =
      run relaySchema {} := by
  obtain ⟨hreserved, hclass, hinterface, _⟩ := run_depends {}
  have hnames : ∀ name,
      name ∈ relaySchema.enums.map (·.name) ↔ name ∈ switchSchema.enums.map (·.name) := by
    simp [relaySchema, switchSchema, or_comm]
  refine ⟨?_, hnames, fun c => ?_, ?_⟩
  · exact (hreserved relaySchema [] _ _ rfl rfl).1 .constantGroup []
  · exact (hclass relaySchema switchSchema { extraUsing := some "System" } hnames rfl c).1
  · exact (hinterface relaySchema [] _ [] _ rfl (.cons rfl .nil)).2

end SchemaSharp
