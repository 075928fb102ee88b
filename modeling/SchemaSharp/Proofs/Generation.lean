/-
What a run of generation results in.

A run goes well exactly if every descriptor has a name, no two have the same
one, and each can be rendered (`ofDescriptors_eq_ok`, with the files written
so far as the invariant); then it gives one file for each, in their order.
`generate_eq_ok` says this of schemas, and `Schema.Generable` in terms of
what they declare.
-/
import SchemaSharp.Generate
import SchemaSharp.Proofs.Declaration

namespace SchemaSharp

namespace Descriptor

theorem fileName_eq (d : Descriptor) : d.fileName = d.name ++ ".cs" := by
  change d.name ++ "." ++ "cs" = d.name ++ ".cs"
  rw [String.append_assoc]
  rfl

theorem fileName_inj {d d' : Descriptor} : d.fileName = d'.fileName ↔ d.name = d'.name := by
  rw [fileName_eq, fileName_eq, String.append_left_inj]

theorem nodup_fileNames {ds : List Descriptor} :
    (ds.map fileName).Nodup ↔ (ds.map name).Nodup := by
  simp only [List.Nodup, List.pairwise_map, ne_eq, fileName_inj]

theorem rejection?_eq_none {earlier : List String} {d : Descriptor} :
    d.rejection? earlier = none ↔ d.name ≠ "" ∧ d.fileName ∉ earlier := by
  unfold rejection?
  by_cases hn : d.name = ""
  · simp [hn]
  · by_cases he : d.fileName ∈ earlier <;> simp [hn, he]

end Descriptor

/-- The file of a descriptor: its name and its rendering. -/
def SourceFile.Holds (render : Descriptor → Except GenerateError String) (d : Descriptor)
    (f : SourceFile) : Prop :=
  f.name = d.fileName ∧ render d = .ok f.content

theorem SourceFile.names_eq {render : Descriptor → Except GenerateError String}
    {ds : List Descriptor} {files : List SourceFile}
    (h : List.Forall₂ (fun d f => f.Holds render d) ds files) :
    files.map (·.name) = (ds.map Descriptor.name).map (· ++ ".cs") := by
  rw [List.map_map, ← List.forall₂_eq_eq_eq, List.forall₂_map_left_iff, List.forall₂_map_right_iff]
  refine h.flip.imp fun f d hf => ?_
  rw [hf.1, Descriptor.fileName_eq]
  rfl

/-- The file of a descriptor that can be rendered. -/
def SourceFile.of (render : Descriptor → Except GenerateError String) (d : Descriptor) :
    SourceFile :=
  ⟨d.fileName, (render d).toOption.getD ""⟩

theorem SourceFile.eq_map_of {render : Descriptor → Except GenerateError String}
    {ds : List Descriptor} {files : List SourceFile}
    (h : List.Forall₂ (fun d f => f.Holds render d) ds files) : files = ds.map (.of render) := by
  rw [← List.forall₂_eq_eq_eq, List.forall₂_map_right_iff]
  refine h.flip.imp fun f d hf => ?_
  rw [SourceFile.of, hf.2, ← hf.1]
  rfl

namespace Run

theorem after_result (event : Event) (r : Run) : (r.after event).result = r.result := rfl

theorem completed_result (r : Run) : r.completed.result = r.result := by
  unfold completed
  split <;> rfl

variable {render : Descriptor → Except GenerateError String} {earlier : List String}

theorem ofDescriptors_cons_eq_ok {d : Descriptor} {ds : List Descriptor} {files : List SourceFile} :
    (ofDescriptors render earlier (d :: ds)).result = .ok files ↔
      (d.name ≠ "" ∧ d.fileName ∉ earlier) ∧ ∃ f rest, files = f :: rest ∧ f.Holds render d ∧
        (ofDescriptors render (d.fileName :: earlier) ds).result = .ok rest := by
  rw [← Descriptor.rejection?_eq_none]
  rw [ofDescriptors]
  cases hr : d.rejection? earlier with
  | some e => simp
  | none =>
    cases hc : render d with
    | error e => simp [SourceFile.Holds, hc]
    | ok content =>
      simp only [afterFile, map_eq_ok, SourceFile.Holds, hc, true_and, Except.ok.injEq]
      refine ⟨fun h => ?_, fun h => ?_⟩
      · obtain ⟨rest, h, rfl⟩ := h
        exact ⟨⟨d.fileName, content⟩, rest, rfl, ⟨rfl, rfl⟩, h⟩
      · obtain ⟨⟨_, _⟩, rest, rfl, ⟨rfl, rfl⟩, h⟩ := h
        exact ⟨rest, h, rfl⟩

/-- **A run goes well exactly if every descriptor has a name of its own,
which no earlier file has, and can be rendered.** Then there is one file for
each, in their order. -/
theorem ofDescriptors_eq_ok {ds : List Descriptor} {files : List SourceFile} :
    (ofDescriptors render earlier ds).result = .ok files ↔
      ((∀ d ∈ ds, d.name ≠ "" ∧ d.fileName ∉ earlier) ∧ (ds.map Descriptor.fileName).Nodup) ∧
        List.Forall₂ (fun d f => f.Holds render d) ds files := by
  induction ds generalizing earlier files with
  | nil => cases files <;> simp [ofDescriptors]
  | cons d ds ih =>
    simp only [ofDescriptors_cons_eq_ok, ih, List.mem_cons, forall_eq_or_imp, List.map_cons,
      List.nodup_cons, List.mem_map, not_or, not_exists, not_and]
    refine ⟨fun h => ?_, fun h => ?_⟩
    · obtain ⟨hd, f, rest, rfl, hf, ⟨hds, hnd⟩, hrest⟩ := h
      exact ⟨⟨⟨hd, fun d' h => ⟨(hds d' h).1, (hds d' h).2.2⟩⟩, fun d' h => (hds d' h).2.1, hnd⟩,
        .cons hf hrest⟩
    · obtain ⟨⟨⟨hd, hds⟩, hne, hnd⟩, hs⟩ := h
      cases hs with
      | cons hf hs =>
        exact ⟨hd, _, _, rfl, hf, ⟨fun d' h => ⟨(hds d' h).1, hne d' h, (hds d' h).2⟩, hnd⟩, hs⟩

end Run

theorem generate_eq (s : Schema) (options : Options) :
    generate s options = (Run.ofDescriptors (·.render (.ofSchema s) options) [] s.outputs).result := by
  unfold generate run
  split
  · rw [Run.after_result, Run.completed_result]
  · rw [Run.completed_result]

/-- **The files of a schema**: they are there exactly if the names of the
outputs are distinct and not empty, and each holds the rendering of one. -/
theorem generate_eq_ok {s : Schema} {options : Options} {files : List SourceFile} :
    generate s options = .ok files ↔
      ((∀ d ∈ s.outputs, d.name ≠ "") ∧ (s.outputs.map Descriptor.name).Nodup) ∧
        List.Forall₂ (fun d f => f.Holds (·.render (.ofSchema s) options) d) s.outputs files := by
  rw [generate_eq, Run.ofDescriptors_eq_ok, Descriptor.nodup_fileNames]
  simp

/-- The file of a descriptor stands where the descriptor does. -/
theorem files_eq_map {s : Schema} {options : Options} {files : List SourceFile}
    (h : generate s options = .ok files) :
    files = s.outputs.map (.of (·.render (.ofSchema s) options)) :=
  SourceFile.eq_map_of (generate_eq_ok.mp h).2

theorem exists_generate {s : Schema} {options : Options} :
    (∃ files, generate s options = .ok files) ↔
      ((∀ d ∈ s.outputs, d.name ≠ "") ∧ (s.outputs.map Descriptor.name).Nodup) ∧
        ∀ d ∈ s.outputs, d.Renders (.ofSchema s) := by
  simp only [generate_eq_ok, exists_and_left, exists_forall₂_iff,
    ← Descriptor.exists_render _ options]
  refine and_congr_right fun _ => forall₂_congr fun d _ => ⟨fun h => ?_, fun h => ?_⟩
  · obtain ⟨f, _, hf⟩ := h
    exact ⟨_, hf⟩
  · obtain ⟨text, htext⟩ := h
    exact ⟨⟨_, text⟩, rfl, htext⟩

namespace Schema

/-- What a schema has to declare for a run over it to go well. -/
structure Generable (s : Schema) : Prop where
  named : ∀ d ∈ s.outputs, d.name ≠ ""
  distinct : (s.outputs.map Descriptor.name).Nodup
  classTypes : ∀ c ∈ s.classes, ∀ p ∈ c.properties, p.Resolves s.Declares
  interfaceTypes : ∀ i ∈ s.interfaces, ∀ p ∈ i.properties, p.Resolves s.Declares
  integers : ∀ e ∈ s.enums, e.name ≠ "OPERATION" → e.kind = .enumeration →
    ∀ m ∈ e.members, ∀ n, m.value = .integer n → FitsInt32 n.toInt

theorem userEnums_eq (s : Schema) : s.userEnums = s.enums.filter (·.name ≠ "OPERATION") := by
  unfold userEnums
  refine List.filter_congr fun e _ => ?_
  rw [decide_not]
  rfl

theorem renders_outputs (s : Schema) :
    (∀ d ∈ s.outputs, d.Renders (.ofSchema s)) ↔
      (∀ c ∈ s.classes, ∀ p ∈ c.properties, p.Resolves s.Declares) ∧
      (∀ i ∈ s.interfaces, ∀ p ∈ i.properties, p.Resolves s.Declares) ∧
      ∀ e ∈ s.enums, e.name ≠ "OPERATION" → e.kind = .enumeration → ∀ m ∈ e.members, m.FitsInt := by
  simp only [outputs, userEnums_eq, List.mem_append, List.mem_map, List.mem_filter, or_imp,
    forall_and, forall_exists_index, and_imp, forall_apply_eq_imp_iff₂, Descriptor.Renders,
    TypeTable.lists_ofSchema, decide_eq_true_eq]
  grind

theorem names_outputs (s : Schema) :
    s.outputs.map Descriptor.name = s.classes.map (·.name) ++ s.interfaces.map (·.name) ++
      (s.enums.filter (·.name ≠ "OPERATION")).map (·.name) := by
  simp only [outputs, userEnums_eq, List.map_append, List.map_map]
  rfl

end Schema

/-- **When generation succeeds, and with what.** A run over a schema goes
well exactly if the schema is generable. Then it gives one file for every
class, interface and enum but the reserved one, in this order, named after
it and holding its rendering over the types of the schema; no two files have
the same name. -/
theorem generate_succeeds_iff (s : Schema) (options : Options) :
    ((∃ files, generate s options = .ok files) ↔ s.Generable) ∧
    ∀ files, generate s options = .ok files →
      files.map (·.name) = (s.classes.map (·.name) ++ s.interfaces.map (·.name) ++
        (s.enums.filter (·.name ≠ "OPERATION")).map (·.name)).map (· ++ ".cs") ∧
      (files.map (·.name)).Nodup ∧
      files.length = s.classes.length + s.interfaces.length +
        (s.enums.filter (·.name ≠ "OPERATION")).length ∧
      List.Forall₂ (fun d f => d.render (.ofSchema s) options = .ok f.content) s.outputs files := by
  refine ⟨?_, fun files h => ?_⟩
  · rw [exists_generate, s.renders_outputs]
    refine ⟨fun h => ?_, fun h => ?_⟩
    · obtain ⟨⟨hn, hd⟩, hc, hi, he⟩ := h
      exact ⟨hn, hd, hc, hi, he⟩
    · obtain ⟨hn, hd, hc, hi, he⟩ := h
      exact ⟨⟨hn, hd⟩, hc, hi, he⟩
  · obtain ⟨⟨_, hd⟩, hs⟩ := generate_eq_ok.mp h
    have hnames := SourceFile.names_eq hs
    refine ⟨by rw [hnames, s.names_outputs], ?_, ?_, hs.imp fun d f hf => hf.2⟩
    · rw [hnames]
      simpa only [List.Nodup, List.pairwise_map, ne_eq, String.append_left_inj] using hd
    · rw [← hs.length_eq]
      simp [Schema.outputs, Schema.userEnums_eq, Nat.add_assoc]

/-- A class with fields of a primitive and of an enum, an interface with a
list, that enum, and the reserved one. -/
def paletteSchema : Schema where
  classes := [⟨"Player", "Schema",
    [{ name := "hp", type := "int32" }, { name := "color", index := 1, type := "ColorEnum" }]⟩]
  interfaces := [⟨"JoinOptions",
    [{ name := "tags", type := "array", child := some (.ofName "string") }]⟩]
  enums := [⟨"ColorEnum", .enumeration, [⟨"Red", .integer 7⟩]⟩, ⟨"OPERATION", .constantGroup, []⟩]

theorem paletteSchema_generable : paletteSchema.Generable where
  named := by decide
  distinct := by decide
  classTypes := by
    simp only [paletteSchema, List.mem_cons, List.not_mem_nil, or_false, forall_eq_or_imp,
      forall_eq, Property.Resolves]
    refine ⟨⟨fun kind => ?_, .inl ⟨.int32, rfl⟩⟩, fun kind => ?_, .inr ⟨_, .head _, rfl⟩⟩ <;>
      cases kind <;> decide
  interfaceTypes := by
    simp only [paletteSchema, List.mem_cons, List.not_mem_nil, or_false, forall_eq,
      Property.Resolves]
    exact ⟨.inr (.inl ⟨.string, rfl⟩), .inr ⟨.array, rfl⟩⟩
  integers := by
    simp only [paletteSchema, List.mem_cons, List.not_mem_nil, or_false, forall_eq_or_imp,
      forall_eq, MemberValue.integer.injEq, forall_eq']
    exact ⟨fun _ _ => by decide, fun h => absurd rfl h⟩

/-- The reserved enum is a type and gets no file. -/
theorem generate_succeeds_palette :
    ∃ files, generate paletteSchema {} = .ok files ∧
      files.map (·.name) = ["Player.cs", "JoinOptions.cs", "ColorEnum.cs"] := by
  obtain ⟨files, h⟩ := (generate_succeeds_iff paletteSchema {}).1.mpr paletteSchema_generable
  refine ⟨files, h, ?_⟩
  rw [((generate_succeeds_iff paletteSchema {}).2 files h).1]
  decide

end SchemaSharp
