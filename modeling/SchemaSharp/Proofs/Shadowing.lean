/-
What one more enum does to the files of a schema.

Every earlier file stays where it was, under its name. Its content stays too,
unless the enum shadows a primitive, that is, has the name of one whose C#
type is called otherwise, and the descriptor looks a type up by this name:
then the enum takes the primitive's place in it.
-/
import SchemaSharp.Proofs.Generation
import SchemaSharp.Proofs.Renaming

namespace SchemaSharp

/-- An enum of this name takes the place of a primitive whose C# type has
another one. -/
def Shadows (name : String) : Prop := ∃ p : Primitive, p.schemaName = name ∧ p.csharpName ≠ name

/-- Putting the enum's name in the place of the C# type shows. -/
theorem Primitive.weight_ne {p : Primitive} (h : p.csharpName ≠ p.schemaName) :
    Renamed.weight p.csharpName ≠ Renamed.weight p.schemaName := by
  cases p <;> first | exact absurd rfl h | decide

namespace Schema

/-- A schema with one more enum. -/
def declare (s : Schema) (e : EnumDecl) : Schema := { s with enums := s.enums ++ [e] }

theorem outputs_declare (s : Schema) (e : EnumDecl) :
    (s.declare e).outputs = s.outputs ++ if e.isReserved then [] else [.ofEnum e] := by
  unfold outputs declare userEnums
  cases h : e.isReserved <;> simp [h]

theorem ofSchema_declare (s : Schema) (e : EnumDecl) :
    TypeTable.ofSchema (s.declare e) = (TypeTable.ofSchema s).register e.name := by
  simp [TypeTable.ofSchema, declare]

end Schema

/-- **A rendering changes exactly if it looks up a primitive that the new
enum shadows.** -/
theorem Descriptor.render_declare {s : Schema} {e : EnumDecl} {d : Descriptor} {options : Options}
    {text text' : String} (hn : ∀ e' ∈ s.enums, e'.name ≠ e.name)
    (h : d.render (.ofSchema s) options = .ok text)
    (h' : d.render (.ofSchema (s.declare e)) options = .ok text') :
    text' = text ↔ ¬(Shadows e.name ∧ d.looksUp e.name = true) := by
  have hl : (TypeTable.ofSchema s).lookup e.name =
      (Primitive.ofName? e.name).map Primitive.csharpName := by
    rw [TypeTable.lookup_ofSchema, if_neg (by simpa using hn)]
  have hr : ∀ a, (∀ target, (TypeTable.ofSchema s).lookup e.name = some target → target = a) →
      Renamed a e.name (d.looksUp e.name) text text' := by
    intro a ha
    obtain ⟨text₁, h₁, hr⟩ := render_register ha h
    rw [Schema.ofSchema_declare, h₁] at h'
    cases h'
    exact hr
  by_cases hs : Shadows e.name
  · obtain ⟨p, hp, hne⟩ := hs
    have hp' : Primitive.ofName? e.name = some p := Primitive.ofName?_eq_some.mpr hp
    rw [hp', Option.map_some] at hl
    have hw : Renamed.weight p.csharpName ≠ Renamed.weight e.name := by
      rw [← hp] at hne ⊢
      exact Primitive.weight_ne hne
    have ht := hr p.csharpName (fun target h => by simpa [hl, eq_comm] using h)
    rw [Renamed.eq_iff hw ht, ← Bool.not_eq_true]
    exact not_congr ⟨fun hd => ⟨⟨p, hp, hne⟩, hd⟩, fun hd => hd.2⟩
  · have ht := hr e.name (fun target h => by
      rw [hl] at h
      obtain ⟨p, hp, rfl⟩ := Option.map_eq_some_iff.mp h
      by_contra hne
      exact hs ⟨p, Primitive.ofName?_eq_some.mp hp, hne⟩)
    exact iff_of_true ht.eq_of_same_name (fun hd => hs hd.1)

theorem SourceFile.eq_of_parts {f f' : SourceFile} (hn : f.name = f'.name)
    (hc : f.content = f'.content) : f = f' := by
  cases f
  cases f'
  rw [SourceFile.mk.injEq]
  exact ⟨hn, hc⟩

/-- **One more enum and the earlier files.** If generation succeeds without
and with one more enum, whose name no descriptor has, then the earlier files
stay where they were, under their names, and at most the enum's own file
comes after them. A descriptor's file has another content than before if and
only if the enum shadows a primitive that the descriptor looks up. -/
theorem generate_declare {s : Schema} {options : Options} {e : EnumDecl}
    {files files' : List SourceFile} (hn : e.name ∉ s.declarations.map Descriptor.name)
    (h : generate s options = .ok files) (h' : generate (s.declare e) options = .ok files') :
    ∃ kept own, files' = kept ++ own ∧
      kept.map (·.name) = files.map (·.name) ∧
      own.map (·.name) = (if e.isReserved then [] else [e.name ++ ".cs"]) ∧
      (¬Shadows e.name → kept = files) ∧
      ∀ (i : Nat) (d : Descriptor) (f f' : SourceFile),
        s.outputs[i]? = some d → files[i]? = some f → kept[i]? = some f' →
          (f'.content = f.content ↔ ¬(Shadows e.name ∧ d.looksUp e.name = true)) := by
  have hs := (generate_eq_ok.mp h).2
  have hs' := (generate_eq_ok.mp h').2
  rw [Schema.outputs_declare] at hs'
  obtain ⟨kept, own, rfl, hkept, hown⟩ := forall₂_append_inv hs'
  have he : ∀ e' ∈ s.enums, e'.name ≠ e.name := by
    intro e' he' hee
    refine hn (List.mem_map.mpr ⟨.ofEnum e', ?_, hee⟩)
    exact List.mem_append_right _ (List.mem_map_of_mem he')
  have hnames : kept.map (·.name) = files.map (·.name) := by
    rw [SourceFile.names_eq hkept, SourceFile.names_eq hs]
  have hcontent : ∀ (i : Nat) (d : Descriptor) (f f' : SourceFile),
      s.outputs[i]? = some d → files[i]? = some f → kept[i]? = some f' →
        (f'.content = f.content ↔ ¬(Shadows e.name ∧ d.looksUp e.name = true)) := by
    intro i d f f' hd hf hf'
    exact Descriptor.render_declare he (forall₂_getElem? hs hd hf).2
      (forall₂_getElem? hkept hd hf').2
  refine ⟨kept, own, rfl, hnames, ?_, fun hsh => ?_, hcontent⟩
  · rw [SourceFile.names_eq hown]
    split <;> rfl
  · have hlen : kept.length = files.length := by simpa using congrArg List.length hnames
    refine List.ext_getElem hlen fun i hi hj => ?_
    have hd : i < s.outputs.length := by rwa [hs.length_eq]
    have hname : kept[i].name = files[i].name := by
      simpa [hi, hj] using congrArg (·[i]?) hnames
    have hsame : kept[i].content = files[i].content :=
      (hcontent i _ _ _ (List.getElem?_eq_getElem hd) (List.getElem?_eq_getElem hj)
        (List.getElem?_eq_getElem hi)).mpr fun hd => hsh hd.1
    exact SourceFile.eq_of_parts hname hsame

/-- The class has a number, the interface has none. -/
def duelSchema : Schema where
  classes := [⟨"Player", "Schema", [{ name := "hp", type := "number" }]⟩]
  interfaces := [⟨"Taunt", [{ name := "words", type := "string" }]⟩]

/-- The name of a primitive whose C# type is `float`. -/
def numberEnum : EnumDecl := ⟨"number", .constantGroup, []⟩

/-- The files of the duel, by the type that hit points have. -/
def duelFiles (hpType : String) : List SourceFile :=
  [⟨"Player.cs", "using Colyseus.Schema;\nusing UnityEngine.Scripting;\n\n" ++
      "public partial class Player : Schema \x7b\n" ++
      "\t[Preserve]\n\tpublic Player() \x7b \x7d\n\n" ++
      "\t[Type(0, \"number\")]\n\tpublic " ++ hpType ++ " hp = default;\n\x7d\n"⟩,
    ⟨"Taunt.cs", "using MessagePack;\n\n[MessagePackObject(keyAsPropertyName: true)]\n" ++
      "public class Taunt \x7b\n\tpublic string words;\n\x7d\n"⟩]

set_option maxRecDepth 4000 in
theorem generate_duel : generate duelSchema {} = .ok (duelFiles "float") := rfl

set_option maxRecDepth 4000 in
theorem generate_duel_declare : generate (duelSchema.declare numberEnum) {} =
    .ok (duelFiles "number" ++ [⟨"number.cs", "public struct number \x7b\n\n\x7d\n"⟩]) := rfl

/-- The number becomes one of the enum, the text of the interface stays. -/
theorem generate_declare_duel :
    numberEnum.name ∉ duelSchema.declarations.map Descriptor.name ∧
    ∃ files files', generate duelSchema {} = .ok files ∧
      generate (duelSchema.declare numberEnum) {} = .ok files' ∧
      ∃ kept own, files' = kept ++ own ∧ own.map (·.name) = ["number.cs"] ∧
        (∀ f f', files[0]? = some f → kept[0]? = some f' → f'.content ≠ f.content) ∧
        ∀ f f', files[1]? = some f → kept[1]? = some f' → f'.content = f.content := by
  have hn : numberEnum.name ∉ duelSchema.declarations.map Descriptor.name := by decide
  obtain ⟨kept, own, hfiles, _, hown, _, hcontent⟩ :=
    generate_declare hn generate_duel generate_duel_declare
  refine ⟨hn, _, _, generate_duel, generate_duel_declare, kept, own, hfiles, hown,
    fun f f' hf hf' => ?_, fun f f' hf hf' => ?_⟩
  · have hc := hcontent 0 _ f f' rfl hf hf'
    exact fun heq => hc.mp heq ⟨⟨.number, rfl, by decide⟩, by decide⟩
  · have hc := hcontent 1 _ f f' rfl hf hf'
    exact hc.mpr fun hd => absurd hd.2 (by decide)

/-- An enum can change the file of a class, whose name is another. -/
theorem declare_can_change_files :
    ¬ ∀ (s : Schema) (options : Options) (e : EnumDecl) (files files' : List SourceFile),
      e.name ≠ "" → e.name ∉ s.declarations.map Descriptor.name →
      generate s options = .ok files → generate (s.declare e) options = .ok files' →
      (∀ f ∈ files, f ∈ files') ∧ files'.length ≤ files.length + 1 := by
  intro h
  have hd := h duelSchema {} numberEnum _ _ (by decide) (by decide) generate_duel
    generate_duel_declare
  exact absurd (hd.1 _ (.head _)) (by decide +kernel)

end SchemaSharp
