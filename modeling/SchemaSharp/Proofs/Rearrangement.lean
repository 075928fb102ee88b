/-
Schemas declared in another order.

Where the classes, the interfaces and the enums of a schema are rearranged, each
among themselves, its table gives the same answers, so every declaration is rendered
as before; and whether names are missing or repeated does not depend on an order
either. So a run goes well over both schemas or over neither, and every declaration
keeps its file (`generate_rearranged`).
-/
import SchemaSharp.Proofs.Dependence

namespace SchemaSharp

/-- Schemas with the same declarations, those of each kind in any order. -/
structure Schema.Rearranged (s s' : Schema) : Prop where
  classes : s.classes.Perm s'.classes
  interfaces : s.interfaces.Perm s'.interfaces
  enums : s.enums.Perm s'.enums

namespace Schema.Rearranged

variable {s s' : Schema}

theorem symm (h : s.Rearranged s') : s'.Rearranged s where
  classes := h.classes.symm
  interfaces := h.interfaces.symm
  enums := h.enums.symm

theorem agrees (h : s.Rearranged s') : (TypeTable.ofSchema s).Agrees (.ofSchema s') :=
  TypeTable.agrees_ofSchema fun _ => (h.enums.map _).mem_iff

theorem outputs (h : s.Rearranged s') : s.outputs.Perm s'.outputs :=
  ((h.classes.map _).append (h.interfaces.map _)).append ((h.enums.filter _).map _)

theorem render (h : s.Rearranged s') (options : Options) (d : Descriptor) :
    d.render (.ofSchema s) options = d.render (.ofSchema s') options :=
  d.render_congr h.agrees rfl rfl

theorem exists_generate (h : s.Rearranged s') {options : Options}
    (hs : ∃ files, generate s options = .ok files) : ∃ files, generate s' options = .ok files := by
  obtain ⟨⟨hnamed, hdistinct⟩, hrenders⟩ := SchemaSharp.exists_generate.mp hs
  refine SchemaSharp.exists_generate.mpr ⟨⟨fun d hd => hnamed d (h.outputs.mem_iff.mpr hd),
    (h.outputs.map _).nodup_iff.mp hdistinct⟩, fun d hd => ?_⟩
  have htext := (d.exists_render options).mpr (hrenders d (h.outputs.mem_iff.mpr hd))
  rw [h.render options d] at htext
  exact (d.exists_render options).mp htext

theorem zip_files (h : s.Rearranged s') {options : Options} {files files' : List SourceFile}
    (hs : generate s options = .ok files) (hs' : generate s' options = .ok files') :
    (s.outputs.zip files).Perm (s'.outputs.zip files') := by
  have hrender : (fun d : Descriptor => d.render (.ofSchema s) options) =
      fun d => d.render (.ofSchema s') options := funext (h.render options)
  rw [files_eq_map hs, files_eq_map hs', hrender, ← List.map_prod_left_eq_zip,
    ← List.map_prod_left_eq_zip]
  exact h.outputs.map _

end Schema.Rearranged

/-- **The order of declarations does not matter.** Over a schema with its classes,
its interfaces and its enums rearranged, each among themselves, a run goes well
exactly if it goes well over the schema itself. Then every declaration has the same
file in both, which stands where the declaration does; and every property has the
same type, or the same reason for none, wherever its enum is declared. -/
theorem generate_rearranged {s s' : Schema} (hc : s.classes.Perm s'.classes)
    (hi : s.interfaces.Perm s'.interfaces) (he : s.enums.Perm s'.enums) (options : Options) :
    ((∃ files, generate s options = .ok files) ↔ ∃ files, generate s' options = .ok files) ∧
    (∀ files files', generate s options = .ok files → generate s' options = .ok files' →
      (s.outputs.zip files).Perm (s'.outputs.zip files') ∧
      ∀ (i j : Nat) (d : Descriptor), s.outputs[i]? = some d → s'.outputs[j]? = some d →
        ∃ f, files[i]? = some f ∧ files'[j]? = some f) ∧
    ∀ (owner : String) (p : Property),
      (TypeTable.ofSchema s).resolve owner p = (TypeTable.ofSchema s').resolve owner p ∧
      (TypeTable.ofSchema s).resolveCarrier owner p =
        (TypeTable.ofSchema s').resolveCarrier owner p := by
  have h : s.Rearranged s' := ⟨hc, hi, he⟩
  refine ⟨⟨h.exists_generate, h.symm.exists_generate⟩, fun files files' hs hs' => ⟨?_, ?_⟩,
    fun owner p => ⟨?_, ?_⟩⟩
  · exact h.zip_files hs hs'
  · exact fun i j d => exists_file (h.render options d) hs hs'
  · exact TypeTable.resolve_congr h.agrees owner p
  · exact TypeTable.resolveCarrier_congr h.agrees owner p

/-- A class that comes before the enum of its property. -/
def fleetSchema : Schema where
  classes := [⟨"Ship", "Schema", [{ name := "rank", type := "Rank" }]⟩]
  enums := [⟨"Rank", .constantGroup, []⟩, ⟨"OPERATION", .constantGroup, []⟩,
    ⟨"Course", .constantGroup, []⟩]

/-- The same declarations, the last enum first. -/
def turnedFleetSchema : Schema := { fleetSchema with enums := fleetSchema.enums.reverse }

theorem generate_rearranged_fleet :
    fleetSchema.classes.Perm turnedFleetSchema.classes ∧
    fleetSchema.interfaces.Perm turnedFleetSchema.interfaces ∧
    fleetSchema.enums.Perm turnedFleetSchema.enums ∧
    ∃ ship rank course files, generate fleetSchema {} =
        .ok [⟨"Ship.cs", ship⟩, ⟨"Rank.cs", rank⟩, ⟨"Course.cs", course⟩] ∧
      generate turnedFleetSchema {} = .ok files ∧ files[0]? = some ⟨"Ship.cs", ship⟩ ∧
      files[1]? = some ⟨"Course.cs", course⟩ ∧ files[2]? = some ⟨"Rank.cs", rank⟩ := by
  have hclasses : fleetSchema.classes.Perm turnedFleetSchema.classes := .refl _
  have hinterfaces : fleetSchema.interfaces.Perm turnedFleetSchema.interfaces := .refl _
  have henums : fleetSchema.enums.Perm turnedFleetSchema.enums := (List.reverse_perm _).symm
  have hfiles : generate fleetSchema {} = .ok [
      ⟨"Ship.cs", "using Colyseus.Schema;\nusing UnityEngine.Scripting;\n\n" ++
        "public partial class Ship : Schema \x7b\n\t[Preserve]\n\tpublic Ship() \x7b \x7d\n\n" ++
        "\t[Type(0, \"Rank\")]\n\tpublic Rank rank = default;\n\x7d\n"⟩,
      ⟨"Rank.cs", "public struct Rank \x7b\n\n\x7d\n"⟩,
      ⟨"Course.cs", "public struct Course \x7b\n\n\x7d\n"⟩] := by
    decide +kernel
  obtain ⟨hiff, hplaces, _⟩ := generate_rearranged hclasses hinterfaces henums {}
  obtain ⟨files, hturned⟩ := hiff.mp ⟨_, hfiles⟩
  obtain ⟨_, hfile⟩ := hplaces _ _ hfiles hturned
  obtain ⟨ship, hship, hship'⟩ := hfile 0 0 _ rfl rfl
  obtain ⟨course, hcourse, hcourse'⟩ := hfile 2 1 _ rfl rfl
  obtain ⟨rank, hrank, hrank'⟩ := hfile 1 2 _ rfl rfl
  obtain rfl := Option.some.inj hship
  obtain rfl := Option.some.inj hcourse
  obtain rfl := Option.some.inj hrank
  exact ⟨hclasses, hinterfaces, henums, _, _, _, files, hfiles, hturned, hship', hcourse', hrank'⟩

end SchemaSharp
