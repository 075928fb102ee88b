/-
Braces of generated files.

In every file that is generated from plain names the braces match, whatever the
texts of members are (`generate_nested`). A line of a file is indented by the depth
of braces that it stands at, those apart that close one (`Line.Nests`); lines in a
row keep this (`Nested`), and a namespace around them moves both by one
(`Nested.indent`). So the fields, constants and members of a declaration stand in
its braces, and in those of the namespace if there is one.
-/
import SchemaSharp.Proofs.Generation
import SchemaSharp.Proofs.Lines

namespace SchemaSharp

/-! ## Lines and depths -/

namespace Line

/-- The depths of braces in front of a line and behind it. The line is indented by
the depth that it stands at. -/
inductive Nests : Nat → Line → Nat → Prop
  | blank (k : Nat) : Nests k .blank k
  | flat (k : Nat) {t : String} (h : IsFlat t) : Nests k (.code k t) k
  | opening (k : Nat) {t : String} (h : IsFlat t) : Nests k (.code k (t ++ " \x7b")) (k + 1)
  | empty (k : Nat) {t : String} (h : IsFlat t) : Nests k (.code k (t ++ " \x7b \x7d")) k
  | closing (k : Nat) : Nests (k + 1) (.code k "\x7d") k

theorem toList_text_code (depth : Nat) (t : String) :
    (code depth t).text.toList = List.replicate depth '\t' ++ t.toList := by
  rw [text, String.toList_append, String.toList_ofList]

theorem flat_tabs (depth : Nat) : Flat .code (List.replicate depth '\t') :=
  flat_of_isPlain (by decide) fun c hc => by
    rw [List.eq_of_mem_replicate hc]
    decide

theorem flat_text {t : String} (depth : Nat) (h : IsFlat t) :
    Flat .code (code depth t).text.toList := by
  rw [toList_text_code]
  exact (flat_tabs depth).append h

theorem toList_text_append (depth : Nat) (t s : String) :
    (code depth (t ++ s)).text.toList = (code depth t).text.toList ++ s.toList := by
  rw [toList_text_code, toList_text_code, String.toList_append, List.append_assoc]

theorem scanned_newline (k : Nat) : Scanned k ['\n'] k :=
  .singleton rfl (Int.natCast_nonneg k) (Int.natCast_nonneg k)

theorem scanned_blank (k : Nat) : Scanned k [' '] k :=
  .singleton rfl (Int.natCast_nonneg k) (Int.natCast_nonneg k)

theorem scanned_open (k : Nat) : Scanned k ['\x7b'] ((k + 1 : Nat) : Int) :=
  .singleton rfl (Int.natCast_nonneg k) (Int.natCast_nonneg _)

theorem scanned_close (k : Nat) : Scanned ((k + 1 : Nat) : Int) ['\x7d'] k := by
  refine .singleton ?_ (Int.natCast_nonneg _) (Int.natCast_nonneg k)
  simp [codeAt, Scan.step]

namespace Nests

variable {j k depth : Nat} {l : Line}

theorem indent (h : Nests j l k) : Nests (j + 1) l.indent (k + 1) := by
  cases h with
  | blank => exact .blank _
  | flat _ h => exact .flat _ h
  | opening _ h => exact .opening _ h
  | empty _ h => exact .empty _ h
  | closing => exact .closing _

theorem scanned (h : Nests j l k) : Scanned j (l.text.toList ++ ['\n']) k := by
  refine Scanned.append ?_ (scanned_newline k)
  have hj := Int.natCast_nonneg j
  cases h with
  | blank => exact .nil hj
  | flat _ h => exact (flat_text j h).scanned hj
  | opening _ h =>
    rw [toList_text_append]
    exact ((flat_text j h).scanned hj).append ((scanned_blank j).append (scanned_open j))
  | empty _ h =>
    rw [toList_text_append]
    exact ((flat_text j h).scanned hj).append ((scanned_blank j).append
      ((scanned_open j).append ((scanned_blank (j + 1)).append (scanned_close j))))
  | closing =>
    rw [toList_text_code]
    exact ((flat_tabs k).scanned hj).append (scanned_close k)

theorem depth_eq {t : String} (h : Nests j (.code depth t) k) (ht : IsFlat t) : j = depth := by
  cases h with
  | closing => exact absurd (Flat.ends ht 0) (by decide)
  | _ => rfl

end Nests

end Line

/-- The lines between two depths. -/
inductive Nested : Nat → List Line → Nat → Prop
  | nil (k : Nat) : Nested k [] k
  | cons {j k m : Nat} {l : Line} {ls : List Line} (hl : l.Nests j k) (hls : Nested k ls m) :
      Nested j (l :: ls) m

namespace Nested

variable {j k m depth : Nat} {l : Line} {ls ms : List Line}

theorem append (hl : Nested j ls k) (hm : Nested k ms m) : Nested j (ls ++ ms) m := by
  induction hl with
  | nil => exact hm
  | cons hl _ ih => exact .cons hl (ih hm)

theorem of_append (h : Nested j (ls ++ ms) m) : ∃ k, Nested j ls k ∧ Nested k ms m := by
  induction ls generalizing j with
  | nil => exact ⟨j, .nil j, h⟩
  | cons l ls ih =>
    cases h with
    | cons hl hrest =>
      obtain ⟨k, hls, hms⟩ := ih hrest
      exact ⟨k, .cons hl hls, hms⟩

theorem of_stays (h : ∀ l ∈ ls, l.Nests k k) : Nested k ls k := by
  induction ls with
  | nil => exact .nil k
  | cons l ls ih => exact .cons (h l (.head _)) (ih fun m hm => h m (.tail _ hm))

/-- **Indenting lines moves the depths by one.** -/
theorem indent (h : Nested j ls k) : Nested (j + 1) (ls.map Line.indent) (k + 1) := by
  induction h with
  | nil => exact .nil _
  | cons hl _ ih => exact .cons hl.indent ih

theorem scanned (h : Nested j ls k) : Scanned j (Line.join ls).toList k := by
  induction h with
  | nil k => exact .nil (Int.natCast_nonneg k)
  | cons hl _ ih =>
    rw [Line.join_cons, String.toList_append, String.toList_append]
    exact hl.scanned.append ih

theorem balanced (h : Nested 0 ls 0) : Balanced (Line.join ls) := h.scanned

end Nested

/-- Wherever a line stands among others, all of it stands at the depth. -/
def Line.StandsAt (line : Line) (depth : Nat) (lines : List Line) : Prop :=
  ∀ before after, lines = before ++ line :: after →
    ∀ p, p <+: line.text.toList →
      ((codeAt 0).through ((Line.join before).toList ++ p)).depth = depth

theorem Nested.standsAt {lines : List Line} {k depth : Nat} (h : Nested 0 lines k) {t : String}
    (ht : IsFlat t) : (Line.code depth t).StandsAt depth lines := by
  intro before after hlines p hp
  rw [hlines] at h
  obtain ⟨j, hbefore, hrest⟩ := h.of_append
  cases hrest with
  | cons hline _ =>
    obtain rfl := hline.depth_eq ht
    have hends : (codeAt 0).through (Line.join before).toList = codeAt j := hbefore.scanned.ends
    rw [Scan.through_append, hends]
    exact (Line.flat_text j ht).depth j p hp

/-! ## Fields -/

section Fields

variable {table : TypeTable} {p : Property} {owner : String} {lines : List String}

theorem Property.isFlat_typeArguments (hp : ∀ name ∈ p.names, Plain name) {type : TypeExpr}
    (ht : Plain type.text) : IsFlat (p.typeArguments type) := by
  have htype : Plain p.type := hp _ (by simp [names])
  unfold typeArguments
  refine IsFlat.append htype.isFlat_quoted ?_
  cases hc : p.child with
  | none => exact (by decide : Plain "").isFlat
  | some child =>
    have hchild : Plain child.name := hp _ (by simp [names, hc])
    have htypeof : Plain (", typeof(" ++ type.text ++ ")") :=
      plain_append.mpr ⟨plain_append.mpr ⟨by decide, ht⟩, by decide⟩
    refine IsFlat.append htypeof.isFlat ?_
    split
    · exact Plain.isFlat (by decide)
    · have hsplit : s!", \"{child.name}\"" = ", " ++ ("\"" ++ child.name ++ "\"") := by
        simp only [← String.append_assoc]
        rfl
      rw [hsplit]
      exact IsFlat.append (Plain.isFlat (by decide)) hchild.isFlat_quoted

theorem Property.isFlat_obsoleteLine (h : Plain p.name) : IsFlat p.obsoleteLine := by
  have hmessage : Plain ("field '" ++ p.name ++ "' is deprecated.") :=
    plain_append.mpr ⟨plain_append.mpr ⟨by decide, h⟩, by decide⟩
  have hsplit : p.obsoleteLine = "[System.Obsolete(" ++
      ("\"" ++ ("field '" ++ p.name ++ "' is deprecated.") ++ "\"") ++ ", true)]" := by
    unfold obsoleteLine
    apply String.toList_injective
    simp [toString]
  rw [hsplit]
  exact (IsFlat.append (Plain.isFlat (by decide)) hmessage.isFlat_quoted).append
    (Plain.isFlat (by decide))

theorem Property.isFlat_trackedField (ht : table.Built) (hp : ∀ name ∈ p.names, Plain name)
    (h : p.trackedField table owner = .ok lines) : ∀ line ∈ lines, IsFlat line := by
  intro line hline
  obtain ⟨type, htyped, hcases⟩ := exists_of_mem_trackedField h hline
  have hname : Plain p.name := hp _ (by simp [names])
  have htype : Plain type.text := htyped.plain_text ht hp rfl
  rcases hcases with rfl | rfl | rfl
  · exact isFlat_obsoleteLine hname
  · have hfront : Plain ("[Type(" ++ Numeral.natText p.index.toNat ++ ", ") :=
      plain_append.mpr ⟨plain_append.mpr ⟨by decide, plain_natText _⟩, by decide⟩
    exact (hfront.isFlat.append (p.isFlat_typeArguments hp htype)).append
      (Plain.isFlat (by decide))
  · refine Plain.isFlat ?_
    simp only [fieldLine, plain_append]
    exact ⟨⟨⟨⟨⟨⟨by decide, htype⟩, by decide⟩, hname⟩, by decide⟩, p.plain_initializer⟩, by decide⟩

theorem Property.isFlat_carrierField (ht : table.Built) (hp : ∀ name ∈ p.names, Plain name)
    (h : p.carrierField table owner = .ok lines) : ∀ line ∈ lines, IsFlat line := by
  intro line hline
  obtain ⟨tracked, htyped, rfl⟩ := exists_of_mem_carrierField h hline
  have hname : Plain p.name := hp _ (by simp [names])
  have htype : Plain tracked.flatten.text := htyped.plain_text ht hp tracked.target_flatten
  refine Plain.isFlat ?_
  simp only [carrierLine, plain_append]
  exact ⟨⟨⟨⟨by decide, htype⟩, by decide⟩, hname⟩, by decide⟩

/-- The line of an enum's member is flat, whatever its value is. -/
theorem EnumDecl.exists_memberLine (e : EnumDecl) {m : Member} (hm : Plain m.name) (i : Nat) :
    ∃ t, IsFlat t ∧ e.memberLine i m = .code 1 t := by
  unfold memberLine
  cases e.kind with
  | enumeration =>
    refine ⟨_, ?_, rfl⟩
    have hfront : Plain (m.name ++ " = ") := plain_append.mpr ⟨hm, by decide⟩
    exact (hfront.isFlat.append (m.value.isFlat_literal i)).append (Plain.isFlat (by decide))
  | constantGroup =>
    refine ⟨_, ?_, rfl⟩
    have hfront : Plain ("public const " ++ (m.value.constant i).type ++ " " ++ m.name ++ " = ") := by
      simp only [plain_append]
      exact ⟨⟨⟨⟨by decide, m.value.plain_constant_type i⟩, by decide⟩, hm⟩, by decide⟩
    exact (hfront.isFlat.append (m.value.isFlat_constant i)).append (Plain.isFlat (by decide))

end Fields

/-! ## Declarations -/

/-- The lines of the fields, constants or members of a declaration, in their order. -/
def Descriptor.fieldLines (d : Descriptor) (table : TypeTable) :
    Except GenerateError (List Line) :=
  match d with
  | ofClass c => (collectFields (·.trackedField table c.name) c.properties).map fun fields =>
    fields.flatten.map (.code 1)
  | ofInterface i => (collectFields (·.carrierField table i.name) i.properties).map fun fields =>
    fields.flatten.map (.code 1)
  | ofEnum e => .ok (e.members.mapIdx e.memberLine)

/-- Flat lines of fields that stand in a declaration whose braces match. -/
structure Source.HasFields (s : Source) (fields : List Line) : Prop where
  flat : ∀ line ∈ fields, ∃ t, IsFlat t ∧ line = .code 1 t
  sublist : fields.Sublist s.body
  nested : Nested 0 s.body 0

section Bodies

variable {table : TypeTable} {src : Source}

theorem flat_of_fields {fields : List (List String)}
    (h : ∀ lines ∈ fields, ∀ line ∈ lines, IsFlat line) :
    ∀ line ∈ fields.flatten.map (Line.code 1), ∃ t, IsFlat t ∧ line = .code 1 t := by
  intro line hline
  obtain ⟨t, ht, rfl⟩ := List.mem_map.mp hline
  obtain ⟨lines, hlines, ht⟩ := List.mem_flatten.mp ht
  exact ⟨t, h lines hlines t ht, rfl⟩

theorem nests_of_flat {fields : List Line} (h : ∀ line ∈ fields, ∃ t, IsFlat t ∧ line = .code 1 t) :
    ∀ line ∈ fields, line.Nests 1 1 := by
  intro line hline
  obtain ⟨t, ht, rfl⟩ := h line hline
  exact .flat 1 ht

theorem sublist_spaced (fields : List (List String)) :
    (fields.flatten.map (Line.code 1)).Sublist
      (fields.flatMap fun lines => .blank :: lines.map (.code 1)) := by
  induction fields with
  | nil => exact .slnil
  | cons lines fields ih =>
    rw [List.flatten_cons, List.map_append, List.flatMap_cons]
    exact (List.Sublist.cons _ (List.Sublist.refl _)).append ih

theorem ClassDecl.exists_fieldLines (ht : table.Built) {c : ClassDecl}
    (hc : ∀ name ∈ c.names, Plain name) (h : c.source table = .ok src) :
    ∃ fields, (Descriptor.ofClass c).fieldLines table = .ok fields ∧ src.HasFields fields := by
  obtain ⟨fields, hf, rfl⟩ := map_eq_ok.mp h
  have hname : Plain c.name := hc _ (.head _)
  have hbase : Plain c.base := hc _ (.tail _ (.head _))
  have hflat : ∀ line ∈ fields.flatten.map (Line.code 1), ∃ t, IsFlat t ∧ line = .code 1 t := by
    refine flat_of_fields fun lines hl => ?_
    obtain ⟨p, hp, hlines⟩ := exists_of_mem_collectFields hf hl
    exact p.isFlat_trackedField ht (fun name hn => hc name (mem_names hp name hn)) hlines
  have hheading : Plain ("public partial class " ++ c.name ++ " : " ++ c.base) := by
    simp only [plain_append]
    exact ⟨⟨⟨by decide, hname⟩, by decide⟩, hbase⟩
  have hpreserve : Plain "[Preserve]" := by decide
  have hconstructor : Plain ("public " ++ c.name ++ "()") :=
    plain_append.mpr ⟨plain_append.mpr ⟨by decide, hname⟩, by decide⟩
  have hempty : (Line.code 1 s!"public {c.name}() \x7b \x7d").Nests 1 1 := by
    have hsplit : s!"public {c.name}() \x7b \x7d" = "public " ++ c.name ++ "()" ++ " \x7b \x7d" := by
      apply String.toList_injective
      simp [toString]
    rw [hsplit]
    exact .empty 1 hconstructor.isFlat
  have hspaced : ∀ l ∈ fields.flatMap (fun lines => Line.blank :: lines.map (.code 1)),
      l.Nests 1 1 := by
    intro l hl
    obtain ⟨lines, hlines, hl⟩ := List.mem_flatMap.mp hl
    rcases List.mem_cons.mp hl with rfl | hl
    · exact .blank 1
    · refine nests_of_flat hflat l ?_
      rw [List.map_flatten]
      exact List.mem_flatten_of_mem (List.mem_map_of_mem hlines) hl
  refine ⟨_, map_eq_ok.mpr ⟨fields, hf, rfl⟩, hflat, ?_, ?_⟩
  · exact ((sublist_spaced fields).trans (List.sublist_append_right _ _)).trans
      (List.sublist_append_left _ _)
  · exact (Nested.append (.cons (.opening 0 hheading.isFlat) (.cons (.flat 1 hpreserve.isFlat)
      (.cons hempty (.nil 1)))) (.of_stays hspaced)).append
        (.cons (.closing 0) (.nil 0))

theorem InterfaceDecl.exists_fieldLines (ht : table.Built) {i : InterfaceDecl} {options : Options}
    (hi : ∀ name ∈ i.names, Plain name) (h : i.source table options = .ok src) :
    ∃ fields, (Descriptor.ofInterface i).fieldLines table = .ok fields ∧ src.HasFields fields := by
  obtain ⟨fields, hf, rfl⟩ := map_eq_ok.mp h
  have hname : Plain i.name := hi _ (.head _)
  have hflat : ∀ line ∈ fields.flatten.map (Line.code 1), ∃ t, IsFlat t ∧ line = .code 1 t := by
    refine flat_of_fields fun lines hl => ?_
    obtain ⟨p, hp, hlines⟩ := exists_of_mem_collectFields hf hl
    exact p.isFlat_carrierField ht (fun name hn => hi name (mem_names hp name hn)) hlines
  have hattribute : Plain "[MessagePackObject(keyAsPropertyName: true)]" := by decide
  have hheading : Plain ("public class " ++ i.name) := plain_append.mpr ⟨by decide, hname⟩
  have hbody : i.body fields = [.code 0 "[MessagePackObject(keyAsPropertyName: true)]",
      .code 0 s!"public class {i.name} \x7b"] ++ fields.flatten.map (.code 1) ++
        [.code 0 "\x7d"] := by
    rw [body, List.map_flatten, List.flatMap_def]
  refine ⟨_, map_eq_ok.mpr ⟨fields, hf, rfl⟩, hflat, ?_, ?_⟩
  · rw [hbody]
    exact (List.sublist_append_right _ _).trans (List.sublist_append_left _ _)
  · rw [hbody]
    exact (Nested.append (.cons (.flat 0 hattribute.isFlat) (.cons (.opening 0 hheading.isFlat)
      (.nil 1))) (.of_stays (nests_of_flat hflat))).append (.cons (.closing 0) (.nil 0))

theorem EnumDecl.nests_heading {e : EnumDecl} (h : Plain e.name) :
    (Line.code 0 e.heading).Nests 0 1 := by
  unfold heading
  cases e.kind with
  | enumeration =>
    have hheading : Plain ("public enum " ++ e.name ++ " : int") :=
      plain_append.mpr ⟨plain_append.mpr ⟨by decide, h⟩, by decide⟩
    have hsplit : s!"public enum {e.name} : int \x7b" =
        "public enum " ++ e.name ++ " : int" ++ " \x7b" := by
      apply String.toList_injective
      simp [toString]
    rw [hsplit]
    exact .opening 0 hheading.isFlat
  | constantGroup =>
    have hheading : Plain ("public struct " ++ e.name) := plain_append.mpr ⟨by decide, h⟩
    exact .opening 0 hheading.isFlat

theorem EnumDecl.exists_fieldLines {e : EnumDecl} (he : ∀ name ∈ e.names, Plain name)
    (h : e.source = .ok src) :
    ∃ fields, (Descriptor.ofEnum e).fieldLines table = .ok fields ∧ src.HasFields fields := by
  obtain rfl := eq_of_source h
  have hflat : ∀ line ∈ e.members.mapIdx e.memberLine, ∃ t, IsFlat t ∧ line = .code 1 t := by
    intro line hline
    obtain ⟨i, hi, rfl⟩ := List.mem_mapIdx.mp hline
    exact e.exists_memberLine
      (he _ (.tail _ (List.mem_map_of_mem (List.getElem_mem hi)))) i
  refine ⟨_, rfl, hflat, ?_, ?_⟩
  · exact (List.sublist_append_right _ _).trans (List.sublist_append_left _ _)
  · exact (Nested.append (.cons (nests_heading (he _ (.head _))) (.cons (.blank 1) (.nil 1)))
      (.of_stays (nests_of_flat hflat))).append (.cons (.closing 0) (.nil 0))

/-- **The braces of a declaration match, and its fields stand in them.** -/
theorem Descriptor.exists_fieldLines (ht : table.Built) {d : Descriptor} {options : Options}
    (hd : ∀ name ∈ d.names, Plain name) (h : d.source table options = .ok src) :
    ∃ fields, d.fieldLines table = .ok fields ∧ src.HasFields fields := by
  cases d with
  | ofClass c => exact c.exists_fieldLines ht hd h
  | ofInterface i => exact i.exists_fieldLines ht hd h
  | ofEnum e => exact e.exists_fieldLines hd h

end Bodies

/-! ## Files -/

/-- The braces around the body of a declaration. -/
def fieldDepth (scope : Option String) : Nat := if scope.isSome then 2 else 1

theorem Nested.standsAt_within {lines : List Line} {scope : Option String} {k : Nat}
    (h : Nested 0 lines k) {t : String} (ht : IsFlat t) :
    ((Line.code 1 t).within scope).StandsAt (fieldDepth scope) lines := by
  cases scope with
  | none => exact h.standsAt ht
  | some n => exact h.standsAt ht

namespace Source

variable {s : Source} {scope : Option String}

/-- A declaration whose braces match gives a file whose braces match. -/
theorem nested_lines (hu : ∀ name ∈ s.usings, Plain name) (hn : ∀ n ∈ scope, Plain n)
    (h : Nested 0 s.body 0) : Nested 0 (s.lines scope) 0 := by
  have husings : ∀ l ∈ s.usings.map (fun name => Line.code 0 s!"using {name};") ++
      (if s.usings = [] then [] else [.blank]), l.Nests 0 0 := by
    intro l hl
    rcases List.mem_append.mp hl with hl | hl
    · obtain ⟨name, hname, rfl⟩ := List.mem_map.mp hl
      refine .flat 0 (Plain.isFlat ?_)
      simp only [plain_append]
      exact ⟨⟨by decide, hu name hname⟩, by decide⟩
    · split at hl
      · cases hl
      · rw [List.mem_singleton.mp hl]
        exact .blank 0
  refine (Nested.of_stays husings).append ?_
  cases scope with
  | none => exact h
  | some n =>
    have hopen : IsFlat ("namespace " ++ n) :=
      Plain.isFlat (plain_append.mpr ⟨by decide, hn n rfl⟩)
    exact .cons (.opening 0 hopen) (h.indent.append (.cons (.closing 0) (.nil 0)))

end Source

theorem Descriptor.plain_usings {d : Descriptor} {table : TypeTable} {options : Options}
    {src : Source} (hu : ∀ u ∈ options.extraUsing, Plain u)
    (h : d.source table options = .ok src) : ∀ name ∈ src.usings, Plain name := by
  cases d with
  | ofClass c =>
    obtain ⟨fields, _, rfl⟩ := map_eq_ok.mp h
    exact (by decide : ∀ name ∈ ["Colyseus.Schema", "UnityEngine.Scripting"], Plain name)
  | ofInterface i =>
    obtain ⟨fields, _, rfl⟩ := map_eq_ok.mp h
    refine List.forall_mem_cons.mpr ⟨by decide, fun name hname => hu name ?_⟩
    exact (Option.filter_eq_some_iff.mp (Option.mem_toList.mp hname)).1
  | ofEnum e =>
    obtain rfl := e.eq_of_source h
    exact fun _ hname => absurd hname List.not_mem_nil

/-- **The braces of generated files match.** Where all names are plain, whatever the
texts of members are, every file opens and closes its braces in order and ends each
line in code. The lines of fields, constants and members are all in it, at depth 1,
or at depth 2 inside a namespace. -/
theorem generate_nested {s : Schema} {options : Options} {files : List SourceFile}
    (hs : ∀ d ∈ s.outputs, ∀ name ∈ d.names, Plain name)
    (hn : ∀ n ∈ options.targetNamespace, Plain n) (hu : ∀ u ∈ options.extraUsing, Plain u)
    (h : generate s options = .ok files) :
    List.Forall₂ (fun d f => Balanced f.content ∧
      ∃ src fields, d.source (.ofSchema s) options = .ok src ∧
        f.content = src.text options.effectiveNamespace ∧
        f.content = Line.join (src.lines options.effectiveNamespace) ∧
        d.fieldLines (.ofSchema s) = .ok fields ∧
        (fields.map (·.within options.effectiveNamespace)).Sublist
          (src.lines options.effectiveNamespace) ∧
        ∀ line ∈ fields, (line.within options.effectiveNamespace).StandsAt
          (fieldDepth options.effectiveNamespace) (src.lines options.effectiveNamespace))
      s.outputs files := by
  have hnamespace : ∀ n ∈ options.effectiveNamespace, Plain n := fun n hmem =>
    hn n (Option.filter_eq_some_iff.mp hmem).1
  have hfiles := (List.forall₂_and_left s.outputs files).mpr ⟨hs, (generate_eq_ok.mp h).2⟩
  refine hfiles.imp fun d f ⟨hd, _, hf⟩ => ?_
  obtain ⟨src, hsrc, hcontent⟩ := map_eq_ok.mp hf
  obtain ⟨fields, hlines, hflat, hsublist, hnested⟩ :=
    d.exists_fieldLines (TypeTable.built_ofSchema s) hd hsrc
  have hall := Source.nested_lines (Descriptor.plain_usings hu hsrc) hnamespace hnested
  refine ⟨hcontent ▸ hall.balanced, src, fields, hsrc, hcontent.symm,
    hcontent ▸ src.text_eq_join _, hlines, Source.sublist_lines hsublist, fun line hline => ?_⟩
  obtain ⟨t, ht, rfl⟩ := hflat line hline
  exact hall.standsAt_within ht

/-- A list of texts, and a text of braces and quotation marks. -/
def latchSchema : Schema where
  interfaces := [⟨"Key", [{ name := "teeth", type := "array", child := some (.ofName "string") }]⟩]
  enums := [⟨"Marks", .constantGroup, [⟨"Close", .text "\x7d\"\x7b\\\n"⟩]⟩]

/-- Options that use both settings. -/
def latchOptions : Options where
  targetNamespace := some "Game"
  extraUsing := some "System"

/-- The braces of a text are none of the file's. -/
theorem generate_nested_latch :
    (∀ d ∈ latchSchema.outputs, ∀ name ∈ d.names, Plain name) ∧
    (∀ n ∈ latchOptions.targetNamespace, Plain n) ∧ (∀ u ∈ latchOptions.extraUsing, Plain u) ∧
    ∃ (key marks : String) (src : Source), generate latchSchema latchOptions =
        .ok [⟨"Key.cs", key⟩, ⟨"Marks.cs", marks⟩] ∧
      Balanced key ∧ Balanced marks ∧ marks = Line.join (src.lines (some "Game")) ∧
      (Line.code 2 "public const string Close = \"\x7d\\\"\x7b\\\\\\n\";").StandsAt 2
        (src.lines (some "Game")) := by
  have hnames : ∀ d ∈ latchSchema.outputs, ∀ name ∈ d.names, Plain name := by decide
  have hscope : ∀ n ∈ latchOptions.targetNamespace, Plain n := by decide
  have husing : ∀ u ∈ latchOptions.extraUsing, Plain u := by decide
  have hfiles : generate latchSchema latchOptions = .ok [
      ⟨"Key.cs", "using MessagePack;\nusing System;\n\nnamespace Game \x7b\n" ++
        "\t[MessagePackObject(keyAsPropertyName: true)]\n\tpublic class Key \x7b\n" ++
        "\t\tpublic string[] teeth;\n\t\x7d\n\x7d\n"⟩,
      ⟨"Marks.cs", "namespace Game \x7b\n\tpublic struct Marks \x7b\n\n" ++
        "\t\tpublic const string Close = \"\x7d\\\"\x7b\\\\\\n\";\n\t\x7d\n\x7d\n"⟩] := by
    decide +kernel
  rcases generate_nested hnames hscope husing hfiles with _ | ⟨⟨hkey, _⟩, _ | ⟨hsecond, _⟩⟩
  obtain ⟨hmarks, src, fields, _, _, hcontent, hfields, _, hstands⟩ := hsecond
  refine ⟨hnames, hscope, husing, _, _, src, hfiles, hkey, hmarks, hcontent, ?_⟩
  obtain rfl := Except.ok.inj hfields
  exact hstands _ (.head _)

end SchemaSharp
