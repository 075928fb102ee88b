/-
What a namespace does to the text of a declaration.

Reading the lines of a text and putting a tab in front of those that are not
empty (`indentText`) is all that a namespace does, apart from the line that opens
it and the one that closes it (`render_in_namespace`). Nothing written for a
descriptor escapes this: its lines are those of its text as soon as its names have
no line feed.
-/
import SchemaSharp.Proofs.Lines

namespace SchemaSharp

/-- A text with one more tab in front of each line that is not empty. -/
def indentText (t : String) : String :=
  .ofList (['\n'].intercalate ((t.toList.splitOn '\n').map tabbed))

namespace Source

/-- The text of the declaration, without the end of its last line. -/
def declaration (s : Source) : String := "\n".intercalate (s.body.map (·.text))

variable {s : Source}

theorem join_eq_intercalate {lines : List Line} (h : lines ≠ []) :
    Line.join lines = "\n".intercalate (lines.map (·.text)) ++ "\n" := by
  apply String.toList_injective
  rw [Line.toList_join, terminate_eq_intercalate (by simpa using h), String.toList_append,
    String.toList_intercalate, List.map_map]
  rfl

/-- Indenting the lines of a declaration is indenting its text. -/
theorem join_indent (hne : s.body ≠ []) (h : ∀ l ∈ s.body, l.IsSingle) :
    Line.join (s.body.map Line.indent) = indentText s.declaration ++ "\n" := by
  have hne' : s.body.map (·.text.toList) ≠ [] := by simpa using hne
  have hlines : s.declaration.toList.splitOn '\n' = s.body.map (·.text.toList) := by
    rw [declaration, String.toList_intercalate, List.map_map]
    exact List.splitOn_intercalate '\n' (Line.newline_not_mem h) hne'
  apply String.toList_injective
  rw [Line.toList_join, Line.toList_text_map_indent h, String.toList_append, indentText,
    String.toList_ofList, hlines]
  exact terminate_eq_intercalate (by simpa using hne)

theorem text_none (hne : s.body ≠ []) : s.text none = s.header ++ s.declaration ++ "\n" := by
  rw [text_eq_header, enclosed, join_eq_intercalate hne, String.append_assoc]
  rfl

theorem text_some (hne : s.body ≠ []) (h : ∀ l ∈ s.body, l.IsSingle) (n : String) :
    s.text (some n) =
      s.header ++ s!"namespace {n} \x7b\n" ++ indentText s.declaration ++ "\n\x7d\n" := by
  have hopen : (Line.code 0 s!"namespace {n} \x7b").text = s!"namespace {n} \x7b" :=
    Line.text_flush _
  have hclose : Line.join [.code 0 "\x7d"] = "\x7d\n" := by decide
  rw [text_eq_header, enclosed, Line.join_cons, hopen, Line.join_append, join_indent hne h, hclose]
  simp only [String.append_assoc, toString]
  rfl

end Source

namespace Descriptor

/-- What the file of a descriptor starts with: its using directives with a blank
line behind them, or nothing. -/
def header (options : Options) : Descriptor → String
  | ofClass _ => "using Colyseus.Schema;\nusing UnityEngine.Scripting;\n\n"
  | ofInterface _ => match options.effectiveUsing with
    | some name => s!"using MessagePack;\nusing {name};\n\n"
    | none => "using MessagePack;\n\n"
  | ofEnum _ => ""

variable {d : Descriptor} {table : TypeTable} {options : Options} {src : Source}

theorem header_source (h : d.source table options = .ok src) : src.header = d.header options := by
  cases d with
  | ofClass c =>
    obtain ⟨fields, _, rfl⟩ := map_eq_ok.mp h
    change Line.join [.code 0 "using Colyseus.Schema;", .code 0 "using UnityEngine.Scripting;",
      .blank] = "using Colyseus.Schema;\nusing UnityEngine.Scripting;\n\n"
    decide
  | ofInterface i =>
    obtain ⟨fields, _, rfl⟩ := map_eq_ok.mp h
    cases hu : options.effectiveUsing with
    | none =>
      simp only [header, Source.header, hu]
      change Line.join [.code 0 "using MessagePack;", .blank] = "using MessagePack;\n\n"
      decide
    | some name =>
      simp only [header, Source.header, hu]
      change Line.join [.code 0 "using MessagePack;", .code 0 s!"using {name};", .blank] =
        s!"using MessagePack;\nusing {name};\n\n"
      have hend : Line.join [.blank] = "\n" := by decide
      rw [Line.join_cons, Line.join_cons, Line.text_flush, Line.text_flush, hend]
      apply String.toList_injective
      simp [toString]
  | ofEnum e =>
    obtain rfl := e.eq_of_source h
    rfl

theorem body_ne_nil (h : d.source table options = .ok src) : src.body ≠ [] := by
  cases d with
  | ofClass c =>
    obtain ⟨fields, _, rfl⟩ := map_eq_ok.mp h
    exact List.cons_ne_nil _ _
  | ofInterface i =>
    obtain ⟨fields, _, rfl⟩ := map_eq_ok.mp h
    exact List.cons_ne_nil _ _
  | ofEnum e =>
    obtain rfl := e.eq_of_source h
    exact List.cons_ne_nil _ _

theorem source_withNamespace (d : Descriptor) (table : TypeTable) (options : Options)
    (scope : Option String) :
    d.source table { options with targetNamespace := scope } = d.source table options := by
  cases d <;> rfl

/-- **A namespace indents the declaration and leaves the rest as it is.** Inside a
namespace the same descriptors can be rendered as outside. The text has the same
header, then the line that opens the namespace, then the declaration with one more
tab in front of each of its lines that is not empty, and then the line that closes
the namespace. -/
theorem render_in_namespace (ht : table.Built) (hd : ∀ name ∈ d.names, OneLine name)
    (options : Options) {n : String} (hn : n ≠ "") :
    ((∃ text, d.render table { options with targetNamespace := some n } = .ok text) ↔
      ∃ text, d.render table { options with targetNamespace := none } = .ok text) ∧
    ∀ plain inside, d.render table { options with targetNamespace := none } = .ok plain →
      d.render table { options with targetNamespace := some n } = .ok inside →
      ∃ declaration, plain = d.header options ++ declaration ++ "\n" ∧
        inside = d.header options ++ s!"namespace {n} \x7b\n" ++ indentText declaration ++
          "\n\x7d\n" := by
  refine ⟨by rw [exists_render, exists_render], ?_⟩
  intro plain inside hplain hinside
  obtain ⟨src, hs, rfl⟩ := map_eq_ok.mp hplain
  obtain ⟨src', hs', rfl⟩ := map_eq_ok.mp hinside
  rw [source_withNamespace] at hs hs'
  obtain rfl := Except.ok.inj (hs.symm.trans hs')
  have hscope : Options.effectiveNamespace { options with targetNamespace := some n } = some n := by
    simp [Options.effectiveNamespace, Options.isGiven, hn]
  have hne := body_ne_nil hs
  rw [hscope, ← header_source hs]
  exact ⟨src.declaration, Source.text_none hne, Source.text_some hne (isSingle_body ht hd hs) n⟩

end Descriptor

/-- A text of two lines. -/
def verseEnum : EnumDecl := ⟨"Verse", .constantGroup, [⟨"First", .text "one\ntwo"⟩]⟩

/-- The line feed of a text is none of the file's. -/
theorem render_in_namespace_verse :
    TypeTable.primitives.Built ∧ (∀ name ∈ (Descriptor.ofEnum verseEnum).names, OneLine name) ∧
    "Game" ≠ "" ∧ ∃ inside declaration,
      (Descriptor.ofEnum verseEnum).render .primitives { targetNamespace := some "Game" } =
        .ok inside ∧
      "public struct Verse \x7b\n\n\tpublic const string First = \"one\\ntwo\";\n\x7d\n" =
        "" ++ declaration ++ "\n" ∧
      inside = "" ++ "namespace Game \x7b\n" ++ indentText declaration ++ "\n\x7d\n" := by
  have hnames : ∀ name ∈ (Descriptor.ofEnum verseEnum).names, OneLine name := by decide
  have hplain : (Descriptor.ofEnum verseEnum).render .primitives { targetNamespace := none } =
      .ok "public struct Verse \x7b\n\n\tpublic const string First = \"one\\ntwo\";\n\x7d\n" := by
    decide
  have hgame : "Game" ≠ "" := by decide
  obtain ⟨hiff, htext⟩ := Descriptor.render_in_namespace .primitives hnames {} hgame
  obtain ⟨inside, hinside⟩ := hiff.mpr ⟨_, hplain⟩
  obtain ⟨declaration, hd, hi⟩ := htext _ _ hplain hinside
  exact ⟨.primitives, hnames, hgame, inside, declaration, hinside, hd, hi⟩

end SchemaSharp
