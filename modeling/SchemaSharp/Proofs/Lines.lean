/-
Sources read back as lines.

The text of a source is the text of its lines, a line feed behind each. Names
without a line feed give lines without one (`Descriptor.isSingle_body`), whatever
the texts and numbers of members are. So the lines of a declaration are those of
its text, and two declarations with one text have the same lines
(`Source.body_inj`).
-/
import SchemaSharp.Proofs.Scanning
import SchemaSharp.Proofs.SourceText

namespace SchemaSharp

/-! ## Terminated lists -/

section Terminated

variable {α : Type} {d : α} {ls ms : List (List α)}

/-- Lists one after the other, an end mark behind each. -/
def terminate (d : α) (ls : List (List α)) : List α := ls.flatMap (· ++ [d])

theorem terminate_cons (d : α) (l : List α) (ls : List (List α)) :
    terminate d (l :: ls) = l ++ d :: terminate d ls := by
  simp [terminate]

theorem cons_terminate (d : α) (ls : List (List α)) :
    d :: terminate d ls = ls.flatMap (d :: ·) ++ [d] := by
  induction ls with
  | nil => rfl
  | cons l ls ih =>
    rw [terminate_cons, ih, List.flatMap_cons, List.append_assoc]
    rfl

/-- The last end mark apart, the marks stand between the lists. -/
theorem terminate_eq_intercalate (h : ls ≠ []) : terminate d ls = [d].intercalate ls ++ [d] := by
  induction ls with
  | nil => exact absurd rfl h
  | cons l ls ih =>
    cases ls with
    | nil => simp [terminate]
    | cons m ms =>
      rw [terminate_cons, ih (List.cons_ne_nil m ms), List.intercalate_cons_cons]
      simp

/-- **Lists without the end mark can be split apart again.** -/
theorem splitOn_terminate [DecidableEq α] (h : ∀ l ∈ ls, d ∉ l) :
    (terminate d ls).splitOn d = ls ++ [[]] := by
  induction ls with
  | nil => rfl
  | cons l ls ih =>
    obtain ⟨hl, hls⟩ := List.forall_mem_cons.mp h
    rw [terminate_cons, List.splitOn_append_cons_self_of_not_mem hl, ih hls, List.cons_append]

theorem terminate_inj [DecidableEq α] (hl : ∀ l ∈ ls, d ∉ l) (hm : ∀ m ∈ ms, d ∉ m)
    (h : terminate d ls = terminate d ms) : ls = ms := by
  have hsplit := splitOn_terminate hl
  rw [h, splitOn_terminate hm] at hsplit
  exact (List.append_cancel_right hsplit).symm

end Terminated

/-- A text without a line feed. -/
def OneLine (t : String) : Prop := '\n' ∉ t.toList

instance (t : String) : Decidable (OneLine t) := inferInstanceAs (Decidable (¬_))

@[simp]
theorem oneLine_append {s t : String} : OneLine (s ++ t) ↔ OneLine s ∧ OneLine t := by
  simp [OneLine, not_or]

theorem oneLine_ofList {cs : List Char} : OneLine (.ofList cs) ↔ '\n' ∉ cs := by
  rw [OneLine, String.toList_ofList]

theorem IsFlat.oneLine {t : String} (h : IsFlat t) : OneLine t := Flat.oneLine h

theorem Plain.oneLine {t : String} (h : Plain t) : OneLine t := h.isFlat.oneLine

/-! ## Names -/

/-- Every name that a property holds. -/
def Property.names (p : Property) : List String :=
  p.name :: p.type :: ((p.child.map (·.name)).toList ++ p.enumType.toList)

/-- Every name that a class holds, its properties included. -/
def ClassDecl.names (c : ClassDecl) : List String :=
  c.name :: c.base :: c.properties.flatMap (·.names)

/-- Every name that an interface holds. -/
def InterfaceDecl.names (i : InterfaceDecl) : List String :=
  i.name :: i.properties.flatMap (·.names)

/-- The names of an enum and of its members. -/
def EnumDecl.names (e : EnumDecl) : List String := e.name :: e.members.map (·.name)

/-- Every name that a descriptor holds. -/
def Descriptor.names : Descriptor → List String
  | ofClass c => c.names
  | ofInterface i => i.names
  | ofEnum e => e.names

theorem ClassDecl.mem_names {c : ClassDecl} {p : Property} (hp : p ∈ c.properties) :
    ∀ name ∈ p.names, name ∈ c.names :=
  fun _ hname => .tail _ (.tail _ (List.mem_flatMap.mpr ⟨p, hp, hname⟩))

theorem InterfaceDecl.mem_names {i : InterfaceDecl} {p : Property} (hp : p ∈ i.properties) :
    ∀ name ∈ p.names, name ∈ i.names :=
  fun _ hname => .tail _ (List.mem_flatMap.mpr ⟨p, hp, hname⟩)

section Types

variable {table : TypeTable} {p : Property}

theorem ChildType.Stands.cases_of_built (ht : table.Built) {child : ChildType} {element : String}
    (h : child.Stands table element) :
    element = child.name ∨ ∃ primitive : Primitive, primitive.csharpName = element := by
  cases h with
  | userDefined => exact .inl rfl
  | listed _ hl => exact ht.lookup_cases hl

/-- The name in a property's type is one that the property holds, or a
primitive's. -/
theorem Property.Typed.target_cases (ht : table.Built) {type : TypeExpr} (h : p.Typed table type) :
    type.target ∈ p.names ∨ ∃ primitive : Primitive, primitive.csharpName = type.target := by
  cases h with
  | enum he => exact .inl (by simp [names, he, TypeExpr.target])
  | plain _ _ _ hl =>
    refine (ht.lookup_cases hl).imp_left fun hname => ?_
    simp [names, hname, TypeExpr.target]
  | reference _ hc _ hs | container _ hc _ hs =>
    refine (hs.cases_of_built ht).imp_left fun hname => ?_
    simp [names, hc, hname, TypeExpr.target]

theorem Primitive.plain_csharpName (p : Primitive) : Plain p.csharpName := by
  cases p <;> decide

theorem ContainerKind.plain_className (kind : ContainerKind) : Plain kind.className := by
  cases kind <;> decide

/-- All that is written in a type apart from the name it holds is plain. -/
theorem TypeExpr.mem_text {type : TypeExpr} {c : Char} (hc : c ∈ type.text.toList) :
    c ∈ type.target.toList ∨ isPlain c = true := by
  have hl : Plain "<" ∧ Plain ">" ∧ Plain "[]" := by decide
  cases type with
  | named name => exact .inl hc
  | container kind element =>
    simp only [text, toString, String.toList_append, List.mem_append] at hc
    rcases hc with ((hc | hc) | hc) | hc
    · exact .inr (kind.plain_className c hc)
    · exact .inr (hl.1 c hc)
    · exact .inl hc
    · exact .inr (hl.2.1 c hc)
  | array element =>
    simp only [text, String.toList_append, List.mem_append] at hc
    exact hc.imp_right (hl.2.2 c)

/-- A type that holds the name of a property's is written with what the property's
names are written with, and plain characters. -/
theorem Property.Typed.mem_text (ht : table.Built) {tracked type : TypeExpr}
    (h : p.Typed table tracked) (htype : type.target = tracked.target) {c : Char}
    (hc : c ∈ type.text.toList) : (∃ name ∈ p.names, c ∈ name.toList) ∨ isPlain c = true := by
  rcases TypeExpr.mem_text hc with hc | hplain
  · rw [htype] at hc
    rcases h.target_cases ht with hmem | ⟨primitive, hname⟩
    · exact .inl ⟨_, hmem, hc⟩
    · exact .inr (primitive.plain_csharpName c (hname ▸ hc))
  · exact .inr hplain

theorem Property.Typed.oneLine_text (ht : table.Built) (hp : ∀ name ∈ p.names, OneLine name)
    {tracked type : TypeExpr} (h : p.Typed table tracked) (htype : type.target = tracked.target) :
    OneLine type.text := by
  intro hn
  rcases h.mem_text ht htype hn with ⟨name, hname, hn⟩ | hplain
  · exact hp name hname hn
  · exact absurd hplain (by decide)

theorem Property.Typed.plain_text (ht : table.Built) (hp : ∀ name ∈ p.names, Plain name)
    {tracked type : TypeExpr} (h : p.Typed table tracked) (htype : type.target = tracked.target) :
    Plain type.text := by
  intro c hc
  rcases h.mem_text ht htype hc with ⟨name, hname, hc⟩ | hplain
  · exact hp name hname c hc
  · exact hplain

end Types

/-! ## Lines of code -/

/-- A text that is one line of code: not empty, and without a line feed. -/
def IsLine (t : String) : Prop := t ≠ "" ∧ OneLine t

instance (t : String) : Decidable (IsLine t) := inferInstanceAs (Decidable (_ ∧ _))

theorem IsLine.append {s t : String} (hs : IsLine s) (ht : OneLine t) : IsLine (s ++ t) :=
  ⟨fun h => hs.1 (String.append_eq_empty_iff.mp h).1, oneLine_append.mpr ⟨hs.2, ht⟩⟩

section Fields

variable {table : TypeTable} {p : Property} {owner : String} {lines : List String}

namespace Property

/-- The line that marks a deprecated field. -/
def obsoleteLine (p : Property) : String :=
  s!"[System.Obsolete(\"field '{p.name}' is deprecated.\", true)]"

/-- The attribute of a field. -/
def typeLine (p : Property) (type : TypeExpr) : String :=
  s!"[Type({Numeral.natText p.index.toNat}, {p.typeArguments type})]"

/-- The declaration of a field. -/
def fieldLine (p : Property) (type : TypeExpr) : String :=
  s!"public {type.text} {p.name} = {p.initializer};"

/-- The declaration of a data carrier's field. -/
def carrierLine (p : Property) (type : TypeExpr) : String := s!"public {type.text} {p.name};"

theorem exists_of_mem_trackedField (h : p.trackedField table owner = .ok lines) {line : String}
    (hline : line ∈ lines) : ∃ type, p.Typed table type ∧
      (line = p.obsoleteLine ∨ line = p.typeLine type ∨ line = p.fieldLine type) := by
  obtain ⟨type, hr, rfl⟩ := map_eq_ok.mp h
  refine ⟨type, TypeTable.resolve_eq_ok.mp hr, ?_⟩
  rcases List.mem_append.mp hline with hline | hline
  · split at hline
    · exact .inl (List.mem_singleton.mp hline)
    · cases hline
  · simp only [List.mem_cons, List.not_mem_nil, or_false] at hline
    exact .inr hline

theorem exists_of_mem_carrierField (h : p.carrierField table owner = .ok lines) {line : String}
    (hline : line ∈ lines) :
    ∃ tracked, p.Typed table tracked ∧ line = p.carrierLine tracked.flatten := by
  obtain ⟨type, hr, rfl⟩ := map_eq_ok.mp h
  obtain ⟨tracked, htyped, rfl⟩ := TypeTable.resolveCarrier_eq_ok.mp hr
  exact ⟨tracked, htyped, List.mem_singleton.mp hline⟩

theorem plain_initializer (p : Property) : Plain p.initializer := by
  unfold initializer
  split <;> decide

theorem oneLine_typeArguments (hp : ∀ name ∈ p.names, OneLine name) {type : TypeExpr}
    (ht : OneLine type.text) : OneLine (p.typeArguments type) := by
  have hl : OneLine "\"" ∧ OneLine ", typeof(" ∧ OneLine ")" ∧ OneLine ", \"" := by decide
  have htype : OneLine p.type := hp _ (by simp [names])
  unfold typeArguments
  refine oneLine_append.mpr ⟨?_, ?_⟩
  · simp [toString, hl, htype]
  · cases hc : p.child with
    | none => exact (by decide : OneLine "")
    | some child =>
      have hchild : OneLine child.name := hp _ (by simp [names, hc])
      cases hu : child.userDefined <;> simp [toString, hl, ht, hu, hchild]

theorem isLine_trackedField (ht : table.Built) (hp : ∀ name ∈ p.names, OneLine name)
    (h : p.trackedField table owner = .ok lines) : ∀ line ∈ lines, IsLine line := by
  intro line hline
  obtain ⟨type, htyped, hcases⟩ := exists_of_mem_trackedField h hline
  have hname : OneLine p.name := hp _ (by simp [names])
  have htype : OneLine type.text := htyped.oneLine_text ht hp rfl
  rcases hcases with rfl | rfl | rfl
  · exact ((by decide : IsLine "[System.Obsolete(\"field '").append hname).append (by decide)
  · exact ((((by decide : IsLine "[Type(").append (plain_natText _).oneLine).append
      (by decide)).append (p.oneLine_typeArguments hp htype)).append (by decide)
  · exact ((((((by decide : IsLine "public ").append htype).append (by decide)).append
      hname).append (by decide)).append p.plain_initializer.oneLine).append (by decide)

theorem isLine_carrierField (ht : table.Built) (hp : ∀ name ∈ p.names, OneLine name)
    (h : p.carrierField table owner = .ok lines) : ∀ line ∈ lines, IsLine line := by
  intro line hline
  obtain ⟨tracked, htyped, rfl⟩ := exists_of_mem_carrierField h hline
  have hname : OneLine p.name := hp _ (by simp [names])
  have htype : OneLine tracked.flatten.text := htyped.oneLine_text ht hp tracked.target_flatten
  exact ((((by decide : IsLine "public ").append htype).append (by decide)).append
    hname).append (by decide)

end Property

theorem exists_of_mem_collectFields {field : Property → Except GenerateError (List String)}
    {ps : List Property} {fields : List (List String)} (h : collectFields field ps = .ok fields)
    (hl : lines ∈ fields) : ∃ p ∈ ps, field p = .ok lines := by
  induction collectFields_eq_ok.mp h with
  | nil => cases hl
  | cons hfield hrest ih =>
    rcases List.mem_cons.mp hl with rfl | hl
    · exact ⟨_, .head _, hfield⟩
    · obtain ⟨p, hp, hlines⟩ := ih (collectFields_eq_ok.mpr hrest) hl
      exact ⟨p, .tail _ hp, hlines⟩

end Fields

/-- A line that is one line of text. -/
def Line.IsSingle : Line → Prop
  | blank => True
  | code _ text => IsLine text

section Bodies

variable {table : TypeTable} {src : Source}

theorem ClassDecl.isSingle_body (ht : table.Built) {c : ClassDecl}
    (hc : ∀ name ∈ c.names, OneLine name) (h : c.source table = .ok src) :
    ∀ l ∈ src.body, l.IsSingle := by
  obtain ⟨fields, hf, rfl⟩ := map_eq_ok.mp h
  have hname : OneLine c.name := hc _ (.head _)
  have hbase : OneLine c.base := hc _ (.tail _ (.head _))
  have hfields : ∀ lines ∈ fields, ∀ line ∈ lines, IsLine line := by
    intro lines hl
    obtain ⟨p, hp, hlines⟩ := exists_of_mem_collectFields hf hl
    exact p.isLine_trackedField ht (fun name hn => hc name (mem_names hp name hn)) hlines
  intro l hl
  simp only [body, List.mem_append, List.mem_cons, List.not_mem_nil, or_false,
    List.mem_flatMap, List.mem_map] at hl
  rcases hl with ((rfl | rfl | rfl) | ⟨lines, hl, rfl | ⟨line, hline, rfl⟩⟩) | rfl
  · exact ((((by decide : IsLine "public partial class ").append hname).append
      (by decide)).append hbase).append (by decide)
  · exact (by decide : IsLine "[Preserve]")
  · exact ((by decide : IsLine "public ").append hname).append (by decide)
  · trivial
  · exact hfields lines hl line hline
  · exact (by decide : IsLine "\x7d")

theorem InterfaceDecl.isSingle_body (ht : table.Built) {i : InterfaceDecl} {options : Options}
    (hi : ∀ name ∈ i.names, OneLine name) (h : i.source table options = .ok src) :
    ∀ l ∈ src.body, l.IsSingle := by
  obtain ⟨fields, hf, rfl⟩ := map_eq_ok.mp h
  have hname : OneLine i.name := hi _ (.head _)
  have hfields : ∀ lines ∈ fields, ∀ line ∈ lines, IsLine line := by
    intro lines hl
    obtain ⟨p, hp, hlines⟩ := exists_of_mem_collectFields hf hl
    exact p.isLine_carrierField ht (fun name hn => hi name (mem_names hp name hn)) hlines
  intro l hl
  simp only [body, List.mem_append, List.mem_cons, List.not_mem_nil, or_false,
    List.mem_flatMap, List.mem_map] at hl
  rcases hl with ((rfl | rfl) | ⟨lines, hl, line, hline, rfl⟩) | rfl
  · exact (by decide : IsLine "[MessagePackObject(keyAsPropertyName: true)]")
  · exact ((by decide : IsLine "public class ").append hname).append (by decide)
  · exact hfields lines hl line hline
  · exact (by decide : IsLine "\x7d")

namespace EnumDecl

variable {e : EnumDecl}

theorem isSingle_line {m : Member} (hm : OneLine m.name) (i : Nat) : (m.line i).IsSingle := by
  refine ⟨?_, oneLine_append.mpr ⟨oneLine_append.mpr ⟨oneLine_append.mpr ⟨hm, by decide⟩, ?_⟩,
    by decide⟩⟩
  · -- The name may be empty, what follows it is not.
    simp [toString]
  · exact (m.value.isFlat_literal i).oneLine

theorem isSingle_constantLine {m : Member} (hm : OneLine m.name) (i : Nat) :
    (constantLine i m).IsSingle :=
  ((((((by decide : IsLine "public const ").append (m.value.plain_constant_type i).oneLine).append
    (by decide)).append hm).append (by decide)).append (m.value.isFlat_constant i).oneLine).append
    (by decide)

theorem isSingle_body_of {heading : String} (hh : IsLine heading) {line : Nat → Member → Line}
    (hl : ∀ m ∈ e.members, ∀ i, (line i m).IsSingle) :
    ∀ l ∈ body heading (e.members.mapIdx line), l.IsSingle := by
  intro l hmem
  simp only [body, List.mem_append, List.mem_cons, List.not_mem_nil, or_false,
    List.mem_mapIdx] at hmem
  rcases hmem with ((rfl | rfl) | ⟨i, hi, rfl⟩) | rfl
  · exact hh
  · trivial
  · exact hl _ (List.getElem_mem hi) i
  · exact (by decide : IsLine "\x7d")

theorem isSingle_body (he : ∀ name ∈ e.names, OneLine name) (h : e.source = .ok src) :
    ∀ l ∈ src.body, l.IsSingle := by
  have hname : OneLine e.name := he _ (.head _)
  have hmember : ∀ m ∈ e.members, OneLine m.name := fun m hm =>
    he _ (.tail _ (List.mem_map_of_mem hm))
  cases hk : e.kind with
  | enumeration =>
    obtain ⟨_, rfl⟩ := (enumeration_source_eq_ok hk).mp h
    exact isSingle_body_of (((by decide : IsLine "public enum ").append hname).append (by decide))
      fun m hm => isSingle_line (hmember m hm)
  | constantGroup =>
    obtain rfl := Except.ok.inj ((constantGroup_source hk).symm.trans h)
    exact isSingle_body_of (((by decide : IsLine "public struct ").append hname).append (by decide))
      fun m hm => isSingle_constantLine (hmember m hm)

end EnumDecl

/-- **Names on one line make a declaration of single lines**, whatever the texts
and numbers in it are. -/
theorem Descriptor.isSingle_body (ht : table.Built) {d : Descriptor} {options : Options}
    (hd : ∀ name ∈ d.names, OneLine name) (h : d.source table options = .ok src) :
    ∀ l ∈ src.body, l.IsSingle := by
  cases d with
  | ofClass c => exact c.isSingle_body ht hd h
  | ofInterface i => exact i.isSingle_body ht hd h
  | ofEnum e => exact e.isSingle_body hd h

end Bodies

/-! ## Texts of lines -/

/-- A line with one more tab, unless it is empty. -/
def tabbed (line : List Char) : List Char := if line = [] then [] else '\t' :: line

theorem tabbed_injective : Function.Injective tabbed := by
  intro l m h
  unfold tabbed at h
  split at h
  next hl =>
    split at h
    next hm => rw [hl, hm]
    next => cases h
  next =>
    split at h
    next => cases h
    next => exact (List.cons.inj h).2

namespace Line

theorem text_flush (t : String) : (code 0 t).text = t := String.empty_append

theorem IsSingle.toList_text_indent {l : Line} (h : l.IsSingle) :
    l.indent.text.toList = tabbed l.text.toList := by
  cases l with
  | blank => rfl
  | code depth text =>
    have hne : List.replicate depth '\t' ++ text.toList ≠ [] := fun h' =>
      h.1 (String.toList_eq_nil_iff.mp (List.append_eq_nil_iff.mp h').2)
    rw [Line.text, String.toList_append, String.toList_ofList, tabbed, if_neg hne]
    change (String.ofList (List.replicate (depth + 1) '\t') ++ text).toList = _
    rw [String.toList_append, String.toList_ofList, List.replicate_succ, List.cons_append]

theorem toList_join (lines : List Line) :
    (join lines).toList = terminate '\n' (lines.map (·.text.toList)) := by
  simp [join, terminate, String.toList_join, List.flatMap_map]

theorem IsSingle.oneLine {l : Line} (h : l.IsSingle) : OneLine l.text := by
  cases l with
  | blank => exact (by decide : OneLine "")
  | code depth text =>
    refine oneLine_append.mpr ⟨oneLine_ofList.mpr fun hn => ?_, h.2⟩
    cases List.eq_of_mem_replicate hn

theorem newline_not_mem {lines : List Line} (h : ∀ l ∈ lines, l.IsSingle) :
    ∀ cs ∈ lines.map (·.text.toList), '\n' ∉ cs := by
  intro cs hcs
  obtain ⟨l, hl, rfl⟩ := List.mem_map.mp hcs
  exact (h l hl).oneLine

theorem isSingle_map_indent {lines : List Line} (h : ∀ l ∈ lines, l.IsSingle) :
    ∀ l ∈ lines.map indent, l.IsSingle := by
  intro l hl
  obtain ⟨m, hm, rfl⟩ := List.mem_map.mp hl
  have hsingle := h m hm
  cases m <;> exact hsingle

theorem toList_text_map_indent {lines : List Line} (h : ∀ l ∈ lines, l.IsSingle) :
    (lines.map indent).map (·.text.toList) = (lines.map (·.text.toList)).map tabbed := by
  rw [List.map_map, List.map_map]
  exact List.map_congr_left fun l hl => (h l hl).toList_text_indent

/-- Single lines can be read back from their text. -/
theorem join_inj {lines rest : List Line} (hl : ∀ l ∈ lines, l.IsSingle)
    (hr : ∀ l ∈ rest, l.IsSingle) (h : join lines = join rest) :
    lines.map (·.text.toList) = rest.map (·.text.toList) := by
  have hlists := congrArg String.toList h
  rw [toList_join, toList_join] at hlists
  exact terminate_inj (newline_not_mem hl) (newline_not_mem hr) hlists

end Line

namespace Source

/-- The using directives and the blank line behind them. -/
def header (s : Source) : String :=
  Line.join (s.usings.map (fun name => .code 0 s!"using {name};") ++
    if s.usings = [] then [] else [.blank])

theorem text_eq_header (s : Source) (scope : Option String) :
    s.text scope = s.header ++ Line.join (enclosed s.body scope) := Line.join_append _ _

/-- **A declaration of single lines can be read back from its file**, in any
namespace. -/
theorem body_inj {s s' : Source} (hs : ∀ l ∈ s.body, l.IsSingle)
    (hs' : ∀ l ∈ s'.body, l.IsSingle) (hu : s.usings = s'.usings) {scope : Option String}
    (h : s.text scope = s'.text scope) :
    s.body.map (·.text.toList) = s'.body.map (·.text.toList) := by
  have hheader : s.header = s'.header := by rw [header, header, hu]
  rw [text_eq_header, text_eq_header, hheader, String.append_right_inj] at h
  cases scope with
  | none => exact Line.join_inj hs hs' h
  | some n =>
    rw [enclosed, enclosed, Line.join_cons, Line.join_cons, String.append_right_inj,
      Line.join_append, Line.join_append, String.append_left_inj] at h
    have htexts := Line.join_inj (Line.isSingle_map_indent hs) (Line.isSingle_map_indent hs') h
    rw [Line.toList_text_map_indent hs, Line.toList_text_map_indent hs'] at htexts
    exact (List.map_inj_right fun _ _ => @tabbed_injective _ _).mp htexts

end Source

end SchemaSharp
