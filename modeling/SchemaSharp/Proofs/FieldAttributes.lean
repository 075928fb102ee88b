/-
What the attributes of fields quote.

An attribute puts names between quotation marks as they stand, without the escapes that
the text of an enum gets. `Literal.Verbatim` says which texts that is enough for
(`Literal.writes_inQuotes_iff`). Resolving a type settles some of the names, since the
rest have to be in the table, but none of a property with an enum type and never the
name of a deprecated one (`Property.attribute_literals_iff`).

The attribute goes by the child type alone, which the C# type of a property with an
enum type does not depend on. So such a property is written in as many ways as child
types can be told apart (`Property.enumTyped_texts_iff`).
-/
import SchemaSharp.Proofs.LiteralGrammar
import SchemaSharp.Proofs.ClassText

namespace SchemaSharp

/-! ## Texts that stand for themselves -/

namespace Literal

/-- The characters that a literal may hold as they are. -/
def standsForItself (c : Char) : Bool := c ≠ '"' && c ≠ '\\' && !endsLine c

theorem standsForItself_iff {c : Char} :
    standsForItself c = true ↔ c ≠ '"' ∧ c ≠ '\\' ∧ endsLine c = false := by
  simp [standsForItself, and_assoc]

/-- A text without a character that would have to be escaped. -/
def Verbatim (t : String) : Prop := ∀ c ∈ t.toList, standsForItself c = true

instance (t : String) : Decidable (Verbatim t) :=
  decidable_of_iff (t.toList.all standsForItself = true) List.all_eq_true

theorem verbatim_append {s t : String} : Verbatim (s ++ t) ↔ Verbatim s ∧ Verbatim t := by
  simp only [Verbatim, String.toList_append, List.mem_append, or_imp, forall_and]

/-- A text between quotation marks, as it stands. -/
def inQuotes (t : String) : String := "\"" ++ t ++ "\""

/-- A string literal of the grammar for a text. -/
structure Writes (literal text : String) : Prop where
  regular : IsRegular literal
  denotes : Denotes literal text

theorem toList_inQuotes (t : String) : (inQuotes t).toList = '"' :: (t.toList ++ ['"']) := by
  simp [inQuotes]

theorem inside_of_verbatim {cs : List Char} (h : ∀ c ∈ cs, standsForItself c = true) :
    Inside cs := by
  induction cs with
  | nil => exact .nil
  | cons c cs ih =>
    simp only [List.mem_cons, forall_eq_or_imp] at h
    obtain ⟨hq, hb, hl⟩ := standsForItself_iff.mp h.1
    exact .plain hq hb hl (ih h.2)

theorem readInside?_verbatim {cs : List Char} (h : ∀ c ∈ cs, standsForItself c = true)
    (rest : List Char) : readInside? (cs ++ '"' :: rest) = some (cs, rest) := by
  induction cs with
  | nil => rfl
  | cons c cs ih =>
    simp only [List.mem_cons, forall_eq_or_imp] at h
    obtain ⟨_, hb, _⟩ := standsForItself_iff.mp h.1
    simp [readInside?, hb, ih h.2]

/-- Every escape is longer than what it stands for, so a literal is as long as what it is
read as, but for the closing quotation mark, only if nothing is escaped. -/
theorem readInside?_length {cs t rest : List Char} (h : readInside? cs = some (t, rest)) :
    t.length + rest.length < cs.length ∧
      (cs.length = t.length + rest.length + 1 → ∀ c ∈ t, c ≠ '"' ∧ c ≠ '\\') := by
  fun_induction readInside? cs generalizing t with
  | case1 => cases h
  | case2 =>
    cases h
    simp
  | case3 h₁ h₂ h₃ h₄ cs ih =>
    obtain ⟨c, _, h⟩ := Option.bind_eq_some_iff.mp h
    obtain ⟨⟨t, rest⟩, ht, heq⟩ := Option.map_eq_some_iff.mp h
    cases heq
    have hlt := (ih ht).1
    simp only [List.length_cons]
    exact ⟨by omega, fun hlen => absurd hlen (by omega)⟩
  | case4 e cs _ ih =>
    obtain ⟨c, _, h⟩ := Option.bind_eq_some_iff.mp h
    obtain ⟨⟨t, rest⟩, ht, heq⟩ := Option.map_eq_some_iff.mp h
    cases heq
    have hlt := (ih ht).1
    simp only [List.length_cons]
    exact ⟨by omega, fun hlen => absurd hlen (by omega)⟩
  | case5 => cases h
  | case6 c cs hq _ hescape hb ih =>
    obtain ⟨⟨t, rest⟩, ht, heq⟩ := Option.map_eq_some_iff.mp h
    cases heq
    obtain ⟨hlt, hrest⟩ := ih ht
    simp only [List.length_cons, List.mem_cons, forall_eq_or_imp]
    refine ⟨by omega, fun hlen => ⟨⟨hq, fun hc => ?_⟩, hrest (by omega)⟩⟩
    cases cs with
    | nil => exact hb hc rfl
    | cons e cs => exact hescape e cs hc rfl

/-- **A text may stand in quotation marks as it is if no character of it has to be
escaped**, and only then is this a literal for it. -/
theorem writes_inQuotes_iff {t : String} : Writes (inQuotes t) t ↔ Verbatim t := by
  refine ⟨fun h c hc => standsForItself_iff.mpr ?_, fun h => ⟨⟨t.toList, ?_, ?_⟩, fun rest => ?_⟩⟩
  · have hread : readInside? (t.toList ++ ['"']) = some (t.toList, []) := by
      have hliteral := h.denotes []
      rwa [List.append_nil, toList_inQuotes] at hliteral
    obtain ⟨hq, hb⟩ := (readInside?_length hread).2 (by simp) c hc
    obtain ⟨cs, hinside, hcs⟩ := h.regular
    rw [toList_inQuotes] at hcs
    have hinner : t.toList = cs := List.append_cancel_right (List.cons.inj hcs).2
    exact ⟨hq, hb, hinside.endsLine c (hinner ▸ hc)⟩
  · exact inside_of_verbatim h
  · exact toList_inQuotes t
  · rw [toList_inQuotes, List.cons_append, List.append_assoc]
    exact readInside?_verbatim h rest

end Literal

/-! ## Attributes of a field -/

namespace Property

open Literal

/-- The message about a deprecated field. -/
def notice (p : Property) : String := s!"field '{p.name}' is deprecated."

theorem verbatim_notice {p : Property} : Verbatim p.notice ↔ Verbatim p.name := by
  have hleft : Verbatim "field '" := by decide
  have hright : Verbatim "' is deprecated." := by decide
  unfold notice
  simp [toString, verbatim_append, hleft, hright]

/-- The arguments of the attribute that tells the runtime a field's type: the index, the
declared type, the C# type if there is a child, and the child if it has to be built. -/
def attributeArguments (p : Property) (type : TypeExpr) : List String :=
  [Numeral.natText p.index.toNat, inQuotes p.type] ++
    (p.child.toList.map fun _ => s!"typeof({type.text})") ++
    p.builtChild.toList.map (inQuotes ·.name)

/-- The arguments as they are written. -/
def argumentText (p : Property) (type : TypeExpr) : String :=
  ", ".intercalate (p.attributeArguments type)

theorem typeLine_eq (p : Property) (type : TypeExpr) :
    p.typeLine type = s!"[Type({p.argumentText type})]" := by
  refine String.toList_injective ?_
  rw [toList_typeLine]
  unfold childArguments argumentText attributeArguments builtChild Numeral.natText
  cases p.child with
  | none => simp [toString, inQuotes]
  | some child =>
    cases hu : child.userDefined <;>
      simp [toString, hu, inQuotes, Option.filter]

theorem obsoleteLine_eq (p : Property) :
    p.obsoleteLine = s!"[System.Obsolete({inQuotes p.notice}, true)]" := by
  refine String.toList_injective ?_
  unfold obsoleteLine inQuotes notice
  simp [toString]

/-- What a property without an enum type has to declare settles its type if it has a child
type, and which names are known otherwise. -/
theorem Resolves.settles {known : String → Prop} {p : Property} (h : p.Resolves known)
    (he : p.enumType = none) :
    (p.child = none → known p.type) ∧ (p.child.isSome = true → Verbatim p.type) ∧
      ∀ child, p.builtChild = some child → known child.name := by
  unfold Resolves at h
  unfold builtChild
  rw [he] at h
  cases hc : p.child with
  | none =>
    rw [hc] at h
    refine ⟨fun _ => h.2, fun hn => (by cases hn), fun child hn => (by cases hn)⟩
  | some child =>
    rw [hc] at h
    obtain ⟨hchild, htype⟩ := h
    refine ⟨fun hn => (by cases hn), fun _ => ?_, fun child' hb => ?_⟩
    · rcases htype with hr | ⟨kind, hk⟩
      · rw [hr]
        decide
      · rw [← hk]
        cases kind <;> decide
    · obtain ⟨hsome, hu⟩ := Option.filter_eq_some_iff.mp hb
      obtain rfl := Option.some.inj hsome
      exact hchild.resolve_left (by simpa using hu)

variable {table : TypeTable} {owner indent text : String} {p : Property}

/-- **The attributes of a field write what is declared, unless a character of it has to
be escaped.** -/
theorem attribute_literals_iff
    (h : (p.trackedField table owner).map (fieldText indent) = .ok text) :
    ∃ type, table.resolve owner p = .ok type ∧
      text = fieldText indent
        ((if p.deprecated then [s!"[System.Obsolete({inQuotes p.notice}, true)]"] else []) ++
          [s!"[Type({p.argumentText type})]", p.fieldLine type]) ∧
      (p.deprecated = true → (Writes (inQuotes p.notice) p.notice ↔ Verbatim p.name)) ∧
      (Writes (inQuotes p.type) p.type ↔ Verbatim p.type) ∧
      (∀ child, p.builtChild = some child →
        (Writes (inQuotes child.name) child.name ↔ Verbatim child.name)) ∧
      (p.enumType = none →
        (p.child = none → table.Lists p.type) ∧ (p.child.isSome = true → Verbatim p.type) ∧
        ∀ child, p.builtChild = some child → table.Lists child.name) := by
  obtain ⟨lines, hlines, rfl⟩ := map_eq_ok.mp h
  obtain ⟨type, hresolve, rfl⟩ := map_eq_ok.mp hlines
  have hresolves : p.Resolves table.Lists := TypeTable.exists_resolve.mp ⟨type, hresolve⟩
  refine ⟨type, hresolve, ?_, fun _ => ?_, writes_inQuotes_iff, fun child _ => writes_inQuotes_iff,
    hresolves.settles⟩
  · rw [← typeLine_eq, ← obsoleteLine_eq]
    rfl
  · rw [writes_inQuotes_iff, verbatim_notice]

end Property

open Literal

/-- A deprecated map of numbers. -/
def ammoProperty : Property := ⟨"ammo", 4, "map", some (.ofName "uint8"), none, true⟩

theorem Property.attribute_literals_ammo :
    ∃ text, (ammoProperty.trackedField .primitives "Player").map (fieldText "\t") = .ok text ∧
      text = "\t\t[System.Obsolete(\"field 'ammo' is deprecated.\", true)]\n" ++
        "\t\t[Type(4, \"map\", typeof(MapSchema<byte>), \"uint8\")]\n" ++
        "\t\tpublic MapSchema<byte> ammo = new();" ∧
      Writes "\"field 'ammo' is deprecated.\"" "field 'ammo' is deprecated." ∧
      Writes "\"map\"" "map" ∧ Writes "\"uint8\"" "uint8" := by
  obtain ⟨text, htext⟩ : ∃ text,
      (ammoProperty.trackedField .primitives "Player").map (fieldText "\t") = .ok text := ⟨_, rfl⟩
  obtain ⟨type, hresolve, hlines, hnotice, htype, hchild, _⟩ := attribute_literals_iff htext
  have hmap : type = .container .map "byte" := Except.ok.inj (hresolve.symm.trans (by decide))
  refine ⟨text, htext, ?_, (hnotice rfl).mpr (by decide), htype.mpr (by decide),
    (hchild (.ofName "uint8") (by decide)).mpr (by decide)⟩
  rw [hlines, hmap]
  decide

/-- A declared type in quotation marks of its own. -/
def quotedProperty : Property := ⟨"color", 0, "\"color\"", none, some "Color", false⟩

/-- No literal for the declared type stands in the attribute. -/
theorem type_literal_can_break :
    (quotedProperty.trackedField .primitives "Player").map (fieldText "") =
        .ok "\t[Type(0, \"\"color\"\")]\n\tpublic Color color = default;" ∧
      ¬∃ literal, Writes literal quotedProperty.type ∧
        "[Type(0, \"\"color\"\")]" = s!"[Type(0, {literal})]" := by
  refine ⟨by decide, fun ⟨literal, hwrites, hline⟩ => ?_⟩
  have hliteral : literal = inQuotes quotedProperty.type := by
    have hsame : "[Type(0, " ++ inQuotes quotedProperty.type ++ ")]" =
        "[Type(0, " ++ literal ++ ")]" := Eq.trans (by decide) hline
    rw [String.append_left_inj, String.append_right_inj] at hsame
    exact hsame.symm
  rw [hliteral, writes_inQuotes_iff] at hwrites
  exact absurd hwrites (by decide)

/-! ## Fields of an enum type -/

namespace Property

variable {p q : Property} {type : TypeExpr}

/-- A property of an enum type, with a child type or none. -/
def withEnum (p : Property) (name : String) (child : Option ChildType) : Property :=
  { p with enumType := some name, child := child }

/-- What is known of a child type is whether there is one and whether it has to be built. -/
theorem childArguments_eq (p : Property) (type : TypeExpr) : p.childArguments type =
    (if p.hasChild then ", typeof(".toList ++ type.text.toList ++ [')'] else []) ++
      p.builtChild.toList.flatMap fun child => ", \"".toList ++ child.name.toList ++ ['"'] := by
  unfold childArguments hasChild builtChild
  cases p.child with
  | none => rfl
  | some child => cases hu : child.userDefined <;> simp [hu, Option.filter]

/-- The lines of a field of an enum type. -/
def enumLines (p : Property) (name : String) (child : Option ChildType) : List String :=
  (if p.deprecated then [p.obsoleteLine] else []) ++
    [(p.withEnum name child).typeLine (.named name),
      (p.withEnum name child).fieldLine (.named name)]

theorem trackedField_withEnum (table : TypeTable) (owner name : String)
    (child : Option ChildType) :
    (p.withEnum name child).trackedField table owner = .ok (p.enumLines name child) := rfl

theorem carrierField_withEnum (table : TypeTable) (owner name : String)
    (child : Option ChildType) :
    (p.withEnum name child).carrierField table owner = .ok [s!"public {name} {p.name};"] := by
  cases child <;> rfl

/-- The child type of a field of an enum type shows in two places. -/
theorem toList_enumLines (p : Property) (name indent : String) :
    ∃ before between : List Char, ∀ child,
      (fieldText indent (p.enumLines name child)).toList =
        before ++ ((p.withEnum name child).childArguments (.named name) ++
          (between ++ ((p.withEnum name child).initializer.toList ++ [';']))) := by
  refine ⟨(if p.deprecated then '\t' :: (indent.toList ++ p.obsoleteLine.toList ++ ['\n'])
        else []) ++
      '\t' :: (indent.toList ++ "[Type(".toList ++ Nat.toDigits 10 p.index.toNat ++
        ", \"".toList ++ p.type.toList ++ ['"']),
    ")]\n\t".toList ++ indent.toList ++ "public ".toList ++ name.toList ++
      ' ' :: (p.name.toList ++ " = ".toList), fun child => ?_⟩
  have hindex : (p.withEnum name child).index = p.index := rfl
  have htype : (p.withEnum name child).type = p.type := rfl
  have hname : (p.withEnum name child).name = p.name := rfl
  unfold enumLines fieldText
  cases p.deprecated <;>
    simp [toList_typeLine, toList_fieldLine, hindex, htype, hname, TypeExpr.text]

theorem initializer_of_child (h : p.hasChild = q.hasChild) : p.initializer = q.initializer := by
  rw [initializer, initializer, h]

theorem hasChild_of_initializer {before before' : List Char}
    (h : before ++ (p.initializer.toList ++ [';']) = before' ++ (q.initializer.toList ++ [';'])) :
    p.hasChild = q.hasChild := by
  have hend : ∀ r : Property, ∃ init : List Char, r.initializer.toList ++ [';'] =
      init ++ [if r.hasChild then ')' else 't', ';'] := fun r => by
    unfold initializer
    cases r.hasChild with
    | true => exact ⟨"new(".toList, rfl⟩
    | false => exact ⟨"defaul".toList, rfl⟩
  obtain ⟨init, hp⟩ := hend p
  obtain ⟨init', hq⟩ := hend q
  rw [hp, hq, ← List.append_assoc, ← List.append_assoc] at h
  have hlast := (List.cons.inj (List.append_inj' h rfl).2).1
  cases hc : p.hasChild <;> cases hc' : q.hasChild <;> rw [hc, hc'] at hlast <;>
    first | rfl | exact absurd hlast (by decide)

/-- Two fields that differ in their child types are the same text if these look the same. -/
theorem fieldText_enumLines_inj {name indent : String} {child child' : Option ChildType} :
    fieldText indent (p.enumLines name child) = fieldText indent (p.enumLines name child') ↔
      child.isSome = child'.isSome ∧
        child.filter (!·.userDefined) = child'.filter (!·.userDefined) := by
  obtain ⟨before, between, htext⟩ := toList_enumLines p name indent
  refine ⟨fun h => ?_, fun ⟨hchild, hbuilt⟩ => String.toList_injective ?_⟩
  · have hchars := congrArg String.toList h
    rw [htext, htext] at hchars
    have hrest := List.append_cancel_left hchars
    have hends := hrest
    rw [← List.append_assoc, ← List.append_assoc _ between] at hends
    rw [initializer_of_child (hasChild_of_initializer hends)] at hrest
    exact childArguments_inj (List.append_cancel_right hrest)
  · have hinitializer := initializer_of_child (p := p.withEnum name child)
      (q := p.withEnum name child') hchild
    have hbuilt : (p.withEnum name child).builtChild = (p.withEnum name child').builtChild := hbuilt
    have hchild : (p.withEnum name child).hasChild = (p.withEnum name child').hasChild := hchild
    rw [htext, htext, childArguments_eq, childArguments_eq, hinitializer, hbuilt, hchild]

theorem enumLines_none (p : Property) (name : String) :
    p.enumLines name none = (if p.deprecated then [p.obsoleteLine] else []) ++
      [s!"[Type({Numeral.natText p.index.toNat}, {inQuotes p.type})]",
        s!"public {name} {p.name} = default;"] := by
  have htype : (p.withEnum name none).typeLine (.named name) =
      s!"[Type({Numeral.natText p.index.toNat}, {inQuotes p.type})]" := by
    rw [typeLine_eq]
    refine String.toList_injective ?_
    simp [argumentText, attributeArguments, builtChild, withEnum, toString]
  have hfield : (p.withEnum name none).fieldLine (.named name) =
      s!"public {name} {p.name} = default;" := by
    refine String.toList_injective ?_
    simp [toList_fieldLine, withEnum, TypeExpr.text, initializer, hasChild, toString]
  rw [enumLines, htype, hfield]

/-- **Fields of an enum type are the same text if their child types look the same**, and
only then: both are there or not, and both are to be built, by one name, or not. So a
field is as it would be without a child type exactly if it has none. Data carriers do not
depend on the child type. -/
theorem enumTyped_texts_iff (table : TypeTable) (owner indent : String) (p : Property)
    (name : String) (child child' : Option ChildType) :
    ∃ text text', ((p.withEnum name child).trackedField table owner).map (fieldText indent) =
        .ok text ∧
      ((p.withEnum name child').trackedField table owner).map (fieldText indent) = .ok text' ∧
      (text = text' ↔ child.isSome = child'.isSome ∧
        child.filter (!·.userDefined) = child'.filter (!·.userDefined)) ∧
      (text = fieldText indent ((if p.deprecated then [p.obsoleteLine] else []) ++
          [s!"[Type({Numeral.natText p.index.toNat}, {inQuotes p.type})]",
            s!"public {name} {p.name} = default;"]) ↔ child = none) ∧
      ∀ c ∈ [child, child'],
        ((p.withEnum name c).carrierField table owner).map (fieldText indent) =
          .ok (fieldText indent [s!"public {name} {p.name};"]) := by
  have htext (c : Option ChildType) :
      ((p.withEnum name c).trackedField table owner).map (fieldText indent) =
        .ok (fieldText indent (p.enumLines name c)) := by
    rw [trackedField_withEnum]
    rfl
  refine ⟨_, _, htext child, htext child', fieldText_enumLines_inj, ?_, fun c _ => ?_⟩
  · rw [← enumLines_none]
    refine fieldText_enumLines_inj.trans ⟨fun h => ?_, fun h => ?_⟩
    · exact Option.isNone_iff_eq_none.mp (Option.isSome_eq_false_iff.mp h.1)
    · rw [h]
      exact ⟨rfl, rfl⟩
  · rw [carrierField_withEnum]
    rfl

end Property

/-- A reference without a child type. -/
def auraProperty : Property := ⟨"aura", 0, "ref", none, none, false⟩

/-- The child type of a property with an enum type does show. -/
theorem child_shows_beside_enum :
    ∃ text text', ((auraProperty.withEnum "Color" (some (.ofName "Player"))).trackedField
        .primitives "Player").map (fieldText "") = .ok text ∧
      ((auraProperty.withEnum "Color" none).trackedField .primitives "Player").map (fieldText "") =
        .ok text' ∧
      text = "\t[Type(0, \"ref\", typeof(Color))]\n\tpublic Color aura = new();" ∧
      text' = "\t[Type(0, \"ref\")]\n\tpublic Color aura = default;" ∧ text ≠ text' :=
  ⟨_, _, rfl, rfl, by decide, by decide, by decide⟩

end SchemaSharp
