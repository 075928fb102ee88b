/-
Classes read back from their files.

Where all names are identifiers, the file of a class tells its name and base and,
field by field, everything that the fields are written from
(`ClassDecl.alike_of_render`). Empty lines separate the fields
(`fieldTexts_injective`), and what stands in a line of a field is delimited
(`typeLine_inj`, `fieldLine_inj`).
-/
import SchemaSharp.Proofs.Identifier

namespace SchemaSharp

/-- The child type that the runtime has to build from its name. -/
def Property.builtChild (p : Property) : Option ChildType := p.child.filter (!·.userDefined)

/-- What the field of a property is written from. -/
structure Property.Alike (table : TypeTable) (owner owner' : String) (p q : Property) : Prop where
  name : p.name = q.name
  index : p.index = q.index
  type : p.type = q.type
  resolved : ∃ type, table.resolve owner p = .ok type ∧ table.resolve owner' q = .ok type
  child : p.child.isSome = q.child.isSome
  builtChild : p.builtChild = q.builtChild
  deprecated : p.deprecated = q.deprecated

namespace Property

variable {table : TypeTable} {p q : Property} {type type' : TypeExpr}

/-- The arguments behind the declared type. -/
def childArguments (p : Property) (type : TypeExpr) : List Char :=
  match p.child with
  | none => []
  | some child => ", typeof(".toList ++ type.text.toList ++ ')' ::
      if child.userDefined then [] else ", \"".toList ++ child.name.toList ++ ['"']

theorem toList_typeLine (p : Property) (type : TypeExpr) :
    (p.typeLine type).toList = "[Type(".toList ++ (Nat.toDigits 10 p.index.toNat ++
      ',' :: ' ' :: '"' :: (p.type.toList ++ '"' :: (p.childArguments type ++ [')', ']']))) := by
  unfold typeLine typeArguments childArguments Numeral.natText
  cases hc : p.child with
  | none => simp [toString]
  | some child => cases hu : child.userDefined <;> simp [toString, hu]

theorem toList_fieldLine (p : Property) (type : TypeExpr) :
    (p.fieldLine type).toList = "public ".toList ++ (type.text.toList ++ ' ' ::
      (p.name.toList ++ ' ' :: ("= ".toList ++ p.initializer.toList ++ [';']))) := by
  unfold fieldLine
  simp [toString]

theorem childArguments_inj (h : p.childArguments type = q.childArguments type) :
    p.child.isSome = q.child.isSome ∧ p.builtChild = q.builtChild := by
  unfold childArguments at h
  unfold builtChild
  cases hc : p.child with
  | none =>
    cases hc' : q.child with
    | none => exact ⟨rfl, rfl⟩
    | some child' =>
      rw [hc, hc'] at h
      exact absurd h.symm (List.append_ne_nil_of_right_ne_nil _ (List.cons_ne_nil _ _))
  | some child =>
    cases hc' : q.child with
    | none =>
      rw [hc, hc'] at h
      exact absurd h (List.append_ne_nil_of_right_ne_nil _ (List.cons_ne_nil _ _))
    | some child' =>
      obtain ⟨name, user⟩ := child
      obtain ⟨name', user'⟩ := child'
      rw [hc, hc'] at h
      have hrest := (List.cons.inj (List.append_cancel_left h)).2
      cases user with
      | true =>
        cases user' with
        | true => exact ⟨rfl, rfl⟩
        | false =>
          exact absurd hrest.symm (List.append_ne_nil_of_right_ne_nil _ (List.cons_ne_nil _ _))
      | false =>
        cases user' with
        | true => exact absurd hrest (List.append_ne_nil_of_right_ne_nil _ (List.cons_ne_nil _ _))
        | false =>
          obtain rfl : name = name' := String.toList_injective
            (List.append_cancel_left (List.append_cancel_right hrest))
          exact ⟨rfl, rfl⟩

theorem fieldLine_inj (hp : ∀ name ∈ p.names, IsIdentifier name)
    (hq : ∀ name ∈ q.names, IsIdentifier name)
    (ht : ∀ c ∈ type.target.toList, isWordChar c = true)
    (ht' : ∀ c ∈ type'.target.toList, isWordChar c = true)
    (h : p.fieldLine type = q.fieldLine type') : type = type' ∧ p.name = q.name := by
  have hl := congrArg String.toList h
  rw [toList_fieldLine, toList_fieldLine] at hl
  obtain ⟨htext, _, hrest⟩ := append_cons_inj (TypeExpr.isTypeChar_of_mem ht)
    (TypeExpr.isTypeChar_of_mem ht') (by decide) (by decide) (List.append_cancel_left hl)
  obtain ⟨hname, _⟩ := append_cons_inj (hp p.name (.head _)).isWordChar
    (hq q.name (.head _)).isWordChar (by decide) (by decide) hrest
  exact ⟨TypeExpr.text_inj ht ht' htext, String.toList_injective hname⟩

/-- An attribute gives the index, up to the comma, the declared type, up to the
quotation mark, and what is known of the child type. -/
theorem typeLine_inj (hp : ∀ name ∈ p.names, IsIdentifier name)
    (hq : ∀ name ∈ q.names, IsIdentifier name) (h : p.typeLine type = q.typeLine type') :
    p.index = q.index ∧ p.type = q.type ∧ p.childArguments type = q.childArguments type' := by
  have hl := congrArg String.toList h
  rw [toList_typeLine, toList_typeLine] at hl
  obtain ⟨hdigits, _, hrest⟩ := append_cons_inj (Decimal.isDigits_toDigits _).2
    (Decimal.isDigits_toDigits _).2 (by decide) (by decide) (List.append_cancel_left hl)
  have hrest := (List.cons.inj (List.cons.inj hrest).2).2
  obtain ⟨htype, _, hrest⟩ := append_cons_inj (hp p.type (.tail _ (.head _))).isWordChar
    (hq q.type (.tail _ (.head _))).isWordChar (by decide) (by decide) hrest
  have hindex : p.index.toNat = q.index.toNat := by
    rw [← Nat.ofDigitChars_ten_toDigits (n := p.index.toNat), hdigits,
      Nat.ofDigitChars_ten_toDigits]
  exact ⟨UInt16.toNat_inj.mp hindex, String.toList_injective htype, List.append_cancel_right hrest⟩

/-- **Fields are alike if their lines are.** -/
theorem alike_of_trackedField {owner owner' : String} {lines : List String} (ht : table.Built)
    (hp : ∀ name ∈ p.names, IsIdentifier name) (hq : ∀ name ∈ q.names, IsIdentifier name)
    (h : p.trackedField table owner = .ok lines) (h' : q.trackedField table owner' = .ok lines) :
    p.Alike table owner owner' q := by
  obtain ⟨type, hr, rfl⟩ := map_eq_ok.mp h
  obtain ⟨type', hr', hlines⟩ := map_eq_ok.mp h'
  obtain ⟨hobsolete, hpair⟩ := List.append_inj' hlines.symm (by simp only [List.length_cons])
  obtain ⟨htypeLine, hpair⟩ := List.cons.inj hpair
  obtain ⟨hfieldLine, _⟩ := List.cons.inj hpair
  obtain ⟨rfl, hname⟩ := fieldLine_inj hp hq
    ((TypeTable.resolve_eq_ok.mp hr).isWordChar_target ht hp)
    ((TypeTable.resolve_eq_ok.mp hr').isWordChar_target ht hq) hfieldLine
  obtain ⟨hindex, htype, hargs⟩ := typeLine_inj hp hq htypeLine
  obtain ⟨hchild, hbuilt⟩ := childArguments_inj hargs
  have hdeprecated : p.deprecated = q.deprecated := by
    cases hd : p.deprecated <;> cases hd' : q.deprecated <;> simp [hd, hd'] at hobsolete ⊢
  exact ⟨hname, hindex, htype, ⟨type, hr, hr'⟩, hchild, hbuilt, hdeprecated⟩

end Property

/-- The lines of fields, as texts. -/
def fieldTexts (fields : List (List String)) : List (List Char) :=
  (fields.flatMap fun lines => Line.blank :: lines.map (.code 1)).map (·.text.toList)

theorem fieldTexts_append (fields : List (List String)) :
    fieldTexts fields ++ [[]] =
      [] :: terminate [] (fields.map (·.map fun line => '\t' :: line.toList)) := by
  have hlines : ∀ lines : List String,
      (Line.blank :: lines.map (.code 1)).map (·.text.toList) =
        [] :: lines.map fun line => '\t' :: line.toList := by
    intro lines
    simp [Line.text]
  rw [cons_terminate, fieldTexts, List.map_flatMap, List.flatMap_map]
  simp only [hlines]

theorem fieldTexts_injective : Function.Injective fieldTexts := by
  intro fields fields' h
  have hmarks := congrArg (· ++ [[]]) h
  simp only [fieldTexts_append, List.cons.injEq, true_and] at hmarks
  have hfree : ∀ fields : List (List String),
      ∀ lines ∈ fields.map (·.map fun line => '\t' :: line.toList), [] ∉ lines := by
    simp
  have hlines := terminate_inj (hfree _) (hfree _) hmarks
  refine (List.map_inj_right fun lines lines' hl => ?_).mp hlines
  refine (List.map_inj_right fun line line' hl => ?_).mp hl
  exact String.toList_injective (List.cons.inj hl).2

namespace ClassDecl

variable {c c' : ClassDecl}

/-- The line that begins a class. -/
def heading (name base : String) : String := s!"public partial class {name} : {base} \x7b"

theorem toList_heading (name base : String) :
    (heading name base).toList = "public partial class ".toList ++ (name.toList ++ ' ' ::
      (": ".toList ++ (base.toList ++ ' ' :: ['\x7b']))) := by
  unfold heading
  simp [toString]

theorem heading_inj (hc : ∀ name ∈ c.names, IsIdentifier name)
    (hc' : ∀ name ∈ c'.names, IsIdentifier name)
    (h : heading c.name c.base = heading c'.name c'.base) :
    c.name = c'.name ∧ c.base = c'.base := by
  have hl := congrArg String.toList h
  rw [toList_heading, toList_heading] at hl
  obtain ⟨hname, _, hrest⟩ := append_cons_inj (hc _ (.head _)).isWordChar
    (hc' _ (.head _)).isWordChar (by decide) (by decide) (List.append_cancel_left hl)
  obtain ⟨hbase, _⟩ := append_cons_inj (hc _ (.tail _ (.head _))).isWordChar
    (hc' _ (.tail _ (.head _))).isWordChar (by decide) (by decide) (List.append_cancel_left hrest)
  exact ⟨String.toList_injective hname, String.toList_injective hbase⟩

theorem body_inj {fields fields' : List (List String)} (hc : ∀ name ∈ c.names, IsIdentifier name)
    (hc' : ∀ name ∈ c'.names, IsIdentifier name)
    (h : (c.body fields).map (·.text.toList) = (c'.body fields').map (·.text.toList)) :
    c.name = c'.name ∧ c.base = c'.base ∧ fields = fields' := by
  rw [body, body] at h
  simp only [List.map_append] at h
  obtain ⟨hhead, hfields⟩ := List.append_inj (List.append_cancel_right h)
    (by simp only [List.length_map, List.length_cons])
  have hheading := String.toList_injective (List.cons.inj hhead).1
  rw [Line.text_flush, Line.text_flush] at hheading
  obtain ⟨hname, hbase⟩ := heading_inj hc hc' hheading
  exact ⟨hname, hbase, fieldTexts_injective hfields⟩

/-- **No two classes that differ in what they declare have the same file.** Where
all names are identifiers, two classes with one text over the same table have the
same name and base, and properties that are written alike, one by one. -/
theorem alike_of_render {table : TypeTable} (ht : table.Built)
    (hc : ∀ name ∈ c.names, IsIdentifier name) (hc' : ∀ name ∈ c'.names, IsIdentifier name)
    {options : Options} {text : String}
    (h : (Descriptor.ofClass c).render table options = .ok text)
    (h' : (Descriptor.ofClass c').render table options = .ok text) :
    c.name = c'.name ∧ c.base = c'.base ∧
      List.Forall₂ (Property.Alike table c.name c'.name) c.properties c'.properties := by
  obtain ⟨src, hs, rfl⟩ := map_eq_ok.mp h
  obtain ⟨src', hs', htext⟩ := map_eq_ok.mp h'
  have hsingle := c.isSingle_body ht (fun name hn => (hc name hn).oneLine) hs
  have hsingle' := c'.isSingle_body ht (fun name hn => (hc' name hn).oneLine) hs'
  obtain ⟨fields, hfields, rfl⟩ := map_eq_ok.mp hs
  obtain ⟨fields', hfields', rfl⟩ := map_eq_ok.mp hs'
  have hbody := Source.body_inj hsingle hsingle' rfl htext.symm
  obtain ⟨hname, hbase, rfl⟩ := body_inj hc hc' hbody
  refine ⟨hname, hbase, ?_⟩
  have hleft := (List.forall₂_and_left _ _).mpr
    ⟨fun p hp name hn => hc name (mem_names hp name hn), collectFields_eq_ok.mp hfields⟩
  have hright := (List.forall₂_and_left _ _).mpr
    ⟨fun p hp name hn => hc' name (mem_names hp name hn), collectFields_eq_ok.mp hfields'⟩
  refine (forall₂_join hleft hright).imp fun p q hpq => ?_
  obtain ⟨lines, ⟨hp, hl⟩, hq, hl'⟩ := hpq
  exact Property.alike_of_trackedField ht hp hq hl hl'

end ClassDecl

/-- A class with a deprecated field. -/
def bossClass : ClassDecl := ⟨"Boss", "Player", [⟨"hp", 3, "int32", none, none, true⟩]⟩

/-- The same class with the type of its field declared on its own. -/
def castBossClass : ClassDecl := ⟨"Boss", "Player", [⟨"hp", 3, "int32", none, some "int", true⟩]⟩

/-- What tells two classes with one file apart is not written. -/
theorem alike_of_render_boss :
    TypeTable.primitives.Built ∧ (∀ name ∈ bossClass.names, IsIdentifier name) ∧
    (∀ name ∈ castBossClass.names, IsIdentifier name) ∧ bossClass ≠ castBossClass ∧
    ∃ text, (Descriptor.ofClass bossClass).render .primitives {} = .ok text ∧
      (Descriptor.ofClass castBossClass).render .primitives {} = .ok text ∧
      bossClass.name = castBossClass.name ∧ bossClass.base = castBossClass.base ∧
      List.Forall₂ (Property.Alike .primitives bossClass.name castBossClass.name)
        bossClass.properties castBossClass.properties := by
  have hnames : ∀ name ∈ bossClass.names, IsIdentifier name := by decide
  have hnames' : ∀ name ∈ castBossClass.names, IsIdentifier name := by decide
  have heq : (Descriptor.ofClass bossClass).render .primitives {} =
      (Descriptor.ofClass castBossClass).render .primitives {} := by decide +kernel
  obtain ⟨text, h⟩ : ∃ text, (Descriptor.ofClass bossClass).render .primitives {} = .ok text :=
    exists_map_eq_ok.mpr ⟨_, rfl⟩
  have h' := heq ▸ h
  exact ⟨.primitives, hnames, hnames', by decide, text, h, h',
    ClassDecl.alike_of_render .primitives hnames hnames' h h'⟩

end SchemaSharp
