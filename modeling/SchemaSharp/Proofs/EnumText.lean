/-
Enums read back from their files.

Where the names are identifiers and the values are loaded, the file of an enum tells
its kind, its name, and member by member the name and the value that the member
stands for (`EnumDecl.effective_eq_of_render`). The heading tells the kind and the name
(`heading_inj`); in the line of a member the name ends at the first blank, and what is
left is its literal (`memberLine_inj`).
-/
import SchemaSharp.Proofs.Identifier
import SchemaSharp.Proofs.LiteralValue

namespace SchemaSharp

namespace Member

variable {m m' : Member} {position : Nat}

theorem toList_line (m : Member) (position : Nat) :
    (m.line position).text.toList = '\t' :: (m.name.toList ++ ' ' ::
      ("= ".toList ++ (m.value.literal position).text.toList ++ [','])) := by
  simp [line, Line.text, toString]

theorem line_inj (hm : IsIdentifier m.name) (hm' : IsIdentifier m'.name)
    (h : (m.line position).text.toList = (m'.line position).text.toList) :
    m.name = m'.name ∧ (m.value.literal position).text = (m'.value.literal position).text := by
  rw [toList_line, toList_line] at h
  obtain ⟨hname, _, hrest⟩ := append_cons_inj hm.isWordChar hm'.isWordChar (by decide) (by decide)
    (List.cons.inj h).2
  have hliteral := List.append_cancel_left (List.append_cancel_right hrest)
  exact ⟨String.toList_injective hname, String.toList_injective hliteral⟩

theorem toList_constantLine (m : Member) (position : Nat) :
    (EnumDecl.constantLine position m).text.toList = '\t' :: ("public const ".toList ++
      ((m.value.constant position).type.toList ++ ' ' :: (m.name.toList ++ ' ' ::
        ("= ".toList ++ (m.value.constant position).text.toList ++ [';'])))) := by
  simp [EnumDecl.constantLine, Line.text, toString]

theorem isWordChar_constant_type (position : Nat) (v : MemberValue) :
    ∀ c ∈ (v.constant position).type.toList, isWordChar c = true := by
  have hwords : ∀ word ∈ ["int", "long", "float", "string"], word.toList.all isWordChar = true := by
    decide
  have htype : (v.constant position).type ∈ ["int", "long", "float", "string"] := by
    cases v with
    | integer n =>
      change (if FitsInt32 n.toInt then "int" else "long") ∈ _
      split <;> decide
    | float x => exact .tail _ (.tail _ (.head _))
    | text t => exact .tail _ (.tail _ (.tail _ (.head _)))
    | positional => exact .head _
  exact List.all_eq_true.mp (hwords _ htype)

theorem constantLine_inj (hm : IsIdentifier m.name) (hm' : IsIdentifier m'.name)
    (h : (EnumDecl.constantLine position m).text.toList =
      (EnumDecl.constantLine position m').text.toList) :
    m.name = m'.name ∧ (m.value.literal position).text = (m'.value.literal position).text := by
  rw [toList_constantLine, toList_constantLine] at h
  obtain ⟨htype, _, hrest⟩ := append_cons_inj (isWordChar_constant_type position m.value)
    (isWordChar_constant_type position m'.value) (by decide) (by decide)
    (List.append_cancel_left (List.cons.inj h).2)
  obtain ⟨hname, _, hrest⟩ := append_cons_inj hm.isWordChar hm'.isWordChar (by decide) (by decide)
    hrest
  have htext := List.append_cancel_left (List.append_cancel_right hrest)
  have hconstant : m.value.constant position = m'.value.constant position := by
    cases hc : m.value.constant position
    cases hc' : m'.value.constant position
    rw [hc, hc'] at htype htext
    rw [Literal.mk.injEq]
    exact ⟨String.toList_injective htype, String.toList_injective htext⟩
  exact ⟨String.toList_injective hname, MemberValue.literal_eq_of_constant hconstant⟩

end Member

namespace EnumDecl

variable {e e' : EnumDecl}

theorem heading_inj (h : e.heading = e'.heading) : e.kind = e'.kind ∧ e.name = e'.name := by
  unfold heading at h
  cases hk : e.kind with
  | enumeration =>
    cases hk' : e'.kind with
    | enumeration =>
      simp only [hk, hk', toString, String.append_left_inj, String.append_right_inj] at h
      exact ⟨rfl, h⟩
    | constantGroup =>
      have hl := congrArg String.toList h
      simp [hk, hk', toString] at hl
  | constantGroup =>
    cases hk' : e'.kind with
    | enumeration =>
      have hl := congrArg String.toList h
      simp [hk, hk', toString] at hl
    | constantGroup =>
      simp only [hk, hk', toString, String.append_left_inj, String.append_right_inj] at h
      exact ⟨rfl, h⟩

theorem memberLine_inj {m m' : Member} {position : Nat} (hk : e.kind = e'.kind)
    (hm : IsIdentifier m.name) (hm' : IsIdentifier m'.name)
    (h : (e.memberLine position m).text.toList = (e'.memberLine position m').text.toList) :
    m.name = m'.name ∧ (m.value.literal position).text = (m'.value.literal position).text := by
  unfold memberLine at h
  rw [← hk] at h
  cases hkind : e.kind with
  | enumeration =>
    rw [hkind] at h
    exact Member.line_inj hm hm' h
  | constantGroup =>
    rw [hkind] at h
    exact Member.constantLine_inj hm hm' h

theorem memberLine_eq_of_body {heading heading' : String} {line line' : Nat → Member → Line}
    (h : (body heading (e.members.mapIdx line)).map (·.text.toList) =
      (body heading' (e'.members.mapIdx line')).map (·.text.toList)) :
    heading = heading' ∧ e.members.length = e'.members.length ∧
      ∀ (i : Nat) (m m' : Member), e.members[i]? = some m → e'.members[i]? = some m' →
        (line i m).text.toList = (line' i m').text.toList := by
  rw [body, body] at h
  simp only [List.map_append] at h
  obtain ⟨hhead, hlines⟩ := List.append_inj (List.append_cancel_right h)
    (by simp only [List.length_map, List.length_cons])
  have hheading := String.toList_injective (List.cons.inj hhead).1
  rw [Line.text_flush, Line.text_flush] at hheading
  refine ⟨hheading, by simpa using congrArg List.length hlines, fun i m m' hm hm' => ?_⟩
  simpa [List.getElem?_mapIdx, hm, hm'] using congrArg (·[i]?) hlines

/-- **No two enums that differ in what they stand for have the same file.** Where all
names are identifiers and all values are loaded, two enums with one text have the same
kind and name and equally many members, and members at the same position have the same
name and stand for the same value: a member without a declared value for its position,
texts and doubles for themselves. -/
theorem effective_eq_of_render {table table' : TypeTable} {options : Options} {text : String}
    (he : ∀ name ∈ e.names, IsIdentifier name) (he' : ∀ name ∈ e'.names, IsIdentifier name)
    (hl : ∀ m ∈ e.members, m.value.Loaded) (hl' : ∀ m ∈ e'.members, m.value.Loaded)
    (h : (Descriptor.ofEnum e).render table options = .ok text)
    (h' : (Descriptor.ofEnum e').render table' options = .ok text) :
    e.kind = e'.kind ∧ e.name = e'.name ∧ e.members.length = e'.members.length ∧
      ∀ (i : Nat) (m m' : Member), e.members[i]? = some m → e'.members[i]? = some m' →
        m.name = m'.name ∧ m.value.effective i = m'.value.effective i := by
  obtain ⟨src, hs, rfl⟩ := map_eq_ok.mp h
  obtain ⟨src', hs', htext⟩ := map_eq_ok.mp h'
  have hsingle := e.isSingle_body (fun name hn => (he name hn).oneLine) hs
  have hsingle' := e'.isSingle_body (fun name hn => (he' name hn).oneLine) hs'
  obtain rfl := eq_of_source hs
  obtain rfl := eq_of_source hs'
  obtain ⟨hheading, hlength, hlines⟩ :=
    memberLine_eq_of_body (Source.body_inj hsingle hsingle' rfl htext.symm)
  obtain ⟨hkind, hname⟩ := heading_inj hheading
  refine ⟨hkind, hname, hlength, fun i m m' hm hm' => ?_⟩
  have hmem := List.mem_of_getElem? hm
  have hmem' := List.mem_of_getElem? hm'
  obtain ⟨hmname, hliteral⟩ := memberLine_inj hkind
    (he _ (.tail _ (List.mem_map_of_mem hmem))) (he' _ (.tail _ (List.mem_map_of_mem hmem')))
    (hlines i m m' hm hm')
  exact ⟨hmname, MemberValue.effective_eq_of_literal (hl m hmem).normalized
    (hl' m' hmem').normalized hliteral⟩

end EnumDecl

/-- Two members without a declared value around a text with a quotation mark. -/
def windEnum : EnumDecl :=
  ⟨"WindEnum", .enumeration, [⟨"North", .classify none⟩, ⟨"Said", .classify (some "a\",")⟩,
    ⟨"South", .classify none⟩]⟩

/-- The same enumeration with its positions written out. -/
def countedWindEnum : EnumDecl :=
  ⟨"WindEnum", .enumeration, [⟨"North", .classify (some "0")⟩, ⟨"Said", .classify (some "a\",")⟩,
    ⟨"South", .classify (some " 0x2 ")⟩]⟩

theorem windEnum_loaded : (∀ m ∈ windEnum.members, m.value.Loaded) ∧
    ∀ m ∈ countedWindEnum.members, m.value.Loaded := by
  simp only [windEnum, countedWindEnum, List.mem_cons, List.not_mem_nil, or_false,
    forall_eq_or_imp, forall_eq]
  exact ⟨⟨.inl ⟨_, rfl⟩, .inl ⟨_, rfl⟩, .inl ⟨_, rfl⟩⟩, .inl ⟨_, rfl⟩, .inl ⟨_, rfl⟩, .inl ⟨_, rfl⟩⟩

/-- A position and its number have one text, and stand for the same. -/
theorem effective_eq_of_render_wind :
    (∀ name ∈ windEnum.names, IsIdentifier name) ∧
    (∀ name ∈ countedWindEnum.names, IsIdentifier name) ∧
    (∀ m ∈ windEnum.members, m.value.Loaded) ∧ (∀ m ∈ countedWindEnum.members, m.value.Loaded) ∧
    windEnum ≠ countedWindEnum ∧
    ∃ text, (Descriptor.ofEnum windEnum).render .primitives {} = .ok text ∧
      (Descriptor.ofEnum countedWindEnum).render .primitives {} = .ok text ∧
      ∀ (i : Nat) (m m' : Member), windEnum.members[i]? = some m →
        countedWindEnum.members[i]? = some m' →
          m.name = m'.name ∧ m.value.effective i = m'.value.effective i := by
  have hnames : ∀ name ∈ windEnum.names, IsIdentifier name := by decide
  have hnames' : ∀ name ∈ countedWindEnum.names, IsIdentifier name := by decide
  have htext : (Descriptor.ofEnum windEnum).render .primitives {} =
      .ok "public enum WindEnum : int \x7b\n\n\tNorth = 0,\n\tSaid = \"a\\\",\",\n\tSouth = 2,\n\x7d\n" := by
    decide +kernel
  have htext' : (Descriptor.ofEnum countedWindEnum).render .primitives {} =
      (Descriptor.ofEnum windEnum).render .primitives {} := by decide +kernel
  have hsame := EnumDecl.effective_eq_of_render hnames hnames' windEnum_loaded.1 windEnum_loaded.2
    htext (htext'.trans htext)
  exact ⟨hnames, hnames', windEnum_loaded.1, windEnum_loaded.2, by decide +kernel, _, htext,
    htext'.trans htext, hsame.2.2.2⟩

end SchemaSharp
