/-
How generation fails.

A run fails at one descriptor: the ones before it have their files, and it
has no name, repeats a file, or cannot be rendered (`ofDescriptors_eq_error`).
Over a schema that validation accepts, names are distinct and declared types
go with the child types; then all that is left are names nowhere declared,
integers out of range and missing names (`Schema.Obstacle`).
-/
import SchemaSharp.Proofs.Generation
import SchemaSharp.Proofs.Validation

namespace SchemaSharp

section Resolution

variable {table : TypeTable} {owner : String} {p : Property} {e : GenerateError}

namespace TypeTable

theorem resolveChild_eq_error {child : ChildType} :
    table.resolveChild owner p child = .error e ↔ ∃ name, child.lookedUp = some name ∧
      table.lookup name = none ∧ e = .unresolvedType owner p.name name := by
  unfold resolveChild ChildType.lookedUp
  cases child.userDefined with
  | true => simp
  | false => cases hl : table.lookup child.name <;> simp [hl, @eq_comm _ e]

theorem resolveContainer_eq_error :
    resolveContainer owner p = .error e ↔
      ContainerKind.ofName? p.type = none ∧ e = .unknownContainer owner p.name p.type := by
  unfold resolveContainer
  cases ContainerKind.ofName? p.type <;> simp [eq_comm]

theorem resolvePlain_eq_error :
    table.resolvePlain owner p = .error e ↔
      ((∃ kind, ContainerKind.ofName? p.type = some kind) ∧
        e = .schema (.missingChild owner p.name p.type)) ∨
      (ContainerKind.ofName? p.type = none ∧ table.lookup p.type = none ∧
        e = .unresolvedType owner p.name p.type) := by
  unfold resolvePlain
  cases ContainerKind.ofName? p.type with
  | some kind => simp [eq_comm]
  | none => cases table.lookup p.type <;> simp [eq_comm]

end TypeTable

theorem Property.ChildFits.ofName?_eq_none (h : p.ChildFits) (hc : p.child = none) :
    ContainerKind.ofName? p.type = none := by
  have hn : p.type ∉ childTakers := fun ht => by simpa [hc] using h.mpr ht
  rw [mem_childTakers, not_or] at hn
  cases hk : ContainerKind.ofName? p.type with
  | none => rfl
  | some kind => exact absurd ⟨kind, hk⟩ hn.2

theorem Property.ChildFits.reference_or_container (h : p.ChildFits) {child : ChildType}
    (hc : p.child = some child) :
    p.type = refType ∨ ∃ kind, ContainerKind.ofName? p.type = some kind :=
  mem_childTakers.mp (h.mp (by simp [hc]))

/-- **Where the child type fits, resolution fails only at a name that is not
listed.** -/
theorem TypeTable.resolve_eq_error (h : p.ChildFits) :
    table.resolve owner p = .error e ↔ ∃ name, p.lookedUp = some name ∧
      table.lookup name = none ∧ e = .unresolvedType owner p.name name := by
  unfold resolve Property.lookedUp
  cases p.enumType with
  | some enumType => simp
  | none =>
    cases hc : p.child with
    | none =>
      simp [map_eq_error, resolvePlain_eq_error, h.ofName?_eq_none hc]
    | some child =>
      simp only [bind_eq_error, resolveChild_eq_error]
      refine or_iff_left ?_
      rintro ⟨element, _, hk⟩
      split at hk
      next => cases hk
      next ht =>
        obtain ⟨kind, hkind⟩ := (h.reference_or_container hc).resolve_left ht
        rw [map_eq_error, resolveContainer_eq_error, hkind] at hk
        cases hk.1

theorem TypeTable.resolveCarrier_eq_error (h : p.ChildFits) :
    table.resolveCarrier owner p = .error e ↔ ∃ name, p.lookedUp = some name ∧
      table.lookup name = none ∧ e = .unresolvedType owner p.name name := by
  unfold resolveCarrier
  split
  next child he hc =>
    by_cases ht : p.type = refType
    · rw [if_pos ht, resolve_eq_error h]
    · obtain ⟨kind, hkind⟩ := (h.reference_or_container hc).resolve_left ht
      have hk : resolveContainer owner p = .ok kind := resolveContainer_eq_ok.mpr hkind
      rw [if_neg ht, hk]
      change Except.map _ _ = _ ↔ _
      rw [map_eq_error, resolveChild_eq_error, Property.lookedUp, he, hc]
  next => exact resolve_eq_error h

end Resolution

/-- The first property whose field cannot be written is the one reported. -/
theorem collectFields_eq_error {field : Property → Except GenerateError (List String)}
    {ps : List Property} {e : GenerateError} :
    collectFields field ps = .error e ↔ ∃ before p after, ps = before ++ p :: after ∧
      (∀ q ∈ before, ∃ lines, field q = .ok lines) ∧ field p = .error e := by
  induction ps with
  | nil => simp [collectFields]
  | cons p ps ih =>
    simp only [collectFields, bind_eq_error, map_eq_error, ih]
    refine ⟨fun h => ?_, fun h => ?_⟩
    · rcases h with h | ⟨lines, hp, before, q, after, rfl, hb, h⟩
      · exact ⟨[], p, ps, rfl, by simp, h⟩
      · exact ⟨p :: before, q, after, rfl, by simpa using ⟨⟨lines, hp⟩, hb⟩, h⟩
    · obtain ⟨before, q, after, hps, hb, h⟩ := h
      cases before with
      | nil =>
        obtain ⟨rfl, rfl⟩ := List.cons.inj hps
        exact .inl h
      | cons _ before =>
        obtain ⟨rfl, rfl⟩ := List.cons.inj hps
        simp only [List.mem_cons, forall_eq_or_imp] at hb
        obtain ⟨⟨lines, hp⟩, hb⟩ := hb
        exact .inr ⟨lines, hp, before, q, after, rfl, hb, h⟩

namespace Descriptor

/-- The properties that a descriptor declares. -/
def properties : Descriptor → List Property
  | ofClass c => c.properties
  | ofInterface i => i.properties
  | ofEnum _ => []

/-- Why a descriptor whose child types fit cannot be rendered: a name that
the table does not list, or an integer out of range. -/
inductive Defect (table : TypeTable) : Descriptor → GenerateError → Prop
  | unresolved {d p name} (hp : p ∈ d.properties) (hl : p.lookedUp = some name)
      (hn : table.lookup name = none) : Defect table d (.unresolvedType d.name p.name name)
  | outOfRange {e m n} (hk : e.kind = .enumeration) (hm : m ∈ e.members)
      (hv : m.value = .integer n) (hn : ¬FitsInt32 n.toInt) :
      Defect table (.ofEnum e) (.outOfIntRange e.name m.name n)

/-- A field that cannot be written shows a defect of its descriptor. -/
theorem Defect.of_field {table : TypeTable} {d : Descriptor}
    {field : Property → Except GenerateError (List String)} {e : GenerateError}
    (hfield : ∀ p ∈ d.properties, field p = .error e → ∃ name, p.lookedUp = some name ∧
      table.lookup name = none ∧ e = .unresolvedType d.name p.name name)
    (h : collectFields field d.properties = .error e) : Defect table d e := by
  obtain ⟨before, p, after, hps, _, hp⟩ := collectFields_eq_error.mp h
  have hmem : p ∈ d.properties := by simp [hps]
  obtain ⟨name, hl, hn, rfl⟩ := hfield p hmem hp
  exact .unresolved hmem hl hn

theorem defect_of_render {table : TypeTable} {options : Options} {d : Descriptor}
    {e : GenerateError} (hf : ∀ p ∈ d.properties, p.ChildFits)
    (h : d.render table options = .error e) : Defect table d e := by
  have hs : d.source table options = .error e := map_eq_error.mp h
  cases d with
  | ofClass c =>
    refine Defect.of_field (fun p hp he => ?_) (map_eq_error.mp hs)
    exact (TypeTable.resolve_eq_error (hf p hp)).mp (map_eq_error.mp he)
  | ofInterface i =>
    refine Defect.of_field (fun p hp he => ?_) (map_eq_error.mp hs)
    exact (TypeTable.resolveCarrier_eq_error (hf p hp)).mp (map_eq_error.mp he)
  | ofEnum en =>
    cases hk : en.kind with
    | enumeration =>
      simp only [source, EnumDecl.source, hk, map_eq_error, EnumDecl.enumerationLines_eq_error] at hs
      obtain ⟨before, m, after, n, hms, _, hv, hn, rfl⟩ := hs
      exact .outOfRange hk (by simp [hms]) hv hn
    | constantGroup =>
      have hok := EnumDecl.constantGroup_source hk
      rw [source, hok] at hs
      cases hs

theorem rejection?_eq_some {earlier : List String} {d : Descriptor} {e : GenerateError} :
    d.rejection? earlier = some e ↔ (d.name = "" ∧ e = .unnamed d.kind) ∨
      (d.name ≠ "" ∧ d.fileName ∈ earlier ∧ e = .duplicateOutput d.fileName d.kind d.name) := by
  unfold rejection?
  by_cases hn : d.name = ""
  · simp [hn, @eq_comm _ e]
  · by_cases he : d.fileName ∈ earlier <;> simp [hn, he, @eq_comm _ e]

/-- A descriptor gets no file after the earlier ones. -/
def Fails (render : Descriptor → Except GenerateError String) (earlier : List String)
    (d : Descriptor) (e : GenerateError) : Prop :=
  d.rejection? earlier = some e ∨ (d.rejection? earlier = none ∧ render d = .error e)

end Descriptor

namespace Run

variable {render : Descriptor → Except GenerateError String} {earlier : List String}
  {e : GenerateError}

theorem ofDescriptors_cons_eq_error {d : Descriptor} {ds : List Descriptor} :
    (ofDescriptors render earlier (d :: ds)).result = .error e ↔ d.Fails render earlier e ∨
      ((d.rejection? earlier = none ∧ ∃ content, render d = .ok content) ∧
        (ofDescriptors render (d.fileName :: earlier) ds).result = .error e) := by
  rw [ofDescriptors, Descriptor.Fails]
  cases hr : d.rejection? earlier with
  | some e' => simp
  | none =>
    cases hc : render d with
    | error e' => simp
    | ok content => simp [afterFile, map_eq_error]

/-- **A run fails at its first descriptor that gets no file**, and with the
reason why it gets none. -/
theorem ofDescriptors_eq_error {ds : List Descriptor} :
    (ofDescriptors render earlier ds).result = .error e ↔ ∃ before d after,
      ds = before ++ d :: after ∧
      (∃ files, (ofDescriptors render earlier before).result = .ok files) ∧
      d.Fails render ((before.map Descriptor.fileName).reverse ++ earlier) e := by
  induction ds generalizing earlier with
  | nil => simp [ofDescriptors]
  | cons d ds ih =>
    rw [ofDescriptors_cons_eq_error, ih]
    refine ⟨fun h => ?_, fun h => ?_⟩
    · rcases h with h | ⟨⟨hr, content, hc⟩, before, d', after, rfl, ⟨files, hb⟩, h⟩
      · exact ⟨[], d, ds, rfl, ⟨[], rfl⟩, h⟩
      · refine ⟨d :: before, d', after, rfl, ⟨⟨d.fileName, content⟩ :: files, ?_⟩, by simpa using h⟩
        exact ofDescriptors_cons_eq_ok.mpr
          ⟨Descriptor.rejection?_eq_none.mp hr, _, files, rfl, ⟨rfl, hc⟩, hb⟩
    · obtain ⟨before, d', after, hds, ⟨files, hb⟩, h⟩ := h
      cases before with
      | nil =>
        obtain ⟨rfl, rfl⟩ := List.cons.inj hds
        exact .inl h
      | cons _ before =>
        obtain ⟨rfl, rfl⟩ := List.cons.inj hds
        obtain ⟨hr, f, rest, _, hf, hrest⟩ := ofDescriptors_cons_eq_ok.mp hb
        exact .inr ⟨⟨Descriptor.rejection?_eq_none.mpr hr, f.content, hf.2⟩, before, d', after, rfl,
          ⟨rest, hrest⟩, by simpa using h⟩

end Run

namespace Schema

/-- What can still be wrong with a schema that validation accepts. -/
inductive Obstacle (s : Schema) : GenerateError → Prop
  | unnamed {d} (hd : d ∈ s.outputs) (hn : d.name = "") : s.Obstacle (.unnamed d.kind)
  | unresolved {d p name} (hd : d ∈ s.outputs) (hp : p ∈ d.properties)
      (hl : p.lookedUp = some name) (hn : ¬s.Declares name) :
      s.Obstacle (.unresolvedType d.name p.name name)
  | outOfRange {e m n} (he : .ofEnum e ∈ s.outputs) (hk : e.kind = .enumeration)
      (hm : m ∈ e.members) (hv : m.value = .integer n) (hn : ¬FitsInt32 n.toInt) :
      s.Obstacle (.outOfIntRange e.name m.name n)

theorem outputs_sublist (s : Schema) : s.outputs.Sublist s.declarations :=
  (List.Sublist.refl _).append (List.filter_sublist.map _)

theorem WellFormed.childFits {s : Schema} (h : s.WellFormed) {d : Descriptor}
    (hd : d ∈ s.declarations) : ∀ p ∈ d.properties, p.ChildFits := by
  simp only [declarations, List.mem_append, List.mem_map] at hd
  rcases hd with (⟨c, hc, rfl⟩ | ⟨i, hi, rfl⟩) | ⟨e, _, rfl⟩
  · exact (h.classes c hc).children
  · exact (h.interfaces i hi).children
  · intro p hp
    cases hp

/-- What keeps a descriptor of a well-formed schema from its file. -/
theorem WellFormed.obstacle {s : Schema} (h : s.WellFormed) {options : Options}
    {before after : List Descriptor} {d : Descriptor} {e : GenerateError}
    (hds : s.outputs = before ++ d :: after)
    (hf : d.Fails (·.render (.ofSchema s) options) (before.map Descriptor.fileName).reverse e) :
    s.Obstacle e := by
  have hd : d ∈ s.outputs := by simp [hds]
  rcases hf with hr | ⟨_, hr⟩
  · rcases Descriptor.rejection?_eq_some.mp hr with ⟨hn, rfl⟩ | ⟨_, hm, _⟩
    · exact .unnamed hd hn
    · -- Names are distinct, so no earlier file is repeated.
      exfalso
      have hnodup : (s.outputs.map Descriptor.name).Nodup := by
        refine List.Nodup.sublist (s.outputs_sublist.map _) ?_
        rw [names_declarations]
        exact h.names
      rw [← Descriptor.nodup_fileNames, hds, List.map_append, List.nodup_append] at hnodup
      exact hnodup.2.2 _ (List.mem_reverse.mp hm) _ (by simp) rfl
  · have hfits := h.childFits (s.outputs_sublist.subset hd)
    cases Descriptor.defect_of_render hfits hr with
    | unresolved hp hl hn =>
      refine .unresolved hd hp hl fun hdecl => ?_
      rw [← TypeTable.lists_ofSchema] at hdecl
      obtain ⟨target, ht⟩ := hdecl
      rw [hn] at ht
      cases ht
    | outOfRange hk hm hv hn => exact .outOfRange hd hk hm hv hn

end Schema

/-- **After validation only three things can fail.** Over a schema that
validation accepts, generation succeeds, or fails at a descriptor without a
name, at a type name that is nowhere declared, or at an integer of an
enumeration that its backing type does not hold. -/
theorem generate_of_validate {s : Schema} (h : s.validate = .ok ()) (options : Options) :
    (∃ files, generate s options = .ok files) ∨
      ∃ e, generate s options = .error e ∧ s.Obstacle e := by
  cases hg : generate s options with
  | ok files => exact .inl ⟨files, rfl⟩
  | error e =>
    refine .inr ⟨e, rfl, ?_⟩
    rw [generate_eq, Run.ofDescriptors_eq_error] at hg
    obtain ⟨before, d, after, hds, _, hf⟩ := hg
    rw [List.append_nil] at hf
    exact (Schema.fault?_eq_none.mp (Schema.validate_eq_ok.mp h)).obstacle hds hf

/-- References to classes need no declaration, types do. -/
def heroSchema : Schema where
  classes := [⟨"Hero", "Schema", [
    { name := "rival", type := "ref", child := some (.ofName "Villain") },
    { name := "mood", index := 1, type := "Mood" }]⟩]

theorem generate_of_validate_hero :
    heroSchema.validate = .ok () ∧ (∀ files, generate heroSchema {} ≠ .ok files) ∧
    ∃ e, generate heroSchema {} = .error e ∧ heroSchema.Obstacle e ∧
      e.message = "unknown type 'Mood' in property 'mood' of 'Hero'" := by
  have hv : heroSchema.validate = .ok () := by decide
  have hg : generate heroSchema {} = .error (.unresolvedType "Hero" "mood" "Mood") := by rfl
  refine ⟨hv, ?_, ?_⟩
  · intro files h
    rw [hg] at h
    cases h
  · rcases generate_of_validate hv {} with ⟨files, h⟩ | ⟨e, h, ho⟩
    · rw [hg] at h
      cases h
    · refine ⟨e, h, ho, ?_⟩
      rw [hg] at h
      cases h
      decide

end SchemaSharp
