/-
Which descriptors can be rendered: classes and interfaces whose properties
all have a type, enumerations whose explicit integers all fit the type
behind them, and every constant group.
-/
import SchemaSharp.CSharp.Declaration
import SchemaSharp.Proofs.TypeExpr

namespace SchemaSharp

variable {table : TypeTable}

theorem collectFields_eq_ok {field : Property → Except GenerateError (List String)}
    {ps : List Property} {fields : List (List String)} :
    collectFields field ps = .ok fields ↔
      List.Forall₂ (fun p lines => field p = .ok lines) ps fields := by
  induction ps generalizing fields with
  | nil => cases fields <;> simp [collectFields]
  | cons p ps ih =>
    simp only [collectFields, bind_eq_ok, map_eq_ok]
    refine ⟨fun h => ?_, fun h => ?_⟩
    · obtain ⟨lines, h, rest, hs, rfl⟩ := h
      exact .cons h (ih.mp hs)
    · rcases h with _ | ⟨h, hs⟩
      exact ⟨_, h, _, ih.mpr hs, rfl⟩

theorem exists_collectFields {field : Property → Except GenerateError (List String)}
    {ps : List Property} :
    (∃ fields, collectFields field ps = .ok fields) ↔ ∀ p ∈ ps, ∃ lines, field p = .ok lines := by
  simp only [collectFields_eq_ok, exists_forall₂_iff]

theorem ClassDecl.exists_source {c : ClassDecl} :
    (∃ src, c.source table = .ok src) ↔ ∀ p ∈ c.properties, p.Resolves table.Lists := by
  unfold source
  rw [exists_map_eq_ok, exists_collectFields]
  simp only [Property.trackedField, exists_map_eq_ok, TypeTable.exists_resolve]

theorem InterfaceDecl.exists_source {i : InterfaceDecl} {options : Options} :
    (∃ src, i.source table options = .ok src) ↔ ∀ p ∈ i.properties, p.Resolves table.Lists := by
  unfold source
  rw [exists_map_eq_ok, exists_collectFields]
  simp only [Property.carrierField, exists_map_eq_ok, TypeTable.exists_resolveCarrier]

/-- A member's explicit integer, if it has one, fits the type behind
enumerations. -/
def Member.FitsInt (m : Member) : Prop := ∀ n, m.value = .integer n → FitsInt32 n.toInt

/-- The line of a member that can be rendered. -/
def Member.line (position : Nat) (m : Member) : Line :=
  .code 1 s!"{m.name} = {(m.value.literal position).text},"

namespace EnumDecl

variable {owner : String} {position : Nat} {m : Member} {ms : List Member}

theorem enumerationLine_eq_ok {line : Line} :
    enumerationLine owner position m = .ok line ↔ m.FitsInt ∧ line = m.line position := by
  unfold enumerationLine Member.FitsInt
  split
  next n hv =>
    simp only [hv, MemberValue.integer.injEq, forall_eq']
    split
    next h => simp [h, Member.line, hv, eq_comm]
    next h => simp [h]
  next hv =>
    have hn : ∀ n, m.value ≠ .integer n := fun n h => hv n h
    simp [hn, Member.line, eq_comm]

theorem enumerationLine_eq_error {e : GenerateError} :
    enumerationLine owner position m = .error e ↔
      ∃ n, m.value = .integer n ∧ ¬FitsInt32 n.toInt ∧ e = .outOfIntRange owner m.name n := by
  unfold enumerationLine
  split
  next n hv =>
    split
    next h => simp [hv, h]
    next h => simp [hv, h, eq_comm]
  next hv => simpa using fun n h => absurd h (hv n)

theorem enumerationLines_eq_ok {lines : List Line} :
    enumerationLines owner position ms = .ok lines ↔
      (∀ m ∈ ms, m.FitsInt) ∧ lines = ms.mapIdx fun i m => m.line (position + i) := by
  induction ms generalizing position lines with
  | nil => simp [enumerationLines, eq_comm]
  | cons m ms ih =>
    simp only [enumerationLines, bind_eq_ok, map_eq_ok, enumerationLine_eq_ok, ih,
      List.mem_cons, forall_eq_or_imp, List.mapIdx_cons]
    refine ⟨fun h => ?_, fun h => ?_⟩
    · obtain ⟨_, ⟨hm, rfl⟩, _, ⟨hms, rfl⟩, rfl⟩ := h
      exact ⟨⟨hm, hms⟩, by simp [Nat.add_comm, Nat.add_left_comm]⟩
    · obtain ⟨⟨hm, hms⟩, rfl⟩ := h
      exact ⟨_, ⟨hm, rfl⟩, _, ⟨hms, rfl⟩, by simp [Nat.add_comm, Nat.add_left_comm]⟩

/-- The first member whose integer does not fit is the one reported. -/
theorem enumerationLines_eq_error {e : GenerateError} :
    enumerationLines owner position ms = .error e ↔
      ∃ before m after n, ms = before ++ m :: after ∧ (∀ m' ∈ before, m'.FitsInt) ∧
        m.value = .integer n ∧ ¬FitsInt32 n.toInt ∧ e = .outOfIntRange owner m.name n := by
  induction ms generalizing position with
  | nil => simp [enumerationLines]
  | cons m ms ih =>
    simp only [enumerationLines, bind_eq_error, map_eq_error, enumerationLine_eq_error,
      enumerationLine_eq_ok, ih]
    refine ⟨fun h => ?_, fun h => ?_⟩
    · rcases h with ⟨n, hv, hn, rfl⟩ | ⟨_, ⟨hm, rfl⟩, before, m', after, n, rfl, hb, h⟩
      · exact ⟨[], m, ms, n, rfl, by simp, hv, hn, rfl⟩
      · exact ⟨m :: before, m', after, n, rfl, by simpa using ⟨hm, hb⟩, h⟩
    · obtain ⟨before, m', after, n, hms, hb, hv, hn, rfl⟩ := h
      cases before with
      | nil =>
        obtain ⟨rfl, rfl⟩ := List.cons.inj hms
        exact .inl ⟨n, hv, hn, rfl⟩
      | cons _ before =>
        obtain ⟨rfl, rfl⟩ := List.cons.inj hms
        simp only [List.mem_cons, forall_eq_or_imp] at hb
        exact .inr ⟨_, ⟨hb.1, rfl⟩, before, m', after, n, rfl, hb.2, hv, hn, rfl⟩

variable {e : EnumDecl}

theorem enumeration_source_eq_ok (hk : e.kind = .enumeration) {src : Source} :
    e.source = .ok src ↔ (∀ m ∈ e.members, m.FitsInt) ∧
      src = ⟨[], body s!"public enum {e.name} : int \x7b" (e.members.mapIdx Member.line)⟩ := by
  simp only [source, hk, map_eq_ok, enumerationLines_eq_ok, Nat.zero_add]
  refine ⟨fun h => ?_, fun h => ?_⟩
  · obtain ⟨_, ⟨hm, rfl⟩, rfl⟩ := h
    exact ⟨hm, rfl⟩
  · obtain ⟨hm, rfl⟩ := h
    exact ⟨_, ⟨hm, rfl⟩, rfl⟩

theorem constantGroup_source (hk : e.kind = .constantGroup) :
    e.source =
      .ok ⟨[], body s!"public struct {e.name} \x7b" (e.members.mapIdx constantLine)⟩ := by
  simp only [source, hk]

/-- The line that begins an enum. -/
def heading (e : EnumDecl) : String :=
  match e.kind with
  | .enumeration => s!"public enum {e.name} : int \x7b"
  | .constantGroup => s!"public struct {e.name} \x7b"

/-- The line of a member of the enum. -/
def memberLine (e : EnumDecl) : Nat → Member → Line :=
  match e.kind with
  | .enumeration => Member.line
  | .constantGroup => constantLine

/-- What an enum of either kind is rendered from. -/
theorem eq_of_source {src : Source} (h : e.source = .ok src) :
    src = ⟨[], body e.heading (e.members.mapIdx e.memberLine)⟩ := by
  unfold heading memberLine
  cases hk : e.kind with
  | enumeration => exact ((enumeration_source_eq_ok hk).mp h).2
  | constantGroup => exact Except.ok.inj (h.symm.trans (constantGroup_source hk))

/-- The lines of the members stand behind the heading and a blank line. -/
theorem getElem?_body (heading : String) {line : Nat → Member → Line} {i : Nat}
    (h : e.members[i]? = some m) :
    (body heading (e.members.mapIdx line))[i + 2]? = some (line i m) := by
  have hl : i < (e.members.mapIdx line).length := by
    simpa using (List.getElem?_eq_some_iff.mp h).1
  simp only [body, List.cons_append, List.nil_append, List.getElem?_cons_succ]
  rw [List.getElem?_append_left hl, List.getElem?_mapIdx, h, Option.map_some]

theorem getElem?_source {src : Source} (h : e.source = .ok src) {i : Nat}
    (hm : e.members[i]? = some m) : src.body[i + 2]? = some (e.memberLine i m) := by
  rw [eq_of_source h]
  exact getElem?_body _ hm

theorem memberLine_enumeration (hk : e.kind = .enumeration) : e.memberLine = Member.line := by
  rw [memberLine, hk]

theorem memberLine_constantGroup (hk : e.kind = .constantGroup) : e.memberLine = constantLine := by
  rw [memberLine, hk]

theorem exists_source : (∃ src, e.source = .ok src) ↔
    (e.kind = .enumeration → ∀ m ∈ e.members, m.FitsInt) := by
  cases hk : e.kind with
  | enumeration => simp [enumeration_source_eq_ok hk]
  | constantGroup => simp [constantGroup_source hk]

end EnumDecl

/-- What a descriptor has to hold to be rendered over a table. -/
def Descriptor.Renders (table : TypeTable) : Descriptor → Prop
  | ofClass c => ∀ p ∈ c.properties, p.Resolves table.Lists
  | ofInterface i => ∀ p ∈ i.properties, p.Resolves table.Lists
  | ofEnum e => e.kind = .enumeration → ∀ m ∈ e.members, m.FitsInt

theorem Descriptor.exists_render (d : Descriptor) (options : Options) :
    (∃ text, d.render table options = .ok text) ↔ d.Renders table := by
  unfold render
  rw [exists_map_eq_ok]
  cases d with
  | ofClass c => exact c.exists_source
  | ofInterface i => exact i.exists_source
  | ofEnum e => exact e.exists_source

end SchemaSharp
