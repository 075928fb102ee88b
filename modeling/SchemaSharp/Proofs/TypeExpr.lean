/-
The rules by which properties have C# types, apart from the order in which
they are tried.

`Typed table p T` says that a tracked field of the property `p` has the type
`T`; `resolve_eq_ok` that resolution finds exactly this type. A data carrier
has the same type with arrays for containers (`resolveCarrier_eq_ok`), so
both resolutions succeed on the same properties. A table is asked for at
most one name (`lookedUp`), and the type that results holds the answer; so
registering an enum retargets the types looked up by its name and leaves all
others as they were (`Typed.register`).
-/
import SchemaSharp.CSharp.TypeExpr
import SchemaSharp.Proofs.Outcome
import SchemaSharp.Proofs.TypeTable

namespace SchemaSharp

theorem ContainerKind.schemaName_injective {k l : ContainerKind}
    (h : k.schemaName = l.schemaName) : k = l := by
  cases k <;> cases l <;> first | rfl | (exact absurd h (by decide))

theorem ContainerKind.mem_all (kind : ContainerKind) : kind ∈ all := by cases kind <;> decide

theorem ContainerKind.ofName?_eq_some {name : String} {kind : ContainerKind} :
    ofName? name = some kind ↔ kind.schemaName = name :=
  find?_eq_some_of_injective mem_all (fun _ _ => schemaName_injective)

theorem ContainerKind.ofName?_eq_none {name : String} :
    ofName? name = none ↔ ∀ kind : ContainerKind, kind.schemaName ≠ name := by
  constructor
  · intro h kind hk
    rw [ofName?_eq_some.mpr hk] at h
    cases h
  · intro h
    cases hk : ofName? name with
    | none => rfl
    | some kind => exact absurd (ofName?_eq_some.mp hk) (h kind)

theorem ContainerKind.ne_refType {name : String} {kind : ContainerKind}
    (h : ofName? name = some kind) : name ≠ refType := by
  have hn : ofName? refType = none := by decide
  intro hr
  rw [hr, hn] at h
  cases h

/-- A child type stands for itself if it is user-defined, and otherwise for
what the table has under its name. -/
inductive ChildType.Stands (table : TypeTable) (child : ChildType) : String → Prop
  | userDefined (hu : child.userDefined = true) : child.Stands table child.name
  | listed {target} (hu : child.userDefined = false) (hl : table.lookup child.name = some target) :
      child.Stands table target

/-- The types of tracked fields. -/
inductive Property.Typed (table : TypeTable) (p : Property) : TypeExpr → Prop
  | enum {name} (he : p.enumType = some name) : p.Typed table (.named name)
  | plain {target} (he : p.enumType = none) (hc : p.child = none)
      (hk : ContainerKind.ofName? p.type = none) (hl : table.lookup p.type = some target) :
      p.Typed table (.named target)
  | reference {child element} (he : p.enumType = none) (hc : p.child = some child)
      (ht : p.type = refType) (hs : child.Stands table element) : p.Typed table (.named element)
  | container {child element kind} (he : p.enumType = none) (hc : p.child = some child)
      (hk : ContainerKind.ofName? p.type = some kind) (hs : child.Stands table element) :
      p.Typed table (.container kind element)

/-- The type of a data carrier's field, from that of a tracked field. -/
def TypeExpr.flatten : TypeExpr → TypeExpr
  | container _ element => array element
  | type => type

namespace TypeTable

variable {table : TypeTable} {owner : String} {p : Property}

theorem resolveChild_eq_ok {child : ChildType} {element : String} :
    table.resolveChild owner p child = .ok element ↔ child.Stands table element := by
  unfold resolveChild
  cases hu : child.userDefined with
  | true =>
    simp only [if_true, Except.ok.injEq]
    refine ⟨fun h => ?_, fun h => ?_⟩
    · obtain rfl := h
      exact .userDefined hu
    · rcases h with _ | ⟨hf, _⟩
      · rfl
      · rw [hu] at hf
        cases hf
  | false =>
    simp only [Bool.false_eq_true, if_false]
    refine ⟨fun h => ?_, fun h => ?_⟩
    · split at h
      next target hl =>
        cases h
        exact .listed hu hl
      next => cases h
    · rcases h with ht | ⟨_, hl⟩
      · rw [hu] at ht
        cases ht
      · rw [hl]

theorem resolveContainer_eq_ok {kind : ContainerKind} :
    resolveContainer owner p = .ok kind ↔ ContainerKind.ofName? p.type = some kind := by
  unfold resolveContainer
  split <;> simp_all

theorem resolvePlain_eq_ok {target : String} :
    table.resolvePlain owner p = .ok target ↔
      ContainerKind.ofName? p.type = none ∧ table.lookup p.type = some target := by
  unfold resolvePlain
  split
  next hk => simp [hk]
  next hk => split <;> simp_all

/-- **Resolution finds exactly the type that the rules give.** -/
theorem resolve_eq_ok {type : TypeExpr} :
    table.resolve owner p = .ok type ↔ p.Typed table type := by
  unfold resolve
  cases he : p.enumType with
  | some name =>
    simp only [Except.ok.injEq]
    refine ⟨fun h => ?_, fun h => ?_⟩
    · obtain rfl := h
      exact .enum he
    · cases h <;> simp_all
  | none =>
    cases hc : p.child with
    | none =>
      simp only [map_eq_ok, resolvePlain_eq_ok]
      refine ⟨fun h => ?_, fun h => ?_⟩
      · obtain ⟨target, ⟨hk, hl⟩, rfl⟩ := h
        exact .plain he hc hk hl
      · cases h <;> simp_all
    | some child =>
      simp only [bind_eq_ok, resolveChild_eq_ok]
      refine ⟨fun h => ?_, fun h => ?_⟩
      · obtain ⟨element, hs, h⟩ := h
        split at h
        next ht =>
          cases h
          exact .reference he hc ht hs
        next =>
          obtain ⟨kind, hk, rfl⟩ := map_eq_ok.mp h
          exact .container he hc (resolveContainer_eq_ok.mp hk) hs
      · rcases h with _ | _ | ⟨_, hc', ht, hs⟩ | ⟨_, hc', hk, hs⟩
        · simp_all
        · simp_all
        · obtain rfl : child = _ := Option.some.inj (hc.symm.trans hc')
          exact ⟨_, hs, by simp [ht]⟩
        · obtain rfl : child = _ := Option.some.inj (hc.symm.trans hc')
          have ht : p.type ≠ refType := ContainerKind.ne_refType hk
          exact ⟨_, hs, by simp [ht, map_eq_ok, resolveContainer_eq_ok, hk]⟩

theorem exists_flatten_iff {type : TypeExpr}
    (hn : ∀ kind element, ¬ p.Typed table (.container kind element)) :
    (∃ tracked, p.Typed table tracked ∧ tracked.flatten = type) ↔ p.Typed table type := by
  refine ⟨fun h => ?_, fun h => ?_⟩
  · obtain ⟨tracked, h, rfl⟩ := h
    cases h with
    | container he hc hk hs => exact absurd (.container he hc hk hs) (hn _ _)
    | enum he => exact .enum he
    | plain he hc hk hl => exact .plain he hc hk hl
    | reference he hc ht hs => exact .reference he hc ht hs
  · refine ⟨type, h, ?_⟩
    cases h with
    | container he hc hk hs => exact absurd (.container he hc hk hs) (hn _ _)
    | _ => rfl

/-- A data carrier's field has the type of a tracked one, with arrays for
containers. -/
theorem resolveCarrier_eq_ok {type : TypeExpr} :
    table.resolveCarrier owner p = .ok type ↔
      ∃ tracked, p.Typed table tracked ∧ tracked.flatten = type := by
  unfold resolveCarrier
  split
  next child he hc =>
    by_cases ht : p.type = refType
    · rw [if_pos ht, resolve_eq_ok, exists_flatten_iff]
      intro kind element h
      cases h with
      | container _ _ hk _ => exact ContainerKind.ne_refType hk ht
    · simp only [ht, if_false, bind_eq_ok, map_eq_ok, resolveContainer_eq_ok, resolveChild_eq_ok]
      refine ⟨fun h => ?_, fun h => ?_⟩
      · obtain ⟨kind, hk, element, hs, rfl⟩ := h
        exact ⟨_, .container he hc hk hs, rfl⟩
      · obtain ⟨_, h, rfl⟩ := h
        cases h with
        | container _ hc' hk hs =>
          obtain rfl : child = _ := Option.some.inj (hc.symm.trans hc')
          exact ⟨_, hk, _, hs, rfl⟩
        | _ => simp_all
  next hn =>
    rw [resolve_eq_ok, exists_flatten_iff]
    intro kind element h
    cases h with
    | container he hc _ _ => exact hn _ he hc

end TypeTable

/-- What a property has to declare for its type to be found, where `known`
are the names with a type. -/
def Property.Resolves (known : String → Prop) (p : Property) : Prop :=
  match p.enumType, p.child with
  | some _, _ => True
  | none, some child =>
    (child.userDefined = true ∨ known child.name) ∧
      (p.type = refType ∨ ∃ kind : ContainerKind, kind.schemaName = p.type)
  | none, none => (∀ kind : ContainerKind, kind.schemaName ≠ p.type) ∧ known p.type

theorem ChildType.exists_stands {table : TypeTable} {child : ChildType} :
    (∃ element, child.Stands table element) ↔
      child.userDefined = true ∨ table.Lists child.name := by
  refine ⟨fun h => ?_, fun h => ?_⟩
  · obtain ⟨_, hu | ⟨_, hl⟩⟩ := h
    · exact .inl hu
    · exact .inr ⟨_, hl⟩
  · cases hu : child.userDefined with
    | true => exact ⟨_, .userDefined hu⟩
    | false =>
      obtain ⟨target, hl⟩ := h.resolve_left (by simp [hu])
      exact ⟨target, .listed hu hl⟩

theorem Property.exists_typed {table : TypeTable} {p : Property} :
    (∃ type, p.Typed table type) ↔ p.Resolves table.Lists := by
  unfold Resolves
  split
  next name child he => exact iff_of_true ⟨_, .enum he⟩ trivial
  next child he hc =>
    rw [← ChildType.exists_stands]
    refine ⟨fun h => ?_, fun h => ?_⟩
    · obtain ⟨_, h⟩ := h
      cases h with
      | reference _ hc' ht hs =>
        obtain rfl : child = _ := Option.some.inj (hc.symm.trans hc')
        exact ⟨⟨_, hs⟩, .inl ht⟩
      | container _ hc' hk hs =>
        obtain rfl : child = _ := Option.some.inj (hc.symm.trans hc')
        exact ⟨⟨_, hs⟩, .inr ⟨_, ContainerKind.ofName?_eq_some.mp hk⟩⟩
      | _ => simp_all
    · obtain ⟨⟨element, hs⟩, ht | ⟨kind, hk⟩⟩ := h
      · exact ⟨_, .reference he hc ht hs⟩
      · exact ⟨_, .container he hc (ContainerKind.ofName?_eq_some.mpr hk) hs⟩
  next he hc =>
    rw [← ContainerKind.ofName?_eq_none]
    refine ⟨fun h => ?_, fun h => ?_⟩
    · obtain ⟨_, h⟩ := h
      cases h with
      | plain _ _ hk hl => exact ⟨hk, _, hl⟩
      | _ => simp_all
    · obtain ⟨hk, target, hl⟩ := h
      exact ⟨_, .plain he hc hk hl⟩

/-- Tracked fields and data carriers have a type for the same properties. -/
theorem TypeTable.exists_resolve {table : TypeTable} {owner : String} {p : Property} :
    (∃ type, table.resolve owner p = .ok type) ↔ p.Resolves table.Lists := by
  simp only [resolve_eq_ok, Property.exists_typed]

theorem TypeTable.exists_resolveCarrier {table : TypeTable} {owner : String} {p : Property} :
    (∃ type, table.resolveCarrier owner p = .ok type) ↔ p.Resolves table.Lists := by
  simp only [resolveCarrier_eq_ok, ← Property.exists_typed]
  exact ⟨fun ⟨_, tracked, h, _⟩ => ⟨tracked, h⟩, fun ⟨tracked, h⟩ => ⟨_, tracked, h, rfl⟩⟩

/-- The name that a child type is looked up by, if it is. -/
def ChildType.lookedUp (child : ChildType) : Option String :=
  if child.userDefined then none else some child.name

/-- The name that the type of a property is looked up by, if it is. -/
def Property.lookedUp (p : Property) : Option String :=
  match p.enumType, p.child with
  | some _, _ => none
  | none, some child => child.lookedUp
  | none, none => some p.type

namespace TypeExpr

/-- The name that a type holds. -/
def target : TypeExpr → String
  | named name => name
  | container _ element => element
  | array element => element

/-- A type of the same form that holds another name. -/
def retarget (name : String) : TypeExpr → TypeExpr
  | named _ => named name
  | container kind _ => container kind name
  | array _ => array name

theorem target_flatten (type : TypeExpr) : type.flatten.target = type.target := by
  cases type <;> rfl

theorem flatten_retarget (name : String) (type : TypeExpr) :
    (type.retarget name).flatten = type.flatten.retarget name := by
  cases type <;> rfl

end TypeExpr

section Registration

variable {table : TypeTable} {name : String}

/-- The name that a child type stands for is the table's answer if it is
looked up; registering an enum changes it to the enum's name. -/
theorem ChildType.Stands.lookup_eq {child : ChildType} {element : String}
    (h : child.Stands table element) (hl : child.lookedUp = some name) :
    table.lookup name = some element := by
  unfold lookedUp at hl
  cases h with
  | userDefined hu => simp [hu] at hl
  | listed hu ht =>
    simp only [hu, Bool.false_eq_true, if_false, Option.some.injEq] at hl
    rw [← hl, ht]

theorem ChildType.Stands.register {child : ChildType} {element : String}
    (h : child.Stands table element) :
    child.Stands (table.register name) (if child.lookedUp = some name then name else element) := by
  unfold lookedUp
  cases h with
  | userDefined hu =>
    simp only [hu, if_true, reduceCtorEq, if_false]
    exact .userDefined hu
  | listed hu ht =>
    simp only [hu, Bool.false_eq_true, if_false, Option.some.injEq]
    refine .listed hu ?_
    rw [TypeTable.lookup_register]
    split
    next => rfl
    next => exact ht

variable {p : Property} {type : TypeExpr}

theorem Property.Typed.lookup_eq (h : p.Typed table type) (hl : p.lookedUp = some name) :
    table.lookup name = some type.target := by
  unfold lookedUp at hl
  cases h with
  | enum he => simp [he] at hl
  | plain he hc _ ht =>
    simp only [he, hc, Option.some.injEq] at hl
    rw [← hl, ht]
    rfl
  | reference he hc _ hs | container he hc _ hs =>
    simp only [he, hc] at hl
    exact hs.lookup_eq hl

/-- **Registering an enum retargets the types that are looked up by its
name**, and no others. -/
theorem Property.Typed.register (h : p.Typed table type) :
    p.Typed (table.register name)
      (if p.lookedUp = some name then type.retarget name else type) := by
  unfold lookedUp
  cases h with
  | enum he =>
    simp only [he, reduceCtorEq, if_false]
    exact .enum he
  | plain he hc hk ht =>
    simp only [he, hc, Option.some.injEq, TypeExpr.retarget, ← apply_ite TypeExpr.named]
    refine .plain he hc hk ?_
    rw [TypeTable.lookup_register, ht]
    split <;> rfl
  | reference he hc hr hs =>
    simp only [he, hc, TypeExpr.retarget, ← apply_ite TypeExpr.named]
    exact .reference he hc hr hs.register
  | container he hc hk hs =>
    simp only [he, hc, TypeExpr.retarget, ← apply_ite (TypeExpr.container _)]
    exact .container he hc hk hs.register

end Registration

end SchemaSharp
