/-
What validation accepts.

Every check judges an item by the items before it: how it goes with each of
them, and what it is by itself. So a list is free of faults exactly if its
items go together pairwise and each is right by itself
(`firstFault_eq_none`). With the three kinds of items put in, validation
accepts exactly the well-formed schemas (`validate_eq_ok_iff`).
-/
import SchemaSharp.Schema.Validation
import SchemaSharp.Proofs.TypeExpr

namespace SchemaSharp

/-- **A list has no fault exactly if its items go together pairwise and are
right one by one.** The items before the list take part in the induction. -/
theorem firstFault_eq_none {α ε : Type} {judge : List α → α → Option ε}
    {goesWith : α → α → Prop} {right : α → Prop}
    (hj : ∀ before a, judge before a = none ↔ (∀ b ∈ before, goesWith b a) ∧ right a)
    {before l : List α} :
    firstFault judge before l = none ↔
      (∀ b ∈ before, ∀ a ∈ l, goesWith b a) ∧ l.Pairwise goesWith ∧ ∀ a ∈ l, right a := by
  induction l generalizing before with
  | nil => simp [firstFault]
  | cons a l ih =>
    have step : firstFault judge before (a :: l) = none ↔
        judge before a = none ∧ firstFault judge (before ++ [a]) l = none := by
      rw [firstFault]
      cases judge before a <;> simp
    rw [step, hj, ih]
    simp only [List.mem_append, List.mem_cons, List.not_mem_nil, or_false, or_imp, forall_and,
      forall_eq, List.pairwise_cons]
    tauto

theorem Descriptor.fault?_eq_none (before : List Descriptor) (d : Descriptor) :
    d.fault? before = none ↔ ∀ b ∈ before, b.name ≠ d.name := by
  simp [fault?]

theorem Member.fault?_eq_none (owner : String) (before : List Member) (m : Member) :
    m.fault? owner before = none ↔ (∀ b ∈ before, b.name ≠ m.name) ∧ m.name ≠ "" := by
  unfold fault?
  by_cases hn : m.name = ""
  · simp [hn]
  · by_cases hm : m.name ∈ before.map name
    · have hb : ∃ b ∈ before, b.name = m.name := by simpa using hm
      simpa [hn, hm] using hb
    · have hb : ∀ b ∈ before, b.name ≠ m.name := by simpa using hm
      simpa [hn, hm] using hb

/-- The declared types that take a child type. -/
def childTakers : List String := ["ref", "array", "map", "set", "collection"]

theorem mem_childTakers {type : String} :
    type ∈ childTakers ↔ type = refType ∨ ∃ kind, ContainerKind.ofName? type = some kind := by
  simp only [ContainerKind.ofName?_eq_some]
  refine ⟨fun h => ?_, fun h => ?_⟩
  · simp only [childTakers, List.mem_cons, List.not_mem_nil, or_false] at h
    rcases h with rfl | rfl | rfl | rfl | rfl
    · exact .inl rfl
    · exact .inr ⟨.array, rfl⟩
    · exact .inr ⟨.map, rfl⟩
    · exact .inr ⟨.set, rfl⟩
    · exact .inr ⟨.collection, rfl⟩
  · rcases h with rfl | ⟨kind, rfl⟩
    · decide
    · cases kind <;> decide

namespace Property

/-- A child type is there exactly if the declared type takes one. -/
def ChildFits (p : Property) : Prop := p.child.isSome = true ↔ p.type ∈ childTakers

theorem kind_eq_plain {p : Property} : p.kind = .plain ↔ p.type ∉ childTakers := by
  rw [mem_childTakers, kind]
  by_cases hr : p.type = refType
  · simp [hr]
  · cases ContainerKind.ofName? p.type <;> simp [hr]

theorem childFault?_eq_none {owner : String} {p : Property} :
    p.childFault? owner = none ↔ p.ChildFits := by
  unfold childFault? ChildFits hasChild
  have hplain := kind_eq_plain (p := p)
  cases hk : p.kind <;> cases hc : p.child.isSome <;> simp_all

/-- A property whose name and index are new is judged by its child type alone. -/
theorem fault?_of_new {before : List Property} {p : Property}
    (hn : ∀ b ∈ before, b.name ≠ p.name ∧ b.index ≠ p.index) (owner : String) :
    p.fault? owner before = p.childFault? owner := by
  have hname : p.name ∉ before.map name := by
    simpa using fun b hb => (hn b hb).1
  have hindex : before.find? (·.index = p.index) = none := by
    simpa using fun b hb => (hn b hb).2
  rw [fault?, if_neg hname, hindex]

theorem fault?_eq_none (owner : String) (before : List Property) (p : Property) :
    p.fault? owner before = none ↔
      (∀ b ∈ before, b.name ≠ p.name ∧ b.index ≠ p.index) ∧ p.ChildFits := by
  have hc : p.childFault? owner = none ↔ p.ChildFits := childFault?_eq_none
  unfold fault?
  rw [← hc, forall₂_and]
  by_cases hn : p.name ∈ before.map name
  · have hb : ¬∀ b ∈ before, b.name ≠ p.name := by simpa using hn
    rw [if_pos hn]
    simp [hb]
  · have hb : ∀ b ∈ before, b.name ≠ p.name := by simpa using hn
    rw [if_neg hn]
    cases hi : before.find? (·.index = p.index) with
    | some first =>
      have hf : first.index = p.index := by simpa using List.find?_some hi
      have hm := List.mem_of_find?_eq_some hi
      simp only [reduceCtorEq, false_iff]
      exact fun h => h.1.2 first hm hf
    | none =>
      have hne : ∀ b ∈ before, b.index ≠ p.index := by simpa using List.find?_eq_none.mp hi
      exact ⟨fun h => ⟨⟨hb, hne⟩, h⟩, fun h => h.2⟩

end Property

/-- Properties that may stand in one class or interface. -/
structure Property.WellFormed (ps : List Property) : Prop where
  names : (ps.map (·.name)).Nodup
  indices : (ps.map (·.index)).Nodup
  children : ∀ p ∈ ps, p.child.isSome = true ↔
    p.type ∈ ["ref", "array", "map", "set", "collection"]

/-- Members that may stand in one enum. -/
structure Member.WellFormed (ms : List Member) : Prop where
  named : ∀ m ∈ ms, m.name ≠ ""
  names : (ms.map (·.name)).Nodup

/-- The structural contract of schemas. -/
structure Schema.WellFormed (s : Schema) : Prop where
  names : (s.classes.map (·.name) ++ s.interfaces.map (·.name) ++ s.enums.map (·.name)).Nodup
  classes : ∀ c ∈ s.classes, Property.WellFormed c.properties
  interfaces : ∀ i ∈ s.interfaces, Property.WellFormed i.properties
  enums : ∀ e ∈ s.enums, Member.WellFormed e.members

theorem Property.wellFormed_iff {owner : String} {ps : List Property} :
    firstFault (fault? owner) [] ps = none ↔ WellFormed ps := by
  rw [firstFault_eq_none (fault?_eq_none owner), List.pairwise_and_iff]
  simp only [List.not_mem_nil, false_implies, implies_true, true_and]
  refine ⟨fun h => ?_, fun h => ?_⟩
  · obtain ⟨⟨hn, hi⟩, hc⟩ := h
    exact ⟨List.pairwise_map.mpr hn, List.pairwise_map.mpr hi, hc⟩
  · exact ⟨⟨List.pairwise_map.mp h.names, List.pairwise_map.mp h.indices⟩, h.children⟩

theorem Member.wellFormed_iff {owner : String} {ms : List Member} :
    firstFault (fault? owner) [] ms = none ↔ WellFormed ms := by
  rw [firstFault_eq_none (fault?_eq_none owner)]
  simp only [List.not_mem_nil, false_implies, implies_true, true_and]
  refine ⟨fun h => ?_, fun h => ?_⟩
  · obtain ⟨hn, hne⟩ := h
    exact ⟨hne, List.pairwise_map.mpr hn⟩
  · exact ⟨List.pairwise_map.mp h.names, h.named⟩

theorem Descriptor.nodup_names_iff {ds : List Descriptor} :
    firstFault fault? [] ds = none ↔ (ds.map name).Nodup := by
  have hj : ∀ before d, fault? before d = none ↔ (∀ b ∈ before, b.name ≠ d.name) ∧ True :=
    fun _ _ => by rw [fault?_eq_none, and_true]
  rw [firstFault_eq_none hj]
  simp only [List.not_mem_nil, false_implies, implies_true, true_and, and_true]
  exact List.pairwise_map.symm

namespace Schema

theorem names_declarations (s : Schema) :
    s.declarations.map Descriptor.name =
      s.classes.map (·.name) ++ s.interfaces.map (·.name) ++ s.enums.map (·.name) := by
  simp only [declarations, List.map_append, List.map_map]
  rfl

theorem fault?_eq_none {s : Schema} : s.fault? = none ↔ s.WellFormed := by
  have hor {a b : Option SchemaError} : (a <|> b) = none ↔ a = none ∧ b = none := by
    cases a <;> simp
  unfold fault?
  simp only [hor, List.findSome?_eq_none_iff, Descriptor.nodup_names_iff, names_declarations,
    Property.wellFormed_iff, Member.wellFormed_iff]
  refine ⟨fun h => ?_, fun h => ?_⟩
  · obtain ⟨hn, hc, hi, he⟩ := h
    exact ⟨hn, hc, hi, he⟩
  · exact ⟨h.names, h.classes, h.interfaces, h.enums⟩

theorem validate_eq_ok {s : Schema} : s.validate = .ok () ↔ s.fault? = none := by
  unfold validate
  cases s.fault? <;> simp

/-- **Validation accepts exactly the well-formed schemas.** -/
theorem validate_eq_ok_iff (s : Schema) : s.validate = .ok () ↔ s.WellFormed :=
  validate_eq_ok.trans fault?_eq_none

end Schema

end SchemaSharp
