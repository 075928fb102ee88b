/-
What a type table answers. An enum's name stands for itself, whatever else
it names; every other name stands for the primitive of that name, if there
is one.
-/
import Mathlib.Data.List.Induction
import SchemaSharp.CSharp.TypeTable

namespace SchemaSharp

theorem find?_eq_some_of_injective {α : Type} {all : List α} {key : α → String}
    (hall : ∀ a, a ∈ all) (hinj : ∀ a b, key a = key b → a = b) {name : String} {a : α} :
    all.find? (fun a => decide (key a = name)) = some a ↔ key a = name := by
  refine ⟨fun h => by simpa using List.find?_some h, fun h => ?_⟩
  cases hf : all.find? (fun a => decide (key a = name)) with
  | none =>
    have hn := List.find?_eq_none.mp hf a (hall a)
    exact absurd h (by simpa using hn)
  | some b =>
    have hb : key b = name := by simpa using List.find?_some hf
    rw [hinj b a (hb.trans h.symm)]

theorem Primitive.mem_all (p : Primitive) : p ∈ all := by cases p <;> decide

theorem Primitive.schemaName_injective {p q : Primitive} (h : p.schemaName = q.schemaName) :
    p = q := by
  cases p <;> cases q <;> first | rfl | (exact absurd h (by decide))

theorem Primitive.ofName?_eq_some {name : String} {p : Primitive} :
    ofName? name = some p ↔ p.schemaName = name :=
  find?_eq_some_of_injective mem_all (fun _ _ => schemaName_injective)

namespace TypeTable

theorem lookup_cons_ite (key k v : String) (rest : List (String × String)) :
    ((k, v) :: rest).lookup key = if key = k then some v else rest.lookup key := by
  rw [List.lookup_cons]
  by_cases h : key = k
  · simp [h]
  · have hb : (key == k) = false := by simpa using h
    simp [hb, h]

theorem lookup_set (name target key : String) (entries : List (String × String)) :
    (set name target entries).lookup key =
      if key = name then some target else entries.lookup key := by
  induction entries with
  | nil => simp [set]
  | cons entry rest ih =>
    obtain ⟨k, v⟩ := entry
    by_cases hk : k = name
    · subst hk
      by_cases h : key = k <;> simp [set, lookup_cons_ite, h]
    · by_cases h : key = k
      · subst h
        simp [set, hk]
      · simp [set, lookup_cons_ite, hk, h, ih]

theorem lookup_register (table : TypeTable) (name key : String) :
    (table.register name).lookup key = if key = name then some name else table.lookup key :=
  lookup_set name name key table.entries

theorem lookup_primitives (key : String) :
    primitives.lookup key = (Primitive.ofName? key).map Primitive.csharpName := by
  unfold lookup primitives Primitive.ofName?
  induction Primitive.all with
  | nil => rfl
  | cons p ps ih =>
    rw [List.map_cons, lookup_cons_ite, ih, List.find?_cons]
    by_cases h : p.schemaName = key
    · simp [h]
    · have hne : key ≠ p.schemaName := fun he => h he.symm
      simp [h, hne]

/-- The table of the primitives after names have been registered in turn. -/
def ofNames (registered : List String) : TypeTable := registered.foldl register primitives

theorem ofNames_append (registered : List String) (name : String) :
    ofNames (registered ++ [name]) = (ofNames registered).register name :=
  List.foldl_append

theorem lookup_ofNames (registered : List String) (key : String) :
    (ofNames registered).lookup key =
      if key ∈ registered then some key
      else (Primitive.ofName? key).map Primitive.csharpName := by
  induction registered using List.reverseRecOn with
  | nil => exact lookup_primitives key
  | append_singleton registered name ih =>
    rw [ofNames_append, lookup_register, ih]
    by_cases hname : key = name <;> simp [hname]

theorem ofSchema_eq_ofNames (s : Schema) : ofSchema s = ofNames (s.enums.map (·.name)) :=
  List.foldl_map.symm

/-- The names of enums come before those of primitives. -/
theorem lookup_ofSchema (s : Schema) (key : String) :
    (ofSchema s).lookup key =
      if key ∈ s.enums.map (·.name) then some key
      else (Primitive.ofName? key).map Primitive.csharpName := by
  rw [ofSchema_eq_ofNames, lookup_ofNames]

/-- The tables there are: the primitives with enums registered. -/
inductive Built : TypeTable → Prop
  | primitives : Built .primitives
  | register {table : TypeTable} (h : table.Built) (name : String) : Built (table.register name)

theorem built_ofNames (registered : List String) : (ofNames registered).Built := by
  induction registered using List.reverseRecOn with
  | nil => exact .primitives
  | append_singleton registered name ih =>
    rw [ofNames_append]
    exact ih.register name

theorem built_ofSchema (s : Schema) : (ofSchema s).Built := by
  rw [ofSchema_eq_ofNames]
  exact built_ofNames _

/-- A table answers with the name itself or with that of a primitive. -/
theorem Built.lookup_cases {table : TypeTable} (h : table.Built) {key target : String}
    (hl : table.lookup key = some target) :
    target = key ∨ ∃ p : Primitive, p.csharpName = target := by
  induction h with
  | primitives =>
    rw [lookup_primitives] at hl
    obtain ⟨p, _, hp⟩ := Option.map_eq_some_iff.mp hl
    exact .inr ⟨p, hp⟩
  | register _ name ih =>
    rw [lookup_register] at hl
    split at hl
    next hk => exact .inl (by rw [← Option.some.inj hl, hk])
    next => exact ih hl

end TypeTable

/-- A table has a type for the name. -/
def TypeTable.Lists (table : TypeTable) (name : String) : Prop :=
  ∃ target, table.lookup name = some target

/-- A name that a schema can use as a type: a primitive's or one of its
enums'. -/
def Schema.Declares (s : Schema) (name : String) : Prop :=
  (∃ p : Primitive, p.schemaName = name) ∨ ∃ e ∈ s.enums, e.name = name

theorem TypeTable.lists_ofSchema (s : Schema) : (ofSchema s).Lists = s.Declares := by
  funext name
  unfold Lists Schema.Declares
  rw [lookup_ofSchema, eq_iff_iff]
  by_cases hm : name ∈ s.enums.map (·.name)
  · have he : ∃ e ∈ s.enums, e.name = name := by simpa using hm
    simp only [hm, if_true, he, or_true, iff_true]
    exact ⟨name, rfl⟩
  · have he : ¬ ∃ e ∈ s.enums, e.name = name := by simpa using hm
    simp only [hm, if_false, he, or_false, Option.map_eq_some_iff, Primitive.ofName?_eq_some]
    exact ⟨fun ⟨_, p, hp, _⟩ => ⟨p, hp⟩, fun ⟨p, hp⟩ => ⟨_, p, hp, rfl⟩⟩

end SchemaSharp
