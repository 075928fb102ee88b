/-
Tables after any registrations.

A table has one entry for each of its names, and registering a name adds it to them
(`Covers.register`). So after names have been registered in turn, the entries are those
of the names and of the primitives (`covers_ofNames`), and which they are does not
depend on the order or on repetitions (`perm_ofNames`). The tables of schemas are
tables of this kind (`ofSchema_eq_ofNames`).
-/
import Mathlib.Data.Finset.Card
import SchemaSharp.Proofs.TypeTable

namespace SchemaSharp

/-- The names that declare primitives. -/
def Primitive.names : Finset String := (all.map schemaName).toFinset

namespace TypeTable

/-- The names that a table has entries for. -/
def names (table : TypeTable) : List String := table.entries.map (·.1)

theorem names_set (name target : String) (entries : List (String × String)) :
    (set name target entries).map (·.1) =
      if name ∈ entries.map (·.1) then entries.map (·.1) else entries.map (·.1) ++ [name] := by
  induction entries with
  | nil => rfl
  | cons entry rest ih =>
    obtain ⟨k, v⟩ := entry
    by_cases hk : k = name
    · simp [set, hk]
    · have hname : name ≠ k := fun h => hk h.symm
      simp only [set, hk, if_false, List.map_cons, ih, List.mem_cons, hname, false_or]
      split <;> rfl

theorem toFinset_append_singleton (names : List String) (name : String) :
    (names ++ [name]).toFinset = insert name names.toFinset := by
  rw [List.toFinset_append, List.toFinset_cons, List.toFinset_nil, insert_empty_eq,
    Finset.union_comm, Finset.singleton_union]

/-- A table has one entry for each name of a set, and no others. -/
structure Covers (table : TypeTable) (keys : Finset String) : Prop where
  nodup : table.names.Nodup
  toFinset : table.names.toFinset = keys

variable {table table' : TypeTable} {keys keys' : Finset String}

theorem covers_primitives : primitives.Covers Primitive.names where
  nodup := by decide
  toFinset := by rw [names, primitives, List.map_map, Primitive.names]; rfl

/-- **Registering a name adds it to the names**, unless it is one of them. -/
theorem Covers.register (h : table.Covers keys) (name : String) :
    (table.register name).Covers (insert name keys) := by
  have hnames : (table.register name).names =
      if name ∈ table.names then table.names else table.names ++ [name] :=
    names_set name name table.entries
  by_cases hname : name ∈ table.names
  · rw [if_pos hname] at hnames
    refine ⟨hnames ▸ h.nodup, ?_⟩
    rw [hnames, h.toFinset, Finset.insert_eq_self.mpr]
    rwa [← h.toFinset, List.mem_toFinset]
  · rw [if_neg hname] at hnames
    refine ⟨?_, ?_⟩
    · rw [hnames, ← List.concat_eq_append]
      exact h.nodup.concat hname
    · rw [hnames, toFinset_append_singleton, h.toFinset]

theorem Covers.size_eq (h : table.Covers keys) : table.size = keys.card := by
  rw [← h.toFinset, List.toFinset_card_of_nodup h.nodup, names, List.length_map, size]

/-- Where no name has two entries, the entries are the answers. -/
theorem mem_iff_lookup {entries : List (String × String)} (h : (entries.map (·.1)).Nodup)
    {key target : String} : (key, target) ∈ entries ↔ entries.lookup key = some target := by
  induction entries with
  | nil => simp
  | cons entry rest ih =>
    obtain ⟨k, v⟩ := entry
    rw [List.map_cons, List.nodup_cons] at h
    rw [List.mem_cons, lookup_cons_ite, Prod.mk.injEq, ih h.2]
    by_cases hk : key = k
    · subst hk
      have hrest : rest.lookup key ≠ some target := fun hl =>
        h.1 (List.mem_map_of_mem (f := (·.1)) ((ih h.2).mpr hl))
      simp [hrest, eq_comm]
    · simp [hk]

/-- Tables with the same answers have the same entries, up to their order. -/
theorem Covers.perm (h : table.Covers keys) (h' : table'.Covers keys')
    (hl : ∀ key, table.lookup key = table'.lookup key) : table.entries.Perm table'.entries := by
  refine (List.perm_ext_iff_of_nodup h.nodup.of_map h'.nodup.of_map).mpr ?_
  rintro ⟨key, target⟩
  rw [mem_iff_lookup h.nodup, mem_iff_lookup h'.nodup]
  exact iff_of_eq (congrArg (· = some target) (hl key))

theorem set_set (name target : String) (entries : List (String × String)) :
    set name target (set name target entries) = set name target entries := by
  induction entries with
  | nil => simp [set]
  | cons entry rest ih =>
    obtain ⟨k, v⟩ := entry
    by_cases hk : k = name
    · simp [set, hk]
    · simp [set, hk, ih]

theorem register_register (table : TypeTable) (name : String) :
    (table.register name).register name = table.register name :=
  congrArg TypeTable.mk (set_set name name table.entries)

theorem covers_ofNames (registered : List String) :
    (ofNames registered).Covers (registered.toFinset ∪ Primitive.names) := by
  induction registered using List.reverseRecOn with
  | nil => exact covers_primitives
  | append_singleton registered name ih =>
    rw [ofNames_append, toFinset_append_singleton, Finset.insert_union]
    exact ih.register name

theorem perm_ofNames {registered registered' : List String}
    (h : ∀ name, name ∈ registered ↔ name ∈ registered') :
    (ofNames registered).entries.Perm (ofNames registered').entries := by
  refine (covers_ofNames registered).perm (covers_ofNames registered') fun key => ?_
  simp only [lookup_ofNames, h key]

theorem size_ofNames (registered : List String) :
    (ofNames registered).size = 13 + (registered.toFinset \ Primitive.names).card := by
  have hcard : Primitive.names.card = 13 := by decide
  rw [(covers_ofNames registered).size_eq, ← Finset.card_sdiff_add_card, hcard, Nat.add_comm]

theorem lookup_ofNames_eq_some {registered : List String} {key target : String} :
    (ofNames registered).lookup key = some target ↔
      key ∈ registered ∧ target = key ∨
      key ∉ registered ∧ ∃ p : Primitive, p.schemaName = key ∧ target = p.csharpName := by
  rw [lookup_ofNames]
  by_cases hkey : key ∈ registered
  · simp only [hkey, if_true, Option.some.injEq, true_and, not_true, false_and, or_false]
    exact eq_comm
  · simp only [hkey, if_false, Option.map_eq_some_iff, Primitive.ofName?_eq_some, false_and,
      false_or, not_false_eq_true, true_and]
    exact exists_congr fun p => and_congr_right fun _ => eq_comm

/-- **The names that were registered decide what a table answers and how large it is.** Each
of them stands for itself, every other primitive for its C# type, and no other name has a
type. A name that is registered once more changes nothing, and names leave the same entries
in any order; those that are no primitives are counted once each. The table of a schema is
the one after the names of its enums. -/
theorem ofNames_decided_by_names (registered : List String) :
    (∀ key target, (ofNames registered).lookup key = some target ↔
      key ∈ registered ∧ target = key ∨
      key ∉ registered ∧ ∃ p : Primitive, p.schemaName = key ∧ target = p.csharpName) ∧
    (∀ name, ((ofNames registered).register name).register name =
      (ofNames registered).register name) ∧
    (∀ name name', (((ofNames registered).register name).register name').entries.Perm
      (((ofNames registered).register name').register name).entries) ∧
    (∀ registered', (∀ name, name ∈ registered ↔ name ∈ registered') →
      (ofNames registered).entries.Perm (ofNames registered').entries) ∧
    (ofNames registered).size = 13 + (registered.toFinset \ Primitive.names).card ∧
    ∀ s : Schema, ofSchema s = ofNames (s.enums.map (·.name)) := by
  refine ⟨fun key target => lookup_ofNames_eq_some, register_register _, fun name name' => ?_,
    fun registered' => perm_ofNames, size_ofNames registered, ofSchema_eq_ofNames⟩
  simp only [← ofNames_append, List.append_assoc]
  exact perm_ofNames fun key => ((List.Perm.swap name' name []).append_left registered).mem_iff

/-- A name of a primitive gives way to the enum of that name, and is counted already. -/
theorem ofNames_decided_by_names_shadowed :
    (∀ name, name ∈ ["number", "Hue", "OPERATION", "Hue"] ↔
      name ∈ ["OPERATION", "Hue", "number", "number"]) ∧
    (ofNames ["number", "Hue", "OPERATION", "Hue"]).entries.Perm
      (ofNames ["OPERATION", "Hue", "number", "number"]).entries ∧
    (ofNames ["number", "Hue", "OPERATION", "Hue"]).lookup "number" = some "number" ∧
    (ofNames ["number", "Hue", "OPERATION", "Hue"]).size = 15 := by
  have hsame : ∀ name, name ∈ ["number", "Hue", "OPERATION", "Hue"] ↔
      name ∈ ["OPERATION", "Hue", "number", "number"] := by
    intro name
    simp only [List.mem_cons, List.not_mem_nil, or_false]
    tauto
  obtain ⟨hlookup, _, _, hperm, hsize, _⟩ :=
    ofNames_decided_by_names ["number", "Hue", "OPERATION", "Hue"]
  exact ⟨hsame, hperm _ hsame, (hlookup _ _).mpr (.inl (by decide)), hsize.trans (by decide)⟩

end TypeTable

end SchemaSharp
