/-
Records as changes of their blank.

Either spelling of a record comes down to a list of fields that are given, each with the
change that its value makes, if it can be read. An object is read as its fields say,
provided that none is given twice and that the required ones are given
(`Shape.decode_object_eq_ok`), and so is an array with an item for every slot
(`Shape.decode_full_array`). Changes of different fields commute, so the order in which
the fields are given does not count (`Given.run_perm`), and an object is read as the array
of what stands under its keys (`Shape.decode_object_eq_array`).
-/
import Mathlib.Data.List.Pairwise
import SchemaSharp.Proofs.ObjectView
import SchemaSharp.Proofs.Outcome

namespace SchemaSharp

variable {α : Type}

/-! ## Given fields -/

/-- A field that is given: its key, and the change that its value makes if it can be read. -/
structure Given (α : Type) where
  key : String
  change : Option (α → α)

namespace Given

/-- Makes the changes in turn, if all of them can be read. -/
def run (a : α) : List (Given α) → Option α
  | [] => some a
  | g :: gs => g.change.bind fun change => run (change a) gs

/-- The order of the two does not count. -/
def Commutes (g h : Given α) : Prop :=
  ∀ c d, g.change = some c → h.change = some d → ∀ a, c (d a) = d (c a)

theorem Commutes.symm {g h : Given α} (hc : g.Commutes h) : h.Commutes g :=
  fun c d hh hg a => (hc d c hg hh a).symm

/-- **Changes that commute are made in any order.** -/
theorem run_perm {gs gs' : List (Given α)} (hp : gs.Perm gs') (hc : gs.Pairwise Commutes) (a : α) :
    run a gs = run a gs' := by
  induction hp generalizing a with
  | nil => rfl
  | cons g _ ih =>
    rw [run, run]
    exact congrArg _ (funext fun change => ih hc.tail (change a))
  | swap g h gs =>
    have hcomm : h.Commutes g := (List.pairwise_cons.mp hc).1 g (.head gs)
    simp only [run]
    cases hg : g.change with
    | none => cases h.change <;> rfl
    | some c =>
      cases hh : h.change with
      | none => rfl
      | some d => rw [Option.bind_some, Option.bind_some, Option.bind_some, Option.bind_some,
          hcomm d c hh hg a]
  | trans hp _ ih ih' =>
    exact (ih hc a).trans (ih' ((hp.pairwise_iff Commutes.symm).mp hc) a)

end Given

namespace Slot

variable {slot : Slot α}

/-- The keys of a field. -/
def keys (slot : Slot α) : List String := slot.key :: slot.otherKey.toList

theorem spelled_iff {key : String} : slot.spelled key = true ↔ key ∈ slot.keys := by
  rw [spelled, keys, Bool.or_eq_true, decide_eq_true_iff, decide_eq_true_iff, List.mem_cons,
    Option.mem_toList, eq_comm]

/-- The field with a value. -/
def give (slot : Slot α) (j : Json) : Given α := ⟨slot.key, (slot.read j).toOption⟩

variable {slots : List (Slot α)}

theorem nodup_key (hn : (slots.flatMap keys).Nodup) : (slots.map (·.key)).Nodup := by
  induction slots with
  | nil => exact .nil
  | cons s slots ih =>
    rw [List.flatMap_cons, List.nodup_append] at hn
    obtain ⟨_, hrest, hapart⟩ := hn
    refine List.nodup_cons.mpr ⟨fun hmem => ?_, ih hrest⟩
    obtain ⟨t, ht, hkey⟩ := List.mem_map.mp hmem
    exact hapart s.key (.head _) t.key (List.mem_flatMap.mpr ⟨t, ht, .head _⟩) hkey.symm

theorem find?_of_mem (hn : (slots.flatMap keys).Nodup)
    (hs : slot ∈ slots) {key : String} (hk : key ∈ slot.keys) :
    slots.find? (·.spelled key) = some slot := by
  induction slots with
  | nil => cases hs
  | cons s slots ih =>
    rw [List.flatMap_cons, List.nodup_append] at hn
    obtain ⟨_, hrest, hapart⟩ := hn
    rcases List.mem_cons.mp hs with rfl | hs
    · rw [List.find?_cons, spelled_iff.mpr hk]
    · have hother : s.spelled key = false := Bool.eq_false_iff.mpr fun h =>
        hapart key (spelled_iff.mp h) key (List.mem_flatMap.mpr ⟨slot, hs, hk⟩) rfl
      rw [List.find?_cons, hother]
      exact ih hrest hs

end Slot

/-! ## Objects -/

namespace Shape

variable {shape : Shape α} {a : α}

/-- The field that a member gives, if its key belongs to one. -/
def giving (shape : Shape α) (key : String) (value : Json) : Option (Given α) :=
  (shape.slots.find? (·.spelled key)).map (·.give value)

/-- The fields that members give in turn. -/
def given (shape : Shape α) (members : List (String × Json)) : List (Given α) :=
  members.filterMap fun m => shape.giving m.1 m.2

/-- **A visit succeeds if no field is given twice and every value can be read.** -/
theorem visit_eq_ok {members : List (String × Json)} {seen : List String}
    {r : List String × α} :
    shape.visit seen a members = .ok r ↔
      (∀ g ∈ shape.given members, g.key ∉ seen) ∧ ((shape.given members).map (·.key)).Nodup ∧
        ∃ b, Given.run a (shape.given members) = some b ∧
          r = (((shape.given members).map (·.key)).reverse ++ seen, b) := by
  induction members generalizing seen a with
  | nil => simp [visit, given, Given.run, eq_comm]
  | cons m members ih =>
    obtain ⟨key, value⟩ := m
    rw [visit]
    cases hf : shape.slots.find? (·.spelled key) with
    | none =>
      have hgiven : shape.given ((key, value) :: members) = shape.given members := by
        rw [given, List.filterMap_cons, giving, hf]
        rfl
      rw [hgiven]
      exact ih
    | some slot =>
      have hgiven : shape.given ((key, value) :: members) =
          slot.give value :: shape.given members := by
        rw [given, List.filterMap_cons, giving, hf]
        rfl
      rw [hgiven]
      dsimp only
      by_cases hseen : slot.key ∈ seen
      · rw [if_pos hseen]
        exact ⟨fun h => (by cases h), fun h => absurd hseen (h.1 _ (.head _))⟩
      · rw [if_neg hseen]
        cases hread : slot.read value with
        | error e =>
          simp [Except.bind, Given.run, Slot.give, hread, Except.toOption]
        | ok change =>
          have hrun : Given.run a (slot.give value :: shape.given members) =
              Given.run (change a) (shape.given members) := by
            rw [Given.run, Slot.give, hread]
            rfl
          have hkey : (slot.give value).key = slot.key := rfl
          rw [hrun]
          simp only [Except.bind, ih, List.mem_cons, not_or, forall_eq_or_imp, List.map_cons,
            List.nodup_cons, List.mem_map, not_exists, not_and, hkey, hseen, not_false_eq_true,
            true_and, List.reverse_cons, List.append_assoc, List.singleton_append, forall_and]
          tauto

/-- **An object is read if no field is given twice, every required field is given, and
every value can be read.** -/
theorem decode_object_eq_ok {members : List (String × Json)} {gs : List (Given α)}
    (hg : shape.given (Json.byKey members) = gs) :
    shape.decode (.object members) = .ok a ↔
      (gs.map (·.key)).Nodup ∧
        (∀ slot ∈ shape.slots, slot.isRequired = true → slot.key ∈ gs.map (·.key)) ∧
        Given.run shape.blank gs = some a := by
  subst hg
  rw [decode, ofObject, bind_eq_ok]
  simp only [visit_eq_ok]
  refine ⟨fun h => ?_, fun h => ?_⟩
  · obtain ⟨_, ⟨_, hn, b, hrun, rfl⟩, h⟩ := h
    dsimp only at h
    split at h
    next => cases h
    next hnone =>
      obtain rfl := Except.ok.inj h
      refine ⟨hn, fun slot hs hr => ?_, hrun⟩
      have hgiven := List.find?_eq_none.mp hnone slot hs
      simpa [hr] using hgiven
  · obtain ⟨hn, hrequired, hrun⟩ := h
    refine ⟨_, ⟨fun g _ => List.not_mem_nil, hn, a, hrun, rfl⟩, ?_⟩
    have hnone : (shape.slots.find? fun slot => slot.isRequired &&
        slot.key ∉ ((shape.given (Json.byKey members)).map (·.key)).reverse ++ []) = none := by
      refine List.find?_eq_none.mpr fun slot hs => ?_
      simpa using hrequired slot hs
    simp only [hnone]

/-- A field is given once if it is given under one key. -/
theorem nodup_given_iff {members : List (String × Json)} :
    ((shape.given (Json.byKey members)).map (·.key)).Nodup ↔
      ∀ key value key' value' g g', Json.last? key members = some value →
        Json.last? key' members = some value' → shape.giving key value = some g →
        shape.giving key' value' = some g' → g.key = g'.key → key = key' := by
  have hmem : ∀ m, m ∈ Json.byKey members ↔ Json.last? m.1 members = some m.2 := fun m => by
    rw [← Json.lookup_byKey, ← (Json.ascending_byKey members).mem_iff]
  rw [List.Nodup, List.pairwise_map, given, List.pairwise_filterMap]
  refine ⟨fun h key value key' value' g g' hk hk' hg hg' hsame => ?_, fun h => ?_⟩
  · by_contra hne
    have hsymm : Std.Symm fun m m' : String × Json => ∀ g, shape.giving m.1 m.2 = some g →
        ∀ g', shape.giving m'.1 m'.2 = some g' → g.key ≠ g'.key :=
      ⟨fun m m' hmm g hg g' hg' => (hmm g' hg' g hg).symm⟩
    have hmembers : (key, value) ≠ (key', value') := fun heq => hne (congrArg Prod.fst heq)
    exact h.forall ((hmem (key, value)).mpr hk) ((hmem (key', value')).mpr hk') hmembers g hg g' hg'
      hsame
  · refine (Json.ascending_byKey members).imp_of_mem fun hm hm' hlt g hg g' hg' hsame => ?_
    have heq := h _ _ _ _ g g' ((hmem _).mp hm) ((hmem _).mp hm') hg hg' hsame
    exact String.lt_irrefl _ (heq ▸ hlt)

/-- An object that gives one field under two of its keys is refused. -/
theorem decode_object_of_repeated (hn : (shape.slots.flatMap Slot.keys).Nodup) {slot : Slot α}
    (hs : slot ∈ shape.slots) {key key' : String} (hk : key ∈ slot.keys) (hk' : key' ∈ slot.keys)
    (hne : key ≠ key') {members : List (String × Json)} {value value' : Json}
    (hv : Json.last? key members = some value) (hv' : Json.last? key' members = some value') :
    ∃ e, shape.decode (.object members) = .error e := by
  cases h : shape.decode (.object members) with
  | error e => exact ⟨e, rfl⟩
  | ok a =>
    have hgiving {k : String} (hk : k ∈ slot.keys) (j : Json) :
        shape.giving k j = some (slot.give j) := by
      rw [giving, Slot.find?_of_mem hn hs hk, Option.map_some]
    have honce := nodup_given_iff.mp ((decode_object_eq_ok rfl).mp h).1
    exact absurd (honce _ _ _ _ _ _ hv hv' (hgiving hk value) (hgiving hk' value') rfl) hne

/-- Objects that give fields alike are read alike. -/
theorem decode_object_agree {members members' : List (String × Json)}
    (h : ∀ key slot, shape.slots.find? (·.spelled key) = some slot →
      (Json.last? key members).map slot.give = (Json.last? key members').map slot.give) :
    (shape.decode (.object members)).toOption = (shape.decode (.object members')).toOption := by
  have hview : ∀ key, shape.knows key = true →
      (Json.last? key members).map (shape.giving key) =
        (Json.last? key members').map (shape.giving key) := by
    intro key hk
    obtain ⟨slot, hf⟩ := knows_iff_exists.mp hk
    have hslot : shape.giving key = some ∘ slot.give := by
      funext value
      simp only [giving, hf, Option.map_some, Function.comp_apply]
    rw [hslot, ← Option.map_map, ← Option.map_map, h key slot hf]
  have hgiven : ∀ l : List (String × Json), shape.given l =
      ((l.filter fun m => shape.knows m.1).map fun m => (m.1, shape.giving m.1 m.2)).filterMap
        Prod.snd := by
    intro l
    rw [List.filterMap_map, List.filterMap_filter, given]
    refine List.filterMap_congr fun m _ => ?_
    split
    next => rfl
    next hk =>
      have hnone : shape.slots.find? (·.spelled m.1) = none :=
        Option.eq_none_iff_forall_ne_some.mpr fun slot hf => hk (knows_iff_exists.mpr ⟨slot, hf⟩)
      rw [giving, hnone, Option.map_none]
  refine toOption_eq_iff.mpr fun a => ?_
  rw [decode_object_eq_ok rfl, decode_object_eq_ok rfl, hgiven, hgiven,
    Json.map_view_byKey shape.knows hview]

/-! ## Arrays -/

/-- The fields that the items of an array give, one item for each. -/
def full (shape : Shape α) (js : List Json) : List (Given α) :=
  (shape.slots.zip js).map fun x => x.1.give x.2

theorem fill_full {length position : Nat} {slots : List (Slot α)} {js : List Json}
    (h : slots.length = js.length) :
    (shape.fill length position a slots js).toOption =
      Given.run a ((slots.zip js).map fun x => x.1.give x.2) := by
  induction slots generalizing position a js with
  | nil =>
    obtain rfl := List.length_eq_zero_iff.mp h.symm
    rfl
  | cons slot slots ih =>
    cases js with
    | nil => cases h
    | cons j js =>
      rw [fill, toOption_bind]
      simp only [ih (Nat.succ.inj h)]
      rfl

theorem decode_full_array {js : List Json} (h : shape.slots.length = js.length) :
    (shape.decode (.array js)).toOption = Given.run shape.blank (shape.full js) := fill_full h

theorem fill_agree {length position : Nat} {slots : List (Slot α)} {before after : List Json}
    {j j' : Json} (h : ∀ slot, slots[before.length]? = some slot → slot.give j = slot.give j') :
    (shape.fill length position a slots (before ++ j :: after)).toOption =
      (shape.fill length position a slots (before ++ j' :: after)).toOption := by
  induction before generalizing position a slots with
  | nil =>
    cases slots with
    | nil => rfl
    | cons slot slots =>
      have hread : (slot.read j).toOption = (slot.read j').toOption :=
        congrArg Given.change (h slot rfl)
      simp only [List.nil_append, fill, toOption_bind, hread]
  | cons i before ih =>
    cases slots with
    | nil => rfl
    | cons slot slots =>
      have hrest : ∀ slot', slots[before.length]? = some slot' → slot'.give j = slot'.give j' :=
        fun slot' hs => h slot' (by simpa using hs)
      simp only [List.cons_append, fill, toOption_bind, ih hrest]

theorem decode_array_agree {before after : List Json} {j j' : Json}
    (h : ∀ slot, shape.slots[before.length]? = some slot → slot.give j = slot.give j') :
    (shape.decode (.array (before ++ j :: after))).toOption =
      (shape.decode (.array (before ++ j' :: after))).toOption := by
  have hlength : (before ++ j :: after).length = (before ++ j' :: after).length := by simp
  rw [decode, decode, ofArray, ofArray, hlength]
  exact fill_agree h

/-! ## Objects as arrays -/

end Shape

/-- The value is what a record has under one of the field's keys, and there is nothing under
the other. -/
def Slot.StandsFor (slot : Slot α) (members : List (String × Json)) (j : Json) : Prop :=
  ∃ key ∈ slot.keys, ∀ k ∈ slot.keys, Json.last? k members = if k = key then some j else none

theorem Slot.StandsFor.eq_of_last? {slot : Slot α} {members : List (String × Json)} {j : Json}
    (h : slot.StandsFor members j) :
    ∃ key ∈ slot.keys, Json.last? key members = some j ∧
      ∀ k ∈ slot.keys, ∀ value, Json.last? k members = some value → k = key ∧ value = j := by
  obtain ⟨key, hkey, hlast⟩ := h
  refine ⟨key, hkey, (hlast key hkey).trans (if_pos rfl), fun k hk value hv => ?_⟩
  rw [hlast k hk] at hv
  split at hv
  next heq => exact ⟨heq, (Option.some.inj hv).symm⟩
  next => cases hv

/-- Whatever is read for the two fields, the order does not count. -/
def Slot.Commutes (s t : Slot α) : Prop := ∀ j k, (s.give j).Commutes (t.give k)

namespace Shape

variable {shape : Shape α} {members : List (String × Json)} {js : List Json}

theorem exists_of_giving {key : String} {value : Json} {g : Given α}
    (h : shape.giving key value = some g) :
    ∃ slot ∈ shape.slots, key ∈ slot.keys ∧ g = slot.give value := by
  obtain ⟨slot, hf, rfl⟩ := Option.map_eq_some_iff.mp h
  have hspelled : slot.spelled key = true := by simpa using List.find?_some hf
  exact ⟨slot, List.mem_of_find?_eq_some hf, Slot.spelled_iff.mp hspelled, rfl⟩

theorem map_key_full (h : shape.slots.length = js.length) :
    (shape.full js).map (·.key) = shape.slots.map (·.key) := by
  calc (shape.full js).map (·.key) = ((shape.slots.zip js).map Prod.fst).map (·.key) := by
        rw [full, List.map_map, List.map_map]
        rfl
    _ = shape.slots.map (·.key) := by rw [List.map_fst_zip (Nat.le_of_eq h)]

section Spelled

variable (hn : (shape.slots.flatMap Slot.keys).Nodup)
  (h : List.Forall₂ (·.StandsFor members) shape.slots js)

include hn h

theorem nodup_given : ((shape.given (Json.byKey members)).map (·.key)).Nodup := by
  refine nodup_given_iff.mpr fun key value key' value' g g' hk hk' hg hg' hsame => ?_
  obtain ⟨slot, hs, hkey, rfl⟩ := exists_of_giving hg
  obtain ⟨slot', hs', hkey', rfl⟩ := exists_of_giving hg'
  obtain rfl : slot = slot' := List.inj_on_of_nodup_map (Slot.nodup_key hn) hs hs' hsame
  obtain ⟨j, _, hstands⟩ := forall₂_exists_of_mem h hs
  obtain ⟨key₀, _, _, honly⟩ := hstands.eq_of_last?
  exact (honly key hkey value hk).1.trans (honly key' hkey' value' hk').1.symm

theorem mem_given_iff {g : Given α} :
    g ∈ shape.given (Json.byKey members) ↔ g ∈ shape.full js := by
  have hmem : ∀ key value, (key, value) ∈ Json.byKey members ↔
      Json.last? key members = some value := fun key value => by
    rw [(Json.ascending_byKey members).mem_iff, Json.lookup_byKey]
  rw [given, full, List.mem_filterMap, List.mem_map]
  constructor
  · rintro ⟨⟨key, value⟩, hm, hg⟩
    obtain ⟨slot, hs, hkey, rfl⟩ := exists_of_giving hg
    obtain ⟨j, hzip, hstands⟩ := forall₂_exists_of_mem h hs
    obtain ⟨_, _, _, honly⟩ := hstands.eq_of_last?
    obtain ⟨_, rfl⟩ := honly key hkey value ((hmem key value).mp hm)
    exact ⟨(slot, value), hzip, rfl⟩
  · rintro ⟨⟨slot, j⟩, hzip, rfl⟩
    obtain ⟨key, hkey, hlast, _⟩ := ((List.forall₂_iff_zip.mp h).2 hzip).eq_of_last?
    refine ⟨(key, j), (hmem key j).mpr hlast, ?_⟩
    rw [giving, Slot.find?_of_mem hn (List.of_mem_zip hzip).1 hkey, Option.map_some]

end Spelled

theorem decode_object_eq_array (hn : (shape.slots.flatMap Slot.keys).Nodup)
    (hc : shape.slots.Pairwise Slot.Commutes)
    (h : List.Forall₂ (·.StandsFor members) shape.slots js) :
    (shape.decode (.object members)).toOption = (shape.decode (.array js)).toOption := by
  have hlength := h.length_eq
  have hkeys := map_key_full hlength
  have hgiven := nodup_given hn h
  have hfull : ((shape.full js).map (·.key)).Nodup := hkeys ▸ Slot.nodup_key hn
  have hperm : (shape.full js).Perm (shape.given (Json.byKey members)) :=
    (List.perm_ext_iff_of_nodup (hfull.of_map _) (hgiven.of_map _)).mpr fun _ =>
      (mem_given_iff hn h).symm
  have hcommute : (shape.full js).Pairwise Given.Commutes := by
    rw [← List.map_fst_zip (Nat.le_of_eq hlength), List.pairwise_map] at hc
    exact List.pairwise_map.mpr (hc.imp fun hst => hst _ _)
  refine toOption_eq_iff.mpr fun a => ?_
  rw [decode_object_eq_ok rfl, ← toOption_eq_some, decode_full_array hlength,
    Given.run_perm hperm hcommute]
  refine ⟨fun h => h.2.2, fun h => ⟨hgiven, fun slot hs _ => ?_, h⟩⟩
  rw [← (hperm.map _).mem_iff, hkeys]
  exact List.mem_map_of_mem hs

end Shape

end SchemaSharp
