/-
Objects as maps.

A reader of an object sees one value for each key, the one that is written last
(`Json.last?`), in ascending order of keys. What a record is decoded to depends on
the record's own keys alone, and on what their values in this view are read as
(`Shape.decode_object_congr_read`): neither on the order of the members, nor on earlier
members with the same key, nor on members with other keys.
-/
import Mathlib.Data.List.Induction
import Mathlib.Data.List.Sort
import SchemaSharp.Decode.Record

namespace SchemaSharp

namespace Json

/-- The value that an object has under a key, the last one if there are several. -/
def last? (key : String) (members : List (String × Json)) : Option Json :=
  members.reverse.lookup key

variable {key : String} {value : Json} {members sorted : List (String × Json)}

theorem byKey_concat (members : List (String × Json)) (m : String × Json) :
    byKey (members ++ [m]) = insertByKey m.1 m.2 (byKey members) := List.foldl_concat ..

theorem lookup_cons_eq_ite (k : String) : ((key, value) :: members).lookup k =
    if k = key then some value else members.lookup k := by
  rw [List.lookup_cons]
  by_cases h : k = key
  · rw [if_pos h, beq_iff_eq.mpr h]
  · rw [if_neg h, beq_false_of_ne h]

theorem lookup_insertByKey (k : String) : (insertByKey key value sorted).lookup k =
    if k = key then some value else sorted.lookup k := by
  induction sorted with
  | nil => exact lookup_cons_eq_ite k
  | cons m sorted ih =>
    obtain ⟨k', v⟩ := m
    unfold insertByKey
    split
    next heq =>
      subst heq
      simp only [lookup_cons_eq_ite]
      split <;> rfl
    next hne =>
      split
      next => rw [lookup_cons_eq_ite]
      next =>
        rw [lookup_cons_eq_ite, lookup_cons_eq_ite, ih]
        by_cases h : k = key
        · have hk : k ≠ k' := fun hk => hne (h.symm.trans hk)
          rw [if_neg hk, if_pos h, if_pos h]
        · rw [if_neg h, if_neg h]

theorem lookup_byKey (key : String) (members : List (String × Json)) :
    (byKey members).lookup key = last? key members := by
  induction members using List.reverseRecOn with
  | nil => rfl
  | append_singleton members m ih =>
    rw [byKey_concat, lookup_insertByKey, ih, last?, last?, List.reverse_concat,
      lookup_cons_eq_ite]

/-- In ascending order of keys. -/
def Ascending (members : List (String × Json)) : Prop := members.Pairwise fun m n => m.1 < n.1

theorem mem_insertByKey {m : String × Json} (h : m ∈ insertByKey key value sorted) :
    m = (key, value) ∨ m ∈ sorted := by
  induction sorted with
  | nil => exact .inl (List.mem_singleton.mp h)
  | cons n sorted ih =>
    obtain ⟨k, v⟩ := n
    unfold insertByKey at h
    split at h
    next => exact (List.mem_cons.mp h).imp_right (.tail _)
    next =>
      split at h
      next => exact List.mem_cons.mp h
      next =>
        rcases List.mem_cons.mp h with rfl | h
        · exact .inr (.head _)
        · exact (ih h).imp_right (.tail _)

theorem Ascending.insertByKey (h : Ascending sorted) (key : String) (value : Json) :
    Ascending (insertByKey key value sorted) := by
  induction h with
  | nil => exact List.pairwise_singleton ..
  | @cons n sorted hn h ih =>
    obtain ⟨k, v⟩ := n
    unfold Json.insertByKey
    split
    next heq =>
      subst heq
      exact .cons hn h
    next hne =>
      split
      next hlt =>
        refine .cons (List.forall_mem_cons.mpr ⟨hlt, fun m hm => ?_⟩) (.cons hn h)
        exact String.lt_trans hlt (hn m hm)
      next hlt =>
        have hk : k < key := Std.lt_of_le_of_ne (String.not_lt.mp hlt) (Ne.symm hne)
        refine .cons (fun m hm => ?_) ih
        rcases mem_insertByKey hm with rfl | hm
        · exact hk
        · exact hn m hm

theorem ascending_byKey (members : List (String × Json)) : Ascending (byKey members) := by
  induction members using List.reverseRecOn with
  | nil => exact .nil
  | append_singleton members m ih =>
    rw [byKey_concat]
    exact ih.insertByKey m.1 m.2

/-- In ascending order, a member is the value of its key. -/
theorem Ascending.mem_iff (h : Ascending sorted) :
    (key, value) ∈ sorted ↔ sorted.lookup key = some value := by
  induction h with
  | nil => simp
  | @cons n sorted hn h ih =>
    obtain ⟨k, v⟩ := n
    rw [List.mem_cons, lookup_cons_eq_ite, Prod.mk.injEq, ih]
    by_cases hk : key = k
    · subst hk
      have habsent : sorted.lookup key ≠ some value := fun hl =>
        String.lt_irrefl _ (hn (key, value) (ih.mpr hl))
      simp [habsent, eq_comm]
    · simp [hk]

/-- In ascending order of keys there is one list of given items. -/
theorem eq_of_pairwise_keys {β : Type} {l l' : List (String × β)}
    (h : l.Pairwise fun m n => m.1 < n.1) (h' : l'.Pairwise fun m n => m.1 < n.1)
    (hm : ∀ m, m ∈ l ↔ m ∈ l') : l = l' := by
  have hirrefl : Std.Irrefl fun m n : String × β => m.1 < n.1 :=
    ⟨fun m => String.lt_irrefl m.1⟩
  have hantisymm : Std.Antisymm fun m n : String × β => m.1 < n.1 :=
    ⟨fun _ _ hlt hgt => absurd hgt (String.lt_asymm hlt)⟩
  exact List.Pairwise.eq_of_mem_iff h h' hm

theorem lookup_filter (keep : String → Bool) (key : String) :
    (members.filter fun m => keep m.1).lookup key =
      if keep key = true then members.lookup key else none := by
  induction members with
  | nil => simp
  | cons m members ih =>
    obtain ⟨k, v⟩ := m
    rw [List.filter_cons, lookup_cons_eq_ite]
    by_cases hk : key = k
    · subst hk
      by_cases hkeep : keep key = true
      · rw [if_pos hkeep, if_pos hkeep, lookup_cons_eq_ite, if_pos rfl, if_pos rfl]
      · rw [if_neg hkeep, if_neg hkeep, ih, if_neg hkeep]
    · rw [if_neg hk, ← ih]
      split
      next => rw [lookup_cons_eq_ite, if_neg hk]
      next => rfl

section View

/- What someone sees of a value, its key known. -/
variable {β : Type} {view : String → Json → β}

theorem Ascending.map_view_eq {sorted' : List (String × Json)} (h : Ascending sorted)
    (h' : Ascending sorted')
    (hv : ∀ key, (sorted.lookup key).map (view key) = (sorted'.lookup key).map (view key)) :
    sorted.map (fun m => (m.1, view m.1 m.2)) = sorted'.map fun m => (m.1, view m.1 m.2) := by
  have hmem : ∀ {l : List (String × Json)}, Ascending l → ∀ key b,
      (key, b) ∈ l.map (fun m => (m.1, view m.1 m.2)) ↔
        (l.lookup key).map (view key) = some b := by
    intro l hl key b
    simp only [List.mem_map, Prod.mk.injEq, Option.map_eq_some_iff, ← hl.mem_iff]
    constructor
    · rintro ⟨m, hm, rfl, rfl⟩
      exact ⟨m.2, hm, rfl⟩
    · rintro ⟨value, hm, rfl⟩
      exact ⟨_, hm, rfl, rfl⟩
  refine eq_of_pairwise_keys (List.pairwise_map.mpr h) (List.pairwise_map.mpr h') ?_
  rintro ⟨key, b⟩
  rw [hmem h, hmem h', hv]

/-- **Objects whose last values look alike, under the keys that count, look alike.** -/
theorem map_view_byKey (keep : String → Bool) {members' : List (String × Json)}
    (hv : ∀ key, keep key = true →
      (last? key members).map (view key) = (last? key members').map (view key)) :
    ((byKey members).filter fun m => keep m.1).map (fun m => (m.1, view m.1 m.2)) =
      ((byKey members').filter fun m => keep m.1).map fun m => (m.1, view m.1 m.2) := by
  refine Ascending.map_view_eq ?_ ?_ fun key => ?_
  · exact (ascending_byKey members).filter _
  · exact (ascending_byKey members').filter _
  · rw [lookup_filter, lookup_filter, lookup_byKey, lookup_byKey]
    split
    next hk => exact hv key hk
    next => rfl

end View

section LastValues

variable {members' before after : List (String × Json)} {k : String}

theorem last?_append : last? key (before ++ after) = (last? key after).or (last? key before) := by
  rw [last?, List.reverse_append, List.lookup_append, last?, last?]

theorem last?_cons : last? key ((k, value) :: members) =
    (last? key members).or (if key = k then some value else none) := by
  rw [last?, List.reverse_cons, List.lookup_append, last?, lookup_cons_eq_ite, List.lookup_nil]

/-- Where no key is repeated, the members are what is found under the keys. -/
theorem last?_eq_some_iff (hn : (members.map Prod.fst).Nodup) :
    last? key members = some value ↔ (key, value) ∈ members := by
  induction members generalizing value with
  | nil => simp [last?]
  | cons m members ih =>
    obtain ⟨k, v⟩ := m
    rw [List.map_cons, List.nodup_cons] at hn
    rw [last?_cons, Option.or_eq_some_iff, ih hn.2, List.mem_cons, Prod.mk.injEq]
    by_cases hk : key = k
    · subst hk
      have habsent : ∀ w, (key, w) ∉ members := fun w hw =>
        hn.1 (List.mem_map.mpr ⟨(key, w), hw, rfl⟩)
      have hnone : last? key members = none :=
        Option.eq_none_iff_forall_ne_some.mpr fun w hw => habsent w ((ih hn.2).mp hw)
      simp [habsent, hnone, eq_comm]
    · simp [hk]

theorem last?_perm (hn : (members.map Prod.fst).Nodup) (hp : members.Perm members') :
    last? key members = last? key members' := by
  have hn' : (members'.map Prod.fst).Nodup := (hp.map Prod.fst).nodup_iff.mp hn
  refine Option.ext fun value => ?_
  rw [last?_eq_some_iff hn, last?_eq_some_iff hn', hp.mem_iff]

theorem last?_insert (h : key ≠ k) :
    last? key (before ++ (k, value) :: after) = last? key (before ++ after) := by
  rw [last?_append, last?_append, last?_cons, if_neg h, Option.or_none]

theorem map_last?_replace {β : Type} {view : Json → β} {value' : Json}
    (h : key = k → view value = view value') :
    (last? key (before ++ (k, value) :: after)).map view =
      (last? key (before ++ (k, value') :: after)).map view := by
  by_cases hk : key = k
  · rw [last?_append, last?_append, last?_cons, last?_cons, if_pos hk, if_pos hk]
    cases last? key after with
    | some v => rfl
    | none => exact congrArg some (h hk)
  · rw [last?_insert hk, last?_insert hk]

end LastValues

end Json

namespace Shape

variable {α : Type} {shape : Shape α}

/-- Whether a key belongs to a field of the record. -/
def knows (shape : Shape α) (key : String) : Bool := shape.slots.any (·.spelled key)

theorem knows_iff_exists {key : String} :
    shape.knows key = true ↔ ∃ slot, shape.slots.find? (·.spelled key) = some slot := by
  rw [knows, ← Option.isSome_iff_exists, List.find?_isSome, List.any_eq_true]

/-- Members with other keys are skipped. -/
theorem visit_filter (seen : List String) (a : α) (members : List (String × Json)) :
    shape.visit seen a (members.filter fun m => shape.knows m.1) = shape.visit seen a members := by
  induction members generalizing seen a with
  | nil => rfl
  | cons m members ih =>
    obtain ⟨key, value⟩ := m
    cases hf : shape.slots.find? (·.spelled key) with
    | none =>
      have hk : ¬shape.knows key = true := by simp [knows_iff_exists, hf]
      rw [List.filter_cons, if_neg hk, visit, hf]
      exact ih seen a
    | some slot =>
      have hk : shape.knows key = true := knows_iff_exists.mpr ⟨slot, hf⟩
      simp only [List.filter_cons, hk, if_true, visit, hf, ih]

/-- What a record makes of a member: the change that the field of its key reads. -/
def reading (shape : Shape α) (key : String) (value : Json) : Option (Except DataError (α → α)) :=
  (shape.slots.find? (·.spelled key)).map fun slot => slot.read value

theorem visit_congr {members members' : List (String × Json)} {seen : List String} {a : α}
    (h : members.map (fun m => (m.1, shape.reading m.1 m.2)) =
      members'.map fun m => (m.1, shape.reading m.1 m.2)) :
    shape.visit seen a members = shape.visit seen a members' := by
  induction members generalizing seen a members' with
  | nil => rw [List.map_eq_nil_iff.mp h.symm]
  | cons m members ih =>
    obtain ⟨key, value⟩ := m
    cases members' with
    | nil => cases h
    | cons n members' =>
      obtain ⟨key', value'⟩ := n
      simp only [List.map_cons, List.cons.injEq, Prod.mk.injEq] at h
      obtain ⟨⟨rfl, hread⟩, hrest⟩ := h
      rw [visit, visit]
      cases hf : shape.slots.find? (·.spelled key) with
      | none => exact ih hrest
      | some slot =>
        simp only [reading, hf, Option.map_some, Option.some.injEq] at hread
        simp only [hread, ih hrest]

/-- **An object is read by what the last values of the record's own keys mean.** -/
theorem decode_object_congr_read {members members' : List (String × Json)}
    (h : ∀ key slot, shape.slots.find? (·.spelled key) = some slot →
      (Json.last? key members).map slot.read = (Json.last? key members').map slot.read) :
    shape.decode (.object members) = shape.decode (.object members') := by
  have hreading : ∀ key, shape.knows key = true →
      (Json.last? key members).map (shape.reading key) =
        (Json.last? key members').map (shape.reading key) := by
    intro key hk
    obtain ⟨slot, hf⟩ := knows_iff_exists.mp hk
    have hslot : shape.reading key = some ∘ slot.read := by
      funext value
      simp only [reading, hf, Option.map_some, Function.comp_apply]
    rw [hslot, ← Option.map_map, ← Option.map_map, h key slot hf]
  have hmembers := Json.map_view_byKey shape.knows hreading
  rw [decode, decode, ofObject, ofObject, ← visit_filter, visit_congr hmembers, visit_filter]

theorem decode_object_congr {members members' : List (String × Json)}
    (h : ∀ key, shape.knows key = true → Json.last? key members = Json.last? key members') :
    shape.decode (.object members) = shape.decode (.object members') :=
  decode_object_congr_read fun key slot hf => by rw [h key (knows_iff_exists.mpr ⟨slot, hf⟩)]

end Shape

end SchemaSharp
