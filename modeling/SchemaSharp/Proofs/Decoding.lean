/-
What decoding a record goes through.

Both spellings of a record change its blank step by step, one slot at a time.
So what the blank is and every slot keeps holds of whatever is decoded
(`decode_keeps`). In the other direction, an object whose keys ascend is
visited in the order it is written in (`byKey_of_ascending`), and decodes to
what the visit ends with (`decode_object`).
-/
import SchemaSharp.Decode.Record
import SchemaSharp.Proofs.Outcome

namespace SchemaSharp

variable {α β : Type}

namespace Decode

variable {decode : Json → Except DataError β}

theorem items_eq_ok {js : List Json} {bs : List β} :
    items decode js = .ok bs ↔ List.Forall₂ (fun j b => decode j = .ok b) js bs := by
  induction js generalizing bs with
  | nil => cases bs <;> simp [items]
  | cons j js ih =>
    simp only [items, bind_eq_ok, map_eq_ok, ih]
    refine ⟨fun h => ?_, fun h => ?_⟩
    · obtain ⟨b, hb, bs, hbs, rfl⟩ := h
      exact .cons hb hbs
    · cases h with
      | cons hb hbs => exact ⟨_, hb, _, hbs, rfl⟩

theorem forall_of_list {P : β → Prop} (hP : ∀ j b, decode j = .ok b → P b) {j : Json} {bs : List β}
    (h : list decode j = .ok bs) : ∀ b ∈ bs, P b := by
  cases j with
  | array js =>
    intro b hb
    obtain ⟨i, hi⟩ := exists_forall₂_iff.mp ⟨js, (items_eq_ok.mp h).flip⟩ b hb
    exact hP i b hi
  | _ => cases h

theorem forall_of_optional {P : β → Prop} (hP : ∀ j b, decode j = .ok b → P b) {j : Json}
    {o : Option β} (h : optional decode j = .ok o) : ∀ b, o = some b → P b := by
  rintro b rfl
  cases j with
  | null => cases h
  | _ =>
    obtain ⟨b', hb, heq⟩ := map_eq_ok.mp h
    cases heq
    exact hP _ b hb

theorem list_map {write : β → Json} {bs : List β} (h : ∀ b ∈ bs, decode (write b) = .ok b) :
    list decode (.array (bs.map write)) = .ok bs := by
  refine items_eq_ok.mpr (List.forall₂_map_left_iff.mpr ?_)
  exact List.forall₂_same.mpr h

end Decode

/-- Whatever the slot reads keeps a property of the record. -/
def Slot.Keeps (slot : Slot α) (P : α → Prop) : Prop :=
  ∀ j change, slot.read j = .ok change → ∀ a, P a → P (change a)

theorem Slot.keeps_of_set {slot : Slot α} {P : α → Prop} {decode : Json → Except DataError β}
    {set : β → α → α} (hr : ∀ j, slot.read j = (decode j).map set)
    (h : ∀ j b, decode j = .ok b → ∀ a, P a → P (set b a)) : slot.Keeps P := by
  intro j change hc
  rw [hr] at hc
  obtain ⟨b, hb, rfl⟩ := map_eq_ok.mp hc
  exact h j b hb

theorem Slot.keeps_of_unrelated {slot : Slot α} {P : α → Prop} {decode : Json → Except DataError β}
    {set : β → α → α} (hr : ∀ j, slot.read j = (decode j).map set)
    (h : ∀ b a, P a → P (set b a)) : slot.Keeps P :=
  keeps_of_set hr fun _ b _ a => h b a

namespace Shape

variable {shape : Shape α} {P : α → Prop} {a : α}

theorem visit_keeps (hs : ∀ slot ∈ shape.slots, slot.Keeps P) {members : List (String × Json)}
    {seen : List String} {r : List String × α} (h : shape.visit seen a members = .ok r)
    (ha : P a) : P r.2 := by
  induction members generalizing seen a with
  | nil =>
    cases h
    exact ha
  | cons m members ih =>
    obtain ⟨key, value⟩ := m
    rw [visit] at h
    split at h
    next => exact ih h ha
    next slot hf =>
      split at h
      next => cases h
      next =>
        obtain ⟨change, hc, h⟩ := bind_eq_ok.mp h
        exact ih h (hs slot (List.mem_of_find?_eq_some hf) value change hc a ha)

theorem fill_keeps {length position : Nat} {slots : List (Slot α)} {js : List Json} {r : α}
    (hs : ∀ slot ∈ slots, slot.Keeps P) (h : shape.fill length position a slots js = .ok r)
    (ha : P a) : P r := by
  induction slots generalizing position a js with
  | nil =>
    cases js with
    | nil =>
      cases h
      exact ha
    | cons j js => cases h
  | cons slot slots ih =>
    simp only [List.mem_cons, forall_eq_or_imp] at hs
    cases js with
    | nil =>
      rw [fill] at h
      split at h
      next => cases h
      next => exact ih hs.2 h ha
    | cons j js =>
      obtain ⟨change, hc, h⟩ := bind_eq_ok.mp h
      exact ih hs.2 h (hs.1 j change hc a ha)

/-- **What the blank is and every slot keeps holds of every decoded
record**, in either spelling. -/
theorem decode_keeps (hb : P shape.blank) (hs : ∀ slot ∈ shape.slots, slot.Keeps P) {j : Json}
    (h : shape.decode j = .ok a) : P a := by
  cases j with
  | object members =>
    obtain ⟨⟨seen, r⟩, hv, h⟩ := bind_eq_ok.mp h
    have hr : P r := visit_keeps hs hv hb
    dsimp only at h
    split at h
    next => cases h
    next =>
      cases h
      exact hr
  | array js => exact fill_keeps hs h hb
  | _ => cases h

end Shape

namespace Json

theorem insertByKey_of_lt {key : String} {value : Json} {sorted : List (String × Json)}
    (h : ∀ m ∈ sorted, m.1 < key) : insertByKey key value sorted = sorted ++ [(key, value)] := by
  induction sorted with
  | nil => rfl
  | cons m sorted ih =>
    obtain ⟨k, v⟩ := m
    simp only [List.mem_cons, forall_eq_or_imp] at h
    have hne : key ≠ k := fun he => String.lt_irrefl _ (he ▸ h.1)
    rw [insertByKey, if_neg hne, if_neg (String.lt_asymm h.1), ih h.2, List.cons_append]

/-- Members in ascending order of keys stay as they are written. -/
theorem byKey_of_ascending {members : List (String × Json)}
    (h : (members.map (·.1)).Pairwise (· < ·)) : byKey members = members := by
  have insert : ∀ rest sorted : List (String × Json),
      (sorted ++ rest).Pairwise (fun m n => m.1 < n.1) →
        rest.foldl (fun sorted m => insertByKey m.1 m.2 sorted) sorted = sorted ++ rest := by
    intro rest
    induction rest with
    | nil => simp
    | cons m rest ih =>
      intro sorted hs
      have hm : ∀ n ∈ sorted, n.1 < m.1 := fun n hn =>
        (List.pairwise_append.mp hs).2.2 n hn m (.head _)
      have happend : sorted ++ m :: rest = sorted ++ [m] ++ rest := by simp
      rw [List.foldl_cons, insertByKey_of_lt hm, happend]
      exact ih _ (happend ▸ hs)
  exact insert members [] (List.pairwise_map.mp h)

end Json

/-- A member of an object and the change that it makes to a record. -/
structure Entry (α : Type) where
  key : String
  value : Json
  change : α → α

/-- The member of an object that an entry stands for. -/
def Entry.member (e : Entry α) : String × Json := (e.key, e.value)

namespace Shape

variable {shape : Shape α}

/-- The slot of the member's key makes its change. -/
def Takes (shape : Shape α) (e : Entry α) : Prop :=
  ∃ slot, shape.slots.find? (·.spelled e.key) = some slot ∧ slot.key = e.key ∧
    slot.read e.value = .ok e.change

theorem takes_of_decode {e : Entry α} {slot : Slot α} {decode : Json → Except DataError β}
    {set : β → α → α} {b : β} (hf : shape.slots.find? (·.spelled e.key) = some slot)
    (hk : slot.key = e.key) (hr : ∀ j, slot.read j = (decode j).map set)
    (hd : decode e.value = .ok b) (hc : set b = e.change) : shape.Takes e := by
  refine ⟨slot, hf, hk, ?_⟩
  rw [hr, hd, ← hc]
  rfl

/-- Members of different keys make their changes in turn. -/
theorem visit_entries {entries : List (Entry α)} {seen : List String} {a : α}
    (ht : ∀ e ∈ entries, shape.Takes e) (hn : ((entries.map Entry.key).reverse ++ seen).Nodup) :
    shape.visit seen a (entries.map Entry.member) =
      .ok ((entries.map Entry.key).reverse ++ seen, entries.foldl (fun a e => e.change a) a) := by
  induction entries generalizing seen a with
  | nil => rfl
  | cons e entries ih =>
    simp only [List.mem_cons, forall_eq_or_imp] at ht
    obtain ⟨⟨slot, hf, hk, hr⟩, ht⟩ := ht
    simp only [List.map_cons, List.reverse_cons, List.append_assoc, List.singleton_append] at hn ⊢
    have hseen : slot.key ∉ seen := hk ▸ (List.nodup_cons.mp (List.nodup_append.mp hn).2.1).1
    rw [Entry.member, visit, hf]
    dsimp only
    rw [if_neg hseen, hr, hk]
    exact ih ht hn

/-- An object of ascending keys decodes to what its members make of the blank,
if no required field is left out. -/
theorem decode_object (entries : List (Entry α)) (ht : ∀ e ∈ entries, shape.Takes e)
    (hk : (entries.map Entry.key).Pairwise (· < ·))
    (hr : ∀ slot ∈ shape.slots, slot.isRequired = true → slot.key ∈ entries.map Entry.key) :
    shape.decode (.object (entries.map Entry.member)) =
      .ok (entries.foldl (fun a e => e.change a) shape.blank) := by
  have hkeys : (entries.map Entry.member).map (·.1) = entries.map Entry.key := List.map_map
  have hn : ((entries.map Entry.key).reverse ++ []).Nodup := by
    rw [List.append_nil]
    refine List.pairwise_reverse.mpr (hk.imp ?_)
    rintro k l h rfl
    exact String.lt_irrefl _ h
  have hall : shape.slots.find? (fun slot =>
      slot.isRequired && slot.key ∉ (entries.map Entry.key).reverse ++ []) = none := by
    refine List.find?_eq_none.mpr fun slot hs => ?_
    simpa using hr slot hs
  change (shape.visit [] shape.blank (Json.byKey (entries.map Entry.member))).bind _ = _
  rw [Json.byKey_of_ascending (hkeys ▸ hk), visit_entries ht hn]
  simp only [Except.bind, hall]

end Shape

end SchemaSharp
