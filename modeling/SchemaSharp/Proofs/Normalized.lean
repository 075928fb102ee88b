/-
Which schemas come from JSON.

Loading settles whether a child type is user-defined and what an enum member
is worth; all else can be written as it is to be. `Schema.Normalized` says
what is settled, value by value. Every loaded schema is normalized, since each slot of
each record keeps it so (`normalized_of_decode`).
-/
import SchemaSharp.Schema.Load
import SchemaSharp.Proofs.Decoding
import SchemaSharp.Proofs.MemberValue
import SchemaSharp.Proofs.Rounding

namespace SchemaSharp

/-- A child type is user-defined if its name starts with one of the letters A
to Z, and only then. -/
def ChildType.Normalized (child : ChildType) : Prop :=
  child.userDefined = true ↔ ∃ c cs, child.name.toList = c :: cs ∧ 'A' ≤ c ∧ c ≤ 'Z'

/-- Whole numbers of 64 bits are integers, and text is what it would be
classified as. -/
def MemberValue.Normalized : MemberValue → Prop
  | integer _ => True
  | float x => x.isFinite = true ∧ ∀ n, x.toInt? = some n → ¬Numeral.FitsInt64 n
  | text t => t ≠ "" ∧ classify (some t) = text t
  | positional => True

/-- The child type is user-defined exactly if its name says so. -/
def Property.Normalized (p : Property) : Prop := ∀ child, p.child = some child → child.Normalized

/-- All properties and all values of members are normalized. -/
structure Schema.Normalized (s : Schema) : Prop where
  classes : ∀ c ∈ s.classes, ∀ p ∈ c.properties, p.Normalized
  interfaces : ∀ i ∈ s.interfaces, ∀ p ∈ i.properties, p.Normalized
  enums : ∀ e ∈ s.enums, ∀ m ∈ e.members, m.value.Normalized

theorem ChildType.isUserDefined_iff {name : String} :
    isUserDefined name = true ↔ ∃ c cs, name.toList = c :: cs ∧ 'A' ≤ c ∧ c ≤ 'Z' := by
  unfold isUserDefined
  cases name.toList with
  | nil => simp
  | cons c cs => simp

theorem ChildType.normalized_iff {child : ChildType} :
    child.Normalized ↔ ofName child.name = child := by
  cases child with
  | mk name userDefined =>
    rw [Normalized, ← isUserDefined_iff, ← Bool.eq_iff_iff, ofName, mk.injEq]
    simp [eq_comm]

theorem ChildType.normalized_of_decode {j : Json} {child : ChildType}
    (h : decode j = .ok child) : child.Normalized := by
  obtain ⟨name, _, rfl⟩ := map_eq_ok.mp h
  exact normalized_iff.mpr rfl

namespace MemberValue

theorem normalized_ofDouble {x : Double} (h : x.isFinite = true) : (ofDouble x).Normalized := by
  rcases ofDouble_cases x with ⟨n, _, _, hx⟩ | ⟨hn, hx⟩
  · rw [hx]
    trivial
  · rw [hx]
    exact ⟨h, hn⟩

/-- Past the integers of 64 bits, a whole number that JSON holds is finite as
a double. -/
theorem normalized_ofInt {n : Int} (h : -(2 ^ 63) ≤ n ∧ n < 2 ^ 64) : (ofInt n).Normalized := by
  unfold ofInt
  split
  · trivial
  · exact normalized_ofDouble (Double.isFinite_ofInt (by omega))

theorem normalized_classify (declared : Option String) : (classify declared).Normalized := by
  rcases classify_cases declared with h | ⟨n, h⟩ | ⟨x, hx, h⟩ | ⟨t, rfl, h⟩
  · rw [h]
    trivial
  · rw [h]
    trivial
  · rw [h]
    exact normalized_ofDouble hx
  · rw [h]
    refine ⟨?_, h⟩
    rintro rfl
    cases h

theorem normalized_of_decode {j : Json} {v : MemberValue} (h : decode j = .ok v) :
    v.Normalized := by
  unfold decode at h
  split at h
  next =>
    cases h
    trivial
  next n hn =>
    cases h
    exact normalized_ofInt hn
  next x hx =>
    cases h
    exact normalized_ofDouble hx
  next s =>
    cases h
    exact normalized_classify (some s)
  next => cases h

theorem Loaded.normalized {v : MemberValue} (h : Loaded v) : v.Normalized := by
  rcases h with ⟨declared, rfl⟩ | ⟨j, h⟩
  · exact normalized_classify declared
  · exact normalized_of_decode h

end MemberValue

theorem Property.normalized_of_decode {j : Json} {p : Property} (h : decode j = .ok p) :
    p.Normalized := by
  refine Shape.decode_keeps (P := Normalized) (fun child hc => by cases hc) ?_ h
  simp only [shape, List.mem_cons, List.not_mem_nil, or_false, forall_eq_or_imp, forall_eq]
  refine ⟨?_, ?_, ?_, Slot.keeps_of_set (fun _ => rfl) ?child, ?_, ?_⟩
  case child =>
    intro j o ho p _
    exact Decode.forall_of_optional (fun _ _ => ChildType.normalized_of_decode) ho
  all_goals exact Slot.keeps_of_unrelated (fun _ => rfl) fun _ _ hp => hp

theorem ClassDecl.normalized_of_decode {j : Json} {c : ClassDecl} (h : decode j = .ok c) :
    ∀ p ∈ c.properties, p.Normalized := by
  refine Shape.decode_keeps (P := fun c => ∀ p ∈ c.properties, p.Normalized) (by simp [shape]) ?_ h
  simp only [shape, List.mem_cons, List.not_mem_nil, or_false, forall_eq_or_imp, forall_eq]
  refine ⟨?_, ?_, Slot.keeps_of_set (fun _ => rfl) ?properties⟩
  case properties =>
    intro j ps hps c _
    exact Decode.forall_of_list (fun _ _ => Property.normalized_of_decode) hps
  all_goals exact Slot.keeps_of_unrelated (fun _ => rfl) fun _ _ hc => hc

theorem InterfaceDecl.normalized_of_decode {j : Json} {i : InterfaceDecl} (h : decode j = .ok i) :
    ∀ p ∈ i.properties, p.Normalized := by
  refine Shape.decode_keeps (P := fun i => ∀ p ∈ i.properties, p.Normalized) (by simp [shape]) ?_ h
  simp only [shape, List.mem_cons, List.not_mem_nil, or_false, forall_eq_or_imp, forall_eq]
  refine ⟨?_, Slot.keeps_of_set (fun _ => rfl) ?properties⟩
  case properties =>
    intro j ps hps i _
    exact Decode.forall_of_list (fun _ _ => Property.normalized_of_decode) hps
  all_goals exact Slot.keeps_of_unrelated (fun _ => rfl) fun _ _ hi => hi

theorem Member.normalized_of_decode {j : Json} {m : Member} (h : decode j = .ok m) :
    m.value.Normalized := by
  refine Shape.decode_keeps (P := fun m => m.value.Normalized) trivial ?_ h
  simp only [shape, List.mem_cons, List.not_mem_nil, or_false, forall_eq_or_imp, forall_eq]
  refine ⟨?_, Slot.keeps_of_set (fun _ => rfl) ?value⟩
  case value =>
    intro j v hv m _
    exact MemberValue.normalized_of_decode hv
  all_goals exact Slot.keeps_of_unrelated (fun _ => rfl) fun _ _ hm => hm

theorem EnumDecl.normalized_of_decode {j : Json} {e : EnumDecl} (h : decode j = .ok e) :
    ∀ m ∈ e.members, m.value.Normalized := by
  obtain ⟨draft, hd, rfl⟩ := map_eq_ok.mp h
  refine Shape.decode_keeps (P := fun draft => ∀ m ∈ draft.members, m.value.Normalized)
    (by simp [EnumDraft.shape]) ?_ hd
  simp only [EnumDraft.shape, List.mem_cons, List.not_mem_nil, or_false, forall_eq_or_imp,
    forall_eq]
  refine ⟨?_, ?_, Slot.keeps_of_set (fun _ => rfl) ?members⟩
  case members =>
    intro j ms hms e _
    exact Decode.forall_of_list (fun _ _ => Member.normalized_of_decode) hms
  all_goals exact Slot.keeps_of_unrelated (fun _ => rfl) fun _ _ he => he

/-- **Every decoded schema is normalized.** -/
theorem Schema.normalized_of_decode {j : Json} {s : Schema} (h : decode j = .ok s) :
    s.Normalized := by
  refine Shape.decode_keeps (P := Normalized) ⟨by simp [shape], by simp [shape], by simp [shape]⟩ ?_ h
  simp only [shape, List.mem_cons, List.not_mem_nil, or_false, forall_eq_or_imp, forall_eq]
  refine ⟨Slot.keeps_of_set (fun _ => rfl) ?classes, Slot.keeps_of_set (fun _ => rfl) ?interfaces,
    Slot.keeps_of_set (fun _ => rfl) ?enums⟩
  case classes =>
    intro j cs hcs s hs
    exact ⟨Decode.forall_of_list (fun _ _ => ClassDecl.normalized_of_decode) hcs, hs.interfaces,
      hs.enums⟩
  case interfaces =>
    intro j is his s hs
    exact ⟨hs.classes, Decode.forall_of_list (fun _ _ => InterfaceDecl.normalized_of_decode) his,
      hs.enums⟩
  case enums =>
    intro j es hes s hs
    exact ⟨hs.classes, hs.interfaces,
      Decode.forall_of_list (fun _ _ => EnumDecl.normalized_of_decode) hes⟩

theorem Schema.decode_of_ofJson {j : Json} {s : Schema} (h : ofJson j = .ok s) :
    decode j = .ok s := by
  cases j with
  | object members => exact mapError_eq_ok.mp h
  | _ => cases h

theorem Schema.normalized_of_ofJson {j : Json} {s : Schema} (h : ofJson j = .ok s) :
    s.Normalized :=
  normalized_of_decode (decode_of_ofJson h)

theorem Schema.exists_decode_of_load {text : String} {s : Schema} (h : load text = .ok s) :
    ∃ j, decode j = .ok s := by
  unfold load at h
  split at h
  next => cases h
  next j _ => exact ⟨j, decode_of_ofJson h⟩

theorem Schema.normalized_of_load {text : String} {s : Schema} (h : load text = .ok s) :
    s.Normalized := by
  obtain ⟨j, hj⟩ := exists_decode_of_load h
  exact normalized_of_decode hj

end SchemaSharp
