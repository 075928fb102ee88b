/-
Equality of enums.

Floats are compared by value, so equality of member values is not identity: a NaN
differs from itself, and the two zeros are equal but written differently. There are no
other exceptions (`MemberValue.settled_iff`), and no value that is classified or decoded
is one of them. So equality of such enums is identity: it is an equivalence, and
equal enums are interchangeable (`EnumDecl.agrees_classified`).
-/
import SchemaSharp.CSharp.Declaration
import SchemaSharp.Proofs.Normalized

namespace SchemaSharp

namespace Double

variable {x y : Double}

theorem ieeeEq_of_scaled {m n : Int} (hx : x.scaled? = some m) (hy : y.scaled? = some n) :
    x.ieeeEq y = true ↔ m = n := by
  unfold ieeeEq
  split
  next => cases hx
  next => simp [hx, hy]

/-- **Equality by value is identity but for NaN and zeros.** -/
theorem ieeeEq_iff :
    x.ieeeEq y = true ↔ (x = y ∧ x ≠ nan) ∨ (x.scaled? = some 0 ∧ y.scaled? = some 0) := by
  cases x with
  | finite negative s e h =>
    cases y with
    | finite negative' s' e' h' =>
      rw [ieeeEq_of_scaled rfl rfl]
      refine ⟨fun hm => ?_, ?_⟩
      · by_cases hz : Numeral.signed negative (s * 2 ^ e) = 0
        · exact .inr ⟨congrArg some hz, congrArg some (hm.symm.trans hz)⟩
        · exact .inl ⟨eq_of_scaled rfl (congrArg some hm.symm) hz, nofun⟩
      · rintro (⟨heq, _⟩ | ⟨hz, hz'⟩)
        · exact Option.some.inj (congrArg scaled? heq)
        · exact (Option.some.inj hz).trans (Option.some.inj hz').symm
    | infinite negative' => simp [ieeeEq, scaled?]
    | nan => simp [ieeeEq, scaled?]
  | infinite negative => cases y <;> simp [ieeeEq, scaled?]
  | nan => cases y <;> simp [ieeeEq, scaled?]

end Double

namespace MemberValue

/-- A value that is not a NaN or a zero as a float. -/
def Settled : MemberValue → Prop
  | float x => x ≠ .nan ∧ x.scaled? ≠ some 0
  | _ => True

variable {v w : MemberValue}

theorem agrees_float {x y : Double} : (float x).agrees (float y) = x.ieeeEq y := rfl

theorem agrees_iff_of_settled (h : v.Settled) : v.agrees w = true ↔ v = w := by
  cases v with
  | integer m =>
    cases w with
    | integer n => exact beq_iff_eq.trans (iff_of_eq (integer.injEq m n).symm)
    | _ => exact iff_of_false Bool.false_ne_true nofun
  | float x =>
    cases w with
    | float y =>
      rw [agrees_float, Double.ieeeEq_iff, float.injEq, and_iff_left h.1]
      exact or_iff_left fun hz => h.2 hz.1
    | _ => exact iff_of_false Bool.false_ne_true nofun
  | text s =>
    cases w with
    | text t => exact beq_iff_eq.trans (iff_of_eq (text.injEq s t).symm)
    | _ => exact iff_of_false Bool.false_ne_true nofun
  | positional =>
    cases w with
    | positional => exact iff_of_true rfl rfl
    | _ => exact iff_of_false Bool.false_ne_true nofun

/-- **The settled values are those that are equal to themselves and to nothing else.** -/
theorem settled_iff : v.Settled ↔ ∀ w, v.agrees w = true ↔ v = w := by
  refine ⟨fun h w => agrees_iff_of_settled h, fun h => ?_⟩
  cases v with
  | float x =>
    refine ⟨?_, fun hz => ?_⟩
    · rintro rfl
      exact absurd ((h _).mpr rfl) (by decide)
    · -- The zero of the other sign is equal as well.
      cases x with
      | finite negative s e henc =>
        have hother : (Double.finite (!negative) s e henc).scaled? = some 0 := by
          change some (Numeral.signed (!negative) (s * 2 ^ e)) = some 0
          rw [Numeral.signed_not]
          exact congrArg (some ∘ Neg.neg) (Option.some.inj hz)
        have hagrees : (float (.finite negative s e henc)).agrees
            (float (.finite (!negative) s e henc)) = true :=
          Double.ieeeEq_iff.mpr (.inr ⟨hz, hother⟩)
        have hsign := (h _).mp hagrees
        simp at hsign
      | infinite negative => cases hz
      | nan => cases hz
  | _ => trivial

/-- The two zeros are equal, but each is written with its sign. -/
example (h : Encodable 0 0) :
    (float (.finite false 0 0 h)).agrees (float (.finite true 0 0 h)) = true ∧
      ((float (.finite false 0 0 h)).literal 0).text = "0" ∧
      ((float (.finite true 0 0 h)).literal 0).text = "-0" := by
  decide +kernel +revert

theorem settled_ofDouble {x : Double} (h : x ≠ .nan) : (ofDouble x).Settled := by
  rcases ofDouble_cases x with ⟨n, _, _, hx⟩ | ⟨_, hx⟩
  · rw [hx]
    trivial
  · rw [hx]
    refine ⟨h, fun hz => ?_⟩
    rw [ofDouble_of_zero hz] at hx
    cases hx

theorem Normalized.settled (h : v.Normalized) : v.Settled := by
  cases v with
  | float x =>
    have hx : ofDouble x = float x := ofDouble_of_not_fitsInt64 h.2
    rw [← hx]
    refine settled_ofDouble ?_
    rintro rfl
    cases h.1
  | _ => trivial

end MemberValue

/-- Members that are decoded, and members with a value that text or a number other than
NaN is classified as. -/
inductive Member.Classified : Member → Prop
  | decoded {j m} (h : Member.decode j = .ok m) : Classified m
  | declared (name : String) (text : Option String) : Classified (.ofDeclared name text)
  | number (name : String) {x : Double} (h : x ≠ .nan) : Classified ⟨name, .ofDouble x⟩

theorem Member.Classified.settled {m : Member} (h : m.Classified) : m.value.Settled := by
  cases h with
  | decoded h => exact (normalized_of_decode h).settled
  | declared name text => exact (MemberValue.normalized_classify text).settled
  | number name h => exact MemberValue.settled_ofDouble h

theorem Member.agrees_iff {m n : Member} (h : m.value.Settled) : m.agrees n = true ↔ m = n := by
  rw [Member.agrees, Bool.and_eq_true, beq_iff_eq, MemberValue.agrees_iff_of_settled h]
  cases m
  cases n
  rw [Member.mk.injEq]

namespace EnumDecl

/-- All members are decoded, or have a classified value. -/
def Classified (e : EnumDecl) : Prop := ∀ m ∈ e.members, m.Classified

theorem classified_of_decode {j : Json} {e : EnumDecl} (h : decode j = .ok e) : e.Classified := by
  obtain ⟨draft, hd, rfl⟩ := map_eq_ok.mp h
  refine Shape.decode_keeps (P := fun draft => ∀ m ∈ draft.members, m.Classified)
    (by simp [EnumDraft.shape]) ?_ hd
  simp only [EnumDraft.shape, List.mem_cons, List.not_mem_nil, or_false, forall_eq_or_imp,
    forall_eq]
  refine ⟨?_, ?_, Slot.keeps_of_set (fun _ => rfl) ?members⟩
  case members =>
    intro j ms hms e _
    exact Decode.forall_of_list (fun _ _ => .decoded) hms
  all_goals exact Slot.keeps_of_unrelated (fun _ => rfl) fun _ _ he => he

end EnumDecl

namespace Schema

theorem classified_of_decode {j : Json} {s : Schema} (h : decode j = .ok s) :
    ∀ e ∈ s.enums, e.Classified := by
  refine Shape.decode_keeps (P := fun s => ∀ e ∈ s.enums, e.Classified) (by simp [shape]) ?_ h
  simp only [shape, List.mem_cons, List.not_mem_nil, or_false, forall_eq_or_imp, forall_eq]
  refine ⟨?_, ?_, Slot.keeps_of_set (fun _ => rfl) ?enums⟩
  case enums =>
    intro j es hes s _
    exact Decode.forall_of_list (fun _ _ => EnumDecl.classified_of_decode) hes
  all_goals exact Slot.keeps_of_unrelated (fun _ => rfl) fun _ _ hs => hs

end Schema

namespace EnumDecl

theorem members_agree_iff {ms ns : List Member} (h : ∀ m ∈ ms, m.value.Settled) :
    ms.length = ns.length ∧ ((ms.zip ns).all fun (m, n) => m.agrees n) = true ↔ ms = ns := by
  induction ms generalizing ns with
  | nil => cases ns <;> simp
  | cons m ms ih =>
    rw [List.forall_mem_cons] at h
    cases ns with
    | nil => simp
    | cons n ns =>
      rw [List.cons.injEq, ← ih h.2, ← Member.agrees_iff h.1]
      simp only [List.length_cons, Nat.add_right_cancel_iff, List.zip_cons_cons, List.all_cons,
        Bool.and_eq_true]
      exact and_left_comm

theorem agrees_iff {a b : EnumDecl} (h : ∀ m ∈ a.members, m.value.Settled) :
    a.agrees b = true ↔ a = b := by
  simp only [agrees, Bool.and_eq_true, beq_iff_eq]
  rw [and_assoc, members_agree_iff h]
  cases a
  cases b
  rw [EnumDecl.mk.injEq, and_assoc]

/-- **Equality of classified enums is an equivalence, and equal ones are interchangeable.**
All enums of a loaded schema and all that are decoded on their own have classified members.
Among such enums and among their members equality is reflexive, symmetric and transitive,
and an enum that is equal to one of them is rendered alike, text or error. -/
theorem agrees_classified :
    (∀ text s, Schema.load text = .ok s → ∀ e ∈ s.enums, e.Classified) ∧
    (∀ j e, decode j = .ok e → e.Classified) ∧
    (Equivalence fun a b : {e : EnumDecl // e.Classified} => a.val.agrees b.val = true) ∧
    (Equivalence fun m n : {m : Member // m.Classified} => m.val.agrees n.val = true) ∧
    ∀ a b : EnumDecl, a.Classified → a.agrees b = true → ∀ table options,
      (Descriptor.ofEnum a).render table options = (Descriptor.ofEnum b).render table options := by
  have henums : (fun a b : {e : EnumDecl // e.Classified} => a.val.agrees b.val = true) = Eq := by
    funext a b
    exact propext ((agrees_iff fun m hm => (a.property m hm).settled).trans Subtype.ext_iff.symm)
  have hmembers : (fun m n : {m : Member // m.Classified} => m.val.agrees n.val = true) = Eq := by
    funext m n
    exact propext ((Member.agrees_iff m.property.settled).trans Subtype.ext_iff.symm)
  refine ⟨fun text s h => ?_, fun j e => classified_of_decode, henums ▸ eq_equivalence,
    hmembers ▸ eq_equivalence, fun a b ha h table options => ?_⟩
  · obtain ⟨j, hj⟩ := Schema.exists_decode_of_load h
    exact Schema.classified_of_decode hj
  · rw [(agrees_iff fun m hm => (ha m hm).settled).mp h]

/-- A fraction, a zero and a number past 64 bits, as text and as numbers. -/
def tideGroup : EnumDecl :=
  ⟨"Tide", .constantGroup, [⟨"Ebb", .classify (some " -0.50")⟩, ⟨"Slack", .classify (some "-0.0")⟩,
    ⟨"Flood", .ofDouble (.ofInt (10 ^ 20))⟩]⟩

theorem agrees_classified_tide :
    let text := "\x7b\"enums\": [[\"Tide\", null, [[\"Ebb\", -5e-1], [\"Slack\", \"0x0\"], " ++
      "\x7b\"name\": \"Flood\", \"value\": \"1e20\"\x7d]]]\x7d"
    ∃ s e, Schema.load text = .ok s ∧ e ∈ s.enums ∧ e.Classified ∧ e.agrees tideGroup = true ∧
      ∀ options, (Descriptor.ofEnum e).render .primitives options =
        (Descriptor.ofEnum tideGroup).render .primitives options := by
  intro text
  obtain ⟨hloaded, _, _, _, hrender⟩ := agrees_classified
  have hload : Schema.load text = .ok ⟨[], [], [tideGroup]⟩ := by decide +kernel
  have hclassified := hloaded text _ hload _ (.head _)
  have hagrees : tideGroup.agrees tideGroup = true := by decide +kernel
  exact ⟨_, _, hload, .head _, hclassified, hagrees, hrender _ _ hclassified hagrees _⟩

end EnumDecl

end SchemaSharp
