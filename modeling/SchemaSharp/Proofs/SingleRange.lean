/-
Which float constants are in the range of their type.

A float constant is declared in single precision, but written with the digits of
a double. Its literal always has the right form and stands for a number that
rounds to the double; it is out of range exactly if the double is beyond
`2 ^ 128 - 2 ^ 103`, where single precision overflows (`below_shortest?_iff`).
Nothing that is loaded rules this out (`float_constant_exceeds_single`).
-/
import SchemaSharp.Proofs.Declaration
import SchemaSharp.Proofs.Normalized
import SchemaSharp.Proofs.Positional

namespace SchemaSharp

/-- A literal of C#'s type `float` and its value: a number in positional notation
with the suffix of single precision. -/
inductive Literal.IsFloat : String → Decimal → Prop
  | mk {cs v} (h : Decimal.Positional cs v) : IsFloat (.ofList (cs ++ ['f'])) v

/-- Halfway between the largest number of single precision and the next power of
two. Numbers from here on are out of range. -/
def singleOverflow : Nat := 2 ^ 128 - 2 ^ 103

namespace Double

/-- The size is at most the one where single precision overflows. -/
def FitsSingle (x : Double) : Prop :=
  ∀ n ∈ x.scaled?, n.natAbs ≤ singleOverflow * 2 ^ 1074

instance (x : Double) : Decidable x.FitsSingle :=
  inferInstanceAs (Decidable (∀ n ∈ x.scaled?, _))

variable {negative : Bool} {s e : Nat} {h : Encodable s e}

theorem fitsSingle_finite :
    (finite negative s e h).FitsSingle ↔ s * 2 ^ e ≤ singleOverflow * 2 ^ 1074 := by
  rw [← Numeral.natAbs_signed negative (s * 2 ^ e)]
  refine ⟨fun hx => hx _ rfl, ?_⟩
  rintro hle _ ⟨⟩
  exact hle

theorem singleOverflow_units : singleOverflow * 2 ^ 1074 = (2 ^ 25 - 1) * 2 ^ 28 * 2 ^ 1149 := by
  decide +kernel

theorem encodable_singleOverflow : Encodable ((2 ^ 25 - 1) * 2 ^ 28) 1149 := by decide

/-- The bound is written with seventeen digits, which are below it. -/
theorem shortestFor_singleOverflow (negative : Bool) :
    shortestFor .up (finite negative _ _ encodable_singleOverflow)
      (exactDecimal negative ((2 ^ 25 - 1) * 2 ^ 28) 1149) = ⟨negative, 34028235677973366, 22⟩ := by
  cases negative <;> decide +kernel

theorem below_digits (negative : Bool) :
    Decimal.Below singleOverflow ⟨negative, 34028235677973366, 22⟩ := by
  cases negative <;> (unfold Decimal.Below; decide +kernel)

variable {d : Decimal}

theorem units_le_of_below (hd : ofDecimal d = finite negative s e h)
    (hb : d.Below singleOverflow) : s * 2 ^ e ≤ singleOverflow * 2 ^ 1074 := by
  have hr := units_of_ofDecimal hd
  have hle := roundUnits_le (a := d.numerator * 2 ^ 1074) d.denominator_pos
    encodable_singleOverflow.1 (e := 1149) ?_
  · rwa [hr, ← singleOverflow_units] at hle
  · rw [← singleOverflow_units, Nat.mul_right_comm]
    exact Nat.mul_le_mul_right _ (Nat.le_of_lt hb)

theorem below_of_units_lt (hd : ofDecimal d = finite negative s e h)
    (hlt : s * 2 ^ e < singleOverflow * 2 ^ 1074) : d.Below singleOverflow := by
  have hr := units_of_ofDecimal hd
  by_contra hb
  have hle := le_roundUnits (a := d.numerator * 2 ^ 1074) d.denominator_pos
    encodable_singleOverflow.1 (e := 1149) ?_
  · rw [hr, ← singleOverflow_units] at hle
    exact Nat.not_lt.mpr hle hlt
  · rw [← singleOverflow_units, Nat.mul_right_comm]
    exact Nat.mul_le_mul_right _ (Nat.not_lt.mp hb)

/-- **The digits of a double are in the range of single precision exactly if the
double does not exceed the bound.** At the bound itself they fall short of it. -/
theorem below_shortest?_iff {x : Double} (hx : x.shortest? .up = some d) :
    d.Below singleOverflow ↔ x.FitsSingle := by
  have hd := ofDecimal_of_shortest? hx
  cases x with
  | finite negative s e h =>
    rw [fitsSingle_finite]
    refine ⟨units_le_of_below hd, fun hle => ?_⟩
    rcases Nat.lt_or_eq_of_le hle with hlt | heq
    · exact below_of_units_lt hd hlt
    · -- Rounding does not tell the bound from what is just below it; its digits do.
      rw [singleOverflow_units] at heq
      have hbound : finite negative s e h = finite negative _ _ encodable_singleOverflow :=
        eq_of_units heq
      rw [hbound] at hx
      obtain rfl := Option.some.inj hx
      rw [shortestFor_singleOverflow]
      exact below_digits negative
  | infinite negative => cases hx
  | nan => cases hx

end Double

theorem MemberValue.isFloat_constant {x : Double} (hx : x.isFinite = true) (position : Nat) :
    ∃ v, Literal.IsFloat ((float x).constant position).text v ∧ Double.ofDecimal v = x ∧
      (v.Below singleOverflow ↔ x.FitsSingle) := by
  obtain ⟨d, v, hd, hv, hsame⟩ := Double.positional_text hx
  refine ⟨v, .mk hv, ?_, ?_⟩
  · rw [Double.ofDecimal_congr hsame]
    exact Double.ofDecimal_of_shortest? hd
  · rw [hsame.below_iff]
    exact Double.below_shortest?_iff hd

theorem EnumDecl.constantLine_float (i : Nat) (name : String) (x : Double) :
    constantLine i ⟨name, .float x⟩ =
      .code 1 s!"public const float {name} = {((MemberValue.float x).constant i).text};" := by
  have h : "public const " ++ "float" ++ " " = "public const float " := rfl
  rw [constantLine, ← h]
  rfl

/-- **A float constant has a literal of its type, in range as long as the double
is.** The group of loaded members is always rendered. Every float in it has a
literal of the right form, whose value rounds to the double; and this value is in
the range of single precision if and only if the double is at most
`2 ^ 128 - 2 ^ 103` in size. -/
theorem float_constant_in_range_iff {e : EnumDecl} (hk : e.kind = .constantGroup)
    (hl : ∀ m ∈ e.members, m.value.Loaded) (table : TypeTable) (options : Options) :
    ∃ src : Source,
      (Descriptor.ofEnum e).render table options = .ok (src.text options.effectiveNamespace) ∧
      ∀ (i : Nat) (name : String) (x : Double), e.members[i]? = some ⟨name, .float x⟩ →
        ∃ (literal : String) (v : Decimal),
          src.body[i + 2]? = some (.code 1 s!"public const float {name} = {literal};") ∧
          Literal.IsFloat literal v ∧ Double.ofDecimal v = x ∧
          (v.Below (2 ^ 128 - 2 ^ 103) ↔ x.FitsSingle) := by
  refine ⟨_, map_eq_ok.mpr ⟨_, EnumDecl.constantGroup_source hk, rfl⟩, ?_⟩
  intro i name x hm
  have hfinite : x.isFinite = true := (hl _ (List.mem_of_getElem? hm)).normalized.1
  obtain ⟨v, hv, hx, hrange⟩ := MemberValue.isFloat_constant hfinite i
  refine ⟨_, v, ?_, hv, hx, hrange⟩
  rw [EnumDecl.getElem?_body _ hm, EnumDecl.constantLine_float]

/-- A group with a small fraction. -/
def dragGroup : EnumDecl := ⟨"Physics", .constantGroup, [⟨"Drag", .classify (some "-0.25")⟩]⟩

theorem dragGroup_loaded : ∀ m ∈ dragGroup.members, m.value.Loaded := by
  simp only [dragGroup, List.mem_cons, List.not_mem_nil, or_false, forall_eq]
  exact .inl ⟨_, rfl⟩

/-- The constant of a small fraction is in range. -/
theorem float_constant_in_range_drag :
    dragGroup.kind = .constantGroup ∧ (∀ m ∈ dragGroup.members, m.value.Loaded) ∧
    ∃ src : Source, (Descriptor.ofEnum dragGroup).render .primitives {} = .ok (src.text none) ∧
      ∃ (literal : String) (v : Decimal),
        src.body[2]? = some (.code 1 s!"public const float Drag = {literal};") ∧
        Literal.IsFloat literal v ∧ v.Below (2 ^ 128 - 2 ^ 103) := by
  obtain ⟨src, hr, hfloats⟩ := float_constant_in_range_iff rfl dragGroup_loaded .primitives {}
  have hvalue : MemberValue.classify (some "-0.25") = .float (.ofDecimal ⟨true, 25, -2⟩) := by
    decide +kernel
  have hm : dragGroup.members[0]? = some ⟨"Drag", .float (.ofDecimal ⟨true, 25, -2⟩)⟩ := by
    rw [← hvalue]
    rfl
  obtain ⟨literal, v, hline, hv, _, hrange⟩ := hfloats _ _ _ hm
  have hfits : (Double.ofDecimal ⟨true, 25, -2⟩).FitsSingle := by decide +kernel
  exact ⟨rfl, dragGroup_loaded, src, hr, literal, v, hline, hv, hrange.mpr hfits⟩

/-- A double beyond single precision. -/
def hugeGroup : EnumDecl := ⟨"Limits", .constantGroup, [⟨"Huge", .classify (some "1e39")⟩]⟩

/-- A float constant can be out of the range of its type. -/
theorem float_constant_exceeds_single :
    ¬ ∀ (e : EnumDecl) (src : Source), e.kind = .constantGroup →
      (∀ m ∈ e.members, m.value.Loaded) → e.source = .ok src →
      ∀ (i : Nat) (name : String) (x : Double), e.members[i]? = some ⟨name, .float x⟩ →
        ∀ (literal : String) (v : Decimal),
          src.body[i + 2]? = some (.code 1 s!"public const float {name} = {literal};") →
          Literal.IsFloat literal v → v.Below (2 ^ 128 - 2 ^ 103) := by
  intro h
  have hl : ∀ m ∈ hugeGroup.members, m.value.Loaded := by
    simp only [hugeGroup, List.mem_cons, List.not_mem_nil, or_false, forall_eq]
    exact .inl ⟨_, rfl⟩
  have hvalue : MemberValue.classify (some "1e39") = .float (.ofDecimal ⟨false, 1, 39⟩) := by
    decide +kernel
  have hm : hugeGroup.members[0]? = some ⟨"Huge", .float (.ofDecimal ⟨false, 1, 39⟩)⟩ := by
    rw [← hvalue]
    rfl
  have hfinite : (Double.ofDecimal ⟨false, 1, 39⟩).isFinite = true := by decide +kernel
  have hexceeds : ¬(Double.ofDecimal ⟨false, 1, 39⟩).FitsSingle := by decide +kernel
  obtain ⟨v, hv, _, hrange⟩ := MemberValue.isFloat_constant hfinite 0
  refine hexceeds (hrange.mp (h hugeGroup _ rfl hl (EnumDecl.constantGroup_source rfl) _ _ _ hm
    _ v ?_ hv))
  rw [EnumDecl.getElem?_body _ hm, EnumDecl.constantLine_float]

end SchemaSharp
