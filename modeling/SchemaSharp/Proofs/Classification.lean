/-
Numbers classified from their text.

Text that is a number in positional notation is classified as what a literal
with these characters is worth (`classify_of_positional`): there is no blank to leave
out and no marker of a base, the digits are read as a whole number first, and what is
none or does not fit 64 bits is rounded as a decimal. So the literal of a number
that was loaded, declared again, is the same number (`classify_literal`), and every
integer and every double that is no integer comes out of some text
(`loaded_iff_normalized`).
-/
import SchemaSharp.Proofs.Blank
import SchemaSharp.Proofs.LiteralValue

namespace SchemaSharp

namespace Numeral

theorem digit?_ten (c : Char) :
    digit? 10 c = if c.isDigit then some (c.toNat - '0'.toNat) else none := by
  have hdigit : ('0' ≤ c ∧ c ≤ '9') ↔ c.isDigit = true := by
    simp [Char.isDigit, Char.le_def]
  unfold digit?
  simp only [hdigit]
  by_cases hc : c.isDigit = true
  · have hlt : c.toNat - '0'.toNat < 10 := by
      have h9 := (Char.isDigit_iff_toNat.mp hc).2
      change c.toNat ≤ 57 at h9
      change c.toNat - 48 < 10
      omega
    rw [if_pos hc, if_pos hc, Option.filter_some_pos (by simpa using hlt)]
  · -- The letters go on from ten.
    rw [if_neg hc, if_neg hc]
    split
    · rw [Option.filter_some_neg (by simp)]
    · split
      · rw [Option.filter_some_neg (by simp)]
      · rfl

theorem continue?_ten (cs : List Char) : ∀ n, continue? 10 n cs =
    if cs.all Char.isDigit then some (Nat.ofDigitChars 10 cs n) else none := by
  induction cs with
  | nil => exact fun n => rfl
  | cons c cs ih =>
    intro n
    rw [continue?, digit?_ten, List.all_cons]
    by_cases hc : c.isDigit = true
    · rw [if_pos hc, Option.bind_some, ih, hc, Bool.true_and, Nat.ofDigitChars_cons,
        Nat.mul_comm 10]
    · rw [if_neg hc, Bool.eq_false_iff.mpr hc]
      rfl

theorem natural?_ten (cs : List Char) : natural? 10 cs = digits? cs := by
  cases cs with
  | nil => rfl
  | cons c cs => exact continue?_ten (c :: cs) 0

/-- Apart from a plus sign, which no written number has, numbers in base ten are
whole numbers. -/
theorem integer?_ten {cs : List Char} (h : '+' ∉ cs) : integer? 10 cs = whole? cs := by
  rw [integer?_eq, natural?_ten]
  cases cs with
  | nil => rfl
  | cons c cs =>
    by_cases hminus : c = '-'
    · subst hminus
      rfl
    · have hplus : c ≠ '+' := fun hc => h (hc ▸ .head cs)
      have hsign : sign (c :: cs) = (false, c :: cs) := by simp [sign, hminus, hplus]
      rw [hsign, whole?_cons_of_ne cs hminus]

theorem int64?_ten {cs : List Char} (h : '+' ∉ cs) :
    int64? 10 cs = (whole? cs).bind fun n => if FitsInt64 n then some (.ofInt n) else none := by
  rw [int64?, integer?_ten h]

end Numeral

namespace Decimal

theorem IsDigits.head_append {ds : List Char} (hd : IsDigits ds) (rest : List Char) :
    ∃ c, (ds ++ rest).head? = some c ∧ c.isDigit = true := by
  obtain ⟨hne, hdigits⟩ := hd
  cases ds with
  | nil => exact absurd rfl hne
  | cons c ds => exact ⟨c, rfl, hdigits c (.head _)⟩

theorem digits?_of_isDigits {ds : List Char} (h : IsDigits ds) :
    Numeral.digits? ds = some (Nat.ofDigitChars 10 ds 0) := by
  have hne : ds.isEmpty = false := List.isEmpty_eq_false_iff.mpr h.1
  have hall : ds.all Char.isDigit = true := List.all_eq_true.mpr h.2
  rw [Numeral.digits?, hne, hall]
  rfl

theorem whole?_signText (negative : Bool) {cs : List Char}
    (h : ∃ c, cs.head? = some c ∧ c.isDigit = true) :
    Numeral.whole? (signText negative ++ cs) =
      (Numeral.digits? cs).map (Numeral.signed negative) := by
  obtain ⟨c, hc, hdigit⟩ := h
  have hne : c ≠ '-' := by
    rintro rfl
    exact absurd hdigit (by decide)
  rw [← Numeral.whole?_signed negative ⟨c, hc, hne⟩]
  cases negative <;> rfl

theorem Positional.of_whole? {cs : List Char} {v : Decimal} {n : Int} (h : Positional cs v)
    (hn : Numeral.whole? cs = some n) :
    v.exponent = 0 ∧ n = Numeral.signed v.negative v.coefficient := by
  cases h with
  | @whole negative ds hd =>
    have hhead : ∃ c, ds.head? = some c ∧ c.isDigit = true := by simpa using hd.head_append []
    rw [whole?_signText negative hhead, digits?_of_isDigits hd] at hn
    exact ⟨rfl, (Option.some.inj hn).symm⟩
  | @fraction negative ds fs hd hf =>
    have hpoint : '.' ∈ ds ++ '.' :: fs := List.mem_append_right _ (.head _)
    rw [whole?_signText negative (hd.head_append _),
      Numeral.digits?_eq_none hpoint (by decide)] at hn
    cases hn

theorem ofInt_eq_signText (n : Int) :
    Numeral.ofInt n = signText (n < 0) ++ Nat.toDigits 10 n.natAbs := by
  unfold Numeral.ofInt signText
  by_cases hn : n < 0 <;> simp [hn]

theorem positional_ofInt (n : Int) : Positional (Numeral.ofInt n) ⟨n < 0, n.natAbs, 0⟩ := by
  have h := Positional.whole (n < 0) (isDigits_toDigits n.natAbs)
  rw [Nat.ofDigitChars_ten_toDigits] at h
  rw [ofInt_eq_signText]
  exact h

theorem Positional.ne_nil {cs : List Char} {v : Decimal} (h : Positional cs v) : cs ≠ [] := by
  rintro rfl
  have hread := h.read?
  cases hread

end Decimal

namespace Text

theorem isBlank_of_isDigit {c : Char} (h : c.isDigit = true) : isBlank c = false := by
  have all : ∀ k < 10, isBlank (.ofNat ('0'.toNat + k)) = false := by decide
  obtain ⟨hlow, hhigh⟩ := Char.isDigit_iff_toNat.mp h
  have hc : '0'.toNat + (c.toNat - '0'.toNat) = c.toNat := Nat.add_sub_cancel' hlow
  have hlt : c.toNat - '0'.toNat < 10 := Nat.sub_lt_left_of_lt_add hlow (Nat.lt_succ_of_le hhigh)
  have hblank := all _ hlt
  rwa [hc, Char.ofNat_toNat] at hblank

end Text

namespace MemberValue

/-- The letters that stand for a base behind a zero. -/
inductive Mark : Char → Nat → Prop
  | lowerHex : Mark 'x' 16
  | upperHex : Mark 'X' 16
  | lowerOctal : Mark 'o' 8
  | upperOctal : Mark 'O' 8
  | lowerBinary : Mark 'b' 2
  | upperBinary : Mark 'B' 2

/-- Text that starts with the marker of a base. -/
inductive Marked : List Char → Prop
  | intro {c base} (hm : Mark c base) (rest) : Marked ('0' :: c :: rest)

variable {c : Char} {base : Nat} {cs : List Char}

theorem Mark.base_le (hm : Mark c base) : base ≤ 16 := by
  cases hm <;> decide

theorem integerText?_of_mark (hm : Mark c base) (rest : List Char) :
    integerText? ('0' :: c :: rest) = Numeral.int64? base rest := by
  cases hm <;> rfl

theorem integerText?_of_not_marked (h : ¬Marked cs) :
    integerText? cs = Numeral.int64? 10 cs := by
  unfold integerText?
  split
  · exact absurd (.intro .lowerHex _) h
  · exact absurd (.intro .upperHex _) h
  · exact absurd (.intro .lowerOctal _) h
  · exact absurd (.intro .upperOctal _) h
  · exact absurd (.intro .lowerBinary _) h
  · exact absurd (.intro .upperBinary _) h
  · rfl

theorem read?_of_mark (hm : Mark c base) (rest : List Char) :
    Decimal.read? ('0' :: c :: rest) = none := by
  cases hm <;> rfl

variable {v : Decimal}

theorem integerText?_of_positional (h : Decimal.Positional cs v) :
    integerText? cs = Numeral.int64? 10 cs := by
  refine integerText?_of_not_marked ?_
  rintro ⟨hm, rest⟩
  have hletter := h.mem _ (.tail _ (.head rest))
  cases hm <;> exact absurd hletter (by decide)

theorem number?_of_positional (h : Decimal.Positional cs v)
    (hx : (Double.ofDecimal v).isFinite = true) : number? cs = Literal.value? cs := by
  have hplus : '+' ∉ cs := fun hc => absurd (h.mem '+' hc) (by decide)
  unfold number? Literal.value?
  rw [integerText?_of_positional h, Numeral.int64?_ten hplus,
    Literal.readLiteral?_of_positional h, h.read?]
  cases hn : Numeral.whole? cs with
  | none => simp [hx]
  | some n =>
    by_cases hfit : Numeral.FitsInt64 n
    · simp [hfit, ofInt]
    · obtain ⟨he, rfl⟩ := h.of_whole? hn
      have hdouble : Double.ofInt (Numeral.signed v.negative v.coefficient) =
          Double.ofDecimal v := by
        rw [Double.ofInt_signed _ (Double.pos_of_not_fitsInt64 hfit),
          Double.ofDecimal_of_units (w := 0) (Nat.mul_one _).symm he]
      simp [hfit, ofInt, hdouble, hx]

/-- **Text in positional notation is classified as what a literal of it is worth.** -/
theorem classify_of_positional {w : MemberValue} (h : Decimal.Positional cs v)
    (hx : (Double.ofDecimal v).isFinite = true) (hw : Literal.value? cs = some w) :
    classify (some (.ofList cs)) = w := by
  have hblank : ∀ c ∈ cs, Text.isBlank c = false := by
    intro c hc
    rcases h.mem c hc with rfl | rfl | hdigit
    · decide
    · decide
    · exact Text.isBlank_of_isDigit hdigit
  have hne : String.ofList cs ≠ "" := by
    intro hempty
    exact h.ne_nil (by simpa using congrArg String.toList hempty)
  rw [classify, if_neg hne, String.toList_ofList, Text.trim_of_not_blank hblank, if_neg h.ne_nil,
    number?_of_positional h hx, hw, Option.getD_some]

theorem classify_intText {n : Int} (h : (Double.ofInt n).isFinite = true) :
    classify (some (Numeral.intText n)) = ofInt n := by
  have hvalue := Literal.value?_of_whole? (Numeral.whole?_intText n)
  rw [Numeral.intText, String.toList_ofList] at hvalue
  refine classify_of_positional (Decimal.positional_ofInt n) ?_ hvalue
  rwa [Double.ofDecimal_of_units (w := 0) (Nat.mul_one _).symm rfl]

theorem classify_text {x : Double} (hx : (float x).Normalized) :
    classify (some (.ofList x.text)) = float x := by
  obtain ⟨v, hv, hback⟩ := Double.ofDecimal_of_text hx.1
  exact classify_of_positional hv (hback ▸ hx.1) (Literal.value?_text hx)

variable {v : MemberValue}

theorem classify_literal_of_normalized (hv : v.Normalized)
    (hnumber : v.isInteger = true ∨ v.isFloat = true) (position : Nat) :
    classify (some (v.literal position).text) = v := by
  cases v with
  | integer n =>
    have hfinite : (Double.ofInt n.toInt).isFinite = true := by
      have hlow := n.le_toInt
      have hhigh := n.toInt_lt
      exact Double.isFinite_ofInt (by omega)
    exact (classify_intText hfinite).trans (ofInt_toInt n)
  | float x => exact classify_text hv
  | text t => simp [isInteger, isFloat] at hnumber
  | positional => simp [isInteger, isFloat] at hnumber

/-- A number can be loaded if it is in normal form, and only then. -/
theorem loaded_iff_normalized (hnumber : v.isInteger = true ∨ v.isFloat = true) :
    v.Loaded ↔ v.Normalized :=
  ⟨Loaded.normalized, fun hv => .inl ⟨_, classify_literal_of_normalized hv hnumber 0⟩⟩

/-- **The literal of a number, declared again, is the same number.** The numbers that
are loaded are all integers of 64 bits and all finite doubles that are none. -/
theorem classify_literal :
    (∀ n, Loaded (integer n)) ∧
    (∀ x, Loaded (float x) ↔
      x.isFinite = true ∧ ∀ n, x.toInt? = some n → ¬Numeral.FitsInt64 n) ∧
    ∀ v : MemberValue, v.Loaded → v.isInteger = true ∨ v.isFloat = true →
      ∀ position, classify (some (v.literal position).text) = v := by
  refine ⟨fun n => ?_, fun x => ?_, fun v hv hnumber position => ?_⟩
  · exact (loaded_iff_normalized (.inl rfl)).mpr trivial
  · exact loaded_iff_normalized (.inr rfl)
  · exact classify_literal_of_normalized hv.normalized hnumber position

/-- Both sides of the 64-bit integers, one of them from JSON, and a fraction. The first
double past these integers is written with other digits than it is declared with. -/
theorem classify_literal_limits :
    classify (some ((integer (.ofInt (-(2 ^ 63)))).literal 0).text) =
        integer (.ofInt (-(2 ^ 63))) ∧
      ((float (.ofInt (2 ^ 63))).literal 1).text = "9223372036854776000" ∧
      classify (some ((float (.ofInt (2 ^ 63))).literal 1).text) = float (.ofInt (2 ^ 63)) ∧
      classify (some ((float (.ofDecimal ⟨true, 15, -1⟩)).literal 2).text) =
        float (.ofDecimal ⟨true, 15, -1⟩) := by
  have hmin : Loaded (integer (.ofInt (-(2 ^ 63)))) :=
    .inr ⟨.number (.whole (-(2 ^ 63)) (by decide)), rfl⟩
  have hpast : Loaded (float (.ofInt (2 ^ 63))) :=
    .inl ⟨some "9223372036854775808", by decide +kernel⟩
  have hhalf : Loaded (float (.ofDecimal ⟨true, 15, -1⟩)) :=
    .inl ⟨some " -1.5 ", by decide +kernel⟩
  exact ⟨classify_literal.2.2 _ hmin (.inl rfl) 0, by decide +kernel,
    classify_literal.2.2 _ hpast (.inr rfl) 1, classify_literal.2.2 _ hhalf (.inr rfl) 2⟩

end MemberValue

end SchemaSharp
