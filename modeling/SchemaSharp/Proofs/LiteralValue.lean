/-
Literals read back as values.

`Literal.value?` reads the literal of a member: what is quoted is text, a whole
number is what it is worth as a member, and any other number is a double. For the
literal of a loaded value it answers with the value, a position counted as its number
(`value?_literal`), so the literal determines the value. Whole numbers and doubles
are kept apart by loading: a float that is left is no whole number of 64 bits, and
its text is none either (`Double.not_fitsInt64_of_text`).
-/
import SchemaSharp.Proofs.DecimalGrammar
import SchemaSharp.Proofs.Normalized
import SchemaSharp.Proofs.StringLiteral

namespace SchemaSharp

namespace Double

open Numeral

/-- The whole number that the text of a double reads as rounds to it. -/
theorem ofRatio_of_text {negative : Bool} {s e : Nat} {h : Encodable s e} {v : Int}
    (hv : whole? (finite negative s e h).text = some v) :
    ∃ k, v = signed negative k ∧ ofRatio negative (k * 2 ^ 1074) 1 = finite negative s e h := by
  rw [whole?_text_finite] at hv
  obtain ⟨k, hk, rfl⟩ := Option.map_eq_some_iff.mp hv
  refine ⟨k, rfl, ?_⟩
  have hshortest : (finite negative s e h).shortest? .up =
      some (shortestFor .up (finite negative s e h) (exactDecimal negative s e)) := rfl
  have hback := ofDecimal_of_shortest? hshortest
  rcases ofDecimal_of_magnitude hk with hr | hi
  · rw [hback, shortestFor_negative] at hr
    exact hr.symm
  · rw [hback] at hi
    cases hi

/-- A finite double is written as a decimal that rounds to it. -/
theorem ofDecimal_of_text {x : Double} (hx : x.isFinite = true) :
    ∃ v, Decimal.Positional x.text v ∧ ofDecimal v = x := by
  obtain ⟨d, v, hd, hv, hsame⟩ := positional_text hx
  exact ⟨v, hv, (ofDecimal_congr hsame).trans (ofDecimal_of_shortest? hd)⟩

theorem ofInt_signed (negative : Bool) {k : Nat} (h : 0 < k) :
    ofInt (signed negative k) = ofRatio negative (k * 2 ^ 1074) 1 := by
  have hsign : decide (signed negative k < 0) = negative := by
    unfold signed
    cases negative <;> simp [h]
  rw [ofInt, hsign, natAbs_signed]

theorem pos_of_not_fitsInt64 {negative : Bool} {k : Nat} (h : ¬FitsInt64 (signed negative k)) :
    0 < k := by
  refine Nat.pos_of_ne_zero fun hz => h ?_
  rw [hz]
  cases negative <;> decide

theorem two_pow_63_units : 2 ^ 63 * 2 ^ 1074 = 2 ^ 52 * 2 ^ 1085 := by decide +kernel

theorem encodable_two_pow_63 : Encodable (2 ^ 52) 1085 := by decide

/-- The first double past the 64-bit integers is written with sixteen digits, which
are above it. -/
theorem whole?_text_two_pow_63 :
    whole? (finite false _ _ encodable_two_pow_63).text = some 9223372036854776000 := by
  decide +kernel

/-- Units cancel, whatever their size: the power itself is too large to be evaluated. -/
theorem le_of_mul_two_pow_le (j : Nat) {m n : Nat} (h : m * 2 ^ j ≤ n * 2 ^ j) : m ≤ n :=
  Nat.le_of_mul_le_mul_right h (Nat.two_pow_pos j)

theorem units_le_of_le {negative : Bool} {k s e : Nat} {h : Encodable s e}
    (hr : ofRatio negative (k * 2 ^ 1074) 1 = finite negative s e h) (hk : k ≤ 2 ^ 63) :
    s * 2 ^ e ≤ 2 ^ 63 * 2 ^ 1074 := by
  have hunits := (ofRatio_eq_finite hr).2
  have hle := roundUnits_le (a := k * 2 ^ 1074) Nat.one_pos encodable_two_pow_63.1 (e := 1085) ?_
  · rwa [hunits, ← two_pow_63_units] at hle
  · rw [← two_pow_63_units, Nat.mul_one]
    exact Nat.mul_le_mul_right _ hk

theorem le_units_of_le {negative : Bool} {k s e : Nat} {h : Encodable s e}
    (hr : ofRatio negative (k * 2 ^ 1074) 1 = finite negative s e h) (hk : 2 ^ 63 ≤ k) :
    2 ^ 63 * 2 ^ 1074 ≤ s * 2 ^ e := by
  have hunits := (ofRatio_eq_finite hr).2
  have hle := le_roundUnits (a := k * 2 ^ 1074) Nat.one_pos encodable_two_pow_63.1 (e := 1085) ?_
  · rwa [hunits, ← two_pow_63_units] at hle
  · rw [← two_pow_63_units, Nat.mul_one]
    exact Nat.mul_le_mul_right _ hk

/-- Rounding does not get below the end of the 64-bit integers. -/
theorem not_fitsInt64_ofInt {n : Int} (h : 2 ^ 63 ≤ n) {m : Int} (hm : (ofInt n).toInt? = some m) :
    ¬FitsInt64 m := by
  have hsign : decide (n < 0) = false := decide_eq_false (by omega)
  cases hx : ofInt n with
  | finite negative s e henc =>
    rw [hx] at hm
    obtain ⟨k, hk, rfl⟩ := toInt?_finite.mp hm
    rw [ofInt, hsign] at hx
    obtain rfl := (ofRatio_eq_finite hx).1
    have hle := le_units_of_le hx (by omega)
    rw [hk] at hle
    have hk63 := le_of_mul_two_pow_le 1074 hle
    intro hfit
    have hlt : (k : Int) < 2 ^ 63 := hfit.2
    omega
  | infinite negative =>
    rw [hx] at hm
    cases hm
  | nan =>
    rw [hx] at hm
    cases hm

variable {x : Double}

/-- **The text of a double that is no whole number of 64 bits is no such number
either.** -/
theorem not_fitsInt64_of_text (hx : ∀ n, x.toInt? = some n → ¬FitsInt64 n) {v : Int}
    (hv : whole? x.text = some v) : ¬FitsInt64 v := by
  intro hfit
  obtain ⟨n, hn⟩ := toInt?_of_whole?_text hv
  have hout := hx n hn
  cases x with
  | finite negative s e h =>
    obtain ⟨m, hm, rfl⟩ := toInt?_finite.mp hn
    obtain ⟨k, rfl, hr⟩ := ofRatio_of_text hv
    unfold FitsInt64 signed at hfit hout
    have hm63 : m ≤ 2 ^ 63 := by
      have hk63 : k ≤ 2 ^ 63 := by split at hfit <;> omega
      have hle := units_le_of_le hr hk63
      rw [hm] at hle
      exact le_of_mul_two_pow_le 1074 hle
    cases negative with
    | true =>
      -- The negative end is an integer of 64 bits.
      simp only [if_true] at hout
      omega
    | false =>
      simp only [Bool.false_eq_true, if_false] at hfit hout
      obtain rfl : m = 2 ^ 63 := by omega
      have hend : finite false s e h = finite false _ _ encodable_two_pow_63 :=
        eq_of_units (hm.trans two_pow_63_units)
      rw [hend, whole?_text_two_pow_63] at hv
      have hk := Option.some.inj hv
      unfold signed at hk
      simp only [Bool.false_eq_true, if_false] at hk
      omega
  | infinite negative => cases hn
  | nan => cases hn

end Double

namespace MemberValue

/-- A float that is left by loading is what its text is worth, also where the text
has no fraction. -/
theorem ofInt_of_text {x : Double} (hx : (float x).Normalized) {n : Int}
    (hn : Numeral.whole? x.text = some n) : ofInt n = float x := by
  have hout := Double.not_fitsInt64_of_text hx.2 hn
  cases x with
  | finite negative s e h =>
    obtain ⟨k, rfl, hr⟩ := Double.ofRatio_of_text hn
    have hdouble := (Double.ofInt_signed negative (Double.pos_of_not_fitsInt64 hout)).trans hr
    rw [ofInt, if_neg hout, hdouble, ofDouble_of_not_fitsInt64 hx.2]
  | infinite negative => cases hx.1
  | nan => cases hx.1

/-- The value that a member stands for at a position. Without a declared value it is
the position, as a number: an integer, since no list is as long as the 64-bit
integers (`effective_positional`). -/
def effective (position : Nat) : MemberValue → MemberValue
  | positional => ofInt position
  | v => v

theorem effective_positional {position : Nat} (h : position < 2 ^ 63) :
    effective position positional = integer (.ofInt position) := by
  have hfit : Numeral.FitsInt64 position := by
    unfold Numeral.FitsInt64
    omega
  rw [effective, ofInt, if_pos hfit]

end MemberValue

namespace Literal

/-- What a literal is worth as the value of a member. -/
def value? (cs : List Char) : Option MemberValue :=
  match readLiteral? cs, Numeral.whole? cs with
  | some (t, _), _ => some (.text (.ofList t))
  | none, some n => some (.ofInt n)
  | none, none => (Decimal.read? cs).map fun d => .ofDouble (.ofDecimal d)

theorem value?_quote (t : String) : value? (quote t).toList = some (.text t) := by
  have hr := readLiteral?_quote t []
  rw [List.append_nil] at hr
  simp only [value?, hr, String.ofList_toList]

theorem value?_of_whole? {cs : List Char} {n : Int} (h : Numeral.whole? cs = some n) :
    value? cs = some (.ofInt n) := by
  have hr : readLiteral? cs = none := by
    unfold readLiteral?
    split
    next rest =>
      rw [Numeral.whole?_eq_none rest (by decide) (by decide)] at h
      cases h
    next => rfl
  rw [value?, hr, h]

theorem readLiteral?_of_positional {cs : List Char} {v : Decimal}
    (h : Decimal.Positional cs v) : readLiteral? cs = none := by
  unfold readLiteral?
  split
  next rest => exact absurd (h.mem '"' (.head _)) (by decide)
  next => rfl

theorem value?_text {x : Double} (hx : (MemberValue.float x).Normalized) :
    value? x.text = some (.float x) := by
  cases hn : Numeral.whole? x.text with
  | some n => rw [value?_of_whole? hn, MemberValue.ofInt_of_text hx hn]
  | none =>
    obtain ⟨v, hv, hback⟩ := Double.ofDecimal_of_text hx.1
    rw [value?, readLiteral?_of_positional hv, hn, hv.read?, Option.map_some, hback,
      MemberValue.ofDouble_of_not_fitsInt64 hx.2]

end Literal

namespace MemberValue

variable {v w : MemberValue} {position : Nat}

/-- **The literal of a loaded value reads back as the value.** -/
theorem value?_literal (hv : v.Normalized) (position : Nat) :
    Literal.value? (v.literal position).text.toList = some (v.effective position) := by
  cases v with
  | integer n =>
    have hvalue := Literal.value?_of_whole? (Numeral.whole?_intText n.toInt)
    rwa [ofInt_toInt] at hvalue
  | float x =>
    have htext : ((float x).literal position).text.toList = x.text := String.toList_ofList
    rw [htext]
    exact Literal.value?_text hv
  | text t => exact Literal.value?_quote t
  | positional => exact Literal.value?_of_whole? (Numeral.whole?_natText position)

theorem effective_eq_of_literal (hv : v.Normalized) (hw : w.Normalized)
    (h : (v.literal position).text = (w.literal position).text) :
    v.effective position = w.effective position := by
  have hvalue := value?_literal hv position
  rw [h, value?_literal hw position] at hvalue
  exact (Option.some.inj hvalue).symm

theorem constant_eq (position : Nat) (v : MemberValue) :
    v.constant position = ⟨(v.literal position).type,
      (v.literal position).text ++ if (v.literal position).type = "float" then "f" else ""⟩ := by
  cases v with
  | float x => simp [constant, literal]
  | integer n =>
    have htype : ((integer n).literal position).type ≠ "float" := by
      change (if FitsInt32 n.toInt then "int" else "long") ≠ "float"
      split <;> decide
    rw [if_neg htype, String.append_empty]
    rfl
  | text t => simp [constant, literal]
  | positional => simp [constant, literal]

theorem literal_eq_of_constant (h : v.constant position = w.constant position) :
    (v.literal position).text = (w.literal position).text := by
  rw [constant_eq, constant_eq, Literal.mk.injEq] at h
  obtain ⟨htype, htext⟩ := h
  rwa [htype, String.append_left_inj] at htext

end MemberValue

end SchemaSharp
