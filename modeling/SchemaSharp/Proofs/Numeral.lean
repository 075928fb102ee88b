/-
Whole numbers in decimal: an optional minus sign and digits, and nothing
else. `whole?` reads them; the integers that this library writes read back,
and a decimal in positional notation reads as a whole number exactly if it
is one (`whole?_plain`).
-/
import Mathlib.Data.List.TakeWhile
import SchemaSharp.Decimal

namespace SchemaSharp

namespace Numeral

/-- A number with a sign. -/
def signed (negative : Bool) (n : Nat) : Int := if negative then -(n : Int) else n

theorem natAbs_signed (negative : Bool) (n : Nat) : (signed negative n).natAbs = n := by
  cases negative <;> simp [signed]

theorem signed_not (negative : Bool) (n : Nat) : signed (!negative) n = -signed negative n := by
  cases negative with
  | false => rfl
  | true => exact (Int.neg_neg _).symm

theorem signed_natAbs (n : Int) : signed (n < 0) n.natAbs = n := by
  unfold signed
  by_cases hn : n < 0
  · rw [decide_eq_true hn, if_pos rfl]
    omega
  · rw [decide_eq_false hn, if_neg (by decide)]
    omega

theorem integer?_eq (base : Nat) (cs : List Char) :
    integer? base cs = (natural? base (sign cs).2).map (signed (sign cs).1) := by
  unfold integer?
  cases natural? base (sign cs).2 <;> rfl

/-- The number that digits stand for. -/
def digits? (cs : List Char) : Option Nat :=
  if !cs.isEmpty && cs.all Char.isDigit then some (Nat.ofDigitChars 10 cs 0) else none

/-- The number that digits behind an optional minus sign stand for. -/
def whole? : List Char → Option Int
  | '-' :: cs => (digits? cs).map (signed true)
  | cs => (digits? cs).map (signed false)

theorem digits?_toDigits (n : Nat) : digits? (Nat.toDigits 10 n) = some n := by
  have hd : (Nat.toDigits 10 n).all Char.isDigit = true :=
    List.all_eq_true.mpr fun c hc => Nat.isDigit_of_mem_toDigits (by decide) (by decide) hc
  have hne : (Nat.toDigits 10 n).isEmpty = false :=
    List.isEmpty_eq_false_iff.mpr Nat.toDigits_ne_nil
  rw [digits?, hd, hne, Nat.ofDigitChars_ten_toDigits]
  rfl

theorem digits?_eq_none {cs : List Char} {c : Char} (h : c ∈ cs) (hc : ¬c.isDigit) :
    digits? cs = none := by
  have hd : cs.all Char.isDigit = false := List.all_eq_false.mpr ⟨c, h, hc⟩
  rw [digits?, hd, Bool.and_false]
  rfl

theorem whole?_cons_of_ne {c : Char} (cs : List Char) (h : c ≠ '-') :
    whole? (c :: cs) = (digits? (c :: cs)).map (signed false) := by
  unfold whole?
  split
  next heq =>
    cases heq
    exact absurd rfl h
  next => rfl

theorem whole?_eq_none {c : Char} (cs : List Char) (h : c ≠ '-') (hc : ¬c.isDigit) :
    whole? (c :: cs) = none := by
  rw [whole?_cons_of_ne cs h, digits?_eq_none (.head _) hc, Option.map_none]

theorem whole?_signed (negative : Bool) {cs : List Char} (h : ∃ c, cs.head? = some c ∧ c ≠ '-') :
    whole? (if negative then '-' :: cs else cs) = (digits? cs).map (signed negative) := by
  cases negative with
  | true => rfl
  | false =>
    obtain ⟨c, hc, hne⟩ := h
    cases cs with
    | nil => cases hc
    | cons c' cs =>
      cases hc
      exact whole?_cons_of_ne cs hne

theorem head_toDigits (n : Nat) : ∃ c, (Nat.toDigits 10 n).head? = some c ∧ c ≠ '-' := by
  cases hd : Nat.toDigits 10 n with
  | nil => exact absurd hd Nat.toDigits_ne_nil
  | cons c cs =>
    refine ⟨c, rfl, ?_⟩
    intro h
    obtain rfl := h
    have hdigit : '-'.isDigit = true :=
      Nat.isDigit_of_mem_toDigits (b := 10) (n := n) (by decide) (by decide) (hd ▸ .head _)
    exact absurd hdigit (by decide)

theorem whole?_natText (n : Nat) : whole? (natText n).toList = some (n : Int) := by
  have h := whole?_signed false (head_toDigits n)
  rw [digits?_toDigits] at h
  simpa [natText, signed] using h

theorem whole?_intText (n : Int) : whole? (intText n).toList = some n := by
  have h := whole?_signed (decide (n < 0)) (head_toDigits n.natAbs)
  rw [digits?_toDigits, Option.map_some, signed_natAbs] at h
  simpa [intText, ofInt] using h

end Numeral

namespace Decimal

/-- The whole number that a decimal is, its sign aside. -/
def magnitude? (d : Decimal) : Option Nat :=
  match d.exponent with
  | .ofNat k => some (d.coefficient * 10 ^ k)
  | .negSucc k =>
    if d.coefficient % 10 ^ (k + 1) = 0 then some (d.coefficient / 10 ^ (k + 1)) else none

theorem magnitude?_of_units {d : Decimal} {m w : Nat} (hc : d.coefficient = m * 10 ^ w)
    (he : d.exponent = -(w : Int)) : d.magnitude? = some m := by
  unfold magnitude?
  cases w with
  | zero =>
    have hz : d.exponent = .ofNat 0 := he
    rw [hz, hc]
    dsimp only
    rw [Nat.pow_zero, Nat.mul_one, Nat.mul_one]
  | succ w =>
    have hn : d.exponent = .negSucc w := he
    rw [hn, hc]
    dsimp only
    rw [Nat.mul_mod_left, if_pos rfl, Nat.mul_div_cancel _ (Nat.pow_pos (by decide))]

theorem mul_two_pow_five_pow (m k : Nat) : m * 2 ^ k * 5 ^ k = m * 10 ^ k := by
  rw [Nat.mul_assoc, ← Nat.mul_pow]

/-- If binary places make a whole decimal, they make a whole number. -/
theorem two_pow_of_magnitude? {d : Decimal} {a n w : Nat} (hc : d.coefficient = a * 5 ^ w)
    (he : d.exponent = -(w : Int)) (h : d.magnitude? = some n) : ∃ m, a = m * 2 ^ w := by
  cases w with
  | zero => exact ⟨a, (Nat.mul_one a).symm⟩
  | succ w =>
    have hn : d.exponent = .negSucc w := he
    rw [magnitude?, hn, hc] at h
    dsimp only at h
    split at h
    next hz =>
      have hd := Nat.dvd_of_mod_eq_zero hz
      rw [← Nat.one_mul (10 ^ _), ← mul_two_pow_five_pow, Nat.one_mul] at hd
      obtain ⟨m, hm⟩ := Nat.dvd_of_mul_dvd_mul_right (Nat.pow_pos (by decide)) hd
      exact ⟨m, by rw [hm, Nat.mul_comm]⟩
    next => cases h

theorem dropTrailingZeros_eq_nil {cs : List Char} :
    dropTrailingZeros cs = [] ↔ ∀ c ∈ cs, c = '0' := by
  simp [dropTrailingZeros, List.dropWhile_eq_nil_iff]

theorem toDigits_zeros {n : Nat} (h : ∀ c ∈ Nat.toDigits 10 n, c = '0') : n = 0 := by
  have hn := Nat.ofDigitChars_ten_toDigits (n := n)
  rw [List.eq_replicate_of_mem h, Nat.ofDigitChars_replicate_zero, Nat.mul_zero] at hn
  exact hn.symm

/-- A fraction leaves no text exactly if it is zero; otherwise its text
starts with a point. -/
theorem fractionText_cases (width n : Nat) :
    (n = 0 ∧ fractionText width n = []) ∨
      (n ≠ 0 ∧ ∃ cs, fractionText width n = '.' :: cs) := by
  unfold fractionText
  by_cases hn : n = 0
  · left
    have hz : dropTrailingZeros ((Nat.toDigits 10 n).leftpad width '0') = [] := by
      rw [dropTrailingZeros_eq_nil, hn, Nat.toDigits_zero]
      intro c hc
      simpa [List.leftpad, or_iff_right_of_imp] using hc
    rw [hz]
    exact ⟨hn, rfl⟩
  · right
    have hz : dropTrailingZeros ((Nat.toDigits 10 n).leftpad width '0') ≠ [] := by
      intro h
      refine hn (toDigits_zeros fun c hc => ?_)
      exact dropTrailingZeros_eq_nil.mp h c (List.mem_append_right _ hc)
    refine ⟨hn, ?_⟩
    split
    next h => exact absurd h hz
    next => exact ⟨_, rfl⟩

theorem digits?_magnitudeText (d : Decimal) :
    Numeral.digits? (magnitudeText d.coefficient d.exponent) = d.magnitude? := by
  unfold magnitudeText magnitude?
  cases d.exponent with
  | ofNat k => exact Numeral.digits?_toDigits _
  | negSucc k =>
    dsimp only
    rcases fractionText_cases (k + 1) (d.coefficient % 10 ^ (k + 1)) with ⟨hz, hf⟩ | ⟨hz, cs, hf⟩
    · rw [hf, List.append_nil, if_pos hz, Numeral.digits?_toDigits]
    · rw [hf, if_neg hz]
      exact Numeral.digits?_eq_none (List.mem_append_right _ (.head cs)) (by decide)

theorem head_magnitudeText (c : Nat) (e : Int) :
    ∃ h, (magnitudeText c e).head? = some h ∧ h ≠ '-' := by
  unfold magnitudeText
  split
  next => exact Numeral.head_toDigits _
  next =>
    obtain ⟨h, hh, hne⟩ := Numeral.head_toDigits (c / 10 ^ (_ + 1))
    exact ⟨h, by rw [List.head?_append, hh]; rfl, hne⟩

/-- **A decimal in positional notation reads as a whole number exactly if it
is one**, and as that one. -/
theorem whole?_plain (d : Decimal) :
    Numeral.whole? d.plain = d.magnitude?.map (Numeral.signed d.negative) := by
  rw [← digits?_magnitudeText, ← Numeral.whole?_signed _ (head_magnitudeText _ _)]
  rfl

end Decimal

end SchemaSharp
