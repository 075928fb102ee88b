/-
Integers of 64 bits among the doubles.

A number is classified as an integer if its exact value is one that fits. Arithmetic on
doubles tells the same: the fraction, which is exact (`scaled?_fract`), is zero, and the
number is neither below the first of these integers nor past the last one
(`Double.isInt64_iff`). Conversion changes no such number
(`Double.toInt64_of_toInt?`), though it does change others. So the word of a number
decides what it is classified as (`MemberValue.ofDouble_ofBits`).
-/
import SchemaSharp.Proofs.Interchange
import SchemaSharp.Proofs.Equality
import SchemaSharp.Proofs.WrittenFraction

namespace SchemaSharp

namespace Double

open Numeral

/-- What a number has behind the point, rounded. If that is nothing, it is the zero without
a sign. Infinities and NaN have no fraction. -/
def fract : Double → Double
  | finite negative s e _ =>
    let units := s * 2 ^ e % 2 ^ 1074
    ofRatio (negative && 0 < units) units 1
  | _ => nan

/-- The units behind the point have the significand of the number, less its first bits. -/
theorem exists_significand_mod {s : Nat} (hs : s < 2 ^ 53) (e u : Nat) :
    ∃ s' k, s' < 2 ^ 53 ∧ s * 2 ^ e % 2 ^ u = s' * 2 ^ k := by
  rcases Nat.le_total u e with he | he
  · refine ⟨0, 0, by decide, ?_⟩
    rw [Nat.zero_mul]
    exact Nat.mod_eq_zero_of_dvd (Nat.dvd_trans (Nat.pow_dvd_pow 2 he) (Nat.dvd_mul_left _ _))
  · refine ⟨s % 2 ^ (u - e), e, Nat.lt_of_le_of_lt (Nat.mod_le _ _) hs, ?_⟩
    rw [← Nat.mul_mod_mul_right, ← Nat.pow_add, Nat.sub_add_cancel he]

theorem scaled?_ofRatio {a s k : Nat} (negative : Bool) (hs : s < 2 ^ 53) (ha : a = s * 2 ^ k)
    (hlog : a.log2 ≤ 2096) : (ofRatio negative a 1).scaled? = some (signed negative a) := by
  have hkept := roundUnits_of_significand (k := 0) hs (Nat.mul_one s).symm k
  rw [← ha] at hkept
  have hfinite : (ofRatio negative a 1).isFinite = true :=
    isFinite_ofRatio (by rwa [Nat.div_one])
  cases hx : ofRatio negative a 1 with
  | finite negative' s' e' henc =>
    obtain ⟨rfl, hunits⟩ := ofRatio_eq_finite hx
    rw [hunits] at hkept
    exact congrArg some (congrArg (signed negative) hkept)
  | infinite negative' =>
    rw [hx] at hfinite
    cases hfinite
  | nan =>
    rw [hx] at hfinite
    cases hfinite

theorem signed_of_pos (negative : Bool) (a : Nat) :
    signed (negative && 0 < a) a = signed negative a := by
  cases a with
  | zero => cases negative <;> rfl
  | succ a => rw [decide_eq_true a.succ_pos, Bool.and_true]

/-- **The fraction is exact.** -/
theorem scaled?_fract {negative : Bool} {s e : Nat} {h : Encodable s e} :
    (finite negative s e h).fract.scaled? = some (signed negative (s * 2 ^ e % 2 ^ 1074)) := by
  obtain ⟨s', k, hs', hmod⟩ := exists_significand_mod h.1 e 1074
  have hlt : ∀ u, s * 2 ^ e % 2 ^ u < 2 ^ u := fun u => Nat.mod_lt _ (Nat.two_pow_pos u)
  have hlog := log2_mul_two_pow_le (k := 0) (hlt 1074)
  rw [Nat.pow_zero, Nat.mul_one] at hlog
  rw [fract]
  generalize s * 2 ^ e % 2 ^ 1074 = a at hmod hlog ⊢
  rw [← signed_of_pos]
  exact scaled?_ofRatio _ hs' hmod (Nat.le_trans hlog (by decide))

theorem signed_eq_zero_iff {negative : Bool} {a : Nat} : signed negative a = 0 ↔ a = 0 := by
  rw [← Int.natAbs_eq_zero, natAbs_signed]

/-- **Whole numbers are those without a fraction.** -/
theorem fract_eq_zero_iff {x : Double} :
    x.fract.ieeeEq (ofInt 0) = true ↔ ∃ n, x.toInt? = some n := by
  have hzero : (ofInt 0).scaled? = some 0 := by decide +kernel
  cases x with
  | finite negative s e h =>
    rw [ieeeEq_of_scaled scaled?_fract hzero, signed_eq_zero_iff]
    simp only [toInt?_finite]
    -- The power is not to be computed.
    generalize 1074 = u
    refine ⟨fun hmod => ?_, ?_⟩
    · obtain ⟨m, hm⟩ := Nat.dvd_of_mod_eq_zero hmod
      exact ⟨_, m, hm.trans (Nat.mul_comm _ m), rfl⟩
    · rintro ⟨n, m, hm, _⟩
      rw [hm, Nat.mul_mod_left]
  | _ =>
    refine iff_of_false (by simp [fract, ieeeEq, scaled?]) ?_
    rintro ⟨n, hn⟩
    cases hn

/-- Order by value. NaN is in no order. -/
def ieeeLt : Double → Double → Bool
  | infinite a, infinite b => a && !b
  | infinite a, finite .. => a
  | finite .., infinite b => !b
  | x, y => match x.scaled?, y.scaled? with
    | some m, some n => m < n
    | _, _ => false

/-- Order or equality by value. -/
def ieeeLe (x y : Double) : Bool := x.ieeeLt y || x.ieeeEq y

variable {x y : Double} {m n : Int}

theorem ieeeLt_of_scaled (hx : x.scaled? = some m) (hy : y.scaled? = some n) :
    x.ieeeLt y = true ↔ m < n := by
  unfold ieeeLt
  split
  next => cases hx
  next => cases hx
  next => cases hy
  next => simp [hx, hy]

theorem ieeeLe_of_scaled (hx : x.scaled? = some m) (hy : y.scaled? = some n) :
    x.ieeeLe y = true ↔ m ≤ n := by
  rw [ieeeLe, Bool.or_eq_true, ieeeLt_of_scaled hx hy, ieeeEq_of_scaled hx hy]
  exact Int.le_iff_lt_or_eq.symm

/-- The nearest integer of 64 bits. -/
def clamp (n : Int) : Int := max (-(2 ^ 63)) (min n (2 ^ 63 - 1))

/-- Conversion to 64 bits: toward zero, to the nearest end of the range from outside of it,
and to zero for NaN. -/
def toInt64 : Double → Int64
  | finite negative s e _ => .ofInt (clamp (signed negative (s * 2 ^ e / 2 ^ 1074)))
  | infinite negative => .ofInt (if negative then -(2 ^ 63) else 2 ^ 63 - 1)
  | nan => 0

theorem not_fitsInt64_iff : ¬FitsInt64 n ↔ n < -(2 ^ 63) ∨ 2 ^ 63 ≤ n := by
  unfold FitsInt64
  omega

theorem clamp_of_fitsInt64 (h : FitsInt64 n) : clamp n = n := by
  obtain ⟨hlow, hhigh⟩ := h
  unfold clamp
  omega

/-- **No whole number of 64 bits is changed by conversion.** -/
theorem toInt64_of_toInt? (hx : x.toInt? = some n) (h : FitsInt64 n) : x.toInt64.toInt = n := by
  cases x with
  | finite negative s e henc =>
    obtain ⟨m, hm, rfl⟩ := toInt?_finite.mp hx
    rw [toInt64, hm, Nat.mul_div_cancel m (Nat.two_pow_pos 1074), clamp_of_fitsInt64 h,
      Int64.toInt_ofInt_of_le h.1 h.2]
  | infinite negative => cases hx
  | nan => cases hx

/-- A number without a fraction between the ends of the 64-bit integers, the first of them
included. -/
def isInt64 (x : Double) : Bool :=
  x.fract.ieeeEq (ofInt 0) && (ofInt (-(2 ^ 63))).ieeeLe x && x.ieeeLt (ofInt (2 ^ 63))

theorem mul_two_pow_le_iff (k : Nat) : m * 2 ^ k ≤ n * 2 ^ k ↔ m ≤ n :=
  Int.mul_le_mul_right (Int.pow_pos (by decide))

theorem mul_two_pow_lt_iff (k : Nat) : m * 2 ^ k < n * 2 ^ k ↔ m < n :=
  Int.mul_lt_mul_right (Int.pow_pos (by decide))

theorem isInt64_iff : x.isInt64 = true ↔ ∃ n, x.toInt? = some n ∧ FitsInt64 n := by
  have hlow : (ofInt (-(2 ^ 63))).toInt? = some (-(2 ^ 63)) := by decide +kernel
  have hhigh : (ofInt (2 ^ 63)).toInt? = some (2 ^ 63) := by decide +kernel
  rw [toInt?_eq_some_iff] at hlow hhigh
  rw [isInt64, Bool.and_eq_true, Bool.and_eq_true, fract_eq_zero_iff, and_assoc, ← exists_and_right]
  refine exists_congr fun n => and_congr_right fun hn => ?_
  have hx := toInt?_eq_some_iff.mp hn
  rw [ieeeLe_of_scaled hlow hx, ieeeLt_of_scaled hx hhigh, mul_two_pow_le_iff, mul_two_pow_lt_iff,
    FitsInt64]

end Double

namespace MemberValue

/-- **A number is an integer if it passes for one of 64 bits**, and then it is converted. -/
theorem ofDouble_eq_ite (x : Double) :
    ofDouble x = if x.isInt64 then integer x.toInt64 else float x := by
  rcases ofDouble_cases x with ⟨n, hn, hfit, hx⟩ | ⟨hout, hx⟩
  · rw [hx, if_pos (Double.isInt64_iff.mpr ⟨n, hn, hfit⟩), integer.injEq, ← Int64.toInt_inj,
      Double.toInt64_of_toInt? hn hfit, Int64.toInt_ofInt_of_le hfit.1 hfit.2]
  · have hno : ¬x.isInt64 = true := by
      rw [Double.isInt64_iff]
      exact fun ⟨n, hn, hfit⟩ => hout n hn hfit
    rw [hx, if_neg hno]

theorem ofDouble_eq_float_iff {x y : Double} : ofDouble x = float y ↔
    y = x ∧ ∀ n, x.toInt? = some n → n < -(2 ^ 63) ∨ 2 ^ 63 ≤ n := by
  simp only [← Double.not_fitsInt64_iff]
  refine ⟨fun h => ?_, ?_⟩
  · obtain ⟨rfl, hout⟩ := ofDouble_eq_float h
    exact ⟨rfl, hout⟩
  · rintro ⟨rfl, hout⟩
    exact ofDouble_of_not_fitsInt64 hout

/-- **A number is an integer exactly if its word stands for one of 64 bits.** Otherwise it
is the float of that word, bit by bit unless it is a NaN. The same comes out of arithmetic
on doubles, whose conversion to 64 bits is exact wherever it is used. -/
theorem ofDouble_ofBits (word : UInt64) :
    (∀ n : Int, (∃ i : Int64, i.toInt = n ∧ ofDouble (.ofBits word) = integer i) ↔
      Double.wordValue? word = some (n : ℚ) ∧ -(2 ^ 63) ≤ n ∧ n < 2 ^ 63) ∧
    (∀ x, ofDouble (.ofBits word) = float x ↔ x = .ofBits word ∧
      ∀ n : Int, Double.wordValue? word = some (n : ℚ) → n < -(2 ^ 63) ∨ 2 ^ 63 ≤ n) ∧
    (∀ x, ofDouble (.ofBits word) = float x → x = .nan ∨ x.toBits = word) ∧
    (word = 0 ∨ word = 0x8000000000000000 → ofDouble (.ofBits word) = integer 0) ∧
    ofDouble (.ofBits word) = (if (Double.ofBits word).isInt64
      then integer (Double.ofBits word).toInt64 else float (.ofBits word)) ∧
    ((Double.ofBits word).isInt64 = true →
      Double.wordValue? word = some ((Double.ofBits word).toInt64.toInt : ℚ)) := by
  have hfloat : ∀ x, ofDouble (.ofBits word) = float x ↔ x = .ofBits word ∧
      ∀ n : Int, Double.wordValue? word = some (n : ℚ) → n < -(2 ^ 63) ∨ 2 ^ 63 ≤ n := by
    simp only [Double.wordValue?_eq_int_iff, ofDouble_eq_float_iff, implies_true]
  refine ⟨fun n => ⟨?_, ?_⟩, hfloat, fun x h => ?_, ?_, ofDouble_eq_ite _, fun h => ?_⟩
  · rintro ⟨i, rfl, h⟩
    rw [ofDouble_eq_integer_iff, ← Double.wordValue?_eq_int_iff] at h
    exact ⟨h, i.le_toInt, i.toInt_lt⟩
  · rintro ⟨hn, hlow, hhigh⟩
    have hi : (Int64.ofInt n).toInt = n := Int64.toInt_ofInt_of_le hlow hhigh
    refine ⟨.ofInt n, hi, ?_⟩
    rwa [ofDouble_eq_integer_iff, hi, ← Double.wordValue?_eq_int_iff]
  · rw [((hfloat x).mp h).1]
    exact Double.toBits_ofBits word
  · rintro (rfl | rfl) <;> decide +kernel
  · obtain ⟨n, hn, hfit⟩ := Double.isInt64_iff.mp h
    rwa [Double.toInt64_of_toInt? hn hfit, Double.wordValue?_eq_int_iff]

/-- Both ends of the 64-bit integers, the first one included and the other one not, and the
negative zero. -/
theorem ofDouble_ofBits_limits :
    (Double.ofBits 0xc3e0000000000000).isInt64 = true ∧
    Double.wordValue? 0xc3e0000000000000 =
      some ((Double.ofBits 0xc3e0000000000000).toInt64.toInt : ℚ) ∧
    (∃ i : Int64, i.toInt = -(2 ^ 63) ∧ ofDouble (.ofBits 0xc3e0000000000000) = integer i) ∧
    ofDouble (.ofBits 0x43e0000000000000) = float (.ofBits 0x43e0000000000000) ∧
    (Double.ofBits 0x43e0000000000000).toBits = 0x43e0000000000000 ∧
    ofDouble (.ofBits 0x8000000000000000) = integer 0 := by
  have hfirst : (Double.ofBits 0xc3e0000000000000).isInt64 = true := by decide +kernel
  have hpast : ofDouble (.ofBits 0x43e0000000000000) = float (.ofBits 0x43e0000000000000) := by
    decide +kernel
  obtain ⟨hinteger, _, _, _, _, hexact⟩ := ofDouble_ofBits 0xc3e0000000000000
  obtain ⟨_, _, hbits, _, _, _⟩ := ofDouble_ofBits 0x43e0000000000000
  obtain ⟨_, _, _, hzero, _, _⟩ := ofDouble_ofBits 0x8000000000000000
  have hvalue := hexact hfirst
  have hend : (Double.ofBits 0xc3e0000000000000).toInt64.toInt = -(2 ^ 63) := by decide +kernel
  refine ⟨hfirst, hvalue, (hinteger _).mpr ⟨?_, by decide, by decide⟩, hpast,
    (hbits _ hpast).resolve_left (by decide +kernel), hzero (.inr rfl)⟩
  rw [hvalue, hend]

end MemberValue

end SchemaSharp
