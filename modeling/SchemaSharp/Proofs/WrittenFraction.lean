/-
Integers declared with a fraction of zeros.

Text with a point in it is no integer, so it is rounded to a double before it is taken
for a whole number. `Double.IsExact` says which integers that leaves alone: those with
53 bits in front of their trailing zeros. All others are declared as the double nearest
them (`MemberValue.classify_zeroFraction`), which is one more integer of 64 bits unless
it is the first double past them.
-/
import SchemaSharp.Proofs.Nearest
import SchemaSharp.Proofs.Classification

namespace SchemaSharp

namespace Double

open Numeral

/-- The size has at most 53 bits in front of its trailing zeros. -/
def IsExact (n : Int) : Prop := ∃ s k, s < 2 ^ 53 ∧ n.natAbs = s * 2 ^ k

theorem isExact_of_le {n : Int} (h : n.natAbs ≤ 2 ^ 53) : IsExact n := by
  rcases Nat.lt_or_eq_of_le h with hlt | heq
  · exact ⟨n.natAbs, 0, hlt, (Nat.mul_one _).symm⟩
  · exact ⟨1, 53, by decide, by rw [heq, Nat.one_mul]⟩

/-- A whole number of units has the significand of the units, less some zeros. -/
theorem exists_significand {s e m u : Nat} (hs : s < 2 ^ 53) (h : s * 2 ^ e = m * 2 ^ u) :
    ∃ s' k, s' < 2 ^ 53 ∧ m = s' * 2 ^ k := by
  rcases Nat.le_total u e with he | he
  · refine ⟨s, e - u, hs, Nat.eq_of_mul_eq_mul_right (Nat.two_pow_pos u) ?_⟩
    rw [← h, Nat.mul_assoc, ← Nat.pow_add, Nat.sub_add_cancel he]
  · have hm : s = m * 2 ^ (u - e) := by
      refine Nat.eq_of_mul_eq_mul_right (Nat.two_pow_pos e) ?_
      rw [h, Nat.mul_assoc, ← Nat.pow_add, Nat.sub_add_cancel he]
    have hle : m ≤ s := hm ▸ Nat.le_mul_of_pos_right m (Nat.two_pow_pos _)
    exact ⟨m, 0, Nat.lt_of_le_of_lt hle hs, (Nat.mul_one m).symm⟩

/-- What has 53 bits in front of its zeros is kept by rounding, in whatever units. -/
theorem roundUnits_of_significand {s k m : Nat} (hs : s < 2 ^ 53) (hm : m = s * 2 ^ k) (u : Nat) :
    (roundUnits (m * 2 ^ u) 1).1 * 2 ^ (roundUnits (m * 2 ^ u) 1).2 = m * 2 ^ u := by
  have hsize : m * 2 ^ u = s * 2 ^ (k + u) := by rw [hm, Nat.mul_assoc, ← Nat.pow_add]
  have hunits : s * 2 ^ (k + u) * 1 = s * 2 ^ (k + u) := Nat.mul_one _
  rw [hsize]
  exact Nat.le_antisymm (roundUnits_le Nat.one_pos hs (Nat.le_of_eq hunits.symm))
    (le_roundUnits Nat.one_pos hs (Nat.le_of_eq hunits))

variable {n : Int}

theorem exists_ofInt (h : (ofInt n).isFinite = true) :
    ∃ s e henc, ofInt n = finite (n < 0) s e henc ∧
      roundUnits (n.natAbs * 2 ^ 1074) 1 = (s, e) := by
  cases hx : ofInt n with
  | finite negative s e henc =>
    obtain ⟨rfl, hunits⟩ := ofRatio_eq_finite hx
    exact ⟨s, e, henc, rfl, hunits⟩
  | infinite negative =>
    rw [hx] at h
    cases h
  | nan =>
    rw [hx] at h
    cases h

/-- **An integer is kept by rounding if a double holds it**, and only then. -/
theorem toInt?_ofInt_iff (h : (ofInt n).isFinite = true) :
    (ofInt n).toInt? = some n ↔ IsExact n := by
  obtain ⟨s, e, henc, hx, hunits⟩ := exists_ofInt h
  rw [hx, toInt?_finite]
  generalize 1074 = u at hunits ⊢
  refine ⟨fun ⟨m, hm, hn⟩ => ?_, fun ⟨s', k, hs', hn⟩ => ?_⟩
  · have habs : n.natAbs = m := by rw [hn, natAbs_signed]
    rw [IsExact, habs]
    exact exists_significand henc.1 hm
  · have hkept := roundUnits_of_significand hs' hn u
    rw [hunits] at hkept
    exact ⟨n.natAbs, hkept, (signed_natAbs n).symm⟩

theorem exponent_le_iff (a u : Nat) :
    (roundUnits (a * 2 ^ u) 1).2 ≤ 10 + u ↔ a < 2 ^ 63 - 512 := by
  have hexponent : 10 + u = 9 + u + 1 := Nat.add_right_comm 9 1 u
  have hmiddle : (2 ^ 54 - 1) * (1 * 2 ^ (9 + u)) = (2 ^ 63 - 512) * 2 ^ u := by
    have hodd : (2 ^ 54 - 1) * 2 ^ 9 = 2 ^ 63 - 512 := by decide
    rw [Nat.one_mul, Nat.pow_add, ← Nat.mul_assoc, hodd]
  rw [hexponent, roundUnits_exponent_le_iff Nat.one_pos, hmiddle,
    Nat.mul_lt_mul_right (Nat.two_pow_pos u)]

theorem exponent_lt_iff {s e m u : Nat} (hs : s < 2 ^ 53) (hnormal : 2 ^ 52 ≤ s ∨ e = 0)
    (hm : s * 2 ^ e = m * 2 ^ u) : e ≤ 10 + u ↔ m < 2 ^ 63 := by
  refine ⟨fun he => ?_, fun hlt => Nat.not_lt.mp fun he => ?_⟩
  · have hunits := Nat.mul_lt_mul_of_lt_of_le hs (Nat.pow_le_pow_right Nat.two_pos he)
      (Nat.two_pow_pos _)
    rwa [hm, Nat.pow_add, ← Nat.mul_assoc, Nat.mul_lt_mul_right (Nat.two_pow_pos u)] at hunits
  · have hunits := Nat.mul_le_mul (hnormal.resolve_right (by omega))
      (Nat.pow_le_pow_right Nat.two_pos he)
    rw [hm, Nat.succ_eq_add_one, Nat.add_right_comm, Nat.pow_add, ← Nat.mul_assoc,
      Nat.mul_le_mul_right_iff (Nat.two_pow_pos u)] at hunits
    exact Nat.not_lt.mpr hunits hlt

/-- Sizes of 63 bits round to each other, and to `2 ^ 63` from the middle on. -/
theorem units_of_size {a s e m u : Nat} (ha : a ≤ 2 ^ 63) (hs : s < 2 ^ 53)
    (hnormal : 2 ^ 52 ≤ s ∨ e = 0) (hr : roundUnits (a * 2 ^ u) 1 = (s, e))
    (hm : s * 2 ^ e = m * 2 ^ u) : m ≤ 2 ^ 63 ∧ (m < 2 ^ 63 ↔ a < 2 ^ 63 - 512) := by
  have hbound : 1 * 2 ^ (63 + u) = 2 ^ 63 * 2 ^ u := by rw [Nat.one_mul, Nat.pow_add]
  have hle := roundUnits_le (a := a * 2 ^ u) (s := 1) (e := 63 + u) Nat.one_pos (by decide)
    (by rw [hbound, Nat.mul_one]; exact Nat.mul_le_mul_right _ ha)
  rw [hr, hm, hbound] at hle
  have hiff := exponent_le_iff a u
  rw [hr, exponent_lt_iff hs hnormal hm] at hiff
  exact ⟨Nat.le_of_mul_le_mul_right hle (Nat.two_pow_pos u), hiff⟩

/-- The integers of 64 bits round to each other, and to the first one past them from the
middle on. -/
theorem toInt?_ofInt_int64 (h : FitsInt64 n) :
    ∃ m, (ofInt n).toInt? = some m ∧ (FitsInt64 m ↔ n < 2 ^ 63 - 512) ∧
      (2 ^ 63 - 512 ≤ n → m = 2 ^ 63) := by
  obtain ⟨hlow, hhigh⟩ := h
  have hfinite : (ofInt n).isFinite = true := isFinite_ofInt (by omega)
  obtain ⟨m, hm⟩ := ofRatio_whole hfinite
  obtain ⟨s, e, henc, hx, hunits⟩ := exists_ofInt hfinite
  change (ofInt n).toInt? = some m at hm
  obtain ⟨k, hk, rfl⟩ := toInt?_finite.mp (hx ▸ hm)
  generalize 1074 = u at hunits hk
  obtain ⟨hle, hlast⟩ := units_of_size (by omega) henc.1 henc.2.1 hunits hk
  refine ⟨_, hm, ?_⟩
  unfold signed FitsInt64
  by_cases hn : n < 0
  · simp only [hn, decide_true, if_true]
    omega
  · simp only [hn, decide_false, Bool.false_eq_true, if_false]
    omega

end Double

namespace Numeral

/-- The digits of an integer with `places + 1` zeros behind a point. -/
def zeroFraction (n : Int) (places : Nat) : List Char :=
  ofInt n ++ '.' :: List.replicate (places + 1) '0'

end Numeral

namespace Decimal

theorem positional_zeroFraction (n : Int) (places : Nat) :
    Positional (Numeral.zeroFraction n places)
      ⟨n < 0, n.natAbs * 10 ^ (places + 1), -((places + 1 : Nat) : Int)⟩ := by
  have hzeros : IsDigits (List.replicate (places + 1) '0') :=
    ⟨List.cons_ne_nil _ _, fun c hc => by rw [List.eq_of_mem_replicate hc]; rfl⟩
  have h := Positional.fraction (n < 0) (isDigits_toDigits n.natAbs) hzeros
  rw [Nat.ofDigitChars_append, Nat.ofDigitChars_ten_toDigits, Nat.ofDigitChars_replicate_zero,
    List.length_replicate, Nat.mul_comm] at h
  rw [Numeral.zeroFraction, ofInt_eq_signText, List.append_assoc]
  exact h

end Decimal

namespace MemberValue

/-- The value declared by an integer with zeros behind a point. -/
def ofZeroFraction (n : Int) (places : Nat) : MemberValue :=
  classify (some (.ofList (Numeral.zeroFraction n places)))

variable {n : Int}

theorem ofZeroFraction_eq_ofDouble (h : (Double.ofInt n).isFinite = true) (places : Nat) :
    ofZeroFraction n places = ofDouble (.ofInt n) := by
  have hpos := Decimal.positional_zeroFraction n places
  have hround := Double.ofDecimal_of_units (d := ⟨n < 0, n.natAbs * 10 ^ (places + 1), _⟩) rfl rfl
  refine classify_of_positional hpos (by rwa [hround]) ?_
  have hwhole : Numeral.whole? (Numeral.zeroFraction n places) = none :=
    Option.eq_none_iff_forall_ne_some.mpr fun m hm => by
      have hexponent : -((places + 1 : Nat) : Int) = 0 := (hpos.of_whole? hm).1
      omega
  rw [Literal.value?, Literal.readLiteral?_of_positional hpos, hpos.read?, hwhole]
  exact congrArg some (congrArg ofDouble hround)

theorem ofDouble_eq_integer_iff {x : Double} {i : Int64} :
    ofDouble x = integer i ↔ x.toInt? = some i.toInt := by
  rcases ofDouble_cases x with ⟨m, hm, hfit, hx⟩ | ⟨hout, hx⟩
  · rw [hx, hm, integer.injEq, Option.some.injEq]
    refine ⟨fun h => ?_, fun h => ?_⟩
    · rw [← h, Int64.toInt_ofInt_of_le hfit.1 hfit.2]
    · rw [h, Int64.ofInt_toInt]
  · rw [hx]
    exact ⟨fun h => (by cases h), fun h => absurd ⟨i.le_toInt, i.toInt_lt⟩ (hout _ h)⟩

theorem ofDouble_ne_positional (x : Double) : ofDouble x ≠ positional := by
  rcases ofDouble_cases x with ⟨n, _, _, hx⟩ | ⟨_, hx⟩ <;> rw [hx] <;> exact fun h => by cases h

theorem constant_eq_integer_iff {v : MemberValue} (hv : v.Normalized) (hnumber : v ≠ positional)
    {i : Int64} {position : Nat} :
    v.constant position = (integer i).constant position ↔ v = integer i := by
  refine ⟨fun h => ?_, fun h => by rw [h]⟩
  have heffective : v.effective position = (integer i).effective position :=
    effective_eq_of_literal hv trivial (literal_eq_of_constant h)
  cases v with
  | positional => exact absurd rfl hnumber
  | _ => exact heffective

/-- **An integer declared with zeros behind a point is the double nearest it.** That is
the integer again, and the same constant, if a double holds it, and only then; up to
`2 ^ 53` all are held. Any other is silently an integer next to it, and those from the
middle between the last two doubles on are the float `2 ^ 63`. -/
theorem classify_zeroFraction (i : Int64) (places : Nat) :
    classify (some (Numeral.intText i.toInt)) = integer i ∧
    ofZeroFraction i.toInt places = ofDouble (.ofInt i.toInt) ∧
    (Double.ofInt i.toInt).IsNearest (i.toInt * 2 ^ 1074) 1 ∧
    (ofZeroFraction i.toInt places = integer i ↔ Double.IsExact i.toInt) ∧
    (∀ position, (ofZeroFraction i.toInt places).constant position =
      (integer i).constant position ↔ Double.IsExact i.toInt) ∧
    (i.toInt.natAbs ≤ 2 ^ 53 → ofZeroFraction i.toInt places = integer i) ∧
    (i.toInt < 2 ^ 63 - 512 → ∃ j : Int64, ofZeroFraction i.toInt places = integer j ∧
      (Double.ofInt i.toInt).toInt? = some j.toInt) ∧
    (2 ^ 63 - 512 ≤ i.toInt → ofZeroFraction i.toInt places = float (.ofInt i.toInt) ∧
      (Double.ofInt i.toInt).toInt? = some (2 ^ 63)) := by
  have hlow := i.le_toInt
  have hhigh := i.toInt_lt
  have hfinite : (Double.ofInt i.toInt).isFinite = true := Double.isFinite_ofInt (by omega)
  have hv := ofZeroFraction_eq_ofDouble hfinite places
  have hexact : ofZeroFraction i.toInt places = integer i ↔ Double.IsExact i.toInt := by
    rw [hv, ofDouble_eq_integer_iff]
    exact Double.toInt?_ofInt_iff hfinite
  obtain ⟨m, hm, hfits, hlast⟩ := Double.toInt?_ofInt_int64 ⟨hlow, hhigh⟩
  refine ⟨(classify_intText hfinite).trans (ofInt_toInt i), hv, Double.isNearest_ofInt hfinite,
    hexact, fun position => ?_, fun h => hexact.mpr (Double.isExact_of_le h), fun h => ?_,
    fun h => ?_⟩
  · have hnumber : ofZeroFraction i.toInt places ≠ positional := by
      rw [hv]
      exact ofDouble_ne_positional _
    exact (constant_eq_integer_iff (normalized_classify _) hnumber).trans hexact
  · obtain ⟨hmlow, hmhigh⟩ := hfits.mpr h
    have hj : (Int64.ofInt m).toInt = m := Int64.toInt_ofInt_of_le hmlow hmhigh
    refine ⟨.ofInt m, ?_, hm.trans (congrArg some hj.symm)⟩
    rw [hv, ofDouble_eq_integer_iff, hj]
    exact hm
  · refine ⟨?_, hlast h ▸ hm⟩
    rw [hv]
    refine ofDouble_of_not_fitsInt64 fun m' hm' hfit => ?_
    obtain rfl := Option.some.inj (hm.symm.trans hm')
    have hlt := hfits.mp hfit
    omega

theorem classify_zeroFraction_limits :
    ofZeroFraction (-9007199254740992) 0 = integer (-9007199254740992) ∧
    (∃ j, ofZeroFraction 9223372036854775295 1 = integer j) ∧
    ofZeroFraction 9223372036854775296 2 = float (.ofInt 9223372036854775296) := by
  obtain ⟨_, _, _, _, _, hexact, _⟩ := classify_zeroFraction (-9007199254740992) 0
  obtain ⟨_, _, _, _, _, _, hbelow, _⟩ := classify_zeroFraction 9223372036854775295 1
  obtain ⟨_, _, _, _, _, _, _, hpast⟩ := classify_zeroFraction 9223372036854775296 2
  obtain ⟨j, hj, _⟩ := hbelow (by decide)
  exact ⟨hexact (by decide), ⟨j, hj⟩, (hpast (by decide)).1⟩

/-- The first integer that no double holds becomes the one before it. -/
theorem fraction_can_change_integer :
    ¬(∀ i : Int64, classify (some (Numeral.intText i.toInt ++ ".0")) = integer i) ∧
      classify (some "9007199254740993.0") = integer 9007199254740992 := by
  have hbelow : classify (some "9007199254740993.0") = integer 9007199254740992 := by
    decide +kernel
  refine ⟨fun h => ?_, hbelow⟩
  have hsame : classify (some "9007199254740993.0") = integer 9007199254740993 :=
    h 9007199254740993
  exact absurd (hbelow.symm.trans hsame) (by decide)

end MemberValue

end SchemaSharp
