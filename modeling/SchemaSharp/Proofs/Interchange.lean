/-
Doubles as words of the interchange format.

A word has a sign, an exponent field of eleven bits and a fraction of 52 bits.
`Double.wordValue?` says which number it stands for, as a rational number and without the
significands and units that doubles are made of. Reading a word keeps that number
(`value?_ofBits`) and all else that the word tells, unless it is a NaN (`toBits_ofBits`).
-/
import Mathlib.Data.Rat.Cast.Order
import Mathlib.Tactic.FieldSimp
import Mathlib.Tactic.Ring
import SchemaSharp.Proofs.Rounding

namespace SchemaSharp

namespace Double

open Numeral

/-- The exact value of a finite double. -/
def value? (x : Double) : Option ℚ := x.scaled?.map fun m : ℤ => (m : ℚ) * 2 ^ (-1074 : ℤ)

theorem toInt?_eq_some_iff {x : Double} {n : Int} :
    x.toInt? = some n ↔ x.scaled? = some (n * 2 ^ 1074) := by
  unfold toInt?
  have hu : (0 : Int) < 2 ^ 1074 := Int.pow_pos (by decide)
  generalize (2 : Int) ^ 1074 = u at hu
  cases x.scaled? with
  | none => simp
  | some m =>
    rw [Option.bind_some, Option.some.injEq]
    refine ⟨fun h => ?_, fun h => ?_⟩
    · split at h
      next hm =>
        rw [← Option.some.inj h]
        exact (Int.ediv_mul_cancel (Int.dvd_of_emod_eq_zero hm)).symm
      next => cases h
    · rw [h, if_pos (Int.mul_emod_left n u), Int.mul_ediv_cancel n (Int.ne_of_gt hu)]

theorem mul_zpow_neg_eq_iff {m n : ℤ} (k : ℕ) :
    (m : ℚ) * 2 ^ (-(k : ℤ)) = n ↔ m = n * ((2 ^ k : ℕ) : ℤ) := by
  have hu : ((2 ^ k : ℕ) : ℚ) ≠ 0 := Nat.cast_ne_zero.mpr (Nat.two_pow_pos k).ne'
  have hpow : (2 : ℚ) ^ (-(k : ℤ)) = ((2 ^ k : ℕ) : ℚ)⁻¹ := by
    rw [zpow_neg, zpow_natCast]
    norm_cast
  rw [hpow, mul_inv_eq_iff_eq_mul₀ hu]
  norm_cast

theorem value?_eq_int_iff {x : Double} {n : Int} : x.value? = some (n : ℚ) ↔ x.toInt? = some n := by
  have hcast : ∀ k : ℕ, (2 : Int) ^ k = ((2 ^ k : ℕ) : ℤ) := fun k => (Int.natCast_pow 2 k).symm
  rw [toInt?_eq_some_iff, value?, Option.map_eq_some_iff, hcast]
  refine ⟨?_, fun h => ⟨_, h, (mul_zpow_neg_eq_iff 1074).mpr rfl⟩⟩
  rintro ⟨m, hm, h⟩
  rw [hm, (mul_zpow_neg_eq_iff 1074).mp h]

/-- The first bit. -/
def signField (word : UInt64) : Bool := 2 ^ 63 ≤ word.toNat

/-- The next eleven bits. -/
def exponentField (word : UInt64) : ℕ := word.toNat / 2 ^ 52 % 2 ^ 11

/-- The last 52 bits. -/
def fractionField (word : UInt64) : ℕ := word.toNat % 2 ^ 52

/-- The number that a word stands for. With a full exponent field it is none. -/
def wordValue? (word : UInt64) : Option ℚ :=
  let sign : ℚ := if signField word then -1 else 1
  let fraction : ℚ := fractionField word / 2 ^ (52 : ℤ)
  if exponentField word = 2 ^ 11 - 1 then none
  else if exponentField word = 0 then some (sign * fraction * 2 ^ (-1022 : ℤ))
  else some (sign * (1 + fraction) * 2 ^ ((exponentField word : ℤ) - 1023))

variable (word : UInt64)

theorem toNat_eq_fields : word.toNat =
    (if signField word then 2 ^ 63 else 0) + exponentField word * 2 ^ 52 + fractionField word := by
  have hlt := word.toNat_lt
  simp only [signField, exponentField, fractionField, decide_eq_true_eq]
  split <;> omega

theorem exponentField_lt : exponentField word < 2 ^ 11 := Nat.mod_lt _ (by decide)

theorem fractionField_lt : fractionField word < 2 ^ 52 := Nat.mod_lt _ (by decide)

/-- The significand has a leading one unless the exponent field is zero. -/
def significand : ℕ :=
  if exponentField word = 0 then fractionField word else 2 ^ 52 + fractionField word

theorem encodable_fields (h : exponentField word ≠ 2 ^ 11 - 1) :
    Encodable (significand word) (exponentField word - 1) := by
  have hexponent := exponentField_lt word
  have hfraction := fractionField_lt word
  unfold Encodable significand
  split <;> omega

theorem ofBits_eq_fields : ofBits word =
    if h : exponentField word = 2 ^ 11 - 1 then
      if fractionField word = 0 then infinite (signField word) else nan
    else finite (signField word) (significand word) (exponentField word - 1)
      (encodable_fields word h) := by
  have hlt := word.toNat_lt
  have hsign : (word >>> 63 == 1) = signField word := by
    rw [signField, Bool.eq_iff_iff, beq_iff_eq, ← UInt64.toNat_inj, UInt64.toNat_shiftRight,
      Nat.shiftRight_eq_div_pow, decide_eq_true_eq]
    change word.toNat / 2 ^ 63 = 1 ↔ _
    omega
  have hexponent : (word >>> 52 &&& 0x7ff).toNat = exponentField word := by
    rw [UInt64.toNat_and, UInt64.toNat_shiftRight, Nat.shiftRight_eq_div_pow]
    exact Nat.and_two_pow_sub_one_eq_mod _ 11
  have hfraction : (word &&& 0xfffffffffffff).toNat = fractionField word := by
    rw [UInt64.toNat_and]
    exact Nat.and_two_pow_sub_one_eq_mod _ 52
  unfold ofBits
  rw [hsign, hexponent, hfraction]
  by_cases h : exponentField word = 2 ^ 11 - 1
  · rw [dif_pos h]
    exact if_pos h
  · have hparts : ofParts (signField word) (significand word) (exponentField word - 1) =
        finite (signField word) (significand word) (exponentField word - 1)
          (encodable_fields word h) := dif_pos _
    rw [dif_neg h, ← hparts, significand]
    refine (if_neg h).trans ?_
    by_cases hz : exponentField word = 0
    · rw [if_pos hz, if_pos hz, hz]
    · rw [if_neg hz, if_neg hz]

/-- **A word is told by what it stands for**, unless it is a NaN. -/
theorem toBits_ofBits : ofBits word = nan ∨ (ofBits word).toBits = word := by
  have hfields := toNat_eq_fields word
  have hexponent := exponentField_lt word
  have hfraction := fractionField_lt word
  have hlt := word.toNat_lt
  rw [ofBits_eq_fields]
  split
  next hfull =>
    split
    next hz =>
      right
      rw [← UInt64.toNat_inj, toBits, UInt64.toNat_ofNat', hfields, hfull, hz]
      refine Nat.mod_eq_of_lt ?_
      split <;> decide
    next => exact .inl rfl
  next hfull =>
    right
    rw [← UInt64.toNat_inj, toBits, UInt64.toNat_ofNat', significand, ← Nat.mod_eq_of_lt hlt,
      hfields]
    congr 1
    by_cases hz : exponentField word = 0
    · rw [if_pos hz, if_pos hfraction, hz, Nat.zero_mul, Nat.add_zero]
    · rw [if_neg hz, if_neg (by omega), Nat.add_sub_cancel_left, Nat.sub_add_cancel (by omega)]

theorem value?_finite {negative : Bool} {s e : ℕ} {h : Encodable s e} :
    (finite negative s e h).value? =
      some ((if negative then -1 else 1 : ℚ) * s * 2 ^ ((e : ℤ) - 1074)) := by
  have hscaled : (finite negative s e h).scaled? = some (signed negative (s * 2 ^ e)) := rfl
  have hpow : (2 : ℚ) ^ ((e : ℤ) - 1074) = 2 ^ e * 2 ^ (-1074 : ℤ) := by
    rw [sub_eq_add_neg, zpow_add₀ two_ne_zero, zpow_natCast]
  rw [value?, hscaled, Option.map_some, hpow, signed]
  generalize (2 : ℚ) ^ (-1074 : ℤ) = unit
  cases negative <;> simp [mul_assoc]

theorem value?_ofBits : (ofBits word).value? = wordValue? word := by
  rw [ofBits_eq_fields, wordValue?]
  by_cases hfull : exponentField word = 2 ^ 11 - 1
  · rw [dif_pos hfull, if_pos hfull]
    split <;> rfl
  · rw [dif_neg hfull, if_neg hfull, value?_finite, significand]
    have hplaces : (2 : ℚ) ^ (52 : ℤ) ≠ 0 := zpow_ne_zero 52 two_ne_zero
    by_cases hz : exponentField word = 0
    · have hunit : (2 : ℚ) ^ (((0 - 1 : ℕ) : ℤ) - 1074) = 2 ^ (-1022 : ℤ) / 2 ^ (52 : ℤ) := by
        rw [← zpow_sub₀ two_ne_zero]
        rfl
      rw [if_pos hz, if_pos hz, hz, hunit]
      exact congrArg some (by ring)
    · obtain ⟨k, hk⟩ := Nat.exists_eq_succ_of_ne_zero hz
      have hunit : (2 : ℚ) ^ ((k : ℤ) - 1074) = 2 ^ (((k + 1 : ℕ) : ℤ) - 1023) / 2 ^ (52 : ℤ) := by
        rw [← zpow_sub₀ two_ne_zero]
        exact congrArg _ (by omega)
      rw [if_neg hz, if_neg hz, hk, Nat.succ_sub_one, hunit]
      have hone : ((2 ^ 52 + fractionField word : ℕ) : ℚ) = 2 ^ (52 : ℤ) + fractionField word := by
        rw [Nat.cast_add]
        rfl
      rw [hone]
      refine congrArg some ?_
      field_simp

theorem wordValue?_eq_int_iff {word : UInt64} {n : Int} :
    wordValue? word = some (n : ℚ) ↔ (ofBits word).toInt? = some n := by
  rw [← value?_ofBits, value?_eq_int_iff]

end Double

end SchemaSharp
