/-
What rounding to the nearest double keeps.

Rounding depends on the quotient alone (`roundUnits_scale`), gives a double
back for its exact value (`ofRatio_encodable`), stays finite in the range of
the doubles (`isFinite_ofRatio`), and never makes a fraction: a whole number
rounds to a whole one or to infinity (`ofRatio_whole`). So does every decimal
with a whole value, whatever its exponent (`ofDecimal_whole`).
-/
import SchemaSharp.Double.Rounding
import SchemaSharp.Proofs.Numeral

namespace SchemaSharp

namespace Double

open Numeral

theorem nearestEven_mul_self (q : Nat) {d : Nat} (hd : 0 < d) : nearestEven (q * d) d = q := by
  unfold nearestEven
  rw [Nat.mul_mod_left, Nat.mul_zero, if_pos hd, Nat.mul_div_cancel q hd]

theorem nearestEven_scale (a d : Nat) {c : Nat} (hc : 0 < c) :
    nearestEven (a * c) (d * c) = nearestEven a d := by
  have hm : 2 * (a % d * c) = 2 * (a % d) * c := (Nat.mul_assoc 2 (a % d) c).symm
  unfold nearestEven
  simp only [Nat.mul_div_mul_right _ _ hc, Nat.mul_mod_mul_right, hm, Nat.mul_lt_mul_right hc]

theorem le_nearestEven (a d : Nat) : a / d ≤ nearestEven a d := by
  unfold nearestEven
  split
  · exact Nat.le_refl _
  · split <;> omega

theorem nearestEven_le (a d : Nat) : nearestEven a d ≤ a / d + 1 := by
  unfold nearestEven
  split
  · omega
  · split <;> omega

theorem roundUnits_scale (a d : Nat) {c : Nat} (hc : 0 < c) :
    roundUnits (a * c) (d * c) = roundUnits a d := by
  unfold roundUnits
  simp only [Nat.mul_div_mul_right _ _ hc, Nat.mul_right_comm d c, nearestEven_scale _ _ hc]

theorem ofRatio_scale (negative : Bool) (a d : Nat) {c : Nat} (hc : 0 < c) :
    ofRatio negative (a * c) (d * c) = ofRatio negative a d := by
  unfold ofRatio
  rw [roundUnits_scale a d hc]

theorem roundUnits_value (a d : Nat) :
    (roundUnits a d).1 * 2 ^ (roundUnits a d).2 =
      nearestEven a (d * 2 ^ ((a / d).log2 - 52)) * 2 ^ ((a / d).log2 - 52) := by
  unfold roundUnits
  dsimp only
  split
  next h =>
    rw [h, ← Nat.pow_add, ← Nat.pow_add]
    congr 1
    omega
  next => rfl

theorem log2_encodable {s e : Nat} (h : Encodable s e) : (s * 2 ^ e).log2 - 52 = e := by
  obtain ⟨hs, hnormal | rfl, _⟩ := h
  · have hpos : s * 2 ^ e ≠ 0 := by
      have hp := Nat.two_pow_pos e
      have hm := Nat.mul_pos (show 0 < s by omega) hp
      omega
    have hlog : (s * 2 ^ e).log2 = 52 + e := by
      refine (Nat.log2_eq_iff hpos).mpr ⟨?_, ?_⟩
      · rw [Nat.pow_add]
        exact Nat.mul_le_mul_right _ hnormal
      · rw [show 52 + e + 1 = 53 + e by omega, Nat.pow_add]
        exact Nat.mul_lt_mul_of_pos_right hs (Nat.two_pow_pos e)
    omega
  · rw [Nat.pow_zero, Nat.mul_one]
    by_cases hz : s = 0
    · rw [hz, Nat.log2_zero]
    · have hlt := (Nat.log2_lt hz).mpr hs
      omega

/-- **A double is the rounding of its exact value.** -/
theorem ofRatio_encodable (negative : Bool) {s e : Nat} (h : Encodable s e) :
    ofRatio negative (s * 2 ^ e) 1 = .finite negative s e h := by
  have hs : s ≠ 2 ^ 53 := Nat.ne_of_lt h.1
  have hr : roundUnits (s * 2 ^ e) 1 = (s, e) := by
    unfold roundUnits
    simp only [Nat.div_one, log2_encodable h, Nat.one_mul,
      nearestEven_mul_self s (Nat.two_pow_pos e), hs, if_false]
  rw [ofRatio, hr]
  exact dif_pos h

theorem eq_of_units {negative : Bool} {s e s' e' : Nat} {h : Encodable s e} {h' : Encodable s' e'}
    (hu : s * 2 ^ e = s' * 2 ^ e') : finite negative s e h = finite negative s' e' h' := by
  rw [← ofRatio_encodable negative h, ← ofRatio_encodable negative h', hu]

/-- Only zero is the value of two finite doubles. -/
theorem eq_of_scaled {x y : Double} {m : Int} (hx : x.scaled? = some m) (hy : y.scaled? = some m)
    (hm : m ≠ 0) : x = y := by
  cases x with
  | finite negative s e h =>
    cases y with
    | finite negative' s' e' h' =>
      obtain rfl : signed negative (s * 2 ^ e) = m := Option.some.inj hx
      have heq : signed negative' (s' * 2 ^ e') = signed negative (s * 2 ^ e) :=
        Option.some.inj hy
      have hu : s' * 2 ^ e' = s * 2 ^ e := by
        have habs := congrArg Int.natAbs heq
        rwa [natAbs_signed, natAbs_signed] at habs
      rw [hu] at heq
      by_cases hsign : negative = negative'
      · subst hsign
        exact eq_of_units hu.symm
      · rw [Bool.eq_not.mpr hsign, signed_not] at heq hm
        omega
    | infinite _ => cases hy
    | nan => cases hy
  | infinite _ => cases hx
  | nan => cases hx

/-- What is cut off by the exponent leaves 53 bits, and uses all of them
unless the exponent is the smallest one. -/
theorem div_two_pow_log2 (q : Nat) :
    q / 2 ^ (q.log2 - 52) < 2 ^ 53 ∧ (2 ^ 52 ≤ q / 2 ^ (q.log2 - 52) ∨ q.log2 - 52 = 0) := by
  have hpos : 0 < 2 ^ (q.log2 - 52) := Nat.two_pow_pos _
  constructor
  · have hlt : q < 2 ^ (q.log2 + 1) := Nat.lt_log2_self
    have hle : 2 ^ (q.log2 + 1) ≤ 2 ^ (53 + (q.log2 - 52)) :=
      Nat.pow_le_pow_right (by decide) (by omega)
    rw [Nat.pow_add 2 53] at hle
    exact (Nat.div_lt_iff_lt_mul hpos).mpr (Nat.lt_of_lt_of_le hlt hle)
  · by_cases he : q.log2 - 52 = 0
    · exact .inr he
    · left
      have hq : q ≠ 0 := by
        intro hz
        rw [hz, Nat.log2_zero] at he
        exact he rfl
      have hle : 2 ^ q.log2 ≤ q := Nat.log2_self_le hq
      have hexp : q.log2 = 52 + (q.log2 - 52) := by omega
      rw [hexp, Nat.pow_add] at hle
      exact (Nat.le_div_iff_mul_le hpos).mpr hle

/-- **Rounding gives a significand and an exponent that occur**, unless the
exponent is too large. -/
theorem encodable_roundUnits {a d : Nat} (h : (roundUnits a d).2 ≤ 2045) :
    Encodable (roundUnits a d).1 (roundUnits a d).2 := by
  obtain ⟨hlt, hge⟩ := div_two_pow_log2 (a / d)
  have hle := nearestEven_le a (d * 2 ^ ((a / d).log2 - 52))
  have hle' := le_nearestEven a (d * 2 ^ ((a / d).log2 - 52))
  rw [← Nat.div_div_eq_div_mul] at hle hle'
  unfold roundUnits at h ⊢
  dsimp only at h ⊢
  split
  next hs =>
    rw [if_pos hs] at h
    exact ⟨Nat.pow_lt_pow_right (by decide) (by decide), .inl (Nat.le_refl _), h⟩
  next hs =>
    rw [if_neg hs] at h
    exact ⟨by omega, hge.imp_left (by omega), h⟩

theorem roundUnits_exponent_le (a d : Nat) : (roundUnits a d).2 ≤ (a / d).log2 - 52 + 1 := by
  unfold roundUnits
  dsimp only
  split <;> omega

theorem isFinite_ofRatio {negative : Bool} {a d : Nat} (h : (a / d).log2 ≤ 2096) :
    (ofRatio negative a d).isFinite = true := by
  have hexp := roundUnits_exponent_le a d
  unfold ofRatio ofParts
  rw [dif_pos (encodable_roundUnits (by omega))]
  rfl

theorem log2_mul_two_pow_le {n m k : Nat} (h : n < 2 ^ m) : (n * 2 ^ k).log2 ≤ m + k := by
  by_cases hz : n = 0
  · rw [hz, Nat.zero_mul, Nat.log2_zero]
    exact Nat.zero_le _
  · have hpos : 0 < 2 ^ k := Nat.two_pow_pos k
    have hlt : n * 2 ^ k < 2 ^ (m + k) := by
      rw [Nat.pow_add]
      exact Nat.mul_lt_mul_of_pos_right h hpos
    have hne : n * 2 ^ k ≠ 0 := Nat.mul_ne_zero hz (Nat.ne_of_gt hpos)
    exact Nat.le_of_lt ((Nat.log2_lt hne).mpr hlt)

/-- Every whole number of 65 bits is in the range of the doubles. -/
theorem isFinite_ofInt {n : Int} (h : n.natAbs < 2 ^ 65) : (ofInt n).isFinite = true := by
  refine isFinite_ofRatio ?_
  rw [Nat.div_one]
  exact Nat.le_trans (log2_mul_two_pow_le h) (by decide)

theorem signed_mul_ediv (negative : Bool) (m : Nat) {u : Nat} (hu : 0 < u) :
    signed negative (m * u) % u = 0 ∧ signed negative (m * u) / u = signed negative m := by
  have hu' : (u : Int) ≠ 0 := by omega
  have hs : signed negative (m * u) = signed negative m * u := by
    cases negative with
    | false => exact Int.natCast_mul m u
    | true =>
      change -((m * u : Nat) : Int) = -(m : Int) * u
      rw [Int.natCast_mul, Int.neg_mul]
  rw [hs]
  exact ⟨Int.mul_emod_left _ _, Int.mul_ediv_cancel _ hu'⟩

theorem dvd_of_signed_emod {negative : Bool} {a u : Nat} (h : signed negative a % u = 0) :
    u ∣ a := by
  have hd := Int.dvd_of_emod_eq_zero h
  rwa [← Int.natAbs_dvd_natAbs, natAbs_signed, Int.natAbs_natCast] at hd

/-- **A finite double is a whole number if its units make one up.** -/
theorem toInt?_finite {negative : Bool} {s e : Nat} {h : Encodable s e} {n : Int} :
    (finite negative s e h).toInt? = some n ↔
      ∃ m : Nat, s * 2 ^ e = m * 2 ^ 1074 ∧ n = signed negative m := by
  have hscaled : (finite negative s e h).scaled? = some (signed negative (s * 2 ^ e)) := rfl
  have hcast : ∀ k : Nat, (2 : Int) ^ k = ((2 ^ k : Nat) : Int) := fun k =>
    (Int.natCast_pow 2 k).symm
  unfold toInt?
  rw [hscaled, Option.bind_some, hcast]
  generalize 1074 = k
  have hu : 0 < 2 ^ k := Nat.two_pow_pos k
  generalize s * 2 ^ e = a
  generalize 2 ^ k = u at hu
  refine ⟨fun hn => ?_, fun hn => ?_⟩
  · split at hn
    next hz =>
      obtain ⟨m, rfl⟩ := dvd_of_signed_emod hz
      rw [Nat.mul_comm u m, (signed_mul_ediv negative m hu).2] at hn
      exact ⟨m, Nat.mul_comm u m, (Option.some.inj hn).symm⟩
    next => cases hn
  · obtain ⟨m, rfl, rfl⟩ := hn
    obtain ⟨hz, hq⟩ := signed_mul_ediv negative m hu
    rw [if_pos hz, hq]

/-- Rounding a whole number keeps it whole: small ones are doubles, and large
doubles have no fraction. -/
theorem roundUnits_whole (n k : Nat) :
    2 ^ k ∣ (roundUnits (n * 2 ^ k) 1).1 * 2 ^ (roundUnits (n * 2 ^ k) 1).2 := by
  rw [roundUnits_value, Nat.one_mul]
  generalize (n * 2 ^ k / 1).log2 - 52 = e
  rcases Nat.le_total e k with he | he
  · have hsplit : n * 2 ^ k = n * 2 ^ (k - e) * 2 ^ e := by
      rw [Nat.mul_assoc, ← Nat.pow_add, Nat.sub_add_cancel he]
    rw [hsplit, nearestEven_mul_self _ (Nat.two_pow_pos e), ← hsplit]
    exact Nat.dvd_mul_left _ _
  · exact Nat.dvd_trans (Nat.pow_dvd_pow 2 he) (Nat.dvd_mul_left _ _)

theorem ofRatio_whole {negative : Bool} {n : Nat}
    (h : (ofRatio negative (n * 2 ^ 1074) 1).isFinite = true) :
    ∃ m, (ofRatio negative (n * 2 ^ 1074) 1).toInt? = some m := by
  obtain ⟨m, hm⟩ := roundUnits_whole n 1074
  unfold ofRatio ofParts at h ⊢
  split at h
  next he =>
    rw [dif_pos he]
    exact ⟨_, toInt?_finite.mpr ⟨m, by rw [hm, Nat.mul_comm], rfl⟩⟩
  next => cases h

theorem ofScaledDown_of_dvd (negative : Bool) {c k : Nat} (h : 10 ^ k ∣ c) :
    ofScaledDown negative c k = ofRatio negative (c / 10 ^ k * 2 ^ 1074) 1 := by
  obtain ⟨n, rfl⟩ := h
  have hten : 0 < 10 ^ k := Nat.pow_pos (by decide)
  rw [Nat.mul_div_cancel_left n hten]
  unfold ofScaledDown
  by_cases hn : n = 0
  · have hz := ofRatio_scale negative 0 1 hten
    rw [Nat.zero_mul, Nat.one_mul] at hz
    rw [hn, Nat.mul_zero, Nat.zero_mul, hz, ite_self]
  · -- The quotient is at least one, so it is far from the smallest double.
    have hlog : k ≤ (10 ^ k * n).log2 := by
      refine (Nat.le_log2 (Nat.mul_ne_zero (by omega) hn)).mpr ?_
      have h2 : 2 ^ k ≤ 10 ^ k := Nat.pow_le_pow_left (by decide) k
      have h10 : 10 ^ k ≤ 10 ^ k * n := Nat.le_mul_of_pos_right _ (by omega)
      omega
    rw [if_neg (by omega), Nat.mul_assoc, Nat.mul_comm (10 ^ k)]
    have hs := ofRatio_scale negative (n * 2 ^ 1074) 1 hten
    rwa [Nat.one_mul] at hs

theorem ofDecimal_of_units {d : Decimal} {m w : Nat} (hc : d.coefficient = m * 10 ^ w)
    (he : d.exponent = -(w : Int)) : ofDecimal d = ofRatio d.negative (m * 2 ^ 1074) 1 := by
  unfold ofDecimal
  cases w with
  | zero =>
    have hz : d.exponent = .ofNat 0 := he
    rw [Nat.pow_zero, Nat.mul_one] at hc
    rw [hz]
    dsimp only
    rw [ofScaledUp, hc, Nat.pow_zero, Nat.mul_one]
    by_cases hm : m = 0
    · simp only [hm, if_true, Nat.zero_mul]
    · rw [if_neg hm, if_neg (by decide)]
  | succ w =>
    have hn : d.exponent = .negSucc w := he
    have hdvd : 10 ^ (w + 1) ∣ d.coefficient := hc ▸ Nat.dvd_mul_left _ _
    rw [hn]
    dsimp only
    rw [ofScaledDown_of_dvd _ hdvd, hc, Nat.mul_div_cancel _ (Nat.pow_pos (by decide))]

/-- A decimal that is whole rounds as the whole number does, unless it is too
large. -/
theorem ofDecimal_of_magnitude {d : Decimal} {n : Nat} (h : d.magnitude? = some n) :
    ofDecimal d = ofRatio d.negative (n * 2 ^ 1074) 1 ∨ ofDecimal d = infinite d.negative := by
  unfold ofDecimal
  cases hk : d.exponent with
  | ofNat k =>
    rw [Decimal.magnitude?, hk, Option.some.injEq] at h
    subst h
    dsimp only
    rw [ofScaledUp]
    by_cases hc : d.coefficient = 0
    · simp only [hc, if_true, Nat.zero_mul, true_or]
    · by_cases hl : 309 ≤ k
      · simp only [hc, hl, if_false, if_true, or_true]
      · simp only [hc, hl, if_false, true_or]
  | negSucc k =>
    rw [Decimal.magnitude?, hk] at h
    dsimp only at h
    split at h
    next hm =>
      cases h
      exact .inl (ofScaledDown_of_dvd _ (Nat.dvd_of_mod_eq_zero hm))
    next => cases h

/-- **No fraction comes from a whole decimal.** -/
theorem ofDecimal_whole {d : Decimal} {n : Nat} (h : d.magnitude? = some n)
    (hf : (ofDecimal d).isFinite = true) : ∃ m, (ofDecimal d).toInt? = some m := by
  rcases ofDecimal_of_magnitude h with hr | hi
  · rw [hr] at hf ⊢
    exact ofRatio_whole hf
  · rw [hi] at hf
    cases hf

end Double

end SchemaSharp
