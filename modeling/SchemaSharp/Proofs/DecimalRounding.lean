/-
Which double a decimal is rounded to.

The size of a decimal is a fraction, and rounding looks at nothing but the sign
and this fraction: where `ofDecimal` answers without computing the power of ten,
it gives what the fraction rounds to (`ofDecimal_eq_ofRatio`). Rounding does not
cross a double: what is at most a double rounds to at most it, and the same from
above (`roundUnits_le`, `le_roundUnits`). The shortest decimal of a double rounds
to it (`ofDecimal_of_shortest?`).
-/
import SchemaSharp.Proofs.Shortest

namespace SchemaSharp

namespace Decimal

/-- The upper part of a decimal as a fraction. -/
def numerator (d : Decimal) : Nat :=
  match d.exponent with
  | .ofNat k => d.coefficient * 10 ^ k
  | .negSucc _ => d.coefficient

/-- The lower part, a power of ten. -/
def denominator (d : Decimal) : Nat :=
  match d.exponent with
  | .ofNat _ => 1
  | .negSucc k => 10 ^ (k + 1)

theorem denominator_pos (d : Decimal) : 0 < d.denominator := by
  unfold denominator
  split
  · exact Nat.one_pos
  · exact Nat.pow_pos (by decide)

theorem fraction_of_places {d : Decimal} {w : Nat} (h : d.exponent = -(w : Int)) :
    d.numerator = d.coefficient ∧ d.denominator = 10 ^ w := by
  unfold numerator denominator
  cases w with
  | zero =>
    have hz : d.exponent = .ofNat 0 := h
    rw [hz]
    exact ⟨Nat.mul_one _, rfl⟩
  | succ w =>
    have hn : d.exponent = .negSucc w := h
    rw [hn]
    exact ⟨rfl, rfl⟩

/-- Two decimals of the same sign and size. -/
def SameValue (d d' : Decimal) : Prop :=
  d.negative = d'.negative ∧ d.numerator * d'.denominator = d'.numerator * d.denominator

/-- The size is less than a whole number. -/
def Below (bound : Nat) (d : Decimal) : Prop := d.numerator < bound * d.denominator

theorem SameValue.below_iff {d d' : Decimal} (h : d.SameValue d') {bound : Nat} :
    d.Below bound ↔ d'.Below bound := by
  have hd := d.denominator_pos
  have hd' := d'.denominator_pos
  unfold Below
  rw [← Nat.mul_lt_mul_right hd', h.2, Nat.mul_right_comm, Nat.mul_lt_mul_right hd]

end Decimal

namespace Double

open Numeral

theorem roundUnits_eq_zero {a d : Nat} (h : 2 * a < d) : roundUnits a d = (0, 0) := by
  have hq : a / d = 0 := Nat.div_eq_of_lt (by omega)
  have hm : a % d = a := Nat.mod_eq_of_lt (by omega)
  have hs : nearestEven a (d * 2 ^ (Nat.log2 0 - 52)) = 0 := by
    rw [Nat.log2_zero, Nat.zero_sub, Nat.pow_zero, Nat.mul_one, nearestEven, hm, if_pos h, hq]
  unfold roundUnits
  dsimp only
  rw [hq, hs, Nat.log2_zero]
  rfl

/-- Less than half the smallest double is zero. -/
theorem ofRatio_eq_zero {negative : Bool} {a d : Nat} (h : 2 * a < d) :
    ofRatio negative a d = ofRatio negative 0 1 := by
  unfold ofRatio
  rw [roundUnits_eq_zero h, roundUnits_eq_zero (a := 0) (d := 1) (by decide)]

/-- From `2 ^ 1024` on a size is infinite. -/
theorem ofRatio_eq_infinite {negative : Bool} {a d k : Nat} (hk : 1024 + 1074 ≤ k)
    (h : 2 ^ k ≤ a / d) : ofRatio negative a d = infinite negative := by
  have hpos : 0 < a / d := Nat.lt_of_lt_of_le (Nat.two_pow_pos k) h
  have hlog : k ≤ (a / d).log2 := (Nat.le_log2 (Nat.ne_of_gt hpos)).mpr h
  have hexp : (a / d).log2 - 52 ≤ (roundUnits a d).2 := by
    unfold roundUnits
    dsimp only
    split <;> omega
  have hn : ¬Encodable (roundUnits a d).1 (roundUnits a d).2 := fun he => by
    have hle := he.2.2
    omega
  unfold ofRatio ofParts
  rw [dif_neg hn]

theorem ofScaledUp_eq_ofRatio (negative : Bool) (c k : Nat) :
    ofScaledUp negative c k = ofRatio negative (c * 10 ^ k * 2 ^ 1074) 1 := by
  unfold ofScaledUp
  by_cases hc : c = 0
  · rw [if_pos hc, hc, Nat.zero_mul, Nat.zero_mul]
  · rw [if_neg hc]
    split
    next hk =>
      symm
      refine ofRatio_eq_infinite (k := 2098) (Nat.le_refl _) ?_
      calc 2 ^ 2098 ≤ 10 ^ 309 * 2 ^ 1074 := by decide +kernel
        _ ≤ 10 ^ k * 2 ^ 1074 := Nat.mul_le_mul_right _ (Nat.pow_le_pow_right (by decide) hk)
        _ ≤ c * 10 ^ k * 2 ^ 1074 :=
          Nat.mul_le_mul_right _ (Nat.le_mul_of_pos_left _ (Nat.pos_of_ne_zero hc))
        _ = c * 10 ^ k * 2 ^ 1074 / 1 := (Nat.div_one _).symm
    next => rfl

theorem ofScaledDown_eq_ofRatio (negative : Bool) (c k : Nat) :
    ofScaledDown negative c k = ofRatio negative (c * 2 ^ 1074) (10 ^ k) := by
  unfold ofScaledDown
  split
  next hk =>
    symm
    refine ofRatio_eq_zero ?_
    -- Both bounds are for any `j`: the powers themselves are too large to be evaluated.
    have hc : ∀ j, 2 * (c * 2 ^ j) < 2 ^ (c.log2 + 1 + j + 1) := fun j => by
      rw [Nat.pow_succ', Nat.pow_add, Nat.mul_lt_mul_left Nat.two_pos]
      exact Nat.mul_lt_mul_of_pos_right Nat.lt_log2_self (Nat.two_pow_pos j)
    have hten : ∀ j, 2 ^ j ≤ 5 ^ k → 2 ^ (k + j) ≤ 10 ^ k := fun j h => by
      rw [Nat.pow_add, Nat.mul_pow 2 5 k]
      exact Nat.mul_le_mul_left _ h
    have hfive : 2 ^ 751 ≤ 5 ^ k :=
      calc 2 ^ 751 ≤ 5 ^ 325 := by decide +kernel
        _ ≤ 5 ^ k := Nat.pow_le_pow_right (by decide) (by omega)
    calc 2 * (c * 2 ^ 1074) < 2 ^ (c.log2 + 1 + 1074 + 1) := hc 1074
      _ ≤ 2 ^ (k + 751) := Nat.pow_le_pow_right (by decide) (by omega)
      _ ≤ 10 ^ k := hten 751 hfive
  next => rfl

/-- **A decimal rounds as its fraction does.** -/
theorem ofDecimal_eq_ofRatio (d : Decimal) :
    ofDecimal d = ofRatio d.negative (d.numerator * 2 ^ 1074) d.denominator := by
  unfold ofDecimal Decimal.numerator Decimal.denominator
  cases d.exponent with
  | ofNat k => exact ofScaledUp_eq_ofRatio ..
  | negSucc k => exact ofScaledDown_eq_ofRatio ..

theorem ofRatio_congr {negative : Bool} {a d a' d' : Nat} (hd : 0 < d) (hd' : 0 < d')
    (h : a * d' = a' * d) : ofRatio negative a d = ofRatio negative a' d' := by
  rw [← ofRatio_scale negative a d hd', h, Nat.mul_comm d, ofRatio_scale negative a' d' hd]

theorem ofDecimal_congr {d d' : Decimal} (h : d.SameValue d') : ofDecimal d = ofDecimal d' := by
  rw [ofDecimal_eq_ofRatio, ofDecimal_eq_ofRatio, h.1]
  refine ofRatio_congr d.denominator_pos d'.denominator_pos ?_
  rw [Nat.mul_right_comm, h.2, Nat.mul_right_comm]

theorem nearestEven_le_of_le_mul {a d q : Nat} (hd : 0 < d) (h : a ≤ q * d) :
    nearestEven a d ≤ q := by
  have hle : a / d ≤ q := Nat.div_le_of_le_mul (by rwa [Nat.mul_comm] at h)
  rcases Nat.lt_or_ge (a / d) q with hlt | hge
  · have hn := nearestEven_le a d
    omega
  · -- The whole of `q` can only be reached without a remainder.
    have hdm := Nat.div_add_mod a d
    have hq : a / d = q := by omega
    rw [hq, Nat.mul_comm] at hdm
    have ha : a = q * d := by omega
    rw [ha, nearestEven_mul_self q hd]

variable {a d s e : Nat}

/-- A size of 53 bits is a multiple of the unit that a quotient is rounded to, or
smaller than all that is rounded to this unit. -/
theorem units_cases (q : Nat) (hs : s < 2 ^ 53) :
    (∃ k, s * 2 ^ e = k * 2 ^ (q.log2 - 52)) ∨
      s * 2 ^ e < q / 2 ^ (q.log2 - 52) * 2 ^ (q.log2 - 52) := by
  rcases Nat.lt_or_ge e (q.log2 - 52) with he | he
  · right
    have hq : 2 ^ 52 ≤ q / 2 ^ (q.log2 - 52) := (div_two_pow_log2 q).2.resolve_right (by omega)
    calc s * 2 ^ e < 2 ^ 53 * 2 ^ e := Nat.mul_lt_mul_of_pos_right hs (Nat.two_pow_pos e)
      _ = 2 ^ (53 + e) := (Nat.pow_add ..).symm
      _ ≤ 2 ^ (52 + (q.log2 - 52)) := Nat.pow_le_pow_right (by decide) (by omega)
      _ = 2 ^ 52 * 2 ^ (q.log2 - 52) := Nat.pow_add ..
      _ ≤ _ := Nat.mul_le_mul_right _ hq
  · left
    refine ⟨s * 2 ^ (e - (q.log2 - 52)), ?_⟩
    rw [Nat.mul_assoc, ← Nat.pow_add, Nat.sub_add_cancel he]

/-- **What is at least a double rounds to at least it.** -/
theorem le_roundUnits (hd : 0 < d) (hs : s < 2 ^ 53) (h : s * 2 ^ e * d ≤ a) :
    s * 2 ^ e ≤ (roundUnits a d).1 * 2 ^ (roundUnits a d).2 := by
  have hq : s * 2 ^ e ≤ a / d := (Nat.le_div_iff_mul_le hd).mpr h
  have hn := le_nearestEven a (d * 2 ^ ((a / d).log2 - 52))
  rw [← Nat.div_div_eq_div_mul] at hn
  rw [roundUnits_value]
  refine Nat.le_trans ?_ (Nat.mul_le_mul_right _ hn)
  rcases units_cases (e := e) (a / d) hs with ⟨k, hk⟩ | hlt
  · rw [hk] at hq ⊢
    exact Nat.mul_le_mul_right _ ((Nat.le_div_iff_mul_le (Nat.two_pow_pos _)).mpr hq)
  · exact Nat.le_of_lt hlt

/-- **What is at most a double rounds to at most it.** -/
theorem roundUnits_le (hd : 0 < d) (hs : s < 2 ^ 53) (h : a ≤ s * 2 ^ e * d) :
    (roundUnits a d).1 * 2 ^ (roundUnits a d).2 ≤ s * 2 ^ e := by
  have hq : a / d ≤ s * 2 ^ e := Nat.div_le_of_le_mul (by rwa [Nat.mul_comm] at h)
  rw [roundUnits_value]
  rcases units_cases (e := e) (a / d) hs with ⟨k, hk⟩ | hlt
  · rw [hk] at h ⊢
    refine Nat.mul_le_mul_right _ (nearestEven_le_of_le_mul ?_ ?_)
    · exact Nat.mul_pos hd (Nat.two_pow_pos _)
    · rwa [Nat.mul_right_comm, Nat.mul_assoc] at h
  · have hdiv := Nat.div_mul_le_self (a / d) (2 ^ ((a / d).log2 - 52))
    omega

theorem ofRatio_eq_finite {negative negative' : Bool} {h : Encodable s e}
    (hr : ofRatio negative a d = finite negative' s e h) :
    negative = negative' ∧ roundUnits a d = (s, e) := by
  unfold ofRatio ofParts at hr
  split at hr
  next =>
    obtain ⟨rfl, hs, he⟩ := finite.inj hr
    exact ⟨rfl, Prod.ext hs he⟩
  next => cases hr

/-- The size of a decimal goes with that of the double it rounds to. -/
theorem units_of_ofDecimal {dec : Decimal} {negative : Bool} {h : Encodable s e}
    (hd : ofDecimal dec = finite negative s e h) :
    roundUnits (dec.numerator * 2 ^ 1074) dec.denominator = (s, e) := by
  rw [ofDecimal_eq_ofRatio] at hd
  exact (ofRatio_eq_finite hd).2

theorem ofDecimal_exactDecimal {negative : Bool} (h : Encodable s e) :
    ofDecimal (exactDecimal negative s e) = finite negative s e h := by
  obtain ⟨hnum, hden⟩ := Decimal.fraction_of_places (d := exactDecimal negative s e) (w := 1074) rfl
  have hcoef : (exactDecimal negative s e).coefficient = s * 2 ^ e * 5 ^ 1074 := rfl
  have hten : ∀ k, s * 2 ^ e * 5 ^ k * 2 ^ k * 1 = s * 2 ^ e * 10 ^ k := fun k => by
    rw [Nat.mul_one, Nat.mul_right_comm, Decimal.mul_two_pow_five_pow]
  rw [ofDecimal_eq_ofRatio, hnum, ← ofRatio_encodable negative h]
  refine ofRatio_congr (Decimal.denominator_pos _) Nat.one_pos ?_
  rw [hden, hcoef]
  exact hten 1074

/-- **What is written for a double reads back as it.** -/
theorem ofDecimal_of_shortest? {x : Double} {tie : Tie} {dec : Decimal}
    (hx : x.shortest? tie = some dec) : ofDecimal dec = x := by
  cases x with
  | finite negative s e h =>
    obtain rfl := Option.some.inj hx
    rcases shortestFor_cases tie (finite negative s e h) (exactDecimal negative s e) with
      ⟨hs, _⟩ | ⟨k, _, hk, _⟩
    · rw [hs]
      exact ofDecimal_exactDecimal h
    · exact (neighbour?_eq_some hk).1
  | infinite negative => cases hx
  | nan => cases hx

end Double

end SchemaSharp
