/-
Rounding is to the nearest double.

`IsNearest` says what is meant, with no word about how it is computed: no finite
double is nearer to a fraction, and of two that are equally near it is the one with
an even significand. There is only one such value (`IsNearest.unique`), and rounding
finds it: whole numbers come first (`dist_nearestEven_le`), then units of the last
place (`dist_roundUnits_le`), then signs (`isNearest_ofRatio`).
-/
import Mathlib.Data.Nat.Dist
import SchemaSharp.Proofs.DecimalRounding

namespace SchemaSharp

namespace Double

open Numeral

/-- Whether the last bit of a finite double is not set. -/
def hasEvenSignificand : Double → Bool
  | finite _ s _ _ => s % 2 = 0
  | _ => false

/-- No finite double is nearer to `a / d` units of `2 ^ -1074`, and of two that are
equally near this is the one with an even significand. -/
def IsNearest (x : Double) (a : Int) (d : Nat) : Prop :=
  ∃ m, x.scaled? = some m ∧ ∀ y k, scaled? y = some k →
    (m * d - a).natAbs ≤ (k * d - a).natAbs ∧
    ((m * d - a).natAbs = (k * d - a).natAbs → k = m ∨ x.hasEvenSignificand = true)

theorem nearestEven_cases (a d : Nat) :
    (nearestEven a d = a / d ∧ 2 * (a % d) ≤ d) ∨
    (nearestEven a d = a / d + 1 ∧ d ≤ 2 * (a % d)) := by
  unfold nearestEven
  split
  · exact .inl ⟨rfl, by omega⟩
  · split
    · exact .inr ⟨rfl, by omega⟩
    · rcases Nat.mod_two_eq_zero_or_one (a / d) with h | h
      · exact .inl ⟨by omega, by omega⟩
      · exact .inr ⟨by omega, by omega⟩

/-- In the middle the even one is taken. -/
theorem nearestEven_of_tie {a d : Nat} (h : 2 * (a % d) = d) : nearestEven a d % 2 = 0 := by
  unfold nearestEven
  rw [if_neg (by omega), if_neg (by omega)]
  omega

theorem mul_cases (k q d : Nat) : k * d + d ≤ q * d ∨ k = q ∨ q * d + d ≤ k * d := by
  rw [← Nat.succ_mul, ← Nat.succ_mul]
  rcases Nat.lt_trichotomy k q with h | h | h
  · exact .inl (Nat.mul_le_mul_right d h)
  · exact .inr (.inl h)
  · exact .inr (.inr (Nat.mul_le_mul_right d h))

variable {a d : Nat}

/-- **No multiple of `d` is nearer to `a`.** -/
theorem dist_nearestEven_le (hd : 0 < d) (k : Nat) :
    Nat.dist a (nearestEven a d * d) ≤ Nat.dist a (k * d) := by
  have hdm := Nat.div_add_mod' a d
  have hr := Nat.mod_lt a hd
  have hk := mul_cases k (a / d) d
  unfold Nat.dist
  rcases nearestEven_cases a d with ⟨hq, h2⟩ | ⟨hq, h2⟩
  · rw [hq]
    rcases hk with hk | rfl | hk <;> omega
  · rw [hq, Nat.succ_mul]
    rcases hk with hk | rfl | hk <;> omega

/-- **Another multiple of `d` as near leaves a tie.** -/
theorem nearestEven_tie (hd : 0 < d) {k : Nat}
    (h : Nat.dist a (nearestEven a d * d) = Nat.dist a (k * d)) :
    k = nearestEven a d ∨ nearestEven a d % 2 = 0 := by
  by_cases htie : 2 * (a % d) = d
  · exact .inr (nearestEven_of_tie htie)
  · left
    have hdm := Nat.div_add_mod' a d
    have hr := Nat.mod_lt a hd
    unfold Nat.dist at h
    rcases nearestEven_cases a d with ⟨hq, h2⟩ | ⟨hq, h2⟩
    · rw [hq] at h ⊢
      rcases mul_cases k (a / d) d with hk | hk | hk <;> omega
    · rw [hq] at h ⊢
      have hstep : (a / d + 1) * d = a / d * d + d := Nat.succ_mul _ _
      rcases mul_cases k (a / d + 1) d with hk | hk | hk <;> omega

/-- Above an odd number rounding goes up from the middle on. -/
theorem nearestEven_le_iff {q : Nat} (hd : 0 < d) (hq : q % 2 = 1) :
    nearestEven a d ≤ q ↔ 2 * a < (2 * q + 1) * d := by
  have hdm := Nat.div_add_mod' a d
  have hr := Nat.mod_lt a hd
  have hle := le_nearestEven a d
  have hmiddle : (2 * q + 1) * d = 2 * (q * d) + d := by
    rw [Nat.add_mul, Nat.one_mul, Nat.mul_assoc]
  rw [hmiddle]
  rcases mul_cases (a / d) q d with hk | rfl | hk
  · have hlt : a / d < q := Nat.lt_of_mul_lt_mul_right (a := d) (by omega)
    have hn := nearestEven_le a d
    omega
  · by_cases htie : 2 * (a % d) = d
    · have heven := nearestEven_of_tie htie
      omega
    · rcases nearestEven_cases a d with ⟨hn, h2⟩ | ⟨hn, h2⟩ <;> omega
  · have hlt : q < a / d := Nat.lt_of_mul_lt_mul_right (a := d) (by omega)
    omega

/-- An even quotient stays even where it moves to the next exponent. -/
theorem even_roundUnits (h : nearestEven a (d * 2 ^ ((a / d).log2 - 52)) % 2 = 0) :
    (roundUnits a d).1 % 2 = 0 := by
  unfold roundUnits
  dsimp only
  split
  · have heven : 2 ^ 52 % 2 = 0 := by decide
    exact heven
  · exact h

variable {s e : Nat}

/-- **No double is nearer than the rounded quotient**, and only a tie leaves another one
as near. -/
theorem dist_roundUnits_le (hd : 0 < d) (hs : s < 2 ^ 53) :
    Nat.dist a ((roundUnits a d).1 * 2 ^ (roundUnits a d).2 * d) ≤ Nat.dist a (s * 2 ^ e * d) ∧
    (Nat.dist a ((roundUnits a d).1 * 2 ^ (roundUnits a d).2 * d) =
        Nat.dist a (s * 2 ^ e * d) →
      s * 2 ^ e = (roundUnits a d).1 * 2 ^ (roundUnits a d).2 ∨ (roundUnits a d).1 % 2 = 0) := by
  have hD : 0 < d * 2 ^ ((a / d).log2 - 52) := Nat.mul_pos hd (Nat.two_pow_pos _)
  have hside (q : Nat) : q * 2 ^ ((a / d).log2 - 52) * d = q * (d * 2 ^ ((a / d).log2 - 52)) := by
    rw [Nat.mul_assoc, Nat.mul_comm d]
  rw [roundUnits_value, hside]
  rcases units_cases (e := e) (a / d) hs with ⟨k, hk⟩ | hlt
  · rw [hk, hside]
    refine ⟨dist_nearestEven_le hD k, fun htie => ?_⟩
    rcases nearestEven_tie hD htie with rfl | heven
    · exact .inl rfl
    · exact .inr (even_roundUnits heven)
  · -- The multiple of the unit below the quotient is nearer already.
    have hbelow := dist_nearestEven_le (a := a) hD (a / (d * 2 ^ ((a / d).log2 - 52)))
    have hle := Nat.div_mul_le_self a (d * 2 ^ ((a / d).log2 - 52))
    have hmul := Nat.mul_lt_mul_of_pos_right hlt hd
    rw [Nat.div_div_eq_div_mul, hside] at hmul
    have hstrict : Nat.dist a (nearestEven a (d * 2 ^ ((a / d).log2 - 52)) *
        (d * 2 ^ ((a / d).log2 - 52))) < Nat.dist a (s * 2 ^ e * d) := by
      unfold Nat.dist at hbelow ⊢
      omega
    exact ⟨Nat.le_of_lt hstrict, fun htie => absurd htie (Nat.ne_of_lt hstrict)⟩

/-- The exponent grows by one past a size of 53 bits, from the middle to the next power of
two on. -/
theorem roundUnits_exponent_le_iff (hd : 0 < d) (k : Nat) :
    (roundUnits a d).2 ≤ k + 1 ↔ a < (2 ^ 54 - 1) * (d * 2 ^ k) := by
  obtain ⟨hquot, hlow⟩ := div_two_pow_log2 (a / d)
  rw [roundUnits]
  rw [Nat.div_div_eq_div_mul] at hquot hlow
  generalize (a / d).log2 - 52 = e at hquot hlow ⊢
  have hD : 0 < d * 2 ^ e := Nat.mul_pos hd (Nat.two_pow_pos e)
  rcases Nat.lt_trichotomy e (k + 1) with he | rfl | he
  · have hle : d * 2 ^ e ≤ d * 2 ^ k :=
      Nat.mul_le_mul_left d (Nat.pow_le_pow_right (by decide) (by omega))
    have ha := (Nat.div_lt_iff_lt_mul hD).mp hquot
    refine ⟨fun _ => by omega, fun _ => ?_⟩
    split <;> omega
  · have hle := nearestEven_le a (d * 2 ^ (k + 1))
    have hodd := nearestEven_le_iff (a := a) (q := 2 ^ 53 - 1) hD (by decide)
    have hdouble : d * 2 ^ (k + 1) = 2 * (d * 2 ^ k) := by
      rw [Nat.pow_succ', Nat.mul_left_comm]
    split <;> omega
  · have hle : 4 * (d * 2 ^ k) ≤ d * 2 ^ e := by
      have hpow : 2 ^ (2 + k) ≤ 2 ^ e := Nat.pow_le_pow_right (by decide) (by omega)
      rw [Nat.pow_add] at hpow
      rw [Nat.mul_left_comm]
      exact Nat.mul_le_mul_left d hpow
    have ha := (Nat.le_div_iff_mul_le hD).mp (hlow.resolve_right (by omega))
    refine ⟨fun h => ?_, fun h => by omega⟩
    split at h <;> omega

/-- **Rounding is finite below the middle between the largest double and the next power of
two**, and only there. -/
theorem isFinite_ofRatio_iff {negative : Bool} (hd : 0 < d) :
    (ofRatio negative a d).isFinite = true ↔ a < (2 ^ 54 - 1) * (d * 2 ^ 2044) := by
  rw [← roundUnits_exponent_le_iff hd]
  unfold ofRatio ofParts
  refine ⟨fun h => ?_, fun h => ?_⟩
  · split at h
    next henc => exact henc.2.2
    next => cases h
  · rw [dif_pos (encodable_roundUnits h)]
    rfl

/-- A decimal is finite as a double below `2 ^ 1024 - 2 ^ 970`, and only there. -/
theorem isFinite_ofDecimal_iff {v : Decimal} :
    (ofDecimal v).isFinite = true ↔ v.Below (2 ^ 1024 - 2 ^ 970) := by
  have hlimit : ∀ k, 2 ^ (54 + k) - 2 ^ k = (2 ^ 54 - 1) * 2 ^ k := fun k => by
    rw [Nat.pow_add, Nat.sub_mul, Nat.one_mul]
  have hunits : ∀ k l, (2 ^ 54 - 1) * (v.denominator * 2 ^ (k + l)) =
      (2 ^ 54 - 1) * 2 ^ k * v.denominator * 2 ^ l := fun k l => by
    rw [Nat.pow_add, ← Nat.mul_assoc v.denominator, ← Nat.mul_assoc, Nat.mul_comm v.denominator,
      Nat.mul_assoc _ (2 ^ k)]
  rw [ofDecimal_eq_ofRatio, isFinite_ofRatio_iff v.denominator_pos, Decimal.Below, hlimit 970,
    hunits 970 1074, Nat.mul_lt_mul_right (Nat.two_pow_pos 1074)]

theorem signed_mul (negative : Bool) (m d : Nat) :
    signed negative m * d = signed negative (m * d) := by
  cases negative with
  | false => exact (Int.natCast_mul m d).symm
  | true =>
    change -(m : Int) * d = -((m * d : Nat) : Int)
    rw [Int.natCast_mul, Int.neg_mul]

theorem signed_cases (negative : Bool) (m : Nat) :
    signed negative m = m ∨ signed negative m = -(m : Int) := by
  cases negative with
  | false => exact .inl rfl
  | true => exact .inr rfl

theorem natAbs_signed_sub (negative : Bool) (m n : Nat) :
    (signed negative m - signed negative n).natAbs = Nat.dist n m := by
  unfold Nat.dist signed
  cases negative with
  | false => simp only [Bool.false_eq_true, if_false]; omega
  | true => simp only [if_true]; omega

theorem natAbs_signed_not_sub (negative : Bool) (m n : Nat) :
    (signed (!negative) m - signed negative n).natAbs = m + n := by
  unfold signed
  cases negative with
  | false => simp only [Bool.not_false, Bool.false_eq_true, if_true, if_false]; omega
  | true => simp only [Bool.not_true, Bool.false_eq_true, if_true, if_false]; omega

/-- **Rounding a fraction gives the double nearest it**, if that is finite. -/
theorem isNearest_ofRatio {negative : Bool} (hd : 0 < d)
    (hx : (ofRatio negative a d).isFinite = true) :
    (ofRatio negative a d).IsNearest (signed negative a) d := by
  obtain ⟨s, e, h, hr⟩ : ∃ s e h, ofRatio negative a d = finite negative s e h := by
    unfold ofRatio ofParts at hx ⊢
    split
    next h => exact ⟨_, _, h, rfl⟩
    next h =>
      rw [dif_neg h] at hx
      cases hx
  have hunits := (ofRatio_eq_finite hr).2
  rw [hr]
  refine ⟨signed negative (s * 2 ^ e), rfl, fun y k hy => ?_⟩
  cases y with
  | finite negative' s' e' h' =>
    obtain rfl : signed negative' (s' * 2 ^ e') = k := Option.some.inj hy
    rw [signed_mul, signed_mul, natAbs_signed_sub]
    rcases Bool.eq_or_eq_not negative' negative with rfl | rfl
    · obtain ⟨hle, htie⟩ := dist_roundUnits_le (a := a) (e := e') hd h'.1
      rw [hunits] at hle htie
      rw [natAbs_signed_sub]
      exact ⟨hle, fun heq => (htie heq).imp (congrArg _) decide_eq_true⟩
    · -- On the other side of zero, zero is nearer.
      obtain ⟨hle, htie⟩ := dist_roundUnits_le (a := a) (s := 0) (e := 0) hd (by decide)
      rw [hunits, Nat.zero_mul, Nat.zero_mul, Nat.dist_zero_right] at hle htie
      dsimp only at hle htie
      rw [natAbs_signed_not_sub]
      refine ⟨by omega, fun heq => ?_⟩
      have hzero : s' * 2 ^ e' * d = 0 := by omega
      have hunits' : s' * 2 ^ e' = 0 := (Nat.mul_eq_zero.mp hzero).resolve_right (by omega)
      rcases htie (by omega) with hu | heven
      · left
        rw [hunits', ← hu]
        cases negative <;> rfl
      · exact .inr (decide_eq_true heven)
  | infinite _ => cases hy
  | nan => cases hy

theorem isNearest_ofInt {n : Int} (h : (ofInt n).isFinite = true) :
    (ofInt n).IsNearest (n * 2 ^ 1074) 1 := by
  have hscaled : ∀ k : Nat, signed (n < 0) (n.natAbs * 2 ^ k) = n * 2 ^ k := fun k => by
    rw [← signed_mul, signed_natAbs, Int.natCast_pow]
    rfl
  rw [← hscaled]
  exact isNearest_ofRatio Nat.one_pos h

/-- **The double of a decimal is the nearest one**, if the decimal is not too large. -/
theorem isNearest_ofDecimal {v : Decimal} (h : v.Below (2 ^ 1024 - 2 ^ 970)) :
    (ofDecimal v).IsNearest (signed v.negative (v.numerator * 2 ^ 1074)) v.denominator := by
  have hx := isFinite_ofDecimal_iff.mpr h
  rw [ofDecimal_eq_ofRatio] at hx ⊢
  exact isNearest_ofRatio v.denominator_pos hx

/-- Two even significands are not next to each other. -/
theorem succ_mul_two_pow_lt {s' e' : Nat} (h : Encodable s e) (h' : Encodable s' e')
    (hs : s % 2 = 0) (hs' : s' % 2 = 0) (hlt : s * 2 ^ e < s' * 2 ^ e') :
    Encodable (s + 1) e ∧ (s + 1) * 2 ^ e < s' * 2 ^ e' := by
  obtain ⟨hs53, hnormal, he⟩ := h
  refine ⟨⟨by omega, hnormal.imp_left Nat.le_succ_of_le, he⟩, ?_⟩
  rcases Nat.lt_or_ge e' e with hlt' | hle
  · -- The larger exponent has the larger size.
    have hsize : s' * 2 ^ e' < s * 2 ^ e :=
      calc s' * 2 ^ e' < 2 ^ 53 * 2 ^ e' := Nat.mul_lt_mul_of_pos_right h'.1 (Nat.two_pow_pos e')
        _ = 2 ^ (53 + e') := (Nat.pow_add ..).symm
        _ ≤ 2 ^ (52 + e) := Nat.pow_le_pow_right (by decide) (by omega)
        _ = 2 ^ 52 * 2 ^ e := Nat.pow_add ..
        _ ≤ s * 2 ^ e := Nat.mul_le_mul_right _ (hnormal.resolve_right (by omega))
    exact absurd hlt (Nat.lt_asymm hsize)
  · have hsplit : s' * 2 ^ e' = s' * 2 ^ (e' - e) * 2 ^ e := by
      rw [Nat.mul_assoc, ← Nat.pow_add, Nat.sub_add_cancel hle]
    have heven : s' * 2 ^ (e' - e) % 2 = 0 := by rw [Nat.mul_mod, hs', Nat.zero_mul, Nat.zero_mod]
    rw [hsplit] at hlt ⊢
    have hunits := Nat.lt_of_mul_lt_mul_right hlt
    exact Nat.mul_lt_mul_of_pos_right (by omega) (Nat.two_pow_pos e)

theorem exists_between {x y : Double} {m k : Int} (hx : x.scaled? = some m)
    (hy : y.scaled? = some k) (hxe : x.hasEvenSignificand = true)
    (hye : y.hasEvenSignificand = true) (hlt : m < k) :
    ∃ z j, scaled? z = some j ∧ m < j ∧ j < k := by
  cases x with
  | finite negative s e h =>
    cases y with
    | finite negative' s' e' h' =>
      obtain rfl : signed negative (s * 2 ^ e) = m := Option.some.inj hx
      obtain rfl : signed negative' (s' * 2 ^ e') = k := Option.some.inj hy
      have hs : s % 2 = 0 := of_decide_eq_true hxe
      have hs' : s' % 2 = 0 := of_decide_eq_true hye
      have hsign := signed_cases negative (s * 2 ^ e)
      have hsign' := signed_cases negative' (s' * 2 ^ e')
      rcases Int.lt_or_le (signed negative (s * 2 ^ e)) 0 with hneg | hpos
      · rcases Int.lt_or_le 0 (signed negative' (s' * 2 ^ e')) with hpos' | hneg'
        · exact ⟨finite false 0 0 (by decide), 0, rfl, hneg, hpos'⟩
        · obtain ⟨henc, hbelow⟩ := succ_mul_two_pow_lt h' h hs' hs (by omega)
          have hstep := Nat.mul_lt_mul_of_pos_right (Nat.lt_add_one s') (Nat.two_pow_pos e')
          exact ⟨finite true (s' + 1) e' henc, -((s' + 1) * 2 ^ e' : Nat), rfl, by omega, by omega⟩
      · obtain ⟨henc, hbelow⟩ := succ_mul_two_pow_lt h h' hs hs' (by omega)
        have hstep := Nat.mul_lt_mul_of_pos_right (Nat.lt_add_one s) (Nat.two_pow_pos e)
        exact ⟨finite false (s + 1) e henc, ((s + 1) * 2 ^ e : Nat), rfl, by omega, by omega⟩
    | infinite _ => cases hy
    | nan => cases hy
  | infinite _ => cases hx
  | nan => cases hx

/-- Between two doubles that are equally near and even there is a nearer one. -/
theorem IsNearest.not_lt {x y : Double} {a m k : Int} (hd : 0 < d) (hx : x.IsNearest a d)
    (hy : y.IsNearest a d) (hm : x.scaled? = some m) (hk : y.scaled? = some k) : ¬m < k := by
  obtain ⟨m', hm', hxmin⟩ := hx
  obtain rfl : m = m' := Option.some.inj (hm.symm.trans hm')
  obtain ⟨k', hk', hymin⟩ := hy
  obtain rfl : k = k' := Option.some.inj (hk.symm.trans hk')
  intro hlt
  have htie : (m * d - a).natAbs = (k * d - a).natAbs :=
    Nat.le_antisymm (hxmin y k hk).1 (hymin x m hm).1
  have hxe := ((hxmin y k hk).2 htie).resolve_left (Int.ne_of_gt hlt)
  have hye := ((hymin x m hm).2 htie.symm).resolve_left (Int.ne_of_lt hlt)
  obtain ⟨z, j, hz, hmj, hjk⟩ := exists_between hm hk hxe hye hlt
  have hle := (hxmin z j hz).1
  have hd' : (0 : Int) < d := Int.natCast_pos.mpr hd
  have hmj' := Int.mul_lt_mul_of_pos_right hmj hd'
  have hjk' := Int.mul_lt_mul_of_pos_right hjk hd'
  omega

/-- **There is one nearest value.** -/
theorem IsNearest.unique {x y : Double} {a : Int} (hd : 0 < d) (hx : x.IsNearest a d)
    (hy : y.IsNearest a d) : x.scaled? = y.scaled? := by
  obtain ⟨m, hm, _⟩ := id hx
  obtain ⟨k, hk, _⟩ := id hy
  have hle := Int.not_lt.mp (hx.not_lt hd hy hm hk)
  have hge := Int.not_lt.mp (hy.not_lt hd hx hk hm)
  rw [hm, hk, Int.le_antisymm hge hle]

end Double

end SchemaSharp
