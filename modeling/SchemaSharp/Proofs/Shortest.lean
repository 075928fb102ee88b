/-
The shortest decimal of a double, and which doubles are written as whole
numbers.

The search ends on the first grid that has a neighbour which rounds back to
the double (`shortestFor_cases`). So the text of a double reads as a whole
number exactly if the double is one: a whole decimal does not round to a
fraction (`toInt?_of_whole?_text`), and a whole double is found at the latest
on the grid of the units (`whole?_text`). The number that is read can be
another one, since the last digits of a large double are not needed; but it
has at least half the size.
-/
import SchemaSharp.Double.Shortest
import SchemaSharp.Proofs.Rounding

namespace SchemaSharp

namespace Double

open Numeral

variable {tie : Tie} {x : Double} {exact d : Decimal}

/-- A neighbour reads back, and lies on the grid at or above the cut-off
value. -/
theorem neighbour?_eq_some {drop : Nat} (h : neighbour? tie x exact drop = some d) :
    ofDecimal d = x ∧ d.negative = exact.negative ∧ d.exponent = exact.exponent + drop ∧
      exact.coefficient / 10 ^ drop ≤ d.coefficient := by
  unfold neighbour? at h
  dsimp only at h
  split at h
  next hb =>
    split at h
    next ha =>
      cases h
      exact ⟨ha.2, rfl, rfl, Nat.le_succ _⟩
    next =>
      cases h
      exact ⟨hb, rfl, rfl, Nat.le_refl _⟩
  next =>
    split at h
    next ha =>
      cases h
      exact ⟨ha, rfl, rfl, Nat.le_succ _⟩
    next => cases h

theorem neighbour?_of_dvd {drop : Nat} (hd : 10 ^ drop ∣ exact.coefficient)
    (h : ofDecimal ⟨exact.negative, exact.coefficient / 10 ^ drop, exact.exponent + drop⟩ = x) :
    neighbour? tie x exact drop =
      some ⟨exact.negative, exact.coefficient / 10 ^ drop, exact.exponent + drop⟩ := by
  have hbelow : tie.takesAbove (exact.coefficient / 10 ^ drop) 0 (10 ^ drop) = false := by
    simp [Tie.takesAbove]
  unfold neighbour?
  dsimp only
  rw [if_pos h, Nat.mod_eq_zero_of_dvd hd, hbelow]
  rfl

theorem findSome?_range {α : Type} {f : Nat → Option α} {n : Nat} {a : α}
    (h : (List.range n).findSome? f = some a) :
    ∃ k < n, f k = some a ∧ ∀ j < k, f j = none := by
  induction n with
  | zero => cases h
  | succ n ih =>
    rw [List.range_succ, List.findSome?_append] at h
    cases hn : (List.range n).findSome? f with
    | some b =>
      rw [hn, Option.some_or] at h
      obtain ⟨k, hk, hf, hb⟩ := ih (hn.trans h)
      exact ⟨k, by omega, hf, hb⟩
    | none =>
      rw [hn, Option.none_or] at h
      refine ⟨n, Nat.lt_succ_self n, by simpa using h, fun j hj => ?_⟩
      exact List.findSome?_eq_none_iff.mp hn j (List.mem_range.mpr hj)

/-- The digits of the exact coefficient. -/
def size (exact : Decimal) : Nat := (Nat.toDigits 10 exact.coefficient).length

/-- The search ends on the first grid with a neighbour, or keeps the exact
value. -/
theorem shortestFor_cases (tie : Tie) (x : Double) (exact : Decimal) :
    (shortestFor tie x exact = exact ∧
      ∀ k < 17, neighbour? tie x exact (size exact - (k + 1)) = none) ∨
    ∃ k < 17, neighbour? tie x exact (size exact - (k + 1)) = some (shortestFor tie x exact) ∧
      ∀ j < k, neighbour? tie x exact (size exact - (j + 1)) = none := by
  cases hf : (List.range 17).findSome? fun n => neighbour? tie x exact (size exact - (n + 1)) with
  | none =>
    have hs : shortestFor tie x exact = exact := congrArg (Option.getD · exact) hf
    exact .inl ⟨hs, fun k hk => List.findSome?_eq_none_iff.mp hf k (List.mem_range.mpr hk)⟩
  | some d =>
    have hs : shortestFor tie x exact = d := congrArg (Option.getD · exact) hf
    rw [hs]
    exact .inr (findSome?_range hf)

theorem lt_size_iff {k : Nat} : k < size exact ↔ k = 0 ∨ 10 ^ k ≤ exact.coefficient := by
  rcases Nat.eq_zero_or_pos k with hz | hpos
  · have hsize : 0 < size exact := Nat.length_toDigits_pos
    omega
  · have hle := Nat.length_toDigits_le_iff (n := exact.coefficient) (b := 10) (by decide) hpos
    unfold size
    omega

theorem le_two_mul_of_div_le {m p c : Nat} (hp : 0 < p) (hm : p ≤ m) (hc : m / p ≤ c) :
    m ≤ 2 * (c * p) := by
  have hq : 1 ≤ m / p := (Nat.le_div_iff_mul_le hp).mpr (by omega)
  have hdm := Nat.div_add_mod m p
  have hr := Nat.mod_lt m hp
  have h1 := Nat.mul_le_mul_right p hc
  have h2 := Nat.mul_le_mul_right p hq
  rw [Nat.mul_comm] at hdm
  omega

variable {m w : Nat}

theorem neighbour?_whole {i : Nat} (hc : exact.coefficient = m * 10 ^ w)
    (he : exact.exponent = -(w : Int)) (h : neighbour? tie x exact (w + i) = some d) :
    d.magnitude? = some (d.coefficient * 10 ^ i) ∧ m / 10 ^ i ≤ d.coefficient := by
  obtain ⟨_, _, hexp, hcoef⟩ := neighbour?_eq_some h
  have hexp' : d.exponent = .ofNat i := by
    rw [hexp, he]
    simp only [Int.ofNat_eq_natCast]
    omega
  rw [hc, Nat.pow_add, Nat.mul_comm m, Nat.mul_div_mul_left _ _ (Nat.pow_pos (by decide))] at hcoef
  exact ⟨by rw [Decimal.magnitude?, hexp'], hcoef⟩

/-- A whole value is found at the latest where its units are the grid, and
loses less than its leading digit. -/
theorem shortestFor_whole (tie : Tie) (hm : m ≠ 0) (hc : exact.coefficient = m * 10 ^ w)
    (he : exact.exponent = -(w : Int)) (hx : ofDecimal ⟨exact.negative, m, 0⟩ = x) :
    ∃ n, (shortestFor tie x exact).magnitude? = some n ∧ m ≤ 2 * n := by
  have hten : 0 < 10 ^ w := Nat.pow_pos (by decide)
  have hw : w < size exact := by
    rw [lt_size_iff, hc]
    exact .inr (Nat.le_mul_of_pos_left _ (by omega))
  have hunits : neighbour? tie x exact (size exact - (size exact - w - 1 + 1)) ≠ none := by
    have hdrop : size exact - (size exact - w - 1 + 1) = w := by omega
    rw [hdrop, neighbour?_of_dvd]
    · exact Option.some_ne_none _
    · rw [hc]
      exact Nat.dvd_mul_left _ _
    · rw [hc, Nat.mul_div_cancel _ hten, he, Int.add_left_neg, hx]
  rcases shortestFor_cases tie x exact with ⟨hs, _⟩ | ⟨k, _, hk, hb⟩
  · rw [hs]
    exact ⟨m, Decimal.magnitude?_of_units hc he, by omega⟩
  · -- No grid before the one of the units is finer than it.
    have hle : k ≤ size exact - w - 1 := Nat.le_of_not_lt fun hlt => hunits (hb _ hlt)
    obtain ⟨i, hi⟩ : ∃ i, size exact - (k + 1) = w + i := ⟨size exact - (k + 1) - w, by omega⟩
    have hlead : w + i = 0 ∨ 10 ^ (w + i) ≤ m * 10 ^ w := by
      rw [← hc]
      exact lt_size_iff.mp (by omega)
    have hpow : 10 ^ i ≤ m := by
      rcases hlead with hz | hlead
      · have hi0 : i = 0 := by omega
        rw [hi0, Nat.pow_zero]
        omega
      · rw [Nat.pow_add, Nat.mul_comm] at hlead
        exact Nat.le_of_mul_le_mul_right hlead hten
    rw [hi] at hk
    obtain ⟨hmag, hlower⟩ := neighbour?_whole hc he hk
    exact ⟨_, hmag, le_two_mul_of_div_le (Nat.pow_pos (by decide)) hpow hlower⟩

theorem shortestFor_zero (hc : exact.coefficient = 0) (hx : ofDecimal exact = x) :
    shortestFor tie x exact = exact := by
  have hfirst : neighbour? tie x exact (size exact - (0 + 1)) = some exact := by
    have hdrop : size exact - (0 + 1) = 0 := by
      unfold size
      rw [hc, Nat.toDigits_zero]
      rfl
    have hself : exact =
        ⟨exact.negative, exact.coefficient / 10 ^ 0, exact.exponent + (0 : Nat)⟩ := by
      simp
    rw [hdrop, neighbour?_of_dvd (by rw [hc]; exact Nat.dvd_zero _) (hself ▸ hx), ← hself]
  rcases shortestFor_cases tie x exact with ⟨_, hb⟩ | ⟨k, _, hk, hb⟩
  · have hnone := hb 0 (by decide)
    rw [hfirst] at hnone
    cases hnone
  · rcases Nat.eq_zero_or_pos k with hz | hpos
    · rw [hz, hfirst] at hk
      exact (Option.some.inj hk).symm
    · have hnone := hb 0 hpos
      rw [hfirst] at hnone
      cases hnone

theorem shortestFor_negative (tie : Tie) (x : Double) (exact : Decimal) :
    (shortestFor tie x exact).negative = exact.negative := by
  rcases shortestFor_cases tie x exact with ⟨hs, _⟩ | ⟨k, _, hk, _⟩
  · rw [hs]
  · exact (neighbour?_eq_some hk).2.1

section Text

variable {negative : Bool} {s e : Nat} {h : Encodable s e}

theorem whole?_text_finite : whole? (finite negative s e h).text =
    (shortestFor .up (finite negative s e h) (exactDecimal negative s e)).magnitude?.map
      (signed negative) := by
  have ht : (finite negative s e h).text =
      (shortestFor .up (finite negative s e h) (exactDecimal negative s e)).plain := rfl
  rw [ht, Decimal.whole?_plain, shortestFor_negative]
  rfl

theorem exactDecimal_coefficient {m : Nat} (hm : s * 2 ^ e = m * 2 ^ 1074) :
    (exactDecimal negative s e).coefficient = m * 10 ^ 1074 := by
  rw [← Decimal.mul_two_pow_five_pow, ← hm]
  rfl

/-- A text that reads as a whole number comes from a whole double. -/
theorem toInt?_of_whole?_text {x : Double} {v : Int} (hv : whole? x.text = some v) :
    ∃ n, x.toInt? = some n := by
  cases x with
  | finite negative s e h =>
    rw [whole?_text_finite] at hv
    obtain ⟨n, hn, _⟩ := Option.map_eq_some_iff.mp hv
    rcases shortestFor_cases .up (finite negative s e h) (exactDecimal negative s e) with
      ⟨hs, _⟩ | ⟨k, _, hk, _⟩
    · rw [hs] at hn
      have hcoef : (exactDecimal negative s e).coefficient = s * 2 ^ e * 5 ^ 1074 := rfl
      obtain ⟨m, hm⟩ := Decimal.two_pow_of_magnitude? hcoef rfl hn
      exact ⟨_, toInt?_finite.mpr ⟨m, hm, rfl⟩⟩
    · have hx := (neighbour?_eq_some hk).1
      rw [← hx]
      exact ofDecimal_whole hn (by rw [hx]; rfl)
  | infinite negative =>
    have hn : whole? (infinite negative).text = none := by cases negative <;> decide
    rw [hn] at hv
    cases hv
  | nan =>
    have hn : whole? nan.text = none := by decide
    rw [hn] at hv
    cases hv

/-- **A whole double is written as a whole number**, of at least half its
size. -/
theorem whole?_text {x : Double} {n : Int} (hx : x.toInt? = some n) :
    ∃ v, whole? x.text = some v ∧ n.natAbs ≤ 2 * v.natAbs := by
  cases x with
  | finite negative s e h =>
    rw [whole?_text_finite]
    obtain ⟨m, hm, rfl⟩ := toInt?_finite.mp hx
    have hc : (exactDecimal negative s e).coefficient = m * 10 ^ 1074 := exactDecimal_coefficient hm
    by_cases hz : m = 0
    · have hback : ofDecimal (exactDecimal negative s e) = finite negative s e h := by
        rw [ofDecimal_of_units hc rfl, ← hm]
        exact ofRatio_encodable negative h
      have hcz : (exactDecimal negative s e).coefficient = 0 := by rw [hc, hz, Nat.zero_mul]
      refine ⟨signed negative m, ?_, by omega⟩
      rw [shortestFor_zero hcz hback, Decimal.magnitude?_of_units hc rfl, Option.map_some]
    · have hback : ofDecimal ⟨negative, m, 0⟩ = finite negative s e h := by
        rw [ofDecimal_of_units (w := 0) (Nat.mul_one m).symm rfl, ← hm]
        exact ofRatio_encodable negative h
      obtain ⟨v, hv, hle⟩ := shortestFor_whole .up hz hc rfl hback
      refine ⟨signed negative v, by rw [hv, Option.map_some], ?_⟩
      rwa [natAbs_signed, natAbs_signed]
  | infinite negative => cases hx
  | nan => cases hx

end Text

end Double

end SchemaSharp
