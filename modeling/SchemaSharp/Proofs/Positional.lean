/-
Positional notation as a grammar with values.

`Positional cs v` says that `cs` is a minus sign or none, digits, and a point
with digits behind it or none, and that `v` is the decimal it stands for. Every
decimal is written like this and keeps its value (`positional_plain`); only the
zeros at the end of a fraction are left out.
-/
import SchemaSharp.Proofs.DecimalRounding

namespace SchemaSharp

namespace Decimal

/-- Digits, at least one. -/
def IsDigits (cs : List Char) : Prop := cs ≠ [] ∧ ∀ c ∈ cs, c.isDigit = true

/-- The sign in front of a number. -/
def signText (negative : Bool) : List Char := if negative then ['-'] else []

/-- A number in positional notation, and the decimal that it stands for. -/
inductive Positional : List Char → Decimal → Prop
  | whole (negative : Bool) {ds} (hd : IsDigits ds) :
      Positional (signText negative ++ ds) ⟨negative, Nat.ofDigitChars 10 ds 0, 0⟩
  | fraction (negative : Bool) {ds fs} (hd : IsDigits ds) (hf : IsDigits fs) :
      Positional (signText negative ++ (ds ++ '.' :: fs))
        ⟨negative, Nat.ofDigitChars 10 (ds ++ fs) 0, -(fs.length : Int)⟩

theorem isDigits_toDigits (n : Nat) : IsDigits (Nat.toDigits 10 n) :=
  ⟨Nat.toDigits_ne_nil, fun _ hc => Nat.isDigit_of_mem_toDigits (by decide) (by decide) hc⟩

theorem isDigit_of_mem_signText {negative : Bool} {c : Char} (h : c ∈ signText negative) :
    c = '-' := by
  cases negative with
  | true => exact List.mem_singleton.mp h
  | false => cases h

theorem Positional.mem {cs : List Char} {v : Decimal} (h : Positional cs v) :
    ∀ c ∈ cs, c = '-' ∨ c = '.' ∨ c.isDigit = true := by
  intro c hc
  cases h with
  | whole _ hd =>
    rcases List.mem_append.mp hc with hc | hc
    · exact .inl (isDigit_of_mem_signText hc)
    · exact .inr (.inr (hd.2 c hc))
  | fraction _ hd hf =>
    simp only [List.mem_append, List.mem_cons] at hc
    rcases hc with hc | hc | hc | hc
    · exact .inl (isDigit_of_mem_signText hc)
    · exact .inr (.inr (hd.2 c hc))
    · exact .inr (.inl hc)
    · exact .inr (.inr (hf.2 c hc))

theorem dropTrailingZeros_append (cs : List Char) :
    ∃ z, cs = dropTrailingZeros cs ++ List.replicate z '0' := by
  have hzeros : ∀ c ∈ cs.reverse.takeWhile (· = '0'), c = '0' := fun c hc => by
    simpa using List.mem_takeWhile_imp hc
  refine ⟨(cs.reverse.takeWhile (· = '0')).length, ?_⟩
  rw [dropTrailingZeros, ← List.reverse_replicate, ← List.eq_replicate_of_mem hzeros,
    ← List.reverse_append, List.takeWhile_append_dropWhile, List.reverse_reverse]

theorem ofDigitChars_leftpad (w n : Nat) :
    Nat.ofDigitChars 10 ((Nat.toDigits 10 n).leftpad w '0') 0 = n := by
  rw [List.leftpad, Nat.ofDigitChars_append, Nat.ofDigitChars_replicate_zero, Nat.mul_zero,
    Nat.ofDigitChars_ten_toDigits]

/-- A fraction of `w` places is written with some of them, and zeros make up
the rest. -/
theorem fractionText_eq {w n : Nat} (hw : 0 < w) (hn : n < 10 ^ w) :
    ∃ fs z, fs.length + z = w ∧ Nat.ofDigitChars 10 fs 0 * 10 ^ z = n ∧
      (∀ c ∈ fs, c.isDigit = true) ∧ fractionText w n = if fs = [] then [] else '.' :: fs := by
  obtain ⟨z, hz⟩ := dropTrailingZeros_append ((Nat.toDigits 10 n).leftpad w '0')
  refine ⟨dropTrailingZeros ((Nat.toDigits 10 n).leftpad w '0'), z, ?_, ?_, ?_, ?_⟩
  · have hlen : ((Nat.toDigits 10 n).leftpad w '0').length = w := by
      rw [List.length_leftpad]
      exact Nat.max_eq_left ((Nat.length_toDigits_le_iff (by decide) hw).mpr hn)
    have hlen' := congrArg List.length hz
    rwa [hlen, List.length_append, List.length_replicate, eq_comm] at hlen'
  · have hvalue := ofDigitChars_leftpad w n
    rwa [hz, Nat.ofDigitChars_append, Nat.ofDigitChars_replicate_zero, Nat.mul_comm] at hvalue
  · intro c hc
    have hmem : c ∈ (Nat.toDigits 10 n).leftpad w '0' := hz ▸ List.mem_append_left _ hc
    rcases List.mem_append.mp hmem with hzero | hdigit
    · rw [List.eq_of_mem_replicate hzero]
      rfl
    · exact (isDigits_toDigits n).2 c hdigit
  · unfold fractionText
    cases dropTrailingZeros ((Nat.toDigits 10 n).leftpad w '0') <;> simp

theorem sameValue_of_places {d d' : Decimal} {w z : Nat} (hn : d.negative = d'.negative)
    (hc : d.coefficient * 10 ^ z = d'.coefficient) (he : d.exponent = -(w : Int))
    (he' : d'.exponent = -((w + z : Nat) : Int)) : d.SameValue d' := by
  obtain ⟨hnum, hden⟩ := fraction_of_places he
  obtain ⟨hnum', hden'⟩ := fraction_of_places he'
  refine ⟨hn, ?_⟩
  rw [hnum, hden, hnum', hden', ← hc, Nat.pow_add, Nat.mul_right_comm, Nat.mul_assoc]

/-- **Every decimal is written in positional notation, with its value.** -/
theorem positional_plain (d : Decimal) : ∃ v, Positional d.plain v ∧ v.SameValue d := by
  have hsign : d.plain = signText d.negative ++ magnitudeText d.coefficient d.exponent := by
    unfold plain signText
    cases d.negative <;> rfl
  rw [hsign]
  unfold magnitudeText
  cases hexp : d.exponent with
  | ofNat k =>
    refine ⟨_, .whole _ (isDigits_toDigits _), rfl, ?_⟩
    simp only [numerator, denominator, hexp, Nat.ofDigitChars_ten_toDigits]
    exact Nat.mul_one _
  | negSucc k =>
    have hpos : 0 < 10 ^ (k + 1) := Nat.pow_pos (by decide)
    obtain ⟨fs, z, hlen, hvalue, hfs, htext⟩ :=
      fractionText_eq (w := k + 1) (by omega) (Nat.mod_lt d.coefficient hpos)
    have hdm := Nat.div_add_mod d.coefficient (10 ^ (k + 1))
    have he : d.exponent = -((fs.length + z : Nat) : Int) := by rw [hexp, hlen]; rfl
    dsimp only
    rw [htext]
    by_cases hnil : fs = []
    · -- All places are zeros, and the point is left out with them.
      subst hnil
      rw [if_pos rfl, List.append_nil]
      refine ⟨_, .whole _ (isDigits_toDigits _), sameValue_of_places rfl ?_ (w := 0) rfl he⟩
      have hz : z = k + 1 := by simpa using hlen
      rw [← hvalue, Nat.ofDigitChars_nil, Nat.zero_mul, Nat.add_zero] at hdm
      rw [Nat.ofDigitChars_ten_toDigits, hz, Nat.mul_comm]
      exact hdm
    · rw [if_neg hnil]
      refine ⟨_, .fraction _ (isDigits_toDigits _) ⟨hnil, hfs⟩, sameValue_of_places rfl ?_ rfl he⟩
      have hpow : 10 ^ (k + 1) = 10 ^ fs.length * 10 ^ z := by rw [← Nat.pow_add, hlen]
      generalize d.coefficient / 10 ^ (k + 1) = q at hdm
      rw [Nat.ofDigitChars_append, Nat.ofDigitChars_ten_toDigits,
        Nat.ofDigitChars_eq_ofDigitChars_zero, Nat.add_mul, hvalue, Nat.mul_right_comm, ← hpow]
      exact hdm

end Decimal

/-- **A finite double is written in positional notation**, with the value of its
shortest decimal. -/
theorem Double.positional_text {x : Double} (hx : x.isFinite = true) :
    ∃ d v, x.shortest? .up = some d ∧ Decimal.Positional x.text v ∧ v.SameValue d := by
  cases x with
  | finite negative s e h =>
    obtain ⟨d, hd⟩ : ∃ d, (finite negative s e h).shortest? .up = some d := ⟨_, rfl⟩
    have htext : (finite negative s e h).text = d.plain := by
      rw [Option.some.inj hd.symm]
      rfl
    obtain ⟨v, hv, hsame⟩ := d.positional_plain
    exact ⟨d, v, hd, htext ▸ hv, hsame⟩
  | infinite negative => cases hx
  | nan => cases hx

end SchemaSharp
