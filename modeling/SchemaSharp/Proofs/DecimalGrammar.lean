/-
Decimal notation as a grammar with values.

`Decimal.Spells cs v` says that `cs` is a sign or none, digits with a point before, among
or behind them or none, and an exponent or none, and that `v` is the decimal it stands for.
Decimals are read from exactly this notation (`read?_eq_some_iff`). Positional notation is a
part of it (`Positional.spells`).
-/
import SchemaSharp.Proofs.Positional
import SchemaSharp.Proofs.Spelling

namespace SchemaSharp

namespace Decimal

open Numeral (SignText SpellsInt)

/-- A point and the digits behind it, or nothing. -/
inductive FractionText : List Char → List Char → Prop
  | none : FractionText [] []
  | point {fs} (hf : ∀ c ∈ fs, c.isDigit = true) : FractionText ('.' :: fs) fs

/-- An exponent behind its mark, or nothing. -/
inductive ExponentText : List Char → Int → Prop
  | none : ExponentText [] 0
  | mark {c cs e} (hc : c = 'e' ∨ c = 'E') (he : SpellsInt 10 cs e) : ExponentText (c :: cs) e

/-- Decimal notation, with at least one digit before or behind the point. -/
inductive Spells : List Char → Decimal → Prop
  | intro {ss negative ds ps fs es e} (hs : SignText ss negative)
      (hd : ∀ c ∈ ds, c.isDigit = true) (hp : FractionText ps fs) (hne : ds ++ fs ≠ [])
      (he : ExponentText es e) :
      Spells (ss ++ (ds ++ (ps ++ es)))
        ⟨negative, Nat.ofDigitChars 10 (ds ++ fs) 0, e - fs.length⟩

section Parts

variable {cs ds ps fs es rest : List Char} {e : Int}

/-- Digits end where no further digit follows. -/
theorem span_digits (hd : ∀ c ∈ ds, c.isDigit = true)
    (hr : ∀ c, rest.head? = some c → c.isDigit = false) :
    (ds ++ rest).takeWhile Char.isDigit = ds ∧ (ds ++ rest).dropWhile Char.isDigit = rest := by
  rw [List.takeWhile_append_of_pos hd, List.dropWhile_append_of_pos hd]
  cases rest with
  | nil => exact ⟨List.append_nil ds, rfl⟩
  | cons c rest =>
    have hc : ¬c.isDigit = true := by simp [hr c rfl]
    rw [List.takeWhile_cons_of_neg hc, List.dropWhile_cons_of_neg hc]
    exact ⟨List.append_nil ds, rfl⟩

theorem ExponentText.head (he : ExponentText es e) {c : Char} (hc : es.head? = some c) :
    c = 'e' ∨ c = 'E' := by
  cases he with
  | none => cases hc
  | mark hmark _ =>
    cases hc
    exact hmark

theorem exponent?_eq_some_iff : exponent? cs = some e ↔ ExponentText cs e := by
  refine ⟨fun h => ?_, fun h => ?_⟩
  · cases cs with
    | nil =>
      obtain rfl := Option.some.inj h
      exact .none
    | cons c cs =>
      change (if c = 'e' ∨ c = 'E' then Numeral.integer? 10 cs else none) = some e at h
      split at h
      next hc => exact .mark hc ((Numeral.integer?_eq_some_iff (by decide)).mp h)
      next => cases h
  · cases h with
    | none => rfl
    | mark hc he => exact (if_pos hc).trans ((Numeral.integer?_eq_some_iff (by decide)).mpr he)

theorem exists_fractionText (cs : List Char) :
    ∃ ps fs rest, cs = ps ++ rest ∧ FractionText ps fs ∧ fraction cs = (fs, rest) := by
  unfold fraction
  split
  next cs =>
    refine ⟨'.' :: cs.takeWhile Char.isDigit, _, _, ?_, .point ?_, rfl⟩
    · rw [List.cons_append, List.takeWhile_append_dropWhile]
    · exact fun c hc => List.mem_takeWhile_imp hc
  next => exact ⟨[], [], cs, rfl, .none, rfl⟩

theorem fraction_append (hp : FractionText ps fs) (he : ExponentText es e) :
    fraction (ps ++ es) = (fs, es) := by
  cases hp with
  | none =>
    rw [List.nil_append]
    unfold fraction
    split
    next cs => exact absurd (he.head rfl) (by decide)
    next => rfl
  | point hf =>
    have hr : ∀ c, es.head? = some c → c.isDigit = false := by
      intro c hc
      rcases he.head hc with rfl | rfl <;> rfl
    obtain ⟨htake, hdrop⟩ := span_digits hf hr
    rw [List.cons_append, fraction, htake, hdrop]

theorem head_append (hp : FractionText ps fs) (he : ExponentText es e) {c : Char}
    (hc : (ps ++ es).head? = some c) : c = '.' ∨ c = 'e' ∨ c = 'E' := by
  cases hp with
  | none => exact .inr (he.head hc)
  | point _ =>
    cases hc
    exact .inl rfl

end Parts

theorem unsigned?_eq (negative : Bool) (cs : List Char) : unsigned? negative cs =
    let whole := cs.takeWhile Char.isDigit
    let tail := fraction (cs.dropWhile Char.isDigit)
    if whole ++ tail.1 = [] then none
    else (exponent? tail.2).map fun e =>
      ⟨negative, Nat.ofDigitChars 10 (whole ++ tail.1) 0, e - tail.1.length⟩ := rfl

variable {cs : List Char} {v : Decimal}

theorem spells_of_read? (h : read? cs = some v) : Spells cs v := by
  obtain ⟨ss, negative, cs', rfl, hs, hsign⟩ := Numeral.exists_signText cs
  have hd : ∀ c ∈ cs'.takeWhile Char.isDigit, c.isDigit = true := fun c hc =>
    List.mem_takeWhile_imp hc
  obtain ⟨ps, fs, es, htail, hp, hfraction⟩ :=
    exists_fractionText (cs'.dropWhile Char.isDigit)
  have hsplit : cs'.takeWhile Char.isDigit ++ (ps ++ es) = cs' := by
    rw [← htail, List.takeWhile_append_dropWhile]
  rw [read?, hsign, unsigned?_eq] at h
  dsimp only at h
  rw [hfraction] at h
  dsimp only at h
  split at h
  next => cases h
  next hne =>
    obtain ⟨e, he, rfl⟩ := Option.map_eq_some_iff.mp h
    have hspells := Spells.intro hs hd hp hne (exponent?_eq_some_iff.mp he)
    rwa [hsplit] at hspells

/-- **Decimals are read from exactly what spells them.** -/
theorem read?_eq_some_iff : read? cs = some v ↔ Spells cs v := by
  refine ⟨spells_of_read?, fun h => ?_⟩
  cases h with
  | @intro ss negative ds ps fs es e hs hd hp hne he =>
    have hnumber : ∀ c, (ds ++ (ps ++ es)).head? = some c → c ≠ '+' ∧ c ≠ '-' := by
      intro c hc
      cases ds with
      | nil => rcases head_append hp he hc with rfl | rfl | rfl <;> decide
      | cons d ds =>
        obtain rfl := Option.some.inj hc
        have hdigit := hd d (.head _)
        refine ⟨?_, ?_⟩
        all_goals
          rintro rfl
          exact absurd hdigit (by decide)
    have htail : ∀ c, (ps ++ es).head? = some c → c.isDigit = false := by
      intro c hc
      rcases head_append hp he hc with rfl | rfl | rfl <;> rfl
    obtain ⟨htake, hdrop⟩ := span_digits hd htail
    rw [read?, Numeral.sign_append hs hnumber, unsigned?_eq, htake, hdrop, fraction_append hp he]
    dsimp only
    rw [if_neg hne, exponent?_eq_some_iff.mpr he, Option.map_some]

theorem Spells.unique {v' : Decimal} (h : Spells cs v) (h' : Spells cs v') : v = v' := by
  rw [← read?_eq_some_iff] at h h'
  exact Option.some.inj (h.symm.trans h')

theorem signText_signText (negative : Bool) : SignText (signText negative) negative := by
  cases negative with
  | true => exact .minus
  | false => exact .none

theorem Positional.spells (h : Positional cs v) : Spells cs v := by
  cases h with
  | @whole negative ds hd =>
    have hnumber := Spells.intro (signText_signText negative) hd.2 .none
      (by rw [List.append_nil]; exact hd.1) .none
    simpa using hnumber
  | @fraction negative ds fs hd hf =>
    have hnumber := Spells.intro (signText_signText negative) hd.2 (.point hf.2)
      (List.append_ne_nil_of_left_ne_nil hd.1 fs) .none
    simpa using hnumber

/-- **Positional notation is read as the decimal it stands for.** -/
theorem Positional.read? (h : Positional cs v) : Decimal.read? cs = some v :=
  read?_eq_some_iff.mpr h.spells

end Decimal

end SchemaSharp
