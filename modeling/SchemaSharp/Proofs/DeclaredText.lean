/-
What declared text means.

Text is read without the blanks at its ends. `Meaning` says what a text without the
marker of a base stands for: an integer if it is written as one and fits, the double
nearest any other decimal that is not too large for one, and itself otherwise. Declared
text is classified as exactly that (`classify_iff_meaning`). Behind a marker only an
integer in the base that it marks is read (`classify_marked_iff`), and numbers of 63
bits are worth the same however they are spelled (`classify_spelling`).
-/
import SchemaSharp.Proofs.Classification
import SchemaSharp.Proofs.DecimalGrammar
import SchemaSharp.Proofs.Nearest

namespace SchemaSharp

namespace Decimal

variable {cs : List Char} {n : Nat}

theorem spells_of_digits (h : Numeral.Spells 10 cs n) : Spells cs ⟨false, n, 0⟩ := by
  have hread := (Numeral.natural?_eq_some_iff (by decide)).mpr h
  rw [Numeral.natural?_ten, Numeral.digits?] at hread
  split at hread
  next hdigits =>
    obtain rfl := Option.some.inj hread
    have hall : ∀ c ∈ cs, c.isDigit = true := by simpa using (Bool.and_eq_true_iff.mp hdigits).2
    have hspells := Spells.intro .none hall .none
      (by rw [List.append_nil]; exact h.ne_nil) .none
    simpa using hspells
  next => cases hread

theorem below_natural {bound : Nat} : Below bound ⟨false, n, 0⟩ ↔ n < bound := by
  obtain ⟨hnum, hden⟩ := fraction_of_places (d := ⟨false, n, 0⟩) (w := 0) rfl
  rw [Below, hnum, hden, Nat.pow_zero, Nat.mul_one]

end Decimal

theorem Double.ofDecimal_natural {n : Nat} (hn : 0 < n) : ofDecimal ⟨false, n, 0⟩ = ofInt n := by
  rw [ofDecimal_of_units (w := 0) (Nat.mul_one _).symm rfl]
  exact (ofInt_signed false hn).symm

namespace MemberValue

open Numeral (Spells SpellsInt)
open Text (Trimmed)

/-- Rounding the same value gives the same number, whatever the sign of a zero. -/
theorem ofDouble_congr {x y : Double} {m : Int} (hx : x.scaled? = some m)
    (hy : y.scaled? = some m) : ofDouble x = ofDouble y := by
  by_cases hm : m = 0
  · subst hm
    rw [ofDouble_of_zero hx, ofDouble_of_zero hy]
  · rw [Double.eq_of_scaled hx hy hm]

variable {t : String} {c : Char} {base n : Nat} {cs rest : List Char} {v : MemberValue}

/-- What a text stands for that reads `cs` without its blanks. Decimals from
`2 ^ 1024 - 2 ^ 970` on are no numbers: the double nearest them is infinite. -/
inductive Meaning (t : String) (cs : List Char) : MemberValue → Prop
  | empty (ht : t = "") : Meaning t cs positional
  | blank (ht : t ≠ "") (hcs : cs = []) : Meaning t cs (integer 0)
  | whole {i : Int64} (hi : SpellsInt 10 cs i.toInt) : Meaning t cs (integer i)
  | decimal {d x} (hfit : ∀ i : Int64, ¬SpellsInt 10 cs i.toInt) (hd : Decimal.Spells cs d)
      (hbound : d.Below (2 ^ 1024 - 2 ^ 970))
      (hx : x.IsNearest (Numeral.signed d.negative (d.numerator * 2 ^ 1074)) d.denominator) :
      Meaning t cs (ofDouble x)
  | other (hcs : cs ≠ []) (hfit : ∀ i : Int64, ¬SpellsInt 10 cs i.toInt)
      (hbound : ∀ d, Decimal.Spells cs d → ¬d.Below (2 ^ 1024 - 2 ^ 970)) :
      Meaning t cs (text t)

theorem exists_meaning (t : String) (cs : List Char) : ∃ v, Meaning t cs v := by
  by_cases ht : t = ""
  · exact ⟨_, .empty ht⟩
  by_cases hcs : cs = []
  · exact ⟨_, .blank ht hcs⟩
  by_cases hfit : ∃ i : Int64, SpellsInt 10 cs i.toInt
  · obtain ⟨i, hi⟩ := hfit
    exact ⟨_, .whole hi⟩
  · have hfit' : ∀ i : Int64, ¬SpellsInt 10 cs i.toInt := fun i hi => hfit ⟨i, hi⟩
    by_cases hbound : ∃ d, Decimal.Spells cs d ∧ d.Below (2 ^ 1024 - 2 ^ 970)
    · obtain ⟨d, hd, hbelow⟩ := hbound
      exact ⟨_, .decimal hfit' hd hbelow (Double.isNearest_ofDecimal hbelow)⟩
    · exact ⟨_, .other hcs hfit' fun d hd hbelow => hbound ⟨d, hd, hbelow⟩⟩

theorem classify_of_trimmed (ht : Trimmed t.toList cs) (hcs : cs ≠ []) :
    classify (some t) = (number? cs).getD (text t) := by
  have hne : t ≠ "" := by
    rintro rfl
    exact hcs ht.trim_eq.symm
  rw [classify, if_neg hne, ht.trim_eq, if_neg hcs]

theorem number?_of_integerText? {i : Int64} (h : integerText? cs = some i) :
    number? cs = some (integer i) := by
  rw [number?, h]

theorem number?_of_read? {d : Decimal} (h : integerText? cs = none)
    (hd : Decimal.read? cs = some d) : number? cs =
      if (Double.ofDecimal d).isFinite then some (ofDouble (.ofDecimal d)) else none := by
  rw [number?, h, hd]
  rfl

theorem number?_eq_none (h : integerText? cs = none) (hd : Decimal.read? cs = none) :
    number? cs = none := by
  rw [number?, h, hd]
  rfl

theorem Meaning.classify_eq (h : Meaning t cs v) (ht : Trimmed t.toList cs)
    (hm : ¬Marked cs) : classify (some t) = v := by
  have hinteger := integerText?_of_not_marked hm
  have hnone (hfit : ∀ i : Int64, ¬SpellsInt 10 cs i.toInt) : integerText? cs = none := by
    rw [hinteger, Option.eq_none_iff_forall_ne_some]
    exact fun i hi => hfit i ((Numeral.int64?_eq_some_iff (by decide)).mp hi)
  cases h with
  | empty hempty => rw [classify, if_pos hempty]
  | blank hne hcs => rw [classify, if_neg hne, ht.trim_eq, if_pos hcs]
  | whole hi =>
    rw [← Numeral.int64?_eq_some_iff (by decide), ← hinteger] at hi
    have hcs : cs ≠ [] := by
      rintro rfl
      cases hi
    rw [classify_of_trimmed ht hcs, number?_of_integerText? hi, Option.getD_some]
  | decimal hfit hd hbound hx =>
    have hread := Decimal.read?_eq_some_iff.mpr hd
    have hcs : cs ≠ [] := by
      rintro rfl
      cases hread
    -- All nearest doubles have one value, and both zeros count as the integer zero.
    obtain ⟨m, hscaled, _⟩ := id hx
    have hsame := hx.unique (Decimal.denominator_pos _) (Double.isNearest_ofDecimal hbound)
    rw [classify_of_trimmed ht hcs, number?_of_read? (hnone hfit) hread,
      if_pos (Double.isFinite_ofDecimal_iff.mpr hbound), Option.getD_some]
    exact ofDouble_congr (hsame.symm.trans hscaled) hscaled
  | other hcs hfit hbound =>
    rw [classify_of_trimmed ht hcs]
    cases hread : Decimal.read? cs with
    | none => rw [number?_eq_none (hnone hfit) hread, Option.getD_none]
    | some d =>
      have hinfinite := hbound d (Decimal.read?_eq_some_iff.mp hread)
      rw [number?_of_read? (hnone hfit) hread,
        if_neg (mt Double.isFinite_ofDecimal_iff.mp hinfinite), Option.getD_none]

/-- **Text without a marker is classified as what it stands for and nothing else.** -/
theorem classify_iff_meaning (ht : Trimmed t.toList cs) (hm : ¬Marked cs) :
    classify (some t) = v ↔ Meaning t cs v := by
  refine ⟨fun h => ?_, fun h => h.classify_eq ht hm⟩
  obtain ⟨w, hw⟩ := exists_meaning t cs
  rwa [← h, hw.classify_eq ht hm]

/-- An exponent can leave a whole number. -/
theorem classify_iff_meaning_padded :
    Trimmed "\t-1.5e1 ".toList "-1.5e1".toList ∧ ¬Marked "-1.5e1".toList ∧
      Meaning "\t-1.5e1 " "-1.5e1".toList (integer (-15)) := by
  have ht : Trimmed "\t-1.5e1 ".toList "-1.5e1".toList := Text.trim_eq_iff.mp (by decide)
  have hm : ¬Marked "-1.5e1".toList := fun h => by cases h
  exact ⟨ht, hm, (classify_iff_meaning ht hm).mp (by decide +kernel)⟩

theorem classify_marked (ht : Trimmed t.toList ('0' :: c :: rest)) (hm : Mark c base) :
    classify (some t) = ((Numeral.int64? base rest).map integer).getD (text t) := by
  rw [classify_of_trimmed ht (List.cons_ne_nil _ _)]
  have hinteger := integerText?_of_mark hm rest
  cases hi : Numeral.int64? base rest with
  | none => rw [number?_eq_none (hinteger.trans hi) (read?_of_mark hm rest), Option.map_none]
  | some i => rw [number?_of_integerText? (hinteger.trans hi), Option.map_some]

theorem classify_marked_eq_integer_iff (ht : Trimmed t.toList ('0' :: c :: rest))
    (hm : Mark c base) {i : Int64} :
    classify (some t) = integer i ↔ SpellsInt base rest i.toInt := by
  rw [classify_marked ht hm, ← Numeral.int64?_eq_some_iff hm.base_le]
  cases Numeral.int64? base rest with
  | none => simp
  | some j => simp

theorem classify_marked_eq_text (ht : Trimmed t.toList ('0' :: c :: rest)) (hm : Mark c base)
    (h : ∀ i : Int64, ¬SpellsInt base rest i.toInt) : classify (some t) = text t := by
  rw [classify_marked ht hm]
  cases hi : Numeral.int64? base rest with
  | none => rfl
  | some i => exact absurd ((Numeral.int64?_eq_some_iff hm.base_le).mp hi) (h i)

/-- A value is the number that digits of a base stand for, and no other text than digits
gives a number. -/
def IsDigitsValue (base : Nat) (rest : List Char) (t : String) (v : MemberValue) : Prop :=
  (∀ i : Int64, v = integer i ↔ ∃ n, Spells base rest n ∧ i.toInt = n) ∧
    ((∀ n, ¬Spells base rest n) → v = text t)

/-- **Behind a marker an integer of 64 bits in its base is read**, and nothing else. It is
made of digits alone unless a sign comes first. -/
theorem classify_marked_iff (ht : Trimmed t.toList ('0' :: c :: rest)) (hm : Mark c base) :
    (∀ i, classify (some t) = integer i ↔ SpellsInt base rest i.toInt) ∧
    ((∀ i : Int64, ¬SpellsInt base rest i.toInt) → classify (some t) = text t) ∧
    (IsDigitsValue base rest t (classify (some t)) ↔
      ¬∃ s ds, (s = '+' ∨ s = '-') ∧ rest = s :: ds ∧
        ∃ i : Int64, SpellsInt base rest i.toInt) := by
  refine ⟨fun i => classify_marked_eq_integer_iff ht hm, classify_marked_eq_text ht hm,
    fun hdigits => ?_, fun hsign => ?_⟩
  · rintro ⟨s, ds, hs, rfl, i, hi⟩
    obtain ⟨n, hn, _⟩ := (hdigits.1 i).mp ((classify_marked_eq_integer_iff ht hm).mpr hi)
    obtain ⟨d, hd⟩ := hn.forall_mem s (.head ds)
    have hne := hd.ne_sign hm.base_le
    exact hs.elim hne.1 hne.2
  · -- A rest that starts with a sign spells nothing, and any other one has digits alone.
    have hspells : ∀ i : Int64, SpellsInt base rest i.toInt ↔
        ∃ n, Spells base rest n ∧ i.toInt = n := by
      refine fun i => ⟨fun hi => hi.exists_spells fun s hs => ?_, fun ⟨n, hn, hin⟩ => ?_⟩
      · obtain ⟨ds, rfl⟩ := List.head?_eq_some_iff.mp hs
        refine ⟨?_, ?_⟩
        · rintro rfl
          exact hsign ⟨_, ds, .inl rfl, rfl, i, hi⟩
        · rintro rfl
          exact hsign ⟨_, ds, .inr rfl, rfl, i, hi⟩
      · rw [hin]
        exact hn.spellsInt
    refine ⟨fun i => (classify_marked_eq_integer_iff ht hm).trans (hspells i), fun hnone => ?_⟩
    refine classify_marked_eq_text ht hm fun i hi => ?_
    obtain ⟨n, hn, _⟩ := (hspells i).mp hi
    exact hnone n hn

theorem classify_marked_iff_hex :
    Trimmed " 0xFf".toList "0xFf".toList ∧ Mark 'x' 16 ∧
      IsDigitsValue 16 ['F', 'f'] " 0xFf" (integer 255) := by
  have ht : Trimmed " 0xFf".toList "0xFf".toList := Text.trim_eq_iff.mp (by decide)
  have hvalue : classify (some " 0xFf") = integer 255 := by decide +kernel
  have hdigits := (classify_marked_iff ht .lowerHex).2.2
  rw [hvalue] at hdigits
  refine ⟨ht, .lowerHex, hdigits.mpr ?_⟩
  rintro ⟨s, ds, hs, hrest, _⟩
  cases hrest
  exact absurd hs (by decide)

/-- A sign behind the marker is read, while one in front of it makes the text no number. -/
theorem sign_behind_marker :
    classify (some "0x-5") = integer (-5) ∧ ¬IsDigitsValue 16 ['-', '5'] "0x-5" (integer (-5)) ∧
      classify (some "-0x5") = text "-0x5" := by
  refine ⟨by decide +kernel, fun h => ?_, by decide +kernel⟩
  obtain ⟨n, _, hn⟩ := (h.1 (-5)).mp rfl
  have hneg : (-5 : Int64).toInt < 0 := by decide
  omega

/-- The texts for a natural number, in decimal or behind the marker of a base. -/
inductive Spelling : List Char → Nat → Prop
  | decimal {ds k} (h : Spells 10 ds k) : Spelling ds k
  | marked {c b ds k} (hm : Mark c b) (h : Spells b ds k) : Spelling ('0' :: c :: ds) k

theorem not_marked_of_spells (h : Spells 10 cs n) : ¬Marked cs := by
  rintro ⟨hm, rest⟩
  obtain ⟨d, hd⟩ := h.forall_mem _ (.tail _ (.head rest))
  have hdigit := (Numeral.digit?_eq_some_iff (by decide)).mpr hd
  cases hm <;> cases hdigit

theorem classify_of_spells (ht : Trimmed t.toList cs) (h : Spells 10 cs n)
    (hv : Meaning t cs v) : classify (some t) = v :=
  hv.classify_eq ht (not_marked_of_spells h)

theorem not_spellsInt_of_le (h : Spells 10 cs n) (hn : 2 ^ 63 ≤ n) (i : Int64) :
    ¬SpellsInt 10 cs i.toInt := by
  intro hi
  have heq := hi.unique (by decide) h.spellsInt
  have hlt := i.toInt_lt
  omega

/-- Digits of a larger number are worth its double. -/
theorem classify_of_large (ht : Trimmed t.toList cs) (h : Spells 10 cs n) (hlow : 2 ^ 63 ≤ n)
    (hhigh : n < 2 ^ 1024 - 2 ^ 970) : classify (some t) = float (.ofInt n) := by
  have hbelow : Decimal.Below (2 ^ 1024 - 2 ^ 970) ⟨false, n, 0⟩ :=
    Decimal.below_natural.mpr hhigh
  have hmeaning : Meaning t cs (ofDouble (.ofDecimal ⟨false, n, 0⟩)) :=
    .decimal (not_spellsInt_of_le h hlow) (Decimal.spells_of_digits h) hbelow
      (Double.isNearest_ofDecimal hbelow)
  rw [classify_of_spells ht h hmeaning, Double.ofDecimal_natural (by omega)]
  exact ofDouble_of_not_fitsInt64 fun _ => Double.not_fitsInt64_ofInt (by omega)

theorem classify_of_too_large (ht : Trimmed t.toList cs) (h : Spells 10 cs n)
    (hn : 2 ^ 1024 - 2 ^ 970 ≤ n) : classify (some t) = text t := by
  have hlow : 2 ^ 63 ≤ n := Nat.le_trans (by decide +kernel) hn
  refine classify_of_spells ht h (.other h.ne_nil (not_spellsInt_of_le h hlow) fun d hd => ?_)
  obtain rfl := hd.unique (Decimal.spells_of_digits h)
  exact mt Decimal.below_natural.mp (Nat.not_lt.mpr hn)

/-- **A number of 63 bits is worth the same in every spelling**, with any zeros in front and
in letters of either case. From there on its digits are worth the double nearest it, and
if it is too large for one they are text. -/
theorem classify_spelling (n : Nat) :
    (n < 2 ^ 63 → ∃ i : Int64, i.toInt = n ∧
      ∀ t cs, Trimmed t.toList cs → Spelling cs n → classify (some t) = integer i) ∧
    (2 ^ 63 ≤ n → n < 2 ^ 1024 - 2 ^ 970 → ∃ x : Double, x.IsNearest (n * 2 ^ 1074) 1 ∧
      ∀ t cs, Trimmed t.toList cs → Spells 10 cs n → classify (some t) = float x) ∧
    (2 ^ 1024 - 2 ^ 970 ≤ n →
      ∀ t cs, Trimmed t.toList cs → Spells 10 cs n → classify (some t) = text t) := by
  refine ⟨fun hn => ?_, fun hlow hhigh => ?_, fun hn t cs ht h => classify_of_too_large ht h hn⟩
  · obtain ⟨i, hi⟩ : ∃ i : Int64, i.toInt = n :=
      ⟨.ofInt n, Int64.toInt_ofInt_of_le (by omega) (by omega)⟩
    refine ⟨i, hi, fun t cs ht h => ?_⟩
    cases h with
    | decimal h =>
      have hspells := h.spellsInt
      rw [← hi] at hspells
      exact classify_of_spells ht h (.whole hspells)
    | marked hm h =>
      rw [classify_marked_eq_integer_iff ht hm, hi]
      exact h.spellsInt
  · have hfinite : (Double.ofInt n).isFinite = true := by
      rw [← Double.ofDecimal_natural (by omega), Double.isFinite_ofDecimal_iff]
      exact Decimal.below_natural.mpr hhigh
    exact ⟨.ofInt n, Double.isNearest_ofInt hfinite, fun t cs ht h =>
      classify_of_large ht h hlow hhigh⟩

/-- The four notations of a byte, and a number past the integers of 64 bits. -/
theorem classify_spelling_byte :
    classify (some "255") = integer 255 ∧ classify (some " 0xfF") = integer 255 ∧
      classify (some "0o0377") = integer 255 ∧ classify (some "0B11111111") = integer 255 ∧
      ∃ x : Double, x.IsNearest ((2 ^ 63 : Nat) * 2 ^ 1074) 1 ∧
        classify (some "9223372036854775808") = float x := by
  obtain ⟨i, hi, hsmall⟩ := (classify_spelling 255).1 (by decide)
  obtain rfl : i = 255 := Int64.toInt_inj.mp hi
  obtain ⟨x, hx, hlarge⟩ := (classify_spelling (2 ^ 63)).2.1 (Nat.le_refl _) (by decide +kernel)
  have small {t : String} {cs : List Char} (ht : Text.trim t.toList = cs)
      (h : Spelling cs 255) : classify (some t) = integer 255 :=
    hsmall t cs (Text.trim_eq_iff.mp ht) h
  have read {b k : Nat} {cs : List Char} (hb : b ≤ 16) (h : Numeral.natural? b cs = some k) :
      Spells b cs k := (Numeral.natural?_eq_some_iff hb).mp h
  refine ⟨small rfl (.decimal (Numeral.spells_toDigits (by decide) 255)),
    small rfl (.marked .lowerHex (read (by decide) rfl)),
    small rfl (.marked .lowerOctal (read (by decide) rfl)),
    small rfl (.marked .upperBinary (Numeral.spells_toDigits (by decide) 255)), x, hx, ?_⟩
  exact hlarge _ _ (Text.trimmed_trim _) (Numeral.spells_toDigits (by decide) (2 ^ 63))

/-- A power of ten that no double is near is kept as text. -/
theorem spelling_can_be_text :
    let t := String.ofList ('1' :: List.replicate 309 '0')
    Spelling t.toList (10 ^ 309) ∧ classify (some t) = text t := by
  intro t
  have hblank : ∀ c ∈ '1' :: List.replicate 309 '0', Text.isBlank c = false := by
    simp only [List.mem_cons, List.mem_replicate]
    rintro c (rfl | ⟨_, rfl⟩) <;> decide
  have ht : Trimmed t.toList ('1' :: List.replicate 309 '0') := by
    rw [String.toList_ofList]
    exact Text.trim_eq_iff.mp (Text.trim_of_not_blank hblank)
  refine ⟨?_, classify_of_too_large ht (Numeral.spells_pow (by decide) 309) (by decide +kernel)⟩
  rw [String.toList_ofList]
  exact Spelling.decimal (Numeral.spells_pow (by decide) 309)

end MemberValue

end SchemaSharp
