/-
Numbers spelled out in a base.

`Spells base cs n` says that the digits `cs`, letters of either case among them, stand for
`n`: a digit is worth itself, and each further one moves those before it up one place.
`SpellsInt` allows a sign in front. Numbers are read from exactly what spells them
(`natural?_eq_some_iff`, `integer?_eq_some_iff`, `int64?_eq_some_iff`), in every base up
to sixteen, and every number is spelled in each of these bases (`spells_toDigits`).
-/
import Mathlib.Data.List.Induction
import SchemaSharp.Proofs.Numeral

namespace SchemaSharp

namespace Numeral

/-- `c` is the digit of `d`, a letter from ten on. -/
def IsDigitOf (base : Nat) (c : Char) (d : Nat) : Prop :=
  d < base ∧ (c = d.digitChar ∨ c = d.digitChar.toUpper)

/-- Digits that stand for a number. -/
inductive Spells (base : Nat) : List Char → Nat → Prop
  | digit {c d} (hc : IsDigitOf base c d) : Spells base [c] d
  | append {cs n c d} (h : Spells base cs n) (hc : IsDigitOf base c d) :
      Spells base (cs ++ [c]) (n * base + d)

/-- A sign in front of a number, or none. -/
inductive SignText : List Char → Bool → Prop
  | none : SignText [] false
  | plus : SignText ['+'] false
  | minus : SignText ['-'] true

/-- A sign or none and digits that stand for an integer. -/
inductive SpellsInt (base : Nat) : List Char → Int → Prop
  | intro {ss negative cs n} (hs : SignText ss negative) (hd : Spells base cs n) :
      SpellsInt base (ss ++ cs) (signed negative n)

section Reading

variable {base : Nat} {c : Char} {cs : List Char} {n d : Nat}

theorem digit?_of_le (hb : base ≤ 16) (c : Char) :
    digit? base c = (digit? 16 c).filter (· < base) := by
  have hlt : ∀ d, (decide (d < 16) && decide (d < base)) = decide (d < base) := fun d => by
    rw [← Bool.decide_and]
    exact decide_eq_decide.mpr ⟨And.right, fun h => ⟨by omega, h⟩⟩
  unfold digit?
  simp only [Option.filter_filter, hlt]

theorem digit?_sixteen_eq_some_iff : digit? 16 c = some d ↔ IsDigitOf 16 c d := by
  refine ⟨fun h => ?_, fun h => ?_⟩
  · have hof : ∀ {first : Char} {k : Nat}, first ≤ c → c.toNat - first.toNat = k →
        c = .ofNat (first.toNat + k) := fun {first k} hle hk => by
      have hval : first.toNat ≤ c.toNat := hle
      rw [← hk, Nat.add_sub_cancel' hval, Char.ofNat_toNat]
    have hdecimal : ∀ k < 10, Char.ofNat ('0'.toNat + k) = k.digitChar := by decide
    have hlower : ∀ k < 6, Char.ofNat ('a'.toNat + k) = (k + 10).digitChar := by decide
    have hupper : ∀ k < 6, Char.ofNat ('A'.toNat + k) = (k + 10).digitChar.toUpper := by decide
    unfold digit? at h
    obtain ⟨hvalue, hd⟩ := Option.filter_eq_some_iff.mp h
    have hlt : d < 16 := of_decide_eq_true hd
    split at hvalue
    next hc =>
      have hk := Option.some.inj hvalue
      have h9 : c.toNat ≤ '9'.toNat := hc.2
      have h10 : d < 10 := by
        have h57 : '9'.toNat - '0'.toNat = 9 := rfl
        omega
      exact ⟨hlt, .inl ((hof hc.1 hk).trans (hdecimal d h10))⟩
    next =>
      split at hvalue
      next hc =>
        have hk := Option.some.inj hvalue
        obtain ⟨k, rfl⟩ : ∃ k, d = k + 10 := ⟨c.toNat - 'a'.toNat, hk.symm⟩
        exact ⟨hlt, .inl ((hof hc.1 (Nat.add_right_cancel hk)).trans (hlower k (by omega)))⟩
      next =>
        split at hvalue
        next hc =>
          have hk := Option.some.inj hvalue
          obtain ⟨k, rfl⟩ : ∃ k, d = k + 10 := ⟨c.toNat - 'A'.toNat, hk.symm⟩
          exact ⟨hlt, .inr ((hof hc.1 (Nat.add_right_cancel hk)).trans (hupper k (by omega)))⟩
        next => cases hvalue
  · have all : ∀ d < 16, digit? 16 d.digitChar = some d ∧
        digit? 16 d.digitChar.toUpper = some d := by decide
    obtain ⟨hlt, rfl | rfl⟩ := h
    · exact (all d hlt).1
    · exact (all d hlt).2

theorem digit?_eq_some_iff (hb : base ≤ 16) : digit? base c = some d ↔ IsDigitOf base c d := by
  rw [digit?_of_le hb, Option.filter_eq_some_iff, digit?_sixteen_eq_some_iff, decide_eq_true_iff]
  unfold IsDigitOf
  refine ⟨fun h => ⟨h.2, h.1.2⟩, fun h => ⟨⟨Nat.lt_of_lt_of_le h.1 hb, h.2⟩, h.1⟩⟩

theorem digit?_digitChar (hb : base ≤ 16) (h : d < base) : digit? base d.digitChar = some d :=
  (digit?_eq_some_iff hb).mpr ⟨h, .inl rfl⟩

theorem continue?_append (cs cs' : List Char) :
    continue? base n (cs ++ cs') = (continue? base n cs).bind fun m => continue? base m cs' := by
  induction cs generalizing n with
  | nil => rfl
  | cons c cs ih =>
    rw [List.cons_append, continue?, continue?]
    cases digit? base c with
    | none => rfl
    | some d => exact ih

theorem natural?_eq_some (hb : base ≤ 16) (h : natural? base cs = some n) : Spells base cs n := by
  induction cs using List.reverseRecOn generalizing n with
  | nil => cases h
  | append_singleton cs c ih =>
    have hread : natural? base (cs ++ [c]) = continue? base 0 (cs ++ [c]) := by
      cases cs <;> rfl
    rw [hread, continue?_append] at h
    obtain ⟨m, hm, h⟩ := Option.bind_eq_some_iff.mp h
    obtain ⟨d, hd, h⟩ := Option.bind_eq_some_iff.mp h
    obtain rfl := Option.some.inj h
    have hc := (digit?_eq_some_iff hb).mp hd
    cases cs with
    | nil =>
      obtain rfl := Option.some.inj hm
      rw [Nat.zero_mul, Nat.zero_add]
      exact .digit hc
    | cons c' cs => exact .append (ih hm) hc

/-- **A number is read from exactly the digits that stand for it.** -/
theorem natural?_eq_some_iff (hb : base ≤ 16) : natural? base cs = some n ↔ Spells base cs n := by
  refine ⟨natural?_eq_some hb, fun h => ?_⟩
  induction h with
  | @digit c d hc =>
    have hd := (digit?_eq_some_iff hb).mpr hc
    rw [natural?, continue?, hd, Option.bind_some, continue?, Nat.zero_mul, Nat.zero_add]
  | @append cs n c d h hc ih =>
    have hd := (digit?_eq_some_iff hb).mpr hc
    cases cs with
    | nil => cases ih
    | cons c' cs =>
      change continue? base 0 (c' :: cs ++ [c]) = _
      change continue? base 0 (c' :: cs) = _ at ih
      rw [continue?_append, ih, Option.bind_some, continue?, hd, Option.bind_some, continue?]

theorem IsDigitOf.ne_sign (hb : base ≤ 16) (h : IsDigitOf base c d) : c ≠ '+' ∧ c ≠ '-' := by
  have hd := (digit?_eq_some_iff hb).mpr h
  refine ⟨?_, ?_⟩
  all_goals
    rintro rfl
    cases hd

theorem Spells.forall_mem (h : Spells base cs n) : ∀ c ∈ cs, ∃ d, IsDigitOf base c d := by
  induction h with
  | digit hc => simpa using ⟨_, hc⟩
  | append _ hc ih =>
    intro c hmem
    rcases List.mem_append.mp hmem with hmem | hmem
    · exact ih c hmem
    · obtain rfl := List.mem_singleton.mp hmem
      exact ⟨_, hc⟩

theorem Spells.ne_nil (h : Spells base cs n) : cs ≠ [] := by
  cases h <;> simp

/-- What does not start with a sign keeps the sign in front of it apart. -/
theorem sign_append {ss : List Char} {negative : Bool} (hs : SignText ss negative)
    (hc : ∀ c, cs.head? = some c → c ≠ '+' ∧ c ≠ '-') : sign (ss ++ cs) = (negative, cs) := by
  cases hs with
  | plus => rfl
  | minus => rfl
  | none =>
    rw [List.nil_append]
    unfold sign
    split
    · exact absurd rfl (hc _ rfl).2
    · exact absurd rfl (hc _ rfl).1
    · rfl

theorem exists_signText (cs : List Char) :
    ∃ ss negative cs', cs = ss ++ cs' ∧ SignText ss negative ∧ sign cs = (negative, cs') := by
  unfold sign
  split
  · exact ⟨['-'], true, _, rfl, .minus, rfl⟩
  · exact ⟨['+'], false, _, rfl, .plus, rfl⟩
  · exact ⟨[], false, cs, rfl, .none, rfl⟩

theorem Spells.sign_append (hb : base ≤ 16) {ss : List Char} {negative : Bool}
    (h : Spells base cs n) (hs : SignText ss negative) : sign (ss ++ cs) = (negative, cs) := by
  refine Numeral.sign_append hs fun c hc => ?_
  obtain ⟨d, hd⟩ := h.forall_mem c (List.mem_of_head? hc)
  exact hd.ne_sign hb

theorem integer?_eq_some_iff (hb : base ≤ 16) {i : Int} :
    integer? base cs = some i ↔ SpellsInt base cs i := by
  refine ⟨fun h => ?_, fun h => ?_⟩
  · obtain ⟨ss, negative, cs', rfl, hs, hsign⟩ := exists_signText cs
    rw [integer?_eq, hsign] at h
    obtain ⟨n, hn, rfl⟩ := Option.map_eq_some_iff.mp h
    exact .intro hs ((natural?_eq_some_iff hb).mp hn)
  · cases h with
    | intro hs hd =>
      rw [integer?_eq, hd.sign_append hb hs, (natural?_eq_some_iff hb).mpr hd, Option.map_some]

/-- **An integer of 64 bits is read from exactly what spells it.** -/
theorem int64?_eq_some_iff (hb : base ≤ 16) {i : Int64} :
    int64? base cs = some i ↔ SpellsInt base cs i.toInt := by
  unfold int64?
  rw [Option.bind_eq_some_iff]
  simp only [integer?_eq_some_iff hb]
  refine ⟨fun h => ?_, fun h => ⟨i.toInt, h, ?_⟩⟩
  · obtain ⟨k, hk, hi⟩ := h
    split at hi
    next hfit =>
      obtain rfl := Option.some.inj hi
      rwa [Int64.toInt_ofInt_of_le hfit.1 hfit.2]
    next => cases hi
  · rw [if_pos ⟨i.le_toInt, i.toInt_lt⟩, Int64.ofInt_toInt]

theorem SpellsInt.unique (hb : base ≤ 16) {i j : Int} (hi : SpellsInt base cs i)
    (hj : SpellsInt base cs j) : i = j := by
  have h := (integer?_eq_some_iff hb).mpr hi
  rw [(integer?_eq_some_iff hb).mpr hj] at h
  exact (Option.some.inj h).symm

theorem Spells.spellsInt (h : Spells base cs n) : SpellsInt base cs n := .intro .none h

/-- Without a sign an integer is spelled by digits alone. -/
theorem SpellsInt.exists_spells {i : Int} (h : SpellsInt base cs i)
    (hc : ∀ c, cs.head? = some c → c ≠ '+' ∧ c ≠ '-') : ∃ n, Spells base cs n ∧ i = n := by
  cases h with
  | intro hs hd =>
    cases hs with
    | none => exact ⟨_, hd, rfl⟩
    | plus => exact absurd rfl (hc '+' rfl).1
    | minus => exact absurd rfl (hc '-' rfl).2

end Reading

/-- **Every number is spelled in every base.** -/
theorem spells_toDigits {base : Nat} (hb : 1 < base) (n : Nat) :
    Spells base (Nat.toDigits base n) n := by
  induction n using Nat.strongRecOn with
  | ind n ih =>
    rcases Nat.lt_or_ge n base with hlt | hge
    · rw [Nat.toDigits_of_lt_base hlt]
      exact .digit ⟨hlt, .inl rfl⟩
    · have hdiv := ih (n / base) (Nat.div_lt_self (by omega) hb)
      have hmod : IsDigitOf base (n % base).digitChar (n % base) :=
        ⟨Nat.mod_lt n (by omega), .inl rfl⟩
      have h := hdiv.append hmod
      rw [Nat.div_add_mod'] at h
      rwa [Nat.toDigits_of_base_le hb hge]

theorem spells_pow {base : Nat} (hb : 1 < base) (k : Nat) :
    Spells base ('1' :: List.replicate k '0') (base ^ k) := by
  induction k with
  | zero => exact .digit ⟨hb, .inl rfl⟩
  | succ k ih =>
    have h := ih.append (c := '0') (d := 0) ⟨by omega, .inl rfl⟩
    rwa [Nat.add_zero, ← Nat.pow_succ, List.cons_append, ← List.replicate_succ'] at h

end Numeral

end SchemaSharp
