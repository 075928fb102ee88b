/-
Whole numbers as values of members.

A whole number of 64 bits, signed or unsigned, can be declared in three ways: as a
number in JSON, as a string of its digits in JSON, and as text without JSON. Numbers in
JSON are read by rules of their own, text is tried as an integer first and then rounded
as a decimal. Still all three come to `MemberValue.ofInt` (`Member.decode_whole_number`):
the integer itself as long as it fits, and else the double nearest it.
-/
import SchemaSharp.Proofs.Nearest
import SchemaSharp.Proofs.Classification
import SchemaSharp.Proofs.ObjectView
import SchemaSharp.Json.Reader

namespace SchemaSharp

/-! ## Numbers in JSON text -/

namespace Numeral

theorem head?_toDigits_ne_zero {n : Nat} (h : n ≠ 0) : (Nat.toDigits 10 n).head? ≠ some '0' := by
  induction n using Nat.strongRecOn with
  | ind n ih =>
    rcases Nat.lt_or_ge n 10 with hlt | hge
    · have all : ∀ k < 10, k ≠ 0 → k.digitChar ≠ '0' := by decide
      rw [Nat.toDigits_of_lt_base hlt, List.head?_cons, ne_eq, Option.some.injEq]
      exact all n hlt h
    · rw [Nat.toDigits_of_base_le (by decide) hge,
        List.head?_append_of_ne_nil _ Nat.toDigits_ne_nil]
      exact ih (n / 10) (by omega) (by omega)

end Numeral

namespace Json

/-- What follows does not go on with a number. -/
def EndsNumber (rest : List Char) : Prop :=
  ∀ c, rest.head? = some c → c.isDigit = false ∧ c ≠ '.' ∧ c ≠ 'e' ∧ c ≠ 'E'

namespace Number

theorem wellFormed_toDigits (n : Nat) : wellFormed (Nat.toDigits 10 n) = true := by
  by_cases hn : n = 0
  · rw [hn, Nat.toDigits_zero]
    rfl
  · have hhead := Numeral.head?_toDigits_ne_zero hn
    unfold wellFormed
    split
    next h => exact absurd h Nat.toDigits_ne_nil
    next => rfl
    next h =>
      rw [h] at hhead
      exact absurd rfl hhead
    next => rfl

variable {rest : List Char}

theorem fraction?_of_endsNumber (h : EndsNumber rest) : fraction? rest = some (none, rest) := by
  unfold fraction?
  split
  next cs => exact absurd rfl (h '.' rfl).2.1
  next => rfl

theorem exponent?_of_endsNumber (h : EndsNumber rest) : exponent? rest = some (none, rest) := by
  unfold exponent?
  split
  next cs => exact absurd rfl (h 'e' rfl).2.2.1
  next cs => exact absurd rfl (h 'E' rfl).2.2.2
  next => rfl

theorem readUnsigned_toDigits {negative : Bool} {n : Nat} (h : EndsNumber rest) :
    readUnsigned negative (Nat.toDigits 10 n ++ rest) =
      (whole? negative (Nat.toDigits 10 n)).map fun m => (m, rest) := by
  obtain ⟨htake, hdrop⟩ :=
    Decimal.span_digits (Decimal.isDigits_toDigits n).2 fun c hc => (h c hc).1
  unfold readUnsigned
  rw [htake, hdrop, if_pos (wellFormed_toDigits n), fraction?_of_endsNumber h, Option.bind_some]
  dsimp only
  rw [exponent?_of_endsNumber h, Option.bind_some]

/-- Only a negative zero is no whole number. -/
theorem whole?_of_signed {negative : Bool} {digits : List Char} {n : Int}
    (h : -(2 ^ 63) ≤ n ∧ n < 2 ^ 64)
    (hn : Numeral.signed negative (Nat.ofDigitChars 10 digits 0) = n)
    (hz : negative = true → n < 0) : whole? negative digits = some (.whole n h) := by
  subst hn
  have hfits : (-(2 ^ 63) ≤ Numeral.signed negative (Nat.ofDigitChars 10 digits 0) ∧
      Numeral.signed negative (Nat.ofDigitChars 10 digits 0) < 2 ^ 64) ∧
      ¬(negative = true ∧ (Nat.ofDigitChars 10 digits 0 : Int) = 0) := by
    refine ⟨h, fun ⟨hneg, hzero⟩ => ?_⟩
    have hlt := hz hneg
    rw [hneg, Numeral.signed, if_pos rfl, hzero] at hlt
    exact absurd hlt (by decide)
  exact dif_pos hfits

/-- **The digits of a whole number of 64 bits are read as the number.** -/
theorem read_ofInt {n : Int} (h : -(2 ^ 63) ≤ n ∧ n < 2 ^ 64) (hr : EndsNumber rest) :
    read (Numeral.ofInt n ++ rest) = some (.whole n h, rest) := by
  have hread : read (Numeral.ofInt n ++ rest) =
      readUnsigned (n < 0) (Nat.toDigits 10 n.natAbs ++ rest) := by
    unfold Numeral.ofInt
    by_cases hn : n < 0
    · rw [if_pos hn, decide_eq_true hn]
      rfl
    · obtain ⟨c, hc, hne⟩ := Numeral.head_toDigits n.natAbs
      rw [if_neg hn, decide_eq_false hn]
      cases hd : Nat.toDigits 10 n.natAbs with
      | nil => exact absurd hd Nat.toDigits_ne_nil
      | cons c' cs =>
        rw [hd] at hc
        cases hc
        rw [List.cons_append, read]
        rintro cs' heq
        cases heq
        exact hne rfl
  have hvalue : Numeral.signed (n < 0) (Nat.ofDigitChars 10 (Nat.toDigits 10 n.natAbs) 0) = n := by
    rw [Nat.ofDigitChars_ten_toDigits, Numeral.signed_natAbs]
  rw [hread, readUnsigned_toDigits hr, whole?_of_signed h hvalue of_decide_eq_true, Option.map_some]

end Number

/-! ## Scalars in JSON text -/

variable {rest : List Char}

/-- A character that stands for itself in a string. -/
def isVerbatim (c : Char) : Bool := !(c < ' ') && c != '"' && c != '\\'

theorem stringRest_verbatim {cs : List Char} (h : ∀ c ∈ cs, isVerbatim c = true)
    (read : List Char) :
    stringRest read none (cs ++ '"' :: rest) = some (.ofList (read.reverse ++ cs), rest) := by
  induction cs generalizing read with
  | nil =>
    simp [stringRest]
  | cons c cs ih =>
    obtain ⟨hc, hcs⟩ := List.forall_mem_cons.mp h
    have hstep : stringRest read none (c :: (cs ++ '"' :: rest)) =
        stringRest (c :: read) none (cs ++ '"' :: rest) := by
      obtain ⟨⟨hlow, hquote⟩, hslash⟩ : (¬c < ' ' ∧ c ≠ '"') ∧ c ≠ '\\' := by
        simpa [isVerbatim] using hc
      rw [stringRest]
      · simp [hlow, hquote]
      · rintro _ _ _ _ _ rfl
        exact absurd rfl hslash
      · rintro _ _ rfl
        exact absurd rfl hslash
    rw [List.cons_append, hstep, ih hcs, List.reverse_cons, List.append_assoc]
    rfl

/-- A character that numbers start with, or go on with. -/
def isNumeral (c : Char) : Bool := c == '-' || c.isDigit

theorem isNumeral_of_mem_ofInt {n : Int} {c : Char} (h : c ∈ Numeral.ofInt n) :
    isNumeral c = true := by
  unfold Numeral.ofInt at h
  have hdigits : ∀ c ∈ Nat.toDigits 10 n.natAbs, isNumeral c = true := fun c hc => by
    simp [isNumeral, (Decimal.isDigits_toDigits _).2 c hc]
  split at h
  next =>
    rcases List.mem_cons.mp h with rfl | h
    · rfl
    · exact hdigits c h
  next => exact hdigits c h

theorem isVerbatim_of_isNumeral {c : Char} (h : isNumeral c = true) : isVerbatim c = true := by
  have hlow : ¬c < ' ' := by
    intro hlt
    have hval : c.toNat < ' '.toNat := hlt
    rcases Bool.or_eq_true_iff.mp h with hminus | hdigit
    · rw [beq_iff_eq.mp hminus] at hval
      exact absurd hval (by decide)
    · have hge := (Char.isDigit_iff_toNat.mp hdigit).1
      exact absurd (Nat.lt_of_le_of_lt hge hval) (by decide)
  have hquote : c ≠ '"' := by
    rintro rfl
    exact absurd h (by decide)
  have hslash : c ≠ '\\' := by
    rintro rfl
    exact absurd h (by decide)
  simp [isVerbatim, hlow, hquote, hslash]

theorem valueWith_of_isNumeral {c : Char} (hc : isNumeral c = true) (limit : Nat)
    (inner : Option (Reader Json)) (cs : List Char) :
    valueWith limit inner (c :: cs) =
      (Number.read (c :: cs)).map fun r => (.number r.1, r.2) := by
  have hblank : isBlank c = false := by
    unfold isBlank
    simp only [Bool.or_eq_false_iff, beq_eq_false_iff_ne]
    refine ⟨⟨⟨?_, ?_⟩, ?_⟩, ?_⟩
    all_goals
      rintro rfl
      exact absurd hc (by decide)
  have hskip : skipBlanks (c :: cs) = c :: cs := List.dropWhile_cons_of_neg (by simp [hblank])
  unfold valueWith
  rw [hskip]
  split
  case h_7 => rfl
  all_goals
    next heq =>
      cases heq
      exact absurd hc (by decide)

theorem value_eq_valueWith (limit depth : Nat) :
    ∃ inner, value limit depth = valueWith limit inner := by
  cases depth with
  | zero => exact ⟨none, rfl⟩
  | succ depth => exact ⟨some (value limit depth), rfl⟩

variable {n : Int}

/-- **The digits of a whole number are a value**, wherever values stand. -/
theorem value_ofInt (h : -(2 ^ 63) ≤ n ∧ n < 2 ^ 64) (hr : EndsNumber rest) (limit depth : Nat) :
    value limit depth (Numeral.ofInt n ++ rest) = some (.number (.whole n h), rest) := by
  obtain ⟨inner, hv⟩ := value_eq_valueWith limit depth
  have hread := Number.read_ofInt h hr
  cases hd : Numeral.ofInt n with
  | nil => exact absurd hd (Decimal.positional_ofInt n).ne_nil
  | cons c cs =>
    have hc : isNumeral c = true := isNumeral_of_mem_ofInt (n := n) (hd ▸ List.mem_cons_self)
    rw [hd, List.cons_append] at hread
    rw [hv, List.cons_append, valueWith_of_isNumeral hc, hread, Option.map_some]

/-- **Between quotation marks they are a string.** -/
theorem value_quoted_ofInt (n : Int) (limit depth : Nat) :
    value limit depth ('"' :: (Numeral.ofInt n ++ '"' :: rest)) =
      some (.string (Numeral.intText n), rest) := by
  obtain ⟨inner, hv⟩ := value_eq_valueWith limit depth
  have hstring : valueWith limit inner ('"' :: (Numeral.ofInt n ++ '"' :: rest)) =
      (stringRest [] none (Numeral.ofInt n ++ '"' :: rest)).map fun r => (.string r.1, r.2) := rfl
  have hverbatim : ∀ c ∈ Numeral.ofInt n, isVerbatim c = true := fun c hc =>
    isVerbatim_of_isNumeral (isNumeral_of_mem_ofInt hc)
  rw [hv, hstring, stringRest_verbatim hverbatim]
  rfl

end Json

/-! ## Values -/

namespace MemberValue

variable {n : Int}

/-- **What a whole number is worth**: itself as long as it fits, and else the double
nearest it. -/
theorem ofInt_cases (h : -(2 ^ 63) ≤ n ∧ n < 2 ^ 64) :
    (n < 2 ^ 63 ∧ ∃ i : Int64, i.toInt = n ∧ ofInt n = integer i) ∨
    (2 ^ 63 ≤ n ∧ ofInt n = float (.ofInt n) ∧ (Double.ofInt n).IsNearest (n * 2 ^ 1074) 1) := by
  rcases Int.lt_or_le n (2 ^ 63) with hlt | hge
  · refine .inl ⟨hlt, .ofInt n, Int64.toInt_ofInt_of_le h.1 hlt, ?_⟩
    rw [ofInt, if_pos ⟨h.1, hlt⟩]
  · refine .inr ⟨hge, ?_, Double.isNearest_ofInt (Double.isFinite_ofInt (by omega))⟩
    rw [ofInt, if_neg fun hfit => Int.not_lt.mpr hge hfit.2,
      ofDouble_of_not_fitsInt64 fun _ => Double.not_fitsInt64_ofInt hge]

theorem decode_number (h : -(2 ^ 63) ≤ n ∧ n < 2 ^ 64) :
    decode (.number (.whole n h)) = .ok (ofInt n) := rfl

theorem decode_digits (h : -(2 ^ 63) ≤ n ∧ n < 2 ^ 64) :
    decode (.string (Numeral.intText n)) = .ok (ofInt n) :=
  congrArg Except.ok (classify_intText (Double.isFinite_ofInt (by omega)))

end MemberValue

/-! ## Members -/

namespace Member

/-- An object says a name and, under one of two keys, a value. -/
def Declares (members : List (String × Json)) (name : String) (value : Json) : Prop :=
  Json.last? "name" members = some (.string name) ∧
  ((Json.last? "type" members = some value ∧ Json.last? "value" members = none) ∨
    (Json.last? "value" members = some value ∧ Json.last? "type" members = none))

variable {name : String} {j : Json}

theorem knows_iff (key : String) :
    shape.knows key = true ↔ "name" = key ∨ "type" = key ∨ "value" = key := by
  simp [Shape.knows, shape, Slot.spelled, Slot.required, Slot.optional, Slot.orKey]

theorem decode_pair {key : String} (hk : key = "type" ∨ key = "value") :
    decode (.object [("name", .string name), (key, j)]) =
      (MemberValue.decode j).map fun value => ⟨name, value⟩ := by
  have hsorted : Json.byKey [("name", .string name), (key, j)] =
      [("name", .string name), (key, j)] := by
    refine Json.byKey_of_ascending ?_
    change ["name", key].Pairwise (· < ·)
    rcases hk with rfl | rfl <;> decide
  have hvisit : shape.visit [] shape.blank [("name", .string name), (key, j)] =
      ((MemberValue.decode j).map fun value (m : Member) => { m with value }).bind fun change =>
        .ok (["type", "name"], change ⟨name, .positional⟩) := by
    rcases hk with rfl | rfl <;> rfl
  change (shape.visit [] shape.blank _).bind _ = _
  rw [hsorted, hvisit]
  cases MemberValue.decode j <;> rfl

theorem decode_array : decode (.array [.string name, j]) =
    (MemberValue.decode j).map fun value => ⟨name, value⟩ := by
  have hfill : decode (.array [.string name, j]) =
      ((MemberValue.decode j).map fun value (m : Member) => { m with value }).bind fun change =>
        .ok (change ⟨name, .positional⟩) := rfl
  rw [hfill]
  cases MemberValue.decode j <;> rfl

theorem decode_congr {members members' : List (String × Json)}
    (hname : Json.last? "name" members = Json.last? "name" members')
    (htype : Json.last? "type" members = Json.last? "type" members')
    (hvalue : Json.last? "value" members = Json.last? "value" members') :
    decode (.object members) = decode (.object members') := by
  refine Shape.decode_object_congr fun key hk => ?_
  rcases (knows_iff key).mp hk with rfl | rfl | rfl
  · exact hname
  · exact htype
  · exact hvalue

theorem decode_of_declares {members : List (String × Json)} (h : Declares members name j) :
    decode (.object members) = (MemberValue.decode j).map fun value => ⟨name, value⟩ := by
  obtain ⟨hname, ⟨htype, hvalue⟩ | ⟨hvalue, htype⟩⟩ := h
  · rw [← decode_pair (.inl rfl)]
    exact decode_congr hname htype hvalue
  · rw [← decode_pair (.inr rfl)]
    exact decode_congr hname htype hvalue

/-- **A whole number is worth the same in every spelling.** Wherever a value stands in
JSON text, its digits are read as a number and its quoted digits as a string. A member
that is loaded with either of them, as an object with any further members or as an array,
has the value that its digits have as declared text: the integer that it is, and past the
integers of 64 bits the double nearest it. -/
theorem decode_whole_number (n : Int) (h : -(2 ^ 63) ≤ n ∧ n < 2 ^ 64) :
    ∃ v : MemberValue,
      ((n < 2 ^ 63 ∧ ∃ i : Int64, i.toInt = n ∧ v = .integer i) ∨
        (2 ^ 63 ≤ n ∧ ∃ x : Double, v = .float x ∧ x.IsNearest (n * 2 ^ 1074) 1)) ∧
      (∀ name, ofDeclared name (some (Numeral.intText n)) = ⟨name, v⟩) ∧
      (∀ limit depth rest, Json.EndsNumber rest →
        Json.value limit depth (Numeral.ofInt n ++ rest) = some (.number (.whole n h), rest)) ∧
      (∀ limit depth rest, Json.value limit depth ('"' :: (Numeral.ofInt n ++ '"' :: rest)) =
        some (.string (Numeral.intText n), rest)) ∧
      ∀ j, j = .number (.whole n h) ∨ j = .string (Numeral.intText n) → ∀ name,
        (∀ members, Declares members name j → decode (.object members) = .ok ⟨name, v⟩) ∧
        decode (.array [.string name, j]) = .ok ⟨name, v⟩ := by
  refine ⟨.ofInt n, ?_, fun name => ?_, fun limit depth rest hr => ?_, fun limit depth rest => ?_,
    fun j hj name => ?_⟩
  · rcases MemberValue.ofInt_cases h with ⟨hlt, i, hi, hv⟩ | ⟨hge, hv, hnearest⟩
    · exact .inl ⟨hlt, i, hi, hv⟩
    · exact .inr ⟨hge, _, hv, hnearest⟩
  · rw [ofDeclared, MemberValue.classify_intText (Double.isFinite_ofInt (by omega))]
  · exact Json.value_ofInt h hr limit depth
  · exact Json.value_quoted_ofInt n limit depth
  · have hdecode : MemberValue.decode j = .ok (.ofInt n) := by
      rcases hj with rfl | rfl
      · exact MemberValue.decode_number h
      · exact MemberValue.decode_digits h
    refine ⟨fun members hm => ?_, ?_⟩
    · rw [decode_of_declares hm, hdecode]
      rfl
    · rw [decode_array, hdecode]
      rfl

/-- Half way between two doubles the even one is taken, from a number and from text. -/
theorem decode_whole_number_tie :
    let n : Int := 2 ^ 63 + 1024
    let m : Member := ⟨"Half", .float (.ofInt (2 ^ 63))⟩
    ofDeclared "Half" (some (Numeral.intText n)) = m ∧
      decode (.array [.string "Half", .number (.whole n (by decide))]) = .ok m ∧
      decode (.object [("value", .string (Numeral.intText n)), ("name", .string "Half")]) = .ok m ∧
      Decode.ofText decode "\x7b\"name\": \"Half\", \"type\": 9223372036854776832\x7d" = .ok m := by
  intro n m
  have hn : -(2 ^ 63) ≤ n ∧ n < 2 ^ 64 := by decide
  obtain ⟨v, _, hdeclared, _, _, hdecode⟩ := decode_whole_number n hn
  have hm : ofDeclared "Half" (some (Numeral.intText n)) = m := by decide +kernel
  have hv : ⟨"Half", v⟩ = m := (hdeclared "Half").symm.trans hm
  obtain ⟨_, harray⟩ := hdecode _ (.inl rfl) "Half"
  obtain ⟨hobject, _⟩ := hdecode _ (.inr rfl) "Half"
  refine ⟨hm, hv ▸ harray, hv ▸ hobject _ ⟨rfl, .inr ⟨rfl, rfl⟩⟩, by decide +kernel⟩

end Member

end SchemaSharp
