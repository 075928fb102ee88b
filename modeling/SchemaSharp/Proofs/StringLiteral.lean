/-
String literals as a compiler reads them.

`readLiteral?` takes a regular string literal off the front of source text.
`readLiteral?_quote`: off a quoted text and whatever follows it, it takes
exactly the quoted text. So quoting is injective, and a literal in a
generated file means the text that was declared.
-/
import SchemaSharp.Proofs.Declaration
import SchemaSharp.Proofs.MemberValue
import SchemaSharp.Proofs.SourceText
import SchemaSharp.Proofs.Spelling

namespace SchemaSharp

namespace Literal

/-- What a single character after a backslash stands for. -/
def simpleEscape? : Char → Option Char
  | '\\' => some '\\'
  | '"' => some '"'
  | 'n' => some '\n'
  | 'r' => some '\r'
  | 't' => some '\t'
  | '0' => some '\x00'
  | _ => none

/-- The character of a number, unless it is that of a surrogate. -/
def codePoint? (n : Nat) : Option Char := if n.isValidChar then some (.ofNat n) else none

/-- Reads the inside of a literal up to the first quotation mark that is not
escaped: the text, and what follows the mark. -/
def readInside? : List Char → Option (List Char × List Char)
  | [] => none
  | '"' :: rest => some ([], rest)
  | '\\' :: 'u' :: h₁ :: h₂ :: h₃ :: h₄ :: cs =>
    ((Numeral.natural? 16 [h₁, h₂, h₃, h₄]).bind codePoint?).bind fun c =>
      (readInside? cs).map fun (t, rest) => (c :: t, rest)
  | '\\' :: e :: cs =>
    (simpleEscape? e).bind fun c => (readInside? cs).map fun (t, rest) => (c :: t, rest)
  | ['\\'] => none
  | c :: cs => (readInside? cs).map fun (t, rest) => (c :: t, rest)

/-- Reads a string literal off the front of source text. -/
def readLiteral? : List Char → Option (List Char × List Char)
  | '"' :: cs => readInside? cs
  | _ => none

theorem natural?_hex4 {n : Nat} (h : n < 2 ^ 16) : Numeral.natural? 16 (Numeral.hex4 n) = some n := by
  simp only [Numeral.hex4, List.map_cons, List.map_nil, Numeral.natural?, Numeral.continue?,
    Numeral.digit?_digitChar (Nat.le_refl 16) (Nat.mod_lt _ (by decide : 0 < 16)),
    Option.bind_some, Option.some.injEq]
  omega

theorem toNat_lt_of_isControl {c : Char} (h : isControl c = true) : c.toNat < 2 ^ 16 := by
  simp only [isControl, Bool.or_eq_true, Bool.and_eq_true, decide_eq_true_eq] at h
  rcases h with h | ⟨_, h⟩
  · exact Nat.lt_of_le_of_lt (Char.le_def.mp h) (by decide)
  · exact Nat.lt_of_le_of_lt (Char.le_def.mp h) (by decide)

theorem escapeChar_cases (c : Char) :
    (∃ e, escapeChar c = ['\\', e] ∧ simpleEscape? e = some c) ∨
    (escapeChar c = '\\' :: 'u' :: Numeral.hex4 c.toNat ∧ c.toNat < 2 ^ 16) ∨
    (escapeChar c = [c] ∧ c ≠ '"' ∧ c ≠ '\\') := by
  unfold escapeChar
  split
  case h_7 hb hq _ _ _ _ =>
    split
    next hc => exact .inr (.inl ⟨rfl, toNat_lt_of_isControl hc⟩)
    next => exact .inr (.inr ⟨rfl, hq, hb⟩)
  all_goals exact .inl ⟨_, rfl, rfl⟩

theorem codePoint?_toNat (c : Char) : codePoint? c.toNat = some c := by
  have hv : c.toNat.isValidChar := c.valid
  rw [codePoint?, if_pos hv, Char.ofNat_toNat]

theorem readInside?_unicode {n : Nat} (h : n < 2 ^ 16) (cs : List Char) :
    readInside? ('\\' :: 'u' :: Numeral.hex4 n ++ cs) =
      (codePoint? n).bind fun c => (readInside? cs).map fun (t, rest) => (c :: t, rest) := by
  -- The reader sees four digits, which `hex4` has to be unfolded for.
  have hr : readInside? ('\\' :: 'u' :: Numeral.hex4 n ++ cs) =
      ((Numeral.natural? 16 (Numeral.hex4 n)).bind codePoint?).bind fun c =>
        (readInside? cs).map fun (t, rest) => (c :: t, rest) := rfl
  rw [hr, natural?_hex4 h, Option.bind_some]

/-- Reading takes an escaped character for the character. -/
theorem readInside?_escapeChar (c : Char) (cs : List Char) :
    readInside? (escapeChar c ++ cs) =
      (readInside? cs).map fun (t, rest) => (c :: t, rest) := by
  rcases escapeChar_cases c with ⟨e, he, hs⟩ | ⟨he, hn⟩ | ⟨he, hq, hb⟩
  · have hu : e ≠ 'u' := by
      intro h
      obtain rfl := h
      cases hs
    simp [he, readInside?, hu, hs]
  · rw [he, readInside?_unicode hn, codePoint?_toNat, Option.bind_some]
  · simp [he, readInside?, hb]

theorem readInside?_flatMap_escapeChar (t rest : List Char) :
    readInside? (t.flatMap escapeChar ++ '"' :: rest) = some (t, rest) := by
  induction t with
  | nil => rfl
  | cons c t ih =>
    rw [List.flatMap_cons, List.append_assoc, readInside?_escapeChar, ih]
    rfl

/-- **A quoted text reads back**, and the reader stops right behind it. -/
theorem readLiteral?_quote (t : String) (rest : List Char) :
    readLiteral? ((quote t).toList ++ rest) = some (t.toList, rest) := by
  have h : (quote t).toList ++ rest = '"' :: (t.toList.flatMap escapeChar ++ '"' :: rest) := by
    simp [quote, escape]
  rw [h, readLiteral?, readInside?_flatMap_escapeChar]

theorem quote_injective {t t' : String} (h : quote t = quote t') : t = t' := by
  have hr := readLiteral?_quote t []
  rw [h, readLiteral?_quote t' []] at hr
  simpa [String.toList_inj] using hr.symm

/-- A literal means a text, whatever comes after the literal. -/
def Denotes (literal text : String) : Prop :=
  ∀ rest, readLiteral? (literal.toList ++ rest) = some (text.toList, rest)

end Literal

open Literal

theorem EnumDecl.constantLine_text (i : Nat) (name t : String) :
    constantLine i ⟨name, .text t⟩ = .code 1 s!"public const string {name} = {quote t};" := by
  have h : "public const " ++ "string" ++ " " = "public const string " := rfl
  rw [constantLine, ← h]
  rfl

theorem Member.line_text (i : Nat) (name t : String) :
    line i ⟨name, .text t⟩ = .code 1 s!"{name} = {quote t}," := rfl

/-- **Text constants mean what was declared.** A quoted text reads back, and
the reader stops right behind it, whatever follows. So a JSON string that
loads as text stands, blanks and all, for itself in the file of an enum of
either kind, and no two texts have the same literal. -/
theorem text_constants_denote_declared :
    (∀ (t : String) (rest : List Char),
      readLiteral? ((quote t).toList ++ rest) = some (t.toList, rest)) ∧
    (∀ s t, MemberValue.decode (.string s) = .ok (.text t) →
      ∀ (e : EnumDecl) (i : Nat) (name : String), e.members[i]? = some ⟨name, .text t⟩ →
      ∀ (table : TypeTable) (options : Options),
        (e.kind = .constantGroup → ∃ text, (Descriptor.ofEnum e).render table options = .ok text) ∧
        ∀ text, (Descriptor.ofEnum e).render table options = .ok text →
          ∃ src literal line, e.source = .ok src ∧ text = src.text options.effectiveNamespace ∧
            Denotes literal s ∧ src.body[i + 2]? = some line ∧
            line.StandsIn options.effectiveNamespace text ∧
            (e.kind = .constantGroup →
              line = .code 1 s!"public const string {name} = {literal};") ∧
            (e.kind = .enumeration → line = .code 1 s!"{name} = {literal},")) ∧
    ∀ t t', quote t = quote t' → t = t' := by
  refine ⟨readLiteral?_quote, fun s t hs e i name hm table options => ⟨fun hk => ?_, ?_⟩,
    fun t t' => quote_injective⟩
  · exact ⟨_, map_eq_ok.mpr ⟨_, EnumDecl.constantGroup_source hk, rfl⟩⟩
  · intro text htext
    obtain rfl : t = s := MemberValue.decode_string_eq_text hs
    obtain ⟨src, hsrc, rfl⟩ := map_eq_ok.mp htext
    have hline := EnumDecl.getElem?_source hsrc hm
    refine ⟨src, quote t, _, hsrc, rfl, readLiteral?_quote t, hline, Source.standsIn hline,
      fun hk => ?_, fun hk => ?_⟩
    · rw [EnumDecl.memberLine_constantGroup hk]
      exact EnumDecl.constantLine_text i name t
    · rw [EnumDecl.memberLine_enumeration hk]
      exact Member.line_text i name t

/-- A null before a digit, what looks like an escape, and a blank in front. -/
def noticeEnum : EnumDecl :=
  ⟨"Notices", .constantGroup, [⟨"First", .text " \\u0041\"\x007\u0085\n"⟩]⟩

theorem text_constants_denote_notice :
    ∃ text literal, (Descriptor.ofEnum noticeEnum).render .primitives {} = .ok text ∧
      Denotes literal " \\u0041\"\x007\u0085\n" ∧
      (Line.code 1 s!"public const string First = {literal};").StandsIn none text := by
  have hs : MemberValue.decode (.string " \\u0041\"\x007\u0085\n") =
      .ok (.text " \\u0041\"\x007\u0085\n") := by decide
  obtain ⟨hrender, hline⟩ :=
    text_constants_denote_declared.2.1 _ _ hs noticeEnum 0 "First" rfl .primitives {}
  obtain ⟨text, htext⟩ := hrender rfl
  obtain ⟨_, literal, line, _, _, hdenotes, _, hstands, hconstant, _⟩ := hline text htext
  exact ⟨text, literal, htext, hdenotes, hconstant rfl ▸ hstands⟩

end SchemaSharp
