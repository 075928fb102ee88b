/-
Which quoted texts are string literals of C#.

Five characters end a line of source, and a regular string literal holds none
of them as it stands (`Inside`). Escaping takes care of those that are
controls; the line separator U+2028 and the paragraph separator U+2029 are
none and stay (`mem_escape_of_endsLine`). So a quoted text is a literal, and
its constant one line, exactly if the text has no separator.
-/
import SchemaSharp.Proofs.StringLiteral

namespace SchemaSharp

namespace Literal

/-- The characters that end a line of source. -/
def endsLine (c : Char) : Bool :=
  c = '\n' || c = '\r' || c = '\u0085' || c = '\u2028' || c = '\u2029'

/-- The separators of lines and paragraphs. -/
def isSeparator (c : Char) : Bool := c = '\u2028' || c = '\u2029'

theorem endsLine_of_isSeparator {c : Char} (h : isSeparator c = true) : endsLine c = true := by
  unfold isSeparator at h
  unfold endsLine
  simp only [Bool.or_eq_true] at h ⊢
  tauto

theorem endsLine_of_all {cs : List Char} (h : cs.all (!endsLine ·) = true) :
    ∀ c ∈ cs, endsLine c = false := by
  simpa using h

/-- A character that ends a line is escaped unless it is a separator. -/
theorem escapeChar_of_endsLine {c : Char} (h : endsLine c = true) :
    (isSeparator c = true ∧ escapeChar c = [c]) ∨
    (isSeparator c = false ∧ ∀ d ∈ escapeChar c, endsLine d = false) := by
  simp only [endsLine, Bool.or_eq_true, decide_eq_true_eq] at h
  rcases h with (((rfl | rfl) | rfl) | rfl) | rfl
  · exact .inr ⟨rfl, endsLine_of_all (by decide)⟩
  · exact .inr ⟨rfl, endsLine_of_all (by decide)⟩
  · exact .inr ⟨rfl, endsLine_of_all (by decide)⟩
  · exact .inl (by decide)
  · exact .inl (by decide)

theorem endsLine_digitChar {n : Nat} (h : n < 16) : endsLine n.digitChar = false := by
  have all : ∀ n < 16, endsLine n.digitChar = false := by decide
  exact all n h

theorem mem_hex4 {n : Nat} {d : Char} (h : d ∈ Numeral.hex4 n) : ∃ k < 16, d = k.digitChar := by
  obtain ⟨k, hk, rfl⟩ := List.mem_map.mp h
  refine ⟨k, ?_, rfl⟩
  simp only [List.mem_cons, List.not_mem_nil, or_false] at hk
  omega

theorem endsLine_of_simpleEscape {e c : Char} (h : simpleEscape? e = some c) :
    endsLine e = false := by
  unfold simpleEscape? at h
  split at h
  case h_7 => cases h
  all_goals decide

/-- Escaping brings no ends of lines in. -/
theorem endsLine_mem_escapeChar {c d : Char} (hd : d ∈ escapeChar c) (he : endsLine d = true) :
    d = c ∧ isSeparator c = true := by
  by_cases hc : endsLine c = true
  · rcases escapeChar_of_endsLine hc with ⟨hs, h⟩ | ⟨_, h⟩
    · rw [h, List.mem_singleton] at hd
      exact ⟨hd, hs⟩
    · rw [h d hd] at he
      cases he
  · exfalso
    rcases escapeChar_cases c with ⟨e, h, hs⟩ | ⟨h, _⟩ | ⟨h, _⟩
    · rw [h] at hd
      simp only [List.mem_cons, List.not_mem_nil, or_false] at hd
      rcases hd with rfl | rfl
      · cases he
      · rw [endsLine_of_simpleEscape hs] at he
        cases he
    · rw [h] at hd
      simp only [List.mem_cons] at hd
      rcases hd with rfl | rfl | hd
      · cases he
      · cases he
      · obtain ⟨k, hk, rfl⟩ := mem_hex4 hd
        rw [endsLine_digitChar hk] at he
        cases he
    · rw [h, List.mem_singleton] at hd
      exact hc (hd ▸ he)

/-- **Of the ends of lines in a text, escaping leaves the separators.** -/
theorem mem_escape_of_endsLine {t : String} {c : Char} (h : endsLine c = true) :
    c ∈ (escape t).toList ↔ c ∈ t.toList ∧ isSeparator c = true := by
  rw [escape, String.toList_ofList, List.mem_flatMap]
  constructor
  · rintro ⟨d, hd, hc⟩
    obtain ⟨rfl, hs⟩ := endsLine_mem_escapeChar hc h
    exact ⟨hd, hs⟩
  · rintro ⟨hc, hs⟩
    refine ⟨c, hc, ?_⟩
    rcases escapeChar_of_endsLine h with ⟨_, he⟩ | ⟨hn, _⟩
    · rw [he]
      exact .head _
    · rw [hs] at hn
      cases hn

/-- What may stand after a backslash on its own. -/
def simpleEscapes : List Char := ['\x27', '"', '\\', '0', 'a', 'b', 'f', 'n', 'r', 't', 'v']

/-- Whether a number of hexadecimal digits may stand after a backslash and a
mark. -/
def takesDigits (mark : Char) (n : Nat) : Prop :=
  mark = 'x' ∧ 1 ≤ n ∧ n ≤ 4 ∨ mark = 'u' ∧ n = 4 ∨ mark = 'U' ∧ n = 8

/-- The inside of a regular string literal. -/
inductive Inside : List Char → Prop
  | nil : Inside []
  | plain {c cs} (hq : c ≠ '"') (hb : c ≠ '\\') (hl : endsLine c = false) (h : Inside cs) :
      Inside (c :: cs)
  | simple {e cs} (he : e ∈ simpleEscapes) (h : Inside cs) : Inside ('\\' :: e :: cs)
  | numeric {mark digits cs} (hn : takesDigits mark digits.length)
      (hd : ∀ d ∈ digits, (Numeral.digit? 16 d).isSome = true) (h : Inside cs) :
      Inside ('\\' :: mark :: (digits ++ cs))

/-- A regular string literal. -/
def IsRegular (literal : String) : Prop :=
  ∃ cs, Inside cs ∧ literal.toList = '"' :: (cs ++ ['"'])

theorem endsLine_of_digit? {d : Char} (h : (Numeral.digit? 16 d).isSome = true) :
    endsLine d = false := by
  by_contra he
  simp only [endsLine, Bool.not_eq_false, Bool.or_eq_true, decide_eq_true_eq] at he
  rcases he with (((rfl | rfl) | rfl) | rfl) | rfl <;> exact absurd h (by decide)

theorem endsLine_of_takesDigits {mark : Char} {n : Nat} (h : takesDigits mark n) :
    endsLine mark = false := by
  rcases h with ⟨rfl, _⟩ | ⟨rfl, _⟩ | ⟨rfl, _⟩ <;> decide

/-- **A literal stands on one line.** -/
theorem Inside.endsLine {cs : List Char} (h : Inside cs) : ∀ c ∈ cs, endsLine c = false := by
  have hb : Literal.endsLine '\\' = false := by decide
  induction h with
  | nil => simp
  | plain _ _ hl _ ih => simpa using And.intro hl ih
  | simple he _ ih =>
    have all : ∀ e ∈ simpleEscapes, Literal.endsLine e = false := endsLine_of_all (by decide)
    simpa using And.intro hb (And.intro (all _ he) ih)
  | numeric hn hd _ ih =>
    intro c hc
    simp only [List.mem_cons, List.mem_append] at hc
    rcases hc with rfl | rfl | hc | hc
    · exact hb
    · exact endsLine_of_takesDigits hn
    · exact endsLine_of_digit? (hd c hc)
    · exact ih c hc

theorem mem_simpleEscapes {e c : Char} (h : simpleEscape? e = some c) : e ∈ simpleEscapes := by
  unfold simpleEscape? at h
  split at h
  case h_7 => cases h
  all_goals decide

theorem inside_escapeChar {c : Char} {cs : List Char} (hs : isSeparator c = false)
    (h : Inside cs) : Inside (escapeChar c ++ cs) := by
  rcases escapeChar_cases c with ⟨e, he, hc⟩ | ⟨he, _⟩ | ⟨he, hq, hb⟩
  · rw [he]
    exact .simple (mem_simpleEscapes hc) h
  · rw [he]
    refine .numeric (.inr (.inl ⟨rfl, rfl⟩)) (fun d hd => ?_) h
    obtain ⟨k, hk, rfl⟩ := mem_hex4 hd
    rw [Numeral.digit?_digitChar (Nat.le_refl 16) hk]
    rfl
  · have hl : endsLine c = false := by
      by_contra hc
      rcases escapeChar_of_endsLine (by simpa using hc) with ⟨hs', _⟩ | ⟨_, hn⟩
      · rw [hs] at hs'
        cases hs'
      · exact hc (hn c (he ▸ .head _))
    rw [he]
    exact .plain hq hb hl h

theorem inside_flatMap_escapeChar {t : List Char} (h : ∀ c ∈ t, isSeparator c = false) :
    Inside (t.flatMap escapeChar) := by
  induction t with
  | nil => exact .nil
  | cons c t ih =>
    simp only [List.mem_cons, forall_eq_or_imp] at h
    exact inside_escapeChar h.1 (ih h.2)

theorem toList_quote (t : String) : (quote t).toList = '"' :: ((escape t).toList ++ ['"']) := by
  simp [quote]

theorem endsLine_quote_iff {t : String} :
    (∀ c ∈ (quote t).toList, endsLine c = false) ↔ ∀ c ∈ t.toList, isSeparator c = false := by
  have hq : endsLine '"' = false := by decide
  rw [toList_quote]
  simp only [List.mem_cons, List.mem_append, List.not_mem_nil, or_false]
  refine ⟨fun h c hc => ?_, fun h c hc => ?_⟩
  · by_contra hs
    have hs' : isSeparator c = true := by simpa using hs
    have hl := endsLine_of_isSeparator hs'
    rw [h c (.inr (.inl ((mem_escape_of_endsLine hl).mpr ⟨hc, hs'⟩)))] at hl
    cases hl
  · rcases hc with rfl | hc | rfl
    · exact hq
    · by_contra hl
      obtain ⟨ht, hs⟩ := (mem_escape_of_endsLine (by simpa using hl)).mp hc
      rw [h c ht] at hs
      cases hs
    · exact hq

/-- **A quoted text is a literal exactly if the text has no separator.** -/
theorem isRegular_quote_iff {t : String} :
    IsRegular (quote t) ↔ ∀ c ∈ t.toList, isSeparator c = false := by
  constructor
  · rintro ⟨cs, h, hcs⟩
    rw [← endsLine_quote_iff, hcs]
    have hl := h.endsLine
    intro c hc
    simp only [List.mem_cons, List.mem_append, List.not_mem_nil, or_false] at hc
    rcases hc with rfl | hc | rfl
    · decide
    · exact hl c hc
    · decide
  · intro h
    refine ⟨_, inside_flatMap_escapeChar h, ?_⟩
    rw [toList_quote, escape, String.toList_ofList]

end Literal

open Literal

theorem EnumDecl.endsLine_constantLine (i : Nat) (name t : String) :
    (∀ c ∈ (constantLine i ⟨name, .text t⟩).text.toList, endsLine c = false) ↔
      (∀ c ∈ name.toList, endsLine c = false) ∧ ∀ c ∈ t.toList, isSeparator c = false := by
  have htab : ∀ c ∈ List.replicate 1 '\t', endsLine c = false := endsLine_of_all (by decide)
  have hconst : ∀ c ∈ "public const string ".toList, endsLine c = false := endsLine_of_all (by decide)
  have hgives : ∀ c ∈ " = ".toList, endsLine c = false := endsLine_of_all (by decide)
  have hend : ∀ c ∈ ";".toList, endsLine c = false := endsLine_of_all (by decide)
  rw [← endsLine_quote_iff, constantLine_text]
  simp only [Line.text, toString, String.toList_append, String.toList_ofList, List.mem_append,
    or_imp, forall_and]
  refine ⟨fun h => ?_, fun h => ?_⟩
  · obtain ⟨_, ⟨⟨⟨_, hname⟩, _⟩, hquote⟩, _⟩ := h
    exact ⟨hname, hquote⟩
  · obtain ⟨hname, hquote⟩ := h
    exact ⟨htab, ⟨⟨⟨hconst, hname⟩, hgives⟩, hquote⟩, hend⟩

/-- **Only separators get past the escapes.** Of the characters that end a
line of source, an escaped text has exactly those that the text has and that
are separators. So the literal of a text constant, in the text of its file,
is one of the grammar if and only if its text has no separator, and the line
of the constant is one line of source if moreover its name stands on one. -/
theorem text_constant_regular_iff (t : String) (e : EnumDecl) (hk : e.kind = .constantGroup)
    (table : TypeTable) (options : Options) :
    (∀ c, endsLine c = true → (c ∈ (escape t).toList ↔ c ∈ t.toList ∧ isSeparator c = true)) ∧
    ∃ src text, e.source = .ok src ∧ (Descriptor.ofEnum e).render table options = .ok text ∧
      text = src.text options.effectiveNamespace ∧ ∀ (i : Nat) (name : String),
      e.members[i]? = some ⟨name, .text t⟩ → ∃ (literal : String) (line : Line),
        src.body[i + 2]? = some line ∧ line.StandsIn options.effectiveNamespace text ∧
        line = .code 1 s!"public const string {name} = {literal};" ∧
        (IsRegular literal ↔ ∀ c ∈ t.toList, isSeparator c = false) ∧
        ((∀ c ∈ line.text.toList, endsLine c = false) ↔
          (∀ c ∈ name.toList, endsLine c = false) ∧ ∀ c ∈ t.toList, isSeparator c = false) := by
  have hsource := EnumDecl.constantGroup_source hk
  refine ⟨fun c => mem_escape_of_endsLine, _, _, hsource, map_eq_ok.mpr ⟨_, hsource, rfl⟩, rfl, ?_⟩
  intro i name hm
  have hline := EnumDecl.getElem?_source hsource hm
  rw [EnumDecl.memberLine_constantGroup hk] at hline
  exact ⟨quote t, EnumDecl.constantLine i ⟨name, .text t⟩, hline, Source.standsIn hline,
    EnumDecl.constantLine_text i name t, isRegular_quote_iff,
    EnumDecl.endsLine_constantLine i name t⟩

/-- A text with three of the characters that end a line. -/
def proseEnum : EnumDecl :=
  ⟨"Prose", .constantGroup, [⟨"Verse", .classify (some "one\u0085two\r\nthree")⟩]⟩

theorem text_constant_regular_prose :
    endsLine '\u0085' = true ∧ proseEnum.kind = .constantGroup ∧
    '\u0085' ∉ (escape "one\u0085two\r\nthree").toList ∧
    ∃ (text literal : String) (line : Line),
      (Descriptor.ofEnum proseEnum).render .primitives {} = .ok text ∧
      line = .code 1 s!"public const string Verse = {literal};" ∧ line.StandsIn none text ∧
      IsRegular literal ∧ ∀ c ∈ line.text.toList, endsLine c = false := by
  have hl : endsLine '\u0085' = true := by decide
  have hv : proseEnum.members[0]? = some ⟨"Verse", .text "one\u0085two\r\nthree"⟩ := by decide
  have ht : ∀ c ∈ "one\u0085two\r\nthree".toList, isSeparator c = false := by simp [isSeparator]
  have hn : ∀ c ∈ "Verse".toList, endsLine c = false := endsLine_of_all (by decide)
  obtain ⟨hescape, _, text, _, htext, _, hlines⟩ :=
    text_constant_regular_iff "one\u0085two\r\nthree" proseEnum rfl .primitives {}
  obtain ⟨literal, line, _, hstands, heq, hregular, hone⟩ := hlines 0 "Verse" hv
  refine ⟨hl, rfl, fun h => ?_, text, literal, line, htext, heq, hstands, hregular.mpr ht,
    hone.mpr ⟨hn, ht⟩⟩
  exact absurd ((hescape _ hl).mp h).2 (by decide)

/-- A text with a line separator. -/
def pageEnum : EnumDecl := ⟨"Pages", .constantGroup, [⟨"First", .classify (some "a\u2028b")⟩]⟩

/-- The line separator stays, and the constant is none of the grammar. -/
theorem separator_breaks_literal :
    ¬ ∀ (e : EnumDecl) (src : Source), e.kind = .constantGroup → e.source = .ok src →
      ∀ (i : Nat) (name t literal : String), e.members[i]? = some ⟨name, .text t⟩ →
        src.body[i + 2]? = some (.code 1 s!"public const string {name} = {literal};") →
          (∀ c ∈ (escape t).toList, endsLine c = false) ∧ IsRegular literal := by
  intro h
  have hs : pageEnum.source = .ok ⟨[], EnumDecl.body "public struct Pages \x7b"
      [.code 1 "public const string First = \"a\u2028b\";"]⟩ := by decide
  have hv : pageEnum.members[0]? = some ⟨"First", .text "a\u2028b"⟩ := by decide
  have hescape := (h pageEnum _ rfl hs 0 _ _ "\"a\u2028b\"" hv rfl).1
  exact absurd (hescape '\u2028' (by decide)) (by decide)

end SchemaSharp
