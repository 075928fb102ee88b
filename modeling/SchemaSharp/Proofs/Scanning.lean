/-
Source text scanned for braces and string literals.

A scan counts the braces that are open and tells code from literals, in which a
backslash takes the next character with it. A text is flat if a scan leaves it
as it came and meets no other depth in it (`Flat`). Names without quotation
marks, backslashes, braces and line feeds are flat, and so is every literal,
whatever it stands for (`isFlat_quote`): what escaping leaves of a text neither
ends the literal nor opens or closes a brace.
-/
import SchemaSharp.Proofs.LiteralGrammar
import SchemaSharp.Proofs.Positional

namespace SchemaSharp

/-- What source text is read as. -/
inductive ScanMode
  | code
  | literal
  /-- Behind a backslash in a literal. -/
  | escape
  deriving DecidableEq

/-- A scan of source text, with the number of braces that are open. -/
structure Scan where
  depth : Int
  mode : ScanMode
  deriving DecidableEq

namespace Scan

/-- Braces count in code only. -/
def step (s : Scan) (c : Char) : Scan :=
  match s.mode with
  | .code =>
    if c = '"' then { s with mode := .literal }
    else if c = '\x7b' then { s with depth := s.depth + 1 }
    else if c = '\x7d' then { s with depth := s.depth - 1 }
    else s
  | .literal =>
    if c = '"' then { s with mode := .code }
    else if c = '\\' then { s with mode := .escape }
    else s
  | .escape => { s with mode := .literal }

/-- A scan of several characters. -/
def through (s : Scan) (cs : List Char) : Scan := cs.foldl step s

theorem through_append (s : Scan) (cs ds : List Char) : s.through (cs ++ ds) = (s.through cs).through ds :=
  List.foldl_append

end Scan

/-- A scan of code at a depth. -/
def codeAt (depth : Int) : Scan := ⟨depth, .code⟩

/-- What a scan from the depth `j` to the depth `k` goes over: the depth is never
negative, and all line feeds stand in code. -/
structure Scanned (j : Int) (cs : List Char) (k : Int) : Prop where
  ends : (codeAt j).through cs = codeAt k
  nonneg : ∀ p, p <+: cs → 0 ≤ ((codeAt j).through p).depth
  feeds : ∀ p q, cs = p ++ '\n' :: q → ((codeAt j).through p).mode = .code

/-- **The braces of a text match**: a scan of it opens and closes as many, at no
place closes one that is not open, and ends in code, as does every line. -/
def Balanced (t : String) : Prop := Scanned 0 t.toList 0

theorem prefix_append_cases {α : Type} {p cs ds : List α} (h : p <+: cs ++ ds) :
    p <+: cs ∨ ∃ q, q <+: ds ∧ p = cs ++ q := by
  obtain ⟨rest, hrest⟩ := h
  rcases List.append_eq_append_iff.mp hrest with ⟨z, rfl, _⟩ | ⟨z, rfl, rfl⟩
  · exact .inl (List.prefix_append p z)
  · exact .inr ⟨z, List.prefix_append z rest, rfl⟩

namespace Scanned

variable {j k l : Int} {cs ds : List Char}

theorem nil (h : 0 ≤ k) : Scanned k [] k where
  ends := rfl
  nonneg p hp := by
    rw [List.prefix_nil.mp hp]
    exact h
  feeds p q hpq := by simp at hpq

theorem append (hc : Scanned j cs k) (hd : Scanned k ds l) : Scanned j (cs ++ ds) l where
  ends := by rw [Scan.through_append, hc.ends, hd.ends]
  nonneg p hp := by
    rcases prefix_append_cases hp with hp | ⟨q, hq, rfl⟩
    · exact hc.nonneg p hp
    · rw [Scan.through_append, hc.ends]
      exact hd.nonneg q hq
  feeds p q hpq := by
    rcases List.append_eq_append_iff.mp hpq with ⟨z, rfl, hz⟩ | ⟨z, rfl, hz⟩
    · rw [Scan.through_append, hc.ends]
      exact hd.feeds z q hz
    · cases z with
      | nil =>
        rw [List.append_nil] at hc
        rw [hc.ends]
        rfl
      | cons c z =>
        obtain ⟨rfl, _⟩ := List.cons.inj hz
        exact hc.feeds p z rfl

theorem singleton {c : Char} (h : (codeAt j).step c = codeAt k) (hj : 0 ≤ j) (hk : 0 ≤ k) :
    Scanned j [c] k where
  ends := h
  nonneg p hp := by
    rcases List.prefix_cons_iff.mp hp with rfl | ⟨q, rfl, hq⟩
    · exact hj
    · rw [List.prefix_nil.mp hq]
      change 0 ≤ ((codeAt j).step c).depth
      rw [h]
      exact hk
  feeds p q hpq := by
    cases p with
    | nil => rfl
    | cons d p =>
      have hnil := (List.cons.inj hpq).2
      simp at hnil

end Scanned

/-- A text that a scan leaves as it came, at the same depth all the way. -/
structure Flat (mode : ScanMode) (cs : List Char) : Prop where
  ends : ∀ k, (Scan.mk k mode).through cs = ⟨k, mode⟩
  depth : ∀ k p, p <+: cs → ((Scan.mk k mode).through p).depth = k
  oneLine : '\n' ∉ cs

namespace Flat

variable {mode : ScanMode} {cs ds : List Char}

theorem nil : Flat mode [] where
  ends _ := rfl
  depth _ p hp := by
    rw [List.prefix_nil.mp hp]
    rfl
  oneLine := List.not_mem_nil

theorem append (hc : Flat mode cs) (hd : Flat mode ds) : Flat mode (cs ++ ds) where
  ends k := by rw [Scan.through_append, hc.ends, hd.ends]
  depth k p hp := by
    rcases prefix_append_cases hp with hp | ⟨q, hq, rfl⟩
    · exact hc.depth k p hp
    · rw [Scan.through_append, hc.ends]
      exact hd.depth k q hq
  oneLine h := (List.mem_append.mp h).elim hc.oneLine hd.oneLine

theorem flatMap {α : Type} {f : α → List Char} {as : List α} (h : ∀ a ∈ as, Flat mode (f a)) :
    Flat mode (as.flatMap f) := by
  induction as with
  | nil => exact nil
  | cons a as ih =>
    rw [List.flatMap_cons]
    exact (h a (.head _)).append (ih fun b hb => h b (.tail _ hb))

theorem singleton {c : Char} (h : ∀ k, (Scan.mk k mode).step c = ⟨k, mode⟩) (hc : c ≠ '\n') :
    Flat mode [c] where
  ends := h
  depth k p hp := by
    rcases List.prefix_cons_iff.mp hp with rfl | ⟨q, rfl, hq⟩
    · rfl
    · rw [List.prefix_nil.mp hq]
      exact congrArg Scan.depth (h k)
  oneLine := fun hn => hc (List.mem_singleton.mp hn).symm

/-- A flat text between two characters, the second of which takes back what the
first one does to the mode. -/
theorem between {outer : ScanMode} {b e : Char} (h : Flat mode cs) (hb : b ≠ '\n') (he : e ≠ '\n')
    (hopen : ∀ k, (Scan.mk k outer).step b = ⟨k, mode⟩)
    (hclose : ∀ k, (Scan.mk k mode).step e = ⟨k, outer⟩) : Flat outer (b :: (cs ++ [e])) where
  ends k := by
    change ((Scan.mk k outer).step b).through (cs ++ [e]) = _
    rw [hopen, Scan.through_append, h.ends]
    exact hclose k
  depth k p hp := by
    rcases List.prefix_cons_iff.mp hp with rfl | ⟨q, rfl, hq⟩
    · rfl
    · change (((Scan.mk k outer).step b).through q).depth = k
      rw [hopen]
      rcases prefix_append_cases hq with hq | ⟨r, hr, rfl⟩
      · exact h.depth k q hq
      · rw [Scan.through_append, h.ends]
        rcases List.prefix_cons_iff.mp hr with rfl | ⟨r', rfl, hr'⟩
        · rfl
        · rw [List.prefix_nil.mp hr']
          exact congrArg Scan.depth (hclose k)
  oneLine := by simp [hb.symm, he.symm, h.oneLine]

theorem quoted (h : Flat .literal cs) : Flat .code ('"' :: (cs ++ ['"'])) :=
  h.between (by decide) (by decide) (fun _ => rfl) (fun _ => rfl)

/-- A backslash takes the next character with it. -/
theorem escaped {c : Char} (hc : c ≠ '\n') : Flat .literal ['\\', c] :=
  nil.between (by decide) hc (fun _ => rfl) (fun _ => rfl)

theorem scanned {k : Int} (h : Flat .code cs) (hk : 0 ≤ k) : Scanned k cs k where
  ends := h.ends k
  nonneg p hp := (h.depth k p hp).symm ▸ hk
  feeds p q hpq := absurd (hpq ▸ by simp) h.oneLine

end Flat

/-- A character that means nothing to a scan, and ends no line. -/
def isPlain (c : Char) : Bool := c ∉ ['"', '\\', '\x7b', '\x7d', '\n']

/-- A text without quotation marks, backslashes, braces and line feeds. -/
def Plain (t : String) : Prop := ∀ c ∈ t.toList, isPlain c = true

instance (t : String) : Decidable (Plain t) :=
  decidable_of_iff (t.toList.all isPlain = true) List.all_eq_true

@[simp]
theorem plain_append {s t : String} : Plain (s ++ t) ↔ Plain s ∧ Plain t := by
  simp [Plain, or_imp, forall_and]

theorem plain_ofList {cs : List Char} : Plain (.ofList cs) ↔ ∀ c ∈ cs, isPlain c = true := by
  rw [Plain, String.toList_ofList]

theorem isPlain_eq_true {c : Char} :
    isPlain c = true ↔ c ≠ '"' ∧ c ≠ '\\' ∧ c ≠ '\x7b' ∧ c ≠ '\x7d' ∧ c ≠ '\n' := by
  simp [isPlain]

theorem isPlain_of_isDigit {c : Char} (h : c.isDigit = true) : isPlain c = true := by
  rw [isPlain_eq_true]
  refine ⟨?_, ?_, ?_, ?_, ?_⟩
  all_goals
    rintro rfl
    exact absurd h (by decide)

theorem flat_of_isPlain {mode : ScanMode} (hm : mode ≠ .escape) {cs : List Char}
    (h : ∀ c ∈ cs, isPlain c = true) : Flat mode cs := by
  rw [← List.flatMap_singleton' cs]
  refine Flat.flatMap fun c hc => ?_
  obtain ⟨hquote, hslash, hopen, hclose, hfeed⟩ := isPlain_eq_true.mp (h c hc)
  refine Flat.singleton (fun k => ?_) hfeed
  cases mode with
  | code => simp [Scan.step, hquote, hopen, hclose]
  | literal => simp [Scan.step, hquote, hslash]
  | escape => exact absurd rfl hm

/-- Code that is flat. -/
def IsFlat (t : String) : Prop := Flat .code t.toList

theorem IsFlat.append {s t : String} (hs : IsFlat s) (ht : IsFlat t) : IsFlat (s ++ t) := by
  unfold IsFlat
  rw [String.toList_append]
  exact Flat.append hs ht

theorem Plain.isFlat {t : String} (h : Plain t) : IsFlat t := flat_of_isPlain (by decide) h

theorem Plain.isFlat_quoted {t : String} (h : Plain t) : IsFlat ("\"" ++ t ++ "\"") := by
  have hlist : ("\"" ++ t ++ "\"").toList = '"' :: (t.toList ++ ['"']) := by simp
  unfold IsFlat
  rw [hlist]
  exact (flat_of_isPlain (by decide) h).quoted

theorem plain_natText (n : Nat) : Plain (Numeral.natText n) :=
  plain_ofList.mpr fun c hc => isPlain_of_isDigit ((Decimal.isDigits_toDigits n).2 c hc)

theorem plain_intText (n : Int) : Plain (Numeral.intText n) := by
  have hdigits : ∀ c ∈ Nat.toDigits 10 n.natAbs, isPlain c = true := fun c hc =>
    isPlain_of_isDigit ((Decimal.isDigits_toDigits _).2 c hc)
  rw [Numeral.intText, plain_ofList, Numeral.ofInt]
  split
  · exact List.forall_mem_cons.mpr ⟨by decide, hdigits⟩
  · exact hdigits

theorem isPlain_of_mem_text {x : Double} : ∀ c ∈ x.text, isPlain c = true := by
  cases x with
  | finite negative s e h =>
    obtain ⟨d, v, _, hv, _⟩ := Double.positional_text (x := .finite negative s e h) rfl
    intro c hc
    rcases hv.mem c hc with rfl | rfl | hdigit
    · decide
    · decide
    · exact isPlain_of_isDigit hdigit
  | infinite negative => cases negative <;> exact List.all_eq_true.mp (by decide)
  | nan => exact List.all_eq_true.mp (by decide)

theorem isPlain_digitChar {n : Nat} (h : n < 16) : isPlain n.digitChar = true := by
  have all : ∀ n < 16, isPlain n.digitChar = true := by decide
  exact all n h

namespace Literal

/-- Escaping makes every character flat, also one that ends a literal or a line. -/
theorem flat_escapeChar (c : Char) : Flat .literal (escapeChar c) := by
  rcases escapeChar_cases c with ⟨e, he, hs⟩ | ⟨he, _⟩ | ⟨he, hquote, hslash⟩
  · rw [he]
    refine Flat.escaped fun hn => ?_
    rw [hn] at hs
    cases hs
  · rw [he]
    refine (Flat.escaped (c := 'u') (by decide)).append (flat_of_isPlain (by decide) ?_)
    intro d hd
    obtain ⟨n, hn, rfl⟩ := mem_hex4 hd
    exact isPlain_digitChar hn
  · rw [he]
    refine Flat.singleton (fun k => by simp [Scan.step, hquote, hslash]) fun hn => ?_
    rw [hn] at he
    exact absurd he (by decide)

/-- **A quoted text is flat**, whatever braces, quotation marks, backslashes and
line feeds are in the text. -/
theorem isFlat_quote (t : String) : IsFlat (quote t) := by
  unfold IsFlat
  rw [toList_quote, escape, String.toList_ofList]
  exact (Flat.flatMap fun c _ => flat_escapeChar c).quoted

end Literal

namespace MemberValue

theorem isFlat_literal (position : Nat) (v : MemberValue) :
    IsFlat (v.literal position).text := by
  cases v with
  | integer n => exact (plain_intText _).isFlat
  | float x => exact (plain_ofList.mpr isPlain_of_mem_text).isFlat
  | text t => exact Literal.isFlat_quote t
  | positional => exact (plain_natText position).isFlat

theorem isFlat_constant (position : Nat) (v : MemberValue) :
    IsFlat (v.constant position).text := by
  cases v with
  | float x =>
    refine (plain_ofList.mpr fun c hc => ?_).isFlat
    rcases List.mem_append.mp hc with hc | hc
    · exact isPlain_of_mem_text c hc
    · rw [List.mem_singleton.mp hc]
      decide
  | integer n => exact isFlat_literal position _
  | text t => exact isFlat_literal position _
  | positional => exact isFlat_literal position _

theorem plain_constant_type (position : Nat) (v : MemberValue) :
    Plain (v.constant position).type := by
  cases v with
  | integer n =>
    have hint : Plain "int" ∧ Plain "long" := by decide
    change Plain (if FitsInt32 n.toInt then "int" else "long")
    split
    · exact hint.1
    · exact hint.2
  | float x => exact (by decide : Plain "float")
  | text t => exact (by decide : Plain "string")
  | positional => exact (by decide : Plain "int")

end MemberValue

end SchemaSharp
