/-
Which whole numbers the members of an enumeration can stand for.

Only integers are checked against the type behind an enumeration, and a
loaded float that is whole is one that even 64 bits cannot hold. It is
written as the whole number it is near, so it gets past the check: the
literals of a rendered enumeration all fit the type exactly if no member is
such a float. For one member this is `literal_fits_iff`.
-/
import SchemaSharp.Proofs.Declaration
import SchemaSharp.Proofs.MemberValue
import SchemaSharp.Proofs.Shortest

namespace SchemaSharp

namespace MemberValue

/-- The whole number that is declared, if one is. -/
def whole? : MemberValue → Option Int
  | integer n => some n.toInt
  | float x => x.toInt?
  | text _ => none
  | positional => none

theorem whole?_quote (t : String) : Numeral.whole? (Literal.quote t).toList = none := by
  have ht : (Literal.quote t).toList = '"' :: ((Literal.escape t).toList ++ ['"']) := by
    simp [Literal.quote]
  rw [ht]
  exact Numeral.whole?_eq_none _ (by decide) (by decide)

/-- A loaded float that is whole is out of range by far, and so is the number
that its text reads as. -/
theorem Loaded.whole_float {x : Double} {n : Int} (h : Loaded (float x))
    (hx : x.toInt? = some n) :
    ¬FitsInt32 n ∧ ∃ v, Numeral.whole? x.text = some v ∧ ¬FitsInt32 v := by
  have hn := h.not_fitsInt64 hx
  obtain ⟨v, hv, hle⟩ := Double.whole?_text hx
  unfold Numeral.FitsInt64 at hn
  unfold FitsInt32
  exact ⟨by omega, v, hv, by omega⟩

variable {v : MemberValue} {position : Nat}

/-- **A literal fits unless it comes from a whole float.** Integers are
checked, positions are small, and text is no number. -/
theorem literal_fits_iff (hp : position < 2 ^ 31) (hl : v.Loaded)
    (hc : ∀ n, v = integer n → FitsInt32 n.toInt) :
    (∀ n, Numeral.whole? (v.literal position).text.toList = some n → FitsInt32 n) ↔
      ∀ x, v = float x → x.toInt? = none := by
  cases v with
  | integer i =>
    refine iff_of_true (fun n hn => ?_) (fun x hx => by cases hx)
    have hi : Numeral.whole? (Numeral.intText i.toInt).toList = some n := hn
    rw [Numeral.whole?_intText, Option.some.injEq] at hi
    exact hi ▸ hc i rfl
  | float x =>
    have ht : ((float x).literal position).text.toList = x.text := String.toList_ofList
    rw [ht]
    refine ⟨fun h y hy => ?_, fun h n hn => ?_⟩
    · cases hy
      cases hx : x.toInt? with
      | none => rfl
      | some n =>
        obtain ⟨_, w, hw, hout⟩ := hl.whole_float hx
        exact absurd (h w hw) hout
    · obtain ⟨m, hm⟩ := Double.toInt?_of_whole?_text hn
      rw [h x rfl] at hm
      cases hm
  | text t =>
    refine iff_of_true (fun n hn => ?_) (fun x hx => by cases hx)
    have ht : Numeral.whole? (Literal.quote t).toList = some n := hn
    rw [whole?_quote] at ht
    cases ht
  | positional =>
    refine iff_of_true (fun n hn => ?_) (fun x hx => by cases hx)
    have hpos : Numeral.whole? (Numeral.natText position).toList = some n := hn
    rw [Numeral.whole?_natText, Option.some.injEq] at hpos
    unfold FitsInt32
    omega

theorem whole_fits_iff (hl : v.Loaded) (hc : ∀ n, v = integer n → FitsInt32 n.toInt) :
    (∀ n, v.whole? = some n → FitsInt32 n) ↔ ∀ x, v = float x → x.toInt? = none := by
  cases v with
  | integer i =>
    refine iff_of_true (fun n hn => ?_) (fun x hx => by cases hx)
    cases hn
    exact hc i rfl
  | float x =>
    refine ⟨fun h y hy => ?_, fun h n hn => ?_⟩
    · cases hy
      cases hx : x.toInt? with
      | none => rfl
      | some n => exact absurd (h n hx) (hl.whole_float hx).1
    · rw [whole?, h x rfl] at hn
      cases hn
  | text t => exact iff_of_true (fun n hn => by cases hn) (fun x hx => by cases hx)
  | positional => exact iff_of_true (fun n hn => by cases hn) (fun x hx => by cases hx)

end MemberValue

namespace EnumDecl

/-- No member is a float without a fraction. -/
def NoWholeFloat (e : EnumDecl) : Prop :=
  ∀ m ∈ e.members, ∀ x, m.value = .float x → x.toInt? = none

theorem getElem?_enumeration {e : EnumDecl} {src : Source} (hk : e.kind = .enumeration)
    (hs : e.source = .ok src) {i : Nat} {m : Member} (hm : e.members[i]? = some m)
    {literal : String} :
    src.body[i + 2]? = some (.code 1 s!"{m.name} = {literal},") ↔
      literal = (m.value.literal i).text := by
  obtain ⟨_, rfl⟩ := (enumeration_source_eq_ok hk).mp hs
  rw [getElem?_body _ hm, Option.some.injEq, Member.line, Line.code.injEq]
  simp [toString, String.append_right_inj, String.append_left_inj, eq_comm]

theorem enumeration_source_eq_error {e : EnumDecl} (hk : e.kind = .enumeration)
    {err : GenerateError} :
    e.source = .error err ↔ ∃ before m after n, e.members = before ++ m :: after ∧
      (∀ m' ∈ before, m'.FitsInt) ∧ m.value = .integer n ∧ ¬FitsInt32 n.toInt ∧
        err = .outOfIntRange e.name m.name n := by
  simp only [source, hk, map_eq_error, enumerationLines_eq_error]

/-- **Integers are checked, whole floats are not.** An enumeration of loaded
members fails exactly at its first integer that does not fit the type behind
it. If it does not fail, the literals that are whole numbers all fit, and so
do the declared values that are, if and only if no member is a whole
float. -/
theorem enumeration_literals_fit_iff {e : EnumDecl} (table : TypeTable) (options : Options)
    (hk : e.kind = .enumeration) (hlen : e.members.length < 2 ^ 31)
    (hl : ∀ m ∈ e.members, m.value.Loaded) :
    (∀ err, (Descriptor.ofEnum e).render table options = .error err ↔
      ∃ before m after n, e.members = before ++ m :: after ∧ (∀ m' ∈ before, m'.FitsInt) ∧
        m.value = .integer n ∧ ¬FitsInt32 n.toInt ∧ err = .outOfIntRange e.name m.name n) ∧
    ∀ text, (Descriptor.ofEnum e).render table options = .ok text →
      ∃ src, e.source = .ok src ∧ text = src.text options.effectiveNamespace ∧
        ((∀ (i : Nat) (m : Member), e.members[i]? = some m →
          ∃ literal : String, src.body[i + 2]? = some (.code 1 s!"{m.name} = {literal},") ∧
            ∀ n, Numeral.whole? literal.toList = some n → FitsInt32 n) ↔ e.NoWholeFloat) ∧
        ((∀ m ∈ e.members, ∀ n, m.value.whole? = some n → FitsInt32 n) ↔ e.NoWholeFloat) := by
  refine ⟨fun err => ?_, fun text ht => ?_⟩
  · rw [← enumeration_source_eq_error hk]
    exact map_eq_error
  · obtain ⟨src, hs, rfl⟩ := map_eq_ok.mp ht
    have hfits := ((enumeration_source_eq_ok hk).mp hs).1
    have hliteral : ∀ (i : Nat) (m : Member), e.members[i]? = some m →
        ((∃ literal : String, src.body[i + 2]? = some (.code 1 s!"{m.name} = {literal},") ∧
          ∀ n, Numeral.whole? literal.toList = some n → FitsInt32 n) ↔
            ∀ x, m.value = .float x → x.toInt? = none) := by
      intro i m hm
      have hi := (List.getElem?_eq_some_iff.mp hm).1
      have hmem := List.mem_of_getElem? hm
      simp only [getElem?_enumeration hk hs hm, exists_eq_left]
      exact MemberValue.literal_fits_iff (by omega) (hl m hmem) (hfits m hmem)
    refine ⟨src, hs, rfl, ⟨fun h m hmem => ?_, fun h i m hm => ?_⟩, ?_⟩
    · obtain ⟨i, hm⟩ := List.getElem?_of_mem hmem
      exact (hliteral i m hm).mp (h i m hm)
    · exact (hliteral i m hm).mpr (h m (List.mem_of_getElem? hm))
    · exact forall₂_congr fun m hmem => MemberValue.whole_fits_iff (hl m hmem) (hfits m hmem)

end EnumDecl

/-- A fraction, an integer, a text and a position. -/
def moodEnum : EnumDecl :=
  ⟨"MoodEnum", .enumeration, [⟨"Calm", .classify (some "0.5")⟩, ⟨"Gloomy", .classify (some "-5")⟩,
    ⟨"Odd", .classify (some "1e")⟩, ⟨"Next", .positional⟩]⟩

theorem moodEnum_loaded : ∀ m ∈ moodEnum.members, m.value.Loaded := by
  simp only [moodEnum, List.mem_cons, List.not_mem_nil, or_false, forall_eq_or_imp, forall_eq]
  exact ⟨.inl ⟨_, rfl⟩, .inl ⟨_, rfl⟩, .inl ⟨_, rfl⟩, .inl ⟨none, rfl⟩⟩

theorem enumeration_literals_fit_mood :
    moodEnum.kind = .enumeration ∧ moodEnum.members.length < 2 ^ 31 ∧
    (∀ m ∈ moodEnum.members, m.value.Loaded) ∧
    ∃ text src, (Descriptor.ofEnum moodEnum).render .primitives {} = .ok text ∧
      moodEnum.source = .ok src ∧
      ∀ (i : Nat) (m : Member), moodEnum.members[i]? = some m →
        ∃ literal : String, src.body[i + 2]? = some (.code 1 s!"{m.name} = {literal},") ∧
          ∀ n, Numeral.whole? literal.toList = some n → FitsInt32 n := by
  have hlen : moodEnum.members.length < 2 ^ 31 := by decide
  have hwhole : ∀ m ∈ moodEnum.members, ∀ n ∈ m.value.whole?, FitsInt32 n := by decide +kernel
  have hfits : ∀ m ∈ moodEnum.members, m.FitsInt := fun m hm n hn =>
    hwhole m hm n.toInt (by rw [hn]; rfl)
  have hfloats : moodEnum.NoWholeFloat := fun m hm =>
    (MemberValue.whole_fits_iff (moodEnum_loaded m hm) (hfits m hm)).mp (hwhole m hm)
  have hs := (EnumDecl.enumeration_source_eq_ok rfl).mpr ⟨hfits, rfl⟩
  have ht : (Descriptor.ofEnum moodEnum).render .primitives {} = .ok _ := map_eq_ok.mpr ⟨_, hs, rfl⟩
  obtain ⟨src, hsrc, _, hiff, _⟩ :=
    (EnumDecl.enumeration_literals_fit_iff .primitives {} rfl hlen moodEnum_loaded).2 _ ht
  exact ⟨rfl, hlen, moodEnum_loaded, _, src, ht, hsrc, hiff.mpr hfloats⟩

/-- A whole number beyond 64 bits. -/
def vastEnum : EnumDecl := ⟨"VastEnum", .enumeration, [⟨"A", .classify (some "1e20")⟩]⟩

theorem vastEnum_source : vastEnum.source =
    .ok ⟨[], EnumDecl.body "public enum VastEnum : int \x7b"
      [.code 1 "A = 100000000000000000000,"]⟩ := by
  have hv : (MemberValue.classify (some "1e20")).isInteger = false := by decide +kernel
  have ht : ((MemberValue.classify (some "1e20")).literal 0).text = "100000000000000000000" := by
    decide +kernel
  have hfits : ∀ m ∈ vastEnum.members, m.FitsInt := by
    simp only [vastEnum, List.mem_cons, List.not_mem_nil, or_false, forall_eq, Member.FitsInt]
    intro n hn
    rw [hn] at hv
    cases hv
  have hline : Member.line 0 ⟨"A", .classify (some "1e20")⟩ =
      .code 1 "A = 100000000000000000000," := by
    rw [Member.line, ht]
    rfl
  refine (EnumDecl.enumeration_source_eq_ok rfl).mpr ⟨hfits, ?_⟩
  rw [← hline]
  rfl

/-- The literal of a rendered member can exceed the type behind it. -/
theorem literal_can_exceed_int :
    ¬ ∀ (e : EnumDecl) (src : Source), e.kind = .enumeration → e.members.length < 2 ^ 31 →
      (∀ m ∈ e.members, m.value.Loaded) → e.source = .ok src →
      ∀ (i : Nat) (m : Member) (literal : String) (n : Int), e.members[i]? = some m →
        src.body[i + 2]? = some (.code 1 s!"{m.name} = {literal},") →
        Numeral.whole? literal.toList = some n → FitsInt32 n := by
  intro h
  have hl : ∀ m ∈ vastEnum.members, m.value.Loaded := by
    simp only [vastEnum, List.mem_cons, List.not_mem_nil, or_false, forall_eq]
    exact .inl ⟨_, rfl⟩
  have hfit := h vastEnum _ rfl (by decide) hl vastEnum_source 0 _ "100000000000000000000"
    (10 ^ 20) rfl rfl (by decide)
  exact absurd hfit (by decide)

end SchemaSharp
