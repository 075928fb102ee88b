/-
Which values members have once they are loaded.

A number that is whole and fits 64 bits never stays a float
(`Loaded.not_fitsInt64`), and text is kept as it was declared
(`decode_string_eq_text`).
-/
import SchemaSharp.Schema.Decode
import SchemaSharp.Proofs.Outcome

namespace SchemaSharp

namespace MemberValue

/-- The value of a double: the integer it is, if that fits, or itself. -/
theorem ofDouble_cases (x : Double) :
    (∃ n, x.toInt? = some n ∧ Numeral.FitsInt64 n ∧ ofDouble x = integer (.ofInt n)) ∨
    ((∀ n, x.toInt? = some n → ¬Numeral.FitsInt64 n) ∧ ofDouble x = float x) := by
  unfold ofDouble
  cases hx : x.toInt? with
  | none => exact .inr ⟨by simp, rfl⟩
  | some n =>
    by_cases hn : Numeral.FitsInt64 n
    · exact .inl ⟨n, rfl, hn, by simp [hn]⟩
    · exact .inr ⟨fun m hm => Option.some.inj hm ▸ hn, by simp [hn]⟩

/-- What is no whole number of 64 bits stays a float. -/
theorem ofDouble_of_not_fitsInt64 {x : Double}
    (h : ∀ n, x.toInt? = some n → ¬Numeral.FitsInt64 n) : ofDouble x = float x := by
  rcases ofDouble_cases x with ⟨n, hn, hfit, _⟩ | ⟨_, hx⟩
  · exact absurd hfit (h n hn)
  · exact hx

theorem ofDouble_of_zero {x : Double} (h : x.scaled? = some 0) : ofDouble x = integer 0 := by
  have hzero : x.toInt? = some 0 := by
    rw [Double.toInt?, h, Option.bind_some, if_pos (Int.zero_emod _), Int.zero_ediv]
  rw [ofDouble, hzero]
  rfl

theorem ofInt_toInt (n : Int64) : ofInt n.toInt = integer n := by
  have hn : Numeral.FitsInt64 n.toInt := ⟨n.le_toInt, n.toInt_lt⟩
  rw [ofInt, if_pos hn, Int64.ofInt_toInt]

theorem ofDouble_eq_float {x y : Double} (h : ofDouble x = float y) :
    x = y ∧ ∀ n, y.toInt? = some n → ¬Numeral.FitsInt64 n := by
  rcases ofDouble_cases x with ⟨n, _, _, hx⟩ | ⟨hn, hx⟩
  · rw [hx] at h
    cases h
  · rw [hx] at h
    cases h
    exact ⟨rfl, hn⟩

theorem ofDouble_ne_text (x : Double) (t : String) : ofDouble x ≠ text t := by
  rcases ofDouble_cases x with ⟨n, _, _, hx⟩ | ⟨_, hx⟩ <;> rw [hx] <;> exact fun h => by cases h

theorem number?_eq_some {cs : List Char} {v : MemberValue} (h : number? cs = some v) :
    (∃ n, v = integer n) ∨ ∃ x, x.isFinite = true ∧ v = ofDouble x := by
  unfold number? at h
  split at h
  next n _ => exact .inl ⟨n, (Option.some.inj h).symm⟩
  next =>
    obtain ⟨x, _, h⟩ := Option.bind_eq_some_iff.mp h
    split at h
    next hx => exact .inr ⟨x, hx, (Option.some.inj h).symm⟩
    next => cases h

theorem classify_cases (declared : Option String) :
    classify declared = positional ∨ (∃ n, classify declared = integer n) ∨
    (∃ x, x.isFinite = true ∧ classify declared = ofDouble x) ∨
    ∃ t, declared = some t ∧ classify declared = text t := by
  unfold classify
  split
  next => exact .inl rfl
  next t =>
    split
    next => exact .inl rfl
    next =>
      split
      next => exact .inr (.inl ⟨0, rfl⟩)
      next =>
        cases hv : number? (Text.trim t.toList) with
        | none => exact .inr (.inr (.inr ⟨t, rfl, rfl⟩))
        | some v =>
          rcases number?_eq_some hv with ⟨n, rfl⟩ | ⟨x, hx, rfl⟩
          · exact .inr (.inl ⟨n, rfl⟩)
          · exact .inr (.inr (.inl ⟨x, hx, rfl⟩))

/-- Text that is no number is kept, blanks and all. -/
theorem classify_eq_text {s t : String} (h : classify (some s) = text t) : t = s := by
  rcases classify_cases (some s) with hc | ⟨n, hc⟩ | ⟨x, _, hc⟩ | ⟨t', hs, hc⟩
  · rw [hc] at h
    cases h
  · rw [hc] at h
    cases h
  · exact absurd (hc.symm.trans h) (ofDouble_ne_text x t)
  · rw [hc] at h
    cases h
    exact (Option.some.inj hs).symm

theorem decode_string_eq_text {s t : String} (h : decode (.string s) = .ok (text t)) : t = s :=
  classify_eq_text (Except.ok.inj h)

/-- Values that come from declared text or from JSON. -/
def Loaded (v : MemberValue) : Prop :=
  (∃ declared, classify declared = v) ∨ ∃ j, decode j = .ok v

/-- **A loaded float is no whole number of 64 bits.** -/
theorem Loaded.not_fitsInt64 {x : Double} (h : Loaded (float x)) {n : Int}
    (hx : x.toInt? = some n) : ¬Numeral.FitsInt64 n := by
  have of {y : Double} (hy : ofDouble y = float x) : ¬Numeral.FitsInt64 n :=
    (ofDouble_eq_float hy).2 n hx
  have classified {declared : Option String} (hd : classify declared = float x) :
      ¬Numeral.FitsInt64 n := by
    rcases classify_cases declared with hc | ⟨n, hc⟩ | ⟨y, _, hc⟩ | ⟨t, _, hc⟩
    · rw [hc] at hd
      cases hd
    · rw [hc] at hd
      cases hd
    · exact of (hc.symm.trans hd)
    · rw [hc] at hd
      cases hd
  rcases h with ⟨declared, hd⟩ | ⟨j, hj⟩
  · exact classified hd
  · unfold decode at hj
    split at hj
    · cases hj
    next m _ =>
      have hm : ofInt m = float x := Except.ok.inj hj
      unfold ofInt at hm
      split at hm
      · cases hm
      · exact of hm
    · exact of (Except.ok.inj hj)
    · exact classified (Except.ok.inj hj)
    · cases hj

end MemberValue

end SchemaSharp
