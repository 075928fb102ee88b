/-
Identifiers, and texts that are read up to a delimiter.

A text of characters that no delimiter is one of ends where the delimiter stands,
so texts that go on alike after it are alike (`append_cons_inj`). Identifiers are
such texts for every delimiter of the language, and so are the types of fields
over identifiers (`TypeExpr.isTypeChar_of_mem`), which the text of a type
determines (`TypeExpr.text_inj`).
-/
import SchemaSharp.Proofs.Lines

namespace SchemaSharp

/-- What stands before the first delimiter is determined, and what stands behind. -/
theorem append_cons_inj {α : Type} {p : α → Bool} {w w' r r' : List α} {d d' : α}
    (hw : ∀ c ∈ w, p c = true) (hw' : ∀ c ∈ w', p c = true) (hd : p d = false) (hd' : p d' = false)
    (h : w ++ d :: r = w' ++ d' :: r') : w = w' ∧ d = d' ∧ r = r' := by
  induction w generalizing w' with
  | nil =>
    cases w' with
    | nil => exact ⟨rfl, List.cons.inj h⟩
    | cons c w' =>
      -- The delimiter of one text would be a character before that of the other.
      obtain ⟨rfl, _⟩ := List.cons.inj h
      rw [hw' _ (.head _)] at hd
      cases hd
  | cons c w ih =>
    cases w' with
    | nil =>
      obtain ⟨rfl, _⟩ := List.cons.inj h
      rw [hw _ (.head _)] at hd'
      cases hd'
    | cons c' w' =>
      obtain ⟨rfl, hrest⟩ := List.cons.inj h
      obtain ⟨rfl, hr⟩ := ih (fun c hc => hw c (.tail _ hc)) (fun c hc => hw' c (.tail _ hc)) hrest
      exact ⟨rfl, hr⟩

/-- Letters, digits and the underscore. -/
def isWordChar (c : Char) : Bool := c.isAlphanum || c = '_'

/-- An identifier of ASCII characters: it starts with a letter or an underscore and
goes on with letters, digits and underscores. -/
def IsIdentifier (t : String) : Prop :=
  (t.toList.head?.any fun c => c.isAlpha || c = '_') = true ∧ t.toList.all isWordChar = true

instance (t : String) : Decidable (IsIdentifier t) := inferInstanceAs (Decidable (_ ∧ _))

theorem IsIdentifier.isWordChar {t : String} (h : IsIdentifier t) :
    ∀ c ∈ t.toList, isWordChar c = true := List.all_eq_true.mp h.2

theorem IsIdentifier.oneLine {t : String} (h : IsIdentifier t) : OneLine t := fun hn =>
  absurd (h.isWordChar _ hn) (by decide)

/-- The characters of types. -/
def isTypeChar (c : Char) : Bool := isWordChar c || c = '<' || c = '>' || c = '[' || c = ']'

theorem isTypeChar_of_isWordChar {c : Char} (h : isWordChar c = true) : isTypeChar c = true := by
  simp [isTypeChar, h]

theorem Primitive.isWordChar_csharpName (p : Primitive) :
    ∀ c ∈ p.csharpName.toList, isWordChar c = true :=
  List.all_eq_true.mp (by cases p <;> decide)

theorem ContainerKind.isWordChar_className (kind : ContainerKind) :
    ∀ c ∈ kind.className.toList, isWordChar c = true :=
  List.all_eq_true.mp (by cases kind <;> decide)

theorem ContainerKind.className_injective {k l : ContainerKind}
    (h : k.className = l.className) : k = l := by
  cases k <;> cases l <;> first | rfl | (exact absurd h (by decide))

theorem Property.Typed.isWordChar_target {table : TypeTable} (ht : table.Built) {p : Property}
    (hp : ∀ name ∈ p.names, IsIdentifier name) {type : TypeExpr} (h : p.Typed table type) :
    ∀ c ∈ type.target.toList, isWordChar c = true := by
  rcases h.target_cases ht with hmem | ⟨primitive, hname⟩
  · exact (hp _ hmem).isWordChar
  · rw [← hname]
    exact primitive.isWordChar_csharpName

namespace TypeExpr

variable {type type' : TypeExpr}

theorem toList_container (kind : ContainerKind) (element : String) :
    (container kind element).text.toList =
      kind.className.toList ++ '<' :: (element.toList ++ ['>']) := by
  simp [text, toString]

theorem toList_array (element : String) :
    (array element).text.toList = element.toList ++ '[' :: [']'] := by
  simp [text]

theorem isTypeChar_of_mem (h : ∀ c ∈ type.target.toList, isWordChar c = true) :
    ∀ c ∈ type.text.toList, isTypeChar c = true := by
  intro c hc
  cases type with
  | named name => exact isTypeChar_of_isWordChar (h c hc)
  | container kind element =>
    rw [toList_container] at hc
    simp only [List.mem_append, List.mem_cons, List.not_mem_nil, or_false] at hc
    rcases hc with hc | rfl | hc | rfl
    · exact isTypeChar_of_isWordChar (kind.isWordChar_className c hc)
    · decide
    · exact isTypeChar_of_isWordChar (h c hc)
    · decide
  | array element =>
    rw [toList_array] at hc
    simp only [List.mem_append, List.mem_cons, List.not_mem_nil, or_false] at hc
    rcases hc with hc | rfl | rfl
    · exact isTypeChar_of_isWordChar (h c hc)
    · decide
    · decide

/-- The form of a type is marked by the bracket behind its first word. -/
theorem text_inj (h : ∀ c ∈ type.target.toList, isWordChar c = true)
    (h' : ∀ c ∈ type'.target.toList, isWordChar c = true)
    (ht : type.text.toList = type'.text.toList) : type = type' := by
  cases type with
  | named name =>
    cases type' with
    | named name' => exact congrArg named (String.toList_injective ht)
    | container kind element =>
      have hmem : '<' ∈ (named name).text.toList := by simp [ht, toList_container]
      exact absurd (h _ hmem) (by decide)
    | array element =>
      have hmem : '[' ∈ (named name).text.toList := by simp [ht, toList_array]
      exact absurd (h _ hmem) (by decide)
  | container kind element =>
    cases type' with
    | named name =>
      have hmem : '<' ∈ (named name).text.toList := by simp [← ht, toList_container]
      exact absurd (h' _ hmem) (by decide)
    | container kind' element' =>
      rw [toList_container, toList_container] at ht
      obtain ⟨hk, _, hr⟩ := append_cons_inj kind.isWordChar_className kind'.isWordChar_className
        (by decide) (by decide) ht
      rw [ContainerKind.className_injective (String.toList_injective hk),
        String.toList_injective (List.append_cancel_right hr)]
    | array element' =>
      rw [toList_container, toList_array] at ht
      obtain ⟨_, hd, _⟩ := append_cons_inj kind.isWordChar_className h' (by decide) (by decide) ht
      cases hd
  | array element =>
    cases type' with
    | named name =>
      have hmem : '[' ∈ (named name).text.toList := by simp [← ht, toList_array]
      exact absurd (h' _ hmem) (by decide)
    | container kind element' =>
      rw [toList_container, toList_array] at ht
      obtain ⟨_, hd, _⟩ := append_cons_inj h kind.isWordChar_className (by decide) (by decide) ht
      cases hd
    | array element' =>
      rw [toList_array, toList_array] at ht
      rw [String.toList_injective (List.append_cancel_right ht)]

end TypeExpr

end SchemaSharp
