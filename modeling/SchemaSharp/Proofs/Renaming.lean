/-
What registering an enum in a type table does to renderings.

A field whose type is looked up by the enum's name gets that name where the
table's earlier answer stood; nothing else changes. `Renamed a b changed t t'`
says this of two texts: `t'` is `t` with `b` at some places that hold `a`,
at least one if `changed`, else none. It goes from types up to complete files
(`Descriptor.render_register`). Whether the new text is a different one is
then a matter of the two names alone (`Renamed.eq_iff`): each place adds the
same difference of weights.
-/
import SchemaSharp.Proofs.Declaration

namespace SchemaSharp

variable {a b : String} {c : Bool}

/-- Texts that differ in some places, where one has `a` and the other `b`; the flag tells
whether there are any. -/
inductive Renamed (a b : String) : Bool → String → String → Prop
  | same (t : String) : Renamed a b false t t
  | here : Renamed a b true a b
  | append {c d s s' t t'} (hs : Renamed a b c s s') (ht : Renamed a b d t t') :
      Renamed a b (c || d) (s ++ t) (s' ++ t')

namespace Renamed

variable {t t' : String}

theorem within (before after : String) (h : Renamed a b c t t') :
    Renamed a b c (before ++ t ++ after) (before ++ t' ++ after) := by
  have hw := append (append (same before) h) (same after)
  rwa [Bool.false_or, Bool.or_false] at hw

/-- The sum of code points. -/
def codeSum : List Char → Nat
  | [] => 0
  | c :: cs => c.toNat + codeSum cs

/-- The sum over all characters of a text. -/
def weight (t : String) : Nat := codeSum t.toList

theorem codeSum_append (cs ds : List Char) : codeSum (cs ++ ds) = codeSum cs + codeSum ds := by
  induction cs with
  | nil => simp [codeSum]
  | cons c cs ih =>
    rw [List.cons_append, codeSum, codeSum, ih]
    omega

theorem weight_append (s t : String) : weight (s ++ t) = weight s + weight t := by
  rw [weight, String.toList_append, codeSum_append]
  rfl

/-- The weights of renamed texts differ by that of the two names, once for
every place. -/
theorem weight_eq (h : Renamed a b c t t') :
    ∃ places, weight t' + places * weight a = weight t + places * weight b ∧
      (c = true ↔ 0 < places) := by
  induction h with
  | same t => exact ⟨0, by simp, by simp⟩
  | here => exact ⟨1, by omega, by simp⟩
  | append _ _ ihs iht =>
    obtain ⟨m, hm, hcm⟩ := ihs
    obtain ⟨n, hn, hcn⟩ := iht
    refine ⟨m + n, ?_, ?_⟩
    · rw [weight_append, weight_append, Nat.add_mul, Nat.add_mul]
      omega
    · rw [Bool.or_eq_true, hcm, hcn]
      omega

theorem eq_of_unchanged (h : Renamed a b c t t') (hc : c = false) : t' = t := by
  induction h with
  | same t => rfl
  | here => cases hc
  | append _ _ ihs iht =>
    have hcd := Bool.or_eq_false_iff.mp hc
    rw [ihs hcd.1, iht hcd.2]

theorem eq_of_same_name (h : Renamed a a c t t') : t' = t := by
  induction h with
  | same t => rfl
  | here => rfl
  | append _ _ ihs iht => rw [ihs, iht]

theorem eq_iff (hw : weight a ≠ weight b) (h : Renamed a b c t t') : t' = t ↔ c = false := by
  refine ⟨fun he => ?_, h.eq_of_unchanged⟩
  obtain ⟨places, hp, hc⟩ := h.weight_eq
  rw [he, Nat.add_left_cancel_iff] at hp
  have hz : places = 0 := by
    by_contra hn
    exact hw (Nat.eq_of_mul_eq_mul_left (Nat.pos_of_ne_zero hn) hp)
  rw [← Bool.not_eq_true, hc, hz]
  exact Nat.lt_irrefl 0

end Renamed

/-- Lines with renamed texts, one by one. -/
inductive RenamedLines (a b : String) : Bool → List Line → List Line → Prop
  | same (ls : List Line) : RenamedLines a b false ls ls
  | code {c t t'} (depth : Nat) (h : Renamed a b c t t') :
      RenamedLines a b c [.code depth t] [.code depth t']
  | append {c d ks ks' ls ls'} (hk : RenamedLines a b c ks ks') (hl : RenamedLines a b d ls ls') :
      RenamedLines a b (c || d) (ks ++ ls) (ks' ++ ls')

namespace RenamedLines

variable {ls ls' : List Line}

theorem indent (h : RenamedLines a b c ls ls') :
    RenamedLines a b c (ls.map Line.indent) (ls'.map Line.indent) := by
  induction h with
  | same ls => exact .same _
  | code depth h => exact .code (depth + 1) h
  | append _ _ ihk ihl =>
    rw [List.map_append, List.map_append]
    exact .append ihk ihl

theorem join (h : RenamedLines a b c ls ls') :
    Renamed a b c (String.join (ls.map fun l => l.text ++ "\n"))
      (String.join (ls'.map fun l => l.text ++ "\n")) := by
  induction h with
  | same ls => exact .same _
  | code depth h =>
    simp only [List.map_cons, List.map_nil, String.join_cons, String.join_nil, String.append_empty]
    exact h.within _ "\n"
  | append _ _ ihk ihl =>
    rw [List.map_append, List.map_append, String.join_append, String.join_append]
    exact .append ihk ihl

theorem cons {d : Bool} {t t' : String} (depth : Nat) (h : Renamed a b d t t')
    (hl : RenamedLines a b c ls ls') :
    RenamedLines a b (d || c) (.code depth t :: ls) (.code depth t' :: ls') :=
  append (code depth h) hl

theorem after (head : List Line) (h : RenamedLines a b c ls ls') :
    RenamedLines a b c (head ++ ls) (head ++ ls') := by
  have hl := append (same head) h
  rwa [Bool.false_or] at hl

theorem before (tail : List Line) (h : RenamedLines a b c ls ls') :
    RenamedLines a b c (ls ++ tail) (ls' ++ tail) := by
  have hl := append h (same tail)
  rwa [Bool.or_false] at hl

theorem text (usings : List String) (scope : Option String) (h : RenamedLines a b c ls ls') :
    Renamed a b c (Source.text ⟨usings, ls⟩ scope) (Source.text ⟨usings, ls'⟩ scope) := by
  refine join (after _ ?_)
  cases scope with
  | none => exact h
  | some n => exact after [_] (before _ h.indent)

end RenamedLines

namespace Property

/-- The type of the property is looked up by the name. -/
def looksUp (p : Property) (name : String) : Bool := p.lookedUp = some name

variable {table : TypeTable} {name : String}

theorem renamed_type (name : String) (type : TypeExpr) :
    Renamed type.target name true type.text (type.retarget name).text := by
  cases type with
  | named target => exact .here
  | container kind element => exact .append (.append (.same _) .here) (.same _)
  | array element => exact .append .here (.same _)

theorem renamed_typeArguments (p : Property) (name : String) (type : TypeExpr) :
    Renamed type.target name p.hasChild (p.typeArguments type)
      (p.typeArguments (type.retarget name)) := by
  unfold typeArguments hasChild
  cases p.child with
  | none => exact .same _
  | some child =>
    exact .append (.same _) (.append (.append (.append (.same _) (renamed_type name type)) (.same _))
      (.same _))

theorem trackedField_register {p : Property} {owner : String} {lines : List String}
    (ha : ∀ target, table.lookup name = some target → target = a)
    (h : p.trackedField table owner = .ok lines) :
    ∃ lines', p.trackedField (table.register name) owner = .ok lines' ∧
      RenamedLines a name (p.looksUp name) (lines.map (.code 1)) (lines'.map (.code 1)) := by
  obtain ⟨type, ht, rfl⟩ := map_eq_ok.mp h
  have htyped := TypeTable.resolve_eq_ok.mp ht
  have ht' : (table.register name).resolve owner p = .ok _ :=
    TypeTable.resolve_eq_ok.mpr htyped.register
  refine ⟨_, map_eq_ok.mpr ⟨_, ht', rfl⟩, ?_⟩
  by_cases hl : p.lookedUp = some name
  · obtain rfl : type.target = a := ha _ (htyped.lookup_eq hl)
    rw [if_pos hl, looksUp, decide_eq_true hl, List.map_append, List.map_append,
      ← Bool.or_true p.hasChild]
    have hattribute := (p.renamed_typeArguments name type).within
      ("[Type(" ++ Numeral.natText p.index.toNat ++ ", ") ")]"
    have hfield := (renamed_type name type).within "public "
      s!" {p.name} = {p.initializer};"
    simp only [toString, ← String.append_assoc] at hfield
    exact .after _ (.cons 1 hattribute (.code 1 hfield))
  · rw [if_neg hl, looksUp, decide_eq_false hl]
    exact .same _

theorem carrierField_register {p : Property} {owner : String} {lines : List String}
    (ha : ∀ target, table.lookup name = some target → target = a)
    (h : p.carrierField table owner = .ok lines) :
    ∃ lines', p.carrierField (table.register name) owner = .ok lines' ∧
      RenamedLines a name (p.looksUp name) (lines.map (.code 1)) (lines'.map (.code 1)) := by
  obtain ⟨_, ht, rfl⟩ := map_eq_ok.mp h
  obtain ⟨type, htyped, rfl⟩ := TypeTable.resolveCarrier_eq_ok.mp ht
  have ht' : (table.register name).resolveCarrier owner p = .ok _ :=
    TypeTable.resolveCarrier_eq_ok.mpr ⟨_, htyped.register, rfl⟩
  refine ⟨_, map_eq_ok.mpr ⟨_, ht', rfl⟩, ?_⟩
  by_cases hl : p.lookedUp = some name
  · obtain rfl : type.target = a := ha _ (htyped.lookup_eq hl)
    have hfield := (renamed_type name type.flatten).within "public " s!" {p.name};"
    simp only [toString, ← String.append_assoc, TypeExpr.target_flatten] at hfield
    rw [if_pos hl, looksUp, decide_eq_true hl, TypeExpr.flatten_retarget]
    exact .code 1 hfield
  · rw [if_neg hl, looksUp, decide_eq_false hl]
    exact .same _

end Property

theorem collectFields_renamed (layout : List String → List Line)
    {field field' : Property → Except GenerateError (List String)} {looksUp : Property → Bool}
    (hf : ∀ p lines, field p = .ok lines → ∃ lines', field' p = .ok lines' ∧
      RenamedLines a b (looksUp p) (layout lines) (layout lines'))
    {ps : List Property} {fields : List (List String)} (h : collectFields field ps = .ok fields) :
    ∃ fields', collectFields field' ps = .ok fields' ∧
      RenamedLines a b (ps.any looksUp) (fields.flatMap layout) (fields'.flatMap layout) := by
  induction ps generalizing fields with
  | nil =>
    cases h
    exact ⟨[], rfl, .same _⟩
  | cons p ps ih =>
    obtain ⟨lines, hp, hrest⟩ := bind_eq_ok.mp h
    obtain ⟨rest, hps, rfl⟩ := map_eq_ok.mp hrest
    obtain ⟨lines', hp', hl⟩ := hf p lines hp
    obtain ⟨rest', hps', hr⟩ := ih hps
    refine ⟨lines' :: rest', ?_, ?_⟩
    · rw [collectFields, hp', Except.bind, hps', Except.map]
    · exact .append hl hr

variable {table : TypeTable} {name : String}

theorem ClassDecl.source_register {c : ClassDecl} {src : Source}
    (ha : ∀ target, table.lookup name = some target → target = a) (h : c.source table = .ok src) :
    ∃ body, c.source (table.register name) = .ok ⟨src.usings, body⟩ ∧
      RenamedLines a name (c.properties.any (·.looksUp name)) src.body body := by
  obtain ⟨fields, hc, rfl⟩ := map_eq_ok.mp h
  have hf := collectFields_renamed (fun lines => .blank :: lines.map (.code 1))
    (fun p lines hp => by
      obtain ⟨lines', hp', hl⟩ := Property.trackedField_register ha hp
      exact ⟨lines', hp', .after [.blank] hl⟩) hc
  obtain ⟨fields', hc', hl⟩ := hf
  exact ⟨_, map_eq_ok.mpr ⟨fields', hc', rfl⟩, .before _ (.after _ hl)⟩

theorem InterfaceDecl.source_register {i : InterfaceDecl} {options : Options} {src : Source}
    (ha : ∀ target, table.lookup name = some target → target = a)
    (h : i.source table options = .ok src) :
    ∃ body, i.source (table.register name) options = .ok ⟨src.usings, body⟩ ∧
      RenamedLines a name (i.properties.any (·.looksUp name)) src.body body := by
  obtain ⟨fields, hc, rfl⟩ := map_eq_ok.mp h
  obtain ⟨fields', hc', hl⟩ :=
    collectFields_renamed _ (fun p lines => Property.carrierField_register ha) hc
  exact ⟨_, map_eq_ok.mpr ⟨fields', hc', rfl⟩, .before _ (.after _ hl)⟩

namespace Descriptor

/-- A property of the descriptor looks its type up by the name. -/
def looksUp (name : String) : Descriptor → Bool
  | ofClass c => c.properties.any (·.looksUp name)
  | ofInterface i => i.properties.any (·.looksUp name)
  | ofEnum _ => false

/-- **A rendering stays one when an enum is registered, and changes at the
places that are looked up by its name.** -/
theorem render_register {d : Descriptor} {options : Options} {text : String}
    (ha : ∀ target, table.lookup name = some target → target = a)
    (h : d.render table options = .ok text) :
    ∃ text', d.render (table.register name) options = .ok text' ∧
      Renamed a name (d.looksUp name) text text' := by
  obtain ⟨src, hs, rfl⟩ := map_eq_ok.mp h
  have hsource : ∃ body, d.source (table.register name) options = .ok ⟨src.usings, body⟩ ∧
      RenamedLines a name (d.looksUp name) src.body body := by
    cases d with
    | ofClass c => exact c.source_register ha hs
    | ofInterface i => exact i.source_register ha hs
    | ofEnum e => exact ⟨src.body, hs, .same _⟩
  obtain ⟨body, hs', hl⟩ := hsource
  exact ⟨_, map_eq_ok.mpr ⟨_, hs', rfl⟩, hl.text src.usings options.effectiveNamespace⟩

end Descriptor

end SchemaSharp
