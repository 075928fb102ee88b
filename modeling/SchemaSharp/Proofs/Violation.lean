/-
Which violation validation reports.

`Schema.items` lists all that validation judges in the order in which it does so: the
names of the declarations, then the properties of classes, the properties of interfaces
and the members of enums, each with what stands before it. `Item.Violation` says what can
be wrong with an item, and the error that reports it. Validation reports the first item
with a violation (`validate_reports_first`): all items before it are free of violations,
so that of two properties with one index the earlier one is the only one
(`FirstViolation.earlier_index`).
-/
import SchemaSharp.Proofs.Validation

namespace SchemaSharp

/-! ## Lists in turn -/

/-- What is made of each item of a list and of those before it. -/
def inTurn {α β : Type} (f : List α → α → β) (before : List α) : List α → List β
  | [] => []
  | a :: rest => f before a :: inTurn f (before ++ [a]) rest

section InTurn

variable {α β ε : Type} {f : List α → α → β} {before : List α}

theorem findSome?_inTurn {judge : β → Option ε} (l : List α) :
    (inTurn f before l).findSome? judge = firstFault (fun b a => judge (f b a)) before l := by
  induction l generalizing before with
  | nil => rfl
  | cons a l ih =>
    rw [inTurn, List.findSome?_cons, ih, firstFault]
    cases judge (f before a) <;> rfl

theorem inTurn_eq_append {l : List α} {xs ys : List β} {y : β}
    (h : inTurn f before l = xs ++ y :: ys) :
    ∃ l' a, y = f (before ++ l') a ∧ xs = inTurn f before l' := by
  induction l generalizing before xs with
  | nil => simp [inTurn] at h
  | cons a l ih =>
    cases xs with
    | nil =>
      refine ⟨[], a, ?_, rfl⟩
      rw [List.append_nil]
      exact (List.cons.inj h).1.symm
    | cons x xs =>
      obtain ⟨hx, hrest⟩ := List.cons.inj h
      obtain ⟨l', a', hy, hxs⟩ := ih hrest
      refine ⟨a :: l', a', ?_, ?_⟩
      · rw [hy, List.append_assoc]
        rfl
      · rw [inTurn, hx, hxs]

end InTurn

theorem findSome?_flatMap {α β ε : Type} {f : α → List β} {judge : β → Option ε} (l : List α) :
    (l.flatMap f).findSome? judge = l.findSome? fun a => (f a).findSome? judge := by
  induction l with
  | nil => rfl
  | cons a l ih =>
    rw [List.flatMap_cons, List.findSome?_append, ih, List.findSome?_cons]
    cases (f a).findSome? judge <;> rfl

namespace Schema

/-! ## Items -/

/-- One thing that validation judges, with those of its kind before it. -/
inductive Item
  | declaration (before : List Descriptor) (d : Descriptor)
  | property (owner : String) (before : List Property) (p : Property)
  | member (owner : String) (before : List Member) (m : Member)

/-- All that validation judges, in order. -/
def items (s : Schema) : List Item :=
  inTurn .declaration [] s.declarations ++
    s.classes.flatMap (fun c => inTurn (.property c.name) [] c.properties) ++
    s.interfaces.flatMap (fun i => inTurn (.property i.name) [] i.properties) ++
    s.enums.flatMap (fun e => inTurn (.member e.name) [] e.members)

/-- What can be wrong with an item, and the error that reports it. Of several things that
are wrong with one item the first of these is reported. -/
inductive Item.Violation : Item → SchemaError → Prop
  | repeatedDeclaration {before d} (h : ∃ b ∈ before, b.name = d.name) :
      Violation (.declaration before d) (.duplicateDefinition d.kind d.name)
  | repeatedProperty {owner before p} (h : ∃ q ∈ before, q.name = p.name) :
      Violation (.property owner before p) (.duplicateProperty owner p.name)
  | repeatedIndex {owner before p first} (hn : ∀ q ∈ before, q.name ≠ p.name)
      (hf : first ∈ before) (hi : first.index = p.index) :
      Violation (.property owner before p) (.duplicateIndex owner p.index first.name p.name)
  | missingChild {owner before p} (hn : ∀ q ∈ before, q.name ≠ p.name ∧ q.index ≠ p.index)
      (ht : p.type ∈ childTakers) (hc : p.child = none) :
      Violation (.property owner before p) (.missingChild owner p.name p.type)
  | unexpectedChild {owner before p child} (hn : ∀ q ∈ before, q.name ≠ p.name ∧ q.index ≠ p.index)
      (ht : p.type ∉ childTakers) (hc : p.child = some child) :
      Violation (.property owner before p) (.unexpectedChild owner p.name p.type)
  | unnamedMember {owner before m} (h : m.name = "") :
      Violation (.member owner before m) (.unnamedMember owner)
  | repeatedMember {owner before m} (hn : m.name ≠ "") (h : ∃ b ∈ before, b.name = m.name) :
      Violation (.member owner before m) (.duplicateProperty owner m.name)

/-- The fault of an item, as validation judges it. -/
def Item.fault? : Item → Option SchemaError
  | declaration before d => d.fault? before
  | property owner before p => p.fault? owner before
  | member owner before m => m.fault? owner before

theorem fault?_eq_findSome? (s : Schema) : s.fault? = s.items.findSome? Item.fault? := by
  simp only [fault?, items, List.findSome?_append, findSome?_flatMap, findSome?_inTurn,
    Item.fault?, Option.or_assoc, Option.orElse_eq_orElse, Option.orElse_eq_or]

end Schema

/-! ## Faults and violations -/

namespace Property

variable {owner : String} {p : Property} {e : SchemaError}

theorem childFault?_eq_some : p.childFault? owner = some e ↔
    (p.type ∈ childTakers ∧ p.child = none ∧ e = .missingChild owner p.name p.type) ∨
    (p.type ∉ childTakers ∧ (∃ child, p.child = some child) ∧
      e = .unexpectedChild owner p.name p.type) := by
  rw [← Option.isSome_iff_exists, ← Option.not_isSome_iff_eq_none]
  have hplain := kind_eq_plain (p := p)
  unfold childFault? hasChild
  cases hk : p.kind <;> cases hc : p.child.isSome <;> simp_all <;> exact eq_comm

theorem filter_index {before : List Property} {first : Property}
    (hu : (before.map (·.index)).Nodup) (hf : first ∈ before) :
    before.filter (·.index = first.index) = [first] := by
  obtain ⟨l, l', rfl⟩ := List.append_of_mem hf
  rw [List.map_append, List.map_cons] at hu
  have hl : ∀ q ∈ l, q.index ≠ first.index := fun q hq => by
    exact (List.nodup_append.mp hu).2.2 _ (List.mem_map_of_mem hq) _ (.head _)
  have hl' : ∀ q ∈ l', q.index ≠ first.index := fun q hq heq => by
    have hcons := (List.nodup_append.mp hu).2.1
    exact (List.nodup_cons.mp hcons).1 (heq ▸ List.mem_map_of_mem hq)
  rw [List.filter_append, List.filter_cons_of_pos (by simp),
    List.filter_eq_nil_iff.mpr (by simpa using hl), List.filter_eq_nil_iff.mpr (by simpa using hl')]
  rfl

end Property

namespace Schema.Item

variable {x : Item} {e : SchemaError}

theorem violation_of_fault? (h : x.fault? = some e) : x.Violation e := by
  cases x with
  | declaration before d =>
    change d.fault? before = some e at h
    unfold Descriptor.fault? at h
    split at h
    next hd =>
      cases h
      exact .repeatedDeclaration (List.mem_map.mp hd)
    next => cases h
  | property owner before p =>
    change p.fault? owner before = some e at h
    unfold Property.fault? at h
    split at h
    next hp =>
      cases h
      exact .repeatedProperty (List.mem_map.mp hp)
    next hp =>
      have hn : ∀ q ∈ before, q.name ≠ p.name := by simpa using hp
      split at h
      next first hf =>
        cases h
        exact .repeatedIndex hn (List.mem_of_find?_eq_some hf) (by simpa using List.find?_some hf)
      next hf =>
        have hi : ∀ q ∈ before, q.index ≠ p.index := by simpa using hf
        have hnew : ∀ q ∈ before, q.name ≠ p.name ∧ q.index ≠ p.index := fun q hq =>
          ⟨hn q hq, hi q hq⟩
        rcases Property.childFault?_eq_some.mp h with ⟨ht, hc, rfl⟩ | ⟨ht, ⟨child, hc⟩, rfl⟩
        · exact .missingChild hnew ht hc
        · exact .unexpectedChild hnew ht hc
  | member owner before m =>
    change m.fault? owner before = some e at h
    unfold Member.fault? at h
    split at h
    next hm =>
      cases h
      exact .unnamedMember hm
    next hn =>
      split at h
      next hm =>
        cases h
        exact .repeatedMember hn (List.mem_map.mp hm)
      next => cases h

/-- A violation is the fault that is found, where the indices before it differ: the owner of
a repeated index is looked up among them. -/
theorem fault?_of_violation (h : x.Violation e)
    (hu : ∀ owner before p, x = .property owner before p → (before.map (·.index)).Nodup) :
    x.fault? = some e := by
  cases h with
  | repeatedDeclaration h => exact if_pos (List.mem_map.mpr h)
  | repeatedProperty h => exact if_pos (List.mem_map.mpr h)
  | @repeatedIndex owner before p first hn hf hi =>
    have hname : p.name ∉ before.map Property.name := by simpa using hn
    have hfind : before.find? (·.index = p.index) = some first := by
      rw [← List.head?_filter, ← hi, Property.filter_index (hu _ _ _ rfl) hf]
      rfl
    change p.fault? owner before = _
    rw [Property.fault?, if_neg hname, hfind]
  | missingChild hn ht hc =>
    refine (Property.fault?_of_new hn _).trans ?_
    exact Property.childFault?_eq_some.mpr (.inl ⟨ht, hc, rfl⟩)
  | unexpectedChild hn ht hc =>
    refine (Property.fault?_of_new hn _).trans ?_
    exact Property.childFault?_eq_some.mpr (.inr ⟨ht, ⟨_, hc⟩, rfl⟩)
  | unnamedMember h => exact if_pos h
  | @repeatedMember owner before m hn h =>
    change m.fault? owner before = _
    rw [Member.fault?, if_neg hn, if_pos (List.mem_map.mpr h)]

/-- An item is without a fault exactly if nothing is wrong with it. -/
theorem fault?_eq_none_iff : x.fault? = none ↔ ∀ e, ¬x.Violation e := by
  refine ⟨fun h e hv => ?_, fun h => ?_⟩
  · cases hv with
    | repeatedDeclaration hd =>
      obtain ⟨b, hb, hname⟩ := hd
      exact (Descriptor.fault?_eq_none _ _).mp h b hb hname
    | repeatedProperty hp =>
      obtain ⟨q, hq, hname⟩ := hp
      exact (((Property.fault?_eq_none _ _ _).mp h).1 q hq).1 hname
    | repeatedIndex _ hf hi => exact (((Property.fault?_eq_none _ _ _).mp h).1 _ hf).2 hi
    | missingChild _ ht hc =>
      have hsome := ((Property.fault?_eq_none _ _ _).mp h).2.mpr ht
      rw [hc] at hsome
      cases hsome
    | unexpectedChild _ ht hc =>
      exact ht (((Property.fault?_eq_none _ _ _).mp h).2.mp (by rw [hc]; rfl))
    | unnamedMember hm => exact ((Member.fault?_eq_none _ _ _).mp h).2 hm
    | repeatedMember _ hm =>
      obtain ⟨b, hb, hname⟩ := hm
      exact ((Member.fault?_eq_none _ _ _).mp h).1 b hb hname
  · cases hx : x.fault? with
    | none => rfl
    | some e => exact absurd (violation_of_fault? hx) (h e)

end Schema.Item

namespace Schema

/-- The properties of an owner are judged one right after the other: all that stand before
a property have been judged before it. -/
def Led (items : List Item) : Prop :=
  ∀ before owner earlier p after, items = before ++ .property owner earlier p :: after →
    ∀ x ∈ inTurn (.property owner) [] earlier, x ∈ before

namespace Led

theorem append {xs ys : List Item} (hx : Led xs) (hy : Led ys) : Led (xs ++ ys) := by
  intro before owner earlier p after h x hmem
  rcases List.append_eq_append_iff.mp h with ⟨zs, rfl, hzs⟩ | ⟨zs, rfl, hzs⟩
  · exact List.mem_append_right _ (hy zs owner earlier p after hzs x hmem)
  · cases zs with
    | nil => cases hy [] owner earlier p after hzs.symm x hmem
    | cons z zs =>
      obtain ⟨rfl, _⟩ := List.cons.inj hzs
      exact hx before owner earlier p zs rfl x hmem

theorem flatMap {α : Type} {f : α → List Item} (h : ∀ a, Led (f a)) (l : List α) :
    Led (l.flatMap f) := by
  induction l with
  | nil =>
    intro before owner earlier p after h
    simp at h
  | cons a l ih =>
    rw [List.flatMap_cons]
    exact (h a).append ih

theorem properties (owner : String) (ps : List Property) :
    Led (inTurn (.property owner) [] ps) := by
  intro before owner' earlier p after h x hmem
  obtain ⟨l, a, heq, rfl⟩ := inTurn_eq_append h
  cases heq
  exact hmem

theorem of_others {α : Type} {f : List α → α → Item}
    (hf : ∀ before a owner earlier p, f before a ≠ .property owner earlier p) (l : List α) :
    Led (inTurn f [] l) := by
  intro before owner earlier p after h
  obtain ⟨l', a, heq, _⟩ := inTurn_eq_append h
  exact absurd heq.symm (hf _ a owner earlier p)

end Led

theorem led_items (s : Schema) : Led s.items := by
  unfold items
  refine Led.append (Led.append (Led.append ?_ ?_) ?_) ?_
  · exact Led.of_others (fun _ _ _ _ _ => by simp) _
  · exact Led.flatMap (fun c : ClassDecl => Led.properties c.name c.properties) _
  · exact Led.flatMap (fun i : InterfaceDecl => Led.properties i.name i.properties) _
  · exact Led.flatMap (fun e : EnumDecl => Led.of_others (fun _ _ _ _ _ => by simp) e.members) _

/-! ## The first violation -/

/-- `item` is the first of a schema's items with a violation, and `e` reports it. -/
structure FirstViolation (s : Schema) (before : List Item) (item : Item) (after : List Item)
    (e : SchemaError) : Prop where
  split : s.items = before ++ item :: after
  free : ∀ x ∈ before, ∀ e', ¬x.Violation e'
  violation : item.Violation e

variable {s : Schema} {before after : List Item} {item : Item} {e : SchemaError}

namespace FirstViolation

/-- What stands before the first violation in the same class or interface is well formed. -/
theorem wellFormed {owner : String} {earlier : List Property} {p : Property}
    (h : s.FirstViolation before item after e) (hp : item = .property owner earlier p) :
    Property.WellFormed earlier := by
  have hsplit := hp ▸ h.split
  have hturn : (inTurn (Item.property owner) [] earlier).findSome? Item.fault? = none := by
    refine List.findSome?_eq_none_iff.mpr fun x hx => ?_
    exact Item.fault?_eq_none_iff.mpr (h.free x (s.led_items _ _ _ _ _ hsplit x hx))
  rw [findSome?_inTurn] at hturn
  exact Property.wellFormed_iff.mp hturn

theorem fault?_eq (h : s.FirstViolation before item after e) : item.fault? = some e :=
  Item.fault?_of_violation h.violation fun _ _ _ hp => (h.wellFormed hp).indices

end FirstViolation

theorem validate_eq_error : s.validate = .error e ↔ s.fault? = some e := by
  unfold validate
  cases s.fault? <;> simp

theorem validate_eq_error_iff :
    s.validate = .error e ↔ ∃ before item after, s.FirstViolation before item after e := by
  rw [validate_eq_error, fault?_eq_findSome?, List.findSome?_eq_some_iff]
  refine ⟨fun h => ?_, fun h => ?_⟩
  · obtain ⟨before, item, after, hs, hitem, hfree⟩ := h
    exact ⟨before, item, after, hs, fun x hx => Item.fault?_eq_none_iff.mp (hfree x hx),
      Item.violation_of_fault? hitem⟩
  · obtain ⟨before, item, after, h⟩ := h
    exact ⟨before, item, after, h.split, h.fault?_eq,
      fun x hx => Item.fault?_eq_none_iff.mpr (h.free x hx)⟩

/-- **Validation reports the first violation**: the error is that of the first item with
one, and everything before this item is free of violations. Of a repeated index it names
the one property before that has it, and the property that repeats it. -/
theorem validate_reports_first (s : Schema) (e : SchemaError) :
    (s.validate = .error e ↔ ∃ before item after, s.FirstViolation before item after e) ∧
    ∀ before item after, s.FirstViolation before item after e →
      ∀ owner index first second, e = .duplicateIndex owner index first second →
        ∃ earlier p q, item = .property owner earlier p ∧ p.index = index ∧ p.name = second ∧
          earlier.filter (·.index = index) = [q] ∧ q.name = first := by
  refine ⟨validate_eq_error_iff, fun before item after h owner index first second he => ?_⟩
  subst he
  cases hv : h.violation with
  | @repeatedIndex _ earlier p q _ hq hi =>
    have hindices := (h.wellFormed rfl).indices
    exact ⟨earlier, p, q, rfl, rfl, rfl, hi ▸ Property.filter_index hindices hq, rfl⟩

/-- A number. -/
def tavernBeds : Property := { name := "beds", type := "int32" }

/-- A list of names. -/
def tavernGuests : Property :=
  { name := "guests", index := 1, type := "array", child := some (.ofName "string") }

/-- Has the index of the guests, and no child type. -/
def tavernRooms : Property := { name := "rooms", index := 1, type := "map" }

/-- Three more violations follow the one of the rooms. -/
def tavernSchema : Schema where
  classes := [⟨"Tavern", "Schema", [tavernBeds, tavernGuests, tavernRooms]⟩]
  interfaces := [⟨"Bill", [{ name := "guest", type := "ref" }]⟩]
  enums := [⟨"MealEnum", .enumeration, [⟨"", .positional⟩]⟩]

/-- Of four violations the repeated index comes first. -/
theorem validate_reports_first_tavern :
    tavernSchema.validate = .error (.duplicateIndex "Tavern" 1 "guests" "rooms") ∧
      ∃ q, [tavernBeds, tavernGuests].filter (·.index = 1) = [q] ∧ q.name = "guests" := by
  have hviolation : Item.Violation (.property "Tavern" [tavernBeds, tavernGuests] tavernRooms)
      (.duplicateIndex "Tavern" 1 tavernGuests.name "rooms") :=
    .repeatedIndex (by decide) (by decide) rfl
  have h : tavernSchema.FirstViolation
      (inTurn .declaration [] tavernSchema.declarations ++
        inTurn (.property "Tavern") [] [tavernBeds, tavernGuests])
      (.property "Tavern" [tavernBeds, tavernGuests] tavernRooms)
      [.property "Bill" [] { name := "guest", type := "ref" },
        .member "MealEnum" [] ⟨"", .positional⟩]
      (.duplicateIndex "Tavern" 1 "guests" "rooms") := by
    refine ⟨rfl, fun x hx => Item.fault?_eq_none_iff.mp ?_, hviolation⟩
    exact List.findSome?_eq_none_iff.mp rfl x hx
  obtain ⟨hiff, hindex⟩ := validate_reports_first tavernSchema
    (.duplicateIndex "Tavern" 1 "guests" "rooms")
  obtain ⟨earlier, p, q, hitem, _, _, hfilter, hq⟩ := hindex _ _ _ h _ _ _ _ rfl
  cases hitem
  exact ⟨hiff.mpr ⟨_, _, _, h⟩, q, hfilter, hq⟩

end Schema

end SchemaSharp
