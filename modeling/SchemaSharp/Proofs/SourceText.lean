/-
The text of a file and the lines of its declaration.

A file is the text of its lines, one after the other (`Source.text_eq_join`). Those of the
declaration are all among them, indented if there is a namespace (`Source.sublist_lines`).
-/
import SchemaSharp.CSharp.Source

namespace SchemaSharp

namespace Line

/-- The text of lines, with their ends. -/
def join (lines : List Line) : String := String.join (lines.map (·.text ++ "\n"))

theorem join_append (lines rest : List Line) : join (lines ++ rest) = join lines ++ join rest := by
  rw [join, List.map_append, String.join_append]
  rfl

theorem join_cons (l : Line) (lines : List Line) :
    join (l :: lines) = l.text ++ "\n" ++ join lines := join_append [l] lines

/-- A line of a declaration as it stands in a file, inside a namespace if there is
one. -/
def within (scope : Option String) (l : Line) : Line :=
  match scope with
  | none => l
  | some _ => l.indent

/-- A text has a line of a declaration, between whole lines of its own. -/
def StandsIn (scope : Option String) (text : String) (l : Line) : Prop :=
  ∃ before after, text = join before ++ (l.within scope).text ++ "\n" ++ join after

end Line

namespace Source

variable {s : Source} {scope : Option String}

theorem text_eq_join (s : Source) (scope : Option String) :
    s.text scope = Line.join (s.lines scope) := rfl

theorem sublist_lines {ls : List Line} (h : ls.Sublist s.body) :
    (ls.map (·.within scope)).Sublist (s.lines scope) := by
  refine List.Sublist.trans ?_ (List.sublist_append_right _ _)
  cases scope with
  | none =>
    have hid : ls.map (·.within none) = ls := List.map_id' ls
    rw [hid]
    exact h
  | some n => exact ((h.map _).trans (List.sublist_append_left _ _)).cons _

/-- Every line of a declaration stands in the text of its file. -/
theorem standsIn {l : Line} {i : Nat} (h : s.body[i]? = some l) :
    l.StandsIn scope (s.text scope) := by
  have hmem : l.within scope ∈ s.lines scope :=
    (sublist_lines (List.singleton_sublist.mpr (List.mem_of_getElem? h))).mem (.head _)
  obtain ⟨before, after, hlines⟩ := List.append_of_mem hmem
  refine ⟨before, after, ?_⟩
  rw [text_eq_join, hlines, Line.join_append, Line.join_cons]
  simp only [String.append_assoc]

end Source

end SchemaSharp
