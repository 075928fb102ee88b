/-
Leaving out the blanks at both ends of a text.

`Trimmed cs core` says that `core` is what is between them: it neither starts nor ends
with a blank, and nothing but blanks is around it. There is one such text, and trimming
finds it (`trim_eq_iff`).
-/
import Mathlib.Data.List.TakeWhile
import SchemaSharp.Text.Blank

namespace SchemaSharp

namespace Text

/-- A text and what is between the blanks at its ends. -/
inductive Trimmed : List Char → List Char → Prop
  | intro {pre core post} (hpre : ∀ c ∈ pre, isBlank c = true)
      (hpost : ∀ c ∈ post, isBlank c = true)
      (hhead : ∀ c, core.head? = some c → isBlank c = false)
      (hlast : ∀ c, core.getLast? = some c → isBlank c = false) :
      Trimmed (pre ++ (core ++ post)) core

variable {cs core : List Char}

theorem head?_dropWhile_isBlank (cs : List Char) :
    ∀ c, (cs.dropWhile isBlank).head? = some c → isBlank c = false := by
  intro c hc
  have hnot := List.head?_dropWhile_not isBlank cs
  rw [hc] at hnot
  exact hnot

theorem dropWhile_isBlank (h : ∀ c, cs.head? = some c → isBlank c = false) :
    cs.dropWhile isBlank = cs := by
  cases cs with
  | nil => rfl
  | cons c cs => rw [List.dropWhile_cons_of_neg (by simp [h c rfl])]

theorem trimmed_trim (cs : List Char) : Trimmed cs (trim cs) := by
  -- The blanks at the end come first where the text is reversed.
  generalize hpost : ((cs.dropWhile isBlank).reverse.takeWhile isBlank).reverse = post
  have hrest : cs.dropWhile isBlank = trim cs ++ post := by
    rw [← hpost, trim, ← List.reverse_append, List.takeWhile_append_dropWhile,
      List.reverse_reverse]
  have hcs : cs.takeWhile isBlank ++ (trim cs ++ post) = cs := by
    rw [← hrest, List.takeWhile_append_dropWhile]
  have h : Trimmed (cs.takeWhile isBlank ++ (trim cs ++ post)) (trim cs) := by
    refine .intro (fun c hc => List.mem_takeWhile_imp hc) (fun c hc => ?_) (fun c hc => ?_)
      (fun c hc => ?_)
    · rw [← hpost] at hc
      exact List.mem_takeWhile_imp (List.mem_reverse.mp hc)
    · refine head?_dropWhile_isBlank cs c ?_
      rw [hrest, List.head?_append, hc, Option.some_or]
    · rw [trim, List.getLast?_reverse] at hc
      exact head?_dropWhile_isBlank _ c hc
  rwa [hcs] at h

theorem Trimmed.trim_eq (h : Trimmed cs core) : trim cs = core := by
  cases h with
  | @intro pre core post hpre hpost hhead hlast =>
    have hrev : ∀ c ∈ post.reverse, isBlank c = true := fun c hc =>
      hpost c (List.mem_reverse.mp hc)
    rw [trim, List.dropWhile_append_of_pos hpre]
    cases core with
    | nil =>
      have hnil : ([] ++ post).dropWhile isBlank = [] := List.dropWhile_eq_nil_iff.mpr hpost
      rw [hnil]
      rfl
    | cons c core =>
      have hkeep : (c :: core ++ post).dropWhile isBlank = c :: core ++ post :=
        dropWhile_isBlank hhead
      rw [hkeep, List.reverse_append, List.dropWhile_append_of_pos hrev, dropWhile_isBlank,
        List.reverse_reverse]
      intro c hc
      rw [List.head?_reverse] at hc
      exact hlast c hc

/-- **Trimming leaves out the blanks at both ends**, all of them and nothing else. -/
theorem trim_eq_iff : trim cs = core ↔ Trimmed cs core :=
  ⟨fun h => h ▸ trimmed_trim cs, Trimmed.trim_eq⟩

theorem trim_of_not_blank (h : ∀ c ∈ cs, isBlank c = false) : trim cs = cs := by
  have hself : Trimmed ([] ++ (cs ++ [])) cs := .intro nofun nofun
    (fun c hc => h c (List.mem_of_head? hc)) (fun c hc => h c (List.mem_of_getLast? hc))
  rw [List.nil_append, List.append_nil] at hself
  exact hself.trim_eq

end Text

end SchemaSharp
