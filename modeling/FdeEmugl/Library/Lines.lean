import Mathlib.Data.List.Basic

/-!
# Lines of a text

A newline ends a line. The last line need not have one, but a text that ends with a newline has no line behind it.
-/

namespace FdeEmugl.Lines

variable {Letter : Type*} [DecidableEq Letter] {newline : Letter} {line text : List Letter}
  {texts : List (List Letter)}

def lines (newline : Letter) : List Letter → List (List Letter)
  | [] => []
  | letter :: text =>
    if letter = newline then [] :: lines newline text
    else match lines newline text with
      | [] => [[letter]]
      | line :: rest => (letter :: line) :: rest

def unlines (newline : Letter) (texts : List (List Letter)) : List Letter :=
  texts.flatMap fun line ↦ line ++ [newline]

theorem lines_append (h : newline ∉ line) (text : List Letter) :
    lines newline (line ++ newline :: text) = line :: lines newline text := by
  induction line with
  | nil => rw [List.nil_append, lines, if_pos rfl]
  | cons letter line ih =>
    have hne : letter ≠ newline := (List.ne_of_not_mem_cons h).symm
    rw [List.cons_append, lines, if_neg hne, ih (List.not_mem_of_not_mem_cons h)]

/-- Lines that were put together are found again. -/
theorem lines_unlines (h : ∀ line ∈ texts, newline ∉ line) : lines newline (unlines newline texts) = texts := by
  induction texts with
  | nil => rfl
  | cons line texts ih =>
    obtain ⟨hline, htexts⟩ := List.forall_mem_cons.mp h
    rw [unlines, List.flatMap_cons, List.append_assoc, List.singleton_append, lines_append hline]
    exact congrArg _ (ih htexts)

theorem notMem_of_mem_lines (h : line ∈ lines newline text) : newline ∉ line := by
  induction text generalizing line with
  | nil => cases h
  | cons letter text ih =>
    rw [lines] at h
    split_ifs at h with hletter
    · obtain rfl | h := List.mem_cons.mp h
      · exact List.not_mem_nil
      · exact ih h
    · cases hrest : lines newline text with
      | nil =>
        rw [hrest] at h
        rw [List.mem_singleton.mp h]
        exact fun hmem ↦ hletter (List.mem_singleton.mp hmem).symm
      | cons first rest =>
        rw [hrest] at h ih
        obtain rfl | h := List.mem_cons.mp h
        · exact List.not_mem_cons_of_ne_of_not_mem (Ne.symm hletter) (ih List.mem_cons_self)
        · exact ih (List.mem_cons_of_mem _ h)

end FdeEmugl.Lines
