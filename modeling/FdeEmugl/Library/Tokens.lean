import Mathlib.Data.List.Basic

/-!
# Words between separators

The words of a text are what stands between its separators; separators at the ends of the text or next to each other
make no words. A word that is put behind a separator is one more word, without a separator it becomes a part of
the last one.
-/

namespace FdeEmugl.Tokens

variable {Letter : Type*} [DecidableEq Letter] {separator : Letter} {text word : List Letter}
  {parts : List (List Letter)}

def words (separator : Letter) (text : List Letter) : List (List Letter) := (text.splitOn separator).filter (· ≠ [])

@[simp] theorem words_nil (separator : Letter) : words separator [] = [] := by
  rw [words, List.splitOn_nil]
  rfl

theorem words_append_cons (separator : Letter) (first second : List Letter) :
    words separator (first ++ separator :: second) = words separator first ++ words separator second := by
  rw [words, List.splitOn_append_cons_self, List.filter_append, words, words]

@[simp] theorem words_cons_self (separator : Letter) (text : List Letter) :
    words separator (separator :: text) = words separator text := by
  rw [← List.nil_append (separator :: text), words_append_cons, words_nil, List.nil_append]

theorem words_append_separator (separator : Letter) (text : List Letter) :
    words separator (text ++ [separator]) = words separator text := by
  rw [words_append_cons, words_nil, List.append_nil]

/-- A text without separators is one word. -/
theorem words_of_notMem (h : separator ∉ word) (hne : word ≠ []) : words separator word = [word] := by
  rw [words, List.splitOn_eq_singleton h]
  exact List.filter_eq_self.mpr (List.forall_mem_singleton.mpr (decide_eq_true hne))

theorem notMem_of_mem_splitOn (h : word ∈ text.splitOn separator) : separator ∉ word := by
  induction text generalizing word with
  | nil =>
    rw [List.splitOn_nil, List.mem_singleton] at h
    rw [h]
    exact List.not_mem_nil
  | cons letter text ih =>
    obtain ⟨first, rest, hsplit⟩ := List.exists_cons_of_ne_nil (List.splitOn_ne_nil separator text)
    rw [List.splitOn_cons_eq_if_modifyHead, hsplit] at h
    rw [hsplit] at ih
    split_ifs at h with hletter
    · obtain rfl | h := List.mem_cons.mp h
      · exact List.not_mem_nil
      · exact ih h
    · rw [List.modifyHead_cons] at h
      obtain rfl | h := List.mem_cons.mp h
      · intro hmem
        obtain rfl | hmem := List.mem_cons.mp hmem
        · exact hletter (beq_self_eq_true _)
        · exact ih List.mem_cons_self hmem
      · exact ih (List.mem_cons_of_mem _ h)

theorem mem_words (h : word ∈ words separator text) : word ≠ [] ∧ separator ∉ word := by
  obtain ⟨hsplit, hne⟩ := List.mem_filter.mp h
  exact ⟨of_decide_eq_true hne, notMem_of_mem_splitOn hsplit⟩

theorem mem_of_mem_splitOn {letter : Letter} (h : word ∈ text.splitOn separator) (hletter : letter ∈ word) :
    letter ∈ text := by
  induction text generalizing word with
  | nil =>
    rw [List.splitOn_nil, List.mem_singleton] at h
    rwa [h] at hletter
  | cons head text ih =>
    obtain ⟨first, rest, hsplit⟩ := List.exists_cons_of_ne_nil (List.splitOn_ne_nil separator text)
    rw [List.splitOn_cons_eq_if_modifyHead, hsplit] at h
    rw [hsplit] at ih
    split_ifs at h
    · obtain rfl | h := List.mem_cons.mp h
      · exact absurd hletter List.not_mem_nil
      · exact List.mem_cons_of_mem head (ih h hletter)
    · rw [List.modifyHead_cons] at h
      obtain rfl | h := List.mem_cons.mp h
      · obtain rfl | hletter := List.mem_cons.mp hletter
        · exact List.mem_cons_self
        · exact List.mem_cons_of_mem head (ih List.mem_cons_self hletter)
      · exact List.mem_cons_of_mem head (ih (List.mem_cons_of_mem _ h) hletter)

/-- The letters of a word are letters of the text. -/
theorem mem_of_mem_words {letter : Letter} (h : word ∈ words separator text) (hletter : letter ∈ word) :
    letter ∈ text :=
  mem_of_mem_splitOn (List.mem_filter.mp h).1 hletter

/-- Parts with a separator between them. -/
theorem words_intercalate (hne : ∀ part ∈ parts, part ≠ []) (h : ∀ part ∈ parts, separator ∉ part) :
    words separator ([separator].intercalate parts) = parts := by
  cases parts with
  | nil => exact words_nil separator
  | cons part parts =>
    rw [words, List.splitOn_intercalate separator h (List.cons_ne_nil part parts)]
    exact List.filter_eq_self.mpr fun word hword ↦ decide_eq_true (hne word hword)

end FdeEmugl.Tokens
