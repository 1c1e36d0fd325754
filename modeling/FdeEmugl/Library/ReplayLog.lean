import Mathlib.Data.List.DropRight

/-!
# Logs that start over

A log that is kept for a later replay. Some entries only start it over (marks), some start
it over and are its first entry (fresh ones), and an entry that repeats the one right
before it is passed over. A reader of the whole history would start with the last fresh
entry, whatever marks come after it.
-/

namespace FdeEmugl.ReplayLog

/-- What a log makes of its entries. Who repeats an entry repeats what that one repeats. -/
structure Policy (Entry : Type*) where
  isMark : Entry → Bool
  isFresh : Entry → Bool
  repeats : Entry → Entry → Bool
  fresh_not_mark : ∀ entry, isFresh entry = true → isMark entry = false
  repeats_trans : ∀ first second, repeats first second = true → ∀ third, repeats second third = repeats first third

namespace Policy

variable {Entry : Type*} (policy : Policy Entry)

def record (log : List Entry) (entry : Entry) : List Entry :=
  if policy.isMark entry then []
  else if policy.isFresh entry then [entry]
  else if log.getLast?.any (policy.repeats · entry) then log
  else log ++ [entry]

/-- The history from its last fresh entry on, all of it if there is none. -/
def sinceFresh : List Entry → List Entry
  | [] => []
  | entry :: rest => if rest.any policy.isFresh then sinceFresh rest else entry :: rest

/-- The entry right before the next one, unless it is a mark. -/
def lastSeen : Option Entry → List Entry → Option Entry
  | previous, [] => previous
  | _, entry :: rest => lastSeen (if policy.isMark entry then none else some entry) rest

/-- Without marks and without repetitions of the entry right before. -/
def kept : Option Entry → List Entry → List Entry
  | _, [] => []
  | previous, entry :: rest =>
    if policy.isMark entry then kept none rest
    else if previous.any (policy.repeats · entry) then kept (some entry) rest
    else entry :: kept (some entry) rest

/-- The entries behind the last mark. -/
def sinceMark (history : List Entry) : List Entry := history.rtakeWhile fun entry ↦ !policy.isMark entry

/-- The entries up to the last mark. -/
def uptoMark (history : List Entry) : List Entry := history.rdropWhile fun entry ↦ !policy.isMark entry

end Policy

open Policy

section SinceFresh

variable {Entry : Type*} {policy : Policy Entry} {history rest : List Entry} {entry : Entry}

theorem sinceFresh_concat_fresh (h : policy.isFresh entry = true) (history : List Entry) :
    policy.sinceFresh (history ++ [entry]) = [entry] := by
  induction history with
  | nil => rfl
  | cons first history ih =>
    rw [List.cons_append, sinceFresh, if_pos (by simp [h]), ih]

/-- What is not fresh only goes behind. -/
theorem sinceFresh_append (h : ∀ entry ∈ rest, policy.isFresh entry = false) (history : List Entry) :
    policy.sinceFresh (history ++ rest) = policy.sinceFresh history ++ rest := by
  have hnone : rest.any policy.isFresh = false := by simpa using h
  induction history with
  | nil =>
    cases rest with
    | nil => rfl
    | cons first rest =>
      have hrest : rest.any policy.isFresh = false := by
        rw [List.any_cons, Bool.or_eq_false_iff] at hnone
        exact hnone.2
      simp [sinceFresh, hrest]
  | cons first history ih =>
    rw [List.cons_append, sinceFresh, sinceFresh, List.any_append, hnone, Bool.or_false, ih]
    split_ifs <;> rfl

theorem sinceFresh_append_of_fresh (h : ∃ entry ∈ rest, policy.isFresh entry = true) (history : List Entry) :
    policy.sinceFresh (history ++ rest) = policy.sinceFresh rest := by
  induction history with
  | nil => rfl
  | cons first history ih =>
    have hany : (history ++ rest).any policy.isFresh = true := by
      rw [List.any_append, List.any_eq_true.mpr h, Bool.or_true]
    rw [List.cons_append, sinceFresh, if_pos hany, ih]

theorem sinceFresh_eq_self (h : ∀ entry ∈ history, policy.isFresh entry = false) :
    policy.sinceFresh history = history := by
  simpa [sinceFresh] using sinceFresh_append h []

theorem fresh_mem_sinceFresh (h : ∃ entry ∈ history, policy.isFresh entry = true) :
    ∃ entry ∈ policy.sinceFresh history, policy.isFresh entry = true := by
  induction history with
  | nil =>
    obtain ⟨entry, hmem, _⟩ := h
    cases hmem
  | cons first history ih =>
    rw [sinceFresh]
    split_ifs with hany
    · exact ih (List.any_eq_true.mp hany)
    · exact h

theorem sinceFresh_suffix (history : List Entry) : policy.sinceFresh history <:+ history := by
  induction history with
  | nil => exact List.suffix_rfl
  | cons first history ih =>
    rw [sinceFresh]
    split_ifs
    · exact ih.trans (List.suffix_cons first history)
    · exact List.suffix_rfl

theorem sinceFresh_ne_nil (h : history ≠ []) : policy.sinceFresh history ≠ [] := by
  induction history with
  | nil => exact h
  | cons first history ih =>
    rw [sinceFresh]
    split_ifs with hany
    · refine ih ?_
      rintro rfl
      cases hany
    · exact List.cons_ne_nil first history

end SinceFresh

section Kept

variable {Entry : Type*} {policy : Policy Entry} {history rest : List Entry} {entry : Entry} {previous : Option Entry}

theorem lastSeen_concat (previous : Option Entry) (history : List Entry) (entry : Entry) :
    policy.lastSeen previous (history ++ [entry]) = if policy.isMark entry then none else some entry := by
  induction history generalizing previous with
  | nil => rfl
  | cons first history ih => exact ih _

theorem kept_append (previous : Option Entry) (history rest : List Entry) : policy.kept previous (history ++ rest) =
      policy.kept previous history ++ policy.kept (policy.lastSeen previous history) rest := by
  induction history generalizing previous with
  | nil => rfl
  | cons first history ih =>
    rw [List.cons_append, kept, kept, lastSeen]
    split_ifs
    · exact ih none
    · exact ih (some first)
    · rw [ih (some first), List.cons_append]

theorem kept_eq_nil : policy.kept none history = [] ↔ ∀ entry ∈ history, policy.isMark entry = true := by
  induction history with
  | nil => simp [kept]
  | cons first history ih =>
    rw [kept]
    by_cases hmark : policy.isMark first = true
    · simp [hmark, ih]
    · simp [hmark]

theorem lastSeen_of_no_marks (h : ∀ entry ∈ history, policy.isMark entry = false) :
    policy.lastSeen none history = history.getLast? := by
  induction history using List.reverseRecOn with
  | nil => rfl
  | append_singleton history last _ =>
    have hlast : policy.isMark last = false := h last (by simp)
    rw [lastSeen_concat, hlast, List.getLast?_concat]
    rfl

theorem kept_concat (hmarks : ∀ entry ∈ history, policy.isMark entry = false) (hentry : policy.isMark entry = false) :
    policy.kept none (history ++ [entry]) =
      if history.getLast?.any (policy.repeats · entry) then policy.kept none history
      else policy.kept none history ++ [entry] := by
  rw [kept_append, lastSeen_of_no_marks hmarks, kept, hentry, if_neg Bool.false_ne_true]
  split_ifs
  · exact List.append_nil _
  · rfl

theorem lastSeen_suffix (hsuffix : rest <:+ history) (hne : rest ≠ []) :
    policy.lastSeen none rest = policy.lastSeen none history := by
  obtain ⟨before, rfl⟩ := hsuffix
  obtain ⟨init, last, rfl⟩ := (List.eq_nil_or_concat rest).resolve_left hne
  rw [List.concat_eq_append, ← List.append_assoc, lastSeen_concat, lastSeen_concat]

/-- The last entry that is kept repeats as the last one does. -/
theorem getLast?_kept (hmarks : ∀ entry ∈ history, policy.isMark entry = false) (entry : Entry) :
    (policy.kept none history).getLast?.any (policy.repeats · entry) =
      history.getLast?.any (policy.repeats · entry) := by
  induction history using List.reverseRecOn generalizing entry with
  | nil => rfl
  | append_singleton history last ih =>
    have hlast : policy.isMark last = false := hmarks last (by simp)
    have hbefore : ∀ entry ∈ history, policy.isMark entry = false :=
      fun entry hmem ↦ hmarks entry (List.mem_append_left _ hmem)
    rw [kept_concat hbefore hlast, List.getLast?_concat]
    split_ifs with hrepeats
    · rw [ih hbefore]
      obtain ⟨second, hsecond, hsame⟩ := (Option.any_eq_true _ _).mp hrepeats
      rw [hsecond]
      exact (policy.repeats_trans second last hsame entry).symm
    · rw [List.getLast?_concat]

end Kept

section Log

variable {Entry : Type*} {policy : Policy Entry} {history : List Entry}

variable {entry : Entry}

theorem not_mark_of_mem_sinceMark (h : entry ∈ policy.sinceMark history) : policy.isMark entry = false := by
  simpa using List.mem_rtakeWhile_imp h

theorem sinceMark_concat_mark (h : policy.isMark entry = true) : policy.sinceMark (history ++ [entry]) = [] :=
  List.rtakeWhile_concat_neg _ _ _ (by simp [h])

theorem sinceMark_concat (h : policy.isMark entry = false) :
    policy.sinceMark (history ++ [entry]) = policy.sinceMark history ++ [entry] :=
  List.rtakeWhile_concat_pos _ _ _ (by simp [h])

/-- The log holds what a reader would keep who knows only what follows the last mark. -/
theorem foldl_record (history : List Entry) :
    history.foldl policy.record [] = policy.kept none (policy.sinceFresh (policy.sinceMark history)) := by
  induction history using List.reverseRecOn with
  | nil => rfl
  | append_singleton history entry ih =>
    rw [List.foldl_concat, ih, record]
    split_ifs with hmark hfresh hrepeats
    · rw [sinceMark_concat_mark hmark]
      rfl
    · rw [sinceMark_concat (policy.fresh_not_mark entry hfresh), sinceFresh_concat_fresh hfresh]
      simp [kept, hmark]
    all_goals
      have hentry : policy.isMark entry = false := by simpa using hmark
      have hstale : ∀ other ∈ [entry], policy.isFresh other = false := by simpa using hfresh
      have hmarks : ∀ other ∈ policy.sinceFresh (policy.sinceMark history), policy.isMark other = false :=
        fun other hmem ↦ not_mark_of_mem_sinceMark ((sinceFresh_suffix _).subset hmem)
      rw [sinceMark_concat hentry, sinceFresh_append hstale, kept_concat hmarks hentry]
      rw [getLast?_kept hmarks] at hrepeats
      simp [hrepeats]

theorem uptoMark_append_sinceMark (policy : Policy Entry) (history : List Entry) :
    policy.uptoMark history ++ policy.sinceMark history = history :=
  List.rdropWhile_append_rtakeWhile ..

/-- What comes before the log starts over ends with a mark. -/
theorem lastSeen_uptoMark (history : List Entry) : policy.lastSeen none (policy.uptoMark history) = none := by
  induction history using List.reverseRecOn with
  | nil => rfl
  | append_singleton history entry ih =>
    by_cases hmark : policy.isMark entry = true
    · rw [uptoMark, List.rdropWhile_concat_neg _ _ _ (by simp [hmark]), lastSeen_concat, hmark]
      rfl
    · rw [uptoMark, List.rdropWhile_concat_pos _ _ _ (by simp [hmark])]
      exact ih

theorem lastSeen_sinceFresh_uptoMark (history : List Entry) :
    policy.lastSeen none (policy.sinceFresh (policy.uptoMark history)) = none := by
  obtain hnil | hne := eq_or_ne (policy.uptoMark history) []
  · rw [hnil]
    rfl
  · exact (lastSeen_suffix (sinceFresh_suffix _) (sinceFresh_ne_nil hne)).trans (lastSeen_uptoMark history)

/-- With nothing fresh behind the last mark the log is the end of what should be kept. -/
theorem kept_eq_append (h : ∀ entry ∈ policy.sinceMark history, policy.isFresh entry = false) :
    policy.kept none (policy.sinceFresh history) =
      policy.kept none (policy.sinceFresh (policy.uptoMark history)) ++ history.foldl policy.record [] := by
  conv_lhs => rw [← uptoMark_append_sinceMark policy history]
  rw [sinceFresh_append h, kept_append, lastSeen_sinceFresh_uptoMark, foldl_record, sinceFresh_eq_self h]

theorem kept_eq_of_fresh (h : ∃ entry ∈ policy.sinceMark history, policy.isFresh entry = true) :
    policy.kept none (policy.sinceFresh history) = history.foldl policy.record [] := by
  conv_lhs => rw [← uptoMark_append_sinceMark policy history]
  rw [sinceFresh_append_of_fresh h, foldl_record]

/-- A history from its last fresh entry on has nothing to keep only if all of it are marks. -/
theorem kept_sinceFresh_eq_nil :
    policy.kept none (policy.sinceFresh history) = [] ↔ ∀ entry ∈ history, policy.isMark entry = true := by
  rw [kept_eq_nil]
  constructor
  · intro hmarks
    by_cases hany : ∃ entry ∈ history, policy.isFresh entry = true
    · obtain ⟨entry, hmem, hfresh⟩ := fresh_mem_sinceFresh hany
      have hcontra := (hmarks entry hmem).symm.trans (policy.fresh_not_mark entry hfresh)
      cases hcontra
    · rwa [sinceFresh_eq_self (by simpa using hany)] at hmarks
  · exact fun hmarks entry hmem ↦ hmarks entry ((sinceFresh_suffix _).subset hmem)

/-- The log is what a reader of the whole history would keep exactly if something fresh follows
the last mark or nothing but marks comes before. -/
theorem kept_eq_foldl_record_iff (policy : Policy Entry) (history : List Entry) :
    policy.kept none (policy.sinceFresh history) = history.foldl policy.record [] ↔
      (∃ entry ∈ policy.sinceMark history, policy.isFresh entry = true) ∨
        ∀ entry ∈ policy.uptoMark history, policy.isMark entry = true := by
  by_cases hfresh : ∃ entry ∈ policy.sinceMark history, policy.isFresh entry = true
  · exact iff_of_true (kept_eq_of_fresh hfresh) (.inl hfresh)
  · rw [or_iff_right hfresh, kept_eq_append (by simpa using hfresh), List.append_left_eq_self, kept_sinceFresh_eq_nil]

/-- The log is never longer than what should be kept. -/
theorem kept_eq_of_length_le
    (h : (policy.kept none (policy.sinceFresh history)).length ≤ (history.foldl policy.record []).length) :
    policy.kept none (policy.sinceFresh history) = history.foldl policy.record [] := by
  by_cases hfresh : ∃ entry ∈ policy.sinceMark history, policy.isFresh entry = true
  · exact kept_eq_of_fresh hfresh
  · have happend := kept_eq_append (by simpa using hfresh)
    rw [happend, List.length_append] at h
    rw [happend, List.append_left_eq_self]
    exact List.eq_nil_of_length_eq_zero (by omega)

end Log

end FdeEmugl.ReplayLog
