import Mathlib.Algebra.GroupWithZero.Nat
import Mathlib.Data.List.Basic

/-!
# Overwriting a part of a list

A buffer is filled from its start, piece by piece; what is behind the pieces stays.
-/

namespace FdeEmugl.Overwrite

variable {Item : Type*}

def overwrite (items : List Item) (position : ℕ) (data : List Item) : List Item :=
  items.take position ++ data ++ items.drop (position + data.length)

variable {items data : List Item} {position : ℕ}

theorem length_overwrite (h : position + data.length ≤ items.length) :
    (overwrite items position data).length = items.length := by
  rw [overwrite, List.length_append, List.length_append, List.length_take, List.length_drop]
  omega

/-- What is there up to the end of the piece. -/
theorem take_overwrite (data : List Item) (h : position ≤ items.length) :
    (overwrite items position data).take (position + data.length) = items.take position ++ data := by
  have hlength : (items.take position ++ data).length = position + data.length := by
    rw [List.length_append, List.length_take_of_le h]
  rw [overwrite, ← hlength, List.take_left]

theorem drop_overwrite (data : List Item) (h : position ≤ items.length) :
    (overwrite items position data).drop (position + data.length) = items.drop (position + data.length) := by
  have hlength : (items.take position ++ data).length = position + data.length := by
    rw [List.length_append, List.length_take_of_le h]
  conv_lhs => rw [overwrite, ← hlength, List.drop_left]
  rw [hlength]

/-- The piece ends with the buffer. -/
theorem overwrite_full (h : position + data.length = items.length) :
    overwrite items position data = items.take position ++ data := by
  rw [overwrite, h, List.drop_length, List.append_nil]

end FdeEmugl.Overwrite
