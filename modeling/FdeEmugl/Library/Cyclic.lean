import Mathlib.Data.List.Basic
import Mathlib.Data.List.GetD
import Mathlib.Data.Nat.ModEq
import Mathlib.Tactic.Ring

/-!
# Cyclic windows

A cyclic store keeps a sequence in the cells `position, position + 1, …` taken
modulo its size. `window` reads such a sequence off the cells. The lemmas say
how a window splits, which cells it depends on, and what a copy that is cut in
two at the end of the store leaves behind.
-/

namespace FdeEmugl.Cyclic

open List (map_congr_left mem_range)
open Nat (add_mod mod_eq_of_lt mod_lt)

variable {α : Type*}

/-- The `count` cells from `position` on, in a store of `size` cells. -/
def window (size : ℕ) (cells : ℕ → α) (position count : ℕ) : List α :=
  (List.range count).map fun offset ↦ cells ((position + offset) % size)

variable {size position : ℕ} (values : List α) (fallback : α) {index : ℕ} (cells : ℕ → α) (start : ℕ)
  (source : ℕ → α) (length : ℕ) {offset : ℕ}

section

variable (size : ℕ) (cells : ℕ → α) (position : ℕ)

@[simp] theorem window_zero : window size cells position 0 = [] := rfl

@[simp] theorem length_window (count : ℕ) : (window size cells position count).length = count := by
  simp [window]

theorem window_add (first second : ℕ) : window size cells position (first + second) =
      window size cells position first ++ window size cells (position + first) second := by
  simp [window, List.range_add, Function.comp_def, Nat.add_assoc]

/-- A window grows at its far end by the cell after it. -/
theorem window_succ (count : ℕ) : window size cells position (count + 1) =
      window size cells position count ++ [cells ((position + count) % size)] := by
  simp [window, List.range_succ]

/-- A window starts with the cell at its position. -/
theorem window_succ_eq_cons (count : ℕ) : window size cells position (count + 1) =
      cells (position % size) :: window size cells (position + 1) count := by
  rw [Nat.add_comm count 1, window_add]
  simp [window]

end

theorem window_congr {cells cells' : ℕ → α} {count : ℕ}
    (h : ∀ offset < count, cells ((position + offset) % size) = cells' ((position + offset) % size)) :
    window size cells position count = window size cells' position count := by
  apply map_congr_left
  intro offset hoffset
  exact h offset (mem_range.mp hoffset)

/-- Only the residue of the position matters. -/
theorem window_of_modEq (size : ℕ) (cells : ℕ → α) {position' : ℕ} (count : ℕ)
    (h : position % size = position' % size) :
    window size cells position count = window size cells position' count := by
  apply map_congr_left
  intro offset _
  rw [add_mod position, h, ← add_mod]

/-- A window that does not wrap is a slice. -/
theorem window_getD {count : ℕ} (h : position + count ≤ values.length) :
    window values.length (fun index ↦ values.getD index fallback) position count =
      (values.drop position).take count := by
  apply List.ext_getElem
  · simp only [length_window, List.length_take, List.length_drop]
    omega
  · intro offset hwindow _
    rw [length_window] at hwindow
    simp only [window, List.getElem_map, List.getElem_range, List.getElem_take, List.getElem_drop]
    rw [mod_eq_of_lt (by omega), List.getD_eq_getElem _ _ (by omega)]

/-- A window over the whole store is the store rotated. -/
theorem window_getD_full (h : position < values.length) :
    window values.length (fun index ↦ values.getD index fallback) position values.length =
      values.drop position ++ values.take position := by
  have hsplit : window values.length (fun index ↦ values.getD index fallback) position
      ((values.length - position) + position) = values.drop position ++ values.take position := by
    have hwrap : (position + (values.length - position)) % values.length = 0 % values.length := by
      rw [Nat.add_sub_cancel' h.le, Nat.mod_self, Nat.zero_mod]
    rw [window_add, window_getD _ _ (by omega), window_of_modEq _ _ _ hwrap,
      window_getD _ _ (by omega), List.drop_zero, List.take_of_length_le (by simp)]
  rwa [Nat.sub_add_cancel h.le] at hsplit

/-- Two cells of one lap have different indices. -/
theorem index_ne {first second : ℕ} (hlt : first < second) (hlap : second < first + size) :
    (position + first) % size ≠ (position + second) % size := by
  intro h
  have hmod : first ≡ second [MOD size] := Nat.ModEq.add_left_cancel' position h
  have hdvd : size ∣ second - first := (Nat.modEq_iff_dvd' hlt.le).mp hmod
  have hle : size ≤ second - first := Nat.le_of_dvd (by omega) hdvd
  omega

/-- Writing the cell after a window that is not full leaves the window as it is. -/
theorem window_update_next (size : ℕ) (cells : ℕ → α) (position count : ℕ) (value : α) (h : count < size) :
    window size (Function.update cells ((position + count) % size) value) position count =
      window size cells position count := by
  apply window_congr
  intro offset hoffset
  have hne : (position + offset) % size ≠ (position + count) % size := index_ne hoffset (by omega)
  exact Function.update_of_ne hne value cells

/-- A position less than two laps on is brought back by one subtraction. -/
theorem wrap_eq_mod (h : position < 2 * size) :
    (if position ≥ size then position - size else position) = position % size := by
  split_ifs with hge
  · rw [Nat.mod_eq_sub_mod hge, mod_eq_of_lt (by omega)]
  · rw [mod_eq_of_lt (by omega)]

/-- Setting an entry of a list is an update of its cells. -/
theorem getD_set_eq_update (value : α) (h : index < values.length) :
    (fun other ↦ (values.set index value).getD other fallback) =
      Function.update (fun other ↦ values.getD other fallback) index value := by
  funext other
  by_cases hother : other = index
  · subst hother
    simp [List.getD_eq_getElem?_getD, h]
  · simp [List.getD_eq_getElem?_getD, hother, Ne.symm hother]

/-- `length` cells from `start` on become those of `source`. -/
def copy (cells : ℕ → α) (start : ℕ) (source : ℕ → α) (length : ℕ) : ℕ → α :=
  fun index ↦ if start ≤ index ∧ index < start + length then source (index - start) else cells index

theorem copy_inside (hstart : start ≤ index) (hend : index < start + length) :
    copy cells start source length index = source (index - start) :=
  if_pos ⟨hstart, hend⟩

theorem copy_outside (h : index < start ∨ start + length ≤ index) :
    copy cells start source length index = cells index :=
  if_neg (by omega)

/-- The cells from `start` on, without wrapping. -/
def segment (cells : ℕ → α) (start length : ℕ) : List α := (List.range length).map fun offset ↦ cells (start + offset)

/-- The part of a lap that starts at `position` and fits before the end of the store. -/
def roomAtEnd (size position : ℕ) : ℕ := size - position % size

theorem index_before_end (h : offset < roomAtEnd size position) :
    (position + offset) % size = position % size + offset := by
  unfold roomAtEnd at h
  rw [add_mod]
  rcases Nat.eq_zero_or_pos size with rfl | hsize
  · omega
  · rw [mod_eq_of_lt (a := offset) (by omega), mod_eq_of_lt (by omega)]

theorem index_after_end (hsize : 0 < size) (hroom : roomAtEnd size position ≤ offset) (hlap : offset < size) :
    (position + offset) % size = offset - roomAtEnd size position := by
  have hlt : position % size < size := mod_lt _ hsize
  unfold roomAtEnd at hroom ⊢
  rw [add_mod, mod_eq_of_lt hlap, Nat.mod_eq_sub_mod (by omega), mod_eq_of_lt (by omega)]
  omega

theorem roomAtEnd_wraps (size position : ℕ) (hsize : 0 < size) : (position + roomAtEnd size position) % size = 0 := by
  have hlt : position % size < size := mod_lt _ hsize
  have hsplit : size * (position / size) + position % size = position := Nat.div_add_mod _ _
  have hsum : position + roomAtEnd size position = size * (position / size + 1) := by
    unfold roomAtEnd
    rw [Nat.mul_add, Nat.mul_one]
    omega
  rw [hsum, Nat.mul_mod_right]

/-- A copy into the lap starting at `position`, cut in two at the end of the store. -/
def copySplit (size : ℕ) (cells : ℕ → α) (position : ℕ) (source : ℕ → α) (length : ℕ) : ℕ → α :=
  let atEnd := roomAtEnd size position
  if atEnd < length then
    copy (copy cells (position % size) source atEnd) ((position + atEnd) % size)
      (fun offset ↦ source (atEnd + offset)) (length - atEnd)
  else
    copy cells (position % size) source length

theorem copySplit_of_modEq (size : ℕ) (cells : ℕ → α) {position' : ℕ} (source : ℕ → α) (length : ℕ)
    (h : position % size = position' % size) :
    copySplit size cells position source length = copySplit size cells position' source length := by
  have hroom : roomAtEnd size position = roomAtEnd size position' := by
    unfold roomAtEnd
    rw [h]
  have hwrap : (position + roomAtEnd size position') % size = (position' + roomAtEnd size position') % size := by
    rw [add_mod position, h, ← add_mod]
  simp only [copySplit, hroom, hwrap, h]

/-- A copy out of the lap starting at `position`, cut in two at the end of the store. -/
def readSplit (size : ℕ) (cells : ℕ → α) (position length : ℕ) : List α :=
  let atEnd := roomAtEnd size position
  if atEnd < length then
    segment cells (position % size) atEnd ++ segment cells ((position + atEnd) % size) (length - atEnd)
  else
    segment cells (position % size) length

theorem copySplit_inside {length : ℕ} (hsize : 0 < size) (hlength : length ≤ size) (hoffset : offset < length) :
    copySplit size cells position source length ((position + offset) % size) = source offset := by
  have hpos : position % size < size := mod_lt _ hsize
  have hatEnd : roomAtEnd size position = size - position % size := rfl
  simp only [copySplit, roomAtEnd_wraps size position hsize]
  by_cases hroom : offset < roomAtEnd size position
  · -- Before the cut, where the second copy has not reached.
    rw [index_before_end hroom]
    split_ifs with hcut
    · rw [copy_outside _ _ _ _ (by omega), copy_inside _ _ _ _ (by omega) (by omega), Nat.add_sub_cancel_left]
    · rw [copy_inside _ _ _ _ (by omega) (by omega), Nat.add_sub_cancel_left]
  · rw [index_after_end hsize (by omega) (by omega), if_pos (by omega), copy_inside _ _ _ _ (by omega) (by omega)]
    congr 1
    omega

theorem copySplit_outside {length : ℕ} (hsize : 0 < size) (hoffset : length ≤ offset) (hlap : offset < size) :
    copySplit size cells position source length ((position + offset) % size) =
      cells ((position + offset) % size) := by
  have hpos : position % size < size := mod_lt _ hsize
  have hatEnd : roomAtEnd size position = size - position % size := rfl
  simp only [copySplit, roomAtEnd_wraps size position hsize]
  by_cases hroom : offset < roomAtEnd size position
  · rw [index_before_end hroom, if_neg (by omega), copy_outside _ _ _ _ (by omega)]
  · rw [index_after_end hsize (by omega) hlap]
    split_ifs with hcut
    · rw [copy_outside _ _ _ _ (by omega), copy_outside _ _ _ _ (by omega)]
    · rw [copy_outside _ _ _ _ (by omega)]

/-- The cells a split copy wrote, read as a window, are the source. -/
theorem window_copySplit (position : ℕ) {length : ℕ} (source : ℕ → α) (hsize : 0 < size) (hlength : length ≤ size) :
    window size (copySplit size cells position source length) position length = (List.range length).map source := by
  apply map_congr_left
  intro offset hoffset
  exact copySplit_inside cells source hsize hlength (mem_range.mp hoffset)

/-- A split copy behind a window leaves the window as it is, if both fit in one lap. -/
theorem window_copySplit_behind (position count length : ℕ) (source : ℕ → α) (hsize : 0 < size)
    (hfit : count + length ≤ size) :
    window size (copySplit size cells (position + count) source length) position count =
      window size cells position count := by
  apply window_congr
  intro offset hoffset
  have hlap : (position + offset) % size = (position + count + (offset + size - count)) % size := by
    rw [show position + count + (offset + size - count) = position + offset + size by omega, Nat.add_mod_right]
  rw [hlap]
  exact copySplit_outside cells source hsize (by omega) (by omega)

@[simp] theorem length_segment : (segment cells start length).length = length := by
  simp [segment]

theorem segment_congr {cells cells' : ℕ → α} {start length : ℕ}
    (h : ∀ index < length, cells (start + index) = cells' (start + index)) :
    segment cells start length = segment cells' start length := by
  apply map_congr_left
  intro index hindex
  exact h index (mem_range.mp hindex)

theorem segment_add (first second : ℕ) : segment cells start (first + second) =
      segment cells start first ++ segment cells (start + first) second := by
  simp [segment, List.range_add, Function.comp_def, Nat.add_assoc]

theorem segment_update {start length : ℕ} (value : α) (h : ¬ (start ≤ index ∧ index < start + length)) :
    segment (Function.update cells index value) start length = segment cells start length := by
  apply map_congr_left
  intro offset hoffset
  have hlt := mem_range.mp hoffset
  have hne : start + offset ≠ index := by omega
  exact Function.update_of_ne hne value cells

/-- What is copied behind a segment makes it longer. -/
theorem segment_copy_behind (count : ℕ) (values : List α) (fallback : α) :
    segment (copy cells (start + count) (fun index ↦ values.getD index fallback) values.length) start
      (count + values.length) = segment cells start count ++ values := by
  rw [segment_add]
  congr 1
  · apply segment_congr
    intro index hindex
    exact copy_outside _ _ _ _ (.inl (by omega))
  · apply List.ext_getElem (length_segment _ _ _)
    intro index hindex hvalues
    simp only [segment, List.getElem_map, List.getElem_range]
    rw [copy_inside _ _ _ _ (Nat.le_add_right _ _) (by omega), Nat.add_sub_cancel_left,
      List.getD_eq_getElem values fallback hvalues]

/-- What is copied to the front of the cells. -/
theorem segment_copy_front : segment (copy cells 0 source length) 0 length = segment source 0 length := by
  apply segment_congr
  intro index hindex
  rw [copy_inside _ _ _ _ (by omega) (by omega), Nat.sub_zero]

/-- Before the end of the store nothing wraps. -/
theorem segment_eq_window {count : ℕ} (hcount : count ≤ roomAtEnd size position) :
    segment cells (position % size) count = window size cells position count := by
  apply map_congr_left
  intro offset hoffset
  rw [index_before_end ((mem_range.mp hoffset).trans_le hcount)]

/-- Reading a lap in two parts reads the window. -/
theorem readSplit_eq_window (position : ℕ) {length : ℕ} (hsize : 0 < size) (hlength : length ≤ size) :
    readSplit size cells position length = window size cells position length := by
  unfold readSplit
  by_cases hroom : roomAtEnd size position < length
  · rw [if_pos hroom, segment_eq_window cells le_rfl, roomAtEnd_wraps size position hsize]
    obtain ⟨rest, rfl⟩ := Nat.exists_eq_add_of_le hroom.le
    rw [window_add, Nat.add_sub_cancel_left]
    congr 1
    apply map_congr_left
    intro offset hoffset
    have hlt := mem_range.mp hoffset
    rw [Nat.add_assoc, index_after_end hsize (by omega) (by omega), Nat.zero_add, Nat.add_sub_cancel_left]
  · rw [if_neg hroom]
    exact segment_eq_window cells (by omega)

end FdeEmugl.Cyclic
