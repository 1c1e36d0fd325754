import Mathlib.Data.List.Chain

/-!
# Tilings of an interval

A list of pieces tiles an interval when each piece begins where the one before
it ends. If some of the pieces are free and no two neighbours both are, a free
range lies inside one free piece: a range that went on behind the end of a piece
would reach into its neighbour.
-/

namespace FdeEmugl.Tiling

variable {Piece : Type*}

/-- The pieces fill the interval from `first` to `last`, in order, and none is empty. -/
def Tiles (start size : Piece → ℕ) : ℕ → List Piece → ℕ → Prop
  | first, [], last => first = last
  | first, piece :: pieces, last =>
    start piece = first ∧ 0 < size piece ∧ Tiles start size (first + size piece) pieces last

/-- The point is in the piece. -/
def Holds (start size : Piece → ℕ) (piece : Piece) (point : ℕ) : Prop :=
  start piece ≤ point ∧ point < start piece + size piece

/-- No two neighbours are free. -/
def Separated (free : Piece → Bool) (pieces : List Piece) : Prop :=
  pieces.IsChain fun piece next ↦ ¬ (free piece = true ∧ free next = true)

variable {start size : Piece → ℕ} {free : Piece → Bool}
variable {first last point : ℕ} {piece other : Piece} {pieces front back : List Piece}

theorem tiles_append : Tiles start size first (front ++ back) last ↔
    ∃ middle, Tiles start size first front middle ∧ Tiles start size middle back last := by
  induction front generalizing first with
  | nil => simp [Tiles]
  | cons piece front ih =>
    rw [List.cons_append, Tiles, ih]
    constructor
    · rintro ⟨hstart, hsize, middle, hfront, hback⟩
      exact ⟨middle, ⟨hstart, hsize, hfront⟩, hback⟩
    · rintro ⟨middle, ⟨hstart, hsize, hfront⟩, hback⟩
      exact ⟨hstart, hsize, middle, hfront, hback⟩

theorem Tiles.le (h : Tiles start size first pieces last) : first ≤ last := by
  induction pieces generalizing first with
  | nil => exact le_of_eq h
  | cons piece pieces ih =>
    obtain ⟨_, _, hrest⟩ := h
    have hle := ih hrest
    omega

/-- Pieces that fill the same interval can stand in for each other. -/
theorem Tiles.replace {middle : List Piece} (h : Tiles start size first (front ++ middle ++ back) last)
    (others : List Piece)
    (hothers : ∀ low high, high ≤ last → Tiles start size low middle high → Tiles start size low others high) :
    Tiles start size first (front ++ others ++ back) last := by
  obtain ⟨high, hfront, hback⟩ := tiles_append.mp h
  obtain ⟨low, hfront, hmiddle⟩ := tiles_append.mp hfront
  refine tiles_append.mpr ⟨high, tiles_append.mpr ⟨low, hfront, ?_⟩, hback⟩
  exact hothers low high hback.le hmiddle

section

variable (h : Tiles start size first pieces last)
include h

theorem Tiles.bounds (hpiece : piece ∈ pieces) :
    first ≤ start piece ∧ 0 < size piece ∧ start piece + size piece ≤ last := by
  obtain ⟨front, back, rfl⟩ := List.append_of_mem hpiece
  obtain ⟨middle, hfront, hstart, hsize, hback⟩ := tiles_append.mp h
  have hle := hfront.le
  have hle' := hback.le
  omega

theorem Tiles.pairwise :
    pieces.Pairwise fun piece other ↦ 0 < size piece ∧ start piece + size piece ≤ start other := by
  induction pieces generalizing first with
  | nil => exact List.Pairwise.nil
  | cons piece pieces ih =>
    obtain ⟨hstart, hsize, hrest⟩ := h
    refine List.pairwise_cons.mpr ⟨?_, ih hrest⟩
    intro other hother
    have hbound := (hrest.bounds hother).1
    omega

theorem Tiles.starts_nodup : (pieces.map start).Nodup := by
  refine List.pairwise_map.mpr (h.pairwise.imp ?_)
  intro piece other hapart heq
  omega

/-- A point is in one piece only. -/
theorem Tiles.eq_of_holds (hpiece : piece ∈ pieces) (hother : other ∈ pieces)
    (hholds : Holds start size piece point) (hholds' : Holds start size other point) : piece = other := by
  obtain ⟨hle, hlt⟩ := hholds
  obtain ⟨hle', hlt'⟩ := hholds'
  induction pieces generalizing first with
  | nil => cases hpiece
  | cons head pieces ih =>
    obtain ⟨hstart, _, hrest⟩ := h
    rcases List.mem_cons.mp hpiece with rfl | hmem <;> rcases List.mem_cons.mp hother with rfl | hmem'
    · rfl
    · have hbound := (hrest.bounds hmem').1
      omega
    · have hbound := (hrest.bounds hmem).1
      omega
    · exact ih hrest hmem hmem'

end

/-- What the neighbours of a piece must be. -/
theorem separated_around : Separated free (front ++ piece :: back) ↔
    Separated free front ∧ Separated free back ∧ (free piece = true →
      (∀ before ∈ front.getLast?, free before = false) ∧ ∀ after ∈ back.head?, free after = false) := by
  rw [Separated, List.isChain_append, List.isChain_cons]
  constructor
  · rintro ⟨hfront, ⟨hafter, hback⟩, hbefore⟩
    refine ⟨hfront, hback, fun hpiece ↦ ⟨?_, ?_⟩⟩
    · intro before hlast
      exact eq_false_of_ne_true fun hfree ↦ hbefore before hlast piece rfl ⟨hfree, hpiece⟩
    · intro after hhead
      exact eq_false_of_ne_true fun hfree ↦ hafter after hhead ⟨hpiece, hfree⟩
  · rintro ⟨hfront, hback, hpiece⟩
    refine ⟨hfront, ⟨?_, hback⟩, ?_⟩
    · rintro after hhead ⟨hfree, hafter⟩
      rw [(hpiece hfree).2 after hhead] at hafter
      cases hafter
    · rintro before hlast after hhead ⟨hbefore, hafter⟩
      cases hhead
      rw [(hpiece hafter).1 before hlast] at hbefore
      cases hbefore

/-- A range whose every point is in a free piece. -/
def FreeRange (start size : Piece → ℕ) (free : Piece → Bool) (pieces : List Piece) (from' length : ℕ) : Prop :=
  ∀ point, from' ≤ point → point < from' + length → ∃ piece ∈ pieces, free piece = true ∧ Holds start size piece point

/-- A free range lies inside one free piece. -/
theorem Tiles.exists_free_piece (h : Tiles start size first pieces last)
    (hseparated : Separated free pieces) {from' length : ℕ} (hlength : 0 < length)
    (hrange : FreeRange start size free pieces from' length) :
    ∃ piece ∈ pieces, free piece = true ∧ length ≤ size piece := by
  obtain ⟨piece, hpiece, hfree, hle, hlt⟩ := hrange from' le_rfl (by omega)
  refine ⟨piece, hpiece, hfree, ?_⟩
  by_contra hshort
  -- the point behind the end of the piece is in the next piece, which is not free
  obtain ⟨front, back, rfl⟩ := List.append_of_mem hpiece
  obtain ⟨next, hnext, hfree', hle', hlt'⟩ := hrange (start piece + size piece) (by omega) (by omega)
  obtain ⟨middle, hfront, hstart, hsize, hback⟩ := tiles_append.mp h
  have hlast := (h.bounds hnext).2.2
  cases back with
  | nil =>
    have heq : middle + size piece = last := hback
    omega
  | cons neighbour back =>
    have hmem : neighbour ∈ front ++ piece :: neighbour :: back := by simp
    obtain ⟨hstart', hsize', _⟩ := hback
    have hholds : Holds start size neighbour (start piece + size piece) := ⟨by omega, by omega⟩
    have hsame : next = neighbour := h.eq_of_holds hnext hmem ⟨hle', hlt'⟩ hholds
    have hapart := (List.isChain_append_cons_cons.mp hseparated).2.1
    exact hapart ⟨hfree, hsame ▸ hfree'⟩

theorem freeRange_of_piece (start size : Piece → ℕ) (hpiece : piece ∈ pieces) (hfree : free piece = true) :
    FreeRange start size free pieces (start piece) (size piece) :=
  fun _ hle hlt ↦ ⟨piece, hpiece, hfree, hle, hlt⟩

end FdeEmugl.Tiling
