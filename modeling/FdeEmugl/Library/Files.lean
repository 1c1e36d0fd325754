import FdeEmugl.Library.Cyclic

/-!
# Files of bytes

A file has a size and a byte at each position below it. Writing at a position lets the file
grow as far as needed; reading stops at the end of the file. A range of the file keeps its bytes as
long as all writes go elsewhere, and one write of two pieces is the same as a write of each.
-/

namespace FdeEmugl.Files

open Cyclic

structure File where
  size : ℕ
  bytes : ℕ → UInt8

namespace File

def empty : File := ⟨0, fun _ ↦ 0⟩

/-- Writing nothing does not let the file grow. -/
def pwrite (file : File) (data : List UInt8) (pos : ℕ) : File where
  size := if data = [] then file.size else max file.size (pos + data.length)
  bytes index :=
    if pos ≤ index ∧ index < pos + data.length then data.getD (index - pos) 0
    else file.bytes index

def pread (file : File) (count pos : ℕ) : List UInt8 := segment file.bytes pos (min count (file.size - pos))

/-- A file that is made longer is filled up with zeros. -/
def setFileSize (file : File) (size : ℕ) : File :=
  ⟨size, fun index ↦ if index < min size file.size then file.bytes index else 0⟩

variable {file : File} {data : List UInt8} {pos : ℕ}

variable {start count : ℕ}

theorem bytes_pwrite_outside {index : ℕ} (h : ¬(pos ≤ index ∧ index < pos + data.length)) :
    (file.pwrite data pos).bytes index = file.bytes index :=
  if_neg h

theorem bytes_pwrite_inside {index : ℕ} (hstart : pos ≤ index) (hend : index < pos + data.length) :
    (file.pwrite data pos).bytes index = data.getD (index - pos) 0 :=
  if_pos ⟨hstart, hend⟩

/-- What was written is read back. -/
theorem segment_pwrite : segment (file.pwrite data pos).bytes pos data.length = data := by
  apply List.ext_getElem (length_segment _ _ _)
  intro index hindex hdata
  simp only [Cyclic.segment, List.getElem_map, List.getElem_range]
  rw [bytes_pwrite_inside (Nat.le_add_right pos index) (by omega), Nat.add_sub_cancel_left,
    List.getD_eq_getElem data 0 hdata]

/-- A range that the write does not touch keeps its bytes. -/
theorem segment_pwrite_outside (h : start + count ≤ pos ∨ pos + data.length ≤ start) :
    segment (file.pwrite data pos).bytes start count = segment file.bytes start count := by
  apply segment_congr
  intro index hindex
  apply bytes_pwrite_outside
  omega

theorem le_size_pwrite (h : data ≠ []) : pos + data.length ≤ (file.pwrite data pos).size := by
  rw [pwrite, if_neg h]
  exact le_max_right _ _

/-- Two pieces that follow each other are written in one go or one after the other. -/
theorem pwrite_append (first second : List UInt8) :
    file.pwrite (first ++ second) pos = (file.pwrite first pos).pwrite second (pos + first.length) := by
  simp only [pwrite, File.mk.injEq, List.append_eq_nil_iff, List.length_append]
  refine ⟨?_, ?_⟩
  · split_ifs with hboth hsecond hfirst hfirst <;> simp_all
    omega
  · funext index
    split_ifs with hinside hsecond hfirst hsecond hfirst <;> try omega
    · rw [List.getD_append_right _ _ _ _ (by omega), Nat.sub_sub]
    · rw [List.getD_append _ _ _ _ (by omega)]
    · rfl

/-- Pieces of data are written to their positions, one after the other. -/
def pwriteAll (file : File) (pieces : List (ℕ × List UInt8)) : File :=
  pieces.foldl (fun file piece ↦ file.pwrite piece.2 piece.1) file

theorem segment_pwriteAll_outside {pieces : List (ℕ × List UInt8)}
    (h : ∀ piece ∈ pieces, start + count ≤ piece.1 ∨ piece.1 + piece.2.length ≤ start) :
    segment (file.pwriteAll pieces).bytes start count = segment file.bytes start count := by
  induction pieces generalizing file with
  | nil => rfl
  | cons piece pieces ih =>
    calc segment (file.pwriteAll (piece :: pieces)).bytes start count
        = segment (file.pwrite piece.2 piece.1).bytes start count :=
          ih fun other hother ↦ h other (List.mem_cons_of_mem _ hother)
      _ = segment file.bytes start count := segment_pwrite_outside (h piece List.mem_cons_self)

/-- Pieces that do not overlap are all there in the end. -/
theorem segment_pwriteAll {pieces : List (ℕ × List UInt8)} {piece : ℕ × List UInt8}
    (happart : pieces.Pairwise fun first second ↦
      first.1 + first.2.length ≤ second.1 ∨ second.1 + second.2.length ≤ first.1)
    (hpiece : piece ∈ pieces) :
    segment (file.pwriteAll pieces).bytes piece.1 piece.2.length = piece.2 := by
  induction pieces generalizing file with
  | nil => cases hpiece
  | cons first pieces ih =>
    obtain ⟨hfirst, hrest⟩ := List.pairwise_cons.mp happart
    obtain rfl | hpiece := List.mem_cons.mp hpiece
    · calc segment (file.pwriteAll (piece :: pieces)).bytes piece.1 piece.2.length
          = segment (file.pwrite piece.2 piece.1).bytes piece.1 piece.2.length :=
            segment_pwriteAll_outside hfirst
        _ = piece.2 := segment_pwrite
    · exact ih hrest hpiece

theorem segment_setFileSize {size : ℕ} (hsize : start + count ≤ size) (hfile : start + count ≤ file.size) :
    segment (file.setFileSize size).bytes start count = segment file.bytes start count := by
  apply segment_congr
  intro index hindex
  exact if_pos (by omega)

theorem pread_eq (h : pos + count ≤ file.size) : file.pread count pos = segment file.bytes pos count := by
  rw [pread, Nat.min_eq_left (by omega)]

end File

end FdeEmugl.Files
