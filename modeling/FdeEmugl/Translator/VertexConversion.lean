import FdeEmugl.Translator.FixedPoint
import FdeEmugl.Translator.GLESbuffer
import Mathlib.Order.CompletePartialOrder

/-!
# Conversion of vertices in their buffer

Before a draw the vertices of a buffer that were written since they were last converted are converted in place. The
bytes that are drawn go through the ranges of the buffer, and what comes back is turned into indices of vertices
again. Of a vertex that was written in part only, the bytes count as converted, but are not.
-/

namespace FdeEmugl.FixedArrays

open Ranges
open List (mem_map mem_range not_mem_nil)

/-! ## The code -/

/-- A pointer into a buffer of fixed-point numbers. A stride of 0 means that vertices are next to each other. -/
structure GLESpointer where
  m_size : ℕ
  m_stride : ℕ
  m_buffOffset : ℕ
  size_pos : 0 < m_size
  size_le : m_size ≤ 4
  stride_le : m_stride = 0 ∨ m_size * 4 ≤ m_stride
  stride_lt : m_stride < 2 ^ 31
  offset_lt : m_buffOffset < 2 ^ 32

namespace GLESpointer

variable (p : GLESpointer)

def attribSize : ℕ := p.m_size * 4

def stride : ℕ := if p.m_stride ≠ 0 then p.m_stride else p.attribSize

end GLESpointer

/-- The turns of the loop for vertices with a stride. -/
def strideRanges (stride attribSize : ℤ) : ℕ → ℤ → RangeList → RangeList
  | 0, _, list => list
  | count + 1, start, list =>
    strideRanges stride attribSize count (toInt (start + stride))
      (RangeList.addRange list (Range.make start attribSize))

def directToBytesRanges (first : ℤ) (count : ℕ) (p : GLESpointer) (list : RangeList) : RangeList :=
  let start := toInt (p.m_buffOffset + first * p.stride)
  if p.m_stride = 0 then RangeList.addRange list (Range.make start (toInt (count * p.attribSize)))
  else strideRanges p.stride p.attribSize count start list

def indirectToBytesRanges (indices : ℕ → UInt8) (indices_type : IndicesType) (count : ℕ) (p : GLESpointer)
    (list : RangeList) : RangeList :=
  (List.range count).foldl
    (fun list i ↦ RangeList.addRange list
      (Range.make (toInt (p.m_buffOffset + getIndex indices_type indices i * p.stride)) p.attribSize))
    list

/-- The turn of a range in `bytesRangesToIndices`. Indices are `GLuint`s. -/
def rangeToIndices (p : GLESpointer) (range : Range) : List ℕ :=
  let startIndex := (range.m_start - toInt p.m_buffOffset).tdiv p.stride
  let nElements := range.m_size.tdiv p.attribSize
  (List.range nElements.toNat).map fun j : ℕ ↦ ((startIndex + j) % 2 ^ 32).toNat

def bytesRangesToIndices (ranges : RangeList) (p : GLESpointer) : List ℕ := ranges.flatMap (rangeToIndices p)

/-- What is drawn. Callers let no negative number of vertices through. -/
inductive Draw where
  | arrays (first : ℤ) (count : ℕ)
  | elements (count : ℕ) (indices_type : IndicesType) (indices : ℕ → UInt8)

namespace Draw

def count : Draw → ℕ
  | arrays _ count => count
  | elements count _ _ => count

def toBytesRanges (p : GLESpointer) : Draw → RangeList
  | arrays first count => directToBytesRanges first count p []
  | elements count indices_type indices => indirectToBytesRanges indices indices_type count p []

end Draw

/-- `convertDirectVBO` and `convertIndirectVBO`, with the indices that were stored. -/
def convertVBO (fuel : ℕ) (draw : Draw) (p : GLESpointer) (buffer : GLESbuffer) : Option (GLESbuffer × List ℕ) :=
  if buffer.m_conversionManager.length ≠ 0 then
    (buffer.getConversions fuel (draw.toBytesRanges p) []).bind fun (buffer, conversions) ↦
      if conversions.length ≠ 0 then
        let indices := bytesRangesToIndices conversions p
        some ({ buffer with
          m_data := convertFixedIndirectLoop p.m_buffOffset p.stride p.m_buffOffset indices p.stride p.m_size
            buffer.m_data }, indices)
      else some (buffer, [])
  else some (buffer, [])

/-! ## Vertices -/

namespace GLESpointer

variable (p : GLESpointer)

def place (i : ℤ) : ℤ := p.m_buffOffset + i * p.stride

/-- The bytes of a vertex. -/
def vertex (i : ℤ) : Set ℤ := Set.Ico (p.place i) (p.place i + p.attribSize)

def component (i : ℤ) (j : ℕ) : ℤ := p.place i + 4 * j

end GLESpointer

namespace Draw

/-- The indices of the vertices that are drawn. -/
def drawn : Draw → List ℤ
  | arrays first count => (List.range count).map fun i : ℕ ↦ first + i
  | elements count indices_type indices => (List.range count).map fun i : ℕ ↦ (getIndex indices_type indices i : ℤ)

theorem length_drawn (draw : Draw) : draw.drawn.length = draw.count := by
  cases draw <;> rw [drawn, List.length_map, List.length_range, count]

end Draw

section Vertices

variable {p : GLESpointer} {i other b : ℤ} {j : ℕ}

theorem attribSize_pos : 0 < p.attribSize := Nat.mul_pos p.size_pos (by decide)

theorem attribSize_le_stride : p.attribSize ≤ p.stride := by
  unfold GLESpointer.stride
  split_ifs with hstride
  · exact p.stride_le.resolve_left hstride
  · exact Nat.le_refl _

theorem mem_vertex : b ∈ p.vertex i ↔ p.place i ≤ b ∧ b < p.place i + p.attribSize := Iff.rfl

theorem place_mem_vertex : p.place i ∈ p.vertex i := by
  have hpos := attribSize_pos (p := p)
  rw [mem_vertex]
  omega

theorem place_add (i : ℤ) (n : ℤ) : p.place (i + n) = p.place i + n * p.stride := by
  rw [GLESpointer.place, GLESpointer.place, Int.add_mul, Int.add_assoc]

/-- A vertex ends where the next one begins, or before. -/
theorem place_add_le (hlt : i < other) :
    p.place i + p.attribSize ≤ p.place i + p.stride ∧ p.place i + p.stride ≤ p.place other := by
  have hsize := attribSize_le_stride (p := p)
  have hmul : (1 : ℤ) * p.stride ≤ (other - i) * p.stride := Int.mul_le_mul_of_nonneg_right (by omega) (by omega)
  have hother := place_add (p := p) i (other - i)
  have hback : i + (other - i) = other := by omega
  rw [hback] at hother
  omega

theorem place_lt_iff : p.place i < p.place other ↔ i < other := by
  have hpos := attribSize_pos (p := p)
  refine ⟨fun hlt ↦ ?_, fun hlt ↦ ?_⟩
  · by_contra hge
    obtain heq | hgt := Int.lt_or_eq_of_le (Int.not_lt.mp hge)
    · have hle := place_add_le (p := p) heq
      omega
    · rw [hgt] at hlt
      omega
  · have hle := place_add_le (p := p) hlt
    omega

theorem place_le_iff : p.place i ≤ p.place other ↔ i ≤ other := by
  rw [← Int.not_lt, place_lt_iff, Int.not_lt]

theorem lt_of_place {bound : ℤ} (hi : 0 ≤ i) (hplace : p.place i + p.attribSize < bound) : i < bound := by
  have hpos := attribSize_pos (p := p)
  have hsize := attribSize_le_stride (p := p)
  have hmul : i * 1 ≤ i * (p.stride : ℤ) := Int.mul_le_mul_of_nonneg_left (by omega) hi
  rw [GLESpointer.place] at hplace
  omega

/-- Vertices have no bytes in common. -/
theorem vertex_unique (hi : b ∈ p.vertex i) (hother : b ∈ p.vertex other) : i = other := by
  rw [mem_vertex] at hi hother
  obtain hlt | heq | hgt := Int.lt_trichotomy i other
  · have hle := place_add_le (p := p) hlt
    omega
  · exact heq
  · have hle := place_add_le (p := p) hgt
    omega

end Vertices

/-! ## The ranges of a draw -/

/-- The vertices are in a buffer. -/
def InBuffer (p : GLESpointer) (size : ℕ) (drawn : List ℤ) : Prop :=
  ∀ i ∈ drawn, 0 ≤ i ∧ p.place i + p.attribSize ≤ size

/-- The ranges are those of the bytes that are drawn. -/
structure Requests (p : GLESpointer) (drawn : List ℤ) (ranges : RangeList) : Prop where
  inBytes : InBytes ranges
  mem_iff : ∀ b, b ∈ points ranges ↔ ∃ i ∈ drawn, b ∈ p.vertex i

/-- The range of one vertex. -/
def vertexRange (p : GLESpointer) (i : ℤ) : Range := ⟨p.place i, p.place i + p.attribSize, p.attribSize⟩

section Requests

variable {p : GLESpointer} {size : ℕ} {drawn : List ℤ} {i : ℤ}

theorem place_nonneg (hi : 0 ≤ i) : 0 ≤ p.place i := by
  have hmul : 0 ≤ i * p.stride := Int.mul_nonneg hi (by omega)
  rw [GLESpointer.place]
  omega

theorem InBuffer.bounds (h : InBuffer p size drawn) (hi : i ∈ drawn) :
    0 ≤ p.place i ∧ p.place i + p.attribSize ≤ size :=
  ⟨place_nonneg (h i hi).1, (h i hi).2⟩

theorem make_vertexRange (hnonneg : 0 ≤ p.place i) (hle : p.place i + p.attribSize < 2 ^ 31) (list : RangeList) :
    RangeList.addRange list (Range.make (toInt (p.place i)) p.attribSize) = list ++ [vertexRange p i] := by
  have hpos := attribSize_pos (p := p)
  have hstart : toInt (p.place i) = p.place i := toInt_eq (by omega) (by omega)
  have hend : toInt (p.place i + p.attribSize) = p.place i + p.attribSize := toInt_eq (by omega) hle
  rw [hstart, Range.make, hend, RangeList.addRange, if_pos (by dsimp only; omega), vertexRange]

theorem requests_vertexRanges (h : InBuffer p size drawn) (hsize : size < 2 ^ 31) :
    Requests p drawn (drawn.map (vertexRange p)) := by
  have hpos := attribSize_pos (p := p)
  refine ⟨fun r hr ↦ ?_, fun b ↦ ?_⟩
  · obtain ⟨i, hi, rfl⟩ := mem_map.mp hr
    obtain ⟨hnonneg, hle⟩ := h.bounds hi
    refine ⟨⟨rfl, ?_, ?_, ?_, ?_⟩, hnonneg⟩ <;> dsimp only [vertexRange] <;> omega
  · constructor
    · rintro ⟨r, hr, hb⟩
      obtain ⟨i, hi, rfl⟩ := mem_map.mp hr
      exact ⟨i, hi, hb⟩
    · rintro ⟨i, hi, hb⟩
      exact ⟨vertexRange p i, List.mem_map_of_mem hi, hb⟩

theorem strideRanges_eq (count : ℕ) (first : ℤ) (list : RangeList)
    (hbounds : ∀ i < count, 0 ≤ p.place (first + i) ∧ p.place (first + i) + p.attribSize < 2 ^ 31) :
    strideRanges p.stride p.attribSize count (toInt (p.place first)) list =
      list ++ (List.range count).map fun i : ℕ ↦ vertexRange p (first + i) := by
  induction count generalizing first list with
  | zero => exact (List.append_nil list).symm
  | succ count ih =>
    obtain ⟨hnonneg, hle⟩ := hbounds 0 (Nat.succ_pos count)
    rw [Nat.cast_zero, Int.add_zero] at hnonneg hle
    have hstart : toInt (p.place first) = p.place first := toInt_eq (by omega) (by omega)
    have hnext : toInt (p.place first) + p.stride = p.place (first + 1) := by
      rw [hstart, place_add, Int.one_mul]
    have hcast (i : ℕ) : first + 1 + (i : ℤ) = first + (i + 1 : ℕ) := by omega
    rw [strideRanges, make_vertexRange hnonneg hle, hnext, ih (first + 1)]
    · rw [List.append_assoc, List.range_succ_eq_map, List.map_cons, List.map_map, Nat.cast_zero, Int.add_zero,
        List.singleton_append]
      simp only [Function.comp_def, hcast, Nat.succ_eq_add_one]
    · intro i hi
      rw [hcast]
      exact hbounds (i + 1) (by omega)

/-- Vertices next to each other are one range. -/
theorem requests_tight (first : ℤ) (count : ℕ) (htight : p.m_stride = 0)
    (h : InBuffer p size (Draw.drawn (.arrays first count))) (hsize : size < 2 ^ 31) :
    Requests p (Draw.drawn (.arrays first count)) (directToBytesRanges first count p []) := by
  have hpos := attribSize_pos (p := p)
  have hstride : p.stride = p.attribSize := if_neg (not_not.mpr htight)
  have hmem (i : ℤ) : i ∈ Draw.drawn (.arrays first count) ↔ first ≤ i ∧ i < first + count := by
    rw [Draw.drawn, mem_map]
    constructor
    · rintro ⟨k, hk, rfl⟩
      have hlt := mem_range.mp hk
      omega
    · rintro ⟨hlower, hupper⟩
      exact ⟨(i - first).toNat, mem_range.mpr (by omega), by omega⟩
  have hplace (i : ℤ) : p.place i = p.place first + (i - first) * p.attribSize := by
    have hadd := place_add (p := p) first (i - first)
    have hback : first + (i - first) = i := by omega
    rwa [hback, hstride] at hadd
  obtain rfl | hcount := Nat.eq_zero_or_pos count
  · have hnil : directToBytesRanges first 0 p [] = [] := by
      rw [directToBytesRanges, if_pos htight, Nat.cast_zero, Int.zero_mul]
      rfl
    rw [hnil]
    refine ⟨fun _ hr ↦ absurd hr not_mem_nil, fun b ↦ ?_⟩
    rw [points_nil]
    exact iff_of_false id fun ⟨i, hi, _⟩ ↦ absurd hi not_mem_nil
  obtain ⟨hfirst, -⟩ := h.bounds ((hmem first).mpr (by omega))
  obtain ⟨-, hlast⟩ := h.bounds ((hmem (first + count - 1)).mpr (by omega))
  have hend : p.place (first + count - 1) + p.attribSize = p.place first + count * p.attribSize := by
    have hpred : first + count - 1 - first = (count : ℤ) - 1 := by omega
    rw [hplace (first + count - 1), hpred, Int.sub_mul, Int.one_mul]
    omega
  have hwhole : 0 < (count : ℤ) * p.attribSize := Int.mul_pos (by omega) (by omega)
  have hranges : directToBytesRanges first count p [] =
      [⟨p.place first, p.place first + count * p.attribSize, count * p.attribSize⟩] := by
    have hstart : toInt (p.place first) = p.place first := toInt_eq (by omega) (by omega)
    have hbytes : toInt (count * p.attribSize) = count * p.attribSize := toInt_eq (by omega) (by omega)
    have hstop : toInt (p.place first + count * p.attribSize) = p.place first + count * p.attribSize :=
      toInt_eq (by omega) (by omega)
    rw [directToBytesRanges, if_pos htight, ← GLESpointer.place, hstart, hbytes, Range.make, hstop,
      RangeList.addRange, if_pos (by dsimp only; omega)]
    rfl
  rw [hranges]
  refine ⟨fun r hr ↦ ?_, fun b ↦ ?_⟩
  · obtain rfl := List.mem_singleton.mp hr
    refine ⟨⟨rfl, ?_, ?_, ?_, ?_⟩, hfirst⟩ <;> dsimp only <;> omega
  · rw [points_cons, points_nil, Set.union_empty, mem_points_range]
    dsimp only
    constructor
    · rintro ⟨hlower, hupper⟩
      have hbelow : (b - p.place first) / p.attribSize * p.attribSize ≤ b - p.place first :=
        Int.ediv_mul_le _ (by omega)
      have habove : b - p.place first < ((b - p.place first) / p.attribSize + 1) * p.attribSize :=
        Int.lt_ediv_add_one_mul_self _ (by omega)
      have hnonneg : 0 ≤ (b - p.place first) / p.attribSize := Int.ediv_nonneg (by omega) (by omega)
      have hless : (b - p.place first) / p.attribSize < count := Int.ediv_lt_of_lt_mul (by omega) (by omega)
      refine ⟨first + (b - p.place first) / p.attribSize, (hmem _).mpr (by omega), ?_⟩
      have hback : first + (b - p.place first) / p.attribSize - first = (b - p.place first) / p.attribSize := by omega
      rw [Int.add_mul, Int.one_mul] at habove
      rw [mem_vertex, hplace, hback]
      omega
    · rintro ⟨i, hi, hb⟩
      obtain ⟨hlower, hupper⟩ := (hmem i).mp hi
      have hstart : p.place first ≤ p.place i := place_le_iff.mpr hlower
      have hstop : p.place i ≤ p.place (first + count - 1) := place_le_iff.mpr (by omega)
      rw [mem_vertex] at hb
      omega

theorem requests_toBytesRanges (draw : Draw) (h : InBuffer p size draw.drawn) (hsize : size < 2 ^ 31) :
    Requests p draw.drawn (draw.toBytesRanges p) := by
  have hbounds (i : ℤ) (hi : i ∈ draw.drawn) : 0 ≤ p.place i ∧ p.place i + p.attribSize < 2 ^ 31 := by
    obtain ⟨hnonneg, hle⟩ := h.bounds hi
    exact ⟨hnonneg, by omega⟩
  cases draw with
  | arrays first count =>
    by_cases htight : p.m_stride = 0
    · exact requests_tight first count htight h hsize
    have hranges : directToBytesRanges first count p [] = (Draw.drawn (.arrays first count)).map (vertexRange p) := by
      rw [directToBytesRanges, if_neg htight, ← GLESpointer.place, strideRanges_eq count first [] fun i hi ↦
        hbounds _ (List.mem_map_of_mem (mem_range.mpr hi)), List.nil_append, Draw.drawn, List.map_map]
      rfl
    rw [Draw.toBytesRanges, hranges]
    exact requests_vertexRanges h hsize
  | elements count indices_type indices =>
    have hfold (places : List ℕ) (list : RangeList)
        (hplaces : ∀ i ∈ places,
          (getIndex indices_type indices i : ℤ) ∈ Draw.drawn (.elements count indices_type indices)) :
        places.foldl (fun list i ↦ RangeList.addRange list
            (Range.make (toInt (p.m_buffOffset + getIndex indices_type indices i * p.stride)) p.attribSize)) list =
          list ++ (places.map fun i : ℕ ↦ (getIndex indices_type indices i : ℤ)).map (vertexRange p) := by
      induction places generalizing list with
      | nil => exact (List.append_nil list).symm
      | cons i places ih =>
        obtain ⟨hi, hrest⟩ := List.forall_mem_cons.mp hplaces
        obtain ⟨hnonneg, hle⟩ := hbounds _ hi
        rw [List.foldl_cons, ← GLESpointer.place, make_vertexRange hnonneg hle, ih _ hrest, List.append_assoc]
        rfl
    have hranges : indirectToBytesRanges indices indices_type count p [] =
        (Draw.drawn (.elements count indices_type indices)).map (vertexRange p) :=
      hfold (List.range count) [] fun i hi ↦ List.mem_map_of_mem hi
    rw [Draw.toBytesRanges, hranges]
    exact requests_vertexRanges h hsize

end Requests

/-! ## From bytes to indices -/

/-- Ranges that do not touch and have exactly the bytes of some vertices in a buffer. -/
structure Whole (p : GLESpointer) (vertices : Set ℤ) (ranges : RangeList) : Prop where
  proper : ∀ r ∈ ranges, Proper r
  separate : ranges.Pairwise Separate
  mem_iff : ∀ b, b ∈ points ranges ↔ ∃ i ∈ vertices, b ∈ p.vertex i
  bounds : ∀ i ∈ vertices, 0 ≤ i ∧ p.place i + p.attribSize < 2 ^ 31

section Indices

variable {p : GLESpointer} {vertices : Set ℤ} {ranges : RangeList} {r : Range}

instance separate_symm : Std.Symm Separate := ⟨fun _ _ ↦ Or.symm⟩

section

variable (h : Whole p vertices ranges) (hr : r ∈ ranges)
include h hr

/-- Nothing is written before a range and behind it. -/
theorem Whole.maximal : r.m_start - 1 ∉ points ranges ∧ r.m_end ∉ points ranges := by
  have hproper := h.proper r hr
  have hpos := hproper.pos
  have hend := hproper.m_end
  constructor
  · rintro ⟨other, hother, hmem⟩
    rw [mem_points_range] at hmem
    have hne : r ≠ other := by
      rintro rfl
      omega
    obtain hbefore | hbehind := h.separate.forall hr hother hne <;> omega
  · rintro ⟨other, hother, hmem⟩
    rw [mem_points_range] at hmem
    have hne : r ≠ other := by
      rintro rfl
      omega
    obtain hbefore | hbehind := h.separate.forall hr hother hne <;> omega

/-- A range goes from the beginning of a vertex to the end of one. Two vertices of a range are next to each other. -/
theorem Whole.range_eq :
    ∃ k l, r.m_start = p.place k ∧ r.m_end = p.place l + p.attribSize ∧ k ≤ l ∧ k ∈ vertices ∧ l ∈ vertices ∧
      (k < l → p.stride = p.attribSize) := by
  obtain ⟨hbefore, hbehind⟩ := h.maximal hr
  have hproper := h.proper r hr
  have hpos := hproper.pos
  have hend := hproper.m_end
  obtain ⟨k, hk, hstart⟩ := (h.mem_iff r.m_start).mp ⟨r, hr, mem_points_range.mpr (by omega)⟩
  obtain ⟨l, hl, hlast⟩ := (h.mem_iff (r.m_end - 1)).mp ⟨r, hr, mem_points_range.mpr (by omega)⟩
  rw [mem_vertex] at hstart hlast
  have hfirst : r.m_start = p.place k := by
    by_contra hne
    exact hbefore ((h.mem_iff _).mpr ⟨k, hk, mem_vertex.mpr (by omega)⟩)
  have hstop : r.m_end = p.place l + p.attribSize := by
    by_contra hne
    exact hbehind ((h.mem_iff _).mpr ⟨l, hl, mem_vertex.mpr (by omega)⟩)
  have hle : k ≤ l := by
    by_contra hgt
    have hapart := place_add_le (p := p) (Int.not_le.mp hgt)
    omega
  refine ⟨k, l, hfirst, hstop, hle, hk, hl, fun hlt ↦ ?_⟩
  by_contra hgap
  have hsize := attribSize_le_stride (p := p)
  -- the byte behind the first vertex would be written
  have hnext := place_add_le (p := p) hlt
  obtain ⟨i, -, hi⟩ := (h.mem_iff (p.place k + p.attribSize)).mp ⟨r, hr, mem_points_range.mpr (by omega)⟩
  rw [mem_vertex] at hi
  obtain hless | heq | hgreater := Int.lt_trichotomy i k
  · have hapart := place_add_le (p := p) hless
    omega
  · rw [heq] at hi
    omega
  · have hapart := place_add_le (p := p) hgreater
    omega

/-- The indices of a range are those of the vertices that begin in it. -/
theorem Whole.rangeToIndices :
    (rangeToIndices p r).Nodup ∧ ∀ i : ℕ, i ∈ rangeToIndices p r ↔ p.place i ∈ r.points := by
  obtain ⟨k, l, hstart, hstop, hle, hk, hl, htight⟩ := h.range_eq hr
  obtain ⟨hfirst, hfits⟩ := h.bounds k hk
  obtain ⟨-, hlast⟩ := h.bounds l hl
  have hpos := attribSize_pos (p := p)
  have hsize := attribSize_le_stride (p := p)
  have hproper := h.proper r hr
  have hspan : p.place l = p.place k + (l - k) * p.stride := by
    rw [← place_add]
    congr 1
    omega
  have hwhole : r.m_size = (l - k + 1) * p.attribSize := by
    have hend := hproper.m_end
    obtain rfl | hlt := Int.le_iff_eq_or_lt.mp hle
    · rw [Int.sub_self, Int.zero_add, Int.one_mul]
      omega
    · rw [htight hlt] at hspan
      rw [Int.add_mul, Int.one_mul]
      omega
  have hnonneg : 0 ≤ k * (p.stride : ℤ) := Int.mul_nonneg hfirst (by omega)
  have hoffset : toInt p.m_buffOffset = p.m_buffOffset := by
    rw [GLESpointer.place] at hfits
    exact toInt_eq (by omega) (by omega)
  have hindex : (r.m_start - toInt p.m_buffOffset).tdiv p.stride = k := by
    have hmul : r.m_start - toInt p.m_buffOffset = k * p.stride := by
      rw [hoffset, hstart, GLESpointer.place]
      omega
    rw [hmul]
    exact Int.mul_tdiv_cancel k (by omega)
  have helements : r.m_size.tdiv p.attribSize = l - k + 1 := by
    rw [hwhole]
    exact Int.mul_tdiv_cancel _ (by omega)
  have hless : l < 2 ^ 31 := lt_of_place (Int.le_trans hfirst hle) hlast
  have hvalue (j : ℕ) (hj : j ∈ List.range (l - k + 1).toNat) : ((k + j) % 2 ^ 32).toNat = k.toNat + j := by
    have hlt := mem_range.mp hj
    have hmod : (k + j) % 2 ^ 32 = k + j := Int.emod_eq_of_lt (by omega) (by omega)
    rw [hmod]
    omega
  have hindices : FixedArrays.rangeToIndices p r = (List.range (l - k + 1).toNat).map (k.toNat + ·) := by
    rw [FixedArrays.rangeToIndices, hindex, helements]
    exact List.map_congr_left hvalue
  rw [hindices]
  refine ⟨List.nodup_range.map fun _ _ ↦ Nat.add_left_cancel, fun i ↦ ?_⟩
  rw [mem_points_range, hstart, hstop, place_le_iff]
  constructor
  · rintro hi
    obtain ⟨j, hj, rfl⟩ := mem_map.mp hi
    have hlt := mem_range.mp hj
    have hwithin : p.place (k.toNat + j : ℕ) ≤ p.place l := place_le_iff.mpr (by omega)
    omega
  · rintro ⟨hlower, hupper⟩
    have hwithin : (i : ℤ) ≤ l := by
      by_contra hgt
      have hapart := place_add_le (p := p) (Int.not_le.mp hgt)
      omega
    exact mem_map.mpr ⟨i - k.toNat, mem_range.mpr (by omega), by omega⟩

end

/-- Each of the vertices is stored once. -/
theorem Whole.indices (h : Whole p vertices ranges) :
    (bytesRangesToIndices ranges p).Nodup ∧ ∀ i : ℕ, i ∈ bytesRangesToIndices ranges p ↔ (i : ℤ) ∈ vertices := by
  constructor
  · refine List.nodup_flatMap.mpr ⟨fun r hr ↦ (h.rangeToIndices hr).1, ?_⟩
    refine h.separate.imp_of_mem fun {first second} hfirst hsecond hseparate i hi hother ↦ ?_
    rw [(h.rangeToIndices hfirst).2, mem_points_range] at hi
    rw [(h.rangeToIndices hsecond).2, mem_points_range] at hother
    obtain hbefore | hbehind := hseparate <;> omega
  · intro i
    rw [bytesRangesToIndices, List.mem_flatMap]
    constructor
    · rintro ⟨r, hr, hi⟩
      obtain ⟨other, hother, hplace⟩ := (h.mem_iff (p.place i)).mp ⟨r, hr, ((h.rangeToIndices hr).2 i).mp hi⟩
      rwa [vertex_unique place_mem_vertex hplace]
    · intro hi
      obtain ⟨r, hr, hplace⟩ := (h.mem_iff (p.place i)).mpr ⟨i, hi, place_mem_vertex⟩
      exact ⟨r, hr, ((h.rangeToIndices hr).2 i).mpr hplace⟩

end Indices

/-! ## Converting vertices in place -/

section InPlace

variable {p : GLESpointer} {i : ℤ} {b : ℤ} {j : ℕ}

theorem component_mem_vertex (hj : j < p.m_size) (hlower : p.component i j ≤ b) (hupper : b < p.component i j + 4) :
    b ∈ p.vertex i := by
  rw [GLESpointer.component] at hlower hupper
  rw [mem_vertex, GLESpointer.attribSize]
  omega

/-- The components of different vertices, and those of one vertex, are apart. -/
theorem pairwise_components (p : GLESpointer) {indices : List ℕ} (hnodup : indices.Nodup) :
    (indices.flatMap fun i : ℕ ↦ (List.range p.m_size).map fun j : ℕ ↦ p.component i j).Pairwise fun first second ↦
      first + 4 ≤ second ∨ second + 4 ≤ first := by
  refine List.pairwise_flatMap.mpr ⟨fun i _ ↦ ?_, hnodup.imp fun {i other} hne first hfirst second hsecond ↦ ?_⟩
  · rw [List.pairwise_map]
    refine List.pairwise_lt_range.imp fun {j other} hlt ↦ ?_
    rw [GLESpointer.component, GLESpointer.component]
    omega
  · obtain ⟨j, hj, rfl⟩ := mem_map.mp hfirst
    obtain ⟨k, hk, rfl⟩ := mem_map.mp hsecond
    have hfirst := mem_range.mp hj
    have hsecond := mem_range.mp hk
    rw [GLESpointer.component, GLESpointer.component]
    have hsize : p.attribSize = p.m_size * 4 := rfl
    obtain hlt | hgt := Nat.lt_or_gt_of_ne hne
    · have hle := place_add_le (p := p) (Int.ofNat_lt.mpr hlt)
      omega
    · have hle := place_add_le (p := p) (Int.ofNat_lt.mpr hgt)
      omega

theorem convertVertices {indices : List ℕ} (hnodup : indices.Nodup)
    (hbounds : ∀ i ∈ indices, p.place i + p.attribSize < 2 ^ 31) (memory : ByteMemory) :
    (∀ i ∈ indices, ∀ j < p.m_size,
      word (convertFixedIndirectLoop p.m_buffOffset p.stride p.m_buffOffset indices p.stride p.m_size memory)
        (p.component i j) = X2F (word memory (p.component i j))) ∧
      ∀ b, (∀ i ∈ indices, b ∉ p.vertex i) →
        convertFixedIndirectLoop p.m_buffOffset p.stride p.m_buffOffset indices p.stride p.m_size memory b =
          memory b := by
  have haddress : (indices.flatMap fun index ↦ (List.range p.m_size).map fun j : ℕ ↦
      (p.m_buffOffset + (index * p.stride % 2 ^ 32 : ℕ) + 4 * j : ℤ)) =
      indices.flatMap fun i : ℕ ↦ (List.range p.m_size).map fun j : ℕ ↦ p.component i j := by
    refine List.flatMap_congr fun i hi ↦ List.map_congr_left fun j _ ↦ ?_
    have hplace := hbounds i hi
    rw [GLESpointer.place] at hplace
    have hmod : i * p.stride % 2 ^ 32 = i * p.stride := Nat.mod_eq_of_lt (by
      have hcast : ((i * p.stride : ℕ) : ℤ) = i * p.stride := Nat.cast_mul i p.stride
      omega)
    rw [hmod, Nat.cast_mul]
    rfl
  obtain ⟨hwords, hothers⟩ := convertWords_spec (pairwise_components p hnodup) memory
  rw [convertFixedIndirectLoop_eq, haddress]
  refine ⟨fun i hi j hj ↦ hwords _ (List.mem_flatMap.mpr ⟨i, hi, mem_map.mpr ⟨j, mem_range.mpr hj, rfl⟩⟩),
    fun b hb ↦ hothers b fun address haddress ↦ ?_⟩
  obtain ⟨i, hi, hmem⟩ := List.mem_flatMap.mp haddress
  obtain ⟨j, hj, rfl⟩ := mem_map.mp hmem
  by_contra hinside
  exact hb i hi (component_mem_vertex (mem_range.mp hj) (by omega) (by omega))

end InPlace

/-! ## Runs of a buffer -/

/-- A buffer, and the bytes that were written last. -/
structure Buffered where
  buffer : GLESbuffer
  written : ByteMemory

inductive Call where
  | setBuffer (fresh : ByteMemory) (size usage : BitVec 32) (data : Option (ℕ → UInt8))
  | setSubBuffer (offset size : BitVec 32) (data : ℕ → UInt8)
  | draw (draw : Draw)

def Buffered.perform (fuel : ℕ) (p : GLESpointer) (s : Buffered) : Call → Option Buffered
  | .setBuffer fresh size usage data =>
    let (_, buffer) := s.buffer.setBuffer fresh size usage data
    some ⟨buffer, buffer.m_data⟩
  | .setSubBuffer offset size data =>
    let (accepted, buffer) := s.buffer.setSubBuffer offset size data
    some ⟨buffer, if accepted then s.written.store offset.toInt (GLESbuffer.copied data size) else s.written⟩
  | .draw draw => (convertVBO fuel draw p s.buffer).map fun (buffer, _) ↦ ⟨buffer, s.written⟩

/-- The bytes that were written and not drawn since. -/
def pending (buffer : GLESbuffer) : Set ℤ := points buffer.m_conversionManager

/-- The vertices that are drawn are in the buffer, and none of them was written in part. -/
def DrawsWhole (p : GLESpointer) (buffer : GLESbuffer) (draw : Draw) : Prop :=
  InBuffer p buffer.m_size.toNat draw.drawn ∧
    ∀ i ∈ draw.drawn, p.vertex i ⊆ pending buffer ∨ Disjoint (p.vertex i) (pending buffer)

/-- The size of a buffer is an `int`, the sum of an update does not wrap around, and vertices are drawn as a whole. -/
def Orderly (p : GLESpointer) (s : Buffered) : Call → Prop
  | .setBuffer _ size _ _ => size.toNat < 2 ^ 31
  | .setSubBuffer offset size _ => SumFits s.buffer.m_size offset size
  | .draw draw => DrawsWhole p s.buffer draw

inductive Reached (p : GLESpointer) (allowed : Buffered → Call → Prop) : Buffered → Prop
  | new : Reached p allowed ⟨{}, fun _ ↦ 0⟩
  | step {s s' : Buffered} {call : Call} (hreached : Reached p allowed s) (hallowed : allowed s call)
      (hstep : Walk.Returns (fun fuel ↦ s.perform fuel p call) s') : Reached p allowed s'

/-- Every vertex that is drawn has been converted once since it was written, and nothing else changes. -/
structure DrawnOnce (p : GLESpointer) (draw : Draw) (s : Buffered) (buffer' : GLESbuffer) (indices : List ℕ) :
    Prop where
  converted : ∀ i ∈ draw.drawn, ∀ j < p.m_size,
    word buffer'.m_data (p.component i j) = X2F (word s.written (p.component i j))
  unchanged : ∀ b, (∀ i ∈ draw.drawn, b ∈ p.vertex i → b ∉ pending s.buffer) → buffer'.m_data b = s.buffer.m_data b
  stored : indices.length ≤ draw.count

/-- What a draw does to a buffer: `indices` are the vertices that had been written, each of them once. -/
structure Converts (p : GLESpointer) (draw : Draw) (buffer buffer' : GLESbuffer) (indices : List ℕ) : Prop where
  m_size : buffer'.m_size = buffer.m_size
  nodup : indices.Nodup
  mem_iff : ∀ i : ℕ, i ∈ indices ↔ (i : ℤ) ∈ draw.drawn ∧ p.vertex i ⊆ pending buffer
  m_data : buffer'.m_data =
    convertFixedIndirectLoop p.m_buffOffset p.stride p.m_buffOffset indices p.stride p.m_size buffer.m_data
  tracks : Tracks buffer' (pending buffer')
  pending_iff : ∀ b, b ∈ pending buffer' ↔ b ∈ pending buffer ∧ ∀ i ∈ draw.drawn, b ∉ p.vertex i

/-- The invariant. -/
structure Sound (p : GLESpointer) (s : Buffered) : Prop where
  tracks : Tracks s.buffer (pending s.buffer)
  fixed : ∀ b ∈ pending s.buffer, s.buffer.m_data b = s.written b
  converted : ∀ i, InBuffer p s.buffer.m_size.toNat [i] → Disjoint (p.vertex i) (pending s.buffer) → ∀ j < p.m_size,
    word s.buffer.m_data (p.component i j) = X2F (word s.written (p.component i j))

section Runs

variable {p : GLESpointer} {s s' : Buffered} {draw : Draw} {buffer buffer' : GLESbuffer} {indices : List ℕ}

theorem not_disjoint_of_subset {i : ℤ} (hsubset : p.vertex i ⊆ pending buffer) :
    ¬Disjoint (p.vertex i) (pending buffer) := fun hdisjoint ↦
  Set.disjoint_left.mp hdisjoint place_mem_vertex (hsubset place_mem_vertex)

/-- The bytes that come back are those of the drawn vertices that were written. -/
theorem whole_conversions (htracks : Tracks buffer (pending buffer)) (hdraw : DrawsWhole p buffer draw)
    {ranges conversions : RangeList} (hrequests : Requests p draw.drawn ranges)
    (hproper : ∀ r ∈ conversions, Proper r) (hseparate : conversions.Pairwise Separate)
    (hpoints : points conversions = points ranges ∩ pending buffer) :
    Whole p {i | i ∈ draw.drawn ∧ p.vertex i ⊆ pending buffer} conversions := by
  obtain ⟨hinside, hwhole⟩ := hdraw
  have hfits := htracks.fits
  refine ⟨hproper, hseparate, fun b ↦ ?_, fun i hi ↦ ?_⟩
  · rw [hpoints, Set.mem_inter_iff, hrequests.mem_iff]
    constructor
    · rintro ⟨⟨i, hi, hb⟩, hpending⟩
      refine ⟨i, ⟨hi, (hwhole i hi).resolve_right fun hdisjoint ↦ ?_⟩, hb⟩
      exact Set.disjoint_left.mp hdisjoint hb hpending
    · rintro ⟨i, ⟨hi, hsubset⟩, hb⟩
      exact ⟨⟨i, hi, hb⟩, hsubset hb⟩
  · obtain ⟨hnonneg, hle⟩ := hinside i hi.1
    exact ⟨hnonneg, by omega⟩

theorem convertVBO_spec (htracks : Tracks buffer (pending buffer)) (hdraw : DrawsWhole p buffer draw) :
    ∃ buffer' indices, Walk.Returns (fun fuel ↦ convertVBO fuel draw p buffer) (buffer', indices) ∧
      Converts p draw buffer buffer' indices := by
  by_cases hempty : buffer.m_conversionManager.length ≠ 0
  · have hrequests := requests_toBytesRanges draw hdraw.1 htracks.fits
    have hnone : InBytes [] := fun _ hr ↦ absurd hr not_mem_nil
    obtain ⟨list', conversions, hreturns, hpoints, hleft, hproper, hseparate⟩ :=
      htracks.getConversions (fun r hr ↦ (hrequests.inBytes r hr).1) hnone
    rw [points_nil, Set.empty_union] at hpoints
    obtain ⟨bound, hbound⟩ := hreturns
    obtain ⟨hnodup, hmem⟩ := (whole_conversions htracks hdraw hrequests hproper hseparate hpoints).indices
    have hpending : points list' = pending buffer \ points (draw.toBytesRanges p) := hleft.points_eq
    refine ⟨{ buffer with
      m_conversionManager := list'
      m_data := convertFixedIndirectLoop p.m_buffOffset p.stride p.m_buffOffset (bytesRangesToIndices conversions p)
        p.stride p.m_size buffer.m_data }, bytesRangesToIndices conversions p,
      ⟨bound, fun fuel hfuel ↦ ?_⟩, rfl, hnodup, hmem, rfl, ⟨hleft.proper, rfl, ?_, hleft.fits⟩, fun b ↦ ?_⟩
    · have hconversions := hbound fuel hfuel
      dsimp only at hconversions
      change convertVBO fuel draw p buffer = _
      rw [convertVBO, if_pos hempty, hconversions, Option.bind_some]
      dsimp only
      by_cases hsome : conversions.length ≠ 0
      · exact if_pos hsome
      · rw [if_neg hsome, List.length_eq_zero_iff.mp (not_not.mp hsome)]
        rfl
    · have hinside := hleft.inside
      rwa [← hpending] at hinside
    · change b ∈ points list' ↔ _
      rw [hpending, Set.mem_sdiff, hrequests.mem_iff]
      refine and_congr_right fun _ ↦ ?_
      push Not
      exact Iff.rfl
  · have hnil := List.length_eq_zero_iff.mp (not_not.mp hempty)
    have hnone : pending buffer = ∅ := by rw [pending, hnil, points_nil]
    refine ⟨buffer, [], ⟨0, fun fuel _ ↦ if_neg hempty⟩, rfl, List.nodup_nil, fun i ↦ ?_, rfl, htracks, fun b ↦ ?_⟩
    · refine iff_of_false not_mem_nil fun ⟨_, hsubset⟩ ↦ ?_
      rw [hnone] at hsubset
      exact hsubset place_mem_vertex
    · rw [hnone]
      exact iff_of_false id fun ⟨hb, _⟩ ↦ hb

section

variable (h : Sound p s) (hdraw : DrawsWhole p s.buffer draw)
  (hconverts : Converts p draw s.buffer buffer' indices)
include h hdraw hconverts

theorem Sound.drawnOnce : DrawnOnce p draw s buffer' indices := by
  obtain ⟨hinside, hwhole⟩ := hdraw
  have hfits := h.tracks.fits
  have hbounds (i : ℕ) (hi : i ∈ indices) : p.place i + p.attribSize < 2 ^ 31 := by
    have hle := (hinside i ((hconverts.mem_iff i).mp hi).1).2
    omega
  obtain ⟨hwords, hothers⟩ := convertVertices hconverts.nodup hbounds s.buffer.m_data
  rw [← hconverts.m_data] at hwords hothers
  have hunchanged (b : ℤ) (hb : ∀ i ∈ draw.drawn, b ∈ p.vertex i → b ∉ pending s.buffer) :
      buffer'.m_data b = s.buffer.m_data b := by
    refine hothers b fun i hi hmem ↦ ?_
    obtain ⟨hdrawn, hsubset⟩ := (hconverts.mem_iff i).mp hi
    exact hb i hdrawn hmem (hsubset hmem)
  refine ⟨fun i hi j hj ↦ ?_, hunchanged, ?_⟩
  · obtain ⟨hnonneg, hle⟩ := hinside i hi
    obtain hsubset | hdisjoint := hwhole i hi
    · obtain ⟨k, rfl⟩ := Int.eq_ofNat_of_zero_le hnonneg
      have hsame : word s.buffer.m_data (p.component k j) = word s.written (p.component k j) :=
        word_congr fun b hlower hupper ↦ h.fixed b (hsubset (component_mem_vertex hj hlower hupper))
      rw [hwords k ((hconverts.mem_iff k).mpr ⟨hi, hsubset⟩) j hj, hsame]
    · rw [← h.converted i (List.forall_mem_singleton.mpr ⟨hnonneg, hle⟩) hdisjoint j hj]
      refine word_congr fun b hlower hupper ↦ hunchanged b fun _ _ _ ↦ ?_
      exact Set.disjoint_left.mp hdisjoint (component_mem_vertex hj hlower hupper)
  · have hnodup : (indices.map fun i : ℕ ↦ (i : ℤ)).Nodup := hconverts.nodup.map Nat.cast_injective
    have hsubset : indices.map (fun i : ℕ ↦ (i : ℤ)) ⊆ draw.drawn := fun i hi ↦ by
      obtain ⟨k, hk, rfl⟩ := mem_map.mp hi
      exact ((hconverts.mem_iff k).mp hk).1
    have hlength := (hnodup.subperm hsubset).length_le
    rwa [List.length_map, draw.length_drawn] at hlength

theorem Sound.after_draw : Sound p ⟨buffer', s.written⟩ := by
  have honce := h.drawnOnce hdraw hconverts
  refine ⟨hconverts.tracks, fun b hb ↦ ?_, fun i hi hdisjoint j hj ↦ ?_⟩
  · obtain ⟨hpending, hnot⟩ := (hconverts.pending_iff b).mp hb
    rw [honce.unchanged b fun i hdrawn hmem ↦ absurd hmem (hnot i hdrawn)]
    exact h.fixed b hpending
  · by_cases hdrawn : i ∈ draw.drawn
    · exact honce.converted i hdrawn j hj
    have hapart (b : ℤ) (hb : b ∈ p.vertex i) (other : ℤ) (hother : other ∈ draw.drawn) : b ∉ p.vertex other := by
      intro hmem
      rw [vertex_unique hb hmem] at hdrawn
      exact hdrawn hother
    have hbefore : Disjoint (p.vertex i) (pending s.buffer) := Set.disjoint_left.mpr fun b hb hpending ↦
      Set.disjoint_left.mp hdisjoint hb ((hconverts.pending_iff b).mpr ⟨hpending, hapart b hb⟩)
    have hsize : InBuffer p s.buffer.m_size.toNat [i] := by
      rwa [← hconverts.m_size]
    rw [← h.converted i hsize hbefore j hj]
    refine word_congr fun b hlower hupper ↦ honce.unchanged b fun other hother hmem ↦ ?_
    exact absurd hmem (hapart b (component_mem_vertex hj hlower hupper) other hother)

end

theorem tracks_pending {dirty : Set ℤ} (h : Tracks buffer dirty) :
    pending buffer = dirty ∧ Tracks buffer (pending buffer) := by
  have heq : pending buffer = dirty := h.points_eq
  exact ⟨heq, heq ▸ h⟩

theorem Sound.new : Sound p ⟨{}, fun _ ↦ 0⟩ := by
  have hnone : pending {} = ∅ := points_nil
  refine ⟨⟨fun _ hr ↦ absurd hr not_mem_nil, rfl, ?_, by decide⟩, fun _ _ ↦ rfl, fun i hi _ j _ ↦ ?_⟩
  · exact hnone ▸ Set.empty_subset _
  · obtain ⟨hnonneg, hle⟩ := hi i (List.mem_singleton_self i)
    have hplace := place_nonneg (p := p) hnonneg
    have hpos := attribSize_pos (p := p)
    have hzero : BitVec.toNat (0 : BitVec 32) = 0 := rfl
    dsimp only at hle
    rw [hzero] at hle
    omega

theorem Sound.setBuffer {size : BitVec 32} (hfits : size.toNat < 2 ^ 31) (fresh : ByteMemory) (usage : BitVec 32)
    (data : Option (ℕ → UInt8)) :
    Sound p ⟨(s.buffer.setBuffer fresh size usage data).2, (s.buffer.setBuffer fresh size usage data).2.m_data⟩ := by
  have hnew : Tracks (s.buffer.setBuffer fresh size usage data).2 (Set.Ico 0 size.toNat) :=
    tracks_setBuffer hfits data
  obtain ⟨hpending, htracks⟩ := tracks_pending hnew
  refine ⟨htracks, fun _ _ ↦ rfl, fun i hi hdisjoint _ _ ↦ ?_⟩
  obtain ⟨hnonneg, hle⟩ := hi i (List.mem_singleton_self i)
  have hplace := place_nonneg (p := p) hnonneg
  have hsubset : p.vertex i ⊆ pending (s.buffer.setBuffer fresh size usage data).2 := by
    rw [hpending]
    exact Set.Ico_subset_Ico hplace hle
  exact absurd hdisjoint (not_disjoint_of_subset hsubset)

theorem Sound.setSubBuffer (h : Sound p s) {offset size : BitVec 32} (hfits : SumFits s.buffer.m_size offset size)
    (data : ℕ → UInt8) :
    Sound p ⟨(s.buffer.setSubBuffer offset size data).2,
      if (s.buffer.setSubBuffer offset size data).1 then s.written.store offset.toInt (GLESbuffer.copied data size)
      else s.written⟩ := by
  by_cases hlt : s.buffer.m_size < offset + size
  · rw [setSubBuffer_of_lt hlt]
    exact h
  obtain ⟨hpending, htracks⟩ := tracks_pending (tracks_setSubBuffer h.tracks hfits data)
  rw [unreported, if_pos (accepted_iff.mpr hlt)] at hpending
  have houtside (memory : ByteMemory) (b : ℤ) (hb : b ∉ Set.Ico offset.toInt (offset.toInt + size.toNat)) :
      memory.store offset.toInt (GLESbuffer.copied data size) b = memory b := by
    refine ByteMemory.store_outside fun hinside ↦ hb ?_
    rwa [length_copied] at hinside
  have hdata : (s.buffer.setSubBuffer offset size data).2.m_data =
      s.buffer.m_data.store offset.toInt (GLESbuffer.copied data size) := by rw [setSubBuffer_of_not_lt hlt]
  have hsize : (s.buffer.setSubBuffer offset size data).2.m_size = s.buffer.m_size := by
    rw [setSubBuffer_of_not_lt hlt]
  rw [if_pos (accepted_iff.mpr hlt)]
  refine ⟨htracks, fun b hb ↦ ?_, fun i hi hdisjoint j hj ↦ ?_⟩
  · dsimp only at hb ⊢
    rw [hdata]
    by_cases hinside : b ∈ Set.Ico offset.toInt (offset.toInt + size.toNat)
    · have hrange : offset.toInt ≤ b ∧ b < offset.toInt + (GLESbuffer.copied data size).length := by
        rwa [length_copied]
      rw [ByteMemory.store, ByteMemory.store, if_pos hrange, if_pos hrange]
    · rw [houtside _ b hinside, houtside _ b hinside]
      rw [hpending] at hb
      exact h.fixed b (hb.resolve_right hinside)
  · dsimp only at hi hdisjoint ⊢
    rw [hpending, Set.disjoint_union_right] at hdisjoint
    rw [hsize] at hi
    obtain ⟨hbefore, hwritten⟩ := hdisjoint
    have hkept (memory : ByteMemory) :
        word (memory.store offset.toInt (GLESbuffer.copied data size)) (p.component i j) =
          word memory (p.component i j) :=
      word_congr fun b hlower hupper ↦
        houtside memory b (Set.disjoint_left.mp hwritten (component_mem_vertex hj hlower hupper))
    rw [hdata, hkept, hkept]
    exact h.converted i hi hbefore j hj

theorem sound_perform (h : Sound p s) {call : Call} (horderly : Orderly p s call)
    (hstep : Walk.Returns (fun fuel ↦ s.perform fuel p call) s') : Sound p s' := by
  cases call with
  | setBuffer fresh size usage data =>
    obtain rfl := (Walk.returns_some _).unique hstep
    exact Sound.setBuffer (s := s) horderly fresh usage data
  | setSubBuffer offset size data =>
    obtain rfl := (Walk.returns_some _).unique hstep
    exact h.setSubBuffer horderly data
  | draw draw =>
    obtain ⟨buffer', indices, hreturns, hconverts⟩ := convertVBO_spec h.tracks horderly
    obtain rfl := (hreturns.map _).unique hstep
    exact h.after_draw horderly hconverts

theorem Reached.sound (h : Reached p (Orderly p) s) : Sound p s := by
  induction h with
  | new => exact Sound.new
  | step _ horderly hstep ih => exact sound_perform ih horderly hstep

/-- As long as vertices are written as a whole, every vertex that is drawn has been converted once since it was
written, and no more indices are stored than vertices are drawn. -/
theorem vertices_converted (hreached : Reached p (Orderly p) s) (hdraw : DrawsWhole p s.buffer draw) :
    ∃ buffer' indices, Walk.Returns (fun fuel ↦ convertVBO fuel draw p s.buffer) (buffer', indices) ∧
      DrawnOnce p draw s buffer' indices := by
  obtain ⟨buffer', indices, hreturns, hconverts⟩ := convertVBO_spec hreached.sound.tracks hdraw
  exact ⟨buffer', indices, hreturns, hreached.sound.drawnOnce hdraw hconverts⟩

end Runs

theorem zero_stride_lt : 0 < 2 ^ 31 := by decide

theorem zero_offset_lt : 0 < 2 ^ 32 := by decide

/-- Two components for each vertex, next to each other. -/
def pairs : GLESpointer := ⟨2, 0, 0, by decide, by decide, .inl rfl, zero_stride_lt, zero_offset_lt⟩

/-- A buffer of one vertex. -/
def onePair : Buffered :=
  ⟨(({} : GLESbuffer).setBuffer (fun _ ↦ 0) 8 0 none).2, (({} : GLESbuffer).setBuffer (fun _ ↦ 0) 8 0 none).2.m_data⟩

theorem drawsWhole_onePair : DrawsWhole pairs onePair.buffer (.arrays 0 1) := by
  have htracks : Tracks (({} : GLESbuffer).setBuffer (fun _ ↦ 0) 8 0 none).2 (Set.Ico 0 8) :=
    tracks_setBuffer (by decide) none
  obtain ⟨hpending, -⟩ : pending onePair.buffer = Set.Ico 0 8 ∧ _ := tracks_pending htracks
  refine ⟨fun i hi ↦ ?_, fun i hi ↦ .inl ?_⟩
  · obtain rfl := List.mem_singleton.mp hi
    decide
  · obtain rfl := List.mem_singleton.mp hi
    rw [hpending]
    exact subset_rfl

theorem vertices_converted_pair :
    ∃ buffer' indices,
      Walk.Returns (fun fuel ↦ convertVBO fuel (.arrays 0 1) pairs onePair.buffer) (buffer', indices) ∧
        DrawnOnce pairs (.arrays 0 1) onePair buffer' indices := by
  have hfits : Orderly pairs ⟨{}, fun _ ↦ 0⟩ (.setBuffer (fun _ ↦ 0) 8 0 none) :=
    show (8 : BitVec 32).toNat < 2 ^ 31 by decide
  have hreached : Reached pairs (Orderly pairs) onePair := .step .new hfits (Walk.returns_some _)
  exact vertices_converted hreached drawsWhole_onePair

/-- The first component is written again and stays fixed. -/
theorem component_stays_fixed : ¬ ∀ s draw, Reached pairs (fun _ _ ↦ True) s →
    InBuffer pairs s.buffer.m_size.toNat draw.drawn →
    ∃ buffer' indices, Walk.Returns (fun fuel ↦ convertVBO fuel draw pairs s.buffer) (buffer', indices) ∧
      DrawnOnce pairs draw s buffer' indices := by
  intro hall
  have htracks : Tracks (({} : GLESbuffer).setBuffer (fun _ ↦ 0) 8 0 none).2 (Set.Ico 0 8) :=
    tracks_setBuffer (by decide) none
  obtain ⟨hpending, hbuffer⟩ :
      pending onePair.buffer = Set.Ico 0 8 ∧ Tracks onePair.buffer (pending onePair.buffer) :=
    tracks_pending htracks
  obtain ⟨drawn, indices, hreturns, hconverts⟩ := convertVBO_spec hbuffer drawsWhole_onePair
  -- everything has been drawn
  have hempty : drawn.m_conversionManager = [] := by
    refine List.eq_nil_iff_forall_not_mem.mpr fun r hr ↦ ?_
    have hpos := (hconverts.tracks.proper r hr).pos
    have hend := (hconverts.tracks.proper r hr).m_end
    have hstart : r.m_start ∈ pending drawn := ⟨r, hr, mem_points_range.mpr (by omega)⟩
    obtain ⟨hbefore, hout⟩ := (hconverts.pending_iff r.m_start).mp hstart
    rw [hpending] at hbefore
    exact hout 0 (List.mem_singleton_self 0) hbefore
  obtain ⟨m_size, usage, data, conversions⟩ := drawn
  obtain rfl : m_size = 8 := hconverts.m_size
  obtain rfl : conversions = [] := hempty
  have hfirst : Walk.Returns
      (fun fuel ↦ Buffered.perform fuel pairs ⟨{}, fun _ ↦ 0⟩ (.setBuffer (fun _ ↦ 0) 8 0 none)) onePair := Walk.returns_some _
  have hsecond : Walk.Returns (fun fuel ↦ onePair.perform fuel pairs (.draw (.arrays 0 1)))
      ⟨⟨8, usage, data, []⟩, onePair.written⟩ := hreturns.map _
  have hthird : Walk.Returns (fun fuel ↦ Buffered.perform fuel pairs ⟨⟨8, usage, data, []⟩, onePair.written⟩
      (.setSubBuffer 0 4 fun i ↦ if i = 2 then 1 else 0))
      ⟨⟨8, usage, data.store 0 (Pipe.putLe32 0x10000), [Range.make 0 4]⟩,
        onePair.written.store 0 (Pipe.putLe32 0x10000)⟩ := Walk.returns_some _
  have hwritten : Reached pairs (fun _ _ ↦ True) _ :=
    .step (.step (.step .new trivial hfirst) trivial hsecond) trivial hthird
  obtain ⟨buffer', indices', hagain, honce⟩ := hall _ (.arrays 0 1) hwritten drawsWhole_onePair.1
  have hnothing : Walk.Returns (fun fuel ↦ convertVBO fuel (.arrays 0 1) pairs
      ⟨8, usage, data.store 0 (Pipe.putLe32 0x10000), [Range.make 0 4]⟩)
      (⟨8, usage, data.store 0 (Pipe.putLe32 0x10000), []⟩, []) := by
    refine ⟨2, fun fuel hfuel ↦ ?_⟩
    obtain ⟨more, rfl⟩ := Nat.exists_eq_add_of_le' hfuel
    rfl
  obtain ⟨rfl, -⟩ := Prod.mk.inj (hnothing.unique hagain)
  have hcomponent := honce.converted 0 (List.mem_singleton_self 0) 0 (by decide)
  have hplace : pairs.component 0 0 = 0 := by decide
  rw [hplace] at hcomponent
  have hword (memory : ByteMemory) : word (memory.store 0 (Pipe.putLe32 0x10000)) 0 = 0x10000 := word_setWord
  rw [hword, hword] at hcomponent
  exact absurd hcomponent (by decide +kernel)

end FdeEmugl.FixedArrays
