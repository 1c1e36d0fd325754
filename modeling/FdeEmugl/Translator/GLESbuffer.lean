import FdeEmugl.Library.ByteMemory
import FdeEmugl.Translator.RangeManip

/-!
# Buffer objects of a context

A buffer has the ranges that were written since they were last converted. Sizes are `GLuint`s and offsets are
`GLint`s; the check of an update adds the two as `GLuint`s, and a range has its size as an `int`.
-/

namespace FdeEmugl.Ranges
open RangeList

/-! ## The code -/

/-- With the memory from `m_data` on; places outside of the buffer are not its own. -/
structure GLESbuffer where
  m_size : BitVec 32 := 0
  m_usage : BitVec 32 := 0x88E4
  m_data : ByteMemory := fun _ ↦ 0
  m_conversionManager : RangeList := []

namespace GLESbuffer

/-- The bytes that `memcpy` takes. -/
def copied (data : ℕ → UInt8) (size : BitVec 32) : List UInt8 := (List.range size.toNat).map data

/-- A buffer gets new memory, with whatever is there. -/
def setBuffer (fresh : ByteMemory) (size usage : BitVec 32) (data : Option (ℕ → UInt8)) (_buffer : GLESbuffer) :
    Bool × GLESbuffer :=
  (true,
    { m_size := size
      m_usage := usage
      m_data := match data with
        | some data => fresh.store 0 (copied data size)
        | none => fresh
      m_conversionManager := addRange [] (Range.make 0 size.toInt) })

def setSubBuffer (offset size : BitVec 32) (data : ℕ → UInt8) (buffer : GLESbuffer) : Bool × GLESbuffer :=
  if buffer.m_size < offset + size then (false, buffer)
  else
    (true,
      { buffer with
        m_data := buffer.m_data.store offset.toInt (copied data size)
        m_conversionManager :=
          merge (addRange buffer.m_conversionManager (Range.make offset.toInt size.toInt)) })

def getConversions (fuel : ℕ) (rIn rOut : RangeList) (buffer : GLESbuffer) : Option (GLESbuffer × RangeList) :=
  (delRanges fuel rIn buffer.m_conversionManager rOut).bind fun (list, deleted) ↦
    some ({ buffer with m_conversionManager := list }, merge deleted)

end GLESbuffer

/-! ## Bounds of an update -/

/-- The update is inside of the buffer. -/
def Inside (m_size offset size : BitVec 32) : Prop := 0 ≤ offset.toInt ∧ offset.toInt + size.toNat ≤ m_size.toNat

/-- An update is made exactly if it is inside, and changes only its bytes. -/
structure ChecksBounds (buffer : GLESbuffer) (offset size : BitVec 32) (data : ℕ → UInt8) : Prop where
  accepted : (buffer.setSubBuffer offset size data).1 = true ↔ Inside buffer.m_size offset size
  written : Inside buffer.m_size offset size →
    (buffer.setSubBuffer offset size data).2.m_data.Holds offset.toInt (GLESbuffer.copied data size)
  unwritten : Inside buffer.m_size offset size →
    ∀ place, ¬ (offset.toInt ≤ place ∧ place < offset.toInt + size.toNat) →
    (buffer.setSubBuffer offset size data).2.m_data place = buffer.m_data place
  unchanged : ¬ Inside buffer.m_size offset size → (buffer.setSubBuffer offset size data).2 = buffer

/-- An update that is not inside does not come to a sum that the buffer has, modulo `2 ^ 32`: neither from above, nor
from an offset before the buffer. -/
structure SumFits (m_size offset size : BitVec 32) : Prop where
  above : 0 ≤ offset.toInt → offset.toInt + size.toNat < 2 ^ 32 ∨ m_size.toNat < offset.toInt + size.toNat - 2 ^ 32
  across : offset.toInt < 0 → 0 ≤ offset.toInt + size.toNat → m_size.toNat < offset.toInt + size.toNat
  before : offset.toInt + size.toNat < 0 → m_size.toNat < offset.toInt + size.toNat + 2 ^ 32

section Bounds

variable {buffer : GLESbuffer} {m_size offset size : BitVec 32} {data : ℕ → UInt8}

theorem length_copied (data : ℕ → UInt8) (size : BitVec 32) : (GLESbuffer.copied data size).length = size.toNat := by
  rw [GLESbuffer.copied, List.length_map, List.length_range]

/-- The check of the code is about the sum of the `GLuint`s. -/
theorem lt_sum_iff : m_size < offset + size ↔ (m_size.toNat : ℤ) < (offset.toInt + size.toNat) % 2 ^ 32 := by
  have hoffset := BitVec.toInt_eq_toNat_cond offset
  rw [BitVec.lt_def, BitVec.toNat_add]
  split_ifs at hoffset <;> omega

theorem not_lt_sum_of_inside (h : Inside m_size offset size) : ¬ m_size < offset + size := by
  have hsize := m_size.isLt
  obtain ⟨hoffset, hsum⟩ := h
  rw [lt_sum_iff]
  omega

theorem sumFits_iff : SumFits m_size offset size ↔ (¬ m_size < offset + size → Inside m_size offset size) := by
  have hoffset := BitVec.toInt_eq_toNat_cond offset
  have hlt := offset.isLt
  have hsize := size.isLt
  rw [lt_sum_iff, Inside]
  constructor
  · rintro ⟨habove, hacross, hbefore⟩ hnot
    split_ifs at hoffset <;> omega
  · intro hfits
    split_ifs at hoffset <;> exact ⟨by omega, by omega, by omega⟩

theorem setSubBuffer_of_lt (h : buffer.m_size < offset + size) :
    buffer.setSubBuffer offset size data = (false, buffer) :=
  if_pos h

theorem setSubBuffer_of_not_lt (h : ¬ buffer.m_size < offset + size) : buffer.setSubBuffer offset size data = (true,
      { buffer with
        m_data := buffer.m_data.store offset.toInt (GLESbuffer.copied data size)
        m_conversionManager :=
          merge (addRange buffer.m_conversionManager (Range.make offset.toInt size.toInt)) }) :=
  if_neg h

theorem accepted_iff : (buffer.setSubBuffer offset size data).1 = true ↔ ¬ buffer.m_size < offset + size := by
  by_cases hlt : buffer.m_size < offset + size
  · rw [setSubBuffer_of_lt hlt]
    exact iff_of_false Bool.false_ne_true (not_not.mpr hlt)
  · rw [setSubBuffer_of_not_lt hlt]
    exact iff_of_true rfl hlt

/-- An update is checked exactly if the sum of its offset and its size does not wrap around. -/
theorem checksBounds_iff (buffer : GLESbuffer) (offset size : BitVec 32) (data : ℕ → UInt8) :
    ChecksBounds buffer offset size data ↔ SumFits buffer.m_size offset size := by
  rw [sumFits_iff]
  constructor
  · exact fun hchecks hlt ↦ hchecks.accepted.mp (accepted_iff.mpr hlt)
  intro hfits
  refine ⟨accepted_iff.trans ⟨hfits, not_lt_sum_of_inside⟩, fun hinside ↦ ?_, fun hinside place hplace ↦ ?_,
    fun hout ↦ ?_⟩
  · rw [setSubBuffer_of_not_lt (not_lt_sum_of_inside hinside)]
    exact ByteMemory.holds_store
  · rw [setSubBuffer_of_not_lt (not_lt_sum_of_inside hinside)]
    refine ByteMemory.store_outside ?_
    rwa [length_copied]
  · have hlt : buffer.m_size < offset + size := not_not.mp fun hlt ↦ hout (hfits hlt)
    rw [setSubBuffer_of_lt hlt]

/-- Four bytes before the buffer are written. -/
theorem update_before_buffer : ¬ ∀ (buffer : GLESbuffer) (offset size : BitVec 32) (data : ℕ → UInt8),
    ChecksBounds buffer offset size data := by
  intro hall
  have hchecks := hall { m_size := 16 } (-4) 8 fun _ ↦ 0
  have hinside : Inside 16 (-4) 8 := hchecks.accepted.mp (by decide)
  exact absurd hinside.1 (by decide)

end Bounds

/-! ## Runs of a buffer -/

inductive Op
  | setBuffer (fresh : ByteMemory) (size usage : BitVec 32) (data : Option (ℕ → UInt8))
  | setSubBuffer (offset size : BitVec 32) (data : ℕ → UInt8)
  | getConversions (rIn rOut : RangeList)

/-- The buffer after an operation, and the list of the caller. -/
def GLESbuffer.perform (fuel : ℕ) (buffer : GLESbuffer) : Op → Option (GLESbuffer × RangeList)
  | .setBuffer fresh size usage data => some ((buffer.setBuffer fresh size usage data).2, [])
  | .setSubBuffer offset size data => some ((buffer.setSubBuffer offset size data).2, [])
  | .getConversions rIn rOut => buffer.getConversions fuel rIn rOut

/-- The bytes that were written and not reported, after an operation. -/
def unreported (buffer : GLESbuffer) (dirty : Set ℤ) : Op → Set ℤ
  | .setBuffer _ size _ _ => Set.Ico 0 size.toNat
  | .setSubBuffer offset size data =>
    if (buffer.setSubBuffer offset size data).1 then dirty ∪ Set.Ico offset.toInt (offset.toInt + size.toNat)
    else dirty
  | .getConversions rIn _ => dirty \ points rIn

/-- Ranges of bytes. -/
def InBytes (list : RangeList) : Prop := ∀ r ∈ list, Proper r ∧ 0 ≤ r.m_start

/-- A caller asks for ranges that are not empty, and its list has ranges of bytes. -/
def Asks : Op → Prop
  | .setBuffer .. => True
  | .setSubBuffer .. => True
  | .getConversions rIn rOut => (∀ r ∈ rIn, Proper r) ∧ InBytes rOut

/-- The size of a buffer is an `int`, and the sum of an update does not wrap around. -/
def Fits (buffer : GLESbuffer) : Op → Prop
  | .setBuffer _ size _ _ => size.toNat < 2 ^ 31
  | .setSubBuffer offset size _ => SumFits buffer.m_size offset size
  | .getConversions _ _ => True

/-- A state of a buffer and the bytes that were written and not reported. -/
inductive Reaches (allowed : GLESbuffer → Op → Prop) : GLESbuffer → Set ℤ → Prop
  | new : Reaches allowed {} ∅
  | step {buffer buffer' : GLESbuffer} {dirty : Set ℤ} {op : Op} {rOut' : RangeList}
      (hreaches : Reaches allowed buffer dirty) (hallowed : allowed buffer op)
      (hstep : Walk.Returns (fun fuel ↦ buffer.perform fuel op) (buffer', rOut')) :
      Reaches allowed buffer' (unreported buffer dirty op)

/-- Exactly the bytes that were asked for and not reported are added to the list of the caller. -/
def Reports (buffer : GLESbuffer) (dirty : Set ℤ) (rIn rOut : RangeList) : Prop :=
  ∃ buffer' rOut', Walk.Returns (fun fuel ↦ buffer.getConversions fuel rIn rOut) (buffer', rOut') ∧
    points rOut' = points rOut ∪ points rIn ∩ dirty

/-- The ranges of a buffer are the bytes that were not reported. -/
structure Tracks (buffer : GLESbuffer) (dirty : Set ℤ) : Prop where
  proper : ∀ r ∈ buffer.m_conversionManager, Proper r
  points_eq : points buffer.m_conversionManager = dirty
  inside : dirty ⊆ Set.Ico 0 buffer.m_size.toNat
  fits : buffer.m_size.toNat < 2 ^ 31

section Runs

variable {buffer buffer' : GLESbuffer} {dirty : Set ℤ} {op : Op} {rIn rOut rOut' : RangeList}
  {fresh : ByteMemory} {offset size usage : BitVec 32}

theorem noLongRun_of_subset {S : Set ℤ} {bound : ℤ} (h : S ⊆ Set.Ico 0 bound) (hbound : bound < 2 ^ 31) :
    NoLongRun S := by
  intro start stop hrun
  by_contra hlong
  have hfirst := h (hrun (Set.mem_Ico.mpr ⟨le_rfl, by omega⟩))
  have hlast : stop - 1 ∈ Set.Ico (0 : ℤ) bound := h (hrun (Set.mem_Ico.mpr ⟨by omega, by omega⟩))
  rw [Set.mem_Ico] at hfirst hlast
  omega

theorem points_subset_of_inBytes (h : InBytes rOut) : points rOut ⊆ Set.Ico 0 (2 ^ 31 - 1) := by
  rintro p ⟨r, hmem, hp⟩
  obtain ⟨hproper, hstart⟩ := h r hmem
  have hupper := hproper.upper
  rw [mem_points_range] at hp
  rw [Set.mem_Ico]
  omega

theorem tracks_setBuffer (hfits : size.toNat < 2 ^ 31) (data : Option (ℕ → UInt8)) :
    Tracks (buffer.setBuffer fresh size usage data).2 (Set.Ico 0 size.toNat) := by
  have hint : size.toInt = size.toNat := BitVec.toInt_eq_toNat_of_lt (by omega)
  have hranges : (buffer.setBuffer fresh size usage data).2.m_conversionManager =
      addRange [] (Range.make 0 size.toNat) := by
    rw [← hint]
    rfl
  rcases Nat.eq_zero_or_pos size.toNat with hzero | hpos
  · have hnil : addRange [] (Range.make 0 size.toNat) = [] := if_neg (by simp [Range.make, hzero])
    refine ⟨?_, ?_, subset_rfl, hfits⟩
    · rw [hranges, hnil]
      exact fun _ hmem ↦ absurd hmem List.not_mem_nil
    · rw [hranges, hnil, points_nil, hzero, Nat.cast_zero, Set.Ico_self]
  · have hproper : Proper (Range.make 0 size.toNat) := proper_make (by omega) (by omega) (by omega) (by omega)
    refine ⟨?_, ?_, subset_rfl, hfits⟩
    · rw [hranges]
      exact forall_addRange hproper fun _ hmem ↦ absurd hmem List.not_mem_nil
    · rw [hranges, points_addRange_of_proper hproper, points_nil, Set.empty_union,
        points_make (by omega) (by omega) (by omega), Int.zero_add]

section

variable (h : Tracks buffer dirty)
include h

/-- The ranges after an accepted update. -/
theorem merges_update (hinside : Inside buffer.m_size offset size) :
    ∃ list, points list = dirty ∪ Set.Ico offset.toInt (offset.toInt + size.toNat) ∧ Merges list (merge
        (addRange buffer.m_conversionManager (Range.make offset.toInt size.toInt))) := by
  obtain ⟨hoffset, hsum⟩ := hinside
  have hfits := h.fits
  have hint : size.toInt = size.toNat := BitVec.toInt_eq_toNat_of_lt (by omega)
  have hwritten : Set.Ico offset.toInt (offset.toInt + size.toNat) ⊆ Set.Ico 0 buffer.m_size.toNat :=
    Set.Ico_subset_Ico hoffset hsum
  have hrun : NoLongRun (dirty ∪ Set.Ico offset.toInt (offset.toInt + size.toNat)) :=
    noLongRun_of_subset (Set.union_subset h.inside hwritten) (by omega)
  rw [hint]
  rcases Nat.eq_zero_or_pos size.toNat with hzero | hpos
  · have hsame : addRange buffer.m_conversionManager (Range.make offset.toInt size.toNat) =
        buffer.m_conversionManager := if_neg (by simp [Range.make, hzero])
    have hpoints : points buffer.m_conversionManager = dirty ∪ Set.Ico offset.toInt (offset.toInt + size.toNat) := by
      rw [h.points_eq, hzero, Nat.cast_zero, Int.add_zero, Set.Ico_self, Set.union_empty]
    refine ⟨_, hpoints, ?_⟩
    rw [hsame]
    exact merge_spec h.proper (hpoints ▸ hrun)
  · have hproper : Proper (Range.make offset.toInt size.toNat) :=
      proper_make (by omega) (by omega) (by omega) (by omega)
    have hpoints : points (addRange buffer.m_conversionManager (Range.make offset.toInt size.toNat)) =
        dirty ∪ Set.Ico offset.toInt (offset.toInt + size.toNat) := by
      rw [points_addRange_of_proper hproper, h.points_eq, points_make (by omega) (by omega) (by omega)]
    exact ⟨_, hpoints, merge_spec (forall_addRange hproper h.proper) (hpoints ▸ hrun)⟩

theorem tracks_setSubBuffer (hfits : SumFits buffer.m_size offset size) (data : ℕ → UInt8) :
    Tracks (buffer.setSubBuffer offset size data).2 (unreported buffer dirty (.setSubBuffer offset size data)) := by
  rw [unreported]
  by_cases hlt : buffer.m_size < offset + size
  · rw [setSubBuffer_of_lt hlt]
    exact h
  · have hinside : Inside buffer.m_size offset size := sumFits_iff.mp hfits hlt
    obtain ⟨list, hpoints, hmerges⟩ := merges_update h hinside
    rw [setSubBuffer_of_not_lt hlt]
    exact ⟨hmerges.proper, hmerges.points_eq.trans hpoints,
      Set.union_subset h.inside (Set.Ico_subset_Ico hinside.1 hinside.2), h.fits⟩

/-- A query ends, and the buffer still tracks what is left. The ranges that come back do not touch. -/
theorem Tracks.getConversions (hrIn : ∀ r ∈ rIn, Proper r) (hrOut : InBytes rOut) :
    ∃ list' rOut', Walk.Returns (fun fuel ↦ buffer.getConversions fuel rIn rOut)
        ({ buffer with m_conversionManager := list' }, rOut') ∧
      points rOut' = points rOut ∪ points rIn ∩ dirty ∧
      Tracks { buffer with m_conversionManager := list' } (dirty \ points rIn) ∧
      (∀ r ∈ rOut', Proper r) ∧ rOut'.Pairwise Separate := by
  obtain ⟨list', deleted', hreturns, hdeletes⟩ :=
    delRanges_spec hrIn h.proper fun r hmem ↦ (hrOut r hmem).1
  have hfits := h.fits
  have hdeleted : points deleted' = points rOut ∪ points rIn ∩ dirty := by
    rw [hdeletes.deleted_eq, h.points_eq, Set.inter_comm]
  have hinside : dirty ⊆ Set.Ico 0 (2 ^ 31 - 1) := h.inside.trans (Set.Ico_subset_Ico le_rfl (by omega))
  have hrun : NoLongRun (points deleted') := by
    rw [hdeleted]
    exact noLongRun_of_subset
      (Set.union_subset (points_subset_of_inBytes hrOut) (Set.inter_subset_right.trans hinside)) (by omega)
  have hmerges := merge_spec hdeletes.deleted_proper hrun
  refine ⟨list', merge deleted', hreturns.bind (Walk.returns_some _), hmerges.points_eq.trans hdeleted,
    ⟨hdeletes.proper, ?_, ?_, hfits⟩, hmerges.proper, hmerges.separate⟩
  · rw [hdeletes.list_eq, h.points_eq]
  · exact Set.sdiff_subset.trans h.inside

theorem tracks_perform (hasks : Asks op) (hfits : Fits buffer op)
    (hstep : Walk.Returns (fun fuel ↦ buffer.perform fuel op) (buffer', rOut')) :
    Tracks buffer' (unreported buffer dirty op) := by
  cases op with
  | setBuffer fresh size usage data =>
    obtain ⟨rfl, -⟩ := Prod.mk.inj ((Walk.returns_some _).unique hstep)
    exact tracks_setBuffer hfits data
  | setSubBuffer offset size data =>
    obtain ⟨rfl, -⟩ := Prod.mk.inj ((Walk.returns_some _).unique hstep)
    exact tracks_setSubBuffer h hfits data
  | getConversions rIn rOut =>
    obtain ⟨_, _, hreturns, -, htracks, -⟩ := h.getConversions hasks.1 hasks.2
    obtain ⟨rfl, -⟩ := Prod.mk.inj (hreturns.unique hstep)
    exact htracks

end

theorem Reaches.tracks (h : Reaches (fun buffer op ↦ Asks op ∧ Fits buffer op) buffer dirty) :
    Tracks buffer dirty := by
  induction h with
  | new => exact ⟨fun _ hmem ↦ absurd hmem List.not_mem_nil, points_nil, Set.empty_subset _, by decide⟩
  | step _ hallowed hstep ih => exact tracks_perform ih hallowed.1 hallowed.2 hstep

/-- Lists of ranges delete and merge exactly, and a buffer reports exactly what was written, as long as its sizes are
`int`s and no sum wraps around. -/
theorem dirty_ranges_exact {list deleted : RangeList} {r : Range} (hlist : Built list) (hdeleted : Built deleted)
    (hr : Proper r) (hreaches : Reaches (fun buffer op ↦ Asks op ∧ Fits buffer op) buffer dirty)
    (hrIn : ∀ r ∈ rIn, Proper r) (hrOut : InBytes rOut) :
    (∃ list' deleted', Walk.Returns (fun fuel ↦ RangeList.delRange fuel r list deleted) (list', deleted') ∧
      points list' = points list \ r.points ∧ points deleted' = points deleted ∪ points list ∩ r.points) ∧
    (NoLongRun (points list) → Merges list (RangeList.merge list)) ∧ Reports buffer dirty rIn rOut := by
  obtain ⟨list', deleted', hreturns, hdeletes⟩ := delRange_spec hr hlist.proper hdeleted.proper
  obtain ⟨_, rOut', hreports, hpoints, -⟩ := hreaches.tracks.getConversions hrIn hrOut
  exact ⟨⟨list', deleted', hreturns, hdeletes.list_eq, hdeletes.deleted_eq⟩, merge_spec hlist.proper,
    ⟨_, rOut', hreports, hpoints⟩⟩

theorem dirty_ranges_exact_bytes :
    (∃ list' deleted', Walk.Returns (fun fuel ↦ RangeList.delRange fuel (Range.make 2 4)
        [Range.make 0 4, Range.make 4 4] []) (list', deleted') ∧
      points list' = points [Range.make 0 4, Range.make 4 4] \ (Range.make 2 4).points ∧
      points deleted' = points [] ∪ points [Range.make 0 4, Range.make 4 4] ∩ (Range.make 2 4).points) ∧
    (NoLongRun (points [Range.make 0 4, Range.make 4 4]) →
      Merges [Range.make 0 4, Range.make 4 4] (RangeList.merge [Range.make 0 4, Range.make 4 4])) ∧
    Reports (({} : GLESbuffer).setBuffer (fun _ ↦ 0) 16 0 none).2
      (unreported {} ∅ (.setBuffer (fun _ ↦ 0) 16 0 none)) [Range.make 2 8] [] := by
  have hproper (start size : ℤ) (hstart : 0 ≤ start) (hsize : 0 < size) (hend : start + size < 100) :
      Proper (Range.make start size) := proper_make (by omega) hsize (by omega) (by omega)
  have hfirst : Proper (Range.make 0 4) := hproper 0 4 (by decide) (by decide) (by decide)
  have hsecond : Proper (Range.make 4 4) := hproper 4 4 (by decide) (by decide) (by decide)
  have hmiddle : Proper (Range.make 2 4) := hproper 2 4 (by decide) (by decide) (by decide)
  have hasked : Proper (Range.make 2 8) := hproper 2 8 (by decide) (by decide) (by decide)
  have hbuilt : Built [Range.make 0 4, Range.make 4 4] := .addRange (.addRange .clear hfirst) hsecond
  have hreaches : Reaches (fun buffer op ↦ Asks op ∧ Fits buffer op) _
      (unreported {} ∅ (.setBuffer (fun _ ↦ 0) 16 0 none)) :=
    .step .new ⟨trivial, show (16 : BitVec 32).toNat < 2 ^ 31 by decide⟩ (Walk.returns_some _)
  exact dirty_ranges_exact hbuilt .clear hmiddle hreaches (List.forall_mem_singleton.mpr hasked)
    fun _ hmem ↦ absurd hmem List.not_mem_nil

/-- A buffer of `2 ^ 31` bytes reports nothing. -/
theorem large_buffer_unreported : ¬ ∀ buffer dirty, Reaches (fun _ op ↦ Asks op) buffer dirty →
    ∀ rIn rOut, (∀ r ∈ rIn, Proper r) → InBytes rOut → Reports buffer dirty rIn rOut := by
  intro hall
  have hreaches : Reaches (fun _ op ↦ Asks op) _ (unreported {} ∅ (.setBuffer (fun _ ↦ 0) (2 ^ 31) 0 none)) :=
    .step .new trivial (Walk.returns_some _)
  have hproper : Proper (Range.make 0 16) := proper_make (by decide) (by decide) (by decide) (by decide)
  obtain ⟨buffer', rOut', hreturns, hpoints⟩ := hall _ _ hreaches [Range.make 0 16] []
    (List.forall_mem_singleton.mpr hproper) fun _ hmem ↦ absurd hmem List.not_mem_nil
  have hnothing : Walk.Returns (fun fuel ↦ (({} : GLESbuffer).setBuffer (fun _ ↦ 0) (2 ^ 31) 0 none).2.getConversions
      fuel [Range.make 0 16] []) ((({} : GLESbuffer).setBuffer (fun _ ↦ 0) (2 ^ 31) 0 none).2, []) := by
    refine ⟨2, fun fuel hfuel ↦ ?_⟩
    obtain ⟨more, rfl⟩ := Nat.exists_eq_add_of_le' hfuel
    rfl
  obtain ⟨-, rfl⟩ := Prod.mk.inj (hnothing.unique hreturns)
  have hzero : (0 : ℤ) ∈ points [] := by
    rw [hpoints]
    refine .inr ⟨⟨Range.make 0 16, List.mem_singleton_self _, Set.mem_Ico.mpr (by decide)⟩, ?_⟩
    exact Set.mem_Ico.mpr (by decide)
  rw [points_nil] at hzero
  exact hzero

end Runs

end FdeEmugl.Ranges
