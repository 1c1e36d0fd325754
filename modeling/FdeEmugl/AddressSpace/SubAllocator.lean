import FdeEmugl.AddressSpace.Allocator
import Mathlib.Data.UInt

/-!
# Allocations in a buffer

A `SubAllocator` gives out ranges of a buffer in whole pages. Requests are rounded up in 64 bits, so a
request close to `2 ^ 64` is rounded to 0; and a buffer that starts at address 0, as that of the physical
offsets does, cannot tell its first page from a failure.

Addresses are 64-bit numbers, and null is 0. A failed assertion, a fatal log message and a write behind the
array of blocks have no result.
-/

namespace FdeEmugl.AddressSpace

open Runs Tiling
open Option (map_eq_some_iff)

/-- There is memory for `array` blocks. -/
structure SubAllocator where
  totalSize : UInt64
  pageSize : UInt64
  startAddr : UInt64
  endAddr : UInt64
  addr_alloc : Allocator
  array : ℕ
  allocCount : UInt32
  deriving DecidableEq

namespace SubAllocator

def new (buffer totalSize pageSize : UInt64) : Option SubAllocator := (init totalSize.toNat 32).map fun addr_alloc ↦
    { totalSize, pageSize, startAddr := buffer, endAddr := buffer + totalSize, addr_alloc, array := 32
      allocCount := 0 }

/-- `LOG(FATAL)` ends the process. -/
def rangeCheck (ptr : UInt64) (s : SubAllocator) : Bool := s.startAddr ≤ ptr ∧ ptr ≤ s.endAddr

def getOffset (checkedPtr : UInt64) (s : SubAllocator) : UInt64 := checkedPtr - s.startAddr

/-- Whether the pointer was freed, and the allocator afterwards. -/
def free (ptr : UInt64) (s : SubAllocator) : Option (Bool × SubAllocator) :=
  if ptr = 0 then some (false, s)
  else if s.rangeCheck ptr then
    (deallocate s.addr_alloc (s.getOffset ptr).toNat).map fun (error, addr_alloc) ↦
      if error = EINVAL then (false, { s with addr_alloc })
      else (true, { s with addr_alloc, allocCount := s.allocCount - 1 })
  else none

def freeAll (s : SubAllocator) : Option SubAllocator :=
  (reset s.addr_alloc).map fun addr_alloc ↦ { s with addr_alloc, allocCount := 0 }

def toPageSize (wantedSize : UInt64) (s : SubAllocator) : UInt64 :=
  s.pageSize * ((wantedSize + s.pageSize - 1) / s.pageSize)

/-- The pointer that is returned, and the allocator afterwards. The array moves when the capacity grows. -/
def alloc (wantedSize : UInt64) (s : SubAllocator) : Option (UInt64 × SubAllocator) := do
  if wantedSize = 0 then return (0, s)
  let (offset, addr_alloc) ← allocate s.addr_alloc (s.toPageSize wantedSize).toNat
  let array := if addr_alloc.capacity = s.addr_alloc.capacity then s.array else addr_alloc.capacity
  if addr_alloc.blocks.length ≤ array then
    if offset = ANDROID_EMU_ADDRESS_SPACE_BAD_OFFSET then return (0, { s with addr_alloc, array })
    return (s.startAddr + UInt64.ofNat offset, { s with addr_alloc, array, allocCount := s.allocCount + 1 })
  else none

def empty (s : SubAllocator) : Bool := s.allocCount = 0

end SubAllocator

/-! ## Sessions -/

namespace SubAllocator

inductive Call where
  | alloc (wantedSize : UInt64)
  | free (ptr : UInt64)
  | freeAll
  deriving DecidableEq

/-- The pointers that were returned and not freed, with the sizes that were wanted. -/
structure Session where
  sub : SubAllocator
  live : List (UInt64 × UInt64)
  deriving DecidableEq

def step : Call → Session → Option Session
  | .alloc wantedSize, s => (s.sub.alloc wantedSize).map fun (ptr, sub) ↦
      { sub, live := if ptr = 0 then s.live else (ptr, wantedSize) :: s.live }
  | .free ptr, s => (s.sub.free ptr).map fun (freed, sub) ↦
      { sub, live := if freed then s.live.filter fun range ↦ range.1 ≠ ptr else s.live }
  | .freeAll, s => s.sub.freeAll.map fun sub ↦ { sub, live := [] }

/-- What users of the buffer rely on. -/
structure Correct (buffer totalSize : UInt64) (s : Session) : Prop where
  inside : ∀ range ∈ s.live, buffer.toNat ≤ range.1.toNat ∧
    range.1.toNat + range.2.toNat ≤ buffer.toNat + totalSize.toNat
  disjoint : s.live.Pairwise fun range other ↦ range.1.toNat + range.2.toNat ≤ other.1.toNat ∨
    other.1.toNat + other.2.toNat ≤ range.1.toNat
  size_pos : ∀ block ∈ s.sub.addr_alloc.blocks, 0 < block.size
  empty_iff : s.sub.empty = true ↔ s.live = []
  free_again : ∀ ptr next, s.sub.free ptr = some (true, next) → next.free ptr = some (false, next)

/-- A request can be rounded up, or nothing is left for it; and in a buffer at address 0 it does not take
exactly the rest in front. -/
def Serves : Call → Session → Prop
  | .alloc wantedSize, s => wantedSize = 0 ∨ ((wantedSize.toNat + s.sub.pageSize.toNat ≤ 2 ^ 64 ∨
        ∀ block ∈ s.sub.addr_alloc.blocks, block.available = false) ∧
      (s.sub.startAddr = 0 → ∀ block ∈ s.sub.addr_alloc.blocks, block.offset = 0 → block.available = true →
        block.size ≠ (s.sub.toPageSize wantedSize).toNat))
  | _, _ => True

/-! ## The invariant -/

/-- The offset and the number of bytes that a live allocation has in the allocator of blocks. -/
def range (s : SubAllocator) (allocation : UInt64 × UInt64) : ℕ × ℕ :=
  ((s.getOffset allocation.1).toNat, (s.toPageSize allocation.2).toNat)

/-- The allocator of blocks holds the ranges of the live allocations. Of the total it knows the lower
63 bits. -/
structure Held (buffer totalSize : UInt64) (s : Session) : Prop where
  startAddr_eq : s.sub.startAddr = buffer
  total_eq : s.sub.addr_alloc.total_bytes = totalSize.toNat
  sound : Sound (stored totalSize.toNat) ⟨s.sub.addr_alloc.withTotal (stored totalSize.toNat), s.live.map s.sub.range⟩
  wanted : ∀ allocation ∈ s.live, allocation.2.toNat ≤ (s.sub.toPageSize allocation.2).toNat
  count : s.sub.allocCount.toNat = s.live.length
  capacity : s.sub.addr_alloc.capacity < 2 ^ 31
  array_eq : s.sub.array = s.sub.addr_alloc.capacity
  pageSize_pos : 0 < s.sub.pageSize.toNat

section Held

variable {buffer totalSize wantedSize ptr : UInt64} {s next : Session}

variable {sub : SubAllocator}

theorem stored_lt (size : ℕ) : stored size < 2 ^ 63 := Nat.mod_lt _ (by decide)

theorem stored_le (size : ℕ) : stored size ≤ size := Nat.mod_le _ _

section

variable (hpage : 0 < sub.pageSize.toNat) (h : wantedSize.toNat + sub.pageSize.toNat ≤ 2 ^ 64)
include hpage h

theorem toNat_rounded (hwanted : wantedSize ≠ 0) :
    (wantedSize + sub.pageSize - 1).toNat = wantedSize.toNat + sub.pageSize.toNat - 1 := by
  have hpos : 0 < wantedSize.toNat := Nat.pos_of_ne_zero fun hzero ↦ hwanted (UInt64.toNat_inj.mp hzero)
  rw [UInt64.toNat_sub, UInt64.toNat_add, UInt64.toNat_one]
  omega

theorem wantedSize_le_toPageSize : wantedSize.toNat ≤ (sub.toPageSize wantedSize).toNat := by
  by_cases hwanted : wantedSize = 0
  · rw [hwanted]
    exact Nat.zero_le _
  have hsum := toNat_rounded hpage h hwanted
  have hlt := (wantedSize + sub.pageSize - 1).toNat_lt
  unfold toPageSize
  rw [UInt64.toNat_mul, UInt64.toNat_div]
  have hle := Nat.mul_div_le (wantedSize + sub.pageSize - 1).toNat sub.pageSize.toNat
  have hnext := Nat.lt_mul_div_succ (wantedSize + sub.pageSize - 1).toNat hpage
  rw [Nat.mul_add, Nat.mul_one] at hnext
  rw [Nat.mod_eq_of_lt (hle.trans_lt hlt)]
  omega

end

theorem held_new {pageSize : UInt64} (hpage : 0 < pageSize.toNat) (htotal : 0 < stored totalSize.toNat)
    (h : new buffer totalSize pageSize = some sub) : Held buffer totalSize ⟨sub, []⟩ := by
  obtain ⟨addr_alloc, hinit, rfl⟩ := map_eq_some_iff.mp h
  cases hinit
  have hidem : stored (stored totalSize.toNat) = stored totalSize.toNat := Nat.mod_mod _ _
  have hsound := sound_init htotal (stored_lt _) (rfl : init (stored totalSize.toNat) 32 = some _)
  rw [hidem] at hsound
  have hcapacity : 32 < 2 ^ 31 := by decide
  exact ⟨rfl, rfl, hsound, fun _ h ↦ absurd h List.not_mem_nil, rfl, hcapacity, rfl, hpage⟩

section

variable (h : Held buffer totalSize s)
include h

/-- The live allocations lie in the bytes that the allocator knows. -/
theorem Held.range_bounds {allocation : UInt64 × UInt64} (hmem : allocation ∈ s.live) :
    0 < (s.sub.range allocation).2 ∧
      (s.sub.range allocation).1 + (s.sub.range allocation).2 ≤ stored totalSize.toNat := by
  have hheld := h.sound.held.mem_iff.mp (List.mem_map_of_mem hmem)
  obtain ⟨block, hblock, _, heq⟩ := mem_taken.mp hheld
  obtain ⟨_, hpos, hle⟩ := h.sound.tiles.bounds hblock
  rw [← heq]
  exact ⟨hpos, hle⟩

theorem Held.ptr_eq (hbuffer : buffer.toNat + totalSize.toNat ≤ 2 ^ 64) {allocation : UInt64 × UInt64}
    (hmem : allocation ∈ s.live) : allocation.1.toNat = buffer.toNat + (s.sub.range allocation).1 := by
  obtain ⟨hpos, hle⟩ := h.range_bounds hmem
  have htotal := stored_le totalSize.toNat
  have hptr : allocation.1 = s.sub.getOffset allocation.1 + s.sub.startAddr := by
    unfold getOffset
    rw [UInt64.sub_add_cancel]
  conv_lhs => rw [hptr]
  rw [UInt64.toNat_add, h.startAddr_eq]
  change ((s.sub.range allocation).1 + buffer.toNat) % 2 ^ 64 = _
  omega

theorem Held.correct_inside (hbuffer : buffer.toNat + totalSize.toNat ≤ 2 ^ 64) :
    ∀ allocation ∈ s.live, buffer.toNat ≤ allocation.1.toNat ∧
      allocation.1.toNat + allocation.2.toNat ≤ buffer.toNat + totalSize.toNat := by
  intro allocation hmem
  have hptr := h.ptr_eq hbuffer hmem
  have hwanted : allocation.2.toNat ≤ (s.sub.range allocation).2 := h.wanted allocation hmem
  have htotal := stored_le totalSize.toNat
  obtain ⟨_, hle⟩ := h.range_bounds hmem
  omega

theorem Held.correct_disjoint (hbuffer : buffer.toNat + totalSize.toNat ≤ 2 ^ 64) :
    s.live.Pairwise fun range other ↦ range.1.toNat + range.2.toNat ≤ other.1.toNat ∨
      other.1.toNat + other.2.toNat ≤ range.1.toNat := by
  refine (List.pairwise_map.mp h.sound.held_disjoint).imp_of_mem fun {range other} hrange hother hapart ↦ ?_
  have hptr := h.ptr_eq hbuffer hrange
  have hptr' := h.ptr_eq hbuffer hother
  have hwanted : range.2.toNat ≤ (s.sub.range range).2 := h.wanted range hrange
  have hwanted' : other.2.toNat ≤ (s.sub.range other).2 := h.wanted other hother
  omega

theorem Held.wellFormed (htotal : 0 < stored totalSize.toNat) :
    WellFormed s.sub.addr_alloc.blocks := h.sound.wellFormed htotal (stored_lt _)

theorem Held.length_lt : s.live.length < 2 ^ 31 := by
  have htaken := h.sound.held.length_eq
  have hblocks : (taken s.sub.addr_alloc.blocks).length ≤ s.sub.addr_alloc.blocks.length := by
    unfold taken
    rw [List.length_map]
    exact List.length_filter_le _ _
  have hcapacity : s.sub.addr_alloc.blocks.length ≤ s.sub.addr_alloc.capacity := h.sound.capacity
  have hlt := h.capacity
  rw [List.length_map] at htaken
  exact htaken.trans_lt (hblocks.trans_lt (hcapacity.trans_lt hlt))

theorem Held.empty_iff : s.sub.empty = true ↔ s.live = [] := by
  have hcount := h.count
  rw [empty, decide_eq_true_eq, ← UInt32.toNat_inj, hcount]
  exact List.length_eq_zero_iff

end

end Held

/-! ## What the operations do -/

section Steps

variable {buffer totalSize wantedSize ptr : UInt64} {s next : Session} {sub last : SubAllocator}

theorem alloc_cases (h : sub.alloc wantedSize = some (ptr, last)) : (wantedSize = 0 ∧ ptr = 0 ∧ last = sub) ∨
    ∃ offset addr_alloc, wantedSize ≠ 0 ∧
      allocate sub.addr_alloc (sub.toPageSize wantedSize).toNat = some (offset, addr_alloc) ∧
      ∃ array, array = (if addr_alloc.capacity = sub.addr_alloc.capacity then sub.array else addr_alloc.capacity) ∧
        addr_alloc.blocks.length ≤ array ∧
        ((offset = ANDROID_EMU_ADDRESS_SPACE_BAD_OFFSET ∧ ptr = 0 ∧ last = { sub with addr_alloc, array }) ∨
          (offset ≠ ANDROID_EMU_ADDRESS_SPACE_BAD_OFFSET ∧ ptr = sub.startAddr + UInt64.ofNat offset ∧
            last = { sub with addr_alloc, array, allocCount := sub.allocCount + 1 })) := by
  unfold alloc at h
  by_cases hwanted : wantedSize = 0
  · rw [if_pos hwanted] at h
    cases h
    exact .inl ⟨hwanted, rfl, rfl⟩
  rw [if_neg hwanted] at h
  obtain ⟨⟨offset, addr_alloc⟩, hallocate, h⟩ := Option.bind_eq_some_iff.mp h
  obtain ⟨hroom, h⟩ := Option.ite_none_right_eq_some.mp h
  refine .inr ⟨offset, addr_alloc, hwanted, hallocate, _, rfl, hroom, ?_⟩
  by_cases hbad : offset = ANDROID_EMU_ADDRESS_SPACE_BAD_OFFSET
  · rw [if_pos hbad] at h
    cases h
    exact .inl ⟨hbad, rfl, rfl⟩
  · rw [if_neg hbad] at h
    cases h
    exact .inr ⟨hbad, rfl, rfl⟩

theorem free_cases {freed : Bool} (hnodup : (sub.addr_alloc.blocks.map Block.offset).Nodup)
    (h : sub.free ptr = some (freed, last)) :
    (freed = false ∧ last = sub) ∨
    (freed = true ∧ ptr ≠ 0 ∧ sub.rangeCheck ptr = true ∧ ∃ addr_alloc,
      deallocate sub.addr_alloc (sub.getOffset ptr).toNat = some (0, addr_alloc) ∧
      last = { sub with addr_alloc, allocCount := sub.allocCount - 1 }) := by
  unfold free at h
  by_cases hnull : ptr = 0
  · rw [if_pos hnull] at h
    cases h
    exact .inl ⟨rfl, rfl⟩
  rw [if_neg hnull] at h
  obtain ⟨hrange, h⟩ := Option.ite_none_right_eq_some.mp h
  obtain ⟨⟨error, addr_alloc⟩, hdeallocate, h⟩ := map_eq_some_iff.mp h
  obtain ⟨rfl, rfl, _⟩ | ⟨_, _, _, _, _, _, rfl, _⟩ := deallocate_cases hnodup hdeallocate
  · simp only [if_pos rfl] at h
    cases h
    exact .inl ⟨rfl, rfl⟩
  · simp only at h
    rw [if_neg (by decide)] at h
    cases h
    exact .inr ⟨rfl, hnull, hrange, addr_alloc, hdeallocate, rfl⟩

theorem array_next {addr_alloc : Allocator} {array : ℕ} (hsame : sub.array = sub.addr_alloc.capacity)
    (harray : array = if addr_alloc.capacity = sub.addr_alloc.capacity then sub.array else addr_alloc.capacity) :
    array = addr_alloc.capacity := by
  rw [harray]
  split_ifs with hcapacity
  · rw [hsame, hcapacity]
  · rfl

theorem Held.nodup_offsets (h : Held buffer totalSize s) :
    (s.sub.addr_alloc.blocks.map Block.offset).Nodup := h.sound.tiles.starts_nodup

/-- Only an allocation of nothing left is rounded to 0 bytes. -/
theorem Serves.toPageSize_pos (h : Serves (.alloc wantedSize) s) (hpage : 0 < s.sub.pageSize.toNat)
    (hwanted : wantedSize ≠ 0) : (0 < (s.sub.toPageSize wantedSize).toNat ∧
        wantedSize.toNat ≤ (s.sub.toPageSize wantedSize).toNat) ∨
      ∀ block ∈ s.sub.addr_alloc.blocks, block.available = false := by
  obtain ⟨hfits | hnone, _⟩ := h.resolve_left hwanted
  · have hle := wantedSize_le_toPageSize hpage hfits
    have hpos : 0 < wantedSize.toNat := Nat.pos_of_ne_zero fun hzero ↦ hwanted (UInt64.toNat_inj.mp hzero)
    exact .inl ⟨hpos.trans_le hle, hle⟩
  · exact .inr hnone

theorem Held.alloc (h : Held buffer totalSize s) (hbuffer : buffer.toNat + totalSize.toNat ≤ 2 ^ 64)
    (htotal : 0 < stored totalSize.toNat) (hserves : Serves (.alloc wantedSize) s)
    (hstep : step (.alloc wantedSize) s = some next) : Held buffer totalSize next := by
  obtain ⟨⟨ptr, last⟩, halloc, rfl⟩ := map_eq_some_iff.mp hstep
  have hformed := h.wellFormed htotal
  obtain ⟨_, rfl, rfl⟩ | ⟨offset, addr_alloc, hwanted, hallocate, array, harray, _, hresult⟩ := alloc_cases halloc
  · exact h
  have hsize := hserves.toPageSize_pos h.pageSize_pos hwanted
  have hcapacity := allocate_capacity hallocate h.capacity
  have hnext := array_next h.array_eq harray
  have hwith : allocate (s.sub.addr_alloc.withTotal (stored totalSize.toNat)) (s.sub.toPageSize wantedSize).toNat =
      some (offset, addr_alloc.withTotal (stored totalSize.toNat)) := by
    rw [allocate_withTotal, hallocate]
    rfl
  obtain ⟨hbad, rfl, hlast⟩ | ⟨hgood, hptr, hlast⟩ := hresult
  · obtain ⟨_, rfl, _⟩ | ⟨front, block, back, hblocks, _, _, hend, _⟩ :=
      allocate_cases hformed h.sound.capacity hallocate
    · rw [hlast]
      simp only [if_pos]
      exact ⟨h.startAddr_eq, h.total_eq, h.sound, h.wanted, h.count, h.capacity, hnext, h.pageSize_pos⟩
    · exact absurd hbad (h.sound.ne_bad (stored_lt _) (show block ∈ s.sub.addr_alloc.blocks by simp [hblocks]) hend)
  obtain ⟨hbad, _⟩ | ⟨front, block, back, hblocks, ⟨hfits, havailable⟩, _, hend, _⟩ :=
    allocate_cases hformed h.sound.capacity hallocate
  · exact absurd hbad hgood
  have hmem : block ∈ s.sub.addr_alloc.blocks := by simp [hblocks]
  obtain ⟨hpos, hle⟩ := hsize.resolve_right fun hnone ↦ by
    rw [hnone block hmem] at havailable
    cases havailable
  have hsound := h.sound.allocate htotal (stored_lt _) hpos hwith
  rw [if_neg hgood] at hsound
  -- the new range lies in the bytes that the allocator knows
  have hbound := (h.sound.tiles.bounds hmem).2.2
  have hknown := stored_le totalSize.toNat
  have hlt : offset < 2 ^ 64 := by
    have htotal' := totalSize.toNat_lt
    omega
  have hoffset : (UInt64.ofNat offset).toNat = offset := UInt64.toNat_ofNat_of_lt' hlt
  have hrange : s.sub.range (ptr, wantedSize) = (offset, (s.sub.toPageSize wantedSize).toNat) := by
    unfold range getOffset
    rw [hptr, UInt64.add_comm, UInt64.add_sub_cancel, hoffset]
  have hnotNull : ptr ≠ 0 := by
    intro hzero
    have hsum : ptr.toNat = buffer.toNat + offset := by
      rw [hptr, UInt64.toNat_add, h.startAddr_eq, hoffset]
      omega
    rw [hzero] at hsum
    have hstart : s.sub.startAddr = 0 := by
      rw [h.startAddr_eq, ← UInt64.toNat_inj]
      have hsum' : 0 = buffer.toNat + offset := hsum
      exact (show buffer.toNat = 0 by omega)
    have hzero' : offset = 0 := by
      have hsum' : 0 = buffer.toNat + offset := hsum
      omega
    exact (hserves.resolve_left hwanted).2 hstart block hmem (by omega) havailable (by omega)
  rw [hlast]
  simp only [if_neg hnotNull]
  refine ⟨h.startAddr_eq, ?_, ?_, ?_, ?_, hcapacity, hnext, h.pageSize_pos⟩
  · exact (allocate_total hallocate).trans h.total_eq
  · change Sound _ ⟨_, s.sub.range (ptr, wantedSize) :: s.live.map s.sub.range⟩
    rw [hrange]
    exact hsound
  · exact List.forall_mem_cons.mpr ⟨hle, h.wanted⟩
  · have hlength := h.length_lt
    change (s.sub.allocCount + 1).toNat = s.live.length + 1
    rw [UInt32.toNat_add, h.count, UInt32.toNat_one]
    omega

/-- The offsets of the live allocations differ. -/
theorem Held.nodup_live (h : Held buffer totalSize s) : ((s.live.map s.sub.range).map Prod.fst).Nodup := by
  have htaken : ((taken s.sub.addr_alloc.blocks).map Prod.fst).Sublist (s.sub.addr_alloc.blocks.map Block.offset) := by
    unfold taken
    rw [List.map_map]
    exact List.filter_sublist.map _
  exact ((h.sound.held.map Prod.fst).nodup_iff).mpr (htaken.nodup h.nodup_offsets)

theorem range_eq_offset {allocation : UInt64 × UInt64} :
    (sub.range allocation).1 = (sub.getOffset ptr).toNat ↔ allocation.1 = ptr := by
  unfold range getOffset
  rw [UInt64.toNat_inj]
  exact ⟨fun heq ↦ by rw [← UInt64.sub_add_cancel allocation.1 sub.startAddr, heq, UInt64.sub_add_cancel],
    fun heq ↦ by rw [heq]⟩

theorem filter_range {live : List (UInt64 × UInt64)} :
    (live.map sub.range).filter (fun range ↦ range.1 ≠ (sub.getOffset ptr).toNat) =
      (live.filter fun allocation ↦ allocation.1 ≠ ptr).map sub.range := by
  rw [List.filter_map]
  refine congrArg _ (List.filter_congr fun allocation _ ↦ ?_)
  simp only [Function.comp_apply, ne_eq, range_eq_offset]

section

variable (h : Held buffer totalSize s)
include h

theorem Held.length_filter {allocation : UInt64 × UInt64} (hmem : allocation ∈ s.live) :
    (s.live.filter fun other ↦ other.1 ≠ allocation.1).length + 1 = s.live.length := by
  have hnodup : (s.live.map Prod.fst).Nodup := by
    refine List.Nodup.of_map (fun ptr ↦ (s.sub.getOffset ptr).toNat) ?_
    have hlive := h.nodup_live
    rw [List.map_map] at hlive ⊢
    exact hlive
  have hpos := List.length_pos_of_mem hmem
  have herase := List.length_erase_of_mem (List.mem_map_of_mem (f := Prod.fst) hmem)
  rw [hnodup.erase_eq_filter, List.filter_map, List.length_map, List.length_map] at herase
  have hsame : s.live.filter (fun other ↦ other.1 ≠ allocation.1) =
      s.live.filter ((fun other ↦ other != allocation.1) ∘ Prod.fst) :=
    List.filter_congr fun other _ ↦ by rw [Bool.eq_iff_iff]; simp
  rw [hsame, herase]
  omega

theorem Held.free (hstep : step (.free ptr) s = some next) : Held buffer totalSize next := by
  obtain ⟨⟨freed, last⟩, hfree, rfl⟩ := map_eq_some_iff.mp hstep
  obtain ⟨rfl, rfl⟩ | ⟨rfl, _, _, addr_alloc, hdeallocate, rfl⟩ := free_cases h.nodup_offsets hfree
  · exact h
  have hwith : deallocate (s.sub.addr_alloc.withTotal (stored totalSize.toNat)) (s.sub.getOffset ptr).toNat =
      some (0, addr_alloc.withTotal (stored totalSize.toNat)) := by
    rw [deallocate_withTotal, hdeallocate]
    rfl
  have hsound := h.sound.deallocate (stored_lt _) hwith
  rw [if_pos rfl, filter_range] at hsound
  obtain ⟨range, hrange, hoffset⟩ := (h.sound.deallocate_spec hwith).1.mp rfl
  obtain ⟨allocation, hmem, rfl⟩ := List.mem_map.mp hrange
  obtain rfl := range_eq_offset.mp hoffset
  have hlength := h.length_filter hmem
  have hcapacity := deallocate_capacity hdeallocate
  refine ⟨h.startAddr_eq, (deallocate_total hdeallocate).trans h.total_eq, hsound, ?_, ?_, ?_, ?_, h.pageSize_pos⟩
  · exact fun other hother ↦ h.wanted other (List.mem_filter.mp hother).1
  · have hlt := h.length_lt
    change (s.sub.allocCount - 1).toNat = (s.live.filter fun other ↦ other.1 ≠ allocation.1).length
    rw [UInt32.toNat_sub, h.count, UInt32.toNat_one]
    omega
  · exact hcapacity.trans_lt h.capacity
  · exact h.array_eq.trans hcapacity.symm

theorem Held.freeAll (htotal : 0 < stored totalSize.toNat) (hstep : step .freeAll s = some next) :
    Held buffer totalSize next := by
  obtain ⟨last, hfreeAll, rfl⟩ := map_eq_some_iff.mp hstep
  obtain ⟨addr_alloc, hreset, rfl⟩ := map_eq_some_iff.mp hfreeAll
  obtain ⟨hlength, hsome⟩ := Option.ite_none_right_eq_some.mp hreset
  cases hsome
  have hwith : reset (s.sub.addr_alloc.withTotal (stored totalSize.toNat)) = some
      (Allocator.withTotal (stored totalSize.toNat)
        { s.sub.addr_alloc with blocks := [⟨0, stored s.sub.addr_alloc.total_bytes, true⟩] }) := by
    rw [h.total_eq]
    unfold reset
    rw [withTotal_blocks, if_pos hlength]
    simp [Allocator.withTotal, stored]
  have hsound := h.sound.reset htotal (stored_lt _) hwith
  exact ⟨h.startAddr_eq, h.total_eq, hsound, fun _ hmem ↦ absurd hmem List.not_mem_nil, rfl, h.capacity, h.array_eq,
    h.pageSize_pos⟩

theorem Held.step {call : Call} (hbuffer : buffer.toNat + totalSize.toNat ≤ 2 ^ 64)
    (htotal : 0 < stored totalSize.toNat) (hserves : Serves call s) (hstep : step call s = some next) :
    Held buffer totalSize next := by
  cases call with
  | alloc wantedSize => exact h.alloc hbuffer htotal hserves hstep
  | free ptr => exact h.free hstep
  | freeAll => exact h.freeAll htotal hstep

/-- Whether an offset is given back depends on whether a live allocation starts there. -/
theorem Held.exists_deallocate (htotal : 0 < stored totalSize.toNat) (ptr : UInt64) :
    ∃ error addr_alloc, deallocate s.sub.addr_alloc (s.sub.getOffset ptr).toNat = some (error, addr_alloc) ∧
      ((error = EINVAL ∧ addr_alloc = s.sub.addr_alloc ∧ ∀ allocation ∈ s.live, allocation.1 ≠ ptr) ∨
        (error = 0 ∧ ∃ allocation ∈ s.live, allocation.1 = ptr)) := by
  have hsome := h.sound.deallocate_isSome htotal (stored_lt _) (s.sub.getOffset ptr).toNat
  rw [deallocate_withTotal, Option.isSome_map] at hsome
  obtain ⟨⟨error, addr_alloc⟩, hdeallocate⟩ := Option.isSome_iff_exists.mp hsome
  have hwith : deallocate (s.sub.addr_alloc.withTotal (stored totalSize.toNat)) (s.sub.getOffset ptr).toNat =
      some (error, addr_alloc.withTotal (stored totalSize.toNat)) := by
    rw [deallocate_withTotal, hdeallocate]
    rfl
  have hheld := (h.sound.deallocate_spec hwith).1
  refine ⟨error, addr_alloc, hdeallocate, ?_⟩
  obtain ⟨rfl, rfl, _⟩ | ⟨_, _, _, _, _, _, rfl, _⟩ := deallocate_cases h.nodup_offsets hdeallocate
  · refine .inl ⟨rfl, rfl, fun allocation hmem heq ↦ absurd (hheld.mpr ?_) (by decide)⟩
    exact ⟨_, List.mem_map_of_mem hmem, range_eq_offset.mpr heq⟩
  · obtain ⟨range, hrange, hoffset⟩ := hheld.mp rfl
    obtain ⟨allocation, hmem, rfl⟩ := List.mem_map.mp hrange
    exact .inr ⟨rfl, allocation, hmem, range_eq_offset.mp hoffset⟩

/-- A pointer is freed exactly if it is a live one. -/
theorem Held.free_eq (htotal : 0 < stored totalSize.toNat) (hnull : ptr ≠ 0) (hrange : s.sub.rangeCheck ptr = true) :
    ((∃ allocation ∈ s.live, allocation.1 = ptr) ∧ ∃ last, s.sub.free ptr = some (true, last)) ∨
      ((∀ allocation ∈ s.live, allocation.1 ≠ ptr) ∧ s.sub.free ptr = some (false, s.sub)) := by
  obtain ⟨error, addr_alloc, hdeallocate, ⟨rfl, rfl, hgone⟩ | ⟨rfl, hlive⟩⟩ := h.exists_deallocate htotal ptr
  · refine .inr ⟨hgone, ?_⟩
    simp only [SubAllocator.free, if_neg hnull, if_pos hrange, hdeallocate, Option.map_some, if_pos]
  · refine .inl ⟨hlive, ?_⟩
    simp only [SubAllocator.free, if_neg hnull, if_pos hrange, hdeallocate, Option.map_some]
    rw [if_neg (by decide)]
    exact ⟨_, rfl⟩

theorem Held.free_again (htotal : 0 < stored totalSize.toNat) (hfree : s.sub.free ptr = some (true, last)) :
    last.free ptr = some (false, last) := by
  have hnext : Held buffer totalSize ⟨last, s.live.filter fun allocation ↦ allocation.1 ≠ ptr⟩ :=
    h.free (by rw [SubAllocator.step, hfree]; rfl)
  obtain ⟨hfalse, _⟩ | ⟨_, hnull, hrange, addr_alloc, _, rfl⟩ := free_cases h.nodup_offsets hfree
  · cases hfalse
  obtain ⟨⟨allocation, hmem, heq⟩, _⟩ | ⟨_, hfalse⟩ := hnext.free_eq htotal hnull hrange
  · exact absurd heq (of_decide_eq_true (List.mem_filter.mp hmem).2)
  · exact hfalse

theorem Held.correct (hbuffer : buffer.toNat + totalSize.toNat ≤ 2 ^ 64) (htotal : 0 < stored totalSize.toNat) :
    Correct buffer totalSize s where
  inside := h.correct_inside hbuffer
  disjoint := h.correct_disjoint hbuffer
  size_pos := (h.wellFormed htotal).size_pos
  empty_iff := h.empty_iff
  free_again := fun _ _ hfree ↦ h.free_again htotal hfree

end

end Steps

instance decidableServes : (call : Call) → (s : Session) → Decidable (Serves call s)
  | .alloc _, _ => inferInstanceAs (Decidable (_ ∨ _))
  | .free _, _ | .freeAll, _ => isTrue trivial

/-- In every run in which no request is rounded to 0 and none takes the null address, users can rely on what
they get. -/
theorem correct_of_run (buffer totalSize pageSize : UInt64) (sub : SubAllocator) (calls : List Call) (s : Session)
    (hpage : 0 < pageSize.toNat) (hbuffer : buffer.toNat + totalSize.toNat ≤ 2 ^ 64)
    (htotal : 0 < totalSize.toNat % 2 ^ 63) (hnew : new buffer totalSize pageSize = some sub)
    (hserves : Guarded step Serves ⟨sub, []⟩ calls) (hrun : run step ⟨sub, []⟩ calls = some s) :
    Correct buffer totalSize s := by
  have hheld : Held buffer totalSize s := invariant_of_guarded (Held buffer totalSize)
    (fun _ _ _ h hserves hstep ↦ h.step hbuffer htotal hserves hstep) (held_new hpage htotal hnew) hserves hrun
  exact hheld.correct hbuffer htotal

/-- Requests of one byte, of a page and of what is left. -/
def threeRequests : List Call := [.alloc 1, .alloc 4096, .free 0xf000, .alloc 0xe000, .free 0xf000, .alloc 8192]

theorem correct_threeRequests : ∃ sub s, new 0x1000 0x10000 4096 = some sub ∧
    Guarded step Serves ⟨sub, []⟩ threeRequests ∧ run step ⟨sub, []⟩ threeRequests = some s ∧
    s.live = [(0x2000, 0xe000), (0x10000, 1)] ∧ Correct 0x1000 0x10000 s := by
  obtain ⟨sub, hnew⟩ : ∃ sub, new 0x1000 0x10000 4096 = some sub := ⟨_, rfl⟩
  have hserves : ∀ sub ∈ new 0x1000 0x10000 4096, Guarded step Serves ⟨sub, []⟩ threeRequests := by
    decide +kernel
  have hlive : ∀ sub ∈ new 0x1000 0x10000 4096, (run step ⟨sub, []⟩ threeRequests).map Session.live =
      some [(0x2000, 0xe000), (0x10000, 1)] := by
    decide +kernel
  obtain ⟨s, hrun, hs⟩ := map_eq_some_iff.mp (hlive sub hnew)
  exact ⟨sub, s, hnew, hserves sub hnew, hrun, hs, correct_of_run 0x1000 0x10000 4096 sub threeRequests s
    (by decide) (by decide) (by decide) hnew (hserves sub hnew) hrun⟩

/-- A request is rounded to 0 bytes and gets a pointer behind the buffer, and the next request fails an
assertion; and the only page of a buffer at address 0 is taken without a pointer to it. -/
theorem rounded_to_zero_and_null :
    (∃ sub s, new 0x1000 0x10000 4096 = some sub ∧ step (.alloc 0xffffffffffffffff) ⟨sub, []⟩ = some s ∧
      s.live = [(0x11000, 0xffffffffffffffff)] ∧ s.sub.alloc 1 = none ∧ ¬ Correct 0x1000 0x10000 s) ∧
    ∃ sub s, new 0 0x1000 4096 = some sub ∧ step (.alloc 4096) ⟨sub, []⟩ = some s ∧
      s.live = [] ∧ s.sub.empty = false ∧ ¬ Correct 0 0x1000 s := by
  constructor
  · have hstep : ((new 0x1000 0x10000 4096).bind fun sub ↦ step (.alloc 0xffffffffffffffff) ⟨sub, []⟩).map
        (fun s ↦ (s.live, s.sub.alloc 1)) = some ([(0x11000, 0xffffffffffffffff)], none) := by
      decide +kernel
    obtain ⟨s, hboth, hs⟩ := map_eq_some_iff.mp hstep
    obtain ⟨sub, hnew, hstep⟩ := Option.bind_eq_some_iff.mp hboth
    obtain ⟨hlive, hfails⟩ := Prod.mk.inj hs
    refine ⟨sub, s, hnew, hstep, hlive, hfails, fun hcorrect ↦ ?_⟩
    have hmem : (0x11000, 0xffffffffffffffff) ∈ s.live := by rw [hlive]; exact .head _
    exact absurd (hcorrect.inside _ hmem).2 (by decide)
  · have hstep : ((new 0 0x1000 4096).bind fun sub ↦ step (.alloc 4096) ⟨sub, []⟩).map
        (fun s ↦ (s.live, s.sub.empty)) = some ([], false) := by
      decide +kernel
    obtain ⟨s, hboth, hs⟩ := map_eq_some_iff.mp hstep
    obtain ⟨sub, hnew, hstep⟩ := Option.bind_eq_some_iff.mp hboth
    obtain ⟨hlive, hempty⟩ := Prod.mk.inj hs
    refine ⟨sub, s, hnew, hstep, hlive, hempty, fun hcorrect ↦ ?_⟩
    rw [hcorrect.empty_iff.mpr hlive] at hempty
    cases hempty

end SubAllocator

end FdeEmugl.AddressSpace
