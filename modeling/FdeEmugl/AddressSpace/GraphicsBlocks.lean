import FdeEmugl.AddressSpace.SubAllocator

/-!
# Blocks of the graphics contexts

Each graphics context has a ring and a buffer. They come from three lists of blocks: rings and buffers of ordinary
contexts share blocks of 16 MB, and each virtio context has a block of its own for both, with views into it. A block
that has become empty is destroyed and stays in its list; the next allocation fills it again.

Dedicated blocks are destroyed without a look at what they hold. They have just the size of one allocation, so
no second one ever fits.
-/

namespace FdeEmugl.GraphicsBlocks

open Runs AddressSpace Tiling
open SubAllocator

/-! ## The blocks -/

def sizeofRingStorage : UInt64 := 12288

def ADDRESS_SPACE_GRAPHICS_PAGE_SIZE : UInt64 := 4096

def ADDRESS_SPACE_GRAPHICS_BLOCK_SIZE : UInt64 := 16 * 1048576

/-- `subAlloc` is missing before the first fill and after it was deleted. -/
structure Block where
  buffer : UInt64
  subAlloc : Option SubAllocator
  offsetIntoPhys : UInt64
  isEmpty : Bool
  dedicated : Bool
  usesVirtioGpuHostmem : Bool
  hostmemId : UInt64
  deriving DecidableEq

/-- A block as it is declared. -/
def newBlock : Block := ⟨0, none, 0, true, false, false, 0⟩

structure Allocation where
  buffer : UInt64
  blockIndex : ℕ
  offsetIntoPhys : UInt64
  size : UInt64
  dedicated : Bool
  hostmemId : UInt64
  isView : Bool
  deriving DecidableEq

def noAllocation : Allocation := ⟨0, 0, 0, 0, false, 0, false⟩

/-- Two ranges of addresses without a common byte. -/
def Apart (region other : UInt64 × ℕ) : Prop :=
  region.1.toNat + region.2 ≤ other.1.toNat ∨ other.1.toNat + other.2 ≤ region.1.toNat

/-- The bytes of an allocation. -/
def Allocation.region (alloc : Allocation) : UInt64 × ℕ := (alloc.buffer, alloc.size.toNat)

/-- The memory of a block. -/
def Block.region (block : Block) : Option (UInt64 × ℕ) :=
  if block.isEmpty then none else block.subAlloc.map fun sub ↦ (block.buffer, sub.addr_alloc.total_bytes)

def regions (blocks : List Block) : List (UInt64 × ℕ) := blocks.filterMap Block.region

/-- What the heap, the hardware and the device answer to the n-th block that is filled, and what is in a variable
that was not assigned. Memory is given out where none is in use. -/
structure Host where
  aligned_buf_alloc : ℕ → List (UInt64 × ℕ) → UInt64 → Option UInt64
  apart : ∀ fills used size buf, aligned_buf_alloc fills used size = some buf →
    buf ≠ 0 ∧ buf.toNat + size.toNat ≤ 2 ^ 64 ∧ ∀ region ∈ used, Apart (buf, size.toNat) region
  allocSharedHostRegionLocked : ℕ → Option UInt64
  hostmem_register : ℕ → UInt64
  uninitialised : ℕ → UInt64

/-- Without a result, `crashhandler_die` is called. The second part is what is assigned to `hostmemIdOut`. -/
def fillBlockLocked (host : Host) (fills : ℕ) (used : List (UInt64 × ℕ)) (block : Block) (dedicated : Bool)
    (dedicatedSize : UInt64) (usesVirtioGpuHostmem : Bool) : Option (Block × Option UInt64) :=
  if dedicated then
    if usesVirtioGpuHostmem then
      (host.aligned_buf_alloc fills used dedicatedSize).bind fun buf ↦
        (SubAllocator.new buf dedicatedSize ADDRESS_SPACE_GRAPHICS_PAGE_SIZE).map fun subAlloc ↦
          ({ block with
              buffer := buf
              subAlloc := some subAlloc
              offsetIntoPhys := 0
              isEmpty := false
              usesVirtioGpuHostmem := usesVirtioGpuHostmem
              hostmemId := host.hostmem_register fills
              dedicated := true }, some (host.hostmem_register fills))
    else none
  else if usesVirtioGpuHostmem then none
  else
    (host.allocSharedHostRegionLocked fills).bind fun offsetIntoPhys ↦
      (host.aligned_buf_alloc fills used ADDRESS_SPACE_GRAPHICS_BLOCK_SIZE).bind fun buf ↦
        (SubAllocator.new buf ADDRESS_SPACE_GRAPHICS_BLOCK_SIZE ADDRESS_SPACE_GRAPHICS_PAGE_SIZE).map fun subAlloc ↦
          ({ block with
              buffer := buf
              subAlloc := some subAlloc
              offsetIntoPhys := offsetIntoPhys
              isEmpty := false }, none)

/-- Nothing is assigned to `hostmemIdOut` for a block that is not empty. -/
def fillIfEmpty (host : Host) (fills : ℕ) (used : List (UInt64 × ℕ)) (block : Block) (dedicated : Bool)
    (dedicatedSize : UInt64) (usesVirtioGpuHostmem : Bool) : Option (Block × Option UInt64) :=
  if block.isEmpty then fillBlockLocked host fills used block dedicated dedicatedSize usesVirtioGpuHostmem
  else some (block, none)

def destroyBlockLocked (block : Block) : Block := { block with subAlloc := none, isEmpty := true }

def shouldDestryBlockLocked (sub : SubAllocator) : Bool := sub.empty

/-- An attempt in one block: the allocation, if the block is not full, and the block afterwards. -/
def allocIn (wantedSize : UInt64) (dedicated : Bool) (index : ℕ) (hostmemId : UInt64) (block : Block) :
    Option (Option Allocation × Block) :=
  block.subAlloc.bind fun subAlloc ↦ (subAlloc.alloc wantedSize).map fun (buf, subAlloc) ↦
    (if buf = 0 then none
      else some
        { buffer := buf
          blockIndex := index
          offsetIntoPhys := block.offsetIntoPhys + subAlloc.getOffset buf
          size := wantedSize
          dedicated := dedicated
          hostmemId := hostmemId
          isView := false },
      { block with subAlloc := some subAlloc })

/-- The loop over the blocks, and the new block after it. `others` are regions in use elsewhere. -/
def place (host : Host) (wantedSize : UInt64) (dedicated usesVirtioGpuHostmem : Bool)
    (others : List (UInt64 × ℕ)) : List Block → List Block → ℕ → Option (Allocation × List Block × ℕ)
  | front, [], fills => do
    let (block, hostmemIdOut) ← fillBlockLocked host fills (others ++ regions front) newBlock dedicated wantedSize
      usesVirtioGpuHostmem
    let (found, block) ←
      allocIn wantedSize dedicated front.length (hostmemIdOut.getD (host.uninitialised fills)) block
    let allocation ← found
    return (allocation, front ++ [block], fills + 1)
  | front, block :: back, fills => do
    let (filled, hostmemIdOut) ← fillIfEmpty host fills (others ++ regions (front ++ block :: back)) block dedicated
      wantedSize usesVirtioGpuHostmem
    let next := if block.isEmpty then fills + 1 else fills
    let (found, tried) ←
      allocIn wantedSize dedicated front.length (hostmemIdOut.getD (host.uninitialised fills)) filled
    match found with
    | some allocation => return (allocation, front ++ tried :: back, next)
    | none => place host wantedSize dedicated usesVirtioGpuHostmem others (front ++ [tried]) back next

def newAllocation (host : Host) (wantedSize : UInt64) (dedicated usesVirtioGpuHostmem : Bool)
    (others : List (UInt64 × ℕ)) (existingBlocks : List Block) (fills : ℕ) : Option (Allocation × List Block × ℕ) :=
  if wantedSize > ADDRESS_SPACE_GRAPHICS_BLOCK_SIZE then none
  else place host wantedSize dedicated usesVirtioGpuHostmem others [] existingBlocks fills

def deleteAllocation (alloc : Allocation) (existingBlocks : List Block) : Option (List Block) :=
  if alloc.buffer = 0 then some existingBlocks
  else existingBlocks[alloc.blockIndex]?.bind fun block ↦
    if block.dedicated then some (existingBlocks.set alloc.blockIndex (destroyBlockLocked block))
    else block.subAlloc.bind fun subAlloc ↦ (subAlloc.free alloc.buffer).bind fun (freed, subAlloc) ↦
      if freed then
        let block := { block with subAlloc := some subAlloc }
        some (existingBlocks.set alloc.blockIndex
          (if shouldDestryBlockLocked subAlloc then destroyBlockLocked block else block))
      else none

/-! ## Contexts -/

/-- The three lists of blocks. -/
inductive Kind where
  | ring
  | buffer
  | combined
  deriving DecidableEq

structure AddressSpaceGraphicsContext where
  mIsVirtio : Bool
  mRingAllocation : Allocation
  mBufferAllocation : Allocation
  mCombinedAllocation : Allocation
  deriving DecidableEq

def AddressSpaceGraphicsContext.allocation (context : AddressSpaceGraphicsContext) : Kind → Allocation
  | .ring => context.mRingAllocation
  | .buffer => context.mBufferAllocation
  | .combined => context.mCombinedAllocation

/-- The allocation that a context has in a list of blocks. -/
def AddressSpaceGraphicsContext.live (kind : Kind) (context : AddressSpaceGraphicsContext) : Option Allocation :=
  if (context.allocation kind).buffer = 0 ∨ (context.allocation kind).isView then none
  else some (context.allocation kind)

/-- `blocks` are `mRingBlocks`, `mBufferBlocks` and `mCombinedBlocks`; `fills` blocks were filled so far. -/
structure State (Id : Type) where
  blocks : Kind → List Block
  fills : ℕ
  contexts : Id → Option AddressSpaceGraphicsContext

/-- The buffers of all contexts have one size. -/
def Kind.wantedSize (mPerContextBufferSize : UInt64) : Kind → UInt64
  | .ring => sizeofRingStorage
  | .buffer => mPerContextBufferSize
  | .combined => sizeofRingStorage + mPerContextBufferSize

def Kind.dedicated : Kind → Bool
  | .combined => true
  | .ring | .buffer => false

def allocRingViewIntoCombined (alloc : Allocation) : Allocation :=
  { alloc with size := sizeofRingStorage, isView := true }

def allocBufferViewIntoCombined (mPerContextBufferSize : UInt64) (alloc : Allocation) : Allocation :=
  { alloc with buffer := alloc.buffer + sizeofRingStorage, size := mPerContextBufferSize, isView := true }

/-- The memory of the blocks in the other lists. -/
def regionsBut (kind : Kind) (blocks : Kind → List Block) : List (UInt64 × ℕ) :=
  ([.ring, .buffer, .combined].filter fun other ↦ other ≠ kind).flatMap fun other ↦ regions (blocks other)

namespace State

variable {Id : Type}

def start : State Id := ⟨fun _ ↦ [], 0, fun _ ↦ none⟩

/-- `allocRingStorage`, `allocBuffer` and `allocRingAndBufferStorageDedicated`. -/
def alloc (host : Host) (mPerContextBufferSize : UInt64) (kind : Kind) (s : State Id) :
    Option (Allocation × State Id) :=
  (newAllocation host (kind.wantedSize mPerContextBufferSize) kind.dedicated kind.dedicated
    (regionsBut kind s.blocks) (s.blocks kind) s.fills).map fun (allocation, blocks, fills) ↦
      (allocation, { s with blocks := Function.update s.blocks kind blocks, fills := fills })

/-- `freeRingStorage`, `freeBuffer` and `freeRingAndBuffer`; the last one does not look for views. -/
def free (kind : Kind) (alloc : Allocation) (s : State Id) : Option (State Id) :=
  if alloc.isView ∧ kind ≠ .combined then some s
  else (deleteAllocation alloc (s.blocks kind)).map fun blocks ↦
    { s with blocks := Function.update s.blocks kind blocks }

/-- The constructor. -/
def create (host : Host) (mPerContextBufferSize : UInt64) (isVirtio : Bool) (s : State Id) :
    Option (AddressSpaceGraphicsContext × State Id) :=
  if isVirtio then
    (s.alloc host mPerContextBufferSize .combined).bind fun (combined, s) ↦
      let ring := allocRingViewIntoCombined combined
      let buffer := allocBufferViewIntoCombined mPerContextBufferSize combined
      if ring.buffer = 0 ∨ buffer.buffer = 0 then none else some (⟨isVirtio, ring, buffer, combined⟩, s)
  else
    (s.alloc host mPerContextBufferSize .ring).bind fun (ring, s) ↦
      (s.alloc host mPerContextBufferSize .buffer).bind fun (buffer, s) ↦
        if ring.buffer = 0 ∨ buffer.buffer = 0 then none else some (⟨isVirtio, ring, buffer, noAllocation⟩, s)

/-- The destructor. -/
def destroy (context : AddressSpaceGraphicsContext) (s : State Id) : Option (State Id) :=
  (s.free .buffer context.mBufferAllocation).bind fun s ↦
    (s.free .ring context.mRingAllocation).bind fun s ↦ s.free .combined context.mCombinedAllocation

end State

inductive Action (Id : Type) where
  | create (id : Id) (isVirtio : Bool)
  | destroy (id : Id)

namespace State

variable {Id : Type} [DecidableEq Id]

def step (host : Host) (mPerContextBufferSize : UInt64) : Action Id → State Id → Option (State Id)
  | .create id isVirtio, s =>
    if (s.contexts id).isSome then none
    else (s.create host mPerContextBufferSize isVirtio).map fun (context, next) ↦
      { next with contexts := Function.update next.contexts id (some context) }
  | .destroy id, s =>
    (s.contexts id).bind fun context ↦ (s.destroy context).map fun next ↦
      { next with contexts := Function.update next.contexts id none }

def live (kind : Kind) (id : Id) (s : State Id) : Option Allocation :=
  (s.contexts id).bind fun context ↦ context.live kind

end State

/-! ## One block -/

section Blocks

variable {buffer total wantedSize ptr : UInt64} {sub next : SubAllocator} {live : List (UInt64 × UInt64)}

/-- What a request takes. -/
def rounded (wantedSize : UInt64) : UInt64 :=
  ADDRESS_SPACE_GRAPHICS_PAGE_SIZE *
    ((wantedSize + ADDRESS_SPACE_GRAPHICS_PAGE_SIZE - 1) / ADDRESS_SPACE_GRAPHICS_PAGE_SIZE)

/-- The allocator of a block that holds `live`. -/
structure Holds (buffer total : UInt64) (sub : SubAllocator) (live : List (UInt64 × UInt64)) : Prop where
  held : Held buffer total ⟨sub, live⟩
  pageSize_eq : sub.pageSize = ADDRESS_SPACE_GRAPHICS_PAGE_SIZE
  buffer_ne : buffer ≠ 0
  end_le : buffer.toNat + total.toNat ≤ 2 ^ 64
  total_pos : 0 < stored total.toNat

theorem holds_new (h : SubAllocator.new buffer total ADDRESS_SPACE_GRAPHICS_PAGE_SIZE = some sub)
    (hbuffer : buffer ≠ 0) (hend : buffer.toNat + total.toNat ≤ 2 ^ 64) (htotal : 0 < stored total.toNat) :
    Holds buffer total sub [] := by
  refine ⟨held_new (by decide) htotal h, ?_, hbuffer, hend, htotal⟩
  obtain ⟨_, _, rfl⟩ := Option.map_eq_some_iff.mp h
  rfl

namespace Holds

section

variable (h : Holds buffer total sub live)
include h

theorem toPageSize_eq (wantedSize : UInt64) : sub.toPageSize wantedSize = rounded wantedSize := by
  rw [toPageSize, h.pageSize_eq, rounded]

theorem alloc (hwanted : wantedSize.toNat ≤ 16 * 1048576) (halloc : sub.alloc wantedSize = some (ptr, next)) :
    Holds buffer total next (if ptr = 0 then live else (ptr, wantedSize) :: live) := by
  have hserves : Serves (.alloc wantedSize) ⟨sub, live⟩ := by
    refine .inr ⟨.inl ?_, fun hstart ↦ absurd (h.held.startAddr_eq.symm.trans hstart) h.buffer_ne⟩
    have hpage : sub.pageSize.toNat = 4096 := by rw [h.pageSize_eq]; rfl
    change wantedSize.toNat + sub.pageSize.toNat ≤ 2 ^ 64
    omega
  have hstep : SubAllocator.step (.alloc wantedSize) ⟨sub, live⟩ =
      some ⟨next, if ptr = 0 then live else (ptr, wantedSize) :: live⟩ := by
    rw [SubAllocator.step, halloc, Option.map_some]
  refine ⟨h.held.alloc h.end_le h.total_pos hserves hstep, ?_, h.buffer_ne, h.end_le, h.total_pos⟩
  rw [← h.pageSize_eq]
  obtain ⟨_, _, rfl⟩ | ⟨_, _, _, _, _, _, _, ⟨_, _, rfl⟩ | ⟨_, _, rfl⟩⟩ := alloc_cases halloc
  · rfl
  · rfl
  · rfl

/-- Whoever gets something asked for no more than the block has. -/
theorem rounded_le (halloc : sub.alloc wantedSize = some (ptr, next)) (hptr : ptr ≠ 0) :
    (rounded wantedSize).toNat ≤ stored total.toNat := by
  obtain ⟨_, hnull, _⟩ | ⟨offset, addr_alloc, _, hallocate, _, _, _, hresult⟩ := alloc_cases halloc
  · exact absurd hnull hptr
  have hformed := h.held.wellFormed h.total_pos
  rw [h.toPageSize_eq] at hallocate
  obtain ⟨hbad, _, _⟩ | ⟨front, block, back, hblocks, hfits, _⟩ :=
    allocate_cases hformed h.held.sound.capacity hallocate
  · obtain ⟨_, hnull, _⟩ | ⟨hgood, _⟩ := hresult
    · exact absurd hnull hptr
    · exact absurd hbad hgood
  · change sub.addr_alloc.blocks = front ++ block :: back at hblocks
    have hmem : block ∈ sub.addr_alloc.blocks := hblocks ▸ List.mem_append_right front List.mem_cons_self
    have hbound := (h.held.sound.tiles.bounds hmem).2.2
    exact hfits.1.trans (by omega)

end

/-- In a block that is not shared yet, every request succeeds that is not too big for the block. -/
theorem ptr_ne_zero (h : Holds buffer total sub [])
    (hnew : SubAllocator.new buffer total ADDRESS_SPACE_GRAPHICS_PAGE_SIZE = some sub) (hzero : wantedSize ≠ 0)
    (hwanted : wantedSize.toNat ≤ 16 * 1048576) (hle : (rounded wantedSize).toNat ≤ stored total.toNat)
    (halloc : sub.alloc wantedSize = some (ptr, next)) : ptr ≠ 0 := by
  rintro rfl
  have hnext := h.alloc hwanted halloc
  rw [if_pos rfl] at hnext
  obtain ⟨hnone, _⟩ | ⟨offset, addr_alloc, _, hallocate, _, _, _, hresult⟩ := alloc_cases halloc
  · exact hzero hnone
  have hblocks : sub.addr_alloc.blocks = [⟨0, stored total.toNat, true⟩] := by
    obtain ⟨_, hinit, rfl⟩ := Option.map_eq_some_iff.mp hnew
    cases hinit
    rfl
  obtain ⟨hbad, _⟩ | ⟨_, _, rfl⟩ := hresult
  · rw [h.toPageSize_eq] at hallocate
    obtain ⟨_, _, hnone⟩ | ⟨front, block, back, hsplit, _, _, hend, _⟩ :=
      allocate_cases (h.held.wellFormed h.total_pos) h.held.sound.capacity hallocate
    · exact hnone ⟨0, stored total.toNat, true⟩ (by rw [hblocks]; exact List.mem_singleton_self _) ⟨hle, rfl⟩
    · change sub.addr_alloc.blocks = front ++ block :: back at hsplit
      have hmem : block ∈ sub.addr_alloc.blocks := hsplit ▸ List.mem_append_right front List.mem_cons_self
      exact h.held.sound.ne_bad (stored_lt _) hmem hend hbad
  · -- the allocation would be counted without being held
    have hcount := hnext.held.count
    have hcount' := h.held.count
    simp only [List.length_nil] at hcount hcount'
    rw [UInt32.toNat_add, hcount'] at hcount
    exact absurd hcount (by decide)

theorem free (h : Holds buffer total sub live) (hfree : sub.free ptr = some (true, next)) :
    Holds buffer total next (live.filter fun range ↦ range.1 ≠ ptr) := by
  have hstep : SubAllocator.step (.free ptr) ⟨sub, live⟩ = some ⟨next, live.filter fun range ↦ range.1 ≠ ptr⟩ := by
    rw [SubAllocator.step, hfree, Option.map_some]
    rfl
  refine ⟨h.held.free hstep, ?_, h.buffer_ne, h.end_le, h.total_pos⟩
  obtain ⟨hfalse, _⟩ | ⟨_, _, _, _, _, rfl⟩ := free_cases h.held.nodup_offsets hfree
  · cases hfalse
  · exact h.pageSize_eq

end Holds

end Blocks

/-- The memory of a block that is filled for requests of `wantedSize` bytes. -/
def totalSize (wantedSize : UInt64) (dedicated : Bool) : UInt64 :=
  if dedicated then wantedSize else ADDRESS_SPACE_GRAPHICS_BLOCK_SIZE

/-- A block with the allocations that it holds. -/
abbrev Slot := Block × List (UInt64 × UInt64)

structure SlotSound (wantedSize : UInt64) (dedicated : Bool) (slot : Slot) : Prop where
  empty : slot.1.isEmpty = true → slot.2 = []
  flag : slot.1.dedicated = true → dedicated = true
  filled : slot.1.isEmpty = false → slot.1.dedicated = dedicated ∧
    ∃ sub, slot.1.subAlloc = some sub ∧ Holds slot.1.buffer (totalSize wantedSize dedicated) sub slot.2
  sizes : ∀ range ∈ slot.2, range.2 = wantedSize

/-- A dedicated block that was filled holds something. -/
def Full (slot : Slot) : Prop := slot.1.isEmpty = false → slot.1.dedicated = true → slot.2 ≠ []

section Slots

variable {host : Host} {fills index : ℕ} {used : List (UInt64 × ℕ)} {block filled tried : Block}
  {wantedSize hostmemId : UInt64} {dedicated : Bool} {hostmemIdOut : Option UInt64} {live : List (UInt64 × UInt64)}
  {slot : Slot}

theorem toNat_blockSize : ADDRESS_SPACE_GRAPHICS_BLOCK_SIZE.toNat = 16 * 1048576 := rfl

theorem totalSize_pos (hzero : wantedSize ≠ 0) (hwanted : wantedSize.toNat ≤ 16 * 1048576) (dedicated : Bool) :
    0 < stored (totalSize wantedSize dedicated).toNat := by
  have hpos : 0 < wantedSize.toNat := Nat.pos_of_ne_zero fun h ↦ hzero (UInt64.toNat_inj.mp h)
  rw [totalSize, stored]
  split_ifs
  · omega
  · rw [toNat_blockSize]
    decide

theorem SlotSound.region_eq (h : SlotSound wantedSize dedicated slot) (hfilled : slot.1.isEmpty = false) :
    slot.1.region = some (slot.1.buffer, (totalSize wantedSize dedicated).toNat) := by
  obtain ⟨_, sub, hsub, hholds⟩ := h.filled hfilled
  have htotal : sub.addr_alloc.total_bytes = _ := hholds.held.total_eq
  rw [Block.region, hfilled, hsub, Option.map_some, htotal]
  rfl

theorem region_of_isEmpty (h : block.isEmpty = true) : block.region = none := by
  rw [Block.region, if_pos h]

/-- A block that was filled is empty and lies where nothing else was. -/
theorem fill_spec (hzero : wantedSize ≠ 0) (hwanted : wantedSize.toNat ≤ 16 * 1048576)
    (hflag : block.dedicated = true → dedicated = true)
    (h : fillBlockLocked host fills used block dedicated wantedSize dedicated = some (filled, hostmemIdOut)) :
    SlotSound wantedSize dedicated (filled, []) ∧ filled.isEmpty = false ∧
    (dedicated = true → hostmemIdOut = some filled.hostmemId) ∧
    (∀ region ∈ used, Apart (filled.buffer, (totalSize wantedSize dedicated).toNat) region) ∧
    ∃ sub, filled.subAlloc = some sub ∧ SubAllocator.new filled.buffer (totalSize wantedSize dedicated)
      ADDRESS_SPACE_GRAPHICS_PAGE_SIZE = some sub := by
  have htotal := totalSize_pos hzero hwanted dedicated
  cases dedicated with
  | true =>
    simp only [fillBlockLocked, if_true] at h
    obtain ⟨buf, hbuf, h⟩ := Option.bind_eq_some_iff.mp h
    obtain ⟨sub, hsub, h⟩ := Option.map_eq_some_iff.mp h
    cases h
    obtain ⟨hne, hend, hapart⟩ := host.apart _ _ _ _ hbuf
    refine ⟨⟨nofun, fun _ ↦ rfl, fun _ ↦ ⟨rfl, sub, rfl, holds_new hsub hne hend htotal⟩, nofun⟩, rfl, fun _ ↦ rfl,
      hapart, sub, rfl, hsub⟩
  | false =>
    simp only [fillBlockLocked, Bool.false_eq_true, if_false] at h
    obtain ⟨offsetIntoPhys, _, h⟩ := Option.bind_eq_some_iff.mp h
    obtain ⟨buf, hbuf, h⟩ := Option.bind_eq_some_iff.mp h
    obtain ⟨sub, hsub, h⟩ := Option.map_eq_some_iff.mp h
    cases h
    obtain ⟨hne, hend, hapart⟩ := host.apart _ _ _ _ hbuf
    have hdedicated : block.dedicated = false := Bool.eq_false_iff.mpr fun htrue ↦ by cases hflag htrue
    refine ⟨⟨nofun, hflag, fun _ ↦ ⟨hdedicated, sub, rfl, holds_new hsub hne hend htotal⟩, nofun⟩, rfl, nofun,
      hapart, sub, rfl, hsub⟩

/-- An attempt in a block that is not empty either finds it full or adds an allocation to it. -/
theorem allocIn_spec (h : SlotSound wantedSize dedicated (block, live)) (hfilled : block.isEmpty = false)
    (hwanted : wantedSize.toNat ≤ 16 * 1048576) {found : Option Allocation}
    (halloc : allocIn wantedSize dedicated index hostmemId block = some (found, tried)) :
    ∃ subAlloc, tried = { block with subAlloc := some subAlloc } ∧
      (found = none ∧ SlotSound wantedSize dedicated (tried, live) ∨
        ∃ buf, buf ≠ 0 ∧ (rounded wantedSize).toNat ≤ stored (totalSize wantedSize dedicated).toNat ∧
          found = some
            ⟨buf, index, block.offsetIntoPhys + (buf - block.buffer), wantedSize, dedicated, hostmemId, false⟩ ∧
          SlotSound wantedSize dedicated (tried, (buf, wantedSize) :: live)) := by
  obtain ⟨hdedicated, sub, hsub, hholds⟩ := h.filled hfilled
  simp only at hsub hholds hdedicated
  rw [allocIn, hsub, Option.bind_some] at halloc
  obtain ⟨⟨buf, subAlloc⟩, hresult, halloc⟩ := Option.map_eq_some_iff.mp halloc
  obtain ⟨hfound, rfl⟩ := Prod.mk.inj halloc
  have hnext := hholds.alloc hwanted hresult
  refine ⟨subAlloc, rfl, ?_⟩
  by_cases hnull : buf = 0
  · rw [if_pos hnull] at hfound hnext
    exact .inl ⟨hfound.symm, h.empty, h.flag, fun _ ↦ ⟨hdedicated, subAlloc, rfl, hnext⟩, h.sizes⟩
  · rw [if_neg hnull] at hfound hnext
    have hstart : subAlloc.startAddr = block.buffer := hnext.held.startAddr_eq
    rw [getOffset, hstart] at hfound
    refine .inr ⟨buf, hnull, hholds.rounded_le hresult hnull, hfound.symm, fun hempty ↦ ?_, h.flag,
      fun _ ↦ ⟨hdedicated, subAlloc, rfl, hnext⟩, List.forall_mem_cons.mpr ⟨rfl, h.sizes⟩⟩
    rw [hfilled] at hempty
    cases hempty

/-- A dedicated block has room for one allocation. -/
theorem SlotSound.length_le (h : SlotSound wantedSize true slot) : slot.2.length ≤ 1 := by
  cases hempty : slot.1.isEmpty with
  | true =>
    rw [h.empty hempty]
    exact Nat.zero_le 1
  | false =>
    obtain ⟨_, sub, _, hholds⟩ := h.filled hempty
    have hinside := hholds.held.correct_inside hholds.end_le
    have hdisjoint := hholds.held.correct_disjoint hholds.end_le
    have hpos := hholds.total_pos
    rw [totalSize, if_pos rfl] at hinside hpos
    match hlive : slot.2 with
    | [] => exact Nat.zero_le 1
    | [_] => exact le_rfl
    | first :: second :: rest =>
      simp only [hlive] at hinside hdisjoint
      have hfirst := hinside first List.mem_cons_self
      have hsecond := hinside second (List.mem_cons_of_mem _ List.mem_cons_self)
      have hapart := (List.pairwise_cons.mp hdisjoint).1 second List.mem_cons_self
      have hsize := h.sizes first (hlive ▸ List.mem_cons_self)
      have hsize' := h.sizes second (hlive ▸ List.mem_cons_of_mem _ List.mem_cons_self)
      rw [hsize] at hfirst hapart
      rw [hsize'] at hsecond hapart
      have hstored := stored_le wantedSize.toNat
      omega

end Slots

/-! ## A list of blocks -/

/-- An allocation in its block. -/
structure Placed (wantedSize : UInt64) (dedicated : Bool) (slot : Slot) (alloc : Allocation) : Prop where
  held : (alloc.buffer, wantedSize) ∈ slot.2
  offset_eq : alloc.offsetIntoPhys = slot.1.offsetIntoPhys + (alloc.buffer - slot.1.buffer)
  size_eq : alloc.size = wantedSize
  size_ne : alloc.size ≠ 0
  dedicated_eq : alloc.dedicated = dedicated
  hostmemId_eq : dedicated = true → alloc.hostmemId = slot.1.hostmemId
  buffer_ne : alloc.buffer ≠ 0
  isView_eq : alloc.isView = false

def SlotsApart (slot other : Slot) : Prop :=
  ∀ region ∈ slot.1.region, ∀ region' ∈ other.1.region, Apart region region'

theorem Apart.symm {region other : UInt64 × ℕ} (h : Apart region other) : Apart other region := Or.symm h

theorem SlotsApart.symm {slot other : Slot} (h : SlotsApart slot other) : SlotsApart other slot :=
  fun region hregion region' hregion' ↦ (h region' hregion' region hregion).symm

/-- A list of blocks holds the allocations `live`, away from `others`. -/
structure ListSound {Id : Type} (wantedSize : UInt64) (dedicated : Bool) (others : List (UInt64 × ℕ))
    (slots : List Slot) (live : Id → Option Allocation) : Prop where
  slot : ∀ slot ∈ slots, SlotSound wantedSize dedicated slot
  apart : slots.Pairwise SlotsApart
  others : ∀ slot ∈ slots, ∀ region ∈ slot.1.region, ∀ other ∈ others, Apart region other
  placed : ∀ id alloc, live id = some alloc →
    ∃ slot, slots[alloc.blockIndex]? = some slot ∧ Placed wantedSize dedicated slot alloc
  disjoint : ∀ id other alloc alloc', id ≠ other → live id = some alloc → live other = some alloc' →
    Apart alloc.region alloc'.region

section Lists

variable {Id : Type} {wantedSize : UInt64} {dedicated : Bool} {others : List (UInt64 × ℕ)} {slot old new : Slot}
  {slots front back : List Slot} {live live' : Id → Option Allocation} {alloc alloc' : Allocation}

variable {α : Type}

/-- An allocation is inside of its block, which is not empty. -/
theorem Placed.inside (h : Placed wantedSize dedicated slot alloc) (hsound : SlotSound wantedSize dedicated slot) :
    slot.1.isEmpty = false ∧ slot.1.buffer.toNat ≤ alloc.buffer.toNat ∧
      alloc.buffer.toNat + alloc.size.toNat ≤ slot.1.buffer.toNat + (totalSize wantedSize dedicated).toNat := by
  have hfilled : slot.1.isEmpty = false := by
    refine Bool.eq_false_iff.mpr fun hempty ↦ ?_
    have hheld := h.held
    rw [hsound.empty hempty] at hheld
    cases hheld
  obtain ⟨_, sub, _, hholds⟩ := hsound.filled hfilled
  have hinside := hholds.held.correct_inside hholds.end_le _ h.held
  rw [h.size_eq]
  exact ⟨hfilled, hinside⟩

theorem getElem?_replaced (front back : List α) (old new : α) (index : ℕ) :
    (front ++ new :: back)[index]? = if index = front.length then some new else (front ++ old :: back)[index]? := by
  split_ifs with h
  · rw [h, List.getElem?_append_right le_rfl, Nat.sub_self, List.getElem?_cons_zero]
  · obtain hlt | hgt := Nat.lt_or_gt_of_ne h
    · rw [List.getElem?_append_left hlt, List.getElem?_append_left hlt]
    · rw [List.getElem?_append_right hgt.le, List.getElem?_append_right hgt.le,
        List.getElem?_cons, List.getElem?_cons, if_neg (by omega), if_neg (by omega)]

theorem getElem?_middle (front back : List α) (new : α) : (front ++ new :: back)[front.length]? = some new := by
  rw [getElem?_replaced front back new new, if_pos rfl]

theorem forall_mem_replaced {front back : List α} {old new : α} {P : α → Prop}
    (h : ∀ element ∈ front ++ old :: back, P element) (hnew : P new) :
    ∀ element ∈ front ++ new :: back, P element := by
  simp only [List.mem_append, List.mem_cons] at h ⊢
  rintro element (hmem | rfl | hmem)
  · exact h element (.inl hmem)
  · exact hnew
  · exact h element (.inr (.inr hmem))

namespace ListSound

/-- A block is replaced by one that holds whatever of it is still in use. -/
theorem replace (h : ListSound wantedSize dedicated others (front ++ old :: back) live)
    (hnew : SlotSound wantedSize dedicated new) (hsub : ∀ id alloc, live' id = some alloc → live id = some alloc)
    (hkeep : ∀ id alloc, live' id = some alloc → alloc.blockIndex = front.length →
      Placed wantedSize dedicated old alloc → Placed wantedSize dedicated new alloc)
    (hapart : ∀ region ∈ new.1.region, old.1.region = some region ∨
      (∀ slot ∈ front ++ back, ∀ region' ∈ slot.1.region, Apart region region') ∧
        ∀ other ∈ others, Apart region other) :
    ListSound wantedSize dedicated others (front ++ new :: back) live' := by
  have hpairs := (List.pairwise_middle SlotsApart.symm).mp h.apart
  rw [List.pairwise_cons] at hpairs
  refine ⟨forall_mem_replaced h.slot hnew, (List.pairwise_middle SlotsApart.symm).mpr (List.pairwise_cons.mpr
    ⟨fun slot hslot region hregion ↦ ?_, hpairs.2⟩), forall_mem_replaced h.others fun region hregion ↦ ?_,
    fun id alloc hlive ↦ ?_, fun id other alloc alloc' hne hlive hlive' ↦
      h.disjoint id other alloc alloc' hne (hsub id alloc hlive) (hsub other alloc' hlive')⟩
  · obtain hold | ⟨hslots, _⟩ := hapart region hregion
    · exact hpairs.1 slot hslot region hold
    · exact hslots slot hslot
  · obtain hold | ⟨_, hothers⟩ := hapart region hregion
    · exact h.others old (List.mem_append_right front List.mem_cons_self) region hold
    · exact hothers
  · obtain ⟨slot, hslot, hplaced⟩ := h.placed id alloc (hsub id alloc hlive)
    rw [getElem?_replaced front back old new]
    split_ifs with hindex
    · rw [hindex, getElem?_middle, Option.some.injEq] at hslot
      exact ⟨new, rfl, hkeep id alloc hlive hindex (hslot ▸ hplaced)⟩
    · exact ⟨slot, hslot, hplaced⟩

/-- Allocations in two blocks have no byte in common. -/
theorem apart_of_index_ne (h : ListSound wantedSize dedicated others slots live) {index index' : ℕ}
    {slot slot' : Slot} (hslot : slots[index]? = some slot) (hslot' : slots[index']? = some slot')
    (hne : index ≠ index') (halloc : Placed wantedSize dedicated slot alloc)
    (halloc' : Placed wantedSize dedicated slot' alloc') :
    Apart alloc.region alloc'.region := by
  have hsound := h.slot slot (List.mem_of_getElem? hslot)
  have hsound' := h.slot slot' (List.mem_of_getElem? hslot')
  obtain ⟨hfilled, hstart, hend⟩ := halloc.inside hsound
  obtain ⟨hfilled', hstart', hend'⟩ := halloc'.inside hsound'
  have hapart : SlotsApart slot slot' := by
    obtain ⟨hlt, rfl⟩ := List.getElem?_eq_some_iff.mp hslot
    obtain ⟨hlt', rfl⟩ := List.getElem?_eq_some_iff.mp hslot'
    have hpairs := List.pairwise_iff_getElem.mp h.apart
    obtain hbefore | hafter := Nat.lt_or_gt_of_ne hne
    · exact hpairs index index' hlt hlt' hbefore
    · exact (hpairs index' index hlt' hlt hafter).symm
  have hregions := hapart _ (hsound.region_eq hfilled) _ (hsound'.region_eq hfilled')
  rw [Apart] at hregions ⊢
  simp only [Allocation.region] at hregions ⊢
  omega

/-- An allocation is new that has no byte in common with those in its block. -/
theorem add [DecidableEq Id] (h : ListSound wantedSize dedicated others slots live)
    (hslot : slots[alloc.blockIndex]? = some slot) (hplaced : Placed wantedSize dedicated slot alloc) (id : Id)
    (hfresh : ∀ other alloc', live other = some alloc' → alloc'.blockIndex = alloc.blockIndex →
      Apart alloc.region alloc'.region) :
    ListSound wantedSize dedicated others slots (Function.update live id (some alloc)) := by
  have hapart : ∀ other alloc', live other = some alloc' → Apart alloc.region alloc'.region := by
    intro other alloc' hlive
    by_cases hindex : alloc'.blockIndex = alloc.blockIndex
    · exact hfresh other alloc' hlive hindex
    · obtain ⟨slot', hslot', hplaced'⟩ := h.placed other alloc' hlive
      exact h.apart_of_index_ne hslot hslot' (Ne.symm hindex) hplaced hplaced'
  refine ⟨h.slot, h.apart, h.others, fun other alloc' hlive ↦ ?_, fun first second a b hne ha hb ↦ ?_⟩
  · rw [Function.update_apply] at hlive
    split_ifs at hlive with hid
    · cases hlive
      exact ⟨slot, hslot, hplaced⟩
    · exact h.placed other alloc' hlive
  · rw [Function.update_apply] at ha hb
    split_ifs at ha hb with hfirst hsecond hsecond
    · exact absurd (hfirst.trans hsecond.symm) hne
    · cases ha
      exact hapart second b hb
    · cases hb
      exact (hapart first a ha).symm
    · exact h.disjoint first second a b hne ha hb

end ListSound

end Lists

/-! ## New allocations -/

section Place

variable {Id : Type} {host : Host} {fills next : ℕ} {wantedSize junk : UInt64} {dedicated : Bool}
  {hostmemIdOut : Option UInt64} {used others : List (UInt64 × ℕ)} {slot old : Slot} {front back : List Slot}
  {filled tried : Block} {blocks : List Block} {live : Id → Option Allocation} {alloc : Allocation}
  {found : Option Allocation}

theorem mem_regions {blocks : List Block} {region : UInt64 × ℕ} :
    region ∈ regions blocks ↔ ∃ block ∈ blocks, block.region = some region := List.mem_filterMap

/-- The block of an attempt is not empty, or it is filled first. -/
theorem ListSound.fill (h : ListSound wantedSize dedicated others (front ++ old :: back) live)
    (hzero : wantedSize ≠ 0) (hwanted : wantedSize.toNat ≤ 16 * 1048576)
    (hused : ∀ region, (region ∈ others ∨ ∃ slot ∈ front ++ back, slot.1.region = some region) → region ∈ used)
    (hfill : fillIfEmpty host fills used old.1 dedicated wantedSize dedicated = some (filled, hostmemIdOut)) :
    ∃ held, ListSound wantedSize dedicated others (front ++ (filled, held) :: back) live ∧ filled.isEmpty = false ∧
      ((filled, held) = old ∨ held = [] ∧ (dedicated = true → hostmemIdOut = some filled.hostmemId) ∧
        ∃ sub, filled.subAlloc = some sub ∧ SubAllocator.new filled.buffer (totalSize wantedSize dedicated)
          ADDRESS_SPACE_GRAPHICS_PAGE_SIZE = some sub) := by
  have hold := h.slot old (List.mem_append_right front List.mem_cons_self)
  rw [fillIfEmpty] at hfill
  split_ifs at hfill with hempty
  · obtain ⟨hsound, hfilled, hhostmemId, hapart, hnew⟩ := fill_spec hzero hwanted hold.flag hfill
    have hregion := hsound.region_eq hfilled
    refine ⟨[], h.replace hsound (fun _ _ hlive ↦ hlive) (fun id alloc _ _ hplaced ↦ ?_) fun region hmem ↦ .inr ?_,
      hfilled, .inr ⟨rfl, hhostmemId, hnew⟩⟩
    · have hheld := hplaced.held
      rw [hold.empty hempty] at hheld
      cases hheld
    · cases hregion.symm.trans hmem
      exact ⟨fun slot hslot other hother ↦ hapart other (hused other (.inr ⟨slot, hslot, hother⟩)),
        fun other hother ↦ hapart other (hused other (.inl hother))⟩
  · cases hfill
    exact ⟨old.2, h, Bool.eq_false_iff.mpr hempty, .inl rfl⟩

/-- A block that was just filled is not full, unless the request is too big for it. -/
theorem ne_none_of_new {sub : SubAllocator} (hsound : SlotSound wantedSize dedicated (filled, []))
    (hfilled : filled.isEmpty = false) (hsub : filled.subAlloc = some sub)
    (hnew : SubAllocator.new filled.buffer (totalSize wantedSize dedicated)
      ADDRESS_SPACE_GRAPHICS_PAGE_SIZE = some sub)
    (hzero : wantedSize ≠ 0) (hwanted : wantedSize.toNat ≤ 16 * 1048576) {index : ℕ} {hostmemId : UInt64}
    (hle : (rounded wantedSize).toNat ≤ stored (totalSize wantedSize dedicated).toNat)
    (halloc : allocIn wantedSize dedicated index hostmemId filled = some (found, tried)) : found ≠ none := by
  obtain ⟨_, sub', hsub', hholds⟩ := hsound.filled hfilled
  cases hsub.symm.trans hsub'
  rw [allocIn, hsub, Option.bind_some] at halloc
  obtain ⟨⟨buf, subAlloc⟩, hresult, halloc⟩ := Option.map_eq_some_iff.mp halloc
  obtain ⟨hfound, _⟩ := Prod.mk.inj halloc
  have hne := hholds.ptr_ne_zero hnew hzero hwanted hle hresult
  rw [if_neg hne] at hfound
  rw [← hfound]
  exact Option.some_ne_none _

/-- An attempt leaves all the allocations in place, and a new one is beside them if it succeeds. -/
theorem ListSound.attempt [DecidableEq Id]
    (h : ListSound wantedSize dedicated others (front ++ old :: back) live) (hfull : Full old)
    (hzero : wantedSize ≠ 0) (hwanted : wantedSize.toNat ≤ 16 * 1048576)
    (hused : ∀ region, (region ∈ others ∨ ∃ slot ∈ front ++ back, slot.1.region = some region) → region ∈ used)
    (hfill : fillIfEmpty host fills used old.1 dedicated wantedSize dedicated = some (filled, hostmemIdOut))
    (halloc : allocIn wantedSize dedicated front.length (hostmemIdOut.getD junk) filled = some (found, tried))
    (id : Id) :
    ∃ held, (found = none ∧ ListSound wantedSize dedicated others (front ++ (tried, held) :: back) live ∧
        (Full (tried, held) ∨ stored (totalSize wantedSize dedicated).toNat < (rounded wantedSize).toNat)) ∨
      ∃ alloc, found = some alloc ∧ Full (tried, held) ∧
        (rounded wantedSize).toNat ≤ stored (totalSize wantedSize dedicated).toNat ∧
        ListSound wantedSize dedicated others (front ++ (tried, held) :: back)
          (Function.update live id (some alloc)) := by
  obtain ⟨held, hlist, hfilled, hcases⟩ := h.fill hzero hwanted hused hfill
  have hsound := hlist.slot (filled, held) (List.mem_append_right front List.mem_cons_self)
  obtain ⟨subAlloc, rfl, ⟨rfl, htried⟩ | ⟨buf, hbuf, hle, rfl, htried⟩⟩ :=
    allocIn_spec hsound hfilled hwanted halloc
  · refine ⟨held, .inl ⟨rfl, hlist.replace htried (fun _ _ hlive ↦ hlive) (fun _ _ _ _ hplaced ↦ { hplaced with })
      fun region hregion ↦ .inl ?_, ?_⟩⟩
    · exact (hsound.region_eq hfilled).trans ((htried.region_eq hfilled).symm.trans hregion)
    · obtain rfl | ⟨rfl, _, sub, hsub, hnew⟩ := hcases
      · exact .inl hfull
      · exact .inr (Nat.lt_of_not_le fun hle ↦ ne_none_of_new hsound hfilled hsub hnew hzero hwanted hle halloc rfl)
  · -- what fits into a dedicated block was just filled
    have hhostmemId : dedicated = true → hostmemIdOut.getD junk = filled.hostmemId := by
      rintro rfl
      obtain rfl | ⟨_, hout, _⟩ := hcases
      · have hheld := hfull hfilled (hsound.filled hfilled).1
        have hlength := List.length_pos_iff.mpr hheld
        have hle := htried.length_le
        simp only [List.length_cons] at hle hlength
        omega
      · rw [hout rfl, Option.getD_some]
    have hplaced : Placed wantedSize dedicated ({ filled with subAlloc := some subAlloc }, (buf, wantedSize) :: held)
        ⟨buf, front.length, filled.offsetIntoPhys + (buf - filled.buffer), wantedSize, dedicated,
          hostmemIdOut.getD junk, false⟩ :=
      ⟨List.mem_cons_self, rfl, rfl, hzero, rfl, hhostmemId, hbuf, rfl⟩
    have hnext := hlist.replace htried (fun _ _ hlive ↦ hlive)
      (fun _ _ _ _ hplaced ↦ { hplaced with held := List.mem_cons_of_mem _ hplaced.held }) fun region hregion ↦
        .inl ((hsound.region_eq hfilled).trans ((htried.region_eq hfilled).symm.trans hregion))
    refine ⟨(buf, wantedSize) :: held, .inr ⟨_, rfl, fun _ _ ↦ List.cons_ne_nil _ _, hle,
      hnext.add (getElem?_middle _ _ _) hplaced id fun other alloc' hlive hindex ↦ ?_⟩⟩
    obtain ⟨slot, hslot, hplaced'⟩ := hlist.placed other alloc' hlive
    rw [hindex, getElem?_middle, Option.some.injEq] at hslot
    subst hslot
    obtain ⟨_, _, _, hholds⟩ := htried.filled hfilled
    have hpairs := hholds.held.correct_disjoint hholds.end_le
    have hapart := (List.pairwise_cons.mp hpairs).1 _ hplaced'.held
    rw [Apart, Allocation.region, Allocation.region, hplaced'.size_eq]
    exact hapart

theorem region_newBlock : newBlock.region = none := region_of_isEmpty rfl

/-- A block that is not filled yet can be put behind the others. -/
theorem ListSound.append_newBlock (h : ListSound wantedSize dedicated others front live) :
    ListSound wantedSize dedicated others (front ++ [(newBlock, [])]) live := by
  refine ⟨fun slot hslot ↦ ?_, List.pairwise_append.mpr ⟨h.apart, List.pairwise_singleton _ _, ?_⟩,
    fun slot hslot ↦ ?_, fun id alloc hlive ↦ ?_, h.disjoint⟩
  · obtain hslot | hslot := List.mem_append.mp hslot
    · exact h.slot slot hslot
    · obtain rfl := List.mem_singleton.mp hslot
      exact ⟨fun _ ↦ rfl, fun hflag ↦ absurd hflag (by decide), fun hfilled ↦ absurd hfilled (by decide),
        fun _ hmem ↦ absurd hmem List.not_mem_nil⟩
  · intro slot _ other hother region _ region' hregion'
    obtain rfl := List.mem_singleton.mp hother
    exact absurd (region_newBlock.symm.trans hregion').symm (Option.some_ne_none _)
  · obtain hslot | hslot := List.mem_append.mp hslot
    · exact h.others slot hslot
    · obtain rfl := List.mem_singleton.mp hslot
      intro region hregion
      exact absurd (region_newBlock.symm.trans hregion).symm (Option.some_ne_none _)
  · obtain ⟨slot, hslot, hplaced⟩ := h.placed id alloc hlive
    have hlt := (List.getElem?_eq_some_iff.mp hslot).1
    exact ⟨slot, by rw [List.getElem?_append_left hlt, hslot], hplaced⟩

theorem mem_used {blocks : List Block} (hblocks : ∀ slot ∈ front ++ back, slot.1 ∈ blocks) :
    ∀ region, (region ∈ others ∨ ∃ slot ∈ front ++ back, slot.1.region = some region) →
      region ∈ others ++ regions blocks := by
  rintro region (hmem | ⟨slot, hslot, hregion⟩)
  · exact List.mem_append_left _ hmem
  · exact List.mem_append_right _ (mem_regions.mpr ⟨slot.1, hblocks slot hslot, hregion⟩)

/-- Null is returned for an empty request, so that the last attempt fails. -/
theorem wantedSize_ne_zero_of_place {usesVirtioGpuHostmem : Bool} {front back : List Block}
    (h : place host wantedSize dedicated usesVirtioGpuHostmem others front back fills = some (alloc, blocks, next)) :
    wantedSize ≠ 0 := by
  have hnone : ∀ index hostmemId block result,
      allocIn 0 dedicated index hostmemId block = some result → result.1 = none := by
    intro index hostmemId block result hresult
    obtain ⟨sub, _, hresult⟩ := Option.bind_eq_some_iff.mp hresult
    obtain ⟨_, halloc, rfl⟩ := Option.map_eq_some_iff.mp hresult
    cases halloc
    rfl
  rintro rfl
  induction back generalizing front fills with
  | nil =>
    obtain ⟨_, _, h⟩ := Option.bind_eq_some_iff.mp h
    obtain ⟨_, hresult, h⟩ := Option.bind_eq_some_iff.mp h
    obtain ⟨_, hfound, _⟩ := Option.bind_eq_some_iff.mp h
    exact absurd ((hnone _ _ _ _ hresult).symm.trans hfound).symm (Option.some_ne_none _)
  | cons block back ih =>
    rw [place] at h
    obtain ⟨_, _, h⟩ := Option.bind_eq_some_iff.mp h
    obtain ⟨⟨found, tried⟩, hresult, h⟩ := Option.bind_eq_some_iff.mp h
    obtain rfl : found = none := hnone _ _ _ _ hresult
    exact ih h

/-- An allocation is placed by attempts in the blocks from the front to the back and in a new one. -/
theorem ListSound.of_place [DecidableEq Id] (front : List Slot) (h : ListSound wantedSize dedicated others (front ++ back) live)
    (hfront : ∀ slot ∈ front, Full slot ∨ stored (totalSize wantedSize dedicated).toNat < (rounded wantedSize).toNat)
    (hback : ∀ slot ∈ back, Full slot) (hwanted : wantedSize.toNat ≤ 16 * 1048576)
    (hplace : place host wantedSize dedicated dedicated others (front.map Prod.fst) (back.map Prod.fst) fills =
      some (alloc, blocks, next)) (id : Id) :
    ∃ slots, slots.map Prod.fst = blocks ∧ (∀ slot ∈ slots, Full slot) ∧
      ListSound wantedSize dedicated others slots (Function.update live id (some alloc)) := by
  have hzero := wantedSize_ne_zero_of_place hplace
  induction back generalizing front fills with
  | nil =>
    obtain ⟨⟨filled, hostmemIdOut⟩, hfill, hplace⟩ := Option.bind_eq_some_iff.mp hplace
    obtain ⟨⟨found, tried⟩, halloc, hplace⟩ := Option.bind_eq_some_iff.mp hplace
    obtain ⟨alloc', hfound, hplace⟩ := Option.bind_eq_some_iff.mp hplace
    obtain ⟨rfl, rfl, _⟩ := Prod.mk.inj (Option.some.inj hplace)
    rw [List.append_nil] at h
    rw [List.length_map] at halloc
    obtain ⟨held, ⟨hnone, _⟩ | ⟨alloc, halloc, hfull, hle, hlist⟩⟩ :=
      h.append_newBlock.attempt (fun hfilled ↦ absurd hfilled (by decide)) hzero hwanted
        (mem_used fun slot hslot ↦ List.mem_map_of_mem (by rwa [List.append_nil] at hslot)) hfill halloc id
    · exact absurd (hfound.symm.trans hnone) (Option.some_ne_none _)
    · cases hfound.symm.trans halloc
      refine ⟨front ++ [(tried, held)], by simp, fun slot hslot ↦ ?_, hlist⟩
      obtain hslot | hslot := List.mem_append.mp hslot
      · exact (hfront slot hslot).resolve_right hle.not_gt
      · exact List.mem_singleton.mp hslot ▸ hfull
  | cons old back ih =>
    rw [List.map_cons, place] at hplace
    obtain ⟨⟨filled, hostmemIdOut⟩, hfill, hplace⟩ := Option.bind_eq_some_iff.mp hplace
    obtain ⟨⟨found, tried⟩, halloc, hplace⟩ := Option.bind_eq_some_iff.mp hplace
    rw [List.length_map] at halloc
    have hused : ∀ slot ∈ front ++ back, slot.1 ∈ front.map Prod.fst ++ old.1 :: back.map Prod.fst := by
      intro slot hslot
      obtain hslot | hslot := List.mem_append.mp hslot
      · exact List.mem_append_left _ (List.mem_map_of_mem hslot)
      · exact List.mem_append_right _ (List.mem_cons_of_mem _ (List.mem_map_of_mem hslot))
    obtain ⟨held, ⟨rfl, hlist, hfull⟩ | ⟨alloc', rfl, hfull, hle, hlist⟩⟩ :=
      h.attempt (hback old List.mem_cons_self) hzero hwanted (mem_used hused) hfill halloc id
    · have hnext : ListSound wantedSize dedicated others ((front ++ [(tried, held)]) ++ back) live := by
        rwa [List.append_assoc]
      have hplace : place host wantedSize dedicated dedicated others ((front ++ [(tried, held)]).map Prod.fst)
          (back.map Prod.fst) (if old.1.isEmpty then fills + 1 else fills) = some (alloc, blocks, next) := by
        rwa [List.map_append]
      refine ih _ hnext (fun slot hslot ↦ ?_) (fun slot hslot ↦ hback slot (List.mem_cons_of_mem _ hslot)) hplace
      obtain hslot | hslot := List.mem_append.mp hslot
      · exact hfront slot hslot
      · exact List.mem_singleton.mp hslot ▸ hfull
    · obtain ⟨rfl, rfl, _⟩ := Prod.mk.inj (Option.some.inj hplace)
      refine ⟨front ++ (tried, held) :: back, by simp, fun slot hslot ↦ ?_, hlist⟩
      obtain hslot | hslot := List.mem_append.mp hslot
      · exact (hfront slot hslot).resolve_right hle.not_gt
      · obtain rfl | hslot := List.mem_cons.mp hslot
        · exact hfull
        · exact hback slot (List.mem_cons_of_mem _ hslot)

end Place

/-! ## Deleted allocations -/

section Delete

variable {Id : Type} {wantedSize : UInt64} {dedicated : Bool} {others : List (UInt64 × ℕ)} {slot : Slot}
  {slots : List Slot} {blocks : List Block} {live : Id → Option Allocation} {alloc alloc' : Allocation}
  {id other : Id}

theorem exists_split {α : Type} {elements : List α} {index : ℕ} {element : α} (h : elements[index]? = some element) :
    ∃ front back, elements = front ++ element :: back ∧ front.length = index := by
  obtain ⟨hlt, rfl⟩ := List.getElem?_eq_some_iff.mp h
  refine ⟨elements.take index, elements.drop (index + 1), ?_, List.length_take_of_le hlt.le⟩
  rw [List.getElem_cons_drop, List.take_append_drop]

theorem ListSound.buffer_ne (h : ListSound wantedSize dedicated others slots live) (hne : other ≠ id)
    (halloc : live id = some alloc) (halloc' : live other = some alloc') : alloc'.buffer ≠ alloc.buffer := by
  have hapart := h.disjoint id other alloc alloc' hne.symm halloc halloc'
  obtain ⟨_, _, hplaced⟩ := h.placed id alloc halloc
  obtain ⟨_, _, hplaced'⟩ := h.placed other alloc' halloc'
  have hpos : alloc.size.toNat ≠ 0 := fun hzero ↦ hplaced.size_ne (UInt64.toNat_inj.mp hzero)
  have hpos' : alloc'.size.toNat ≠ 0 := fun hzero ↦ hplaced'.size_ne (UInt64.toNat_inj.mp hzero)
  intro heq
  rw [Apart, Allocation.region, Allocation.region, heq] at hapart
  simp only at hapart
  omega

theorem full_destroyed (block : Block) (held : List (UInt64 × UInt64)) : Full (destroyBlockLocked block, held) :=
  fun hempty ↦ absurd hempty.symm Bool.false_ne_true

/-- Of what is in the block of a deleted allocation, the rest stays. -/
theorem SlotSound.delete (h : SlotSound wantedSize dedicated slot) (halloc : Placed wantedSize dedicated slot alloc)
    {index : ℕ} (hindex : alloc.blockIndex = index)
    (hslot : slots[index]? = some slot) (hdelete : deleteAllocation alloc (slots.map Prod.fst) = some blocks) :
    ∃ new : Slot, blocks = (slots.map Prod.fst).set index new.1 ∧ SlotSound wantedSize dedicated new ∧ Full new ∧
      (new.1.region = none ∨ new.1.region = slot.1.region) ∧
      ∀ alloc', alloc'.buffer ≠ alloc.buffer → Placed wantedSize dedicated slot alloc' →
        Placed wantedSize dedicated new alloc' := by
  obtain ⟨hfilled, _⟩ := halloc.inside h
  obtain ⟨hdedicated, sub, hsub, hholds⟩ := h.filled hfilled
  have hdestroyed : SlotSound wantedSize dedicated (destroyBlockLocked slot.1, []) :=
    ⟨fun _ ↦ rfl, h.flag, fun hempty ↦ absurd hempty.symm Bool.false_ne_true,
      fun _ hmem ↦ absurd hmem List.not_mem_nil⟩
  rw [deleteAllocation, if_neg halloc.buffer_ne, hindex, List.getElem?_map, hslot, Option.map_some, Option.bind_some]
    at hdelete
  cases dedicated with
  | true =>
    rw [if_pos hdedicated] at hdelete
    cases hdelete
    refine ⟨(destroyBlockLocked slot.1, []), rfl, hdestroyed, full_destroyed _ _, .inl rfl,
      fun alloc' hne halloc' ↦ ?_⟩
    have hle := h.length_le
    match hheld : slot.2 with
    | [] =>
      have hmem := halloc.held
      rw [hheld] at hmem
      cases hmem
    | [range] =>
      have hmem := halloc.held
      have hmem' := halloc'.held
      rw [hheld, List.mem_singleton] at hmem hmem'
      exact absurd (Prod.mk.inj (hmem'.trans hmem.symm)).1 hne
    | _ :: _ :: _ =>
      rw [hheld, List.length_cons, List.length_cons] at hle
      omega
  | false =>
    rw [if_neg (by rw [hdedicated]; decide), hsub, Option.bind_some] at hdelete
    obtain ⟨⟨freed, next⟩, hfree, hdelete⟩ := Option.bind_eq_some_iff.mp hdelete
    cases freed with
    | false => cases hdelete
    | true =>
      have hnext := hholds.free hfree
      cases hdelete
      have hsizes : ∀ range ∈ slot.2.filter fun range ↦ range.1 ≠ alloc.buffer, range.2 = wantedSize :=
        fun range hmem ↦ h.sizes range (List.mem_of_mem_filter hmem)
      have hstay : ∀ alloc', alloc'.buffer ≠ alloc.buffer → Placed wantedSize false slot alloc' →
          (alloc'.buffer, wantedSize) ∈ slot.2.filter fun range ↦ range.1 ≠ alloc.buffer :=
        fun alloc' hne halloc' ↦ List.mem_filter.mpr ⟨halloc'.held, decide_eq_true hne⟩
      by_cases hempty : shouldDestryBlockLocked next = true
      · have hnone := (hnext.held.empty_iff).mp hempty
        refine ⟨(destroyBlockLocked slot.1, []), ?_, hdestroyed, full_destroyed _ _, .inl rfl,
          fun alloc' hne halloc' ↦ ?_⟩
        · simp only [if_pos hempty]
          rfl
        · have hmem := hstay alloc' hne halloc'
          simp only at hnone
          rw [hnone] at hmem
          cases hmem
      · have hsound : SlotSound wantedSize false ({ slot.1 with subAlloc := some next },
            slot.2.filter fun range ↦ range.1 ≠ alloc.buffer) :=
          ⟨fun hempty ↦ absurd (hfilled.symm.trans hempty) (by decide), h.flag,
            fun _ ↦ ⟨hdedicated, next, rfl, hnext⟩, hsizes⟩
        refine ⟨_, ?_, hsound, fun _ hflag ↦ absurd (hdedicated.symm.trans hflag) (by decide),
          .inr ((hsound.region_eq hfilled).trans (h.region_eq hfilled).symm),
          fun alloc' hne halloc' ↦ { halloc' with held := hstay alloc' hne halloc' }⟩
        simp only [if_neg hempty]

/-- A deleted allocation is the only one that leaves its list. -/
theorem ListSound.delete [DecidableEq Id] (h : ListSound wantedSize dedicated others slots live)
    (hfull : ∀ slot ∈ slots, Full slot) (halloc : live id = some alloc)
    (hdelete : deleteAllocation alloc (slots.map Prod.fst) = some blocks) :
    ∃ next, next.map Prod.fst = blocks ∧ (∀ slot ∈ next, Full slot) ∧
      ListSound wantedSize dedicated others next (Function.update live id none) := by
  obtain ⟨slot, hslot, hplaced⟩ := h.placed id alloc halloc
  obtain ⟨new, rfl, hnew, hfull', hregion, hkeep⟩ :=
    (h.slot slot (List.mem_of_getElem? hslot)).delete hplaced rfl hslot hdelete
  obtain ⟨front, back, rfl, hlength⟩ := exists_split hslot
  refine ⟨front ++ new :: back, ?_, forall_mem_replaced hfull hfull', h.replace hnew (fun other alloc' hlive ↦ ?_)
    (fun other alloc' hlive _ hplaced' ↦ hkeep alloc' ?_ hplaced') fun region hmem ↦ .inl ?_⟩
  · rw [← hlength, ← List.map_set, List.set_append_right _ _ le_rfl, Nat.sub_self, List.set_cons_zero]
  · rw [Function.update_apply] at hlive
    split_ifs at hlive
    exact hlive
  · rw [Function.update_apply] at hlive
    split_ifs at hlive with hother
    exact h.buffer_ne hother halloc hlive
  · obtain hnone | hsame := hregion
    · exact absurd (hnone.symm.trans hmem).symm (Option.some_ne_none _)
    · exact hsame.symm.trans hmem

end Delete

/-! ## All contexts -/

/-- All three lists hold their allocations. -/
def Sound {Id : Type} (mPerContextBufferSize : UInt64) (live : Kind → Id → Option Allocation)
    (blocks : Kind → List Block) : Prop :=
  ∀ kind, ∃ slots, slots.map Prod.fst = blocks kind ∧ (∀ slot ∈ slots, Full slot) ∧
    ListSound (kind.wantedSize mPerContextBufferSize) kind.dedicated (regionsBut kind blocks) slots (live kind)

/-- What a context keeps. -/
structure Shaped (mPerContextBufferSize : UInt64) (context : AddressSpaceGraphicsContext) : Prop where
  virtio : context.mIsVirtio = true →
    context.mRingAllocation = allocRingViewIntoCombined context.mCombinedAllocation ∧
    context.mBufferAllocation = allocBufferViewIntoCombined mPerContextBufferSize context.mCombinedAllocation ∧
    context.live .combined = some context.mCombinedAllocation ∧ context.mBufferAllocation.buffer ≠ 0
  ordinary : context.mIsVirtio = false → context.mCombinedAllocation = noAllocation ∧
    context.live .ring = some context.mRingAllocation ∧ context.live .buffer = some context.mBufferAllocation

section Contexts

variable {Id : Type} {host : Host} {mPerContextBufferSize : UInt64} {kind : Kind} {blocks : Kind → List Block}
  {live : Kind → Id → Option Allocation} {s next : State Id} {alloc : Allocation} {id : Id}
  {context : AddressSpaceGraphicsContext}

theorem mem_regionsBut {region : UInt64 × ℕ} :
    region ∈ regionsBut kind blocks ↔ ∃ other, other ≠ kind ∧ region ∈ regions (blocks other) := by
  have hmem : ∀ other : Kind, other ∈ [Kind.ring, .buffer, .combined] := fun other ↦ by cases other <;> decide
  rw [regionsBut, List.mem_flatMap]
  refine exists_congr fun other ↦ and_congr_left fun _ ↦ ?_
  rw [List.mem_filter, decide_eq_true_eq]
  exact and_iff_right (hmem other)

theorem Sound.start : Sound mPerContextBufferSize (fun _ (_ : Id) ↦ none) fun _ ↦ [] := by
  intro kind
  refine ⟨[], rfl, fun _ hslot ↦ absurd hslot List.not_mem_nil, fun _ hslot ↦ absurd hslot List.not_mem_nil,
    List.Pairwise.nil, fun _ hslot ↦ absurd hslot List.not_mem_nil, fun _ _ hlive ↦ ?_, fun _ _ _ _ _ hlive ↦ ?_⟩
  · exact absurd hlive.symm (Option.some_ne_none _)
  · exact absurd hlive.symm (Option.some_ne_none _)

/-- A change in one list does not concern the others. -/
theorem Sound.update (h : Sound mPerContextBufferSize live blocks) {slots : List Slot}
    {live' : Id → Option Allocation} (hfull : ∀ slot ∈ slots, Full slot)
    (hlist : ListSound (kind.wantedSize mPerContextBufferSize) kind.dedicated (regionsBut kind blocks) slots live') :
    Sound mPerContextBufferSize (Function.update live kind live')
      (Function.update blocks kind (slots.map Prod.fst)) := by
  intro other
  by_cases hother : other = kind
  · subst hother
    refine ⟨slots, by rw [Function.update_self], hfull, ?_⟩
    have hsame : regionsBut other (Function.update blocks other (slots.map Prod.fst)) = regionsBut other blocks := by
      refine List.flatMap_congr fun kind hkind ↦ ?_
      rw [Function.update_of_ne (of_decide_eq_true (List.mem_filter.mp hkind).2)]
    rw [hsame, Function.update_self]
    exact hlist
  · obtain ⟨slots', hslots', hfull', hlist'⟩ := h other
    refine ⟨slots', by rw [Function.update_of_ne hother, hslots'], hfull', ?_⟩
    rw [Function.update_of_ne hother]
    refine { hlist' with others := fun slot hslot region hregion region' hregion' ↦ ?_ }
    obtain ⟨third, hthird, hmem⟩ := mem_regionsBut.mp hregion'
    by_cases hkind : third = kind
    · rw [hkind, Function.update_self] at hmem
      obtain ⟨block, hblock, hmem⟩ := mem_regions.mp hmem
      obtain ⟨new, hnew, rfl⟩ := List.mem_map.mp hblock
      refine (hlist.others new hnew region' hmem region (mem_regionsBut.mpr ⟨other, hother, ?_⟩)).symm
      rw [← hslots']
      exact mem_regions.mpr ⟨slot.1, List.mem_map_of_mem hslot, hregion⟩
    · rw [Function.update_of_ne hkind] at hmem
      exact hlist'.others slot hslot region hregion region' (mem_regionsBut.mpr ⟨third, hthird, hmem⟩)

variable [DecidableEq Id]

theorem Sound.of_alloc (h : Sound mPerContextBufferSize live s.blocks)
    (halloc : s.alloc host mPerContextBufferSize kind = some (alloc, next)) (id : Id) :
    Sound mPerContextBufferSize (Function.update live kind (Function.update (live kind) id (some alloc)))
        next.blocks ∧
      alloc.buffer ≠ 0 ∧ alloc.isView = false ∧ next.contexts = s.contexts := by
  obtain ⟨⟨alloc', blocks, fills⟩, hnew, halloc⟩ := Option.map_eq_some_iff.mp halloc
  obtain ⟨rfl, rfl⟩ := Prod.mk.inj halloc
  obtain ⟨slots, hslots, hfull, hlist⟩ := h kind
  rw [newAllocation] at hnew
  split_ifs at hnew with hsize
  rw [← hslots] at hnew
  have hwanted : (kind.wantedSize mPerContextBufferSize).toNat ≤ 16 * 1048576 := Nat.le_of_not_lt hsize
  obtain ⟨slots', rfl, hfull', hlist'⟩ := ListSound.of_place [] hlist
    (fun _ hslot ↦ absurd hslot List.not_mem_nil) hfull hwanted hnew id
  obtain ⟨_, _, hplaced⟩ := hlist'.placed id alloc' (Function.update_self id (some alloc') (live kind))
  exact ⟨h.update hfull' hlist', hplaced.buffer_ne, hplaced.isView_eq, rfl⟩

theorem Sound.of_free (h : Sound mPerContextBufferSize live s.blocks) (halloc : live kind id = some alloc)
    (hfree : s.free kind alloc = some next) :
    Sound mPerContextBufferSize (Function.update live kind (Function.update (live kind) id none)) next.blocks ∧
      next.contexts = s.contexts := by
  obtain ⟨slots, hslots, hfull, hlist⟩ := h kind
  obtain ⟨_, _, hplaced⟩ := hlist.placed id alloc halloc
  rw [State.free, if_neg fun hview ↦ absurd (hplaced.isView_eq.symm.trans hview.1) Bool.false_ne_true] at hfree
  obtain ⟨blocks, hdelete, rfl⟩ := Option.map_eq_some_iff.mp hfree
  rw [← hslots] at hdelete
  obtain ⟨slots', rfl, hfull', hlist'⟩ := hlist.delete hfull halloc hdelete
  exact ⟨h.update hfull' hlist', rfl⟩

theorem deleteAllocation_null (h : alloc.buffer = 0) (existingBlocks : List Block) :
    deleteAllocation alloc existingBlocks = some existingBlocks := if_pos h

theorem live_of_isView (h : (context.allocation kind).isView = true) : context.live kind = none := if_pos (.inr h)

theorem live_of_null (h : (context.allocation kind).buffer = 0) : context.live kind = none := if_pos (.inl h)

theorem live_eq_some (context : AddressSpaceGraphicsContext) (kind : Kind) (hbuffer : (context.allocation kind).buffer ≠ 0)
    (hview : (context.allocation kind).isView = false) : context.live kind = some (context.allocation kind) := by
  rw [AddressSpaceGraphicsContext.live, hview]
  exact if_neg (not_or.mpr ⟨hbuffer, Bool.false_ne_true⟩)

/-- The three lists are sound, and so is every context. -/
structure Invariant {Id : Type} (mPerContextBufferSize : UInt64) (s : State Id) : Prop where
  sound : Sound mPerContextBufferSize (fun kind id ↦ s.live kind id) s.blocks
  shaped : ∀ id context, s.contexts id = some context → Shaped mPerContextBufferSize context

omit [DecidableEq Id] in
theorem Invariant.start : Invariant mPerContextBufferSize (State.start : State Id) :=
  ⟨Sound.start, fun _ _ hcontext ↦ absurd hcontext.symm (Option.some_ne_none _)⟩

omit [DecidableEq Id] in
theorem State.live_of_contexts (hid : s.contexts id = some context) (kind : Kind) :
    s.live kind id = context.live kind := by
  rw [State.live, hid, Option.bind_some]

section

variable (live : Kind → Id → Option Allocation) (kind other : Kind)

theorem update_apply_id (id : Id) (new : Option Allocation) :
    Function.update live kind (Function.update (live kind) id new) other id =
      if other = kind then new else live other id := by
  rw [Function.update_apply]
  split_ifs
  · exact Function.update_self id new (live kind)
  · rfl

theorem update_apply_of_ne {id third : Id} (hne : third ≠ id) (new : Option Allocation) :
    Function.update live kind (Function.update (live kind) id new) other third = live other third := by
  rw [Function.update_apply]
  split_ifs with hkind
  · rw [Function.update_of_ne hne, hkind]
  · rfl

end

section

variable (h : Invariant mPerContextBufferSize s)
include h

/-- A context is put in or taken out, with all that it holds. -/
theorem Invariant.update (hcontexts : next.contexts = s.contexts) {context : Option AddressSpaceGraphicsContext}
    (hshaped : ∀ new, context = some new → Shaped mPerContextBufferSize new)
    (hsound : Sound mPerContextBufferSize live next.blocks)
    (hid : ∀ kind, live kind id = context.bind fun context ↦ context.live kind)
    (hother : ∀ kind other, other ≠ id → live kind other = s.live kind other) :
    Invariant mPerContextBufferSize { next with contexts := Function.update next.contexts id context } := by
  constructor
  · have hsame : (fun kind other ↦ State.live kind other
        { next with contexts := Function.update next.contexts id context }) = live := by
      funext kind other
      rw [State.live, hcontexts]
      by_cases heq : other = id
      · simp only [heq, Function.update_self, hid]
      · simp only [Function.update_of_ne heq, hother kind other heq, State.live]
    rw [hsame]
    exact hsound
  · intro other new hnew
    simp only [hcontexts, Function.update_apply] at hnew
    split_ifs at hnew
    · exact hshaped new hnew
    · exact h.shaped other new hnew

theorem Invariant.create_virtio (hid : s.contexts id = none)
    (hcreate : s.create host mPerContextBufferSize true = some (context, next)) :
    Invariant mPerContextBufferSize { next with contexts := Function.update next.contexts id (some context) } := by
  have hnone : ∀ kind, s.live kind id = none := fun kind ↦ by rw [State.live, hid, Option.bind_none]
  obtain ⟨⟨combined, last⟩, halloc, hcreate⟩ := Option.bind_eq_some_iff.mp hcreate
  obtain ⟨hsound, hbuffer, hview, hcontexts⟩ := h.sound.of_alloc halloc id
  simp only at hcreate
  split_ifs at hcreate with hnull
  cases hcreate
  have hcombined := live_eq_some ⟨true, allocRingViewIntoCombined combined,
    allocBufferViewIntoCombined mPerContextBufferSize combined, combined⟩ .combined hbuffer hview
  refine h.update hcontexts (fun new hnew ↦ ?_) hsound (fun kind ↦ ?_)
    fun kind other hne ↦ update_apply_of_ne _ .combined kind hne _
  · cases hnew
    exact ⟨fun _ ↦ ⟨rfl, rfl, hcombined, (not_or.mp hnull).2⟩, fun hfalse ↦ absurd hfalse.symm Bool.false_ne_true⟩
  · rw [update_apply_id, Option.bind_some]
    cases kind with
    | ring => exact (hnone .ring).trans (live_of_isView rfl).symm
    | buffer => exact (hnone .buffer).trans (live_of_isView rfl).symm
    | combined => exact hcombined.symm

theorem Invariant.create_ordinary (hid : s.contexts id = none)
    (hcreate : s.create host mPerContextBufferSize false = some (context, next)) :
    Invariant mPerContextBufferSize { next with contexts := Function.update next.contexts id (some context) } := by
  have hnone : s.live .combined id = none := by rw [State.live, hid, Option.bind_none]
  obtain ⟨⟨ring, middle⟩, hring, hcreate⟩ := Option.bind_eq_some_iff.mp hcreate
  obtain ⟨⟨buffer, last⟩, hbuffer, hcreate⟩ := Option.bind_eq_some_iff.mp hcreate
  obtain ⟨hsound, hringNe, hringView, hcontexts⟩ := h.sound.of_alloc hring id
  obtain ⟨hsound', hbufferNe, hbufferView, hcontexts'⟩ := hsound.of_alloc hbuffer id
  simp only at hcreate
  split_ifs at hcreate with hnull
  cases hcreate
  have hringLive := live_eq_some ⟨false, ring, buffer, noAllocation⟩ .ring hringNe hringView
  have hbufferLive := live_eq_some ⟨false, ring, buffer, noAllocation⟩ .buffer hbufferNe hbufferView
  refine h.update (hcontexts'.trans hcontexts) (fun new hnew ↦ ?_) hsound' (fun kind ↦ ?_) fun kind other hne ↦ ?_
  · cases hnew
    exact ⟨fun htrue ↦ absurd htrue Bool.false_ne_true, fun _ ↦ ⟨rfl, hringLive, hbufferLive⟩⟩
  · rw [update_apply_id, update_apply_id, Option.bind_some]
    cases kind with
    | ring => exact hringLive.symm
    | buffer => exact hbufferLive.symm
    | combined => exact hnone.trans (live_of_null rfl).symm
  · rw [update_apply_of_ne _ _ _ hne, update_apply_of_ne _ _ _ hne]

theorem Invariant.destroy_virtio (hid : s.contexts id = some context) (hvirtio : context.mIsVirtio = true)
    (hdestroy : s.destroy context = some next) :
    Invariant mPerContextBufferSize { next with contexts := Function.update next.contexts id none } := by
  obtain ⟨hring, hbuffer, hcombined, _⟩ := (h.shaped id context hid).virtio hvirtio
  have hringView : context.mRingAllocation.isView = true := by rw [hring]; rfl
  have hbufferView : context.mBufferAllocation.isView = true := by rw [hbuffer]; rfl
  obtain ⟨first, hfirst, hdestroy⟩ := Option.bind_eq_some_iff.mp hdestroy
  obtain ⟨second, hsecond, hthird⟩ := Option.bind_eq_some_iff.mp hdestroy
  rw [State.free, if_pos ⟨hbufferView, by decide⟩] at hfirst
  cases hfirst
  rw [State.free, if_pos ⟨hringView, by decide⟩] at hsecond
  cases hsecond
  obtain ⟨hsound, hcontexts⟩ := h.sound.of_free ((State.live_of_contexts hid .combined).trans hcombined) hthird
  refine h.update hcontexts (fun new hnew ↦ absurd hnew.symm (Option.some_ne_none new)) hsound (fun kind ↦ ?_)
    fun kind other hne ↦ update_apply_of_ne _ .combined kind hne _
  rw [update_apply_id, Option.bind_none]
  cases kind with
  | ring => exact (State.live_of_contexts hid .ring).trans (live_of_isView hringView)
  | buffer => exact (State.live_of_contexts hid .buffer).trans (live_of_isView hbufferView)
  | combined => rfl

theorem Invariant.destroy_ordinary (hid : s.contexts id = some context)
    (hordinary : context.mIsVirtio = false) (hdestroy : s.destroy context = some next) :
    Invariant mPerContextBufferSize { next with contexts := Function.update next.contexts id none } := by
  obtain ⟨hcombined, hring, hbuffer⟩ := (h.shaped id context hid).ordinary hordinary
  obtain ⟨first, hfirst, hdestroy⟩ := Option.bind_eq_some_iff.mp hdestroy
  obtain ⟨second, hsecond, hthird⟩ := Option.bind_eq_some_iff.mp hdestroy
  obtain ⟨hsound, hcontexts⟩ := h.sound.of_free ((State.live_of_contexts hid .buffer).trans hbuffer) hfirst
  have hringLive := (update_apply_id (fun kind id ↦ s.live kind id) .buffer .ring id none).trans
    ((State.live_of_contexts hid .ring).trans hring)
  obtain ⟨hsound', hcontexts'⟩ := hsound.of_free hringLive hsecond
  have hnone : context.live .combined = none := by
    refine live_of_null ?_
    rw [AddressSpaceGraphicsContext.allocation, hcombined]
    rfl
  obtain rfl : second = next := by
    rw [hcombined, State.free, if_neg (fun hview ↦ absurd hview.1 Bool.false_ne_true),
      deleteAllocation_null rfl (second.blocks .combined), Option.map_some, Function.update_eq_self] at hthird
    exact Option.some.inj hthird
  refine h.update (hcontexts'.trans hcontexts) (fun new hnew ↦ absurd hnew.symm (Option.some_ne_none new)) hsound'
    (fun kind ↦ ?_) fun kind other hne ↦ ?_
  · rw [update_apply_id, update_apply_id, Option.bind_none]
    cases kind with
    | ring => rfl
    | buffer => rfl
    | combined => exact (State.live_of_contexts hid .combined).trans hnone
  · rw [update_apply_of_ne _ _ _ hne, update_apply_of_ne _ _ _ hne]

theorem Invariant.step {action : Action Id} (hstep : State.step host mPerContextBufferSize action s = some next) :
    Invariant mPerContextBufferSize next := by
  cases action with
  | create id isVirtio =>
    rw [State.step] at hstep
    split_ifs at hstep with hid
    obtain ⟨⟨context, last⟩, hcreate, rfl⟩ := Option.map_eq_some_iff.mp hstep
    have hnone : s.contexts id = none := Option.not_isSome_iff_eq_none.mp hid
    cases isVirtio with
    | true => exact h.create_virtio hnone hcreate
    | false => exact h.create_ordinary hnone hcreate
  | destroy id =>
    obtain ⟨context, hid, hstep⟩ := Option.bind_eq_some_iff.mp hstep
    obtain ⟨last, hdestroy, rfl⟩ := Option.map_eq_some_iff.mp hstep
    cases hvirtio : context.mIsVirtio with
    | true => exact h.destroy_virtio hid hvirtio hdestroy
    | false => exact h.destroy_ordinary hid hvirtio hdestroy

end

end Contexts

/-! ## Runs -/

/-- An allocation lies in a block that is not empty, and knows where. -/
structure Allocation.In (alloc : Allocation) (block : Block) : Prop where
  isEmpty_eq : block.isEmpty = false
  inside : ∃ size, block.region = some (block.buffer, size) ∧ block.buffer.toNat ≤ alloc.buffer.toNat ∧
    alloc.buffer.toNat + alloc.size.toNat ≤ block.buffer.toNat + size
  offset_eq : alloc.offsetIntoPhys = block.offsetIntoPhys + (alloc.buffer - block.buffer)
  hostmemId_eq : alloc.dedicated = true → alloc.hostmemId = block.hostmemId

/-- The views of a virtio context tell the block and the offset of the combined allocation, which they divide between
them unless its size wraps around. -/
structure Views (mPerContextBufferSize : UInt64) (context : AddressSpaceGraphicsContext) : Prop where
  ring_eq : context.mRingAllocation = { context.mCombinedAllocation with size := sizeofRingStorage, isView := true }
  buffer_eq : context.mBufferAllocation =
    { context.mCombinedAllocation with
        buffer := context.mCombinedAllocation.buffer + sizeofRingStorage
        size := mPerContextBufferSize
        isView := true }
  divided : sizeofRingStorage.toNat + mPerContextBufferSize.toNat < 2 ^ 64 →
    context.mBufferAllocation.buffer.toNat = context.mRingAllocation.buffer.toNat + sizeofRingStorage.toNat ∧
    context.mBufferAllocation.buffer.toNat + mPerContextBufferSize.toNat =
      context.mCombinedAllocation.buffer.toNat + context.mCombinedAllocation.size.toNat

structure Correct {Id : Type} (mPerContextBufferSize : UInt64) (s : State Id) : Prop where
  virtio : ∀ id context, s.contexts id = some context → context.mIsVirtio = true →
    s.live .combined id = some context.mCombinedAllocation ∧ Views mPerContextBufferSize context
  ordinary : ∀ id context, s.contexts id = some context → context.mIsVirtio = false →
    s.live .ring id = some context.mRingAllocation ∧ s.live .buffer id = some context.mBufferAllocation
  placed : ∀ kind id alloc, s.live kind id = some alloc →
    ∃ block, (s.blocks kind)[alloc.blockIndex]? = some block ∧ alloc.In block
  disjoint : ∀ kind id alloc kind' id' alloc', s.live kind id = some alloc → s.live kind' id' = some alloc' →
    (kind, id) ≠ (kind', id') → Apart alloc.region alloc'.region

section Correct

variable {Id : Type} {host : Host} {mPerContextBufferSize : UInt64} {s next : State Id}
  {context : AddressSpaceGraphicsContext}

variable {kind : Kind} {id : Id} {alloc : Allocation}

section

variable (h : Invariant mPerContextBufferSize s)
include h

theorem Invariant.placed (hlive : s.live kind id = some alloc) :
    ∃ block, (s.blocks kind)[alloc.blockIndex]? = some block ∧ alloc.In block ∧
      ∃ region ∈ regions (s.blocks kind), region.1.toNat ≤ alloc.buffer.toNat ∧
        alloc.buffer.toNat + alloc.size.toNat ≤ region.1.toNat + region.2 := by
  obtain ⟨slots, hslots, _, hlist⟩ := h.sound kind
  obtain ⟨slot, hslot, hplaced⟩ := hlist.placed id alloc hlive
  have hsound := hlist.slot slot (List.mem_of_getElem? hslot)
  obtain ⟨hfilled, hstart, hend⟩ := hplaced.inside hsound
  have hregion := hsound.region_eq hfilled
  refine ⟨slot.1, ?_, ⟨hfilled, ⟨_, hregion, hstart, hend⟩, hplaced.offset_eq,
    fun hdedicated ↦ hplaced.hostmemId_eq (hplaced.dedicated_eq.symm.trans hdedicated)⟩, _,
    mem_regions.mpr ⟨slot.1, ?_, hregion⟩, hstart, hend⟩
  · rw [← hslots, List.getElem?_map, hslot, Option.map_some]
  · rw [← hslots]
    exact List.mem_map_of_mem (List.mem_of_getElem? hslot)

theorem Invariant.disjoint {kind' : Kind} {id' : Id} {alloc' : Allocation}
    (hlive : s.live kind id = some alloc) (hlive' : s.live kind' id' = some alloc')
    (hne : (kind, id) ≠ (kind', id')) : Apart alloc.region alloc'.region := by
  by_cases hkind : kind = kind'
  · subst hkind
    obtain ⟨_, _, _, hlist⟩ := h.sound kind
    exact hlist.disjoint id id' alloc alloc' (fun hid ↦ hne (by rw [hid])) hlive hlive'
  · obtain ⟨_, _, _, region, hregion, hstart, hend⟩ := h.placed hlive
    obtain ⟨_, _, _, region', hregion', hstart', hend'⟩ := h.placed hlive'
    obtain ⟨slots, hslots, _, hlist⟩ := h.sound kind
    rw [← hslots] at hregion
    obtain ⟨block, hblock, hregion⟩ := mem_regions.mp hregion
    obtain ⟨slot, hslot, rfl⟩ := List.mem_map.mp hblock
    have hapart := hlist.others slot hslot region hregion region'
      (mem_regionsBut.mpr ⟨kind', Ne.symm hkind, hregion'⟩)
    rw [Apart] at hapart ⊢
    simp only [Allocation.region]
    omega

theorem Invariant.size_eq (hlive : s.live kind id = some alloc) : alloc.size = kind.wantedSize mPerContextBufferSize ∧
      alloc.buffer.toNat + alloc.size.toNat ≤ 2 ^ 64 := by
  obtain ⟨_, _, _, hlist⟩ := h.sound kind
  obtain ⟨slot, hslot, hplaced⟩ := hlist.placed id alloc hlive
  have hsound := hlist.slot slot (List.mem_of_getElem? hslot)
  obtain ⟨hfilled, _, hend⟩ := hplaced.inside hsound
  obtain ⟨_, _, _, hholds⟩ := hsound.filled hfilled
  exact ⟨hplaced.size_eq, hend.trans hholds.end_le⟩

theorem Invariant.views (hid : s.contexts id = some context) (hvirtio : context.mIsVirtio = true) :
    Views mPerContextBufferSize context := by
  obtain ⟨hring, hbuffer, hcombined, hnull⟩ := (h.shaped id context hid).virtio hvirtio
  obtain ⟨hsize, hend⟩ := h.size_eq ((State.live_of_contexts hid .combined).trans hcombined)
  refine ⟨hring, hbuffer, fun hsmall ↦ ?_⟩
  have hwanted : context.mCombinedAllocation.size.toNat = sizeofRingStorage.toNat + mPerContextBufferSize.toNat := by
    rw [hsize, Kind.wantedSize, UInt64.toNat_add, Nat.mod_eq_of_lt hsmall]
  have hview : context.mBufferAllocation.buffer.toNat =
      (context.mCombinedAllocation.buffer.toNat + sizeofRingStorage.toNat) % 2 ^ 64 := by
    rw [hbuffer, allocBufferViewIntoCombined, UInt64.toNat_add]
  have hviewNe : context.mBufferAllocation.buffer.toNat ≠ 0 := fun hzero ↦ hnull (UInt64.toNat_inj.mp hzero)
  have hstart : context.mRingAllocation.buffer = context.mCombinedAllocation.buffer := by
    rw [hring, allocRingViewIntoCombined]
  rw [hstart]
  omega

theorem Invariant.correct : Correct mPerContextBufferSize s where
  virtio := fun id context hid hvirtio ↦
    ⟨(State.live_of_contexts hid .combined).trans ((h.shaped id context hid).virtio hvirtio).2.2.1,
      h.views hid hvirtio⟩
  ordinary := fun id context hid hordinary ↦
    ⟨(State.live_of_contexts hid .ring).trans ((h.shaped id context hid).ordinary hordinary).2.1,
      (State.live_of_contexts hid .buffer).trans ((h.shaped id context hid).ordinary hordinary).2.2⟩
  placed := fun _ _ _ hlive ↦ by
    obtain ⟨block, hblock, hin, _⟩ := h.placed hlive
    exact ⟨block, hblock, hin⟩
  disjoint := fun _ _ _ _ _ _ hlive hlive' hne ↦ h.disjoint hlive hlive' hne

end

theorem contexts_of_alloc (h : s.alloc host mPerContextBufferSize kind = some (alloc, next)) :
    next.contexts = s.contexts := by
  obtain ⟨_, _, h⟩ := Option.map_eq_some_iff.mp h
  obtain ⟨_, rfl⟩ := Prod.mk.inj h
  rfl

theorem contexts_of_free (h : s.free kind alloc = some next) : next.contexts = s.contexts := by
  rw [State.free] at h
  split_ifs at h
  · rw [Option.some.inj h]
  · obtain ⟨_, _, rfl⟩ := Option.map_eq_some_iff.mp h
    rfl

theorem contexts_of_create {isVirtio : Bool}
    (h : s.create host mPerContextBufferSize isVirtio = some (context, next)) : next.contexts = s.contexts := by
  rw [State.create] at h
  split_ifs at h
  · obtain ⟨⟨_, last⟩, halloc, h⟩ := Option.bind_eq_some_iff.mp h
    simp only at h
    split_ifs at h
    obtain ⟨_, rfl⟩ := Prod.mk.inj (Option.some.inj h)
    exact contexts_of_alloc halloc
  · obtain ⟨⟨_, middle⟩, hring, h⟩ := Option.bind_eq_some_iff.mp h
    obtain ⟨⟨_, last⟩, hbuffer, h⟩ := Option.bind_eq_some_iff.mp h
    simp only at h
    split_ifs at h
    obtain ⟨_, rfl⟩ := Prod.mk.inj (Option.some.inj h)
    exact (contexts_of_alloc hbuffer).trans (contexts_of_alloc hring)

theorem contexts_of_destroy (h : s.destroy context = some next) : next.contexts = s.contexts := by
  obtain ⟨_, hbuffer, h⟩ := Option.bind_eq_some_iff.mp h
  obtain ⟨_, hring, hcombined⟩ := Option.bind_eq_some_iff.mp h
  exact ((contexts_of_free hcombined).trans (contexts_of_free hring)).trans (contexts_of_free hbuffer)

/-- Only the end of a context takes its allocations away. -/
theorem live_of_step [DecidableEq Id] {action : Action Id}
    (hstep : State.step host mPerContextBufferSize action s = some next) (haction : action ≠ .destroy id)
    (hlive : s.live kind id = some alloc) : next.live kind id = some alloc := by
  obtain ⟨context, hid, hcontext⟩ := Option.bind_eq_some_iff.mp hlive
  cases action with
  | create other isVirtio =>
    rw [State.step] at hstep
    split_ifs at hstep with hother
    obtain ⟨⟨new, last⟩, hcreate, rfl⟩ := Option.map_eq_some_iff.mp hstep
    have hne : id ≠ other := fun heq ↦ hother (by rw [← heq, hid]; rfl)
    rw [← hlive, State.live, State.live]
    simp only [contexts_of_create hcreate, Function.update_of_ne hne]
  | destroy other =>
    obtain ⟨_, _, hstep⟩ := Option.bind_eq_some_iff.mp hstep
    obtain ⟨last, hdestroy, rfl⟩ := Option.map_eq_some_iff.mp hstep
    have hne : id ≠ other := fun heq ↦ haction (by rw [heq])
    rw [← hlive, State.live, State.live]
    simp only [contexts_of_destroy hdestroy, Function.update_of_ne hne]

end Correct

/-- A step in which a block becomes empty takes away all that was in it. -/
def EmptiesUnused {Id : Type} (action : Action Id) (s next : State Id) : Prop :=
  ∀ kind index block block', (s.blocks kind)[index]? = some block → block.isEmpty = false →
    (next.blocks kind)[index]? = some block' → block'.isEmpty = true →
    ∀ id alloc, s.live kind id = some alloc → alloc.blockIndex = index →
      action = .destroy id ∧ next.live kind id = none

/-- After any number of contexts was created and destroyed, all allocations that are not views lie in blocks and apart
from each other, and blocks become empty when nothing is in them. -/
theorem placed_of_run {Id : Type} [DecidableEq Id] (host : Host) (mPerContextBufferSize : UInt64)
    (actions : List (Action Id)) (s : State Id)
    (hrun : run (State.step host mPerContextBufferSize) State.start actions = some s) :
    Correct mPerContextBufferSize s ∧ ∀ action next,
      State.step host mPerContextBufferSize action s = some next → EmptiesUnused action s next := by
  have hinvariant : Invariant mPerContextBufferSize s :=
    invariant_of_run (fun _ _ _ (h : Invariant mPerContextBufferSize _) hstep ↦ h.step hstep) Invariant.start hrun
  refine ⟨hinvariant.correct, fun action next hstep ↦ ?_⟩
  intro kind index block block' _ _ hblock' hempty id alloc hlive hindex
  have hnext := hinvariant.step hstep
  have hnot : ∀ other, next.live kind other = some alloc → False := by
    intro other hother
    obtain ⟨block, hblock, hin, _⟩ := hnext.placed hother
    rw [hindex, hblock', Option.some.injEq] at hblock
    exact absurd (hin.isEmpty_eq.symm.trans (hblock ▸ hempty)) Bool.false_ne_true
  have haction : action = .destroy id := by
    by_contra haction
    exact hnot id (live_of_step hstep haction hlive)
  refine ⟨haction, ?_⟩
  subst haction
  obtain ⟨_, _, hstep⟩ := Option.bind_eq_some_iff.mp hstep
  obtain ⟨last, _, rfl⟩ := Option.map_eq_some_iff.mp hstep
  simp only [State.live, Function.update_self, Option.bind_none]

/-- The first page behind all memory in use. -/
def firstFree (used : List (UInt64 × ℕ)) : ℕ :=
  used.foldr (fun region free ↦ max ((region.1.toNat + region.2 + 4095) / 4096 * 4096) free) 4096

theorem le_firstFree {used : List (UInt64 × ℕ)} {region : UInt64 × ℕ} (h : region ∈ used) :
    region.1.toNat + region.2 ≤ firstFree used := by
  induction used with
  | nil => exact absurd h List.not_mem_nil
  | cons first used ih =>
    rw [firstFree, List.foldr_cons, ← firstFree]
    obtain rfl | hmem := List.mem_cons.mp h
    · omega
    · exact (ih hmem).trans (le_max_right _ _)

theorem firstFree_pos (used : List (UInt64 × ℕ)) : 0 < firstFree used := by
  induction used with
  | nil => decide
  | cons first used ih => exact lt_max_of_lt_right ih

/-- Memory is taken from the first free page, 16 MB of physical addresses for each block. -/
def pageHost : Host where
  aligned_buf_alloc _ used size :=
    if firstFree used < 2 ^ 64 ∧ firstFree used + size.toNat ≤ 2 ^ 64 then some (UInt64.ofNat (firstFree used))
    else none
  apart _ used size buf h := by
    split_ifs at h with hfits
    cases h
    have htoNat : (UInt64.ofNat (firstFree used)).toNat = firstFree used := UInt64.toNat_ofNat_of_lt' hfits.1
    refine ⟨fun hzero ↦ ?_, by rw [htoNat]; exact hfits.2, fun region hregion ↦ .inr ?_⟩
    · rw [hzero] at htoNat
      exact (firstFree_pos used).ne htoNat
    · rw [htoNat]
      exact le_firstFree hregion
  allocSharedHostRegionLocked fills := some (UInt64.ofNat (fills * 16777216))
  hostmem_register fills := UInt64.ofNat (fills + 1)
  uninitialised _ := 0

/-- Two ordinary contexts share blocks; the block of the first virtio context is filled again. -/
def contextsInTurn : List (Action ℕ) :=
  [.create 0 true, .create 1 false, .create 2 false, .destroy 0, .destroy 1, .create 3 true, .create 4 true]

theorem placed_of_run_contextsInTurn :
    ∃ s, run (State.step pageHost 1048576) State.start contextsInTurn = some s ∧
      (s.blocks .combined).length = 2 ∧ (s.blocks .ring).length = 1 ∧ Correct 1048576 s := by
  have hrun : ∃ s ∈ run (State.step pageHost 1048576) State.start contextsInTurn,
      (s.blocks .combined).length = 2 ∧ (s.blocks .ring).length = 1 := by decide +kernel
  obtain ⟨s, hs, hcombined, hring⟩ := hrun
  exact ⟨s, hs, hcombined, hring, (placed_of_run pageHost 1048576 contextsInTurn s hs).1⟩

/-- The buffer of a virtio context does not start at its offset. -/
theorem offset_of_view_is_not_its_own :
    ∃ s ∈ run (State.step pageHost 1048576) State.start [Action.create 0 true],
      ∃ context ∈ s.contexts 0, ∃ block ∈ (s.blocks .combined)[context.mBufferAllocation.blockIndex]?,
        context.mBufferAllocation.offsetIntoPhys ≠
          block.offsetIntoPhys + (context.mBufferAllocation.buffer - block.buffer) := by
  decide +kernel

end FdeEmugl.GraphicsBlocks
