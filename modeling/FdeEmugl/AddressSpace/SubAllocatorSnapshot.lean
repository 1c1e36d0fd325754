import FdeEmugl.AddressSpace.SubAllocator
import FdeEmugl.Base.Stream

/-!
# Snapshots of a SubAllocator

The blocks are written with their number and the capacity, and are read into the array that the destination
has already: one for 32 blocks, whatever the capacity that was read says. `postLoad` sets the start of the
buffer, and the end stays that of the destination, so that a pointer may be refused that lies in the buffer.
-/

namespace FdeEmugl.AddressSpace

open FdeEmugl.Stream Runs
open Option (bind_eq_bind bind_eq_some_iff bind_some ite_none_right_eq_some map_eq_some_iff)

namespace SubAllocator

/-! ## Saving and loading -/

/-- The flag is the highest bit beside the 63 of the size. -/
def putBlock (block : Block) : List UInt8 := putBe64 (UInt64.ofNat block.offset) ++
    putBe64 (UInt64.ofNat (block.size + if block.available then 2 ^ 63 else 0))

def getBlock (stream : List UInt8) : Block × List UInt8 :=
  let (offset, stream) := getBe64 stream
  let (size_available, stream) := getBe64 stream
  (⟨offset.toNat, stored size_available.toNat, 2 ^ 63 ≤ size_available.toNat⟩, stream)

def save (s : SubAllocator) : List UInt8 :=
  putBe32 (UInt32.ofNat s.addr_alloc.blocks.length) ++ putBe32 (UInt32.ofNat s.addr_alloc.capacity) ++
    putBe64 (UInt64.ofNat s.addr_alloc.total_bytes) ++ s.addr_alloc.blocks.flatMap putBlock ++
    putBe64 s.pageSize ++ putBe64 s.totalSize ++ putBe32 s.allocCount

def clear (s : SubAllocator) : Option SubAllocator :=
  (init s.totalSize.toNat 32).map fun addr_alloc ↦ { s with addr_alloc, array := 32 }

/-- A negative `int` is 0 here, which fails the same assertions. -/
def toInt (word : UInt32) : ℕ := if word.toNat < 2 ^ 31 then word.toNat else 0

def loadBlocks : ℕ → List UInt8 → List Block × List UInt8
  | 0, stream => ([], stream)
  | count + 1, stream =>
    let (block, stream) := getBlock stream
    let (blocks, stream) := loadBlocks count stream
    (block :: blocks, stream)

/-- The blocks go into the array that `clear` made. -/
def load (stream : List UInt8) (s : SubAllocator) : Option (SubAllocator × List UInt8) := do
  let s ← s.clear
  let (size, stream) := getBe32 stream
  let (capacity, stream) := getBe32 stream
  let (total_bytes, stream) := getBe64 stream
  if 1 ≤ toInt size ∧ toInt size ≤ s.array then
    let (blocks, stream) := loadBlocks (toInt size) stream
    let (pageSize, stream) := getBe64 stream
    let (totalSize, stream) := getBe64 stream
    let (allocCount, stream) := getBe32 stream
    let addr_alloc : Allocator := { blocks, capacity := toInt capacity, total_bytes := total_bytes.toNat }
    return ({ s with addr_alloc, pageSize, totalSize, allocCount }, stream)
  else none

def postLoad (postLoadBuffer : UInt64) (s : SubAllocator) : SubAllocator := { s with startAddr := postLoadBuffer }

/-- What `s` becomes when it is saved and loaded into `destination`. -/
def restore (destination : SubAllocator) (newBase : UInt64) (s : SubAllocator) : Option SubAllocator :=
  (destination.load s.save).map fun (loaded, _) ↦ loaded.postLoad newBase

/-! ## What users expect of it -/

/-- An allocation starts at the offset: it can be given back. -/
def Live (offset : UInt64) (s : SubAllocator) : Prop :=
  ∃ addr_alloc, deallocate s.addr_alloc offset.toNat = some (0, addr_alloc)

/-- The requests one after the other, with the pointers that are returned. -/
def allocs : List UInt64 → SubAllocator → Option (List UInt64 × SubAllocator)
  | [], s => some ([], s)
  | wantedSize :: wanted, s => do
    let (ptr, s) ← s.alloc wantedSize
    let (ptrs, s) ← allocs wanted s
    return (ptr :: ptrs, s)

/-- Both requests failed, or the second pointer is at the offset of the first in the new buffer. -/
def Shifted (s : SubAllocator) (newBase ptr shifted : UInt64) : Prop :=
  (ptr = 0 ∧ shifted = 0) ∨ shifted = newBase + s.getOffset ptr

structure Restored (newBase : UInt64) (s loaded : SubAllocator) : Prop where
  blocks_eq : loaded.addr_alloc.blocks = s.addr_alloc.blocks
  count_eq : loaded.allocCount = s.allocCount
  free_iff : ∀ offset, (∃ next, loaded.free (newBase + offset) = some (true, next)) ↔ Live offset s
  allocs_rel : ∀ wanted, Option.Rel (List.Forall₂ (Shifted s newBase)) ((s.allocs wanted).map Prod.fst)
    ((loaded.allocs wanted).map Prod.fst)

/-- The live allocations lie between the new base and the end of the destination, none at null; and the array
was never doubled, or the requests that may come do not make more than 32 blocks. -/
structure Fits (destination : SubAllocator) (newBase : UInt64) (s : SubAllocator) : Prop where
  reached : ∀ offset, Live offset s → newBase + offset ≠ 0 ∧ newBase ≤ newBase + offset ∧
    newBase + offset ≤ destination.endAddr
  room : s.addr_alloc.capacity = 32 ∨
    ∀ wanted ptrs next, s.allocs wanted = some (ptrs, next) → next.addr_alloc.blocks.length ≤ 32

end SubAllocator

/-! ## What is stored fits in its words -/

/-- A block that 64 and 63 bits hold. -/
def Block.InWords (block : Block) : Prop := block.offset < 2 ^ 64 ∧ block.size < 2 ^ 63

structure Storable (allocator : Allocator) : Prop where
  nonempty : 1 ≤ allocator.blocks.length
  blocks : ∀ block ∈ allocator.blocks, block.InWords
  length_le : allocator.blocks.length ≤ allocator.capacity
  capacity_ge : 32 ≤ allocator.capacity
  capacity_lt : allocator.capacity < 2 ^ 31
  total_lt : allocator.total_bytes < 2 ^ 64

section Storable

variable {allocator next : Allocator} {size offset i count : ℕ} {block : Block} {blocks others : List Block}

theorem mem_replace (h : block ∈ replace blocks i count others) : block ∈ blocks ∨ block ∈ others := by
  rcases List.mem_append.mp h with h | h
  · rcases List.mem_append.mp h with h | h
    · exact .inl (List.mem_of_mem_take h)
    · exact .inr h
  · exact .inl (List.mem_of_mem_drop h)

theorem length_replace (others : List Block) (h : i + count ≤ blocks.length) :
    (replace blocks i count others).length + count = blocks.length + others.length := by
  unfold replace
  rw [List.length_append, List.length_append, List.length_take, List.length_drop, Nat.min_eq_left (by omega)]
  omega

theorem inWords_stored (hoffset : offset < 2 ^ 64) (available : Bool) :
    Block.InWords ⟨offset, stored size, available⟩ := ⟨hoffset, Nat.mod_lt _ (by decide)⟩

/-- Where a block is split, one more is there, and the array is doubled if it was full. -/
theorem split_block_spec (h : split_block allocator i size = some next) (hblocks : ∀ block ∈ allocator.blocks, block.InWords) :
    (∀ block ∈ next.blocks, block.InWords) ∧ next.blocks.length = allocator.blocks.length + 1 ∧
      next.total_bytes = allocator.total_bytes ∧ next.blocks.length ≤ next.capacity ∧
      allocator.capacity ≤ next.capacity ∧ (allocator.capacity < 2 ^ 31 → next.capacity < 2 ^ 31) ∧
      (allocator.blocks.length < allocator.capacity → next.capacity = allocator.capacity) := by
  obtain ⟨block, hblock, h⟩ := bind_eq_some_iff.mp h
  obtain ⟨⟨hpos, hle, _⟩, h⟩ := ite_none_right_eq_some.mp h
  obtain ⟨capacity, hnew, rfl⟩ : ∃ capacity,
      ((allocator.blocks.length = allocator.capacity ∧ capacity = allocator.capacity + allocator.capacity ∧
        capacity < 2 ^ 31) ∨ (allocator.blocks.length ≠ allocator.capacity ∧ capacity = allocator.capacity)) ∧
      next = { allocator with
        blocks := replace allocator.blocks i 1 [{ block with size := stored (block.size - size) },
          ⟨(block.offset + (block.size - size)) % 2 ^ 64, stored size, true⟩]
        capacity } := by
    split_ifs at h with hfull
    · obtain ⟨_, hgrow, h⟩ := bind_eq_some_iff.mp h
      obtain ⟨⟨_, hroom⟩, hsum⟩ := ite_none_right_eq_some.mp hgrow
      cases hsum
      exact ⟨_, .inl ⟨hfull, rfl, hroom⟩, (Option.some.inj h).symm⟩
    · exact ⟨_, .inr ⟨hfull, rfl⟩, (Option.some.inj h).symm⟩
  have hmem := List.mem_of_getElem? hblock
  have hlt : i < allocator.blocks.length := (List.getElem?_eq_some_iff.mp hblock).1
  have hlength := length_replace [{ block with size := stored (block.size - size) },
    ⟨(block.offset + (block.size - size)) % 2 ^ 64, stored size, true⟩] (show i + 1 ≤ allocator.blocks.length from hlt)
  have hmore : (replace allocator.blocks i 1 [{ block with size := stored (block.size - size) },
      ⟨(block.offset + (block.size - size)) % 2 ^ 64, stored size, true⟩]).length = allocator.blocks.length + 1 := by
    rw [List.length_cons, List.length_singleton] at hlength
    omega
  refine ⟨fun other hother ↦ ?_, hmore, rfl, ?_, ?_, ?_, ?_⟩
  · rcases mem_replace hother with hold | hnewBlock
    · exact hblocks other hold
    · rcases List.mem_cons.mp hnewBlock with rfl | hlast
      · exact inWords_stored (hblocks block hmem).1 _
      · rw [List.mem_singleton.mp hlast]
        exact inWords_stored (Nat.mod_lt _ (by decide)) _
  · change _ ≤ capacity
    rw [hmore]
    omega
  · change _ ≤ capacity
    omega
  · change _ → capacity < _
    omega
  · change _ → capacity = _
    omega

/-- Allocating takes a block as it is or splits one, or finds none. -/
theorem allocate_inv (h : allocate allocator size = some (offset, next)) :
    (offset = ANDROID_EMU_ADDRESS_SPACE_BAD_OFFSET ∧ next = allocator) ∨
    ∃ middle i block, (middle = allocator ∨ ∃ j, split_block allocator j size = some middle) ∧
      middle.blocks[i]? = some block ∧
      next = { middle with blocks := replace middle.blocks i 1 [{ block with available := false }] } := by
  obtain ⟨found, _, h⟩ := bind_eq_some_iff.mp h
  cases found with
  | none =>
    cases h
    exact .inl ⟨rfl, rfl⟩
  | some i =>
    obtain ⟨block, hblock, h⟩ := bind_eq_some_iff.mp h
    obtain ⟨_, h⟩ := ite_none_right_eq_some.mp h
    split_ifs at h
    · obtain ⟨_, hpair, h⟩ := bind_eq_some_iff.mp h
      obtain ⟨middle, hsplit, rfl⟩ := map_eq_some_iff.mp hpair
      obtain ⟨taken, htaken, h⟩ := bind_eq_some_iff.mp h
      obtain ⟨_, h⟩ := ite_none_right_eq_some.mp h
      obtain ⟨_, rfl⟩ := Prod.mk.inj (Option.some.inj h)
      exact .inr ⟨middle, i + 1, taken, .inr ⟨i, hsplit⟩, htaken, rfl⟩
    · simp only [bind_eq_bind, bind_some] at h
      obtain ⟨taken, htaken, h⟩ := bind_eq_some_iff.mp h
      obtain ⟨_, h⟩ := ite_none_right_eq_some.mp h
      obtain ⟨_, rfl⟩ := Prod.mk.inj (Option.some.inj h)
      exact .inr ⟨allocator, i, taken, .inl rfl, htaken, rfl⟩

theorem length_mark (h : blocks[i]? = some block) (other : Block) :
    (replace blocks i 1 [other]).length = blocks.length := by
  have hlt : i < blocks.length := (List.getElem?_eq_some_iff.mp h).1
  have hlength := length_replace [other] (show i + 1 ≤ blocks.length from hlt)
  rw [List.length_singleton] at hlength
  omega

theorem Storable.allocate (h : Storable allocator) (hallocate : allocate allocator size = some (offset, next)) :
    Storable next ∧ (allocator.blocks.length < allocator.capacity → next.capacity = allocator.capacity) := by
  obtain ⟨_, rfl⟩ | ⟨middle, i, block, hmiddle, hblock, rfl⟩ := allocate_inv hallocate
  · exact ⟨h, fun _ ↦ rfl⟩
  have hsplit : Storable middle ∧
      (allocator.blocks.length < allocator.capacity → middle.capacity = allocator.capacity) := by
    obtain rfl | ⟨j, hsplit⟩ := hmiddle
    · exact ⟨h, fun _ ↦ rfl⟩
    obtain ⟨hblocks, hlength, htotal, hle, hmore, hlt, hsame⟩ := split_block_spec hsplit h.blocks
    exact ⟨⟨by omega, hblocks, hle, h.capacity_ge.trans hmore, hlt h.capacity_lt, htotal ▸ h.total_lt⟩, hsame⟩
  have hlength := length_mark hblock { block with available := false }
  refine ⟨⟨?_, fun other hother ↦ ?_, ?_, hsplit.1.capacity_ge, hsplit.1.capacity_lt, hsplit.1.total_lt⟩, hsplit.2⟩
  · exact hsplit.1.nonempty.trans_eq hlength.symm
  · rcases mem_replace hother with hold | hnew
    · exact hsplit.1.blocks other hold
    · rw [List.mem_singleton.mp hnew]
      exact hsplit.1.blocks block (List.mem_of_getElem? hblock)
  · exact hlength.trans_le hsplit.1.length_le

theorem Storable.with_blocks (h : Storable allocator) (hnonempty : 1 ≤ blocks.length)
    (hlength : blocks.length ≤ allocator.blocks.length) (hblocks : ∀ block ∈ blocks, block.InWords) :
    Storable { allocator with blocks } :=
  ⟨hnonempty, hblocks, hlength.trans h.length_le, h.capacity_ge, h.capacity_lt, h.total_lt⟩

theorem neighbour_spec (h : neighbour blocks i = some block) : i < blocks.length ∧ block ∈ blocks := by
  obtain ⟨hat, _⟩ := Option.filter_eq_some_iff.mp h
  exact ⟨(List.getElem?_eq_some_iff.mp hat).1, List.mem_of_getElem? hat⟩

/-- One block takes the place of a run of blocks. -/
theorem Storable.merge (h : Storable allocator) (hrun : i + count ≤ allocator.blocks.length) (hcount : 1 ≤ count)
    (hblock : block.InWords) : Storable { allocator with blocks := replace allocator.blocks i count [block] } := by
  have hlength := length_replace [block] hrun
  rw [List.length_singleton] at hlength
  refine h.with_blocks (by omega) (by omega) fun other hother ↦ ?_
  rcases mem_replace hother with hold | hnew
  · exact h.blocks other hold
  · exact List.mem_singleton.mp hnew ▸ hblock

theorem Storable.release (h : Storable allocator) (hrelease : release_block allocator i = some next) :
    Storable next := by
  obtain ⟨block, hblock, rfl⟩ := map_eq_some_iff.mp hrelease
  have hlt : i < allocator.blocks.length := (List.getElem?_eq_some_iff.mp hblock).1
  have hwords := h.blocks block (List.mem_of_getElem? hblock)
  cases hbefore : if 0 < i then neighbour allocator.blocks (i - 1) else none with
  | none =>
    cases hafter : neighbour allocator.blocks (i + 1) with
    | none =>
      exact h.merge hlt le_rfl ⟨hwords.1, hwords.2⟩
    | some after =>
      have hbound := (neighbour_spec hafter).1
      exact h.merge (by omega) (by decide) (inWords_stored hwords.1 _)
  | some before =>
    obtain ⟨hpos, hneighbour⟩ := ite_none_right_eq_some.mp hbefore
    have hfirst := h.blocks before (neighbour_spec hneighbour).2
    cases hafter : neighbour allocator.blocks (i + 1) with
    | none =>
      exact h.merge (by omega) (by decide) (inWords_stored hfirst.1 _)
    | some after =>
      have hbound := (neighbour_spec hafter).1
      exact h.merge (by omega) (by decide) (inWords_stored hfirst.1 _)

/-- What is given back is released, or nothing changes. -/
theorem deallocate_inv {error : ℕ} (h : deallocate allocator offset = some (error, next)) :
    (error = EINVAL ∧ next = allocator) ∨ (error = 0 ∧ ∃ i, release_block allocator i = some next) := by
  obtain ⟨_, h⟩ := ite_none_right_eq_some.mp h
  cases hfind : allocator.blocks.findIdx? fun block ↦ block.offset = offset with
  | none =>
    simp only [hfind] at h
    cases h
    exact .inl ⟨rfl, rfl⟩
  | some i =>
    simp only [hfind] at h
    split_ifs at h
    · cases h
      exact .inl ⟨rfl, rfl⟩
    · obtain ⟨last, hrelease, heq⟩ := map_eq_some_iff.mp h
      cases heq
      exact .inr ⟨rfl, i, hrelease⟩

theorem Storable.deallocate {error : ℕ} (h : Storable allocator)
    (hdeallocate : deallocate allocator offset = some (error, next)) : Storable next := by
  obtain ⟨_, rfl⟩ | ⟨_, i, hrelease⟩ := deallocate_inv hdeallocate
  · exact h
  · exact h.release hrelease

theorem Storable.reset (h : Storable allocator) (hreset : reset allocator = some next) : Storable next := by
  obtain ⟨_, hsome⟩ := ite_none_right_eq_some.mp hreset
  cases hsome
  refine h.with_blocks le_rfl h.nonempty fun block hblock ↦ ?_
  rw [List.mem_singleton.mp hblock]
  exact inWords_stored (by decide) _

theorem storable_init (hsize : size < 2 ^ 64) (hinit : init size 32 = some allocator) : Storable allocator := by
  cases hinit
  have hroom : 1 ≤ 32 ∧ 32 < 2 ^ 31 := by decide
  refine ⟨le_rfl, fun block hblock ↦ ?_, hroom.1, le_rfl, hroom.2, hsize⟩
  rw [List.mem_singleton.mp hblock]
  exact inWords_stored (by decide) _

end Storable

namespace SubAllocator

/-! ## What is read back -/

section RoundTrip

variable {block : Block} {blocks : List Block} {destination s loaded : SubAllocator} {newBase : UInt64}

theorem getBlock_putBlock (h : block.InWords) (rest : List UInt8) :
    getBlock (putBlock block ++ rest) = (block, rest) := by
  obtain ⟨hoffset, hsize⟩ := h
  have hword : (UInt64.ofNat block.offset).toNat = block.offset := UInt64.toNat_ofNat_of_lt' hoffset
  have hflag : (UInt64.ofNat (block.size + if block.available then 2 ^ 63 else 0)).toNat =
      block.size + if block.available then 2 ^ 63 else 0 :=
    UInt64.toNat_ofNat_of_lt' (by rw [UInt64.size]; split_ifs <;> omega)
  unfold getBlock putBlock
  rw [List.append_assoc, getBe64_putBe64]
  simp only [getBe64_putBe64]
  rw [hword, hflag]
  obtain ⟨offset, size, available⟩ := block
  have hsmall : size < 2 ^ 63 := hsize
  have hlow : stored (size + if available then 2 ^ 63 else 0) = size := by
    unfold stored
    split_ifs <;> omega
  have hhigh : decide (2 ^ 63 ≤ size + if available then 2 ^ 63 else 0) = available := by
    cases available with
    | false => exact decide_eq_false (not_le.mpr hsmall)
    | true => exact decide_eq_true (Nat.le_add_left _ _)
  rw [hlow, hhigh]

theorem loadBlocks_flatMap (h : ∀ block ∈ blocks, block.InWords) (rest : List UInt8) :
    loadBlocks blocks.length (blocks.flatMap putBlock ++ rest) = (blocks, rest) := by
  induction blocks with
  | nil => rfl
  | cons block blocks ih =>
    obtain ⟨hblock, hrest⟩ := List.forall_mem_cons.mp h
    rw [List.length_cons, loadBlocks, List.flatMap_cons, List.append_assoc, getBlock_putBlock hblock]
    simp only [ih hrest]

theorem toInt_ofNat {count : ℕ} (h : count < 2 ^ 31) : toInt (UInt32.ofNat count) = count := by
  have hword : (UInt32.ofNat count).toNat = count := UInt32.toNat_ofNat_of_lt' (by rw [UInt32.size]; omega)
  rw [toInt, hword, if_pos h]

/-- The blocks are read back if the new array has room for them. -/
theorem load_save (h : Storable s.addr_alloc) (destination : SubAllocator) :
    destination.load s.save = if s.addr_alloc.blocks.length ≤ 32 then
      some ({ destination with
        addr_alloc := s.addr_alloc, array := 32, pageSize := s.pageSize, totalSize := s.totalSize
        allocCount := s.allocCount }, []) else none := by
  have hlength : s.addr_alloc.blocks.length < 2 ^ 31 := h.length_le.trans_lt h.capacity_lt
  have htotal : (UInt64.ofNat s.addr_alloc.total_bytes).toNat = s.addr_alloc.total_bytes :=
    UInt64.toNat_ofNat_of_lt' h.total_lt
  have hlast : putBe32 s.allocCount = putBe32 s.allocCount ++ [] := (List.append_nil _).symm
  have hclear : destination.clear = some { destination with
      addr_alloc := ⟨[⟨0, stored destination.totalSize.toNat, true⟩], 32, destination.totalSize.toNat⟩
      array := 32 } := rfl
  rw [load, hclear, bind_eq_bind, bind_some, save, hlast]
  simp only [List.append_assoc, getBe32_putBe32, getBe64_putBe64, toInt_ofNat hlength,
    toInt_ofNat h.capacity_lt, loadBlocks_flatMap h.blocks, htotal]
  split_ifs with hboth hroom hroom
  · rfl
  · exact absurd hboth.2 hroom
  · exact absurd ⟨h.nonempty, hroom⟩ hboth
  · rfl

/-- What is restored: only the places of the buffer and of the array differ. -/
def moved (newBase endAddr : UInt64) (array : ℕ) (s : SubAllocator) : SubAllocator :=
  { s with startAddr := newBase, endAddr, array }

theorem restore_eq (h : Storable s.addr_alloc) (destination : SubAllocator) (newBase : UInt64) :
    restore destination newBase s =
      if s.addr_alloc.blocks.length ≤ 32 then some (s.moved newBase destination.endAddr 32) else none := by
  rw [restore, load_save h]
  split_ifs
  · rfl
  · rfl

end RoundTrip

/-! ## Every run can be saved -/

/-- The array is as long as the capacity says. -/
structure Consistent (s : SubAllocator) : Prop where
  storable : Storable s.addr_alloc
  array_eq : s.array = s.addr_alloc.capacity

section Consistent

variable {sub last : SubAllocator} {ptr wantedSize : UInt64}

theorem Consistent.alloc (h : Consistent sub) (halloc : sub.alloc wantedSize = some (ptr, last)) :
    Consistent last := by
  obtain ⟨_, _, rfl⟩ | ⟨offset, addr_alloc, _, hallocate, array, harray, _, hresult⟩ := alloc_cases halloc
  · exact h
  have hnext : Consistent { last with addr_alloc, array } :=
    ⟨(h.storable.allocate hallocate).1, array_next h.array_eq harray⟩
  obtain ⟨_, _, rfl⟩ | ⟨_, _, rfl⟩ := hresult
  · exact hnext
  · exact hnext

theorem Consistent.free {freed : Bool} (h : Consistent sub) (hfree : sub.free ptr = some (freed, last)) :
    Consistent last := by
  unfold SubAllocator.free at hfree
  split_ifs at hfree
  · obtain ⟨_, rfl⟩ := Prod.mk.inj (Option.some.inj hfree)
    exact h
  obtain ⟨⟨error, addr_alloc⟩, hdeallocate, hlast⟩ := map_eq_some_iff.mp hfree
  have hnext : Consistent { last with addr_alloc, array := sub.array } :=
    ⟨h.storable.deallocate hdeallocate, h.array_eq.trans (deallocate_capacity hdeallocate).symm⟩
  simp only at hlast
  split_ifs at hlast
  · obtain ⟨_, rfl⟩ := Prod.mk.inj hlast
    exact hnext
  · obtain ⟨_, rfl⟩ := Prod.mk.inj hlast
    exact hnext

theorem Consistent.freeAll (h : Consistent sub) (hfreeAll : sub.freeAll = some last) : Consistent last := by
  obtain ⟨addr_alloc, hreset, rfl⟩ := map_eq_some_iff.mp hfreeAll
  have hstorable := h.storable.reset hreset
  obtain ⟨_, hsome⟩ := ite_none_right_eq_some.mp hreset
  cases hsome
  exact ⟨hstorable, h.array_eq⟩

theorem Consistent.step {s next : Session} {call : Call} (h : Consistent s.sub) (hstep : step call s = some next) :
    Consistent next.sub := by
  cases call with
  | alloc wantedSize =>
    obtain ⟨⟨ptr, last⟩, halloc, rfl⟩ := map_eq_some_iff.mp hstep
    exact h.alloc halloc
  | free ptr =>
    obtain ⟨⟨freed, last⟩, hfree, rfl⟩ := map_eq_some_iff.mp hstep
    exact h.free hfree
  | freeAll =>
    obtain ⟨last, hfreeAll, rfl⟩ := map_eq_some_iff.mp hstep
    exact h.freeAll hfreeAll

theorem consistent_of_run {buffer totalSize pageSize : UInt64} {calls : List Call} {s : Session}
    (hnew : new buffer totalSize pageSize = some sub) (hrun : run step ⟨sub, []⟩ calls = some s) :
    Consistent s.sub := by
  obtain ⟨addr_alloc, hinit, rfl⟩ := map_eq_some_iff.mp hnew
  have hstart : Consistent ⟨totalSize, pageSize, buffer, buffer + totalSize, addr_alloc, 32, 0⟩ := by
    refine ⟨storable_init totalSize.toNat_lt hinit, ?_⟩
    cases hinit
    rfl
  have hstep : ∀ call (s next : Session), Consistent s.sub → step call s = some next → Consistent next.sub :=
    fun _ _ _ h hstep ↦ h.step hstep
  exact invariant_of_run hstep hstart hrun

end Consistent

/-! ## Requests after the load -/

section Requests

variable {s next loaded : SubAllocator} {newBase endAddr ptr wantedSize : UInt64} {array : ℕ}

/-- The array is that of the saved allocator, or the requests that may come need no more than 32 blocks. -/
def Room (array : ℕ) (s : SubAllocator) : Prop := array = s.array ∨ (array = 32 ∧ 32 < s.addr_alloc.capacity ∧
    ∀ wanted ptrs next, s.allocs wanted = some (ptrs, next) → next.addr_alloc.blocks.length ≤ 32)

/-- The array after a request that made `next`. -/
def nextArray (array : ℕ) (s next : SubAllocator) : ℕ :=
  if next.addr_alloc.capacity = s.addr_alloc.capacity then array else next.addr_alloc.capacity

theorem alloc_moved (newBase endAddr : UInt64) (halloc : s.alloc wantedSize = some (ptr, next))
    (hroom : next.addr_alloc.blocks.length ≤ nextArray array s next) :
    ∃ shifted, (s.moved newBase endAddr array).alloc wantedSize =
      some (shifted, next.moved newBase endAddr (nextArray array s next)) ∧ Shifted s newBase ptr shifted := by
  obtain ⟨rfl, rfl, rfl⟩ | ⟨offset, addr_alloc, hwanted, hallocate, _, _, _, hresult⟩ := alloc_cases halloc
  · have hsame : nextArray array next next = array := if_pos rfl
    rw [hsame]
    exact ⟨0, rfl, .inl ⟨rfl, rfl⟩⟩
  have hthere : allocate (s.moved newBase endAddr array).addr_alloc
      ((s.moved newBase endAddr array).toPageSize wantedSize).toNat = some (offset, addr_alloc) := hallocate
  have hfits : addr_alloc.blocks.length ≤
      if addr_alloc.capacity = (s.moved newBase endAddr array).addr_alloc.capacity then
        (s.moved newBase endAddr array).array else addr_alloc.capacity := by
    obtain ⟨_, _, rfl⟩ | ⟨_, _, rfl⟩ := hresult
    · exact hroom
    · exact hroom
  unfold SubAllocator.alloc
  rw [if_neg hwanted, hthere, bind_eq_bind, bind_some]
  simp only [if_pos hfits]
  obtain ⟨hbad, rfl, rfl⟩ | ⟨hgood, rfl, rfl⟩ := hresult
  · rw [if_pos hbad]
    exact ⟨0, rfl, .inl ⟨rfl, rfl⟩⟩
  · rw [if_neg hgood]
    refine ⟨newBase + UInt64.ofNat offset, rfl, .inr ?_⟩
    unfold getOffset
    rw [UInt64.add_comm s.startAddr, UInt64.add_sub_cancel]

theorem alloc_moved_none (h : Consistent s) (halloc : s.alloc wantedSize = none) :
    (s.moved newBase endAddr array).alloc wantedSize = none := by
  by_cases hwanted : wantedSize = 0
  · simp [SubAllocator.alloc, hwanted] at halloc
  have hnone : allocate s.addr_alloc (s.toPageSize wantedSize).toNat = none := by
    cases hallocate : allocate s.addr_alloc (s.toPageSize wantedSize).toNat with
    | none => rfl
    | some result =>
      obtain ⟨offset, addr_alloc⟩ := result
      have hnext := (h.storable.allocate hallocate).1
      have harray : (if addr_alloc.capacity = s.addr_alloc.capacity then s.array else addr_alloc.capacity) =
          addr_alloc.capacity := array_next h.array_eq rfl
      have hfits := hnext.length_le.trans_eq harray.symm
      unfold SubAllocator.alloc at halloc
      rw [if_neg hwanted, hallocate, bind_eq_bind, bind_some] at halloc
      simp only [if_pos hfits] at halloc
      split_ifs at halloc
  have hthere : allocate (s.moved newBase endAddr array).addr_alloc
      ((s.moved newBase endAddr array).toPageSize wantedSize).toNat = none := hnone
  unfold SubAllocator.alloc
  rw [if_neg hwanted, hthere]
  rfl

/-- An array that is not full is not doubled. -/
theorem capacity_alloc (h : Consistent s) (hlength : s.addr_alloc.blocks.length < s.addr_alloc.capacity)
    (halloc : s.alloc wantedSize = some (ptr, next)) : next.addr_alloc.capacity = s.addr_alloc.capacity := by
  obtain ⟨_, _, rfl⟩ | ⟨_, addr_alloc, _, hallocate, _, _, _, hresult⟩ := alloc_cases halloc
  · rfl
  have hkept := (h.storable.allocate hallocate).2 hlength
  obtain ⟨_, _, rfl⟩ | ⟨_, _, rfl⟩ := hresult
  · exact hkept
  · exact hkept

theorem fits_of_moved {result : UInt64 × SubAllocator} (hlength : s.addr_alloc.blocks.length ≤ array)
    (halloc : s.alloc wantedSize = some (ptr, next))
    (hmoved : (s.moved newBase endAddr array).alloc wantedSize = some result) :
    next.addr_alloc.blocks.length ≤ nextArray array s next := by
  obtain ⟨_, _, rfl⟩ | ⟨offset, addr_alloc, hwanted, hallocate, _, _, _, hresult⟩ := alloc_cases halloc
  · exact hlength.trans_eq (if_pos rfl).symm
  obtain ⟨hzero, _⟩ | ⟨_, addr_alloc', _, hallocate', _, rfl, hfits, _⟩ := alloc_cases hmoved
  · exact absurd hzero hwanted
  have hthere : allocate (s.moved newBase endAddr array).addr_alloc
      ((s.moved newBase endAddr array).toPageSize wantedSize).toNat = some (offset, addr_alloc) := hallocate
  obtain ⟨_, rfl⟩ := Prod.mk.inj (Option.some.inj (hthere.symm.trans hallocate'))
  obtain ⟨_, _, rfl⟩ | ⟨_, _, rfl⟩ := hresult
  · exact hfits
  · exact hfits

theorem Room.alloc (h : Consistent s) (hroom : Room array s) (halloc : s.alloc wantedSize = some (ptr, next)) :
    next.addr_alloc.blocks.length ≤ nextArray array s next ∧ Room (nextArray array s next) next := by
  have hnext := h.alloc halloc
  obtain rfl | ⟨rfl, hlarge, hfew⟩ := hroom
  · have hsame : nextArray s.array s next = next.array := by
      unfold nextArray
      split_ifs with hcapacity
      · rw [h.array_eq, hnext.array_eq, hcapacity]
      · exact hnext.array_eq.symm
    rw [hsame]
    exact ⟨hnext.storable.length_le.trans_eq hnext.array_eq.symm, .inl rfl⟩
  -- the old array is not full, so that it is not doubled
  have hlength : s.addr_alloc.blocks.length ≤ 32 := hfew [] [] s rfl
  have hcapacity := capacity_alloc h (by omega) halloc
  have hsame : nextArray 32 s next = 32 := if_pos hcapacity
  rw [hsame]
  refine ⟨hfew [wantedSize] [ptr] next (by simp [SubAllocator.allocs, halloc]), .inr ⟨rfl, hcapacity ▸ hlarge, ?_⟩⟩
  intro wanted ptrs last hwanted
  exact hfew (wantedSize :: wanted) (ptr :: ptrs) last (by simp [SubAllocator.allocs, halloc, hwanted])

theorem startAddr_alloc (halloc : s.alloc wantedSize = some (ptr, next)) : next.startAddr = s.startAddr := by
  obtain ⟨_, _, rfl⟩ | ⟨_, _, _, _, _, _, _, ⟨_, _, rfl⟩ | ⟨_, _, rfl⟩⟩ := alloc_cases halloc
  · rfl
  · rfl
  · rfl

/-- With room for what comes, all requests are answered as before. -/
theorem allocs_moved (h : Consistent s) (hroom : Room array s) (wanted : List UInt64) :
    Option.Rel (List.Forall₂ (Shifted s newBase)) ((s.allocs wanted).map Prod.fst)
      (((s.moved newBase endAddr array).allocs wanted).map Prod.fst) := by
  induction wanted generalizing s array with
  | nil => exact .some .nil
  | cons wantedSize wanted ih =>
    unfold SubAllocator.allocs
    cases halloc : s.alloc wantedSize with
    | none =>
      rw [alloc_moved_none h halloc]
      exact .none
    | some result =>
      obtain ⟨ptr, next⟩ := result
      obtain ⟨hfits, hnext⟩ := hroom.alloc h halloc
      obtain ⟨shifted, hmoved, hshifted⟩ := alloc_moved newBase endAddr halloc hfits
      have hrest := ih (h.alloc halloc) hnext
      have hsame : Shifted next newBase = Shifted s newBase := by
        unfold Shifted getOffset
        rw [startAddr_alloc halloc]
      rw [hsame] at hrest
      simp only [hmoved, bind_eq_bind, bind_some]
      cases hold : next.allocs wanted with
      | none =>
        rw [hold] at hrest
        cases hnew : (next.moved newBase endAddr (nextArray array s next)).allocs wanted with
        | none => exact .none
        | some result =>
          rw [hnew] at hrest
          cases hrest
      | some result =>
        rw [hold] at hrest
        cases hnew : (next.moved newBase endAddr (nextArray array s next)).allocs wanted with
        | none =>
          rw [hnew] at hrest
          cases hrest
        | some result' =>
          rw [hnew] at hrest
          cases hrest with
          | some hptrs => exact .some (.cons hshifted hptrs)

/-- In a small array that belongs to a larger capacity, there are never more than 32 blocks. -/
theorem allocs_small {wanted ptrs ptrs' : List UInt64} {last last' : SubAllocator}
    (h : Consistent s) (hlarge : 32 < s.addr_alloc.capacity) (hlength : s.addr_alloc.blocks.length ≤ 32)
    (hold : s.allocs wanted = some (ptrs, last))
    (hnew : (s.moved newBase endAddr 32).allocs wanted = some (ptrs', last')) :
    last.addr_alloc.blocks.length ≤ 32 := by
  induction wanted generalizing s ptrs ptrs' with
  | nil =>
    obtain ⟨_, rfl⟩ := Prod.mk.inj (Option.some.inj hold)
    exact hlength
  | cons wantedSize wanted ih =>
    obtain ⟨⟨ptr, next⟩, halloc, hold⟩ := bind_eq_some_iff.mp hold
    obtain ⟨⟨shifted, moved'⟩, hmoved, hnew⟩ := bind_eq_some_iff.mp hnew
    obtain ⟨⟨rest, _⟩, hrest, hlast⟩ := bind_eq_some_iff.mp hold
    obtain ⟨⟨rest', _⟩, hrest', hlast'⟩ := bind_eq_some_iff.mp hnew
    obtain ⟨_, rfl⟩ := Prod.mk.inj (Option.some.inj hlast)
    obtain ⟨_, rfl⟩ := Prod.mk.inj (Option.some.inj hlast')
    have hcapacity := capacity_alloc h (by omega) halloc
    have hsame : nextArray 32 s next = 32 := if_pos hcapacity
    have hfits := fits_of_moved hlength halloc hmoved
    obtain ⟨_, hthere, _⟩ := alloc_moved newBase endAddr halloc hfits
    obtain ⟨_, rfl⟩ := Prod.mk.inj (Option.some.inj (hmoved.symm.trans hthere))
    rw [hsame] at hfits hrest'
    exact ih (h.alloc halloc) (hcapacity ▸ hlarge) hfits hrest hrest'

end Requests

/-! ## Frees after the load -/

section Frees

variable {s : SubAllocator} {newBase endAddr ptr : UInt64} {array : ℕ}

theorem exists_free_iff : (∃ next, s.free ptr = some (true, next)) ↔ (ptr ≠ 0 ∧ s.rangeCheck ptr = true) ∧
      ∃ addr_alloc, deallocate s.addr_alloc (s.getOffset ptr).toNat = some (0, addr_alloc) := by
  constructor
  · rintro ⟨next, hfree⟩
    unfold SubAllocator.free at hfree
    split_ifs at hfree with hnull hrange
    · cases hfree
    obtain ⟨⟨error, addr_alloc⟩, hdeallocate, hlast⟩ := map_eq_some_iff.mp hfree
    obtain ⟨rfl, _⟩ | ⟨rfl, _⟩ := deallocate_inv hdeallocate
    · cases hlast
    · exact ⟨⟨hnull, hrange⟩, addr_alloc, hdeallocate⟩
  · rintro ⟨⟨hnull, hrange⟩, addr_alloc, hdeallocate⟩
    refine ⟨{ s with addr_alloc, allocCount := s.allocCount - 1 }, ?_⟩
    simp only [SubAllocator.free, if_neg hnull, if_pos hrange, hdeallocate, Option.map_some]
    rw [if_neg (by decide)]

theorem exists_free_moved (offset : UInt64) :
    (∃ next, (s.moved newBase endAddr array).free (newBase + offset) = some (true, next)) ↔
      (newBase + offset ≠ 0 ∧ newBase ≤ newBase + offset ∧ newBase + offset ≤ endAddr) ∧ Live offset s := by
  have hoffset : (s.moved newBase endAddr array).getOffset (newBase + offset) = offset := by
    unfold getOffset
    rw [UInt64.add_comm]
    exact UInt64.add_sub_cancel offset newBase
  rw [exists_free_iff, hoffset, rangeCheck, decide_eq_true_eq]
  exact Iff.rfl

/-- Where requests are served, the live offsets are those of the pointers that were not freed. -/
theorem Held.live_iff {buffer totalSize : UInt64} {s : Session} (h : Held buffer totalSize s)
    (htotal : 0 < stored totalSize.toNat) (offset : UInt64) :
    Live offset s.sub ↔ ∃ allocation ∈ s.live, s.sub.getOffset allocation.1 = offset := by
  have hback : s.sub.getOffset (s.sub.startAddr + offset) = offset := by
    unfold getOffset
    rw [UInt64.add_comm, UInt64.add_sub_cancel]
  have hat (ptr : UInt64) : s.sub.getOffset ptr = offset ↔ ptr = s.sub.startAddr + offset := by
    unfold getOffset
    exact ⟨fun heq ↦ by rw [← heq, UInt64.add_comm, UInt64.sub_add_cancel],
      fun heq ↦ by rw [heq, UInt64.add_comm, UInt64.add_sub_cancel]⟩
  simp only [hat]
  obtain ⟨error, addr_alloc, hdeallocate, hcases⟩ := h.exists_deallocate htotal (s.sub.startAddr + offset)
  rw [hback] at hdeallocate
  obtain ⟨rfl, _, hgone⟩ | ⟨rfl, hlive⟩ := hcases
  · refine ⟨fun ⟨_, hzero⟩ ↦ ?_, fun ⟨allocation, hmem, heq⟩ ↦ absurd heq (hgone allocation hmem)⟩
    exact absurd (Prod.mk.inj (Option.some.inj (hdeallocate.symm.trans hzero))).1 (by decide)
  · exact ⟨fun _ ↦ hlive, fun _ ↦ ⟨addr_alloc, hdeallocate⟩⟩

end Frees

/-! ## What is restored -/

theorem Fits.restored {destination s : SubAllocator} {newBase : UInt64} (hfits : Fits destination newBase s)
    (h : Consistent s) : ∃ loaded, restore destination newBase s = some loaded ∧ Restored newBase s loaded := by
  have hlength : s.addr_alloc.blocks.length ≤ 32 := by
    rcases hfits.room with hcapacity | hfew
    · exact h.storable.length_le.trans_eq hcapacity
    · exact hfew [] [] s rfl
  have hroom : Room 32 s := by
    rcases hfits.room with hcapacity | hfew
    · exact .inl (hcapacity.symm.trans h.array_eq.symm)
    · rcases h.storable.capacity_ge.eq_or_lt with hcapacity | hlarge
      · exact .inl (hcapacity.trans h.array_eq.symm)
      · exact .inr ⟨rfl, hlarge, hfew⟩
  refine ⟨s.moved newBase destination.endAddr 32, (restore_eq h.storable _ _).trans (if_pos hlength),
    rfl, rfl, fun offset ↦ ?_, allocs_moved h hroom⟩
  rw [exists_free_moved]
  exact ⟨fun hboth ↦ hboth.2, fun hlive ↦ ⟨hfits.reached offset hlive, hlive⟩⟩

theorem Restored.fits {destination s loaded : SubAllocator} {newBase : UInt64} (hrestored : Restored newBase s loaded)
    (h : Consistent s) (hrestore : restore destination newBase s = some loaded) : Fits destination newBase s := by
  rw [restore_eq h.storable] at hrestore
  obtain ⟨hlength, hloaded⟩ := ite_none_right_eq_some.mp hrestore
  cases hloaded
  constructor
  · intro offset hlive
    exact ((exists_free_moved offset).mp ((hrestored.free_iff offset).mpr hlive)).1
  · rcases h.storable.capacity_ge.eq_or_lt with hcapacity | hlarge
    · exact .inl hcapacity.symm
    refine .inr fun wanted ptrs next hwanted ↦ ?_
    have hrel := hrestored.allocs_rel wanted
    rw [hwanted] at hrel
    cases hmoved : (s.moved newBase destination.endAddr 32).allocs wanted with
    | none =>
      rw [hmoved] at hrel
      cases hrel
    | some result => exact allocs_small h hlarge hlength hwanted hmoved

/-- After every run, the allocator is restored exactly if the live allocations lie in front of the end of the
destination and there is room for the blocks; where requests are served, the live offsets are those of the
pointers that were not freed. -/
theorem restored_shifted_iff (buffer totalSize pageSize newBase : UInt64) (sub destination : SubAllocator)
    (calls : List Call) (s : Session) (hnew : new buffer totalSize pageSize = some sub)
    (hrun : run step ⟨sub, []⟩ calls = some s) :
    ((∃ loaded, restore destination newBase s.sub = some loaded ∧ Restored newBase s.sub loaded) ↔
      Fits destination newBase s.sub) ∧
    (0 < pageSize.toNat → buffer.toNat + totalSize.toNat ≤ 2 ^ 64 → 0 < totalSize.toNat % 2 ^ 63 →
      Guarded step Serves ⟨sub, []⟩ calls →
      ∀ offset, Live offset s.sub ↔ ∃ allocation ∈ s.live, s.sub.getOffset allocation.1 = offset) := by
  have h := consistent_of_run hnew hrun
  refine ⟨⟨fun ⟨loaded, hrestore, hrestored⟩ ↦ hrestored.fits h hrestore, fun hfits ↦ hfits.restored h⟩, ?_⟩
  intro hpage hbuffer htotal hserves
  have hheld : Held buffer totalSize s := invariant_of_guarded (Held buffer totalSize)
    (fun _ _ _ h hserves hstep ↦ h.step hbuffer htotal hserves hstep) (held_new hpage htotal hnew) hserves hrun
  exact hheld.live_iff htotal

/-- Two allocations are restored in a buffer elsewhere. -/
theorem restored_shifted_moved : ∃ sub destination s loaded, new 0x1000 0x10000 4096 = some sub ∧
    new 0x40000 0x10000 4096 = some destination ∧ run step ⟨sub, []⟩ [.alloc 1, .alloc 8192] = some s ∧
    restore destination 0x40000 s.sub = some loaded ∧ Restored 0x40000 s.sub loaded := by
  obtain ⟨sub, hsub⟩ : ∃ sub, new 0x1000 0x10000 4096 = some sub := ⟨_, rfl⟩
  obtain ⟨destination, hdestination⟩ : ∃ sub, new 0x40000 0x10000 4096 = some sub := ⟨_, rfl⟩
  have hrun : ∀ sub ∈ new 0x1000 0x10000 4096, (run step ⟨sub, []⟩ [.alloc 1, .alloc 8192]).map
      (fun s ↦ (s.live, s.sub.startAddr, s.sub.addr_alloc.capacity)) =
        some ([(0xe000, 8192), (0x10000, 1)], 0x1000, 32) := by
    decide +kernel
  have hserves : ∀ sub ∈ new 0x1000 0x10000 4096, Guarded step Serves ⟨sub, []⟩ [.alloc 1, .alloc 8192] := by
    decide +kernel
  have hend : ∀ sub ∈ new 0x40000 0x10000 4096, sub.endAddr = 0x50000 := by decide +kernel
  obtain ⟨s, hs, hfields⟩ := map_eq_some_iff.mp (hrun sub hsub)
  obtain ⟨hlive, hstart, hcapacity⟩ := Prod.mk.inj hfields |>.imp id Prod.mk.inj
  obtain ⟨hiff, hoffsets⟩ := restored_shifted_iff 0x1000 0x10000 4096 0x40000 sub destination _ s hsub hs
  have hoffsets := hoffsets (by decide) (by decide) (by decide) (hserves sub hsub)
  have hfits : Fits destination 0x40000 s.sub := by
    refine ⟨fun offset hoffset ↦ ?_, .inl hcapacity⟩
    obtain ⟨allocation, hmem, heq⟩ := (hoffsets offset).mp hoffset
    rw [← heq, getOffset, hend destination hdestination, hstart]
    rw [hlive, List.mem_pair] at hmem
    obtain rfl | rfl := hmem
    · decide
    · decide
  obtain ⟨loaded, hrestore, hrestored⟩ := hiff.mpr hfits
  exact ⟨sub, destination, s, loaded, hsub, hdestination, hs, hrestore, hrestored⟩

/-- One page from each of 32 requests. -/
def pages : List Call := List.replicate 32 (.alloc 4096)

/-- With 33 blocks the load writes behind the array; and a buffer that lies behind the one of the destination
does not take its pointer back. -/
theorem array_and_end_stay :
    (∃ sub destination s, new 0x1000 0x100000 4096 = some sub ∧ new 0x1000 0x100000 4096 = some destination ∧
      run step ⟨sub, []⟩ pages = some s ∧ s.sub.addr_alloc.blocks.length = 33 ∧
      ¬ ∃ loaded, restore destination 0x1000 s.sub = some loaded ∧ Restored 0x1000 s.sub loaded) ∧
    ∃ sub destination s, new 0x1000 0x10000 4096 = some sub ∧ new 0x1000 0x10000 4096 = some destination ∧
      run step ⟨sub, []⟩ [.alloc 4096] = some s ∧ s.live = [(0x10000, 4096)] ∧
      ¬ ∃ loaded, restore destination 0x40000 s.sub = some loaded ∧ Restored 0x40000 s.sub loaded := by
  constructor
  · have hboth : ∀ sub ∈ new 0x1000 0x100000 4096, (run step ⟨sub, []⟩ pages).map
        (fun s ↦ (s.sub.addr_alloc.blocks.length, restore sub 0x1000 s.sub)) = some (33, none) := by
      decide +kernel
    obtain ⟨sub, hsub⟩ : ∃ sub, new 0x1000 0x100000 4096 = some sub := ⟨_, rfl⟩
    obtain ⟨s, hs, hfields⟩ := map_eq_some_iff.mp (hboth sub hsub)
    obtain ⟨hlength, hnone⟩ := Prod.mk.inj hfields
    refine ⟨sub, sub, s, hsub, hsub, hs, hlength, fun ⟨loaded, hloaded, _⟩ ↦ ?_⟩
    rw [hnone] at hloaded
    cases hloaded
  · have hboth : ∀ sub ∈ new 0x1000 0x10000 4096, (run step ⟨sub, []⟩ [.alloc 4096]).map
        (fun s ↦ (s.live, ((restore sub 0x40000 s.sub).bind fun loaded ↦ loaded.free (0x40000 + 0xf000)),
          (deallocate s.sub.addr_alloc 0xf000).map Prod.fst)) = some ([(0x10000, 4096)], none, some 0) := by
      decide +kernel
    obtain ⟨sub, hsub⟩ : ∃ sub, new 0x1000 0x10000 4096 = some sub := ⟨_, rfl⟩
    obtain ⟨s, hs, hfields⟩ := map_eq_some_iff.mp (hboth sub hsub)
    obtain ⟨hlive, hfields⟩ := Prod.mk.inj hfields
    obtain ⟨hfatal, htaken⟩ := Prod.mk.inj hfields
    refine ⟨sub, sub, s, hsub, hsub, hs, hlive, fun ⟨loaded, hloaded, hrestored⟩ ↦ ?_⟩
    obtain ⟨⟨error, addr_alloc⟩, hdeallocate, rfl⟩ := map_eq_some_iff.mp htaken
    obtain ⟨next, hfree⟩ := (hrestored.free_iff 0xf000).mpr ⟨addr_alloc, hdeallocate⟩
    rw [hloaded, bind_some, hfree] at hfatal
    cases hfatal

end SubAllocator

end FdeEmugl.AddressSpace
