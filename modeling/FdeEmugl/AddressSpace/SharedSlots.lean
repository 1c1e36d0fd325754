import Mathlib.Data.Finmap
import FdeEmugl.Library.IntervalMap
import FdeEmugl.Library.Runs

/-!
# The shared-slots host memory allocator

Guest contexts ask for host memory in pages. Memory is cut from blocks that all
contexts share; a block keeps its free ranges in an ordered map, cuts an
allocation from the front of one of them, and merges a range that comes back with
the free ranges it touches. Blocks that have become free are dropped, all but one.

The size of an allocation is computed in 64 bits and kept in 32. The results are
for requests of 1 to `2 ^ 32 - 4096` bytes: others get a smaller range than they
asked for, or an empty one that two allocations can share.
-/

namespace FdeEmugl.SharedSlots

open IntervalMap Runs
open OrderedMap
open List (mem_cons_of_mem mem_cons_self not_mem_nil)
open Option (bind_some map_some)
open Function (update_of_ne update_self)

/-! ## Blocks -/

def kAlignment : UInt64 := 4096

/-- Rounded up in 64 bits, stored in 32. -/
def alignedSize (size : UInt64) : ℕ := (((size + kAlignment - 1) / kAlignment) * kAlignment).toNat % 2 ^ 32

/-- The free ranges are given by their offset and their size. -/
structure MemBlock where
  physBase : ℕ
  bitsSize : ℕ
  freeSubblocks : OrderedMap ℕ ℕ

/-- The loop of `findFreeSubblock`: a range is only compared with the size that is asked for. -/
def findFrom (sz : ℕ) : Option (ℕ × ℕ) → List (ℕ × ℕ) → Option (ℕ × ℕ)
  | best, [] => best
  | best, i :: rest =>
    let bestSize := best.elim (2 ^ 64 - 1) Prod.snd
    if sz ≤ i.2 ∧ sz < bestSize then findFrom sz (some i) rest else findFrom sz best rest

def findFreeSubblock (fsb : OrderedMap ℕ ℕ) (sz : ℕ) : Option (ℕ × ℕ) := findFrom sz none fsb.entries

/-- The map and the iterator that is returned. Without a result the emulator dies. -/
def tryMergeSubblocks (fsb : OrderedMap ℕ ℕ) (ret lhs rhs : ℕ × ℕ) : Option (OrderedMap ℕ ℕ × (ℕ × ℕ)) :=
  if (lhs.1 + lhs.2) % 2 ^ 32 = rhs.1 then
    let subblockSize := (lhs.2 + rhs.2) % 2 ^ 32
    (((fsb.erase lhs.1).erase rhs.1).insert lhs.1 subblockSize).map fun next ↦
      (next, (lhs.1, subblockSize))
  else some (fsb, ret)

/-- The range is merged with the one before it. -/
def mergePrev (fsb : OrderedMap ℕ ℕ) (i : ℕ × ℕ) : Option (OrderedMap ℕ ℕ × (ℕ × ℕ)) :=
  match (fsb.below i.1).getLast? with
  | some prev => tryMergeSubblocks fsb i prev i
  | none => some (fsb, i)

/-- The range is merged with the one behind it. -/
def mergeNext (fsb : OrderedMap ℕ ℕ) (i : ℕ × ℕ) : Option (OrderedMap ℕ ℕ × (ℕ × ℕ)) :=
  match (fsb.above i.1).head? with
  | some next => tryMergeSubblocks fsb i i next
  | none => some (fsb, i)

namespace MemBlock

/-- `physBase` is where the hardware has put the block. -/
def new (physBase sz : ℕ) : Option MemBlock :=
  (empty.insert 0 sz).map fun freeSubblocks ↦ { physBase, bitsSize := sz, freeSubblocks }

def isAllFree (block : MemBlock) : Bool := block.freeSubblocks.entries = [(0, block.bitsSize)]

/-- The address of the allocation, or 0. Without a result the emulator dies. -/
def allocate (requestedSize : ℕ) (block : MemBlock) : Option (ℕ × MemBlock) :=
  match findFreeSubblock block.freeSubblocks requestedSize with
  | none => some (0, block)
  | some (subblockOffset, subblockSize) =>
    let rest := block.freeSubblocks.erase subblockOffset
    let freeSubblocks :=
      if requestedSize < subblockSize then
        rest.insert ((subblockOffset + requestedSize) % 2 ^ 32) ((subblockSize - requestedSize) % 2 ^ 32)
      else some rest
    freeSubblocks.map fun freeSubblocks ↦
      ((block.physBase + subblockOffset) % 2 ^ 64, { block with freeSubblocks })

/-- Without a result the emulator dies. -/
def unallocate (phys subblockSize : ℕ) (block : MemBlock) : Option MemBlock :=
  if (block.physBase + block.bitsSize) % 2 ^ 64 ≤ phys then none
  else
    let offset := (phys + 2 ^ 64 - block.physBase) % 2 ^ 32
    (block.freeSubblocks.insert offset subblockSize).bind fun fsb ↦
      (mergePrev fsb (offset, subblockSize)).bind fun merged ↦
        (mergeNext merged.1 merged.2).map fun merged ↦ { block with freeSubblocks := merged.1 }

end MemBlock

/-! ## Contexts -/

/-- A node of `g_blocks`. Pointers to a block name the node: another block at the same address is a
different one. -/
structure Node where
  id : ℕ
  block : MemBlock

/-- `requested` is what the guest asked for. -/
structure Allocation where
  size : ℕ
  owner : ℕ
  requested : ℕ
  deriving DecidableEq

structure State (Context : Type) where
  g_blocks : OrderedMap ℕ Node
  m_allocations : Context → Finmap fun _ : ℕ ↦ Allocation
  /-- The id of the next node. -/
  nextId : ℕ

/-- The block of a node is changed through a pointer. -/
def setBlock (node : Node) (blocks : OrderedMap ℕ Node) : OrderedMap ℕ Node :=
  blocks.mapValues fun old ↦ if old.id = node.id then node else old

/-- The first block that can serve a request, after it has. -/
def serve (requestedSize : ℕ) : List (ℕ × Node) → Option (Option (ℕ × Node))
  | [] => some none
  | (_, node) :: rest =>
    (node.block.allocate requestedSize).bind fun (physAddr, block) ↦
      if physAddr ≠ 0 then some (some (physAddr, { node with block })) else serve requestedSize rest

/-- The blocks that stay, in order. -/
def gcFrom : ℕ → List (ℕ × Node) → List (ℕ × Node)
  | _, [] => []
  | allowedEmpty, entry :: rest =>
    if entry.2.block.isAllFree then
      if 0 < allowedEmpty then entry :: gcFrom (allowedEmpty - 1) rest else gcFrom allowedEmpty rest
    else entry :: gcFrom allowedEmpty rest

theorem gcFrom_sublist (allowedEmpty : ℕ) (entries : List (ℕ × Node)) :
    (gcFrom allowedEmpty entries).Sublist entries := by
  induction entries generalizing allowedEmpty with
  | nil => exact List.Sublist.refl _
  | cons entry rest ih =>
    rw [gcFrom]
    split_ifs
    · exact (ih _).cons_cons entry
    · exact (ih _).cons entry
    · exact (ih _).cons_cons entry

theorem mem_gcFrom {entries : List (ℕ × Node)} {entry : ℕ × Node} (allowedEmpty : ℕ)
    (hentry : entry ∈ entries) (hfull : entry.2.block.isAllFree = false) :
    entry ∈ gcFrom allowedEmpty entries := by
  induction entries generalizing allowedEmpty with
  | nil => cases hentry
  | cons first rest ih =>
    rw [gcFrom]
    rcases List.mem_cons.mp hentry with rfl | hrest
    · rw [hfull]
      exact mem_cons_self
    · split_ifs
      · exact mem_cons_of_mem _ (ih _ hrest)
      · exact ih _ hrest
      · exact mem_cons_of_mem _ (ih _ hrest)

def gcEmptyBlocks (allowedEmpty : ℕ) (blocks : OrderedMap ℕ Node) : OrderedMap ℕ Node :=
  blocks.restrict (gcFrom allowedEmpty blocks.entries) (gcFrom_sublist _ _)

/-- A range goes back to the block that its owner points to. Without a result the pointer leads
nowhere, or the emulator dies. -/
def release (phys : ℕ) (allocation : Allocation) (blocks : OrderedMap ℕ Node) : Option Node :=
  (blocks.entries.find? fun entry ↦ entry.2.id = allocation.owner).bind fun entry ↦
    (entry.2.block.unallocate phys allocation.size).map fun block ↦ { entry.2 with block }

/-- The loop of `clear`. -/
def releaseAll : List (ℕ × Allocation) → OrderedMap ℕ Node → Option (OrderedMap ℕ Node)
  | [], blocks => some blocks
  | (phys, allocation) :: rest, blocks =>
    (release phys allocation blocks).bind fun node ↦ releaseAll rest (setBlock node blocks)

namespace State

variable {Context : Type} [DecidableEq Context]

def new : State Context := ⟨.empty, fun _ ↦ ∅, 0⟩

def populatePhysAddr (context : Context) (physAddr : ℕ) (allocation : Allocation)
    (state : State Context) : Option (State Context) :=
  if ((state.m_allocations context).lookup physAddr).isSome then none
  else some { state with
    m_allocations := Function.update state.m_allocations context
      ((state.m_allocations context).insert physAddr allocation) }

/-- 64 MiB. -/
def defaultSize : ℕ := 64 * 2 ^ 20

/-- `region` is the address that the hardware gives to a block that has to be made. -/
def allocate (context : Context) (size : UInt64) (region : ℕ) (state : State Context) :
    Option (State Context) := do
  match ← serve (alignedSize size) state.g_blocks.entries with
  | some (physAddr, node) =>
    populatePhysAddr context physAddr ⟨alignedSize size, node.id, size.toNat⟩
      { state with g_blocks := setBlock node state.g_blocks }
  | none =>
    let newBlock ← MemBlock.new region (max (alignedSize size) defaultSize)
    let (physAddr, block) ← newBlock.allocate (alignedSize size)
    if physAddr = 0 then some state
    else
      let g_blocks ← state.g_blocks.insert region ⟨state.nextId, block⟩
      populatePhysAddr context physAddr ⟨alignedSize size, state.nextId, size.toNat⟩
        { state with g_blocks, nextId := state.nextId + 1 }

def unallocate (context : Context) (physAddr : ℕ) (state : State Context) : Option (State Context) :=
  match (state.m_allocations context).lookup physAddr with
  | none => some state
  | some allocation =>
    (release physAddr allocation state.g_blocks).map fun node ↦
      let g_blocks := setBlock node state.g_blocks
      { state with
        g_blocks := if node.block.isAllFree then gcEmptyBlocks 1 g_blocks else g_blocks
        m_allocations := Function.update state.m_allocations context
          ((state.m_allocations context).erase physAddr) }

/-- `order` is the order in which the map is gone through. -/
def clear (context : Context) (order : List (ℕ × Allocation)) (state : State Context) :
    Option (State Context) :=
  (releaseAll order state.g_blocks).map fun g_blocks ↦
    { state with g_blocks, m_allocations := Function.update state.m_allocations context ∅ }

end State

/-- Pings, and the destruction of a context. -/
inductive Ping (Context : Type) where
  | allocate (context : Context) (size : UInt64) (region : ℕ)
  | unallocate (context : Context) (physAddr : UInt64)
  | clear (context : Context) (order : List (ℕ × Allocation))

def step {Context : Type} [DecidableEq Context] : Ping Context → State Context → Option (State Context)
  | .allocate context size region, state => state.allocate context size region
  | .unallocate context physAddr, state => state.unallocate context physAddr.toNat
  | .clear context order, state => state.clear context order

/-! ## What a block does -/

structure MemBlock.Ok (block : MemBlock) : Prop where
  base_pos : 0 < block.physBase
  end_lt : block.physBase + block.bitsSize < 2 ^ 64
  size_pos : 0 < block.bitsSize
  size_lt : block.bitsSize < 2 ^ 32
  coalesced : Coalesced block.bitsSize block.freeSubblocks

section Blocks

variable {block next : MemBlock} {requestedSize : ℕ}

theorem findFrom_spec (sz : ℕ) (best : Option (ℕ × ℕ)) (entries : List (ℕ × ℕ)) :
    (findFrom sz best entries = best ∧ (best = none → sz < 2 ^ 64 - 1 → ∀ i ∈ entries, i.2 < sz)) ∨
      ∃ i ∈ entries, findFrom sz best entries = some i ∧ sz ≤ i.2 := by
  induction entries generalizing best with
  | nil => exact .inl ⟨rfl, fun _ _ _ h ↦ absurd h not_mem_nil⟩
  | cons head entries ih =>
    rw [findFrom]
    split_ifs with hhead
    · right
      obtain ⟨hsame, _⟩ | ⟨i, hi, hfound, hle⟩ := ih (some head)
      · exact ⟨head, mem_cons_self, hsame, hhead.1⟩
      · exact ⟨i, mem_cons_of_mem _ hi, hfound, hle⟩
    · obtain ⟨hsame, hrest⟩ | ⟨i, hi, hfound, hle⟩ := ih best
      · refine .inl ⟨hsame, fun hnone hsz i hi ↦ ?_⟩
        rcases List.mem_cons.mp hi with rfl | hi
        · rw [hnone, Option.elim_none, not_and'] at hhead
          exact not_le.mp (hhead hsz)
        · exact hrest hnone hsz i hi
      · exact .inr ⟨i, mem_cons_of_mem _ hi, hfound, hle⟩

/-- The block has given away a free range. -/
structure MemBlock.Gave (block next : MemBlock) (offset size : ℕ) : Prop where
  base_eq : next.physBase = block.physBase
  bits_eq : next.bitsSize = block.bitsSize
  ok : next.Ok
  inside : offset + size ≤ block.bitsSize
  free : ∀ point, offset ≤ point → point < offset + size → Covers block.freeSubblocks point
  covers : ∀ point, Covers next.freeSubblocks point ↔
    Covers block.freeSubblocks point ∧ ¬ (offset ≤ point ∧ point < offset + size)

theorem MemBlock.Ok.gave {offset size : ℕ} (h : block.Ok) (freeSubblocks : OrderedMap ℕ ℕ)
    (hmem : (offset, size) ∈ block.freeSubblocks.entries) (hpos : 0 < requestedSize)
    (hle : requestedSize ≤ size)
    (hcarved : Carved block.freeSubblocks freeSubblocks offset size requestedSize) :
    block.Gave { block with freeSubblocks } offset requestedSize := by
  have hin := h.coalesced.end_le _ hmem
  simp only at hin
  refine ⟨rfl, rfl, ⟨h.base_pos, h.end_lt, h.size_pos, h.size_lt, h.coalesced.carve hmem hpos hcarved⟩, by omega, ?_, ?_⟩
  · intro point hfrom hto
    exact ⟨_, hmem, hfrom, by simp only; omega⟩
  · intro point
    exact covers_carved h.coalesced hmem hle hcarved

/-- A block gives away the front of a free range, or has none that is large enough. -/
theorem MemBlock.Ok.allocate (h : block.Ok) (hpos : 0 < requestedSize) (hsize : requestedSize < 2 ^ 32) :
    (block.allocate requestedSize = some (0, block) ∧ ∀ i ∈ block.freeSubblocks.entries, i.2 < requestedSize) ∨
    ∃ offset next, block.allocate requestedSize = some (block.physBase + offset, next) ∧
      block.Gave next offset requestedSize := by
  have hend := h.end_lt
  have hlimit := h.size_lt
  obtain ⟨hnone, hsmall⟩ | ⟨⟨offset, size⟩, hmem, hfound, hle⟩ :=
    findFrom_spec requestedSize none block.freeSubblocks.entries
  · left
    refine ⟨?_, hsmall rfl (by omega)⟩
    rw [MemBlock.allocate, findFreeSubblock, hnone]
  · right
    have hin := h.coalesced.end_le _ hmem
    simp only at hin hle
    have hphys : (block.physBase + offset) % 2 ^ 64 = block.physBase + offset := Nat.mod_eq_of_lt (by omega)
    by_cases hlt : requestedSize < size
    · have hkey : (offset + requestedSize) % 2 ^ 32 = offset + requestedSize := Nat.mod_eq_of_lt (by omega)
      have hrest : (size - requestedSize) % 2 ^ 32 = size - requestedSize := Nat.mod_eq_of_lt (by omega)
      have hfree : (block.freeSubblocks.erase offset).find (offset + requestedSize) = none := by
        refine find_eq_none.mpr fun entry hentry heq ↦ ?_
        obtain ⟨hentry, hne⟩ := mem_erase.mp hentry
        have hgap := h.coalesced.gap _ hmem entry hentry (by simp only; omega)
        simp only at hgap
        omega
      refine ⟨offset, _, ?_, h.gave
        ((block.freeSubblocks.erase offset).add _ (size - requestedSize) hfree) hmem hpos hle ?_⟩
      · simp only [MemBlock.allocate, findFreeSubblock, hfound, if_pos hlt, hkey, hrest, OrderedMap.insert,
          hfree, dif_pos, map_some, hphys]
      · intro entry
        rw [mem_add, mem_erase, or_comm]
        simp [hlt]
    · obtain rfl : requestedSize = size := by omega
      refine ⟨offset, _, ?_, h.gave (block.freeSubblocks.erase offset) hmem hpos hle ?_⟩
      · simp only [MemBlock.allocate, findFreeSubblock, hfound, if_neg hlt, map_some, hphys]
      · intro entry
        rw [mem_erase]
        simp

theorem tryMergeSubblocks_touching {fsb : OrderedMap ℕ ℕ} {lhs rhs : ℕ × ℕ} (ret : ℕ × ℕ)
    (htouch : lhs.1 + lhs.2 = rhs.1) (hend : rhs.1 + rhs.2 < 2 ^ 32) :
    ∃ next, tryMergeSubblocks fsb ret lhs rhs = some (next, (lhs.1, lhs.2 + rhs.2)) ∧ Merged fsb next lhs rhs := by
  have hkey : (lhs.1 + lhs.2) % 2 ^ 32 = rhs.1 := by
    rw [htouch]
    exact Nat.mod_eq_of_lt (by omega)
  have hsize : (lhs.2 + rhs.2) % 2 ^ 32 = lhs.2 + rhs.2 := Nat.mod_eq_of_lt (by omega)
  have hnone : ((fsb.erase lhs.1).erase rhs.1).find lhs.1 = none := by
    refine find_eq_none.mpr fun entry hentry heq ↦ ?_
    exact (mem_erase.mp (mem_erase.mp hentry).1).2 heq
  refine ⟨((fsb.erase lhs.1).erase rhs.1).add lhs.1 (lhs.2 + rhs.2) hnone, ?_, ?_⟩
  · simp only [tryMergeSubblocks, if_pos hkey, hsize, OrderedMap.insert, dif_pos hnone, map_some]
  · intro entry
    rw [mem_add, mem_erase, mem_erase, and_assoc, or_comm]

theorem tryMergeSubblocks_apart {fsb : OrderedMap ℕ ℕ} {ret lhs rhs : ℕ × ℕ}
    (happart : lhs.1 + lhs.2 ≠ rhs.1) (hend : lhs.1 + lhs.2 < 2 ^ 32) :
    tryMergeSubblocks fsb ret lhs rhs = some (fsb, ret) := by
  rw [tryMergeSubblocks, Nat.mod_eq_of_lt hend, if_neg happart]

section Merging

variable {limit : ℕ} {fsb : OrderedMap ℕ ℕ} {i : ℕ × ℕ}

theorem mergePrev_spec (h : Nearly limit fsb i) (hlimit : limit < 2 ^ 32) :
    ∃ merged j, mergePrev fsb i = some (merged, j) ∧ Nearly limit merged j ∧ GapBelow merged j ∧
      ∀ point, Covers merged point ↔ Covers fsb point := by
  have hend := h.end_le i h.mem
  unfold mergePrev
  cases hlast : (fsb.below i.1).getLast? with
  | none =>
    refine ⟨fsb, i, rfl, h, fun entry hentry hlt ↦ ?_, fun _ ↦ Iff.rfl⟩
    have hmem := mem_below.mpr ⟨hentry, hlt⟩
    rw [List.getLast?_eq_none_iff.mp hlast] at hmem
    cases hmem
  | some prev =>
    obtain ⟨hprev, hbefore⟩ := mem_below.mp (List.mem_of_getLast? hlast)
    have hle := h.below prev hprev hbefore
    by_cases htouch : prev.1 + prev.2 = i.1
    · obtain ⟨merged, hmerge, hmerged⟩ := tryMergeSubblocks_touching i htouch (by omega)
      obtain ⟨hnearly, hgap⟩ := h.merge_below hprev htouch hmerged
      exact ⟨merged, _, hmerge, hnearly, hgap, fun _ ↦ covers_merged hprev h.mem htouch hmerged⟩
    · refine ⟨fsb, i, tryMergeSubblocks_apart htouch (by omega), h, fun entry hentry hlt ↦ ?_, fun _ ↦ Iff.rfl⟩
      rcases (le_of_getLast_below hlast hentry hlt).eq_or_lt with heq | hless
      · rw [eq_of_key hentry hprev heq]
        omega
      · have hgap := h.gap entry hentry prev hprev hlt.ne hbefore.ne hless
        omega

theorem mergeNext_spec (h : Nearly limit fsb i) (hbelow : GapBelow fsb i) (hlimit : limit < 2 ^ 32) :
    ∃ merged j, mergeNext fsb i = some (merged, j) ∧ Coalesced limit merged ∧
      ∀ point, Covers merged point ↔ Covers fsb point := by
  have hend := h.end_le i h.mem
  unfold mergeNext
  cases hhead : (fsb.above i.1).head? with
  | none =>
    refine ⟨fsb, i, rfl, h.coalesced hbelow fun entry hentry hlt ↦ ?_, fun _ ↦ Iff.rfl⟩
    have hmem := mem_above.mpr ⟨hentry, hlt⟩
    rw [List.head?_eq_none_iff.mp hhead] at hmem
    cases hmem
  | some next =>
    obtain ⟨hnext, hafter⟩ := mem_above.mp (List.mem_of_head? hhead)
    have hle := h.above next hnext hafter
    have hend' := h.end_le next hnext
    by_cases htouch : i.1 + i.2 = next.1
    · obtain ⟨merged, hmerge, hmerged⟩ := tryMergeSubblocks_touching i htouch (by omega)
      exact ⟨merged, _, hmerge, h.merge_above hbelow hnext htouch hmerged,
        fun _ ↦ covers_merged h.mem hnext htouch hmerged⟩
    · refine ⟨fsb, i, tryMergeSubblocks_apart htouch (by omega), h.coalesced hbelow fun entry hentry hlt ↦ ?_,
        fun _ ↦ Iff.rfl⟩
      have hfirst := le_of_head_above hhead hentry hlt
      omega

end Merging

/-- The block has taken a range back. -/
structure MemBlock.Took (block next : MemBlock) (phys size : ℕ) : Prop where
  base_eq : next.physBase = block.physBase
  bits_eq : next.bitsSize = block.bitsSize
  ok : next.Ok
  covers : ∀ point, Covers next.freeSubblocks point ↔ Covers block.freeSubblocks point ∨
    (phys ≤ block.physBase + point ∧ block.physBase + point < phys + size)

theorem MemBlock.Ok.unallocate {phys size : ℕ} (h : block.Ok) (hfrom : block.physBase ≤ phys)
    (hto : phys + size ≤ block.physBase + block.bitsSize) (hpos : 0 < size)
    (hfree : ∀ point, phys ≤ block.physBase + point → block.physBase + point < phys + size →
      ¬ Covers block.freeSubblocks point) :
    ∃ next, block.unallocate phys size = some next ∧ block.Took next phys size := by
  have hend := h.end_lt
  have hlimit := h.size_lt
  have hsum : (block.physBase + block.bitsSize) % 2 ^ 64 = block.physBase + block.bitsSize := Nat.mod_eq_of_lt hend
  have hoffset : (phys + 2 ^ 64 - block.physBase) % 2 ^ 32 = phys - block.physBase := by
    have hsplit : phys + 2 ^ 64 - block.physBase = phys - block.physBase + 2 ^ 32 * 2 ^ 32 := by omega
    rw [hsplit, Nat.add_mul_mod_self_left]
    exact Nat.mod_eq_of_lt (by omega)
  have hnone : block.freeSubblocks.find (phys - block.physBase) = none :=
    h.coalesced.find_eq_none (hfree _ (by omega) (by omega))
  have hnearly : Nearly block.bitsSize (block.freeSubblocks.add (phys - block.physBase) size hnone)
      (phys - block.physBase, size) := by
    refine h.coalesced.add hpos (by omega) (fun point hle hlt ↦ hfree point (by omega) (by omega)) hnone
  obtain ⟨first, i, hprev, hnearly', hbelow, hcovers⟩ := mergePrev_spec hnearly hlimit
  obtain ⟨last, j, hnext, hcoalesced, hcovers'⟩ := mergeNext_spec hnearly' hbelow hlimit
  refine ⟨{ block with freeSubblocks := last }, ?_, rfl, rfl,
    ⟨h.base_pos, h.end_lt, h.size_pos, h.size_lt, hcoalesced⟩, ?_⟩
  · have houtside : ¬ block.physBase + block.bitsSize ≤ phys := by omega
    simp only [MemBlock.unallocate, hsum, if_neg houtside, hoffset, OrderedMap.insert, dif_pos hnone,
      bind_some, hprev, hnext, map_some]
  · intro point
    rw [hcovers', hcovers, covers_add]
    have hrange : (phys - block.physBase ≤ point ∧ point < phys - block.physBase + size) ↔
        (phys ≤ block.physBase + point ∧ block.physBase + point < phys + size) := by omega
    rw [hrange]

end Blocks

/-! ## Blocks and allocations -/

section Live

variable {Context : Type}

/-- The address is in an allocation. -/
def Allocated (live : Context → ℕ → Option Allocation) (address : ℕ) : Prop :=
  ∃ context phys allocation, live context phys = some allocation ∧ phys ≤ address ∧ address < phys + allocation.size

/-- The blocks lie apart, every allocation is inside the block that its owner points to, allocations do
not overlap, and the free ranges of a block are the addresses that are in no allocation. -/
structure Sound (blocks : OrderedMap ℕ Node) (live : Context → ℕ → Option Allocation) : Prop where
  key_eq : ∀ entry ∈ blocks.entries, entry.1 = entry.2.block.physBase
  id_inj : ∀ entry ∈ blocks.entries, ∀ other ∈ blocks.entries, entry.2.id = other.2.id → entry = other
  ok : ∀ entry ∈ blocks.entries, entry.2.block.Ok
  regions : ∀ entry ∈ blocks.entries, ∀ other ∈ blocks.entries, entry.1 < other.1 →
    entry.1 + entry.2.block.bitsSize ≤ other.1
  owned : ∀ context phys allocation, live context phys = some allocation →
    ∃ entry ∈ blocks.entries, entry.2.id = allocation.owner ∧ entry.1 ≤ phys ∧
      phys + allocation.size ≤ entry.1 + entry.2.block.bitsSize
  sized : ∀ context phys allocation, live context phys = some allocation →
    0 < allocation.size ∧ allocation.requested ≤ allocation.size
  disjoint : ∀ context phys allocation context' phys' allocation', live context phys = some allocation →
    live context' phys' = some allocation' → (context, phys) ≠ (context', phys') →
      phys + allocation.size ≤ phys' ∨ phys' + allocation'.size ≤ phys
  complement : ∀ entry ∈ blocks.entries, ∀ point < entry.2.block.bitsSize,
    Covers entry.2.block.freeSubblocks point ↔ ¬ Allocated live (entry.1 + point)

variable {blocks next : OrderedMap ℕ Node} {live live' : Context → ℕ → Option Allocation}
variable {node : Node}

theorem sound_empty : Sound .empty fun (_ : Context) _ ↦ none where
  key_eq := fun _ h ↦ absurd h not_mem_nil
  id_inj := fun _ h ↦ absurd h not_mem_nil
  ok := fun _ h ↦ absurd h not_mem_nil
  regions := fun _ h ↦ absurd h not_mem_nil
  owned := nofun
  sized := nofun
  disjoint := nofun
  complement := fun _ h ↦ absurd h not_mem_nil

/-- Every address of an allocation is in the region of a block. -/
theorem Sound.region_of_allocated {address : ℕ} (h : Sound blocks live) (hallocated : Allocated live address) :
    ∃ entry ∈ blocks.entries, entry.1 ≤ address ∧ address < entry.1 + entry.2.block.bitsSize := by
  obtain ⟨context, phys, allocation, hlive, hfrom, hto⟩ := hallocated
  obtain ⟨entry, hentry, _, hle, hend⟩ := h.owned context phys allocation hlive
  exact ⟨entry, hentry, by omega, by omega⟩

/-- A node is put into the map, in the place of the one with its id if there is one. -/
structure Puts (blocks next : OrderedMap ℕ Node) (node : Node) : Prop where
  mem : ∀ entry, entry ∈ next.entries ↔
    (entry ∈ blocks.entries ∧ entry.2.id ≠ node.id) ∨ entry = (node.block.physBase, node)
  ok : node.block.Ok
  same : ∀ entry ∈ blocks.entries, entry.2.id = node.id →
    entry.1 = node.block.physBase ∧ entry.2.block.bitsSize = node.block.bitsSize
  apart : ∀ entry ∈ blocks.entries, entry.2.id ≠ node.id →
    entry.1 + entry.2.block.bitsSize ≤ node.block.physBase ∨ node.block.physBase + node.block.bitsSize ≤ entry.1

/-- Allocations change only inside the region of the node that is put into the map. -/
theorem Sound.put (h : Sound blocks live) (hputs : Puts blocks next node)
    (hlive : ∀ context phys allocation, live' context phys = some allocation →
      live context phys = some allocation ∨ allocation.owner = node.id ∧ node.block.physBase ≤ phys ∧
        phys + allocation.size ≤ node.block.physBase + node.block.bitsSize)
    (hsized : ∀ context phys allocation, live' context phys = some allocation →
      0 < allocation.size ∧ allocation.requested ≤ allocation.size)
    (hdisjoint : ∀ context phys allocation context' phys' allocation',
      live' context phys = some allocation → live' context' phys' = some allocation' →
        (context, phys) ≠ (context', phys') → phys + allocation.size ≤ phys' ∨ phys' + allocation'.size ≤ phys)
    (hinside : ∀ point < node.block.bitsSize,
      Covers node.block.freeSubblocks point ↔ ¬ Allocated live' (node.block.physBase + point))
    (houtside : ∀ address, address < node.block.physBase ∨ node.block.physBase + node.block.bitsSize ≤ address →
        (Allocated live' address ↔ Allocated live address)) : Sound next live' := by
  constructor
  · intro entry hentry
    obtain ⟨hentry, _⟩ | rfl := (hputs.mem entry).mp hentry
    · exact h.key_eq entry hentry
    · rfl
  · intro entry hentry other hother heq
    obtain ⟨hentry, hid⟩ | rfl := (hputs.mem entry).mp hentry <;>
      obtain ⟨hother, hid'⟩ | rfl := (hputs.mem other).mp hother
    · exact h.id_inj entry hentry other hother heq
    · exact absurd heq hid
    · exact absurd heq.symm hid'
    · rfl
  · intro entry hentry
    obtain ⟨hentry, _⟩ | rfl := (hputs.mem entry).mp hentry
    · exact h.ok entry hentry
    · exact hputs.ok
  · intro entry hentry other hother hlt
    obtain ⟨hentry, hid⟩ | rfl := (hputs.mem entry).mp hentry <;>
      obtain ⟨hother, hid'⟩ | rfl := (hputs.mem other).mp hother
    · exact h.regions entry hentry other hother hlt
    · exact (hputs.apart entry hentry hid).resolve_right (by simp only at hlt; omega)
    · refine (hputs.apart other hother hid').resolve_left ?_
      simp only at hlt
      omega
    · exact absurd hlt (lt_irrefl _)
  · intro context phys allocation hallocation
    obtain hold | ⟨howner, hfrom, hto⟩ := hlive context phys allocation hallocation
    · obtain ⟨entry, hentry, howner, hfrom, hto⟩ := h.owned context phys allocation hold
      by_cases hid : entry.2.id = node.id
      · obtain ⟨hkey, hbits⟩ := hputs.same entry hentry hid
        refine ⟨_, (hputs.mem _).mpr (.inr rfl), hid.symm.trans howner, ?_, ?_⟩
        · simp only
          omega
        · simp only
          omega
      · exact ⟨entry, (hputs.mem entry).mpr (.inl ⟨hentry, hid⟩), howner, hfrom, hto⟩
    · exact ⟨_, (hputs.mem _).mpr (.inr rfl), howner.symm, hfrom, hto⟩
  · exact hsized
  · exact hdisjoint
  · intro entry hentry point hpoint
    obtain ⟨hentry, hid⟩ | rfl := (hputs.mem entry).mp hentry
    · have hapart := hputs.apart entry hentry hid
      rw [h.complement entry hentry point hpoint, houtside (entry.1 + point) (by omega)]
    · exact hinside point hpoint

theorem mem_setBlock {entry : ℕ × Node} : entry ∈ (setBlock node blocks).entries ↔
      ∃ old ∈ blocks.entries, (old.1, if old.2.id = node.id then node else old.2) = entry :=
  mem_mapValues

/-- A block is changed in place. -/
theorem Sound.puts_setBlock {entry : ℕ × Node} (h : Sound blocks live) (hentry : entry ∈ blocks.entries)
    (hid : entry.2.id = node.id) (hbase : node.block.physBase = entry.2.block.physBase)
    (hbits : node.block.bitsSize = entry.2.block.bitsSize) (hok : node.block.Ok) :
    Puts blocks (setBlock node blocks) node := by
  have hkey := h.key_eq entry hentry
  have hunique : ∀ other ∈ blocks.entries, other.2.id = node.id → other = entry := by
    intro other hother hsame
    exact h.id_inj other hother entry hentry (hsame.trans hid.symm)
  refine ⟨fun other ↦ ?_, hok, fun other hother hsame ↦ ?_, fun other hother hdiff ↦ ?_⟩
  · rw [mem_setBlock]
    constructor
    · rintro ⟨old, hold, rfl⟩
      by_cases hsame : old.2.id = node.id
      · right
        rw [if_pos hsame, hunique old hold hsame, hkey, hbase]
      · left
        rw [if_neg hsame]
        exact ⟨hold, hsame⟩
    · rintro (⟨hother, hdiff⟩ | rfl)
      · exact ⟨other, hother, by rw [if_neg hdiff]⟩
      · exact ⟨entry, hentry, by rw [if_pos hid, hkey, hbase]⟩
  · rw [hunique other hother hsame]
    exact ⟨hkey.trans hbase.symm, hbits.symm⟩
  · have hne : other.1 ≠ entry.1 := by
      intro heq
      rw [eq_of_key hother hentry heq] at hdiff
      exact hdiff hid
    rcases lt_or_gt_of_ne hne with hless | hmore
    · have hregion := h.regions other hother entry hentry hless
      omega
    · have hregion := h.regions entry hentry other hother hmore
      omega

section Update

variable [DecidableEq Context] {context : Context} {phys : ℕ} {allocation : Allocation}

/-- One allocation is recorded or forgotten. -/
def record (live : Context → ℕ → Option Allocation) (context : Context) (phys : ℕ)
    (allocation : Option Allocation) : Context → ℕ → Option Allocation :=
  Function.update live context (Function.update (live context) phys allocation)

theorem record_self (live : Context → ℕ → Option Allocation) (context : Context) (phys : ℕ)
    (allocation : Option Allocation) : record live context phys allocation context phys = allocation := by
  rw [record, update_self, update_self]

theorem record_of_ne {context' : Context} {phys' : ℕ} (allocation : Option Allocation)
    (h : (context', phys') ≠ (context, phys)) :
    record live context phys allocation context' phys' = live context' phys' := by
  rw [record]
  by_cases hcontext : context' = context
  · have hphys : phys' ≠ phys := fun heq ↦ h (by rw [hcontext, heq])
    rw [hcontext, update_self, update_of_ne hphys]
  · rw [update_of_ne hcontext]

/-- What is recorded besides one allocation was there before. -/
theorem of_record {context' : Context} {phys' : ℕ} {value : Option Allocation} {found : Allocation}
    (h : record live context phys value context' phys' = some found) :
    ((context', phys') = (context, phys) ∧ value = some found) ∨
      ((context', phys') ≠ (context, phys) ∧ live context' phys' = some found) := by
  by_cases heq : (context', phys') = (context, phys)
  · cases heq
    rw [record_self] at h
    exact .inl ⟨rfl, h⟩
  · rw [record_of_ne value heq] at h
    exact .inr ⟨heq, h⟩

theorem allocated_record_some {address : ℕ} (hnone : live context phys = none) :
    Allocated (record live context phys (some allocation)) address ↔
      Allocated live address ∨ (phys ≤ address ∧ address < phys + allocation.size) := by
  constructor
  · rintro ⟨context', phys', found, hfound, hin⟩
    obtain ⟨heq, hvalue⟩ | ⟨_, hold⟩ := of_record hfound
    · cases heq
      cases hvalue
      exact .inr hin
    · exact .inl ⟨context', phys', found, hold, hin⟩
  · rintro (⟨context', phys', found, hfound, hin⟩ | hin)
    · have hne : (context', phys') ≠ (context, phys) := by
        intro heq
        cases heq
        rw [hnone] at hfound
        cases hfound
      exact ⟨context', phys', found, by rw [record_of_ne _ hne, hfound], hin⟩
    · exact ⟨context, phys, allocation, record_self _ _ _ _, hin⟩

section

variable (h : Sound blocks live)
include h

theorem Sound.allocated_record_none {address : ℕ} (hlive : live context phys = some allocation) :
    Allocated (record live context phys none) address ↔
      Allocated live address ∧ ¬ (phys ≤ address ∧ address < phys + allocation.size) := by
  constructor
  · rintro ⟨context', phys', found, hfound, hin⟩
    obtain ⟨_, hvalue⟩ | ⟨hne, hold⟩ := of_record hfound
    · cases hvalue
    · have hapart := h.disjoint _ _ _ _ _ _ hold hlive hne
      exact ⟨⟨context', phys', found, hold, hin⟩, by omega⟩
  · rintro ⟨⟨context', phys', found, hfound, hin⟩, hout⟩
    have hne : (context', phys') ≠ (context, phys) := by
      intro heq
      cases heq
      rw [hlive] at hfound
      cases hfound
      exact hout hin
    exact ⟨context', phys', found, by rw [record_of_ne _ hne, hfound], hin⟩

/-- A range that a block has given away is recorded. -/
theorem Sound.give {before : MemBlock} {offset : ℕ} (context : Context) (allocation : Allocation)
    (hputs : Puts blocks next node) (hgave : before.Gave node.block offset allocation.size)
    (hbefore : ∀ point < before.bitsSize, Covers before.freeSubblocks point ↔ ¬ Allocated live (before.physBase + point))
    (hpos : 0 < allocation.size) (howner : allocation.owner = node.id)
    (hrequested : allocation.requested ≤ allocation.size) :
    live context (before.physBase + offset) = none ∧
      Sound next (record live context (before.physBase + offset) (some allocation)) := by
  have hbase := hgave.base_eq
  have hbits := hgave.bits_eq
  have hinside := hgave.inside
  -- none of the addresses of the range is in an allocation
  have hfree : ∀ address, before.physBase + offset ≤ address →
      address < before.physBase + offset + allocation.size → ¬ Allocated live address := by
    intro address hfrom hto
    have hcovers := hgave.free (address - before.physBase) (by omega) (by omega)
    have hnot := (hbefore (address - before.physBase) (by omega)).mp hcovers
    rwa [Nat.add_sub_cancel' (by omega)] at hnot
  have hapart : ∀ context' phys' found, live context' phys' = some found →
      phys' + found.size ≤ before.physBase + offset ∨ before.physBase + offset + allocation.size ≤ phys' := by
    intro context' phys' found hfound
    have hsize := (h.sized context' phys' found hfound).1
    by_contra hover
    rw [not_or, not_le, not_le] at hover
    by_cases hless : phys' ≤ before.physBase + offset
    · exact hfree (before.physBase + offset) le_rfl (by omega)
        ⟨context', phys', found, hfound, hless, hover.1⟩
    · exact hfree phys' (by omega) hover.2 ⟨context', phys', found, hfound, le_rfl, by omega⟩
  have hnone : live context (before.physBase + offset) = none := by
    cases hfound : live context (before.physBase + offset) with
    | none => rfl
    | some found =>
      have hsize := (h.sized _ _ found hfound).1
      have hcases := hapart _ _ found hfound
      omega
  refine ⟨hnone, h.put hputs ?_ ?_ ?_ ?_ ?_⟩
  · intro context' phys' found hfound
    obtain ⟨heq, hvalue⟩ | ⟨_, hold⟩ := of_record hfound
    · cases heq
      cases hvalue
      exact .inr ⟨howner, by omega, by omega⟩
    · exact .inl hold
  · intro context' phys' found hfound
    obtain ⟨_, hvalue⟩ | ⟨_, hold⟩ := of_record hfound
    · cases hvalue
      exact ⟨hpos, hrequested⟩
    · exact h.sized context' phys' found hold
  · intro context₁ phys₁ found₁ context₂ phys₂ found₂ hfound₁ hfound₂ hne
    obtain ⟨heq₁, hvalue₁⟩ | ⟨_, hold₁⟩ := of_record hfound₁ <;>
      obtain ⟨heq₂, hvalue₂⟩ | ⟨_, hold₂⟩ := of_record hfound₂
    · exact absurd (heq₁.trans heq₂.symm) hne
    · obtain ⟨_, rfl⟩ := Prod.mk.inj heq₁
      cases hvalue₁
      exact (hapart context₂ phys₂ found₂ hold₂).symm
    · obtain ⟨_, rfl⟩ := Prod.mk.inj heq₂
      cases hvalue₂
      exact hapart context₁ phys₁ found₁ hold₁
    · exact h.disjoint _ _ _ _ _ _ hold₁ hold₂ hne
  · intro point hpoint
    have hrange : (offset ≤ point ∧ point < offset + allocation.size) ↔
        (before.physBase + offset ≤ before.physBase + point ∧
          before.physBase + point < before.physBase + offset + allocation.size) := by omega
    rw [hgave.covers, hbefore point (by omega), allocated_record_some hnone, hbase, hrange, not_or]
  · intro address houtside
    rw [allocated_record_some hnone]
    exact or_iff_left (by omega)

/-- A range that a block has taken back is forgotten. -/
theorem Sound.take {entry : ℕ × Node} (hentry : entry ∈ blocks.entries) (hid : entry.2.id = node.id)
    (hlive : live context phys = some allocation) (hfrom : entry.1 ≤ phys)
    (hto : phys + allocation.size ≤ entry.1 + entry.2.block.bitsSize)
    (htook : entry.2.block.Took node.block phys allocation.size) :
    Sound (setBlock node blocks) (record live context phys none) := by
  have hbase := htook.base_eq
  have hbits := htook.bits_eq
  have hkey := h.key_eq entry hentry
  refine h.put (h.puts_setBlock hentry hid hbase hbits htook.ok) ?_ ?_ ?_ ?_ ?_
  · intro context' phys' found hfound
    obtain ⟨_, hvalue⟩ | ⟨_, hold⟩ := of_record hfound
    · cases hvalue
    · exact .inl hold
  · intro context' phys' found hfound
    obtain ⟨_, hvalue⟩ | ⟨_, hold⟩ := of_record hfound
    · cases hvalue
    · exact h.sized context' phys' found hold
  · intro context₁ phys₁ found₁ context₂ phys₂ found₂ hfound₁ hfound₂ hne
    obtain ⟨_, hvalue⟩ | ⟨_, hold₁⟩ := of_record hfound₁
    · cases hvalue
    obtain ⟨_, hvalue⟩ | ⟨_, hold₂⟩ := of_record hfound₂
    · cases hvalue
    exact h.disjoint _ _ _ _ _ _ hold₁ hold₂ hne
  · intro point hpoint
    have hcomplement := h.complement entry hentry point (by omega)
    rw [hkey] at hcomplement
    rw [htook.covers, hcomplement, h.allocated_record_none hlive, hbase]
    tauto
  · intro address houtside
    rw [h.allocated_record_none hlive]
    constructor
    · exact And.left
    · exact fun hallocated ↦ ⟨hallocated, by omega⟩

/-- The pointer of an allocation leads to its block, which takes the range back. -/
theorem Sound.release (hlive : live context phys = some allocation) :
    ∃ node, release phys allocation blocks = some node ∧ (∃ entry ∈ blocks.entries, entry.2.id = node.id) ∧
      Sound (setBlock node blocks) (record live context phys none) := by
  obtain ⟨entry, hentry, howner, hfrom, hto⟩ := h.owned context phys allocation hlive
  have hkey := h.key_eq entry hentry
  have hfind : blocks.entries.find? (fun entry ↦ entry.2.id = allocation.owner) = some entry := by
    cases hfound : blocks.entries.find? (fun entry ↦ entry.2.id = allocation.owner) with
    | none =>
      have hnone := List.find?_eq_none.mp hfound entry hentry
      simp [howner] at hnone
    | some other =>
      have hsame := List.find?_some hfound
      rw [decide_eq_true_eq] at hsame
      rw [h.id_inj other (List.mem_of_find?_eq_some hfound) entry hentry (hsame.trans howner.symm)]
  have hfree : ∀ point, phys ≤ entry.2.block.physBase + point →
      entry.2.block.physBase + point < phys + allocation.size → ¬ Covers entry.2.block.freeSubblocks point := by
    intro point hle hlt hcovers
    refine (h.complement entry hentry point (by omega)).mp hcovers ?_
    exact ⟨context, phys, allocation, hlive, by omega, by omega⟩
  obtain ⟨block, hblock, htook⟩ := (h.ok entry hentry).unallocate (hkey ▸ hfrom) (hkey ▸ hto)
    (h.sized context phys allocation hlive).1 hfree
  refine ⟨⟨entry.2.id, block⟩, ?_, ⟨entry, hentry, rfl⟩, h.take hentry rfl hlive hfrom hto htook⟩
  rw [SharedSlots.release, hfind, bind_some, hblock, map_some]

end

end Update

/-- Only blocks that are in no allocation are dropped. -/
theorem Sound.gcEmptyBlocks (h : Sound blocks live) (allowedEmpty : ℕ) :
    Sound (gcEmptyBlocks allowedEmpty blocks) live := by
  have hmem : ∀ entry ∈ (SharedSlots.gcEmptyBlocks allowedEmpty blocks).entries, entry ∈ blocks.entries :=
    fun entry hentry ↦ (gcFrom_sublist allowedEmpty blocks.entries).subset hentry
  have hdropped : ∀ entry ∈ blocks.entries, entry.2.block.isAllFree = false →
      entry ∈ (SharedSlots.gcEmptyBlocks allowedEmpty blocks).entries := by
    intro entry hentry hfull
    exact mem_gcFrom allowedEmpty hentry hfull
  refine ⟨fun entry hentry ↦ h.key_eq entry (hmem entry hentry), ?_, fun entry hentry ↦ h.ok entry (hmem entry hentry),
    ?_, ?_, h.sized, h.disjoint, fun entry hentry ↦ h.complement entry (hmem entry hentry)⟩
  · intro entry hentry other hother
    exact h.id_inj entry (hmem entry hentry) other (hmem other hother)
  · intro entry hentry other hother
    exact h.regions entry (hmem entry hentry) other (hmem other hother)
  · intro context phys allocation hlive
    obtain ⟨entry, hentry, howner, hfrom, hto⟩ := h.owned context phys allocation hlive
    refine ⟨entry, hdropped entry hentry ?_, howner, hfrom, hto⟩
    -- a block with an allocation is not all free
    have hsize := (h.sized context phys allocation hlive).1
    by_contra hfree
    rw [Bool.not_eq_false, MemBlock.isAllFree, decide_eq_true_eq] at hfree
    have hcovers : Covers entry.2.block.freeSubblocks (phys - entry.1) :=
      ⟨(0, entry.2.block.bitsSize), by rw [hfree]; exact List.mem_singleton_self _, Nat.zero_le _,
        by simp only; omega⟩
    refine (h.complement entry hentry _ (by omega)).mp hcovers ?_
    exact ⟨context, phys, allocation, hlive, by omega, by omega⟩

end Live

/-! ## Pings -/

/-- The map of a context lists its allocations, and the hardware finds room for a block that has to be
made. -/
def Environment {Context : Type} : Ping Context → State Context → Prop
  | .allocate _ size region, state =>
    serve (alignedSize size) state.g_blocks.entries = some none →
      0 < region ∧ region + max (alignedSize size) State.defaultSize < 2 ^ 64 ∧
      ∀ entry ∈ state.g_blocks.entries, entry.1 + entry.2.block.bitsSize ≤ region ∨
        region + max (alignedSize size) State.defaultSize ≤ entry.1
  | .unallocate _ _, _ => True
  | .clear context order, state =>
    (order.map Prod.fst).Nodup ∧ (∀ entry ∈ order, (state.m_allocations context).lookup entry.1 = some entry.2) ∧
      ∀ phys ∈ (state.m_allocations context).keys, phys ∈ order.map Prod.fst

/-- A request that is not empty and does not round up to `2 ^ 32` bytes. -/
def SizeFits {Context : Type} : Ping Context → State Context → Prop
  | .allocate _ size _, _ => 0 < size.toNat ∧ size.toNat ≤ 2 ^ 32 - 4096
  | _, _ => True

theorem alignedSize_bounds {size : UInt64} (hpos : 0 < size.toNat) (hle : size.toNat ≤ 2 ^ 32 - 4096) :
    size.toNat ≤ alignedSize size ∧ alignedSize size < 2 ^ 32 := by
  have hsum : (size + kAlignment).toNat = size.toNat + 4096 := by
    rw [UInt64.toNat_add]
    exact Nat.mod_eq_of_lt (by change size.toNat + 4096 < 2 ^ 64; omega)
  have hless : (size + kAlignment - 1).toNat = size.toNat + 4095 := by
    rw [UInt64.toNat_sub_of_le]
    · rw [hsum]
      rfl
    · rw [UInt64.le_iff_toNat_le, hsum]
      change 1 ≤ size.toNat + 4096
      omega
  have hpages : ((size + kAlignment - 1) / kAlignment).toNat = (size.toNat + 4095) / 4096 := by
    rw [UInt64.toNat_div, hless]
    rfl
  have hbytes : (((size + kAlignment - 1) / kAlignment) * kAlignment).toNat = (size.toNat + 4095) / 4096 * 4096 := by
    rw [UInt64.toNat_mul, hpages]
    exact Nat.mod_eq_of_lt (by change (size.toNat + 4095) / 4096 * 4096 < 2 ^ 64; omega)
  rw [alignedSize, hbytes]
  omega

section Pings

variable {Context : Type} {state : State Context}

/-- The allocation of a context at an address. -/
def State.live (state : State Context) (context : Context) (phys : ℕ) : Option Allocation :=
  (state.m_allocations context).lookup phys

structure State.Sound (state : State Context) : Prop where
  blocks : SharedSlots.Sound state.g_blocks state.live
  ids : ∀ entry ∈ state.g_blocks.entries, entry.2.id < state.nextId

theorem State.sound_new : (State.new : State Context).Sound where
  blocks := by
    have hlive : (State.new : State Context).live = fun _ _ ↦ none := by
      funext context phys
      exact Finmap.lookup_empty phys
    rw [hlive]
    exact sound_empty
  ids := fun _ h ↦ absurd h not_mem_nil

variable [DecidableEq Context]

theorem live_insert (context : Context) (phys : ℕ) (allocation : Allocation) (blocks : OrderedMap ℕ Node)
    (nextId : ℕ) :
    State.live ⟨blocks, Function.update state.m_allocations context
      ((state.m_allocations context).insert phys allocation), nextId⟩ =
      record state.live context phys (some allocation) := by
  funext context' phys'
  simp only [State.live]
  by_cases hcontext : context' = context
  · subst hcontext
    by_cases hphys : phys' = phys
    · subst hphys
      rw [record_self, update_self, Finmap.lookup_insert]
    · have hne : (context', phys') ≠ (context', phys) := fun h ↦ hphys (Prod.mk.inj h).2
      rw [record_of_ne _ hne, update_self, Finmap.lookup_insert_of_ne _ hphys]
      rfl
  · have hne : (context', phys') ≠ (context, phys) := fun h ↦ hcontext (Prod.mk.inj h).1
    rw [record_of_ne _ hne, update_of_ne hcontext]
    rfl

theorem live_erase (context : Context) (phys : ℕ) (blocks : OrderedMap ℕ Node) (nextId : ℕ) :
    State.live ⟨blocks, Function.update state.m_allocations context
      ((state.m_allocations context).erase phys), nextId⟩ = record state.live context phys none := by
  funext context' phys'
  simp only [State.live]
  by_cases hcontext : context' = context
  · subst hcontext
    by_cases hphys : phys' = phys
    · subst hphys
      rw [record_self, update_self, Finmap.lookup_erase]
    · have hne : (context', phys') ≠ (context', phys) := fun h ↦ hphys (Prod.mk.inj h).2
      rw [record_of_ne _ hne, update_self, Finmap.lookup_erase_ne hphys]
      rfl
  · have hne : (context', phys') ≠ (context, phys) := fun h ↦ hcontext (Prod.mk.inj h).1
    rw [record_of_ne _ hne, update_of_ne hcontext]
    rfl

omit [DecidableEq Context] in
variable {context : Context} {region : ℕ} {size : UInt64}

/-- The blocks are asked in turn. -/
theorem serve_spec {requestedSize : ℕ} (hpos : 0 < requestedSize) (hsize : requestedSize < 2 ^ 32)
    (entries : List (ℕ × Node)) (hok : ∀ entry ∈ entries, entry.2.block.Ok) :
    serve requestedSize entries = some none ∨ ∃ entry ∈ entries, ∃ offset next,
        serve requestedSize entries = some (some (entry.2.block.physBase + offset, ⟨entry.2.id, next⟩)) ∧
        entry.2.block.Gave next offset requestedSize := by
  induction entries with
  | nil => exact .inl rfl
  | cons entry rest ih =>
    obtain ⟨key, node⟩ := entry
    have hfirst : node.block.Ok := hok (key, node) mem_cons_self
    obtain ⟨hnone, _⟩ | ⟨offset, next, hsome, hgave⟩ := hfirst.allocate hpos hsize
    · have hrest : serve requestedSize ((key, node) :: rest) = serve requestedSize rest := by
        simp only [serve, hnone, bind_some, ne_eq, not_true_eq_false, if_false]
      rw [hrest]
      obtain hall | ⟨entry, hentry, offset, next, hserve, hgave⟩ :=
        ih fun entry hentry ↦ hok entry (mem_cons_of_mem _ hentry)
      · exact .inl hall
      · exact .inr ⟨entry, mem_cons_of_mem _ hentry, offset, next, hserve, hgave⟩
    · have hbase : node.block.physBase + offset ≠ 0 := by
        have hpos := hfirst.base_pos
        omega
      refine .inr ⟨(key, node), mem_cons_self, offset, next, ?_, hgave⟩
      simp only [serve, hsome, bind_some, ne_eq, hbase, not_false_eq_true, if_true]

theorem populatePhysAddr_eq {physAddr : ℕ} (allocation : Allocation) (h : state.live context physAddr = none) :
    state.populatePhysAddr context physAddr allocation = some { state with
      m_allocations := Function.update state.m_allocations context
        ((state.m_allocations context).insert physAddr allocation) } := by
  have hnone : (state.m_allocations context).lookup physAddr = none := h
  rw [State.populatePhysAddr, hnone, if_neg (by simp)]

/-- A block that was just made is all free. -/
theorem new_eq {sz : ℕ} : MemBlock.new region sz = some ⟨region, sz, empty.add 0 sz rfl⟩ := rfl

theorem entries_new (sz : ℕ) : (empty.add 0 sz rfl : OrderedMap ℕ ℕ).entries = [(0, sz)] := rfl

theorem new_ok {sz : ℕ} (hregion : 0 < region) (hend : region + sz < 2 ^ 64) (hpos : 0 < sz)
    (hsz : sz < 2 ^ 32) : MemBlock.Ok ⟨region, sz, empty.add 0 sz rfl⟩ := by
  refine ⟨hregion, hend, hpos, hsz, ?_⟩
  constructor
  · intro entry hentry
    rw [entries_new, List.mem_singleton] at hentry
    rw [hentry]
    exact hpos
  · intro entry hentry
    rw [entries_new, List.mem_singleton] at hentry
    rw [hentry]
    exact (Nat.zero_add sz).le
  · intro entry hentry other hother hlt
    rw [entries_new, List.mem_singleton] at hentry hother
    rw [hentry, hother] at hlt
    exact absurd hlt (lt_irrefl _)

/-- A request that a block can serve. -/
theorem State.Sound.allocate_served {offset : ℕ} {entry : ℕ × Node} {block : MemBlock} (h : state.Sound)
    (hpos : 0 < alignedSize size) (hrequested : size.toNat ≤ alignedSize size)
    (hentry : entry ∈ state.g_blocks.entries)
    (hserve : serve (alignedSize size) state.g_blocks.entries = some (some (entry.2.block.physBase + offset, ⟨entry.2.id, block⟩)))
    (hgave : entry.2.block.Gave block offset (alignedSize size)) :
    ∃ next, state.allocate context size region = some next ∧ next.Sound := by
  have hkey := h.blocks.key_eq entry hentry
  have hputs : Puts state.g_blocks (setBlock ⟨entry.2.id, block⟩ state.g_blocks) ⟨entry.2.id, block⟩ :=
    h.blocks.puts_setBlock hentry rfl hgave.base_eq hgave.bits_eq hgave.ok
  have hcomplement : ∀ point < entry.2.block.bitsSize, Covers entry.2.block.freeSubblocks point ↔
      ¬ Allocated state.live (entry.2.block.physBase + point) := by
    rw [← hkey]
    exact h.blocks.complement entry hentry
  obtain ⟨hnone, hsound⟩ := h.blocks.give context ⟨alignedSize size, entry.2.id, size.toNat⟩ hputs hgave
    hcomplement hpos rfl hrequested
  have hfree : State.live { state with g_blocks := setBlock ⟨entry.2.id, block⟩ state.g_blocks } context
      (entry.2.block.physBase + offset) = none := hnone
  refine ⟨_, Eq.trans ?_ (populatePhysAddr_eq ⟨alignedSize size, entry.2.id, size.toNat⟩ hfree), ⟨?_, ?_⟩⟩
  · simp only [State.allocate, hserve, Option.bind_eq_bind, bind_some]
  · rw [live_insert]
    exact hsound
  · intro other hother
    obtain ⟨hother, _⟩ | rfl := (hputs.mem other).mp hother
    · exact h.ids other hother
    · exact h.ids entry hentry

/-- A request for which a block has to be made. -/
theorem State.Sound.allocate_new (h : state.Sound) (hpos : 0 < alignedSize size)
    (hsmall : alignedSize size < 2 ^ 32) (hrequested : size.toNat ≤ alignedSize size)
    (hserve : serve (alignedSize size) state.g_blocks.entries = some none) (hregion : 0 < region)
    (hend : region + max (alignedSize size) State.defaultSize < 2 ^ 64)
    (hroom : ∀ entry ∈ state.g_blocks.entries, entry.1 + entry.2.block.bitsSize ≤ region ∨ region + max (alignedSize size) State.defaultSize ≤ entry.1) :
    ∃ next, state.allocate context size region = some next ∧ next.Sound := by
  have hleft := le_max_left (alignedSize size) State.defaultSize
  have hdefault : max (alignedSize size) State.defaultSize < 2 ^ 32 := max_lt hsmall (by decide)
  have hok := new_ok hregion hend (by omega) hdefault
  obtain ⟨_, hfull⟩ | ⟨offset, block, hallocate, hgave⟩ := hok.allocate hpos hsmall
  · have htoosmall := hfull (0, max (alignedSize size) State.defaultSize) (by simp [entries_new])
    simp only at htoosmall
    omega
  have hbase : block.physBase = region := hgave.base_eq
  have hbits : block.bitsSize = max (alignedSize size) State.defaultSize := hgave.bits_eq
  have hunused : state.g_blocks.find region = none := by
    refine find_eq_none.mpr fun entry hentry heq ↦ ?_
    have hsize := (h.blocks.ok entry hentry).size_pos
    have hapart := hroom entry hentry
    omega
  have hputs : Puts state.g_blocks (state.g_blocks.add region ⟨state.nextId, block⟩ hunused)
      ⟨state.nextId, block⟩ := by
    refine ⟨fun entry ↦ ?_, hgave.ok, fun entry hentry hid ↦ ?_, fun entry hentry _ ↦ ?_⟩
    · rw [mem_add, hbase, or_comm]
      have hold : entry ∈ state.g_blocks.entries ↔ entry ∈ state.g_blocks.entries ∧ entry.2.id ≠ state.nextId :=
        ⟨fun hentry ↦ ⟨hentry, (h.ids entry hentry).ne⟩, And.left⟩
      rw [← hold]
    · exact absurd hid (h.ids entry hentry).ne
    · have hapart := hroom entry hentry
      simp only
      omega
  -- before it gives anything away, every address of the new block is free
  have hcomplement : ∀ point < max (alignedSize size) State.defaultSize,
      Covers (empty.add 0 (max (alignedSize size) State.defaultSize) rfl) point ↔
        ¬ Allocated state.live (region + point) := by
    intro point hpoint
    refine iff_of_true ?_ fun hallocated ↦ ?_
    · exact (covers_add rfl).mpr (.inr ⟨Nat.zero_le _, by omega⟩)
    · obtain ⟨entry, hentry, hfrom, hto⟩ := h.blocks.region_of_allocated hallocated
      have hapart := hroom entry hentry
      omega
  obtain ⟨hnone, hsound⟩ := h.blocks.give context ⟨alignedSize size, state.nextId, size.toNat⟩ hputs hgave
    hcomplement hpos rfl hrequested
  have hfree : State.live ⟨state.g_blocks.add region ⟨state.nextId, block⟩ hunused, state.m_allocations,
      state.nextId + 1⟩ context (region + offset) = none := hnone
  have haddress : region + offset ≠ 0 := by omega
  refine ⟨_, Eq.trans ?_ (populatePhysAddr_eq ⟨alignedSize size, state.nextId, size.toNat⟩ hfree), ⟨?_, ?_⟩⟩
  · simp only [State.allocate, hserve, Option.bind_eq_bind, bind_some, new_eq, hallocate, if_neg haddress,
      OrderedMap.insert, dif_pos hunused]
  · rw [live_insert]
    exact hsound
  · intro other hother
    obtain ⟨hother, _⟩ | rfl := (hputs.mem other).mp hother
    · exact (h.ids other hother).trans (Nat.lt_succ_self _)
    · exact Nat.lt_succ_self _

theorem State.Sound.allocate (h : state.Sound) (henvironment : Environment (.allocate context size region) state)
    (hfits : SizeFits (.allocate context size region) state) :
    ∃ next, state.allocate context size region = some next ∧ next.Sound := by
  obtain ⟨hpos, hle⟩ := hfits
  obtain ⟨hrequested, hsmall⟩ := alignedSize_bounds hpos hle
  have haligned : 0 < alignedSize size := by omega
  obtain hserve | ⟨entry, hentry, offset, block, hserve, hgave⟩ :=
    serve_spec haligned hsmall state.g_blocks.entries h.blocks.ok
  · obtain ⟨hregion, hend, hroom⟩ := henvironment hserve
    exact h.allocate_new haligned hsmall hrequested hserve hregion hend hroom
  · exact h.allocate_served haligned hrequested hentry hserve hgave

omit [DecidableEq Context] in
/-- Changing a block in place keeps the ids. -/
theorem State.Sound.ids_setBlock {node : Node} (h : state.Sound)
    (hnode : ∃ entry ∈ state.g_blocks.entries, entry.2.id = node.id) :
    ∀ entry ∈ (setBlock node state.g_blocks).entries, entry.2.id < state.nextId := by
  intro entry hentry
  obtain ⟨old, hold, rfl⟩ := mem_setBlock.mp hentry
  obtain ⟨own, hown, hid⟩ := hnode
  simp only
  split_ifs
  · rw [← hid]
    exact h.ids own hown
  · exact h.ids old hold

theorem State.Sound.unallocate (h : state.Sound) (context : Context) (physAddr : ℕ) :
    ∃ next, state.unallocate context physAddr = some next ∧ next.Sound := by
  unfold State.unallocate
  cases hlookup : (state.m_allocations context).lookup physAddr with
  | none => exact ⟨state, rfl, h⟩
  | some allocation =>
    obtain ⟨node, hrelease, hnode, hsound⟩ := h.blocks.release hlookup
    simp only [hrelease, map_some]
    refine ⟨_, rfl, ?_, ?_⟩
    · rw [live_erase]
      simp only
      split_ifs
      · exact hsound.gcEmptyBlocks 1
      · exact hsound
    · simp only
      split_ifs
      · intro entry hentry
        exact h.ids_setBlock hnode entry ((gcFrom_sublist _ _).subset hentry)
      · exact h.ids_setBlock hnode

/-- The allocations of a context at the listed addresses are forgotten. -/
def forget (live : Context → ℕ → Option Allocation) (context : Context) (addresses : List ℕ) :
    Context → ℕ → Option Allocation :=
  fun context' phys ↦ if context' = context ∧ phys ∈ addresses then none else live context' phys

theorem forget_cons (live : Context → ℕ → Option Allocation) (context : Context) (phys : ℕ) (addresses : List ℕ) :
    forget (record live context phys none) context addresses = forget live context (phys :: addresses) := by
  funext context' phys'
  unfold forget
  by_cases heq : (context', phys') = (context, phys)
  · cases heq
    rw [record_self]
    simp
  · rw [record_of_ne _ heq]
    have hmem : (context' = context ∧ phys' ∈ phys :: addresses) ↔ (context' = context ∧ phys' ∈ addresses) := by
      constructor
      · rintro ⟨rfl, hmem⟩
        refine ⟨rfl, (List.mem_cons.mp hmem).resolve_left fun hphys ↦ heq (by rw [hphys])⟩
      · rintro ⟨hcontext, hmem⟩
        exact ⟨hcontext, mem_cons_of_mem _ hmem⟩
    simp only [hmem]

/-- The allocations of a context go back one after the other. -/
theorem Sound.releaseAll {blocks : OrderedMap ℕ Node} {live : Context → ℕ → Option Allocation}
    {context : Context} {order : List (ℕ × Allocation)} (h : Sound blocks live)
    (hnodup : (order.map Prod.fst).Nodup)
    (hlive : ∀ entry ∈ order, live context entry.1 = some entry.2) :
    ∃ next, releaseAll order blocks = some next ∧ Sound next (forget live context (order.map Prod.fst)) ∧
      ∀ entry ∈ next.entries, ∃ old ∈ blocks.entries, old.2.id = entry.2.id := by
  induction order generalizing blocks live with
  | nil =>
    refine ⟨blocks, rfl, ?_, fun entry hentry ↦ ⟨entry, hentry, rfl⟩⟩
    have hsame : forget live context [] = live := by
      funext context' phys
      simp [forget]
    rw [List.map_nil, hsame]
    exact h
  | cons first rest ih =>
    obtain ⟨phys, allocation⟩ := first
    rw [List.map_cons, List.nodup_cons] at hnodup
    obtain ⟨hnot, hnodup⟩ := hnodup
    obtain ⟨node, hrelease, ⟨own, hown, hid⟩, hsound⟩ := h.release (hlive (phys, allocation) mem_cons_self)
    have hrest : ∀ entry ∈ rest, record live context phys none context entry.1 = some entry.2 := by
      intro entry hentry
      have hne : (context, entry.1) ≠ (context, phys) := by
        intro heq
        have hmem : entry.1 ∈ rest.map Prod.fst := List.mem_map_of_mem hentry
        rw [(Prod.mk.inj heq).2] at hmem
        exact hnot hmem
      rw [record_of_ne _ hne]
      exact hlive entry (mem_cons_of_mem _ hentry)
    obtain ⟨next, hnext, hsound', hids⟩ := ih hsound hnodup hrest
    refine ⟨next, ?_, ?_, fun entry hentry ↦ ?_⟩
    · rw [SharedSlots.releaseAll, hrelease, bind_some, hnext]
    · rw [List.map_cons, ← forget_cons]
      exact hsound'
    · obtain ⟨middle, hmiddle, heq⟩ := hids entry hentry
      obtain ⟨old, hold, rfl⟩ := mem_setBlock.mp hmiddle
      simp only at heq
      split_ifs at heq
      · exact ⟨own, hown, hid.trans heq⟩
      · exact ⟨old, hold, heq⟩

theorem State.Sound.clear {context : Context} {order : List (ℕ × Allocation)} (h : state.Sound)
    (henvironment : Environment (.clear context order) state) :
    ∃ next, state.clear context order = some next ∧ next.Sound := by
  obtain ⟨hnodup, hlisted, hall⟩ := henvironment
  obtain ⟨blocks, hblocks, hsound, hids⟩ := h.blocks.releaseAll hnodup hlisted
  refine ⟨{ state with
      g_blocks := blocks, m_allocations := Function.update state.m_allocations context ∅ }, ?_, ?_, ?_⟩
  · rw [State.clear, hblocks, map_some]
  · have hlive : State.live { state with
        g_blocks := blocks, m_allocations := Function.update state.m_allocations context ∅ } =
        forget state.live context (order.map Prod.fst) := by
      funext context' phys
      simp only [State.live, forget]
      by_cases hcontext : context' = context
      · subst hcontext
        have hempty : (∅ : Finmap fun _ : ℕ ↦ Allocation).lookup phys = none := Finmap.lookup_empty phys
        rw [update_self, hempty]
        split_ifs with hmem
        · rfl
        · have hnone : (state.m_allocations context').lookup phys = none :=
            Finmap.lookup_eq_none.mpr fun hin ↦ hmem ⟨rfl, hall phys (Finmap.mem_keys.mpr hin)⟩
          exact hnone.symm
      · rw [update_of_ne hcontext, if_neg fun h ↦ hcontext h.1]
    rw [hlive]
    exact hsound
  · intro entry hentry
    obtain ⟨old, hold, hid⟩ := hids entry hentry
    rw [← hid]
    exact h.ids old hold

theorem State.Sound.step {ping : Ping Context} (h : state.Sound) (henvironment : Environment ping state)
    (hfits : SizeFits ping state) : ∃ next, step ping state = some next ∧ next.Sound := by
  cases ping with
  | allocate context size region => exact h.allocate henvironment hfits
  | unallocate context physAddr => exact h.unallocate context physAddr.toNat
  | clear context order => exact h.clear henvironment

/-- As long as the sizes fit, the emulator does not die; every allocation is at least what was asked for,
not empty, and inside a block of `g_blocks` that its owner points to; no two allocations overlap; and
the free ranges of a block are coalesced and hold the addresses that are in no allocation. -/
theorem allocations_sound_of_sizeFits (pings : List (Ping Context))
    (henvironment : Guarded step Environment State.new pings)
    (hfits : Guarded step SizeFits State.new pings) :
    ∃ state, run step State.new pings = some state ∧
      (∀ context phys allocation, state.live context phys = some allocation →
        0 < allocation.size ∧ allocation.requested ≤ allocation.size ∧
        ∃ entry ∈ state.g_blocks.entries, entry.2.id = allocation.owner ∧
          entry.2.block.physBase ≤ phys ∧
          phys + allocation.size ≤ entry.2.block.physBase + entry.2.block.bitsSize) ∧
      (∀ context phys allocation context' phys' allocation', state.live context phys = some allocation →
        state.live context' phys' = some allocation' → (context, phys) ≠ (context', phys') →
          phys + allocation.size ≤ phys' ∨ phys' + allocation'.size ≤ phys) ∧
      ∀ entry ∈ state.g_blocks.entries, Coalesced entry.2.block.bitsSize entry.2.block.freeSubblocks ∧
        ∀ point < entry.2.block.bitsSize, Covers entry.2.block.freeSubblocks point ↔
          ¬ Allocated state.live (entry.2.block.physBase + point) := by
  obtain ⟨state, hrun, h⟩ := exists_run_of_guarded State.Sound
    (fun _ _ h hguard ↦ h.step hguard.1 hguard.2) State.sound_new (guarded_and henvironment hfits)
  refine ⟨state, hrun, ?_, h.blocks.disjoint, fun entry hentry ↦ ⟨(h.blocks.ok entry hentry).coalesced, ?_⟩⟩
  · intro context phys allocation hlive
    obtain ⟨hpos, hrequested⟩ := h.blocks.sized context phys allocation hlive
    obtain ⟨entry, hentry, howner, hfrom, hto⟩ := h.blocks.owned context phys allocation hlive
    rw [h.blocks.key_eq entry hentry] at hfrom hto
    exact ⟨hpos, hrequested, entry, hentry, howner, hfrom, hto⟩
  · rw [← h.blocks.key_eq entry hentry]
    exact h.blocks.complement entry hentry

end Pings

instance decidableEqSomeNone {Value : Type} : (found : Option (Option Value)) → Decidable (found = some none)
  | none => isFalse nofun
  | some none => isTrue rfl
  | some (some _) => isFalse nofun

instance {Context : Type} : (ping : Ping Context) → (state : State Context) → Decidable (Environment ping state)
  | .allocate _ size region, state => inferInstanceAs (Decidable
      (serve (alignedSize size) state.g_blocks.entries = some none →
        0 < region ∧ region + max (alignedSize size) State.defaultSize < 2 ^ 64 ∧
        ∀ entry ∈ state.g_blocks.entries, entry.1 + entry.2.block.bitsSize ≤ region ∨
          region + max (alignedSize size) State.defaultSize ≤ entry.1))
  | .unallocate _ _, _ => isTrue trivial
  | .clear context order, state => inferInstanceAs (Decidable
      ((order.map Prod.fst).Nodup ∧ (∀ entry ∈ order, (state.m_allocations context).lookup entry.1 = some entry.2) ∧
        ∀ phys ∈ (state.m_allocations context).keys, phys ∈ order.map Prod.fst))

instance {Context : Type} : (ping : Ping Context) → (state : State Context) → Decidable (SizeFits ping state)
  | .allocate _ size _, _ => inferInstanceAs (Decidable (0 < size.toNat ∧ size.toNat ≤ 2 ^ 32 - 4096))
  | .unallocate _ _, _ => isTrue trivial
  | .clear _ _, _ => isTrue trivial

/-- Three contexts share a block; one gives its range back, and another one is destroyed. -/
def threeContexts : List (Ping (Fin 3)) :=
  [.allocate 0 1 0x100000, .allocate 1 5000 0, .allocate 2 4096 0, .unallocate 1 0x101000,
    .clear 0 [(0x100000, ⟨4096, 0, 1⟩)]]

theorem allocations_sound_threeContexts :
    ∃ state, run step State.new threeContexts = some state ∧
      state.live 2 0x103000 = some ⟨4096, 0, 4096⟩ ∧
      (∃ entry ∈ state.g_blocks.entries, entry.2.id = 0 ∧ entry.2.block.physBase ≤ 0x103000) ∧
      ∃ entry ∈ state.g_blocks.entries,
        entry.2.block.freeSubblocks.entries = [(0, 12288), (16384, 67092480)] ∧
        Coalesced entry.2.block.bitsSize entry.2.block.freeSubblocks := by
  have henvironment : Guarded step Environment State.new threeContexts := by decide +kernel
  have hfits : Guarded step SizeFits State.new threeContexts := by decide +kernel
  obtain ⟨state, hrun, howned, _, hfree⟩ := allocations_sound_of_sizeFits threeContexts henvironment hfits
  have hfields : (run step State.new threeContexts).map (fun state ↦
      (state.live 2 0x103000, state.g_blocks.entries.map fun entry ↦ entry.2.block.freeSubblocks.entries)) =
      some (some ⟨4096, 0, 4096⟩, [[(0, 12288), (16384, 67092480)]]) := by decide +kernel
  rw [hrun, map_some, Option.some.injEq, Prod.mk.injEq] at hfields
  obtain ⟨hlive, hblocks⟩ := hfields
  obtain ⟨_, _, owner, howner, hid, hbase, _⟩ := howned 2 0x103000 _ hlive
  have hmem : [(0, 12288), (16384, 67092480)] ∈
      state.g_blocks.entries.map fun entry ↦ entry.2.block.freeSubblocks.entries := by
    rw [hblocks]
    exact List.mem_singleton_self _
  obtain ⟨entry, hentry, hsubblocks⟩ := List.mem_map.mp hmem
  exact ⟨state, hrun, hlive, ⟨owner, howner, hid, hbase⟩, entry, hentry, hsubblocks, (hfree entry hentry).1⟩

/-- Two empty requests get the same address, and the emulator dies when it enters the second one. -/
theorem emptyRequest_dies :
    Guarded step Environment State.new [.allocate () 0 0x100000, .allocate () 0 0] ∧
      run step State.new [.allocate () 0 0x100000, .allocate () 0 0] = none := by
  constructor <;> decide +kernel

end FdeEmugl.SharedSlots
