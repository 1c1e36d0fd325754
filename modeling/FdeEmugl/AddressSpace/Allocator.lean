import FdeEmugl.Library.Runs
import FdeEmugl.Library.Tiling
import Mathlib.Algebra.Group.Nat.Defs
import Mathlib.Data.List.Nodup

/-!
# The address space allocator

`address_space_allocator` hands out ranges of `[0, total)`. Its blocks tile the
interval; a request takes the end of the smallest available block that is large
enough, and a range that is given back is merged with the available blocks next
to it. The array of blocks is doubled when it is full.

A block keeps its size in 63 bits beside the flag, so the results are for totals
below `2 ^ 63`. Offsets and sizes are numbers that are reduced where the source
stores them in 63 or 64 bits; a failed assertion has no result.
-/

namespace FdeEmugl.AddressSpace

open Runs Tiling
open Option (bind_eq_bind bind_eq_some_iff bind_some ite_none_right_eq_some map_eq_some_iff map_map map_some)
open List (append_assoc length_append length_cons mem_cons nil_append)

/-! ## Blocks -/

structure Block where
  offset : ℕ
  size : ℕ
  available : Bool
  deriving DecidableEq

structure Allocator where
  blocks : List Block
  capacity : ℕ
  total_bytes : ℕ
  deriving DecidableEq

def ANDROID_EMU_ADDRESS_SPACE_BAD_OFFSET : ℕ := 2 ^ 64 - 1

def EINVAL : ℕ := 22

/-- What is stored in the 63 bits of `size`. -/
def stored (size : ℕ) : ℕ := size % 2 ^ 63

/-- The loop of `find_available_block`, with the best block so far and its size. -/
def findFrom (size_at_least : ℕ) : ℕ → Option (ℕ × ℕ) → List Block → Option (ℕ × ℕ)
  | _, best, [] => best
  | i, best, block :: blocks =>
    if size_at_least ≤ block.size ∧ block.available = true ∧ (∀ found ∈ best, block.size < found.2) then
      findFrom size_at_least (i + 1) (some (i, block.size)) blocks
    else findFrom size_at_least (i + 1) best blocks

/-- The index of the smallest available block of at least this size. -/
def find_available_block (blocks : List Block) (size_at_least : ℕ) : Option (Option ℕ) :=
  if 1 ≤ blocks.length ∧ ∀ block ∈ blocks, 0 < block.size then
    some ((findFrom size_at_least 0 none blocks).map Prod.fst)
  else none

/-- The sum of two `int`s, if it is one. -/
def grow_capacity (old_capacity : ℕ) : Option ℕ :=
  if 1 ≤ old_capacity ∧ old_capacity + old_capacity < 2 ^ 31 then some (old_capacity + old_capacity)
  else none

/-- The `count` blocks from `i` on make place for others; what is behind them is moved. -/
def replace (blocks : List Block) (i count : ℕ) (others : List Block) : List Block :=
  blocks.take i ++ others ++ blocks.drop (i + count)

def split_block (allocator : Allocator) (i size : ℕ) : Option Allocator := do
  let to_borrow_from ← allocator.blocks[i]?
  if 1 ≤ allocator.capacity ∧ allocator.blocks.length ≤ allocator.capacity ∧ size < to_borrow_from.size then
    let capacity ←
      if allocator.blocks.length = allocator.capacity then grow_capacity allocator.capacity
      else some allocator.capacity
    let new_size := to_borrow_from.size - size
    let new_block : Block :=
      { offset := (to_borrow_from.offset + new_size) % 2 ^ 64, size := stored size, available := true }
    return { allocator with
      blocks := replace allocator.blocks i 1 [{ to_borrow_from with size := stored new_size }, new_block]
      capacity }
  else none

/-- The block at an index, if there is one and it is available. -/
def neighbour (blocks : List Block) (i : ℕ) : Option Block := blocks[i]?.filter Block.available

def release_block (allocator : Allocator) (i : ℕ) : Option Allocator :=
  allocator.blocks[i]?.map fun block ↦
    let before := if 0 < i then neighbour allocator.blocks (i - 1) else none
    let after := neighbour allocator.blocks (i + 1)
    { allocator with
      blocks := match before, after with
        | some before, some after =>
          replace allocator.blocks (i - 1) 3
            [{ before with size := stored (before.size + (block.size + after.size)) }]
        | some before, none =>
          replace allocator.blocks (i - 1) 2 [{ before with size := stored (before.size + block.size) }]
        | none, some after =>
          replace allocator.blocks i 2
            [{ block with size := stored (block.size + after.size), available := true }]
        | none, none => replace allocator.blocks i 1 [{ block with available := true }] }

/-- The offset that is returned, and the allocator afterwards. -/
def allocate (allocator : Allocator) (size : ℕ) : Option (ℕ × Allocator) := do
  match ← find_available_block allocator.blocks size with
  | none => return (ANDROID_EMU_ADDRESS_SPACE_BAD_OFFSET, allocator)
  | some i =>
    let block ← allocator.blocks[i]?
    if size ≤ block.size then
      let (allocator, i) ←
        if size < block.size then (split_block allocator i size).map fun next ↦ (next, i + 1)
        else some (allocator, i)
      let block ← allocator.blocks[i]?
      if block.size = size then
        return (block.offset,
          { allocator with blocks := replace allocator.blocks i 1 [{ block with available := false }] })
      else none
    else none

/-- The error that is returned, and the allocator afterwards. -/
def deallocate (allocator : Allocator) (offset : ℕ) : Option (ℕ × Allocator) :=
  if 1 ≤ allocator.blocks.length then
    match allocator.blocks.findIdx? fun block ↦ block.offset = offset with
    | none => some (EINVAL, allocator)
    | some i =>
      if (neighbour allocator.blocks i).isSome then some (EINVAL, allocator)
      else (release_block allocator i).map fun next ↦ (0, next)
  else none

def init (size initial_capacity : ℕ) : Option Allocator :=
  if 1 ≤ initial_capacity then
    some { blocks := [⟨0, stored size, true⟩], capacity := initial_capacity, total_bytes := size }
  else none

def reset (allocator : Allocator) : Option Allocator :=
  if 1 ≤ allocator.blocks.length then
    some { allocator with blocks := [⟨0, stored allocator.total_bytes, true⟩] }
  else none

/-- Whether the assertions of `destroy` hold. -/
def destroys (allocator : Allocator) : Prop :=
  allocator.blocks.length = 1 ∧ allocator.blocks.length ≤ allocator.capacity ∧ (neighbour allocator.blocks 0).isSome

/-! ## Runs -/

/-- The arguments are 64-bit numbers. -/
inductive Call where
  | allocate (size : UInt64)
  | deallocate (offset : UInt64)
  | reset

/-- The ranges that were returned and not given back, beside the allocator. -/
structure State where
  allocator : Allocator
  held : List (ℕ × ℕ)

def step : Call → State → Option State
  | .allocate size, state =>
    (allocate state.allocator size.toNat).map fun (offset, next) ↦
      { allocator := next
        held := if offset = ANDROID_EMU_ADDRESS_SPACE_BAD_OFFSET then state.held
          else (offset, size.toNat) :: state.held }
  | .deallocate offset, state =>
    (deallocate state.allocator offset.toNat).map fun (error, next) ↦
      { allocator := next
        held := if error = 0 then state.held.filter fun range ↦ range.1 ≠ offset.toNat else state.held }
  | .reset, state => (reset state.allocator).map fun next ↦ { allocator := next, held := [] }

/-- Only sizes above 0 are asked for. -/
def AsksForSome : Call → State → Prop
  | .allocate size, _ => 0 < size.toNat
  | _, _ => True

/-! ## What the operations do -/

/-- A request of `size` bytes can be served from the block. -/
def Fits (size : ℕ) (block : Block) : Prop := size ≤ block.size ∧ block.available = true

section Operations

variable {allocator next : Allocator} {front back : List Block} {block : Block} {size offset : ℕ}

theorem replace_eq (front middle back others : List Block) :
    replace (front ++ middle ++ back) front.length middle.length others = front ++ others ++ back := by
  have hdrop : (front ++ middle ++ back).drop (front.length + middle.length) = back := by
    rw [← length_append, List.drop_left]
  rw [replace, hdrop, append_assoc front middle, List.take_left]

theorem findFrom_spec (size i : ℕ) (best : Option (ℕ × ℕ)) (blocks : List Block) :
    (findFrom size i best blocks = best ∧ ∀ block ∈ blocks, Fits size block → ∃ found ∈ best, found.2 ≤ block.size) ∨
    ∃ front block back, blocks = front ++ block :: back ∧
      findFrom size i best blocks = some (i + front.length, block.size) ∧ Fits size block ∧
      (∀ found ∈ best, block.size < found.2) ∧
      ∀ other ∈ blocks, Fits size other → block.size ≤ other.size := by
  induction blocks generalizing i best with
  | nil => exact .inl ⟨rfl, fun _ h ↦ absurd h List.not_mem_nil⟩
  | cons head blocks ih =>
    rw [findFrom]
    by_cases hhead : size ≤ head.size ∧ head.available = true ∧ ∀ found ∈ best, head.size < found.2
    · rw [if_pos hhead]
      obtain ⟨hsize, havailable, hbest⟩ := hhead
      right
      obtain ⟨hsame, hrest⟩ | ⟨front, block, back, rfl, hfound, hfits, hless, hmin⟩ :=
        ih (i + 1) (some (i, head.size))
      · refine ⟨[], head, blocks, rfl, hsame, ⟨hsize, havailable⟩, hbest, ?_⟩
        intro other hother hfits
        rcases mem_cons.mp hother with rfl | hother
        · exact le_rfl
        · obtain ⟨found, hfound, hle⟩ := hrest other hother hfits
          cases hfound
          exact hle
      · have hlt := hless (i, head.size) rfl
        refine ⟨head :: front, block, back, rfl, ?_, hfits, ?_, ?_⟩
        · rw [hfound, length_cons]
          congr 2
          omega
        · exact fun found hin ↦ hlt.trans (hbest found hin)
        · intro other hother hother'
          rcases mem_cons.mp hother with rfl | hother
          · exact hlt.le
          · exact hmin other hother hother'
    · rw [if_neg hhead]
      -- a block that is passed over is too small, taken, or not smaller than the best one
      have hpassed : Fits size head → ∃ found ∈ best, found.2 ≤ head.size := by
        rintro ⟨hsize, havailable⟩
        by_contra hnone
        refine hhead ⟨hsize, havailable, fun found hfound ↦ ?_⟩
        by_contra hle
        exact hnone ⟨found, hfound, not_lt.mp hle⟩
      obtain ⟨hsame, hrest⟩ | ⟨front, block, back, rfl, hfound, hfits, hless, hmin⟩ :=
        ih (i + 1) best
      · refine .inl ⟨hsame, fun other hother hfits ↦ ?_⟩
        rcases mem_cons.mp hother with rfl | hother
        · exact hpassed hfits
        · exact hrest other hother hfits
      · refine .inr ⟨head :: front, block, back, rfl, ?_, hfits, hless, ?_⟩
        · rw [hfound, length_cons]
          congr 2
          omega
        · intro other hother hother'
          rcases mem_cons.mp hother with rfl | hother
          · obtain ⟨found, hfound', hle⟩ := hpassed hother'
            exact ((hless found hfound').trans_le hle).le
          · exact hmin other hother hother'

/-- What the loops rely on: there are blocks, none is empty, and none ends behind `2 ^ 63`. -/
structure WellFormed (blocks : List Block) : Prop where
  nonempty : 1 ≤ blocks.length
  size_pos : ∀ block ∈ blocks, 0 < block.size
  end_lt : ∀ block ∈ blocks, block.offset + block.size < 2 ^ 63

theorem find_available_block_spec {blocks : List Block} (h : WellFormed blocks) (size : ℕ) :
    (find_available_block blocks size = some none ∧ ∀ block ∈ blocks, ¬ Fits size block) ∨
    ∃ front block back, blocks = front ++ block :: back ∧
      find_available_block blocks size = some (some front.length) ∧ Fits size block ∧
      ∀ other ∈ blocks, Fits size other → block.size ≤ other.size := by
  rw [find_available_block, if_pos ⟨h.nonempty, h.size_pos⟩]
  obtain ⟨hsame, hrest⟩ | ⟨front, block, back, hblocks, hfound, hfits, _, hmin⟩ :=
    findFrom_spec size 0 none blocks
  · refine .inl ⟨by rw [hsame]; rfl, fun block hblock hfits ↦ ?_⟩
    obtain ⟨found, hnone, _⟩ := hrest block hblock hfits
    cases hnone
  · refine .inr ⟨front, block, back, hblocks, ?_, hfits, hmin⟩
    rw [hfound, map_some, Nat.zero_add]

/-- The capacity after one more block was made. -/
def grown (allocator : Allocator) : Option ℕ :=
  if allocator.blocks.length = allocator.capacity then grow_capacity allocator.capacity
  else some allocator.capacity

theorem getElem_length (front : List Block) (block : Block) (back : List Block) :
    (front ++ block :: back)[front.length]? = some block := by
  simp

theorem split_block_eq (hblocks : allocator.blocks = front ++ block :: back)
    (hend : block.offset + block.size < 2 ^ 63) (hcapacity : allocator.blocks.length ≤ allocator.capacity)
    (hsize : size < block.size) :
    split_block allocator front.length size = (grown allocator).map fun capacity ↦
      { allocator with
        blocks := front ++ { block with size := block.size - size } ::
          ⟨block.offset + (block.size - size), size, true⟩ :: back
        capacity } := by
  have hpos : 1 ≤ allocator.blocks.length := by
    rw [hblocks, length_append, length_cons]
    omega
  have hnew : stored (block.size - size) = block.size - size := Nat.mod_eq_of_lt (by omega)
  have hold : stored size = size := Nat.mod_eq_of_lt (by omega)
  have hoffset : (block.offset + (block.size - size)) % 2 ^ 64 = block.offset + (block.size - size) :=
    Nat.mod_eq_of_lt (by omega)
  have hreplace := replace_eq front [block] back
    [{ block with size := block.size - size }, ⟨block.offset + (block.size - size), size, true⟩]
  rw [append_assoc, List.singleton_append, ← hblocks, List.length_singleton] at hreplace
  have hat : allocator.blocks[front.length]? = some block := hblocks ▸ getElem_length front block back
  simp only [split_block, hat, bind_eq_bind, bind_some, hnew, hold, hoffset, hreplace]
  rw [if_pos ⟨by omega, hcapacity, hsize⟩]
  unfold grown
  split_ifs with hfull
  · cases grow_capacity allocator.capacity <;> simp
  · simp

/-- Taking a whole block. -/
theorem allocate_whole (hblocks : allocator.blocks = front ++ block :: back)
    (hfind : find_available_block allocator.blocks block.size = some (some front.length)) :
    allocate allocator block.size = some (block.offset,
      { allocator with blocks := front ++ { block with available := false } :: back }) := by
  have hat : allocator.blocks[front.length]? = some block := hblocks ▸ getElem_length front block back
  have hreplace := replace_eq front [block] back [{ block with available := false }]
  rw [append_assoc, List.singleton_append, ← hblocks, List.length_singleton] at hreplace
  simp [allocate, hfind, hat, hreplace]

/-- Taking the end of a block. -/
theorem allocate_part (h : WellFormed allocator.blocks) (hblocks : allocator.blocks = front ++ block :: back)
    (hcapacity : allocator.blocks.length ≤ allocator.capacity) (hsize : size < block.size)
    (hfind : find_available_block allocator.blocks size = some (some front.length)) :
    allocate allocator size = (grown allocator).map fun capacity ↦
      (block.offset + (block.size - size), { allocator with
          blocks := front ++ { block with size := block.size - size } ::
            ⟨block.offset + (block.size - size), size, false⟩ :: back
          capacity }) := by
  have hat : allocator.blocks[front.length]? = some block := hblocks ▸ getElem_length front block back
  have hend : block.offset + block.size < 2 ^ 63 := h.end_lt block (by simp [hblocks])
  have hsplit := split_block_eq hblocks hend hcapacity hsize
  have hreplace := replace_eq (front ++ [{ block with size := block.size - size }])
    [⟨block.offset + (block.size - size), size, true⟩] back
    [⟨block.offset + (block.size - size), size, false⟩]
  simp only [append_assoc, length_append, List.length_singleton, nil_append,
    List.cons_append] at hreplace
  simp only [allocate, hfind, bind_eq_bind, bind_some, hat, if_pos hsize.le, if_pos hsize, hsplit, map_map]
  cases grown allocator with
  | none => rfl
  | some capacity => simp [hreplace]

section

variable (h : WellFormed allocator.blocks) (hcapacity : allocator.blocks.length ≤ allocator.capacity)
include h hcapacity

/-- What a request can lead to. -/
theorem allocate_cases (hallocate : allocate allocator size = some (offset, next)) :
    (offset = ANDROID_EMU_ADDRESS_SPACE_BAD_OFFSET ∧ next = allocator ∧
      ∀ block ∈ allocator.blocks, ¬ Fits size block) ∨
    ∃ front block back, allocator.blocks = front ++ block :: back ∧ Fits size block ∧
      (∀ other ∈ allocator.blocks, Fits size other → block.size ≤ other.size) ∧
      offset + size = block.offset + block.size ∧
      ((size = block.size ∧ next = { allocator with blocks := front ++ { block with available := false } :: back }) ∨
        (size < block.size ∧ ∃ capacity, allocator.blocks.length < capacity ∧ next =
          { allocator with
            blocks := front ++ { block with size := block.size - size } :: ⟨offset, size, false⟩ :: back
            capacity })) := by
  obtain ⟨hfind, hnone⟩ | ⟨front, block, back, hblocks, hfind, hfits, hmin⟩ :=
    find_available_block_spec h size
  · simp only [allocate, hfind, bind_eq_bind, bind_some, Option.pure_def, Option.some.injEq,
      Prod.mk.injEq] at hallocate
    exact .inl ⟨hallocate.1.symm, hallocate.2.symm, hnone⟩
  · refine .inr ⟨front, block, back, hblocks, hfits, hmin, ?_⟩
    rcases hfits.1.eq_or_lt with rfl | hsize
    · rw [allocate_whole hblocks hfind, Option.some.injEq, Prod.mk.injEq] at hallocate
      obtain ⟨rfl, rfl⟩ := hallocate
      exact ⟨rfl, .inl ⟨rfl, rfl⟩⟩
    · rw [allocate_part h hblocks hcapacity hsize hfind, map_eq_some_iff] at hallocate
      obtain ⟨capacity, hgrown, hresult⟩ := hallocate
      cases hresult
      refine ⟨by omega, .inr ⟨hsize, capacity, ?_, rfl⟩⟩
      unfold grown grow_capacity at hgrown
      split_ifs at hgrown with hfull hroom
      · cases hgrown
        omega
      · cases hgrown
        omega

/-- A request is answered unless the array is full and cannot be doubled. -/
theorem allocate_isSome
    (hroom : allocator.blocks.length < allocator.capacity ∨ 2 * allocator.capacity < 2 ^ 31) (size : ℕ) :
    (allocate allocator size).isSome := by
  obtain ⟨hfind, hnone⟩ | ⟨front, block, back, hblocks, hfind, hfits, hmin⟩ :=
    find_available_block_spec h size
  · simp [allocate, hfind]
  · rcases hfits.1.eq_or_lt with rfl | hsize
    · rw [allocate_whole hblocks hfind]
      rfl
    · have hgrown : (grown allocator).isSome := by
        have hpos := h.nonempty
        unfold grown grow_capacity
        split_ifs with hfull hdouble
        · rfl
        · omega
        · rfl
      rw [allocate_part h hblocks hcapacity hsize hfind, Option.isSome_map]
      exact hgrown

end

theorem neighbour_last (hblocks : allocator.blocks = front ++ block :: back) :
    (if 0 < front.length then neighbour allocator.blocks (front.length - 1) else none) =
      front.getLast?.filter Block.available := by
  rcases List.eq_nil_or_concat front with rfl | ⟨before, last, rfl⟩
  · rfl
  · simp [neighbour, hblocks]

theorem neighbour_next (hblocks : allocator.blocks = front ++ block :: back) :
    neighbour allocator.blocks (front.length + 1) = back.head?.filter Block.available := by
  cases back <;> simp [neighbour, hblocks]

/-- The ranges of the blocks that are not available. -/
def taken (blocks : List Block) : List (ℕ × ℕ) :=
  (blocks.filter fun block ↦ !block.available).map fun block ↦ (block.offset, block.size)

@[simp] theorem taken_nil : taken [] = [] := rfl

@[simp] theorem taken_append (front back : List Block) : taken (front ++ back) = taken front ++ taken back := by
  simp [taken]

theorem taken_cons (block : Block) (blocks : List Block) :
    taken (block :: blocks) = if block.available then taken blocks else (block.offset, block.size) :: taken blocks := by
  cases h : block.available <;> simp [taken, h]

/-- A block is released by putting one available block in the place of a run of blocks, which are
the available ones around it. -/
structure Merges (blocks start middle rest : List Block) (block merged : Block) : Prop where
  blocks_eq : blocks = start ++ middle ++ rest
  available : merged.available = true
  tiles : ∀ first last, last < 2 ^ 63 → Tiles Block.offset Block.size first middle last →
    Tiles Block.offset Block.size first [merged] last
  taken_eq : taken middle = [(block.offset, block.size)]
  length_pos : 1 ≤ middle.length
  around : Separated Block.available blocks → Separated Block.available start ∧
    Separated Block.available rest ∧ (∀ before ∈ start.getLast?, before.available = false) ∧
      ∀ after ∈ rest.head?, after.available = false

theorem not_available_of_filter {neighbour : Option Block} (h : neighbour.filter Block.available = none) :
    ∀ block ∈ neighbour, block.available = false := by
  intro block hblock
  exact eq_false_of_ne_true (Option.filter_eq_none_iff.mp h block hblock)

theorem release_block_cases (hblocks : allocator.blocks = front ++ block :: back) (htaken : block.available = false) :
    ∃ start middle rest merged, Merges allocator.blocks start middle rest block merged ∧
      release_block allocator front.length = some { allocator with blocks := start ++ merged :: rest } := by
  have hat : allocator.blocks[front.length]? = some block := hblocks ▸ getElem_length front block back
  simp only [release_block, hat, map_some, neighbour_last hblocks, neighbour_next hblocks]
  cases hbefore : front.getLast?.filter Block.available with
  | none =>
    have hfront := not_available_of_filter hbefore
    cases hafter : back.head?.filter Block.available with
    | none =>
      have hback := not_available_of_filter hafter
      have hreplace := replace_eq front [block] back [{ block with available := true }]
      refine ⟨front, [block], back, { block with available := true }, ⟨?_, rfl, ?_, ?_, ?_, ?_⟩, ?_⟩
      · simp [hblocks]
      · intro first last _ htiles
        exact htiles
      · simp [taken_cons, htaken]
      · simp
      · intro hseparated
        rw [hblocks, separated_around] at hseparated
        exact ⟨hseparated.1, hseparated.2.1, hfront, hback⟩
      · simpa [← hblocks] using hreplace
    | some after =>
      obtain ⟨hhead, hfree⟩ := Option.filter_eq_some_iff.mp hafter
      obtain ⟨rest, rfl⟩ := List.head?_eq_some_iff.mp hhead
      have hreplace := replace_eq front [block, after] rest
        [{ block with size := stored (block.size + after.size), available := true }]
      refine ⟨front, [block, after], rest, { block with size := stored (block.size + after.size), available := true },
        ⟨?_, rfl, ?_, ?_, ?_, ?_⟩, ?_⟩
      · simp [hblocks]
      · intro first last hlast htiles
        simp only [Tiles, stored] at htiles ⊢
        omega
      · simp [taken_cons, htaken, hfree]
      · simp
      · intro hseparated
        rw [hblocks, separated_around] at hseparated
        obtain ⟨hstart, hrest, _⟩ := hseparated
        rw [← nil_append (after :: rest), separated_around] at hrest
        exact ⟨hstart, hrest.2.1, hfront, (hrest.2.2 hfree).2⟩
      · simpa [← hblocks] using hreplace
  | some before =>
    obtain ⟨hlast, hfree⟩ := Option.filter_eq_some_iff.mp hbefore
    obtain ⟨start, rfl⟩ := List.getLast?_eq_some_iff.mp hlast
    cases hafter : back.head?.filter Block.available with
    | none =>
      have hback := not_available_of_filter hafter
      have hreplace := replace_eq start [before, block] back
        [{ before with size := stored (before.size + block.size) }]
      refine ⟨start, [before, block], back, { before with size := stored (before.size + block.size) },
        ⟨?_, hfree, ?_, ?_, ?_, ?_⟩, ?_⟩
      · simp [hblocks]
      · intro first last hlast htiles
        simp only [Tiles, stored] at htiles ⊢
        omega
      · simp [taken_cons, htaken, hfree]
      · simp
      · intro hseparated
        rw [hblocks, separated_around] at hseparated
        obtain ⟨hstart, hrest, _⟩ := hseparated
        rw [separated_around] at hstart
        exact ⟨hstart.1, hrest, (hstart.2.2 hfree).1, hback⟩
      · simpa [hblocks] using hreplace
    | some after =>
      obtain ⟨hhead, hfree'⟩ := Option.filter_eq_some_iff.mp hafter
      obtain ⟨rest, rfl⟩ := List.head?_eq_some_iff.mp hhead
      have hreplace := replace_eq start [before, block, after] rest
        [{ before with size := stored (before.size + (block.size + after.size)) }]
      refine ⟨start, [before, block, after], rest,
        { before with size := stored (before.size + (block.size + after.size)) },
        ⟨?_, hfree, ?_, ?_, ?_, ?_⟩, ?_⟩
      · simp [hblocks]
      · intro first last hlast htiles
        simp only [Tiles, stored] at htiles ⊢
        omega
      · simp [taken_cons, htaken, hfree, hfree']
      · simp
      · intro hseparated
        rw [hblocks, separated_around] at hseparated
        obtain ⟨hstart, hrest, _⟩ := hseparated
        rw [separated_around] at hstart
        rw [← nil_append (after :: rest), separated_around] at hrest
        exact ⟨hstart.1, hrest.2.1, (hstart.2.2 hfree).1, (hrest.2.2 hfree').2⟩
      · simpa [hblocks] using hreplace

theorem exists_append_of_getElem {blocks : List Block} {i : ℕ} (h : blocks[i]? = some block) :
    ∃ front back, blocks = front ++ block :: back ∧ front.length = i := by
  obtain ⟨hlt, rfl⟩ := List.getElem?_eq_some_iff.mp h
  refine ⟨blocks.take i, blocks.drop (i + 1), ?_, List.length_take_of_le hlt.le⟩
  rw [← List.drop_eq_getElem_cons hlt, List.take_append_drop]

/-- What giving a range back can lead to. -/
theorem deallocate_cases {error : ℕ} (h : (allocator.blocks.map Block.offset).Nodup)
    (hdeallocate : deallocate allocator offset = some (error, next)) :
    (error = EINVAL ∧ next = allocator ∧ ∀ block ∈ allocator.blocks, block.offset = offset → block.available = true) ∨
    ∃ front block back, allocator.blocks = front ++ block :: back ∧ block.offset = offset ∧
      block.available = false ∧ error = 0 ∧ release_block allocator front.length = some next := by
  rw [deallocate, ite_none_right_eq_some] at hdeallocate
  obtain ⟨_, hdeallocate⟩ := hdeallocate
  cases hfind : allocator.blocks.findIdx? fun block ↦ block.offset = offset with
  | none =>
    simp only [hfind, Option.some.injEq, Prod.mk.injEq] at hdeallocate
    refine .inl ⟨hdeallocate.1.symm, hdeallocate.2.symm, fun block hblock heq ↦ ?_⟩
    have hne := List.findIdx?_eq_none_iff.mp hfind block hblock
    simp [heq] at hne
  | some i =>
    obtain ⟨hlt, hoffset, _⟩ := List.findIdx?_eq_some_iff_getElem.mp hfind
    rw [decide_eq_true_eq] at hoffset
    obtain ⟨front, back, hblocks, rfl⟩ :=
      exists_append_of_getElem (List.getElem?_eq_getElem hlt)
    set block := allocator.blocks[front.length] with hblock
    have hat : allocator.blocks[front.length]? = some block := List.getElem?_eq_getElem hlt
    simp only [hfind, neighbour, hat] at hdeallocate
    cases havailable : block.available with
    | true =>
      simp only [Option.filter, havailable, if_true, Option.isSome_some, Option.some.injEq,
        Prod.mk.injEq] at hdeallocate
      refine .inl ⟨hdeallocate.1.symm, hdeallocate.2.symm, fun other hother heq ↦ ?_⟩
      have hmem : block ∈ allocator.blocks := List.mem_of_getElem? hat
      rw [List.inj_on_of_nodup_map h hother hmem (heq.trans hoffset.symm)]
      exact havailable
    | false =>
      simp only [Option.filter, havailable, Bool.false_eq_true, if_false, Option.isSome_none,
        map_eq_some_iff, Prod.mk.injEq] at hdeallocate
      obtain ⟨last, hrelease, rfl, rfl⟩ := hdeallocate
      exact .inr ⟨front, block, back, hblocks, hoffset, havailable, rfl, hrelease⟩

end Operations

/-- No operation but `reset` reads the total. -/
def Allocator.withTotal (total : ℕ) (allocator : Allocator) : Allocator := { allocator with total_bytes := total }

section Total

variable {total size i offset : ℕ} {allocator : Allocator}

@[simp] theorem withTotal_blocks : (allocator.withTotal total).blocks = allocator.blocks := rfl

@[simp] theorem withTotal_capacity : (allocator.withTotal total).capacity = allocator.capacity := rfl

theorem split_block_withTotal : split_block (allocator.withTotal total) i size =
    (split_block allocator i size).map (Allocator.withTotal total) := by
  unfold split_block
  rw [withTotal_blocks, withTotal_capacity]
  cases allocator.blocks[i]? with
  | none => rfl
  | some block =>
    simp only [bind_eq_bind, bind_some]
    split_ifs
    · cases grow_capacity allocator.capacity <;> rfl
    · rfl
    · rfl

theorem allocate_withTotal : allocate (allocator.withTotal total) size =
    (allocate allocator size).map fun result ↦ (result.1, result.2.withTotal total) := by
  unfold allocate
  rw [withTotal_blocks]
  rcases find_available_block allocator.blocks size with _ | _ | i
  · rfl
  · rfl
  simp only [bind_eq_bind, bind_some]
  cases hblock : allocator.blocks[i]? with
  | none => rfl
  | some block =>
    simp only [bind_some]
    split_ifs
    · rw [split_block_withTotal]
      cases split_block allocator i size with
      | none => rfl
      | some next =>
        simp only [map_some, bind_some, withTotal_blocks]
        cases next.blocks[i + 1]? with
        | none => rfl
        | some taken =>
          simp only [bind_some]
          split_ifs <;> rfl
    · simp only [bind_some, withTotal_blocks, hblock]
      rw [if_pos ‹_›]
      rfl
    · simp only [bind_some, withTotal_blocks, hblock]
      rw [if_neg ‹_›]
      rfl
    · rfl

theorem release_block_withTotal : release_block (allocator.withTotal total) i =
    (release_block allocator i).map (Allocator.withTotal total) := by
  unfold release_block
  rw [map_map]
  rfl

theorem deallocate_withTotal : deallocate (allocator.withTotal total) offset =
    (deallocate allocator offset).map fun result ↦ (result.1, result.2.withTotal total) := by
  unfold deallocate
  rw [withTotal_blocks]
  split_ifs
  · cases allocator.blocks.findIdx? fun block ↦ block.offset = offset with
    | none => rfl
    | some i =>
      simp only [release_block_withTotal]
      split_ifs
      · rfl
      · rw [map_map, map_map]
        rfl
  · rfl

section

variable {next : Allocator}

theorem split_block_capacity (h : split_block allocator i size = some next)
    (hcapacity : allocator.capacity < 2 ^ 31) : next.capacity < 2 ^ 31 := by
  unfold split_block grow_capacity at h
  cases hblock : allocator.blocks[i]? with
  | none => simp [hblock] at h
  | some block =>
    simp only [hblock, bind_eq_bind, bind_some] at h
    split_ifs at h with _ _ hroom
    · cases h
      exact hroom.2
    · cases h
    · cases h
      exact hcapacity

/-- The capacity is an `int`. -/
theorem allocate_capacity (h : allocate allocator size = some (offset, next))
    (hcapacity : allocator.capacity < 2 ^ 31) : next.capacity < 2 ^ 31 := by
  unfold allocate at h
  obtain ⟨found, _, h⟩ := bind_eq_some_iff.mp h
  cases found with
  | none =>
    obtain rfl := (Prod.mk.inj (Option.some.inj h)).2
    exact hcapacity
  | some i =>
    obtain ⟨block, _, h⟩ := bind_eq_some_iff.mp h
    obtain ⟨_, h⟩ := ite_none_right_eq_some.mp h
    split_ifs at h
    · obtain ⟨_, hpair, h⟩ := bind_eq_some_iff.mp h
      obtain ⟨split, hsplit, rfl⟩ := map_eq_some_iff.mp hpair
      obtain ⟨taken, _, h⟩ := bind_eq_some_iff.mp h
      obtain ⟨_, h⟩ := ite_none_right_eq_some.mp h
      obtain rfl := (Prod.mk.inj (Option.some.inj h)).2
      change split.capacity < 2 ^ 31
      exact split_block_capacity hsplit hcapacity
    · simp only [bind_eq_bind, bind_some] at h
      obtain ⟨taken, _, h⟩ := bind_eq_some_iff.mp h
      obtain ⟨_, h⟩ := ite_none_right_eq_some.mp h
      obtain rfl := (Prod.mk.inj (Option.some.inj h)).2
      exact hcapacity

theorem allocate_total (h : allocate allocator size = some (offset, next)) :
    next.total_bytes = allocator.total_bytes := by
  have hsame : allocate (allocator.withTotal allocator.total_bytes) size = _ := allocate_withTotal
  rw [show allocator.withTotal allocator.total_bytes = allocator from rfl, h, map_some] at hsame
  exact congrArg (fun result ↦ result.2.total_bytes) (Option.some.inj hsame)

theorem deallocate_total {error : ℕ} (h : deallocate allocator offset = some (error, next)) :
    next.total_bytes = allocator.total_bytes := by
  have hsame : deallocate (allocator.withTotal allocator.total_bytes) offset = _ := deallocate_withTotal
  rw [show allocator.withTotal allocator.total_bytes = allocator from rfl, h, map_some] at hsame
  exact congrArg (fun result ↦ result.2.total_bytes) (Option.some.inj hsame)

theorem release_block_capacity (h : release_block allocator i = some next) : next.capacity = allocator.capacity := by
  obtain ⟨block, _, rfl⟩ := map_eq_some_iff.mp h
  rfl

theorem deallocate_capacity {error : ℕ} (h : deallocate allocator offset = some (error, next)) :
    next.capacity = allocator.capacity := by
  rw [deallocate, ite_none_right_eq_some] at h
  obtain ⟨_, h⟩ := h
  cases hfind : allocator.blocks.findIdx? fun block ↦ block.offset = offset with
  | none =>
    simp only [hfind] at h
    rw [← (Prod.mk.inj (Option.some.inj h)).2]
  | some i =>
    simp only [hfind] at h
    split_ifs at h
    · rw [← (Prod.mk.inj (Option.some.inj h)).2]
    · obtain ⟨last, hrelease, heq⟩ := map_eq_some_iff.mp h
      rw [← (Prod.mk.inj heq).2]
      exact release_block_capacity hrelease

end

end Total

/-! ## The invariant -/

/-- The blocks tile the interval, no two available ones are neighbours, and the ranges that are held are
those of the others. -/
structure Sound (total : ℕ) (state : State) : Prop where
  total_eq : state.allocator.total_bytes = total
  tiles : Tiles Block.offset Block.size 0 state.allocator.blocks total
  separated : Separated Block.available state.allocator.blocks
  capacity : state.allocator.blocks.length ≤ state.allocator.capacity
  held : state.held.Perm (taken state.allocator.blocks)

section Sound

variable {total : ℕ} {state next : State} {offset : ℕ}

variable {allocator : Allocator} {size : ℕ}

theorem Sound.wellFormed (h : Sound total state) (hpos : 0 < total) (htotal : total < 2 ^ 63) :
    WellFormed state.allocator.blocks where
  nonempty := by
    cases hblocks : state.allocator.blocks with
    | nil =>
      have htiles := h.tiles
      rw [hblocks] at htiles
      have hzero : 0 = total := htiles
      omega
    | cons block blocks =>
      rw [length_cons]
      omega
  size_pos := fun block hblock ↦ (h.tiles.bounds hblock).2.1
  end_lt := by
    intro block hblock
    have hbound := (h.tiles.bounds hblock).2.2
    omega

theorem sound_init {capacity : ℕ} (hpos : 0 < total) (htotal : total < 2 ^ 63)
    (h : init total capacity = some allocator) : Sound total ⟨allocator, []⟩ := by
  rw [init, ite_none_right_eq_some] at h
  obtain ⟨hcapacity, hallocator⟩ := h
  cases hallocator
  have hstored : stored total = total := Nat.mod_eq_of_lt htotal
  refine ⟨rfl, ?_, List.isChain_singleton _, hcapacity, List.Perm.refl _⟩
  simp [Tiles, hstored, hpos]

theorem Sound.reset (h : Sound total state) (hpos : 0 < total) (htotal : total < 2 ^ 63)
    (hreset : reset state.allocator = some allocator) : Sound total ⟨allocator, []⟩ := by
  rw [AddressSpace.reset, ite_none_right_eq_some] at hreset
  obtain ⟨hlength, hallocator⟩ := hreset
  cases hallocator
  have hstored : stored state.allocator.total_bytes = total := by
    rw [h.total_eq]
    exact Nat.mod_eq_of_lt htotal
  refine ⟨h.total_eq, ?_, List.isChain_singleton _, hlength.trans h.capacity, List.Perm.refl _⟩
  simp [Tiles, hstored, hpos]

theorem Sound.ne_bad {block : Block} (h : Sound total state) (htotal : total < 2 ^ 63)
    (hblock : block ∈ state.allocator.blocks) (hend : offset + size = block.offset + block.size) :
    offset ≠ ANDROID_EMU_ADDRESS_SPACE_BAD_OFFSET := by
  have hbound := (h.tiles.bounds hblock).2.2
  unfold ANDROID_EMU_ADDRESS_SPACE_BAD_OFFSET
  omega

theorem Sound.allocate (h : Sound total state) (hpos : 0 < total) (htotal : total < 2 ^ 63) (hsize : 0 < size)
    (hallocate : allocate state.allocator size = some (offset, allocator)) :
    Sound total ⟨allocator, if offset = ANDROID_EMU_ADDRESS_SPACE_BAD_OFFSET then state.held
      else (offset, size) :: state.held⟩ := by
  obtain ⟨rfl, rfl, _⟩ | ⟨front, block, back, hblocks, ⟨hle, hfree⟩, _, hend, hnext⟩ :=
    allocate_cases (h.wellFormed hpos htotal) h.capacity hallocate
  · rw [if_pos rfl]
    exact h
  have hmem : block ∈ state.allocator.blocks := by simp [hblocks]
  have hlength := h.capacity
  have htiles := h.tiles
  have hseparated := h.separated
  have hheld := h.held
  rw [if_neg (h.ne_bad htotal hmem hend)]
  rw [hblocks] at hlength htiles hseparated hheld
  obtain ⟨hfront, hback, haround⟩ := separated_around.mp hseparated
  obtain ⟨hbefore, hafter⟩ := haround hfree
  have hsplit : front ++ block :: back = front ++ [block] ++ back := by simp
  rw [hsplit] at htiles
  obtain ⟨rfl, rfl⟩ | ⟨hlt, capacity, hcapacity, rfl⟩ := hnext
  · obtain rfl : offset = block.offset := by omega
    refine ⟨h.total_eq, ?_, ?_, ?_, ?_⟩
    · have hreplaced := htiles.replace [{ block with available := false }]
        fun low high _ hblock ↦ hblock
      simpa using hreplaced
    · refine separated_around.mpr ⟨hfront, hback, fun hfalse ↦ ?_⟩
      cases hfalse
    · simpa using hlength
    · simp only [taken_append, taken_cons, hfree, if_true] at hheld
      simp only [taken_append, taken_cons, Bool.false_eq_true, if_false]
      exact (hheld.cons _).trans List.perm_middle.symm
  · refine ⟨h.total_eq, ?_, ?_, ?_, ?_⟩
    · have hreplaced := htiles.replace
        [{ block with size := block.size - size }, ⟨offset, size, false⟩] (by
          intro low high _ hblock
          simp only [Tiles] at hblock ⊢
          omega)
      simpa using hreplaced
    · refine separated_around.mpr ⟨hfront, ?_, fun _ ↦ ⟨hbefore, ?_⟩⟩
      · rw [← nil_append (⟨offset, size, false⟩ :: back), separated_around]
        refine ⟨List.isChain_nil, hback, fun hfalse ↦ ?_⟩
        cases hfalse
      · intro after hhead
        cases hhead
        rfl
    · rw [hblocks] at hcapacity
      simp only [length_append, length_cons] at hcapacity ⊢
      omega
    · simp only [taken_append, taken_cons, hfree, if_true] at hheld
      simp only [taken_append, taken_cons, hfree, if_true, Bool.false_eq_true, if_false]
      exact (hheld.cons _).trans List.perm_middle.symm

theorem mem_taken {blocks : List Block} {range : ℕ × ℕ} :
    range ∈ taken blocks ↔ ∃ block ∈ blocks, block.available = false ∧ (block.offset, block.size) = range := by
  simp [taken, and_assoc]

/-- Among the ranges that are held, the one of the block that is released is the only one at its
offset. -/
theorem filter_taken {blocks start middle rest : List Block} {block merged : Block}
    (h : Merges blocks start middle rest block merged) (hnodup : (blocks.map Block.offset).Nodup) :
    (taken blocks).filter (fun range ↦ range.1 ≠ block.offset) = taken start ++ taken rest := by
  have hown : (block.offset, block.size) ∈ taken middle := by
    rw [h.taken_eq]
    exact List.mem_singleton_self _
  obtain ⟨own, hmiddle, _, hrange⟩ := mem_taken.mp hown
  have hoffset : own.offset = block.offset := congrArg Prod.fst hrange
  have hother : ∀ other ∈ blocks, other.offset = block.offset → other = own := by
    intro other hmem heq
    refine List.inj_on_of_nodup_map hnodup hmem ?_ (heq.trans hoffset.symm)
    simp [h.blocks_eq, hmiddle]
  have hnodup' : (start ++ middle ++ rest).Nodup := h.blocks_eq ▸ List.Nodup.of_map _ hnodup
  have hkeep : ∀ part : List Block, (∀ other ∈ part, other ∈ blocks) → own ∉ part →
      (taken part).filter (fun range ↦ range.1 ≠ block.offset) = taken part := by
    intro part hpart hnot
    refine List.filter_eq_self.mpr fun range hrange ↦ ?_
    obtain ⟨other, hmem, _, rfl⟩ := mem_taken.mp hrange
    rw [decide_eq_true_eq]
    exact fun heq ↦ hnot (hother other (hpart other hmem) heq ▸ hmem)
  obtain ⟨hfirst, _, hdisjoint⟩ := List.nodup_append.mp hnodup'
  obtain ⟨_, _, hdisjoint'⟩ := List.nodup_append.mp hfirst
  have hstart := hkeep start (fun other hmem ↦ by simp [h.blocks_eq, hmem])
    fun hmem ↦ hdisjoint' own hmem own hmiddle rfl
  have hrest := hkeep rest (fun other hmem ↦ by simp [h.blocks_eq, hmem])
    fun hmem ↦ hdisjoint own (List.mem_append_right _ hmiddle) own hmem rfl
  rw [h.blocks_eq, taken_append, taken_append, List.filter_append, List.filter_append, hstart, hrest, h.taken_eq]
  simp

theorem Sound.deallocate {error : ℕ} (h : Sound total state) (htotal : total < 2 ^ 63)
    (hdeallocate : deallocate state.allocator offset = some (error, allocator)) :
    Sound total ⟨allocator, if error = 0 then state.held.filter fun range ↦ range.1 ≠ offset
      else state.held⟩ := by
  have hnodup := h.tiles.starts_nodup
  obtain ⟨rfl, rfl, _⟩ | ⟨front, block, back, hblocks, rfl, htaken, rfl, hrelease⟩ :=
    deallocate_cases hnodup hdeallocate
  · rw [if_neg (by decide)]
    exact h
  obtain ⟨start, middle, rest, merged, hmerges, hresult⟩ := release_block_cases hblocks htaken
  cases hresult.symm.trans hrelease
  obtain ⟨hstart, hrest, hbefore, hafter⟩ := hmerges.around h.separated
  have htiles := h.tiles
  have hlength := h.capacity
  rw [hmerges.blocks_eq] at htiles hlength
  rw [if_pos rfl]
  refine ⟨h.total_eq, ?_, separated_around.mpr ⟨hstart, hrest, fun _ ↦ ⟨hbefore, hafter⟩⟩, ?_, ?_⟩
  · have hreplaced := htiles.replace [merged]
      fun low high hhigh hmiddle ↦ hmerges.tiles low high (by omega) hmiddle
    simpa using hreplaced
  · have hpos := hmerges.length_pos
    simp only [length_append, length_cons] at hlength ⊢
    omega
  · have hfilter := h.held.filter fun range ↦ range.1 ≠ block.offset
    rw [filter_taken hmerges hnodup] at hfilter
    simpa [taken_cons, hmerges.available] using hfilter

theorem Sound.step {call : Call} (h : Sound total state) (hpos : 0 < total) (htotal : total < 2 ^ 63)
    (hguard : AsksForSome call state) (hstep : step call state = some next) : Sound total next := by
  cases call with
  | allocate size =>
    obtain ⟨⟨offset, allocator⟩, hallocate, rfl⟩ := map_eq_some_iff.mp hstep
    exact h.allocate hpos htotal hguard hallocate
  | deallocate offset =>
    obtain ⟨⟨error, allocator⟩, hdeallocate, rfl⟩ := map_eq_some_iff.mp hstep
    exact h.deallocate htotal hdeallocate
  | reset =>
    obtain ⟨allocator, hreset, rfl⟩ := map_eq_some_iff.mp hstep
    exact h.reset hpos htotal hreset

theorem sound_of_run {capacity : ℕ} {calls : List Call} (hpos : 0 < total) (htotal : total < 2 ^ 63)
    (hinit : init total capacity = some allocator) (hguard : Guarded step AsksForSome ⟨allocator, []⟩ calls)
    (hrun : run step ⟨allocator, []⟩ calls = some state) : Sound total state :=
  invariant_of_guarded (Sound total) (fun _ _ _ h hguard hstep ↦ h.step hpos htotal hguard hstep)
    (sound_init hpos htotal hinit) hguard hrun

section

variable (h : Sound total state)
include h

theorem Sound.deallocate_isSome (hpos : 0 < total) (htotal : total < 2 ^ 63) (offset : ℕ) :
    (AddressSpace.deallocate state.allocator offset).isSome := by
  rw [AddressSpace.deallocate, if_pos (h.wellFormed hpos htotal).nonempty]
  cases hfind : state.allocator.blocks.findIdx? fun block ↦ block.offset = offset with
  | none => rfl
  | some i =>
    obtain ⟨hlt, _⟩ := List.findIdx?_eq_some_iff_getElem.mp hfind
    simp only
    split_ifs
    · rfl
    · simp [release_block, List.getElem?_eq_getElem hlt]

/-- When nothing is held, one available block remains. -/
theorem Sound.destroys (hpos : 0 < total) (htotal : total < 2 ^ 63) (hheld : state.held = []) :
    AddressSpace.destroys state.allocator := by
  have hfree : ∀ block ∈ state.allocator.blocks, block.available = true := by
    intro block hblock
    by_contra hnot
    have hmem := mem_taken.mpr ⟨block, hblock, eq_false_of_ne_true hnot, rfl⟩
    have hnone : taken state.allocator.blocks = [] := by
      rw [← List.perm_nil, ← hheld]
      exact h.held.symm
    rw [hnone] at hmem
    cases hmem
  have hnonempty := (h.wellFormed hpos htotal).nonempty
  have hcapacity := h.capacity
  have hseparated := h.separated
  cases hblocks : state.allocator.blocks with
  | nil =>
    rw [hblocks] at hnonempty
    cases hnonempty
  | cons first blocks =>
    rw [hblocks] at hfree hseparated hcapacity
    cases blocks with
    | nil => exact ⟨by rw [hblocks]; rfl, by rw [hblocks]; exact hcapacity, by simp [neighbour, hblocks, hfree]⟩
    | cons second blocks =>
      have happart := (List.isChain_cons_cons.mp hseparated).1
      exact absurd ⟨hfree first (by simp), hfree second (by simp)⟩ happart

theorem Sound.held_disjoint :
    state.held.Pairwise fun range other ↦ range.1 + range.2 ≤ other.1 ∨ other.1 + other.2 ≤ range.1 := by
  have hsymm : ∀ {range other : ℕ × ℕ}, (range.1 + range.2 ≤ other.1 ∨ other.1 + other.2 ≤ range.1) →
      (other.1 + other.2 ≤ range.1 ∨ range.1 + range.2 ≤ other.1) := fun hapart ↦ hapart.symm
  refine (h.held.pairwise_iff hsymm).mpr (List.pairwise_map.mpr ?_)
  refine (h.tiles.pairwise.filter _).imp ?_
  intro block other hapart
  exact .inl hapart.2

/-- A request fails when no range of its size is free, and otherwise takes the end of the smallest
available block that is large enough. -/
theorem Sound.allocate_spec (hpos : 0 < total) (htotal : total < 2 ^ 63) (hsize : 0 < size)
    (hallocate : AddressSpace.allocate state.allocator size = some (offset, allocator)) :
    (offset = ANDROID_EMU_ADDRESS_SPACE_BAD_OFFSET ↔ ¬ ∃ from', FreeRange Block.offset Block.size
      Block.available state.allocator.blocks from' size) ∧
    (offset = ANDROID_EMU_ADDRESS_SPACE_BAD_OFFSET → allocator = state.allocator) ∧
    (offset ≠ ANDROID_EMU_ADDRESS_SPACE_BAD_OFFSET → ∃ block ∈ state.allocator.blocks, Fits size block ∧
      (∀ other ∈ state.allocator.blocks, Fits size other → block.size ≤ other.size) ∧
      offset + size = block.offset + block.size) := by
  obtain ⟨rfl, rfl, hnone⟩ | ⟨front, block, back, hblocks, hfits, hmin, hend, _⟩ :=
    allocate_cases (h.wellFormed hpos htotal) h.capacity hallocate
  · refine ⟨⟨fun _ ↦ ?_, fun _ ↦ rfl⟩, fun _ ↦ rfl, fun hne ↦ absurd rfl hne⟩
    rintro ⟨from', hrange⟩
    obtain ⟨block, hblock, hfree, hle⟩ := h.tiles.exists_free_piece h.separated hsize hrange
    exact hnone block hblock ⟨hle, hfree⟩
  · have hmem : block ∈ state.allocator.blocks := by simp [hblocks]
    have hne := h.ne_bad htotal hmem hend
    refine ⟨⟨fun heq ↦ absurd heq hne, fun hnot ↦ ?_⟩, fun heq ↦ absurd heq hne,
      fun _ ↦ ⟨block, hmem, hfits, hmin, hend⟩⟩
    refine absurd ⟨block.offset, ?_⟩ hnot
    have hrange := freeRange_of_piece Block.offset Block.size hmem hfits.2
    intro point hle hlt
    exact hrange point hle (hlt.trans_le (Nat.add_le_add_left hfits.1 _))

/-- A range is given back when it is held; otherwise nothing changes. -/
theorem Sound.deallocate_spec {error : ℕ}
    (hdeallocate : AddressSpace.deallocate state.allocator offset = some (error, allocator)) :
    (error = 0 ↔ ∃ range ∈ state.held, range.1 = offset) ∧ (error ≠ 0 → allocator = state.allocator) := by
  obtain ⟨rfl, rfl, hfree⟩ | ⟨front, block, back, hblocks, hoffset, htaken, rfl, _⟩ :=
    deallocate_cases h.tiles.starts_nodup hdeallocate
  · refine ⟨⟨fun hzero ↦ absurd hzero (by decide), ?_⟩, fun _ ↦ rfl⟩
    rintro ⟨range, hrange, heq⟩
    obtain ⟨block, hblock, hnot, rfl⟩ := mem_taken.mp (h.held.mem_iff.mp hrange)
    rw [hfree block hblock heq] at hnot
    cases hnot
  · refine ⟨⟨fun _ ↦ ⟨(block.offset, block.size), ?_, hoffset⟩, fun _ ↦ rfl⟩, fun hne ↦ absurd rfl hne⟩
    exact h.held.mem_iff.mpr (mem_taken.mpr ⟨block, by simp [hblocks], htaken, rfl⟩)

end

end Sound

/-- For every total below `2 ^ 63` and every sequence of calls: the blocks tile `[0, total)`, no two
available ones are neighbours, the ranges that are held are those of the other blocks; a request is
answered unless the array would have to be doubled beyond an `int`, fails when no range of its size is
free, and otherwise takes the end of a smallest block; a range is given back when it is held, and
otherwise nothing changes; and when nothing is held, the allocator can be destroyed. -/
theorem allocator_sound (total capacity : ℕ) (allocator : Allocator) (calls : List Call) (state : State)
    (hpos : 0 < total) (htotal : total < 2 ^ 63) (hinit : init total capacity = some allocator)
    (hguard : Guarded step AsksForSome ⟨allocator, []⟩ calls)
    (hrun : run step ⟨allocator, []⟩ calls = some state) :
    Tiles Block.offset Block.size 0 state.allocator.blocks total ∧
    Separated Block.available state.allocator.blocks ∧
    state.held.Perm (taken state.allocator.blocks) ∧
    (state.held.Pairwise fun range other ↦ range.1 + range.2 ≤ other.1 ∨ other.1 + other.2 ≤ range.1) ∧
    (∀ size, state.allocator.blocks.length < state.allocator.capacity ∨
      2 * state.allocator.capacity < 2 ^ 31 → (allocate state.allocator size).isSome) ∧
    (∀ size offset next, 0 < size → allocate state.allocator size = some (offset, next) →
      (offset = ANDROID_EMU_ADDRESS_SPACE_BAD_OFFSET ↔ ¬ ∃ from', FreeRange Block.offset Block.size
        Block.available state.allocator.blocks from' size) ∧
      (offset = ANDROID_EMU_ADDRESS_SPACE_BAD_OFFSET → next = state.allocator) ∧
      (offset ≠ ANDROID_EMU_ADDRESS_SPACE_BAD_OFFSET → ∃ block ∈ state.allocator.blocks, Fits size block ∧
        (∀ other ∈ state.allocator.blocks, Fits size other → block.size ≤ other.size) ∧
        offset + size = block.offset + block.size)) ∧
    (∀ offset, (deallocate state.allocator offset).isSome) ∧
    (∀ offset error next, deallocate state.allocator offset = some (error, next) →
      (error = 0 ↔ ∃ range ∈ state.held, range.1 = offset) ∧ (error ≠ 0 → next = state.allocator)) ∧
    (state.held = [] → destroys state.allocator) := by
  have h := sound_of_run hpos htotal hinit hguard hrun
  have hformed := h.wellFormed hpos htotal
  refine ⟨h.tiles, h.separated, h.held, h.held_disjoint, ?_, ?_, ?_, ?_, ?_⟩
  · intro size hroom
    exact allocate_isSome hformed h.capacity hroom size
  · intro size offset next hsize hallocate
    exact h.allocate_spec hpos htotal hsize hallocate
  · exact h.deallocate_isSome hpos htotal
  · intro offset error next hdeallocate
    exact h.deallocate_spec hdeallocate
  · exact h.destroys hpos htotal

instance decidableAsksForSome : ∀ call state, Decidable (AsksForSome call state)
  | .allocate size, _ => inferInstanceAs (Decidable (0 < size.toNat))
  | .deallocate _, _ | .reset, _ => isTrue trivial

/-- Three ranges are taken and given back in an order in which the last one is merged on both sides. -/
def mergeBothSides : List Call :=
  [.allocate 16, .allocate 8, .allocate 64, .deallocate 7, .allocate 32, .deallocate 48, .deallocate 8,
    .deallocate 40]

theorem allocator_sound_mergeBothSides :
    ∃ allocator state, init 64 1 = some allocator ∧
      Guarded step AsksForSome ⟨allocator, []⟩ mergeBothSides ∧
      run step ⟨allocator, []⟩ mergeBothSides = some state ∧
      state.held = [] ∧ destroys state.allocator := by
  have hinit : init 64 1 = some ⟨[⟨0, 64, true⟩], 1, 64⟩ := by decide
  have hguard : Guarded step AsksForSome ⟨⟨[⟨0, 64, true⟩], 1, 64⟩, []⟩ mergeBothSides := by
    decide +kernel
  have hheld : (run step ⟨⟨[⟨0, 64, true⟩], 1, 64⟩, []⟩ mergeBothSides).map State.held = some [] := by
    decide +kernel
  obtain ⟨state, hrun, hstate⟩ := map_eq_some_iff.mp hheld
  obtain ⟨_, _, _, _, _, _, _, _, hdestroys⟩ :=
    allocator_sound 64 1 _ mergeBothSides state (by decide) (by decide) hinit hguard hrun
  exact ⟨_, state, hinit, hguard, hrun, hstate, hdestroys hstate⟩

/-- A total that needs 64 bits is stored as 0, and the only block is empty. -/
theorem large_total_empty :
    ∃ allocator, init (2 ^ 63) 1 = some allocator ∧
      ¬ Tiles Block.offset Block.size 0 allocator.blocks (2 ^ 63) ∧ allocate allocator 1 = none := by
  refine ⟨⟨[⟨0, 0, true⟩], 1, 2 ^ 63⟩, by decide, ?_, by decide⟩
  rintro ⟨_, hsize, _⟩
  cases hsize

end FdeEmugl.AddressSpace
