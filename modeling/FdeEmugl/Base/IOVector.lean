import FdeEmugl.Library.ByteMemory
import FdeEmugl.Library.Overwrite

/-!
# Scatter/gather lists

Ranges of memory are used as one sequence of bytes. An offset into the sequence is looked up first; a transfer then
runs through the ranges from there on, and only the first of them is not taken from its start.
-/

namespace FdeEmugl.IOVectors

open Overwrite ByteMemory
open List (append_assoc append_nil drop_of_length_le length_append length_drop length_take mem_cons_of_mem
  nil_append)

/-! ## The code -/

structure Iovec where
  iov_base : ℤ
  iov_len : ℕ
  deriving DecidableEq

abbrev IOVector := List Iovec

def INT_MAX : ℕ := 2 ^ 31 - 1

/-- `++iov_index` for an `int`. The language gives it no result behind the largest one. -/
def increment (iov_index : ℕ) : Option ℕ := if iov_index < INT_MAX then some (iov_index + 1) else none

structure IovecLookup where
  iov_index : ℕ
  current_offset : ℕ

/-- The loop of `lookup_iovec`, with the entries from its index on. -/
def lookupFrom (offset : ℕ) : IOVector → IovecLookup → Option IovecLookup
  | [], lookup => some lookup
  | iovec :: iovecs, lookup =>
    let next_offset := (lookup.current_offset + iovec.iov_len) % 2 ^ 64
    if lookup.current_offset ≤ offset ∧ offset < next_offset then some lookup
    else (increment lookup.iov_index).bind fun iov_index ↦ lookupFrom offset iovecs ⟨iov_index, next_offset⟩

def lookup_iovec (mIOVecs : IOVector) (offset : ℕ) : Option IovecLookup := lookupFrom offset mIOVecs ⟨0, 0⟩

variable {State : Type*}

/-- The loop of the three transfers, with the entries from its index on; they differ in what they do with a piece. -/
def transfer (move : State → Iovec → State) : IOVector → ℕ → ℕ → ℕ → State → Option (State × ℕ)
  | [], _, _, remaining, state => some (state, remaining)
  | iovec :: iovecs, iov_index, write_offset, remaining, state =>
    if remaining = 0 then some (state, remaining)
    else
      let to_copy := min remaining (iovec.iov_len - write_offset)
      (increment iov_index).bind fun iov_index ↦
        transfer move iovecs iov_index 0 (remaining - to_copy) (move state ⟨iovec.iov_base + write_offset, to_copy⟩)

/-- What the transfers do around that loop. -/
def transferAt (move : State → Iovec → State) (mIOVecs : IOVector) (offset size : ℕ) (state : State) :
    Option (State × ℕ) :=
  (lookup_iovec mIOVecs offset).bind fun lookup ↦
    if lookup.iov_index = mIOVecs.length then some (state, 0)
    else
      (transfer move (mIOVecs.drop lookup.iov_index) lookup.iov_index (offset - lookup.current_offset) size state).map
        fun (state, remaining) ↦ (state, size - remaining)

/-- The memory and the place in the plain buffer. -/
abbrev Cursor := ByteMemory × ℤ

def copyTo (memory : ByteMemory) (mIOVecs : IOVector) (destination : ℤ) (offset size : ℕ) : Option (ByteMemory × ℕ) :=
  (transferAt (fun (memory, current_destination) piece ↦
      (memory.store current_destination (memory.load piece.iov_base piece.iov_len),
        current_destination + piece.iov_len))
    mIOVecs offset size (memory, destination)).map fun (cursor, count) ↦ (cursor.1, count)

def copyFrom (memory : ByteMemory) (mIOVecs : IOVector) (source : ℤ) (offset size : ℕ) : Option (ByteMemory × ℕ) :=
  (transferAt (fun (memory, current_source) piece ↦
      (memory.store piece.iov_base (memory.load current_source piece.iov_len), current_source + piece.iov_len))
    mIOVecs offset size (memory, source)).map fun (cursor, count) ↦ (cursor.1, count)

def appendEntriesTo (mIOVecs destination : IOVector) (offset size : ℕ) : Option (IOVector × ℕ) :=
  transferAt (fun destination iov ↦ destination ++ [iov]) mIOVecs offset size destination

/-! ## The sequence of bytes -/

def summedLength (iovecs : IOVector) : ℕ := (iovecs.map Iovec.iov_len).sum

def flatten (memory : ByteMemory) (iovecs : IOVector) : List UInt8 :=
  iovecs.flatMap fun iovec ↦ memory.load iovec.iov_base iovec.iov_len

def Iovec.Covers (iovec : Iovec) (point : ℤ) : Prop := iovec.iov_base ≤ point ∧ point < iovec.iov_base + iovec.iov_len

def Apart (first second : Iovec) : Prop := ∀ point, first.Covers point → ¬ second.Covers point

/-- Entries without common bytes in the address space of a program. -/
structure DisjointMemory (iovecs : IOVector) : Prop where
  apart : iovecs.Pairwise Apart
  mapped : ∀ iovec ∈ iovecs, ∀ point, iovec.Covers point → 0 < point ∧ point < 2 ^ 64

/-- The number of bytes from the offset on, as far as there are any. -/
def sliceLength (iovecs : IOVector) (offset size : ℕ) : ℕ := min size (summedLength iovecs - offset)

def slice (memory : ByteMemory) (iovecs : IOVector) (offset size : ℕ) : List UInt8 :=
  ((flatten memory iovecs).drop offset).take size

/-- The plain buffer is no part of the entries. -/
def Separate (iovecs : IOVector) (buffer : ℤ) (offset size : ℕ) : Prop :=
  ∀ iovec ∈ iovecs, Apart iovec ⟨buffer, sliceLength iovecs offset size⟩

/-- The transfers are about one slice of the sequence of bytes. -/
structure TransfersSlice (iovecs : IOVector) (offset size : ℕ) : Prop where
  gathers : ∀ memory destination, Separate iovecs destination offset size →
    copyTo memory iovecs destination offset size =
      some (memory.store destination (slice memory iovecs offset size), sliceLength iovecs offset size)
  scatters : ∀ memory source, Separate iovecs source offset size → ∃ written,
    copyFrom memory iovecs source offset size = some (written, sliceLength iovecs offset size) ∧
    flatten written iovecs =
      overwrite (flatten memory iovecs) offset (memory.load source (sliceLength iovecs offset size)) ∧
    ∀ point, (∀ iovec ∈ iovecs, ¬ iovec.Covers point) → written point = memory point
  roundTrip : ∀ memory source destination, Separate iovecs source offset size →
    Separate iovecs destination offset size → ∃ written,
    copyFrom memory iovecs source offset size = some (written, sliceLength iovecs offset size) ∧
    copyTo written iovecs destination offset size =
      some (written.store destination (memory.load source (sliceLength iovecs offset size)),
        sliceLength iovecs offset size)
  appends : ∀ destination, ∃ entries, appendEntriesTo iovecs destination offset size =
      some (destination ++ entries, sliceLength iovecs offset size) ∧
    ∀ memory, flatten memory entries = slice memory iovecs offset size

/-! ## The lookup -/

variable {iovecs : IOVector} {iovec : Iovec} {offset size : ℕ} {memory : ByteMemory}

variable {write_offset : ℕ}

@[simp] theorem summedLength_cons (iovec : Iovec) (iovecs : IOVector) :
    summedLength (iovec :: iovecs) = iovec.iov_len + summedLength iovecs := List.sum_cons

theorem summedLength_append (first second : IOVector) :
    summedLength (first ++ second) = summedLength first + summedLength second := by
  rw [summedLength, List.map_append, List.sum_append, summedLength, summedLength]

@[simp] theorem flatten_cons (memory : ByteMemory) (iovec : Iovec) (iovecs : IOVector) :
    flatten memory (iovec :: iovecs) = memory.load iovec.iov_base iovec.iov_len ++ flatten memory iovecs :=
  List.flatMap_cons

theorem flatten_append (memory : ByteMemory) (first second : IOVector) :
    flatten memory (first ++ second) = flatten memory first ++ flatten memory second := List.flatMap_append

@[simp] theorem length_flatten (memory : ByteMemory) (iovecs : IOVector) :
    (flatten memory iovecs).length = summedLength iovecs := by
  induction iovecs with
  | nil => rfl
  | cons iovec iovecs ih => rw [flatten_cons, length_append, length_load, ih, summedLength_cons]

/-- The offset is inside of the first of these entries. -/
def StartsWithin (iovecs : IOVector) (write_offset : ℕ) : Prop := ∀ iovec ∈ iovecs.head?, write_offset < iovec.iov_len

/-- The lookup passes the entries that end before the offset, empty ones among them. -/
theorem lookupFrom_spec (iovecs passed : IOVector) (offset : ℕ) (hlength : passed.length + iovecs.length ≤ INT_MAX)
    (htotal : summedLength passed + summedLength iovecs < 2 ^ 64) (hoffset : summedLength passed ≤ offset) :
    ∃ before after, iovecs = before ++ after ∧ lookupFrom offset iovecs ⟨passed.length, summedLength passed⟩ =
        some ⟨(passed ++ before).length, summedLength (passed ++ before)⟩ ∧
      summedLength (passed ++ before) ≤ offset ∧ StartsWithin after (offset - summedLength (passed ++ before)) := by
  induction iovecs generalizing passed with
  | nil => exact ⟨[], [], rfl, by rw [append_nil]; rfl, by rwa [append_nil], fun _ h ↦ by cases h⟩
  | cons iovec iovecs ih =>
    rw [List.length_cons] at hlength
    rw [summedLength_cons] at htotal
    have hnext : (summedLength passed + iovec.iov_len) % 2 ^ 64 = summedLength passed + iovec.iov_len :=
      Nat.mod_eq_of_lt (by omega)
    by_cases hfound : offset < summedLength passed + iovec.iov_len
    · refine ⟨[], iovec :: iovecs, rfl, ?_, ?_, ?_⟩
      · rw [lookupFrom, hnext, if_pos ⟨hoffset, hfound⟩, append_nil]
      · rwa [append_nil]
      · intro head hhead
        cases hhead
        rw [append_nil]
        omega
    · have hpassed : summedLength (passed ++ [iovec]) = summedLength passed + iovec.iov_len := by
        rw [summedLength_append, summedLength_cons]
        rfl
      have hcount : (passed ++ [iovec]).length = passed.length + 1 := length_append
      have hstep : increment passed.length = some (passed ++ [iovec]).length := by
        rw [hcount]
        exact if_pos (by omega)
      obtain ⟨before, after, rfl, hlookup, hbefore, hafter⟩ := ih (passed ++ [iovec]) (by omega) (by omega) (by omega)
      refine ⟨iovec :: before, after, rfl, ?_, ?_, ?_⟩
      · rw [lookupFrom, hnext, if_neg (fun h ↦ hfound h.2), hstep, Option.bind_some, ← hpassed, hlookup,
          append_assoc, List.singleton_append]
      · rwa [← List.singleton_append, ← append_assoc]
      · rwa [← List.singleton_append, ← append_assoc]

/-! ## The pieces of a transfer -/

/-- What the loop moves. -/
def pieces : IOVector → ℕ → ℕ → IOVector
  | [], _, _ => []
  | iovec :: iovecs, write_offset, remaining =>
    if remaining = 0 then []
    else
      let to_copy := min remaining (iovec.iov_len - write_offset)
      ⟨iovec.iov_base + write_offset, to_copy⟩ :: pieces iovecs 0 (remaining - to_copy)

theorem pieces_zero (iovecs : IOVector) (write_offset : ℕ) : pieces iovecs write_offset 0 = [] := by
  cases iovecs with
  | nil => rfl
  | cons iovec iovecs => exact if_pos rfl

theorem transfer_eq (move : State → Iovec → State) {iov_index : ℕ} (hlength : iov_index + iovecs.length ≤ INT_MAX)
    (write_offset remaining : ℕ) (state : State) :
    transfer move iovecs iov_index write_offset remaining state =
      some ((pieces iovecs write_offset remaining).foldl move state,
        remaining - summedLength (pieces iovecs write_offset remaining)) := by
  induction iovecs generalizing iov_index write_offset remaining state with
  | nil => rfl
  | cons iovec iovecs ih =>
    rw [List.length_cons] at hlength
    by_cases hremaining : remaining = 0
    · rw [transfer, if_pos hremaining, hremaining, pieces_zero]
      rfl
    · have hstep : increment iov_index = some (iov_index + 1) := if_pos (by omega)
      simp only [transfer, if_neg hremaining, hstep, Option.bind_some, pieces]
      rw [ih (by omega), List.foldl_cons, summedLength_cons, Nat.sub_sub]

/-- The pieces of an entry are a slice of it. -/
theorem load_piece (memory : ByteMemory) (iovec : Iovec) (hwithin : write_offset ≤ iovec.iov_len) (remaining : ℕ) :
    memory.load (iovec.iov_base + write_offset) (min remaining (iovec.iov_len - write_offset)) =
      ((memory.load iovec.iov_base iovec.iov_len).drop write_offset).take remaining := by
  have hsplit : memory.load iovec.iov_base iovec.iov_len = memory.load iovec.iov_base write_offset ++
        memory.load (iovec.iov_base + write_offset) (iovec.iov_len - write_offset) := by
    rw [← load_add, Nat.add_sub_cancel' hwithin]
  have hdrop : (memory.load iovec.iov_base iovec.iov_len).drop write_offset =
      memory.load (iovec.iov_base + write_offset) (iovec.iov_len - write_offset) := by
    rw [hsplit]
    exact List.drop_left' (length_load memory iovec.iov_base write_offset)
  rw [hdrop, ByteMemory.load, ByteMemory.load, ← List.map_take, List.take_range]

theorem flatten_pieces (memory : ByteMemory) (hwithin : ∀ iovec ∈ iovecs.head?, write_offset ≤ iovec.iov_len)
    (remaining : ℕ) :
    flatten memory (pieces iovecs write_offset remaining) =
      ((flatten memory iovecs).drop write_offset).take remaining := by
  induction iovecs generalizing write_offset remaining with
  | nil => rw [pieces, flatten, List.flatMap_nil, List.drop_nil, List.take_nil]
  | cons iovec iovecs ih =>
    by_cases hremaining : remaining = 0
    · rw [hremaining, pieces_zero, List.take_zero]
      rfl
    · have hiovec : write_offset ≤ iovec.iov_len := hwithin iovec rfl
      have hlength : ((memory.load iovec.iov_base iovec.iov_len).drop write_offset).length =
          iovec.iov_len - write_offset := by rw [length_drop, length_load]
      rw [pieces, if_neg hremaining, flatten_cons, flatten_cons, load_piece memory iovec hiovec,
        ih (fun _ _ ↦ Nat.zero_le _), List.drop_zero, List.drop_append_of_le_length (by rwa [length_load]),
        List.take_append, hlength]
      congr 2
      omega

theorem summedLength_pieces {write_offset : ℕ} (hwithin : ∀ iovec ∈ iovecs.head?, write_offset ≤ iovec.iov_len)
    (remaining : ℕ) :
    summedLength (pieces iovecs write_offset remaining) = min remaining (summedLength iovecs - write_offset) := by
  have hflatten := congrArg List.length (flatten_pieces (fun _ ↦ 0) hwithin remaining)
  rwa [length_flatten, length_take, length_drop, length_flatten] at hflatten

theorem exists_covers_of_pieces {remaining : ℕ} {piece : Iovec} {point : ℤ}
    (hwithin : ∀ iovec ∈ iovecs.head?, write_offset ≤ iovec.iov_len)
    (hpiece : piece ∈ pieces iovecs write_offset remaining) (hpoint : piece.Covers point) :
    ∃ iovec ∈ iovecs, iovec.Covers point := by
  induction iovecs generalizing write_offset remaining with
  | nil => cases hpiece
  | cons iovec iovecs ih =>
    have hiovec : write_offset ≤ iovec.iov_len := hwithin iovec rfl
    by_cases hremaining : remaining = 0
    · rw [hremaining, pieces_zero] at hpiece
      cases hpiece
    · rw [pieces, if_neg hremaining] at hpiece
      obtain rfl | hpiece := List.mem_cons.mp hpiece
      · refine ⟨iovec, List.mem_cons_self, ?_⟩
        obtain ⟨hlower, hupper⟩ := hpoint
        simp only at hlower hupper
        exact ⟨by omega, by omega⟩
      · obtain ⟨other, hother, hcovers⟩ := ih (fun _ _ ↦ Nat.zero_le _) hpiece
        exact ⟨other, mem_cons_of_mem iovec hother, hcovers⟩

/-! ## The slice -/

/-- The bytes of entries without common bytes fit into the address space. -/
theorem summedLength_lt (h : DisjointMemory iovecs) : summedLength iovecs < 2 ^ 64 := by
  have hsum : ∀ space : Finset ℤ, iovecs.Pairwise Apart →
      (∀ iovec ∈ iovecs, ∀ point, iovec.Covers point → point ∈ space) → summedLength iovecs ≤ space.card := by
    clear h
    induction iovecs with
    | nil => exact fun _ _ _ ↦ Nat.zero_le _
    | cons iovec iovecs ih =>
      intro space hapart hmapped
      obtain ⟨hiovec, hiovecs⟩ := List.pairwise_cons.mp hapart
      let own := Finset.Ico iovec.iov_base (iovec.iov_base + iovec.iov_len)
      have hown : own ⊆ space := fun point hpoint ↦
        hmapped iovec List.mem_cons_self point (Finset.mem_Ico.mp hpoint)
      have hcard : own.card = iovec.iov_len := by
        rw [Int.card_Ico, add_sub_cancel_left, Int.toNat_natCast]
      have hrest : summedLength iovecs ≤ (space \ own).card :=
        ih (space \ own) hiovecs fun other hother point hpoint ↦ Finset.mem_sdiff.mpr
          ⟨hmapped other (mem_cons_of_mem iovec hother) point hpoint,
            fun hmem ↦ hiovec other hother point (Finset.mem_Ico.mp hmem) hpoint⟩
      have hsplit := Finset.card_sdiff_add_card_eq_card hown
      rw [summedLength_cons]
      omega
  have hspace : (Finset.Ico (1 : ℤ) (2 ^ 64)).card = 2 ^ 64 - 1 := by
    rw [Int.card_Ico]
    rfl
  have hle := hsum (Finset.Ico 1 (2 ^ 64)) h.apart fun iovec hiovec point hpoint ↦
    Finset.mem_Ico.mpr (h.mapped iovec hiovec point hpoint)
  omega

/-- A transfer moves the pieces of the entries from the one with the offset on. -/
theorem transferAt_eq (move : State → Iovec → State) (hlength : iovecs.length ≤ INT_MAX)
    (htotal : summedLength iovecs < 2 ^ 64) (offset size : ℕ) (state : State) :
    ∃ before after, iovecs = before ++ after ∧ summedLength before ≤ offset ∧
      StartsWithin after (offset - summedLength before) ∧
      transferAt move iovecs offset size state =
        some ((pieces after (offset - summedLength before) size).foldl move state,
          sliceLength iovecs offset size) := by
  have hempty : summedLength [] = 0 := rfl
  obtain ⟨before, after, rfl, hlookup, hbefore, hafter⟩ :=
    lookupFrom_spec iovecs [] offset (by rwa [List.length_nil, Nat.zero_add]) (by rwa [hempty, Nat.zero_add])
      (Nat.zero_le offset)
  rw [nil_append] at hlookup hbefore hafter
  refine ⟨before, after, rfl, hbefore, hafter, ?_⟩
  have hcount : sliceLength (before ++ after) offset size =
      min size (summedLength after - (offset - summedLength before)) := by
    rw [sliceLength, summedLength_append]
    omega
  have hfind : lookup_iovec (before ++ after) offset = some ⟨before.length, summedLength before⟩ := hlookup
  rw [transferAt, hfind, Option.bind_some, hcount]
  cases after with
  | nil =>
    rw [if_pos (by rw [append_nil]), hempty, Nat.zero_sub, Nat.min_zero]
    rfl
  | cons iovec iovecs =>
    have hinside : ¬ before.length = (before ++ iovec :: iovecs).length := by
      rw [length_append, List.length_cons]
      omega
    have hrest : before.length + (iovec :: iovecs).length ≤ INT_MAX := by rwa [← length_append]
    simp only [if_neg hinside, List.drop_left]
    rw [transfer_eq move hrest, Option.map_some,
      summedLength_pieces fun head hhead ↦ Nat.le_of_lt (hafter head hhead), Nat.sub_sub_self (Nat.min_le_left _ _)]

theorem slice_append (memory : ByteMemory) (size : ℕ) {before after : IOVector} (hbefore : summedLength before ≤ offset)
    (hafter : StartsWithin after (offset - summedLength before)) :
    flatten memory (pieces after (offset - summedLength before) size) =
      slice memory (before ++ after) offset size := by
  have hpassed : (flatten memory before).drop offset = [] := drop_of_length_le (by rwa [length_flatten])
  rw [flatten_pieces memory fun head hhead ↦ Nat.le_of_lt (hafter head hhead), slice, flatten_append,
    List.drop_append, length_flatten, hpassed, nil_append]

theorem length_slice (memory : ByteMemory) (iovecs : IOVector) (offset size : ℕ) :
    (slice memory iovecs offset size).length = sliceLength iovecs offset size := by
  rw [slice, length_take, length_drop, length_flatten, sliceLength]

/-! ## Copying -/

theorem flatten_congr {memory other : ByteMemory}
    (h : ∀ iovec ∈ iovecs, ∀ point, iovec.Covers point → memory point = other point) :
    flatten memory iovecs = flatten other iovecs :=
  List.flatMap_congr fun iovec hiovec ↦
    load_congr fun point hlower hupper ↦ h iovec hiovec point ⟨hlower, hupper⟩

theorem foldl_copyTo (memory : ByteMemory) {place : ℤ} {entries : IOVector}
    (hapart : ∀ iovec ∈ entries, Apart iovec ⟨place, summedLength entries⟩) :
    entries.foldl (fun ((memory, current_destination) : Cursor) piece ↦
        (memory.store current_destination (memory.load piece.iov_base piece.iov_len),
          current_destination + piece.iov_len)) (memory, place) =
      (memory.store place (flatten memory entries), place + summedLength entries) := by
  induction entries generalizing memory place with
  | nil =>
    have hnothing : memory.store place [] = memory :=
      funext fun point ↦ store_outside (by rw [List.length_nil]; omega)
    rw [List.foldl_nil, flatten, List.flatMap_nil, hnothing, summedLength, List.map_nil, List.sum_nil, Nat.cast_zero,
      add_zero]
  | cons iovec entries ih =>
    rw [summedLength_cons] at hapart
    let chunk := memory.load iovec.iov_base iovec.iov_len
    have hchunk : chunk.length = iovec.iov_len := length_load memory _ _
    have hrest : flatten (memory.store place chunk) entries = flatten memory entries := by
      refine flatten_congr fun other hother point hpoint ↦ store_outside fun hinside ↦ ?_
      rw [hchunk] at hinside
      exact hapart other (mem_cons_of_mem iovec hother) point hpoint ⟨hinside.1, by push_cast; omega⟩
    have hlater : ∀ other ∈ entries, Apart other ⟨place + iovec.iov_len, summedLength entries⟩ := by
      intro other hother point hpoint hinside
      obtain ⟨hlower, hupper⟩ := hinside
      simp only at hlower hupper
      exact hapart other (mem_cons_of_mem iovec hother) point hpoint ⟨by simp only; omega, by push_cast; omega⟩
    have happend := store_append memory place chunk (flatten memory entries)
    rw [hchunk] at happend
    rw [List.foldl_cons, ih _ hlater, hrest, happend, flatten_cons, summedLength_cons, Nat.cast_add, add_assoc]

/-- What is written over a sequence of two goes to the first and, from its end on, to the second. -/
theorem overwrite_append (source second : List UInt8) {first : List UInt8} {position : ℕ}
    (hposition : position ≤ first.length) :
    overwrite first position (source.take (first.length - position)) ++
        overwrite second 0 (source.drop (first.length - position)) =
      overwrite (first ++ second) position source := by
  have htake : (source.take (first.length - position)).length = min (first.length - position) source.length :=
    length_take
  simp only [overwrite, length_drop, htake, List.take_zero, nil_append, Nat.zero_add, append_assoc]
  rw [List.take_append_of_le_length hposition, List.drop_append]
  obtain hshort | hlong := Nat.le_total source.length (first.length - position)
  · have hdrop : source.length - (first.length - position) = 0 := by omega
    have hnone : position + source.length - first.length = 0 := by omega
    rw [List.take_of_length_le hshort, drop_of_length_le hshort, hdrop, hnone, List.drop_zero, nil_append,
      Nat.min_eq_right hshort]
  · have hend : position + min (first.length - position) source.length = first.length := by omega
    have hrest : source.length - (first.length - position) = position + source.length - first.length := by omega
    rw [hend, List.drop_length, nil_append, hrest, drop_of_length_le (by omega : first.length ≤ _),
      nil_append, ← append_assoc (source.take _), List.take_append_drop]

/-- Storing a part of an entry. -/
theorem load_stored {iovec : Iovec} {chunk : List UInt8} (hinside : write_offset + chunk.length ≤ iovec.iov_len) :
    (memory.store (iovec.iov_base + write_offset) chunk).load iovec.iov_base iovec.iov_len =
      overwrite (memory.load iovec.iov_base iovec.iov_len) write_offset chunk := by
  obtain ⟨rest, hrest⟩ := Nat.exists_eq_add_of_le hinside
  have hbefore : (memory.store (iovec.iov_base + write_offset) chunk).load iovec.iov_base write_offset =
      memory.load iovec.iov_base write_offset :=
    load_congr fun point _ _ ↦ store_outside (by omega)
  have hchunk : (memory.store (iovec.iov_base + write_offset) chunk).load (iovec.iov_base + write_offset)
      chunk.length = chunk := load_of_holds holds_store
  have hafter : (memory.store (iovec.iov_base + write_offset) chunk).load
      (iovec.iov_base + (write_offset + chunk.length : ℕ)) rest =
      memory.load (iovec.iov_base + (write_offset + chunk.length : ℕ)) rest :=
    load_congr fun point _ _ ↦ store_outside (by omega)
  rw [hrest, load_add, load_add, hbefore, hchunk, hafter, load_add,
    load_add, overwrite, List.take_append_of_le_length (by simp), List.take_left' (by simp),
    List.drop_left' (by simp)]

theorem overwrite_nil (bytes : List UInt8) (position : ℕ) : overwrite bytes position [] = bytes := by
  rw [overwrite, append_nil, List.length_nil, Nat.add_zero, List.take_append_drop]

theorem foldl_copyFrom {write_offset remaining : ℕ} {place : ℤ} {source : List UInt8} (hapart : iovecs.Pairwise Apart)
    (hwithin : ∀ iovec ∈ iovecs.head?, write_offset ≤ iovec.iov_len)
    (hsource : memory.load place source.length = source)
    (hlength : source.length = summedLength (pieces iovecs write_offset remaining))
    (hseparate : ∀ iovec ∈ iovecs, Apart iovec ⟨place, source.length⟩) :
    ∃ written position, (pieces iovecs write_offset remaining).foldl (fun ((memory, current_source) : Cursor) piece ↦
        (memory.store piece.iov_base (memory.load current_source piece.iov_len), current_source + piece.iov_len))
        (memory, place) = (written, position) ∧
      flatten written iovecs = overwrite (flatten memory iovecs) write_offset source ∧
      ∀ point, (∀ iovec ∈ iovecs, ¬ iovec.Covers point) → written point = memory point := by
  induction iovecs generalizing write_offset remaining place source memory with
  | nil =>
    obtain rfl := List.eq_nil_of_length_eq_zero hlength
    exact ⟨memory, place, rfl, (overwrite_nil _ _).symm, fun _ _ ↦ rfl⟩
  | cons iovec iovecs ih =>
    by_cases hremaining : remaining = 0
    · rw [hremaining, pieces_zero] at hlength ⊢
      obtain rfl := List.eq_nil_of_length_eq_zero hlength
      exact ⟨memory, place, rfl, (overwrite_nil _ _).symm, fun _ _ ↦ rfl⟩
    obtain ⟨hiovec, hiovecs⟩ := List.pairwise_cons.mp hapart
    have hoffset : write_offset ≤ iovec.iov_len := hwithin iovec rfl
    have hcount := hlength
    rw [summedLength_pieces hwithin, summedLength_cons] at hcount
    -- The source falls into the chunk for this entry and the rest.
    let chunk := source.take (iovec.iov_len - write_offset)
    let rest := source.drop (iovec.iov_len - write_offset)
    have hchunk : chunk.length = min remaining (iovec.iov_len - write_offset) := by
      rw [length_take]
      omega
    have hrest : rest.length = summedLength (pieces iovecs 0 (remaining - chunk.length)) := by
      rw [summedLength_pieces fun _ _ ↦ Nat.zero_le _, hchunk, length_drop]
      omega
    have hsplit : chunk ++ rest = source := List.take_append_drop _ _
    have hparts : chunk.length + rest.length = source.length := by rw [← length_append, hsplit]
    rw [← hparts, load_add] at hsource
    obtain ⟨hfirst, hsecond⟩ := List.append_inj (hsource.trans hsplit.symm) (length_load memory place _)
    -- Storing the chunk keeps the other entries and the source.
    let stored := memory.store (iovec.iov_base + write_offset) chunk
    have hstored : ∀ point, ¬ iovec.Covers point → stored point = memory point := by
      intro point hpoint
      exact store_outside fun hinside ↦ hpoint ⟨by omega, by omega⟩
    have hothers : flatten stored iovecs = flatten memory iovecs := flatten_congr fun other hother point hpoint ↦
        hstored point fun hcovers ↦ hiovec other hother point hcovers hpoint
    have hkept : stored.load (place + chunk.length) rest.length = rest := by
      rw [← hsecond, length_load]
      refine load_congr fun point hlower hupper ↦ hstored point fun hcovers ↦ ?_
      exact hseparate iovec List.mem_cons_self point hcovers ⟨by simp only; omega, by simp only; omega⟩
    obtain ⟨written, position, hrun, hflatten, hframe⟩ := ih hiovecs (fun _ _ ↦ Nat.zero_le _) hkept hrest
      fun other hother point hpoint ⟨hlower, hupper⟩ ↦
        hseparate other (mem_cons_of_mem iovec hother) point hpoint
          ⟨by simp only at hlower ⊢; omega, by simp only at hupper ⊢; omega⟩
    refine ⟨written, position, ?_, ?_, fun point hpoint ↦ ?_⟩
    · rw [← hrun, pieces, if_neg hremaining, List.foldl_cons, ← hchunk]
      simp only [hfirst, stored]
    · have hown : written.load iovec.iov_base iovec.iov_len = stored.load iovec.iov_base iovec.iov_len :=
        load_congr fun point hlower hupper ↦ hframe point fun other hother hcovers ↦
          hiovec other hother point ⟨hlower, hupper⟩ hcovers
      have hload : stored.load iovec.iov_base iovec.iov_len =
          overwrite (memory.load iovec.iov_base iovec.iov_len) write_offset chunk   := load_stored (by omega)
      have happend := overwrite_append source (flatten memory iovecs)
        (hoffset.trans_eq (length_load memory iovec.iov_base iovec.iov_len).symm)
      rw [length_load] at happend
      rw [flatten_cons, flatten_cons, hown, hload, hflatten, hothers, happend]
    · obtain ⟨hhead, htail⟩ := List.forall_mem_cons.mp hpoint
      rw [hframe point htail, hstored point hhead]

/-! ## The transfers -/

theorem copyTo_eq (hlength : iovecs.length ≤ INT_MAX) (htotal : summedLength iovecs < 2 ^ 64)
    {destination : ℤ} (hseparate : Separate iovecs destination offset size) :
    copyTo memory iovecs destination offset size =
      some (memory.store destination (slice memory iovecs offset size), sliceLength iovecs offset size) := by
  obtain ⟨before, after, rfl, hbefore, hafter, hrun⟩ := transferAt_eq
    (fun ((memory, current_destination) : Cursor) piece ↦
      (memory.store current_destination (memory.load piece.iov_base piece.iov_len),
        current_destination + piece.iov_len)) hlength htotal offset size (memory, destination)
  have hslice := slice_append memory size hbefore hafter
  have hsum : summedLength (pieces after (offset - summedLength before) size) =
      sliceLength (before ++ after) offset size := by
    rw [← length_flatten memory, hslice, length_slice]
  have hwithin := fun head hhead ↦ Nat.le_of_lt (hafter head hhead)
  have hpieces := foldl_copyTo memory fun piece hpiece point hpoint hinside ↦ by
    obtain ⟨iovec, hiovec, hcovers⟩ := exists_covers_of_pieces hwithin hpiece hpoint
    exact hseparate iovec (List.mem_append_right before hiovec) point hcovers (hsum ▸ hinside)
  rw [copyTo, hrun, hpieces, Option.map_some, hslice]

theorem overwrite_append_right {first second source : List UInt8} {position : ℕ} (h : first.length ≤ position) :
    overwrite (first ++ second) position source = first ++ overwrite second (position - first.length) source := by
  have hend : position + source.length - first.length = position - first.length + source.length := by omega
  rw [overwrite, overwrite, List.take_append, List.take_of_length_le h, List.drop_append,
    drop_of_length_le (by omega : first.length ≤ _), nil_append, hend, append_assoc, append_assoc,
    append_assoc]

theorem copyFrom_eq (memory : ByteMemory) (hlength : iovecs.length ≤ INT_MAX) (htotal : summedLength iovecs < 2 ^ 64)
    (hapart : iovecs.Pairwise Apart) {source : ℤ} (hseparate : Separate iovecs source offset size) :
    ∃ written, copyFrom memory iovecs source offset size = some (written, sliceLength iovecs offset size) ∧
      flatten written iovecs =
        overwrite (flatten memory iovecs) offset (memory.load source (sliceLength iovecs offset size)) ∧
      ∀ point, (∀ iovec ∈ iovecs, ¬ iovec.Covers point) → written point = memory point := by
  obtain ⟨before, after, rfl, hbefore, hafter, hrun⟩ := transferAt_eq (fun ((memory, current_source) : Cursor) piece ↦
      (memory.store piece.iov_base (memory.load current_source piece.iov_len), current_source + piece.iov_len))
    hlength htotal offset size (memory, source)
  obtain ⟨_, hafters, hbetween⟩ := List.pairwise_append.mp hapart
  let bytes := memory.load source (sliceLength (before ++ after) offset size)
  have hbytes : bytes.length = sliceLength (before ++ after) offset size := length_load _ _ _
  have hslice := slice_append memory size hbefore hafter
  have hsum : bytes.length = summedLength (pieces after (offset - summedLength before) size) := by
    rw [hbytes, ← length_slice memory, ← hslice, length_flatten]
  have hsource : memory.load source bytes.length = bytes := congrArg (memory.load source) hbytes
  obtain ⟨written, position, hpieces, hflatten, hframe⟩ := foldl_copyFrom hafters
    (fun head hhead ↦ Nat.le_of_lt (hafter head hhead)) hsource hsum
    fun iovec hiovec ↦ hbytes ▸ hseparate iovec (List.mem_append_right before hiovec)
  have hpassed : flatten written before = flatten memory before :=
    flatten_congr fun iovec hiovec point hpoint ↦ hframe point fun other hother ↦
      hbetween iovec hiovec other hother point hpoint
  refine ⟨written, ?_, ?_, fun point hpoint ↦ ?_⟩
  · rw [copyFrom, hrun, hpieces, Option.map_some]
  · rw [flatten_append, flatten_append, hpassed, hflatten, overwrite_append_right (by rwa [length_flatten]),
      length_flatten]
  · exact hframe point fun iovec hiovec ↦ hpoint iovec (List.mem_append_right before hiovec)

/-- What was copied in is what is copied out. -/
theorem slice_overwrite {written : ByteMemory} {bytes : List UInt8}
    (hbytes : bytes.length = sliceLength iovecs offset size)
    (h : flatten written iovecs = overwrite (flatten memory iovecs) offset bytes) :
    slice written iovecs offset size = bytes := by
  rw [sliceLength] at hbytes
  rw [slice, h]
  obtain hbehind | hinside := Nat.lt_or_ge (summedLength iovecs) offset
  · obtain rfl := List.eq_nil_of_length_eq_zero (by omega : bytes.length = 0)
    rw [overwrite_nil, drop_of_length_le (by rw [length_flatten]; omega), List.take_nil]
  have htake : ((flatten memory iovecs).take offset).length = offset :=
    List.length_take_of_le (by rwa [length_flatten])
  rw [overwrite, append_assoc, List.drop_left' htake, List.take_append]
  obtain hfull | hshort : bytes.length = size ∨ bytes.length = summedLength iovecs - offset := by omega
  · rw [List.take_of_length_le hfull.le, hfull, Nat.sub_self, List.take_zero, append_nil]
  · have hnone : (flatten memory iovecs).drop (offset + bytes.length) = [] :=
      drop_of_length_le (by rw [length_flatten]; omega)
    rw [List.take_of_length_le (by omega), hnone, List.take_nil, append_nil]

/-- A transfer through fewer entries than an `int` can count is about the slice from the offset on. -/
theorem transfersSlice (h : DisjointMemory iovecs) (hlength : iovecs.length < 2 ^ 31) (offset size : ℕ) :
    TransfersSlice iovecs offset size := by
  have hcount : iovecs.length ≤ INT_MAX := Nat.le_sub_one_of_lt hlength
  have htotal := summedLength_lt h
  refine ⟨fun _ _ ↦ copyTo_eq hcount htotal, fun memory _ ↦ copyFrom_eq memory hcount htotal h.apart, ?_, fun destination ↦ ?_⟩
  · intro memory source destination hsource hdestination
    obtain ⟨written, hrun, hflatten, -⟩ := copyFrom_eq memory hcount htotal h.apart hsource
    refine ⟨written, hrun, ?_⟩
    rw [copyTo_eq hcount htotal hdestination, slice_overwrite (length_load _ _ _) hflatten]
  · obtain ⟨before, after, rfl, hbefore, hafter, hrun⟩ :=
      transferAt_eq (fun destination iov ↦ destination ++ [iov]) hcount htotal offset size destination
    refine ⟨pieces after (offset - summedLength before) size, ?_, fun memory ↦ slice_append memory size hbefore hafter⟩
    rw [appendEntriesTo, hrun, List.foldl_append_eq_append, ← List.flatMap_def, List.flatMap_singleton']

theorem transfersSlice_three : TransfersSlice [⟨16, 4⟩, ⟨0, 0⟩, ⟨32, 4⟩] 2 4 := by
  refine transfersSlice ⟨?_, ?_⟩ (by decide) 2 4
  · simp only [List.pairwise_cons, List.forall_mem_cons, Apart, Iovec.Covers]
    refine ⟨⟨fun _ _ _ ↦ by omega, fun _ _ _ ↦ by omega, fun _ h ↦ ?_⟩, ⟨fun _ _ _ ↦ by omega, fun _ h ↦ ?_⟩,
      fun _ h ↦ ?_, List.Pairwise.nil⟩ <;> cases h
  · simp only [List.forall_mem_cons, Iovec.Covers]
    refine ⟨fun _ _ ↦ by omega, fun _ _ ↦ by omega, fun _ _ ↦ by omega, fun _ h ↦ ?_⟩
    cases h

/-- The index passes the largest `int` on its way through empty entries. -/
theorem lookupFrom_replicate (count : ℕ) {iov_index : ℕ} (h : INT_MAX < iov_index + count)
    (hindex : iov_index ≤ INT_MAX) (rest : IOVector) :
    lookupFrom 0 (List.replicate count ⟨0, 0⟩ ++ rest) ⟨iov_index, 0⟩ = none := by
  induction count generalizing iov_index with
  | zero => omega
  | succ count ih =>
    rw [List.replicate_succ, List.cons_append, lookupFrom, if_neg (fun hfound ↦ Nat.not_lt_zero 0 hfound.2)]
    obtain hlt | heq := Nat.lt_or_eq_of_le hindex
    · have hstep : increment iov_index = some (iov_index + 1) := if_pos hlt
      simp only [hstep, Option.bind_some]
      exact ih (by omega) hlt
    · have hstep : increment iov_index = none := if_neg (by omega)
      simp only [hstep, Option.bind_none]

/-- The byte behind `2 ^ 31` empty entries. -/
theorem too_many_entries :
    ¬ ∀ iovecs offset size, DisjointMemory iovecs → TransfersSlice iovecs offset size := by
  intro hclaim
  let empty : Iovec := ⟨0, 0⟩
  have hnone : ∀ point, ¬ empty.Covers point := fun point h ↦ absurd h.1 (Int.not_le.mpr h.2)
  have hdisjoint : DisjointMemory (List.replicate (2 ^ 31) empty ++ [⟨1, 1⟩]) := by
    constructor
    · refine List.pairwise_append.mpr ⟨List.pairwise_replicate.mpr (Or.inr fun point h ↦ absurd h (hnone point)),
        List.pairwise_singleton _ _, fun iovec hiovec _ _ point hpoint ↦ ?_⟩
      rw [List.eq_of_mem_replicate hiovec] at hpoint
      exact absurd hpoint (hnone point)
    · intro iovec hiovec point hpoint
      obtain hiovec | hiovec := List.mem_append.mp hiovec
      · rw [List.eq_of_mem_replicate hiovec] at hpoint
        exact absurd hpoint (hnone point)
      · rw [List.mem_singleton.mp hiovec] at hpoint
        obtain ⟨hlower, hupper⟩ := hpoint
        simp only at hlower hupper
        exact ⟨by omega, by omega⟩
  obtain ⟨entries, hrun, -⟩ := (hclaim _ 0 1 hdisjoint).appends []
  have hlookup : lookup_iovec (List.replicate (2 ^ 31) empty ++ [⟨1, 1⟩]) 0 = none :=
    lookupFrom_replicate (2 ^ 31) (by rw [INT_MAX]; omega) (Nat.zero_le _) _
  rw [appendEntriesTo, transferAt, hlookup] at hrun
  cases hrun

end FdeEmugl.IOVectors
