import Mathlib.Data.Int.Interval
import Mathlib.Data.List.GetD
import Mathlib.Tactic.Ring

/-!
# Bytes in an address space

A memory gives each address a byte. Storing bytes at an address leaves everything else as it was, so a
range keeps what it holds when the bytes go to a range that is apart from it.
-/

namespace FdeEmugl

abbrev ByteMemory := ℤ → UInt8

namespace ByteMemory

variable {memory : ByteMemory} {address other point : ℤ} {bytes stored : List UInt8}

def store (address : ℤ) (bytes : List UInt8) (memory : ByteMemory) : ByteMemory := fun point ↦
  if address ≤ point ∧ point < address + bytes.length then bytes.getD (point - address).toNat 0 else memory point

/-- The bytes stand at the address. -/
def Holds (memory : ByteMemory) (address : ℤ) (bytes : List UInt8) : Prop :=
  ∀ index : Fin bytes.length, memory (address + (index : ℕ)) = bytes.get index

instance (memory : ByteMemory) (address : ℤ) (bytes : List UInt8) : Decidable (memory.Holds address bytes) :=
  inferInstanceAs (Decidable (∀ index : Fin bytes.length, memory (address + (index : ℕ)) = bytes.get index))

theorem store_outside (h : ¬ (address ≤ point ∧ point < address + bytes.length)) :
    memory.store address bytes point = memory point :=
  if_neg h

theorem holds_store : (memory.store address bytes).Holds address bytes := by
  intro index
  have hindex := index.isLt
  have hinside : address ≤ address + (index : ℕ) ∧ address + (index : ℕ) < address + bytes.length := by omega
  rw [store, if_pos hinside, add_sub_cancel_left, Int.toNat_natCast, List.getD_eq_getElem bytes 0 hindex]
  rfl

/-- A range keeps its bytes when others are stored elsewhere. -/
theorem Holds.store (h : memory.Holds address bytes)
    (hapart : address + bytes.length ≤ other ∨ other + stored.length ≤ address) :
    (memory.store other stored).Holds address bytes := by
  intro index
  have hindex := index.isLt
  rw [store_outside (by omega)]
  exact h index

/-! ## Several stores -/

/-- Bytes for an address. -/
abbrev Store := ℤ × List UInt8

def storeAll (stores : List Store) (memory : ByteMemory) : ByteMemory :=
  stores.foldl (fun memory store ↦ memory.store store.1 store.2) memory

namespace Store

/-- Two stores without a common byte. -/
def Apart (first second : Store) : Prop := first.1 + first.2.length ≤ second.1 ∨ second.1 + second.2.length ≤ first.1

theorem Apart.symm {first second : Store} (h : Apart first second) : Apart second first := Or.symm h

end Store

variable {stores : List Store}

variable {size : ℕ}

theorem Holds.storeAll (h : memory.Holds address bytes)
    (hapart : ∀ other ∈ stores, Store.Apart (address, bytes) other) :
    (memory.storeAll stores).Holds address bytes := by
  induction stores generalizing memory with
  | nil => exact h
  | cons other stores ih =>
    obtain ⟨hother, hstores⟩ := List.forall_mem_cons.mp hapart
    exact ih (h.store hother) hstores

/-- Of stores that are apart from each other, each one leaves its bytes. -/
theorem holds_storeAll (hapart : stores.Pairwise Store.Apart) (hmem : (address, bytes) ∈ stores) :
    (memory.storeAll stores).Holds address bytes := by
  induction stores generalizing memory with
  | nil => cases hmem
  | cons other stores ih =>
    obtain ⟨hother, hstores⟩ := List.pairwise_cons.mp hapart
    obtain rfl | hmem := List.mem_cons.mp hmem
    · exact holds_store.storeAll hother
    · exact ih hstores hmem

/-- The chunks one after the other. -/
def consecutive : ℤ → List (List UInt8) → List Store
  | _, [] => []
  | address, chunk :: chunks => (address, chunk) :: consecutive (address + chunk.length) chunks

/-- Chunks of one size. -/
theorem consecutive_eq_map {chunks : List (List UInt8)} (hsize : ∀ chunk ∈ chunks, chunk.length = size) :
    consecutive address chunks = chunks.mapIdx fun index chunk ↦ (address + size * index, chunk) := by
  induction chunks generalizing address with
  | nil => rfl
  | cons chunk chunks ih =>
    obtain ⟨hchunk, hchunks⟩ := List.forall_mem_cons.mp hsize
    rw [consecutive, ih hchunks, List.mapIdx_cons, hchunk]
    congr 1
    · rw [Nat.cast_zero, mul_zero, add_zero]
    · refine congrArg (fun place ↦ List.mapIdx place chunks) (funext fun index ↦ funext fun chunk ↦ ?_)
      rw [Nat.cast_succ]
      congr 1
      ring

theorem mapIdx_map_range {α β : Type*} (f : ℕ → α) (g : ℕ → α → β) (count : ℕ) :
    ((List.range count).map f).mapIdx g = (List.range count).map fun index ↦ g index (f index) := by
  refine List.ext_getElem (by simp) fun index hleft hright ↦ ?_
  rw [List.getElem_mapIdx, List.getElem_map, List.getElem_map, List.getElem_range]

theorem consecutive_map_range {chunk : ℕ → List UInt8} {count : ℕ}
    (hsize : ∀ index < count, (chunk index).length = size) :
    consecutive address ((List.range count).map chunk) =
      (List.range count).map fun index : ℕ ↦ (address + size * index, chunk index) := by
  have hchunks : ∀ bytes ∈ (List.range count).map chunk, bytes.length = size := by
    intro bytes hbytes
    obtain ⟨index, hindex, rfl⟩ := List.mem_map.mp hbytes
    exact hsize index (List.mem_range.mp hindex)
  rw [consecutive_eq_map hchunks, mapIdx_map_range]

/-- Bytes of one size in different places. -/
theorem apart_of_ne {index other : ℕ} (hne : index ≠ other) (hbytes : bytes.length = size)
    (hstored : stored.length = size) :
    Store.Apart (address + size * index, bytes) (address + size * other, stored) := by
  simp only [Store.Apart, hbytes, hstored]
  obtain hlt | hgt := Nat.lt_or_gt_of_ne hne
  · have hmul : (size : ℤ) * (index + 1 : ℕ) ≤ size * other := by exact_mod_cast Nat.mul_le_mul_left size hlt
    push_cast at hmul
    rw [mul_add, mul_one] at hmul
    omega
  · have hmul : (size : ℤ) * (other + 1 : ℕ) ≤ size * index := by exact_mod_cast Nat.mul_le_mul_left size hgt
    push_cast at hmul
    rw [mul_add, mul_one] at hmul
    omega

theorem pairwise_apart_map {chunk : ℕ → List UInt8} {places : List ℕ} (hnodup : places.Nodup)
    (hsize : ∀ index ∈ places, (chunk index).length = size) :
    (places.map fun index : ℕ ↦ ((address + size * index, chunk index) : Store)).Pairwise Store.Apart := by
  rw [List.pairwise_map]
  exact hnodup.imp_of_mem fun {index other} hindex hother hne ↦
    apart_of_ne hne (hsize index hindex) (hsize other hother)

/-! ## Copying -/

def load (memory : ByteMemory) (address : ℤ) (count : ℕ) : List UInt8 :=
  (List.range count).map fun index : ℕ ↦ memory (address + index)

theorem load_of_holds (h : memory.Holds address bytes) : memory.load address bytes.length = bytes := by
  refine List.ext_getElem (by rw [load, List.length_map, List.length_range]) fun index _ hright ↦ ?_
  simp only [load, List.getElem_map, List.getElem_range]
  exact h ⟨index, hright⟩

@[simp] theorem length_load (memory : ByteMemory) (address : ℤ) (count : ℕ) :
    (memory.load address count).length = count := by
  rw [load, List.length_map, List.length_range]

theorem load_congr {other : ByteMemory} {count : ℕ}
    (h : ∀ point, address ≤ point → point < address + count → memory point = other point) :
    memory.load address count = other.load address count := by
  refine List.map_congr_left fun index hindex ↦ ?_
  have hlt := List.mem_range.mp hindex
  exact h _ (by omega) (by omega)

theorem Holds.unique {other : List UInt8} (h : memory.Holds address bytes) (hother : memory.Holds address other)
    (hlength : bytes.length = other.length) : bytes = other := by
  rw [← load_of_holds h, hlength, load_of_holds hother]

section

variable (memory : ByteMemory) (address : ℤ)

theorem load_add (first second : ℕ) :
    memory.load address (first + second) = memory.load address first ++ memory.load (address + first) second := by
  rw [load, List.range_add, List.map_append, List.map_map, load, load]
  congr 1
  refine List.map_congr_left fun index _ ↦ ?_
  rw [Function.comp_apply, Nat.cast_add, add_assoc]

/-- Pieces of one size. -/
theorem load_mul (count size : ℕ) : memory.load address (count * size) =
      (List.range count).flatMap fun index : ℕ ↦ memory.load (address + size * index) size := by
  induction count with
  | zero => rw [Nat.zero_mul]; rfl
  | succ count ih =>
    rw [Nat.succ_mul, load_add, ih, List.range_succ, List.flatMap_append, List.flatMap_singleton, Nat.cast_mul,
      mul_comm (size : ℤ)]

/-- Two ranges next to each other. -/
theorem store_append (first second : List UInt8) :
    store (address + first.length) second (store address first memory) = store address (first ++ second) memory := by
  funext point
  simp only [store, List.length_append, Nat.cast_add]
  by_cases hbefore : point < address
  · rw [if_neg (by omega), if_neg (by omega), if_neg (by omega)]
  by_cases hfirst : point < address + first.length
  · rw [if_neg (by omega), if_pos (by omega), if_pos (by omega), List.getD_append _ _ _ _ (by omega)]
  by_cases hsecond : point < address + first.length + second.length
  · rw [if_pos (by omega), if_pos (by omega), List.getD_append_right _ _ _ _ (by omega)]
    congr 1
    omega
  · rw [if_neg (by omega), if_neg (by omega), if_neg (by omega)]

end

/-- Chunks one after the other are the bytes that they make together. -/
theorem storeAll_consecutive (chunks : List (List UInt8)) (address : ℤ) (memory : ByteMemory) :
    storeAll (consecutive address chunks) memory = store address chunks.flatten memory := by
  induction chunks generalizing address memory with
  | nil =>
    funext point
    exact (store_outside (by rw [List.flatten_nil, List.length_nil]; omega)).symm
  | cons chunk chunks ih =>
    rw [consecutive, storeAll, List.foldl_cons, ← storeAll, ih, store_append, List.flatten_cons]

theorem mem_consecutive {chunks : List (List UInt8)} {chunk : Store} (h : chunk ∈ consecutive address chunks) :
    address ≤ chunk.1 ∧ chunk.1 + chunk.2.length ≤ address + chunks.flatten.length := by
  induction chunks generalizing address with
  | nil => cases h
  | cons first chunks ih =>
    rw [List.flatten_cons, List.length_append, Nat.cast_add]
    obtain rfl | h := List.mem_cons.mp h
    · exact ⟨le_rfl, Int.add_le_add_left (Int.le_add_of_nonneg_right (Int.natCast_nonneg _)) _⟩
    · have hrest := ih h
      omega

theorem storeAll_append (first second : List Store) (memory : ByteMemory) :
    storeAll (first ++ second) memory = storeAll second (storeAll first memory) := List.foldl_append

/-- Pieces that do the same. -/
theorem storeAll_flatMap_congr {α : Type*} {pieces : List α} {first second : α → List Store}
    (h : ∀ piece ∈ pieces, ∀ memory, storeAll (first piece) memory = storeAll (second piece) memory)
    (memory : ByteMemory) : storeAll (pieces.flatMap first) memory = storeAll (pieces.flatMap second) memory := by
  induction pieces generalizing memory with
  | nil => rfl
  | cons piece pieces ih =>
    obtain ⟨hpiece, hpieces⟩ := List.forall_mem_cons.mp h
    rw [List.flatMap_cons, List.flatMap_cons, storeAll_append, storeAll_append, hpiece, ih hpieces]

/-- A store leaves its bytes if all others are apart or the same. -/
theorem holds_storeAll_of_agree {bytes : List UInt8} (hmem : (address, bytes) ∈ stores)
    (hagree : ∀ other ∈ stores, other = (address, bytes) ∨ Store.Apart (address, bytes) other) :
    (memory.storeAll stores).Holds address bytes := by
  have hkeeps : ∀ (stores : List Store) (memory : ByteMemory), memory.Holds address bytes →
      (∀ other ∈ stores, other = (address, bytes) ∨ Store.Apart (address, bytes) other) →
      (memory.storeAll stores).Holds address bytes := by
    intro stores
    induction stores with
    | nil => exact fun _ h _ ↦ h
    | cons other stores ih =>
      intro memory h hagree
      obtain ⟨hother, hstores⟩ := List.forall_mem_cons.mp hagree
      refine ih _ ?_ hstores
      obtain rfl | hapart := hother
      · exact holds_store
      · exact h.store hapart
  induction stores generalizing memory with
  | nil => cases hmem
  | cons other stores ih =>
    obtain ⟨_, hstores⟩ := List.forall_mem_cons.mp hagree
    obtain rfl | hmem := List.mem_cons.mp hmem
    · exact hkeeps stores _ holds_store hstores
    · exact ih hmem hstores

end ByteMemory

end FdeEmugl
