import FdeEmugl.Library.LinkedIndices
import FdeEmugl.Library.Runs
import Mathlib.Data.Nat.Bitwise
import Mathlib.Data.UInt

/-!
# EntityManager

Handles are made of an index, a generation and a type. An entry that is not in use is on a free
list, which is linked through the entries themselves. Whether an entry is in use is told from its
live generation alone: a handle with that generation is taken for one that was given out, even when
the entry is on the free list.
-/

namespace FdeEmugl.Entities

open Runs LinkedIndices
open List (length_append length_cons length_modify nodup_cons)
open Function (update_of_ne update_self)

/-- The template parameters. Fewer than two generation bits would give an entry the same generation
after each removal. -/
structure Bits where
  indexBits : ℕ
  generationBits : ℕ
  typeBits : ℕ
  sum : indexBits + generationBits + typeBits = 64
  two_le_generationBits : 2 ≤ generationBits
  typeBits_pos : 0 < typeBits

section Handles

variable (bits : Bits)

def getHandleIndex (h : UInt64) : ℕ := h.toNat % 2 ^ bits.indexBits

def getHandleGeneration (h : UInt64) : ℕ := (h.toNat >>> bits.indexBits) % 2 ^ bits.generationBits

def makeHandle (index generation type : ℕ) : UInt64 :=
  UInt64.ofNat (index ||| generation <<< bits.indexBits |||
    type <<< (bits.indexBits + bits.generationBits))

variable {bits}

theorem getHandleIndex_makeHandle {index : ℕ} (h : index < 2 ^ bits.indexBits)
    (generation type : ℕ) : getHandleIndex bits (makeHandle bits index generation type) = index := by
  have hbits := bits.sum
  apply Nat.eq_of_testBit_eq
  intro i
  simp only [getHandleIndex, makeHandle, UInt64.toNat_ofNat', Nat.testBit_mod_two_pow,
    Nat.testBit_or, Nat.testBit_shiftLeft]
  by_cases hi : i < bits.indexBits
  · simp [hi, show i < 64 by omega, show ¬ bits.indexBits ≤ i by omega,
      show ¬ bits.indexBits + bits.generationBits ≤ i by omega]
  · have hhigh : index.testBit i = false :=
      Nat.testBit_lt_two_pow (h.trans_le (Nat.pow_le_pow_right (by decide) (Nat.le_of_not_lt hi)))
    simp [hi, hhigh]

theorem getHandleGeneration_makeHandle {index generation : ℕ} (hindex : index < 2 ^ bits.indexBits)
    (h : generation < 2 ^ bits.generationBits) (type : ℕ) :
    getHandleGeneration bits (makeHandle bits index generation type) = generation := by
  have hbits := bits.sum
  apply Nat.eq_of_testBit_eq
  intro i
  simp only [getHandleGeneration, makeHandle, UInt64.toNat_ofNat', Nat.testBit_mod_two_pow,
    Nat.testBit_or, Nat.testBit_shiftLeft, Nat.testBit_shiftRight]
  by_cases hi : i < bits.generationBits
  · have hlow : index.testBit (bits.indexBits + i) = false :=
      Nat.testBit_lt_two_pow (hindex.trans_le (Nat.pow_le_pow_right (by decide) (Nat.le_add_right _ _)))
    simp [hi, hlow, show bits.indexBits + i < 64 by omega,
      show ¬ bits.indexBits + bits.generationBits ≤ bits.indexBits + i by omega]
  · have hhigh : generation.testBit i = false :=
      Nat.testBit_lt_two_pow (h.trans_le (Nat.pow_le_pow_right (by decide) (Nat.le_of_not_lt hi)))
    simp [hi, hhigh]

theorem getHandleIndex_lt (h : UInt64) : getHandleIndex bits h < 2 ^ bits.indexBits :=
  Nat.mod_lt _ (Nat.two_pow_pos _)

theorem getHandleGeneration_lt (h : UInt64) : getHandleGeneration bits h < 2 ^ bits.generationBits :=
  Nat.mod_lt _ (Nat.two_pow_pos _)

end Handles

structure EntityEntry (Item : Type*) where
  handle : UInt64
  nextFreeIndex : ℕ
  liveGeneration : ℕ
  item : Item
deriving Repr, DecidableEq

structure EntityManager (Item : Type*) where
  mEntries : List (EntityEntry Item)
  mFirstFreeIndex : ℕ
  mLiveEntries : ℕ
deriving Repr, DecidableEq

variable {Item : Type*}

namespace EntityManager

variable (bits : Bits)

def new (Item : Type*) : EntityManager Item := ⟨[], 0, 0⟩

section Adding

variable [Inhabited Item]

/-- What `resize` appends, and the loop behind it fills in. -/
def newEntry (type index : ℕ) : EntityEntry Item := ⟨makeHandle bits index 0 type, index + 1, 1, default⟩

/-- Room for an index, doubled. -/
def grow (newIndex type : ℕ) (manager : EntityManager Item) : EntityManager Item :=
  let neededCapacity := newIndex + 1
  let nextCapacity := min (neededCapacity <<< 1) (2 ^ bits.indexBits)
  let currentCapacity := manager.mEntries.length
  if neededCapacity > currentCapacity then
    { manager with
      mEntries := manager.mEntries ++
        (List.range' currentCapacity (nextCapacity - currentCapacity)).map (newEntry bits type) }
  else manager

/-- The result is `none` for `INVALID_ENTITY_HANDLE`. -/
def add (item : Item) (type : ℕ) (manager : EntityManager Item) :
    Option UInt64 × EntityManager Item :=
  let maxElements := 2 ^ bits.indexBits
  let newIndex := manager.mFirstFreeIndex
  if type = 0 ∨ manager.mLiveEntries = maxElements ∨ maxElements < newIndex + 1 then (none, manager)
  else
    let grown := manager.grow bits newIndex type
    match grown.mEntries[newIndex]? with
    | none => (none, grown)
    | some entry =>
      let handle := makeHandle bits newIndex entry.liveGeneration type
      (some handle,
        { mEntries := grown.mEntries.modify newIndex fun entry ↦ { entry with handle, item }
          mFirstFreeIndex := entry.nextFreeIndex
          mLiveEntries := grown.mLiveEntries + 1 })

/-- Where the entry at an index sends a walk through the free list. Behind the last entry there is
nothing to read; such a walk does not get anywhere. -/
def nextFree (entries : List (EntityEntry Item)) (index : ℕ) : ℕ :=
  (entries[index]?.map EntityEntry.nextFreeIndex).getD index

/-- The entry becomes that of the given handle. -/
def fix (fixedHandle : UInt64) (item : Item) (entry : EntityEntry Item) : EntityEntry Item :=
  { entry with
    handle := fixedHandle
    liveGeneration := getHandleGeneration bits fixedHandle
    item }

/-- `none` if the walk to the entry before a free one does not end. -/
def addFixed (fixedHandle : UInt64) (item : Item) (type : ℕ) (manager : EntityManager Item) :
    Option (Option UInt64 × EntityManager Item) :=
  let maxElements := 2 ^ bits.indexBits
  let newIndex := getHandleIndex bits fixedHandle
  if type = 0 ∨ manager.mLiveEntries = maxElements ∨ maxElements < newIndex + 1 then
    some (none, manager)
  else
    let grown := manager.grow bits newIndex type
    match grown.mEntries[newIndex]? with
    | none => some (none, grown)
    | some entry =>
      let entries := grown.mEntries.modify newIndex (fix bits fixedHandle item)
      if grown.mFirstFreeIndex = newIndex then
        some (some fixedHandle,
          { mEntries := entries
            mFirstFreeIndex := entry.nextFreeIndex
            mLiveEntries := grown.mLiveEntries + 1 })
      else if entry.liveGeneration = getHandleGeneration bits entry.handle then
        -- the entry is in use: it is replaced
        some (some fixedHandle, { grown with mEntries := entries })
      else
        (findPrevious (nextFree entries) newIndex (entries.length + 1) grown.mFirstFreeIndex).map
          fun prevEntryIndex ↦
            (some fixedHandle,
              { grown with
                mEntries := entries.modify prevEntryIndex fun previous ↦
                  { previous with nextFreeIndex := entry.nextFreeIndex }
                mLiveEntries := grown.mLiveEntries + 1 })

end Adding

def get (h : UInt64) (manager : EntityManager Item) : Option Item :=
  match manager.mEntries[getHandleIndex bits h]? with
  | none => none
  | some entry =>
    if entry.liveGeneration ≠ getHandleGeneration bits h then none else some entry.item

def nextGeneration (generation : ℕ) : ℕ :=
  if generation + 1 = 2 ^ bits.generationBits then 1 else generation + 1

/-- The counter is a `size_t`. -/
def remove (h : UInt64) (manager : EntityManager Item) : EntityManager Item :=
  if (manager.get bits h).isNone then manager
  else
    { mEntries := manager.mEntries.modify (getHandleIndex bits h) fun entry ↦
        { entry with
          liveGeneration := nextGeneration bits entry.liveGeneration
          nextFreeIndex := manager.mFirstFreeIndex }
      mFirstFreeIndex := getHandleIndex bits h
      mLiveEntries := (manager.mLiveEntries + (2 ^ 64 - 1)) % 2 ^ 64 }

end EntityManager

/-! ## What was added and not removed -/

/-- The manager, and next to it the generation under which each index was added and not removed
since. -/
structure Table (Item : Type*) where
  manager : EntityManager Item
  live : ℕ → Option ℕ

inductive Call (Item : Type*) where
  | add (item : Item) (type : ℕ)
  | addFixed (fixedHandle : UInt64) (item : Item) (type : ℕ)
  | remove (h : UInt64)
  | get (h : UInt64)

variable (bits : Bits)

def Table.new (Item : Type*) : Table Item := ⟨.new Item, fun _ ↦ none⟩

/-- An index is live under the generation of the handle that was returned. -/
def noteAdded (result : Option UInt64) (live : ℕ → Option ℕ) : ℕ → Option ℕ :=
  match result with
  | none => live
  | some h => Function.update live (getHandleIndex bits h) (some (getHandleGeneration bits h))

def noteRemoved (h : UInt64) (live : ℕ → Option ℕ) : ℕ → Option ℕ :=
  if live (getHandleIndex bits h) = some (getHandleGeneration bits h) then
    Function.update live (getHandleIndex bits h) none
  else live

def step [Inhabited Item] : Call Item → Table Item → Option (Table Item)
  | .add item type, table =>
    let (result, manager) := table.manager.add bits item type
    some ⟨manager, noteAdded bits result table.live⟩
  | .addFixed fixedHandle item type, table =>
    (table.manager.addFixed bits fixedHandle item type).map fun (result, manager) ↦
      ⟨manager, noteAdded bits result table.live⟩
  | .remove h, table => some ⟨table.manager.remove bits h, noteRemoved bits h table.live⟩
  | .get _, table => some table

/-- The handle carries the generation that an entry on the free list will have next. -/
def Forged (h : UInt64) (manager : EntityManager Item) : Prop :=
  match manager.mEntries[getHandleIndex bits h]? with
  | none => False
  | some entry =>
    entry.liveGeneration = getHandleGeneration bits h ∧ entry.liveGeneration ≠ getHandleGeneration bits entry.handle

/-- No forged handle is removed. -/
def RemovesGenuine : Call Item → Table Item → Prop
  | .remove h, table => ¬ Forged bits h table.manager
  | .add _ _, _ | .addFixed _ _ _, _ | .get _, _ => True

/-! ## The free list -/

/-- The generation of an entry in use, as the manager itself tells it. -/
def liveAt (entries : List (EntityEntry Item)) (index : ℕ) : Option ℕ :=
  entries[index]?.bind fun entry ↦
    if entry.liveGeneration = getHandleGeneration bits entry.handle then some entry.liveGeneration
    else none

/-- The free list visits each entry that is not in use once and ends behind the last entry. -/
structure Sound (manager : EntityManager Item) (free : List ℕ) : Prop where
  linked : Linked (EntityManager.nextFree manager.mEntries) manager.mEntries.length
    manager.mFirstFreeIndex free
  nodup : free.Nodup
  mem_free : ∀ index, index ∈ free ↔ index < manager.mEntries.length ∧ liveAt bits manager.mEntries index = none
  count : free.length + manager.mLiveEntries = manager.mEntries.length
  length_le : manager.mEntries.length ≤ 2 ^ bits.indexBits
  generation_lt : ∀ entry ∈ manager.mEntries, entry.liveGeneration < 2 ^ bits.generationBits

variable {bits} {manager : EntityManager Item} {free : List ℕ} {index : ℕ} {entry : EntityEntry Item}

open EntityManager

variable {entries : List (EntityEntry Item)} {capacity generation : ℕ}

theorem nextFree_eq (h : entries[index]? = some entry) : nextFree entries index = entry.nextFreeIndex := by
  simp [nextFree, h]

theorem nextFree_modify_of_ne (entries : List (EntityEntry Item)) {other : ℕ} (hne : other ≠ index)
    (change : EntityEntry Item → EntityEntry Item) :
    nextFree (entries.modify index change) other = nextFree entries other := by
  simp [nextFree, Ne.symm hne]

theorem nextFree_modify_self (h : entries[index]? = some entry) (change : EntityEntry Item → EntityEntry Item) :
    nextFree (entries.modify index change) index = (change entry).nextFreeIndex := by
  simp [nextFree, h]

theorem liveAt_modify_of_ne (entries : List (EntityEntry Item)) {other : ℕ} (hne : other ≠ index)
    (change : EntityEntry Item → EntityEntry Item) :
    liveAt bits (entries.modify index change) other = liveAt bits entries other := by
  simp [liveAt, Ne.symm hne]

theorem liveAt_modify_self (h : entries[index]? = some entry) (change : EntityEntry Item → EntityEntry Item) :
    liveAt bits (entries.modify index change) index =
      if (change entry).liveGeneration = getHandleGeneration bits (change entry).handle then
        some (change entry).liveGeneration else none := by
  simp [liveAt, h]

theorem liveAt_modify (h : entries[index]? = some entry) {change : EntityEntry Item → EntityEntry Item}
    {generation : Option ℕ}
    (hchange : (if (change entry).liveGeneration = getHandleGeneration bits (change entry).handle then some (change entry).liveGeneration else none) = generation) :
    liveAt bits (entries.modify index change) = Function.update (liveAt bits entries) index generation := by
  funext other
  by_cases heq : other = index
  · rw [heq, liveAt_modify_self h, hchange, update_self]
  · rw [liveAt_modify_of_ne entries heq, update_of_ne heq]

/-- The generations after one entry is changed. -/
theorem generation_lt_modify (h : ∀ entry ∈ entries, entry.liveGeneration < 2 ^ bits.generationBits)
    (hentry : entries[index]? = some entry) {change : EntityEntry Item → EntityEntry Item}
    (hchange : (change entry).liveGeneration < 2 ^ bits.generationBits) :
    ∀ other ∈ entries.modify index change, other.liveGeneration < 2 ^ bits.generationBits := by
  intro other hother
  obtain ⟨position, hposition⟩ := List.mem_iff_getElem?.mp hother
  by_cases heq : index = position
  · subst heq
    have hsame : change entry = other := by simpa [hentry] using hposition
    exact hsame ▸ hchange
  · have hsame : entries[position]? = some other := by simpa [heq] using hposition
    exact h other (List.mem_of_getElem? hsame)

theorem sound_new : Sound bits (EntityManager.new Item) [] where
  linked := rfl
  nodup := .nil
  mem_free index := by simp [EntityManager.new]
  count := rfl
  length_le := Nat.zero_le _
  generation_lt _ hentry := by cases hentry

theorem Sound.liveAt_eq_none_of_mem (h : Sound bits manager free) (hmem : index ∈ free) :
    liveAt bits manager.mEntries index = none :=
  ((h.mem_free index).mp hmem).2

/-- The entries that `grow` appends. -/
abbrev addedEntries [Inhabited Item] (bits : Bits) (type current capacity : ℕ) : List (EntityEntry Item) :=
  (List.range' current (capacity - current)).map (newEntry bits type)

theorem getElem?_append_addedEntries [Inhabited Item] (entries : List (EntityEntry Item)) (type : ℕ)
    {position : ℕ} (hposition : entries.length ≤ position) (hlt : position < capacity) :
    (entries ++ addedEntries bits type entries.length capacity)[position]? = some (newEntry bits type position) := by
  rw [List.getElem?_append_right hposition, List.getElem?_map, List.getElem?_range' (by omega)]
  simp only [Option.map_some]
  congr 2
  omega

/-- None of the entries that are appended is in use. -/
theorem liveAt_append_addedEntries [Inhabited Item] (entries : List (EntityEntry Item)) (type : ℕ)
    (hlimit : capacity ≤ 2 ^ bits.indexBits) :
    liveAt bits (entries ++ addedEntries bits type entries.length capacity) = liveAt bits entries := by
  funext position
  by_cases hposition : position < entries.length
  · rw [liveAt, List.getElem?_append_left hposition, liveAt]
  · have hnone : entries[position]? = none := List.getElem?_eq_none (by omega)
    by_cases hlt : position < capacity
    · have hgeneration : getHandleGeneration bits (makeHandle bits position 0 type) = 0 :=
        getHandleGeneration_makeHandle (hlt.trans_le hlimit) (Nat.two_pow_pos _) type
      simp [liveAt, getElem?_append_addedEntries entries type (by omega) hlt, hgeneration, hnone, newEntry]
    · have hbeyond : (entries ++ addedEntries bits type entries.length capacity)[position]? = none := by
        refine List.getElem?_eq_none ?_
        simp only [length_append, List.length_map, List.length_range']
        omega
      simp [liveAt, hnone, hbeyond]

/-- The free list goes on through the entries that are appended. -/
theorem linked_append_addedEntries [Inhabited Item] (h : Sound bits manager free) (type : ℕ)
    (hmore : manager.mEntries.length ≤ capacity) :
    Linked (nextFree (manager.mEntries ++ addedEntries bits type manager.mEntries.length capacity)) capacity
      manager.mFirstFreeIndex
      (free ++ List.range' manager.mEntries.length (capacity - manager.mEntries.length)) := by
  refine linked_append.mpr ⟨manager.mEntries.length, ?_, ?_⟩
  · refine h.linked.congr fun position hposition ↦ ?_
    have hlt := ((h.mem_free position).mp hposition).1
    rw [nextFree, nextFree, List.getElem?_append_left hlt]
  · have hrange : Linked
        (nextFree (manager.mEntries ++ addedEntries bits type manager.mEntries.length capacity))
        (manager.mEntries.length + (capacity - manager.mEntries.length)) manager.mEntries.length
        (List.range' manager.mEntries.length (capacity - manager.mEntries.length)) :=
      linked_range fun position hstart hend ↦
        nextFree_eq (getElem?_append_addedEntries manager.mEntries type hstart (by omega))
    rwa [Nat.add_sub_cancel' hmore] at hrange

/-- The entries that are appended go to the end of the free list. -/
theorem Sound.grow [Inhabited Item] (h : Sound bits manager free) (hindex : index < 2 ^ bits.indexBits) (type : ℕ) :
    ∃ free', Sound bits (manager.grow bits index type) free' ∧
      liveAt bits (manager.grow bits index type).mEntries = liveAt bits manager.mEntries ∧
      index < (manager.grow bits index type).mEntries.length ∧
      (manager.grow bits index type).mFirstFreeIndex = manager.mFirstFreeIndex ∧
      (manager.grow bits index type).mLiveEntries = manager.mLiveEntries := by
  unfold EntityManager.grow
  simp only
  split_ifs with hneeded
  · set current := manager.mEntries.length with hcurrent
    set capacity := min ((index + 1) <<< 1) (2 ^ bits.indexBits) with hcapacity
    have hroom : index < capacity := by
      rw [hcapacity, Nat.shiftLeft_eq]
      omega
    have hlimit : capacity ≤ 2 ^ bits.indexBits := min_le_right _ _
    set added := (List.range' current (capacity - current)).map (newEntry bits type : ℕ → EntityEntry Item)
      with hadded
    have hlength : (manager.mEntries ++ added).length = capacity := by
      simp only [hadded, length_append, List.length_map, List.length_range', ← hcurrent]
      omega
    have hlive : liveAt bits (manager.mEntries ++ added) = liveAt bits manager.mEntries :=
      liveAt_append_addedEntries manager.mEntries type hlimit
    refine ⟨free ++ List.range' current (capacity - current), ?_, hlive, by simpa only [hlength] using hroom, rfl, rfl⟩
    constructor
    · simp only [hlength]
      have hmore : current ≤ capacity := by omega
      exact linked_append_addedEntries h type hmore
    · refine List.nodup_append.mpr ⟨h.nodup, List.nodup_range', ?_⟩
      rintro position hposition other hother rfl
      have hlt := ((h.mem_free position).mp hposition).1
      have hge := (List.mem_range'_1.mp hother).1
      omega
    · intro position
      simp only [List.mem_append, h.mem_free, List.mem_range'_1, hlength, hlive, ← hcurrent]
      have hnone : current ≤ position → liveAt bits manager.mEntries position = none := fun hle ↦ by
        simp [liveAt, List.getElem?_eq_none (show manager.mEntries.length ≤ position from hle)]
      constructor
      · rintro (⟨hlt, hfree⟩ | ⟨hge, hlt⟩)
        · exact ⟨by omega, hfree⟩
        · exact ⟨by omega, hnone hge⟩
      · rintro ⟨hlt, hfree⟩
        by_cases hposition : position < current
        · exact .inl ⟨hposition, hfree⟩
        · exact .inr ⟨by omega, by omega⟩
    · simp only [length_append, List.length_range', hadded, List.length_map]
      have hcount := h.count
      omega
    · rw [hlength]
      exact hlimit
    · intro other hother
      obtain hother | hother := List.mem_append.mp hother
      · exact h.generation_lt other hother
      · obtain ⟨position, _, rfl⟩ := List.mem_map.mp hother
        have hpow := Nat.pow_le_pow_right (show 0 < 2 by decide) bits.two_le_generationBits
        show 1 < 2 ^ bits.generationBits
        omega
  · exact ⟨free, h, rfl, by omega, rfl, rfl⟩

/-- The first entry of the free list is taken into use. -/
theorem Sound.takeFirst (h : Sound bits manager free) (hentry : manager.mEntries[index]? = some entry)
    (hfirst : manager.mFirstFreeIndex = index) (change : EntityEntry Item → EntityEntry Item)
    (hgeneration : (change entry).liveGeneration = generation)
    (hhandle : getHandleGeneration bits (change entry).handle = generation) :
    ∃ free', Sound bits ⟨manager.mEntries.modify index change, entry.nextFreeIndex, manager.mLiveEntries + 1⟩ free' ∧
      liveAt bits (manager.mEntries.modify index change) =
        Function.update (liveAt bits manager.mEntries) index (some generation) ∧
      liveAt bits manager.mEntries index = none := by
  have hlt : index < manager.mEntries.length := (List.getElem?_eq_some_iff.mp hentry).1
  have hlive : liveAt bits (manager.mEntries.modify index change) =
      Function.update (liveAt bits manager.mEntries) index (some generation) :=
    liveAt_modify hentry (by rw [hgeneration, hhandle, if_pos rfl])
  obtain ⟨_, hend⟩ | ⟨rest, rfl, hrest⟩ := h.linked.head_eq
  · omega
  · rw [hfirst] at h hrest
    rw [nextFree_eq hentry] at hrest
    obtain ⟨hnotMem, hnodup⟩ := nodup_cons.mp h.nodup
    refine ⟨rest, ?_, hlive, h.liveAt_eq_none_of_mem (.head rest)⟩
    constructor
    · simp only [length_modify]
      refine hrest.congr fun other hother ↦ (nextFree_modify_of_ne _ ?_ change).symm
      exact fun heq ↦ hnotMem (heq ▸ hother)
    · exact hnodup
    · intro other
      simp only [length_modify, hlive]
      by_cases heq : other = index
      · simp [heq, hnotMem]
      · rw [update_of_ne heq, ← h.mem_free, List.mem_cons, or_iff_right heq]
    · have hcount := h.count
      simp only [length_cons, length_modify] at hcount ⊢
      omega
    · simpa only [length_modify] using h.length_le
    · refine generation_lt_modify h.generation_lt hentry ?_
      rw [hgeneration, ← hhandle]
      exact getHandleGeneration_lt _

/-- An entry keeps its link. -/
theorem nextFree_modify (hentry : entries[index]? = some entry) {change : EntityEntry Item → EntityEntry Item}
    (hkeep : (change entry).nextFreeIndex = entry.nextFreeIndex) :
    nextFree (entries.modify index change) = nextFree entries := by
  funext other
  by_cases heq : other = index
  · rw [heq, nextFree_modify_self hentry, hkeep, nextFree_eq hentry]
  · exact nextFree_modify_of_ne entries heq change

section

variable (h : Sound bits manager free) (hentry : manager.mEntries[index]? = some entry)
include h hentry

/-- An entry in use is replaced. -/
theorem Sound.replace (hlive : liveAt bits manager.mEntries index = some generation)
    (change : EntityEntry Item → EntityEntry Item)
    (hkeep : (change entry).nextFreeIndex = entry.nextFreeIndex) {generation' : ℕ}
    (hgeneration : (change entry).liveGeneration = generation')
    (hhandle : getHandleGeneration bits (change entry).handle = generation') :
    Sound bits { manager with mEntries := manager.mEntries.modify index change } free ∧
      liveAt bits (manager.mEntries.modify index change) =
        Function.update (liveAt bits manager.mEntries) index (some generation') := by
  have hlive' : liveAt bits (manager.mEntries.modify index change) =
      Function.update (liveAt bits manager.mEntries) index (some generation') :=
    liveAt_modify hentry (by rw [hgeneration, hhandle, if_pos rfl])
  refine ⟨⟨?_, h.nodup, ?_, ?_, ?_, ?_⟩, hlive'⟩
  · simpa only [length_modify, nextFree_modify hentry hkeep] using h.linked
  · intro other
    simp only [length_modify, hlive', h.mem_free]
    by_cases heq : other = index
    · simp [heq, hlive]
    · rw [update_of_ne heq]
  · simpa only [length_modify] using h.count
  · simpa only [length_modify] using h.length_le
  · refine generation_lt_modify h.generation_lt hentry ?_
    rw [hgeneration, ← hhandle]
    exact getHandleGeneration_lt _

/-- A free entry that is not the first one is taken into use; the walk finds the one before it. -/
theorem Sound.takeInner (hfirst : manager.mFirstFreeIndex ≠ index)
    (hfree : liveAt bits manager.mEntries index = none) (change : EntityEntry Item → EntityEntry Item)
    (hkeep : (change entry).nextFreeIndex = entry.nextFreeIndex)
    (hgeneration : (change entry).liveGeneration = generation)
    (hhandle : getHandleGeneration bits (change entry).handle = generation) :
    ∃ previous free', findPrevious (nextFree (manager.mEntries.modify index change)) index
        ((manager.mEntries.modify index change).length + 1) manager.mFirstFreeIndex = some previous ∧
      Sound bits ⟨(manager.mEntries.modify index change).modify previous fun previous ↦
            { previous with nextFreeIndex := entry.nextFreeIndex },
          manager.mFirstFreeIndex, manager.mLiveEntries + 1⟩ free' ∧
      liveAt bits ((manager.mEntries.modify index change).modify previous fun previous ↦
          { previous with nextFreeIndex := entry.nextFreeIndex }) =
        Function.update (liveAt bits manager.mEntries) index (some generation) := by
  have hlt : index < manager.mEntries.length := (List.getElem?_eq_some_iff.mp hentry).1
  have hmem : index ∈ free := (h.mem_free index).mpr ⟨hlt, hfree⟩
  obtain ⟨before, previous, after, rfl, hnext, hafter⟩ := h.linked.predecessor hmem (Ne.symm hfirst)
  have hlinks := nextFree_modify hentry hkeep
  have hlive : liveAt bits (manager.mEntries.modify index change) =
      Function.update (liveAt bits manager.mEntries) index (some generation) :=
    liveAt_modify hentry (by rw [hgeneration, hhandle, if_pos rfl])
  have hpreviousLt := ((h.mem_free previous).mp (by simp)).1
  have hne : previous ≠ index := by
    rintro rfl
    have hnodup := (List.nodup_append.mp h.nodup).2.1
    exact (nodup_cons.mp hnodup).1 (.head after)
  obtain ⟨previousEntry, hprevious⟩ : ∃ previousEntry,
      (manager.mEntries.modify index change)[previous]? = some previousEntry :=
    ⟨_, List.getElem?_eq_getElem (by rwa [length_modify])⟩
  -- only the link of the entry before changes
  have hlive' : liveAt bits ((manager.mEntries.modify index change).modify previous fun previous ↦
      { previous with nextFreeIndex := entry.nextFreeIndex }) =
        liveAt bits (manager.mEntries.modify index change) := by
    rw [liveAt_modify hprevious rfl]
    funext other
    by_cases heq : other = previous
    · rw [heq, update_self, liveAt, hprevious, Option.bind_some]
    · rw [update_of_ne heq]
  have hlinks' : nextFree ((manager.mEntries.modify index change).modify previous fun previous ↦
      { previous with nextFreeIndex := entry.nextFreeIndex }) =
        Function.update (nextFree manager.mEntries) previous (nextFree manager.mEntries index) := by
    funext other
    by_cases heq : other = previous
    · rw [heq, nextFree_modify_self hprevious, update_self, nextFree_eq hentry]
    · rw [nextFree_modify_of_ne _ heq, hlinks, update_of_ne heq]
  refine ⟨previous, before ++ previous :: after, ?_, ⟨?_, ?_, ?_, ?_, ?_, ?_⟩, hlive'.trans hlive⟩
  · rw [hlinks]
    refine findPrevious_eq h.linked h.nodup ?_
    have hcount := h.count
    simp only [length_append, length_cons, length_modify] at hcount ⊢
    omega
  · simp only [length_modify, hlinks']
    exact h.linked.unlink h.nodup
  · refine h.nodup.sublist ?_
    simp
  · intro other
    simp only [length_modify, hlive', hlive]
    by_cases heq : other = index
    · subst heq
      have hnotMem : other ∉ before ++ previous :: after := by
        have hperm : (before ++ previous :: other :: after).Perm (other :: (before ++ previous :: after)) :=
          ((List.Perm.swap other previous after).append_left before).trans List.perm_middle
        exact (nodup_cons.mp (hperm.nodup_iff.mp h.nodup)).1
      simp [hnotMem]
    · rw [update_of_ne heq, ← h.mem_free]
      simp [heq]
  · have hcount := h.count
    simp only [length_append, length_cons, length_modify] at hcount ⊢
    omega
  · simpa only [length_modify] using h.length_le
  · have hbound : ∀ other ∈ manager.mEntries.modify index change,
        other.liveGeneration < 2 ^ bits.generationBits :=
      generation_lt_modify h.generation_lt hentry
        (by rw [hgeneration, ← hhandle]; exact getHandleGeneration_lt _)
    exact generation_lt_modify hbound hprevious (hbound previousEntry (List.mem_of_getElem? hprevious))

end

theorem nextGeneration_ne (h : generation < 2 ^ bits.generationBits) :
    nextGeneration bits generation ≠ generation ∧ nextGeneration bits generation < 2 ^ bits.generationBits := by
  have hpow := Nat.pow_le_pow_right (show 0 < 2 by decide) bits.two_le_generationBits
  unfold nextGeneration
  split_ifs <;> omega

/-- An entry in use goes to the front of the free list. -/
theorem Sound.release (h : Sound bits manager free) (hentry : manager.mEntries[index]? = some entry)
    (hlive : liveAt bits manager.mEntries index = some generation) :
    Sound bits ⟨manager.mEntries.modify index fun entry ↦
          { entry with
            liveGeneration := nextGeneration bits entry.liveGeneration
            nextFreeIndex := manager.mFirstFreeIndex },
        index, (manager.mLiveEntries + (2 ^ 64 - 1)) % 2 ^ 64⟩ (index :: free) ∧
      liveAt bits (manager.mEntries.modify index fun entry ↦
          { entry with
            liveGeneration := nextGeneration bits entry.liveGeneration
            nextFreeIndex := manager.mFirstFreeIndex }) =
        Function.update (liveAt bits manager.mEntries) index none := by
  have hlt : index < manager.mEntries.length := (List.getElem?_eq_some_iff.mp hentry).1
  have hnotMem : index ∉ free := by
    intro hmem
    rw [h.liveAt_eq_none_of_mem hmem] at hlive
    cases hlive
  obtain ⟨hchanged, hbound⟩ := nextGeneration_ne (h.generation_lt entry (List.mem_of_getElem? hentry))
  have hsame : entry.liveGeneration = getHandleGeneration bits entry.handle := by
    simp only [liveAt, hentry, Option.bind_some, Option.ite_none_right_eq_some] at hlive
    exact hlive.1
  have hlive' : liveAt bits (manager.mEntries.modify index fun entry ↦
      { entry with
        liveGeneration := nextGeneration bits entry.liveGeneration
        nextFreeIndex := manager.mFirstFreeIndex }) =
      Function.update (liveAt bits manager.mEntries) index none :=
    liveAt_modify hentry (if_neg (by simp only; rw [← hsame]; exact hchanged))
  refine ⟨⟨⟨rfl, ?_⟩, nodup_cons.mpr ⟨hnotMem, h.nodup⟩, ?_, ?_, ?_, ?_⟩, hlive'⟩
  · rw [nextFree_modify_self hentry]
    simp only [length_modify]
    refine h.linked.congr fun other hother ↦ (nextFree_modify_of_ne _ ?_ _).symm
    exact fun heq ↦ hnotMem (heq ▸ hother)
  · intro other
    simp only [length_modify, hlive', List.mem_cons, h.mem_free]
    by_cases heq : other = index
    · simp [heq, hlt]
    · rw [update_of_ne heq, or_iff_right heq]
  · -- there is an entry in use, so the counter does not wrap around
    have hcount := h.count
    have hlength := h.length_le
    have hpow : 2 ^ bits.indexBits ≤ 2 ^ 64 := Nat.pow_le_pow_right (by decide) (by have := bits.sum; omega)
    have hfew : free.length < manager.mEntries.length := by
      have hsubset : index :: free ⊆ List.range manager.mEntries.length := by
        intro other hother
        obtain rfl | hother := List.mem_cons.mp hother
        · exact List.mem_range.mpr hlt
        · exact List.mem_range.mpr ((h.mem_free other).mp hother).1
      have hle := (List.subperm_of_subset (nodup_cons.mpr ⟨hnotMem, h.nodup⟩) hsubset).length_le
      rwa [List.length_range, length_cons] at hle
    simp only [length_cons, length_modify]
    omega
  · simpa only [length_modify] using h.length_le
  · exact generation_lt_modify h.generation_lt hentry hbound

/-! ## The calls -/

section Calls

variable [Inhabited Item]

/-- What `add` does: nothing, or it takes the first free entry. -/
theorem add_cases (h : Sound bits manager free) (item : Item) (type : ℕ) :
    manager.add bits item type = (none, manager) ∨
      ∃ handle next free', manager.add bits item type = (some handle, next) ∧ Sound bits next free' ∧
        liveAt bits next.mEntries = Function.update (liveAt bits manager.mEntries)
          (getHandleIndex bits handle) (some (getHandleGeneration bits handle)) ∧
        liveAt bits manager.mEntries (getHandleIndex bits handle) = none := by
  unfold add
  simp only
  by_cases hinvalid : type = 0 ∨ manager.mLiveEntries = 2 ^ bits.indexBits ∨
      2 ^ bits.indexBits < manager.mFirstFreeIndex + 1
  · exact .inl (if_pos hinvalid)
  · rw [if_neg hinvalid]
    have hindex : manager.mFirstFreeIndex < 2 ^ bits.indexBits := by omega
    obtain ⟨free', hgrown, hlive, hroom, hfirst, _⟩ := h.grow hindex type
    obtain ⟨entry, hentry⟩ : ∃ entry,
        (manager.grow bits manager.mFirstFreeIndex type).mEntries[manager.mFirstFreeIndex]? = some entry :=
      ⟨_, List.getElem?_eq_getElem hroom⟩
    have hgeneration := hgrown.generation_lt entry (List.mem_of_getElem? hentry)
    have hhandle := getHandleGeneration_makeHandle hindex hgeneration type
    obtain ⟨rest, hrest, hlive', hfree⟩ := hgrown.takeFirst hentry hfirst
      (fun entry' ↦ { entry' with
        handle := makeHandle bits manager.mFirstFreeIndex entry.liveGeneration type, item }) rfl hhandle
    simp only [hentry]
    refine .inr ⟨_, _, rest, rfl, hrest, ?_, ?_⟩
    · rw [getHandleIndex_makeHandle hindex, hhandle, hlive', hlive]
    · rw [getHandleIndex_makeHandle hindex, ← hlive, hfree]

/-- What `addFixed` does: nothing, or its entry is in use afterwards under the given handle. -/
theorem addFixed_cases (h : Sound bits manager free) (fixedHandle : UInt64) (item : Item) (type : ℕ) :
    manager.addFixed bits fixedHandle item type = some (none, manager) ∨
      ∃ next free', manager.addFixed bits fixedHandle item type = some (some fixedHandle, next) ∧
        Sound bits next free' ∧
        liveAt bits next.mEntries = Function.update (liveAt bits manager.mEntries)
          (getHandleIndex bits fixedHandle) (some (getHandleGeneration bits fixedHandle)) := by
  unfold addFixed
  simp only
  by_cases hinvalid : type = 0 ∨ manager.mLiveEntries = 2 ^ bits.indexBits ∨
      2 ^ bits.indexBits < getHandleIndex bits fixedHandle + 1
  · exact .inl (if_pos hinvalid)
  · rw [if_neg hinvalid]
    obtain ⟨free', hgrown, hlive, hroom, _, _⟩ := h.grow (getHandleIndex_lt fixedHandle) type
    obtain ⟨entry, hentry⟩ : ∃ entry, (manager.grow bits (getHandleIndex bits fixedHandle)
        type).mEntries[getHandleIndex bits fixedHandle]? = some entry :=
      ⟨_, List.getElem?_eq_getElem hroom⟩
    have hat : liveAt bits (manager.grow bits (getHandleIndex bits fixedHandle) type).mEntries
        (getHandleIndex bits fixedHandle) =
          if entry.liveGeneration = getHandleGeneration bits entry.handle then some entry.liveGeneration
          else none := by
      rw [liveAt, hentry, Option.bind_some]
    simp only [hentry]
    rw [← hlive]
    split_ifs with hhead hused
    · obtain ⟨rest, hrest, hlive', _⟩ :=
        hgrown.takeFirst hentry hhead (fix bits fixedHandle item) rfl rfl
      exact .inr ⟨_, rest, rfl, hrest, hlive'⟩
    · rw [if_pos hused] at hat
      obtain ⟨hsound, hlive'⟩ := hgrown.replace hentry hat (fix bits fixedHandle item) rfl rfl rfl
      exact .inr ⟨_, free', rfl, hsound, hlive'⟩
    · rw [if_neg hused] at hat
      obtain ⟨previous, rest, hwalk, hrest, hlive'⟩ :=
        hgrown.takeInner hentry hhead hat (fix bits fixedHandle item) rfl rfl rfl
      rw [hwalk]
      exact .inr ⟨_, rest, rfl, hrest, hlive'⟩

end Calls

/-- The manager is sound and tells which indices are live. -/
structure Consistent (bits : Bits) (table : Table Item) : Prop where
  sound : ∃ free, Sound bits table.manager free
  live_eq : table.live = liveAt bits table.manager.mEntries

variable {table next : Table Item}

variable {h : UInt64}

theorem consistent_new : Consistent bits (Table.new Item) := ⟨⟨[], sound_new⟩, rfl⟩

section

variable (hc : Consistent bits table)
include hc

/-- Without a forged handle, `get` finds exactly what is live. -/
theorem Consistent.get_isSome_iff (hgenuine : ¬ Forged bits h table.manager) :
    (table.manager.get bits h).isSome ↔ table.live (getHandleIndex bits h) = some (getHandleGeneration bits h) := by
  rw [hc.live_eq]
  unfold EntityManager.get liveAt
  cases hentry : table.manager.mEntries[getHandleIndex bits h]? with
  | none => simp
  | some entry =>
    simp only [Forged, hentry, not_and, not_not] at hgenuine
    simp only [Option.bind_some, Option.ite_none_right_eq_some, Option.some.injEq]
    by_cases hsame : entry.liveGeneration = getHandleGeneration bits h
    · simpa [hsame] using (hsame.symm.trans (hgenuine hsame))
    · simp [hsame]

/-- A forged handle is found though its entry is not live. -/
theorem Consistent.get_forged (hforged : Forged bits h table.manager) :
    (table.manager.get bits h).isSome ∧ table.live (getHandleIndex bits h) = none := by
  rw [hc.live_eq]
  unfold EntityManager.get liveAt
  unfold Forged at hforged
  cases hentry : table.manager.mEntries[getHandleIndex bits h]? with
  | none => simp [hentry] at hforged
  | some entry =>
    simp only [hentry] at hforged
    obtain ⟨hsame, hunused⟩ := hforged
    exact ⟨by simp [hsame], by rw [Option.bind_some, if_neg hunused]⟩

theorem Consistent.remove (hgenuine : ¬ Forged bits h table.manager) :
    Consistent bits ⟨table.manager.remove bits h, noteRemoved bits h table.live⟩ := by
  have hfound := hc.get_isSome_iff hgenuine
  unfold EntityManager.remove noteRemoved
  by_cases hlive : table.live (getHandleIndex bits h) = some (getHandleGeneration bits h)
  · have hsome := hfound.mpr hlive
    rw [if_pos hlive, if_neg (by simpa [Option.isSome_iff_ne_none] using hsome)]
    obtain ⟨free, hsound⟩ := hc.sound
    rw [hc.live_eq] at hlive ⊢
    obtain ⟨entry, hentry, _⟩ := Option.bind_eq_some_iff.mp hlive
    obtain ⟨hsound', hlive'⟩ := hsound.release hentry hlive
    exact ⟨⟨_, hsound'⟩, hlive'.symm⟩
  · have hnone : (table.manager.get bits h).isNone := by simpa using (not_congr hfound).mpr hlive
    rw [if_neg hlive, if_pos hnone]
    exact hc

theorem Consistent.step [Inhabited Item] {call : Call Item} (hguard : RemovesGenuine bits call table)
    (hstep : step bits call table = some next) : Consistent bits next := by
  obtain ⟨free, hsound⟩ := hc.sound
  cases call with
  | add item type =>
    simp only [Entities.step] at hstep
    obtain hadd | ⟨handle, manager, free', hadd, hsound', hlive, _⟩ := add_cases hsound item type
    · rw [hadd] at hstep
      cases hstep
      exact hc
    · rw [hadd] at hstep
      cases hstep
      exact ⟨⟨free', hsound'⟩, by rw [noteAdded, hc.live_eq, hlive]⟩
  | addFixed fixedHandle item type =>
    simp only [Entities.step] at hstep
    obtain hadd | ⟨manager, free', hadd, hsound', hlive⟩ := addFixed_cases hsound fixedHandle item type
    · rw [hadd] at hstep
      cases hstep
      exact hc
    · rw [hadd] at hstep
      cases hstep
      exact ⟨⟨free', hsound'⟩, by simp only [noteAdded, hc.live_eq, hlive]⟩
  | remove h =>
    cases hstep
    exact hc.remove hguard
  | get h =>
    cases hstep
    exact hc

end

theorem consistent_of_run [Inhabited Item] {calls : List (Call Item)} {table : Table Item}
    (hguard : Guarded (step bits) (RemovesGenuine bits) (Table.new Item) calls)
    (hrun : run (step bits) (Table.new Item) calls = some table) : Consistent bits table :=
  invariant_of_guarded (Consistent bits) (fun _ _ _ hc hguard hstep ↦ hc.step hguard hstep)
    consistent_new hguard hrun

/-- What is not on the free list is in use. -/
theorem Sound.card_live (h : Sound bits manager free) :
    manager.mLiveEntries = ((Finset.range manager.mEntries.length).filter fun index ↦
      liveAt bits manager.mEntries index ≠ none).card := by
  have hfree : (Finset.range manager.mEntries.length).filter
      (fun index ↦ liveAt bits manager.mEntries index = none) = free.toFinset := by
    ext index
    simp [h.mem_free]
  have hsplit := Finset.card_filter_add_card_filter_not (s := Finset.range manager.mEntries.length)
    fun index ↦ liveAt bits manager.mEntries index = none
  rw [hfree, List.toFinset_card_of_nodup h.nodup, Finset.card_range] at hsplit
  have hcount := h.count
  simp only [ne_eq]
  omega

/-- As long as no forged handle is removed, the free list visits the entries that are not live, once
each, and ends at `mEntries.size()`; `add` takes none that is live and `addFixed` comes to an end;
the live entries are counted; and `get` tells what is live, except for forged handles. -/
theorem free_list_of_removesGenuine [Inhabited Item] (bits : Bits) (calls : List (Call Item))
    (table : Table Item)
    (hguard : Guarded (step bits) (RemovesGenuine bits) (Table.new Item) calls)
    (hrun : run (step bits) (Table.new Item) calls = some table) :
    (∃ free : List ℕ, Linked (nextFree table.manager.mEntries) table.manager.mEntries.length
      table.manager.mFirstFreeIndex free ∧ free.Nodup ∧
      ∀ index, index ∈ free ↔ index < table.manager.mEntries.length ∧ table.live index = none) ∧
    (∀ item type handle next, table.manager.add bits item type = (some handle, next) →
      table.live (getHandleIndex bits handle) = none) ∧
    (∀ fixedHandle item type, (table.manager.addFixed bits fixedHandle item type).isSome) ∧
    (∀ index generation, table.live index = some generation → index < table.manager.mEntries.length) ∧
    table.manager.mLiveEntries = ((Finset.range table.manager.mEntries.length).filter fun index ↦
      table.live index ≠ none).card ∧
    ∀ h, ((table.manager.get bits h).isSome ↔
        table.live (getHandleIndex bits h) = some (getHandleGeneration bits h)) ↔
      ¬ Forged bits h table.manager := by
  have hc := consistent_of_run hguard hrun
  obtain ⟨free, hsound⟩ := hc.sound
  refine ⟨⟨free, hsound.linked, hsound.nodup, ?_⟩, ?_, ?_, ?_, ?_, ?_⟩
  · rw [hc.live_eq]
    exact hsound.mem_free
  · intro item type handle next hadd
    obtain hnone | ⟨handle', manager, free', hadd', _, _, hfree⟩ := add_cases hsound item type
    · rw [hnone] at hadd
      cases hadd
    · rw [hadd'] at hadd
      cases hadd
      rw [hc.live_eq, hfree]
  · intro fixedHandle item type
    obtain hadd | ⟨manager, free', hadd, _⟩ := addFixed_cases hsound fixedHandle item type
    · rw [hadd]
      rfl
    · rw [hadd]
      rfl
  · intro index generation hlive
    rw [hc.live_eq] at hlive
    obtain ⟨entry, hentry, _⟩ := Option.bind_eq_some_iff.mp hlive
    exact (List.getElem?_eq_some_iff.mp hentry).1
  · rw [hc.live_eq]
    exact hsound.card_live
  · intro h
    constructor
    · intro hget hforged
      obtain ⟨hsome, hnone⟩ := hc.get_forged hforged
      rw [hnone] at hget
      cases hget.mp hsome
    · exact hc.get_isSome_iff

/-! ## Two runs -/

instance decidableForged (h : UInt64) (manager : EntityManager Item) : Decidable (Forged bits h manager) :=
  match hentry : manager.mEntries[getHandleIndex bits h]? with
  | none => isFalse (by simp [Forged, hentry])
  | some entry =>
    decidable_of_iff (entry.liveGeneration = getHandleGeneration bits h ∧
      entry.liveGeneration ≠ getHandleGeneration bits entry.handle) (by simp [Forged, hentry])

instance decidableRemovesGenuine :
    ∀ (call : Call Item) table, Decidable (RemovesGenuine bits call table)
  | .remove h, table => inferInstanceAs (Decidable (¬ Forged bits h table.manager))
  | .add _ _, _ | .addFixed _ _ _, _ | .get _, _ => isTrue trivial

/-- The widths of `HybridComponentManager`. -/
def hybridBits : Bits := ⟨32, 16, 16, rfl, by decide, by decide⟩

/-- An entry is added, a far one is fixed out of the middle of the free list, and both are removed;
a handle that is no longer live is removed again. -/
def reuseCalls : List (Call Bool) :=
  [.add true 1, .addFixed (makeHandle hybridBits 5 7 1) false 1, .remove (makeHandle hybridBits 0 1 1),
    .remove (makeHandle hybridBits 5 7 1), .remove (makeHandle hybridBits 0 1 1), .add false 1]

theorem free_list_reuse :
    ∃ table, Guarded (step hybridBits) (RemovesGenuine hybridBits) (Table.new Bool) reuseCalls ∧
      run (step hybridBits) (Table.new Bool) reuseCalls = some table ∧ table.live 5 = some 8 ∧
      table.manager.mLiveEntries = ((Finset.range table.manager.mEntries.length).filter fun index ↦
        table.live index ≠ none).card ∧
      ∃ free : List ℕ, Linked (nextFree table.manager.mEntries) table.manager.mEntries.length
        table.manager.mFirstFreeIndex free ∧ free.Nodup ∧
        ∀ index, index ∈ free ↔ index < table.manager.mEntries.length ∧ table.live index = none := by
  have hguard : Guarded (step hybridBits) (RemovesGenuine hybridBits) (Table.new Bool) reuseCalls := by
    decide +kernel
  have hlive : (run (step hybridBits) (Table.new Bool) reuseCalls).map (fun table ↦ table.live 5) =
      some (some 8) := by decide +kernel
  obtain ⟨table, hrun, hfive⟩ := Option.map_eq_some_iff.mp hlive
  obtain ⟨hfree, _, _, _, hcard, _⟩ := free_list_of_removesGenuine hybridBits reuseCalls table hguard hrun
  exact ⟨table, hguard, hrun, hfive, hcard, hfree⟩

/-- The second entry of the array was never added, and its generation is 1. Removing a handle that says
so makes the free list go round in a circle. -/
def forgedCalls : List (Call Bool) := [.add true 1, .remove (makeHandle hybridBits 1 1 1), .add true 1]

theorem live_index_given_out :
    ∃ table, run (step hybridBits) (Table.new Bool) forgedCalls = some table ∧
      ∃ handle next, table.manager.add hybridBits true 1 = (some handle, next) ∧
        table.live (getHandleIndex hybridBits handle) ≠ none := by
  have hresult : (run (step hybridBits) (Table.new Bool) forgedCalls).map (fun table ↦
      ((table.manager.add hybridBits true 1).1, table.live 1)) =
        some (some (makeHandle hybridBits 1 2 1), some 2) := by decide +kernel
  obtain ⟨table, hrun, hadd⟩ := Option.map_eq_some_iff.mp hresult
  obtain ⟨hhandle, hlive⟩ := Prod.mk.inj hadd
  refine ⟨table, hrun, _, _, Prod.ext hhandle rfl, ?_⟩
  rw [getHandleIndex_makeHandle (by decide), hlive]
  exact Option.some_ne_none 2

end FdeEmugl.Entities
