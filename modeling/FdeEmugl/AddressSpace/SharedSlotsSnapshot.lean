import FdeEmugl.AddressSpace.SharedSlots
import FdeEmugl.Base.Stream

/-!
# Snapshots of the shared slots

The blocks are saved with their bytes and loaded at new addresses, and each remembers where it was. The
allocations of a context are saved with their addresses, which are translated with what the blocks remember.

An empty allocation does not keep its block from being collected, and is then saved without one: loading it
gives an allocation without a block, as the test for a failed translation looks at the address that was saved.
-/

namespace FdeEmugl.SharedSlots

open FdeEmugl.Stream IntervalMap Runs
open List (append_assoc forall_mem_cons length_cons mem_cons mem_cons_of_mem mem_cons_self nodup_cons not_mem_nil)
open Option (bind_eq_some_iff bind_some map_eq_some_iff map_some)
open Function (update_of_ne update_self)

/-! ## Blocks with their bytes -/

/-- What snapshots use of a block beside. -/
structure Memory where
  physBaseLoaded : ℕ
  bits : List UInt8

/-- The nodes of `g_blocks` are counted from 1, and 0 is the null pointer; `memory` belongs to the nodes. -/
structure Slots (Context : Type) where
  state : State Context
  memory : ℕ → Memory

namespace MemBlock

def putSubblock (kv : ℕ × ℕ) : List UInt8 := putBe32 (UInt32.ofNat kv.1) ++ putBe32 (UInt32.ofNat kv.2)

def save (block : MemBlock) (bits : List UInt8) : List UInt8 :=
  putBe64 (UInt64.ofNat block.physBase) ++ putBe32 (UInt32.ofNat block.bitsSize) ++ bits ++
    putBe32 (UInt32.ofNat block.freeSubblocks.entries.length) ++ block.freeSubblocks.entries.flatMap putSubblock

def loadSubblocks : ℕ → OrderedMap ℕ ℕ → List UInt8 → Option (OrderedMap ℕ ℕ × List UInt8)
  | 0, freeSubblocks, stream => some (freeSubblocks, stream)
  | count + 1, freeSubblocks, stream =>
    let (off, stream) := getBe32 stream
    let (sz, stream) := getBe32 stream
    (freeSubblocks.insert off.toNat sz.toNat).bind fun freeSubblocks ↦ loadSubblocks count freeSubblocks stream

/-- `region` is the address that the hardware gives, and 0 if it gives none or does not map it. Without a
result the load fails or the emulator dies. -/
def load (region : ℕ) (stream : List UInt8) : Option ((MemBlock × Memory) × List UInt8) :=
  let (physBaseLoaded, stream) := getBe64 stream
  let (bitsSize, stream) := getBe32 stream
  let (bits, stream) := read bitsSize.toNat stream
  if bits.length = bitsSize.toNat ∧ region ≠ 0 then
    let (count, stream) := getBe32 stream
    (loadSubblocks count.toNat .empty stream).map fun (freeSubblocks, stream) ↦
      ((⟨region, bitsSize.toNat, freeSubblocks⟩, ⟨physBaseLoaded.toNat, bits⟩), stream)
  else none

end MemBlock

/-! ## The global state and the contexts -/

def putAllocation (kv : ℕ × Allocation) : List UInt8 :=
  putBe64 (UInt64.ofNat kv.1) ++ putBe32 (UInt32.ofNat kv.2.size)

/-- The map of a context is gone through in this order. -/
def saveContext (order : List (ℕ × Allocation)) : List UInt8 :=
  putBe32 (UInt32.ofNat order.length) ++ order.flatMap putAllocation

namespace Slots

variable {Context : Type} [DecidableEq Context]

def new : Slots Context := ⟨⟨.empty, fun _ ↦ ∅, 1⟩, fun _ ↦ ⟨0, []⟩⟩

def globalStateSave (slots : Slots Context) : List UInt8 :=
  putBe32 (UInt32.ofNat slots.state.g_blocks.entries.length) ++
    slots.state.g_blocks.entries.flatMap fun entry ↦ entry.2.block.save (slots.memory entry.2.id).bits

/-- A block becomes a node. -/
def addBlock (block : MemBlock) (memory : Memory) (slots : Slots Context) : Option (Slots Context) :=
  (slots.state.g_blocks.insert block.physBase ⟨slots.state.nextId, block⟩).map fun g_blocks ↦
    { state := { slots.state with g_blocks, nextId := slots.state.nextId + 1 }
      memory := Function.update slots.memory slots.state.nextId memory }

/-- The loop of `globalStateLoad`, with the addresses that the hardware gives to the blocks. -/
def loadBlocks : ℕ → List ℕ → List UInt8 → Slots Context → Option (Slots Context × List UInt8)
  | 0, _, stream, slots => some (slots, stream)
  | count + 1, regions, stream, slots => do
    let ((block, memory), stream) ← MemBlock.load (regions.headD 0) stream
    let slots ← slots.addBlock block memory
    loadBlocks count regions.tail stream slots

def globalStateLoad (regions : List ℕ) (stream : List UInt8) (slots : Slots Context) :
    Option (Slots Context × List UInt8) :=
  let (count, stream) := getBe32 stream
  loadBlocks count.toNat regions stream slots

def globalStateClear (slots : Slots Context) : Slots Context :=
  { slots with state := { slots.state with g_blocks := .empty } }

/-- The address in the block that was loaded from there, and the block. -/
def translatePhysAddr (p : ℕ) (slots : Slots Context) : ℕ × ℕ :=
  let loaded (node : Node) := (slots.memory node.id).physBaseLoaded
  match slots.state.g_blocks.entries.find? fun kv ↦
      loaded kv.2 ≤ p ∧ p < (loaded kv.2 + kv.2.block.bitsSize) % 2 ^ 64 with
  | some kv => ((kv.2.block.physBase + (p - loaded kv.2)) % 2 ^ 64, kv.2.id)
  | none => (0, 0)

/-- One turn of the loop of `load`. What was asked for is not saved; the size counts for it. -/
def insertLoaded (phys size : ℕ) (slots : Slots Context) (m_allocations : Finmap fun _ : ℕ ↦ Allocation) :
    Option (Finmap fun _ : ℕ ↦ Allocation) :=
  let r := slots.translatePhysAddr phys
  if phys ≠ 0 then
    if (m_allocations.lookup r.1).isSome then none else some (m_allocations.insert r.1 ⟨size, r.2, size⟩)
  else none

def loadAllocations (slots : Slots Context) : ℕ → (Finmap fun _ : ℕ ↦ Allocation) → List UInt8 →
    Option ((Finmap fun _ : ℕ ↦ Allocation) × List UInt8)
  | 0, m_allocations, stream => some (m_allocations, stream)
  | sz + 1, m_allocations, stream =>
    let (phys, stream) := getBe64 stream
    let (size, stream) := getBe32 stream
    (slots.insertLoaded phys.toNat size.toNat m_allocations).bind fun m_allocations ↦
      loadAllocations slots sz m_allocations stream

/-- The context is a new one, so that `clear` finds nothing to go through. -/
def loadContext (context : Context) (stream : List UInt8) (slots : Slots Context) :
    Option (Slots Context × List UInt8) := do
  let state ← slots.state.clear context []
  let (sz, stream) := getBe32 stream
  let (m_allocations, stream) ← loadAllocations { slots with state } sz.toNat ∅ stream
  return ({ slots with
    state := { state with m_allocations := Function.update state.m_allocations context m_allocations } }, stream)

def loadContexts : List Context → List UInt8 → Slots Context → Option (Slots Context × List UInt8)
  | [], stream, slots => some (slots, stream)
  | context :: contexts, stream, slots => do
    let (slots, stream) ← slots.loadContext context stream
    loadContexts contexts stream slots

/-- The contexts are destroyed one after the other. -/
def destroy : List (Context × List (ℕ × Allocation)) → State Context → Option (State Context)
  | [], state => some state
  | (context, order) :: contexts, state => (state.clear context order).bind (destroy contexts)

/-- The device saves the global state, then the contexts. -/
def save (contexts : List (Context × List (ℕ × Allocation))) (slots : Slots Context) : List UInt8 :=
  slots.globalStateSave ++ contexts.flatMap fun (_, order) ↦ saveContext order

/-- The device destroys its contexts and the blocks, and loads the blocks and then the contexts. -/
def load (destroyed : List (Context × List (ℕ × Allocation))) (contexts : List Context) (regions : List ℕ)
    (stream : List UInt8) (slots : Slots Context) : Option (Slots Context) := do
  let state ← destroy destroyed slots.state
  let (slots, stream) ← globalStateLoad regions stream (globalStateClear { slots with state })
  let (slots, _) ← loadContexts contexts stream slots
  return slots

end Slots

/-! ## Runs with snapshots -/

/-- The bytes, the contexts they are for, and what was saved. -/
structure Snapshot (Context : Type) where
  file : List UInt8
  contexts : List Context
  slots : Slots Context

structure Machine (Context : Type) where
  now : Slots Context
  snapshot : Option (Snapshot Context)

/-- `bits` is what a new block or the guest has in the memory of a block. -/
inductive Event (Context : Type) where
  | ping (ping : Ping Context) (bits : List UInt8)
  | write (id : ℕ) (bits : List UInt8)
  | save (contexts : List (Context × List (ℕ × Allocation)))
  | restart
  | load (destroyed : List (Context × List (ℕ × Allocation))) (regions : List ℕ)

namespace Machine

variable {Context : Type} [DecidableEq Context]

def new : Machine Context := ⟨.new, none⟩

def step : Event Context → Machine Context → Option (Machine Context)
  | .ping ping bits, machine => (SharedSlots.step ping machine.now.state).map fun state ↦
      { machine with
        now.state := state
        now.memory := if state.nextId = machine.now.state.nextId then machine.now.memory
          else Function.update machine.now.memory machine.now.state.nextId ⟨0, bits⟩ }
  | .write id bits, machine => some { machine with
      now.memory := Function.update machine.now.memory id { machine.now.memory id with bits } }
  | .save contexts, machine => some { machine with
      snapshot := some ⟨machine.now.save contexts, contexts.map Prod.fst, machine.now⟩ }
  | .restart, machine => some { machine with now := .new }
  | .load destroyed regions, machine => machine.snapshot.bind fun snapshot ↦
      (machine.now.load destroyed snapshot.contexts regions snapshot.file).map fun now ↦ { machine with now }

end Machine

/-! ## What is read back -/

/-- The numbers of a block fit in their words, and it has as many bytes as its size says. -/
structure MemBlock.Storable (block : MemBlock) (bits : List UInt8) : Prop where
  base_lt : block.physBase < 2 ^ 64
  size_lt : block.bitsSize < 2 ^ 32
  bits_eq : bits.length = block.bitsSize
  subblocks_lt : ∀ kv ∈ block.freeSubblocks.entries, kv.1 < 2 ^ 32 ∧ kv.2 < 2 ^ 32
  count_lt : block.freeSubblocks.entries.length < 2 ^ 32

theorem toNat_ofNat32 {value : ℕ} (h : value < 2 ^ 32) : (UInt32.ofNat value).toNat = value :=
  UInt32.toNat_ofNat_of_lt' h

theorem toNat_ofNat64 {value : ℕ} (h : value < 2 ^ 64) : (UInt64.ofNat value).toNat = value :=
  UInt64.toNat_ofNat_of_lt' h

namespace MemBlock

theorem loadSubblocks_flatMap {entries : List (ℕ × ℕ)} {map : OrderedMap ℕ ℕ}
    (hordered : entries.Pairwise fun first second ↦ first.1 < second.1)
    (hwords : ∀ kv ∈ entries, kv.1 < 2 ^ 32 ∧ kv.2 < 2 ^ 32)
    (hapart : ∀ kv ∈ entries, ∀ old ∈ map.entries, old.1 ≠ kv.1) (rest : List UInt8) :
    ∃ last, loadSubblocks entries.length map (entries.flatMap putSubblock ++ rest) = some (last, rest) ∧
      ∀ kv, kv ∈ last.entries ↔ kv ∈ map.entries ∨ kv ∈ entries := by
  induction entries generalizing map with
  | nil => exact ⟨map, rfl, fun kv ↦ by simp⟩
  | cons first entries ih =>
    obtain ⟨hfirst, hordered⟩ := List.pairwise_cons.mp hordered
    obtain ⟨hword, hwords⟩ := forall_mem_cons.mp hwords
    obtain ⟨hnew, hapart⟩ := forall_mem_cons.mp hapart
    have hnone : map.find first.1 = none := OrderedMap.find_eq_none.mpr hnew
    have hnext : ∀ kv ∈ entries, ∀ old ∈ (map.add first.1 first.2 hnone).entries, old.1 ≠ kv.1 := by
      intro kv hkv old hold
      rcases OrderedMap.mem_add.mp hold with rfl | hold
      · exact (hfirst kv hkv).ne
      · exact hapart kv hkv old hold
    obtain ⟨last, hlast, hmem⟩ := ih hordered hwords hnext
    refine ⟨last, ?_, fun kv ↦ ?_⟩
    · rw [length_cons, loadSubblocks, List.flatMap_cons, putSubblock, append_assoc, append_assoc, getBe32_putBe32]
      simp only [getBe32_putBe32, toNat_ofNat32 hword.1, toNat_ofNat32 hword.2, OrderedMap.insert, dif_pos hnone,
        bind_some]
      exact hlast
    · rw [hmem, OrderedMap.mem_add, mem_cons]
      tauto

/-- A block is read back at the new address. -/
theorem load_save {block : MemBlock} {bits : List UInt8} (h : block.Storable bits) (region : ℕ)
    (rest : List UInt8) : load region (block.save bits ++ rest) =
      if region = 0 then none
      else some (({ block with physBase := region }, ⟨block.physBase, bits⟩), rest) := by
  obtain ⟨last, hlast, hmem⟩ := loadSubblocks_flatMap block.freeSubblocks.ordered h.subblocks_lt
    (fun _ _ _ hold ↦ absurd hold not_mem_nil : ∀ kv ∈ block.freeSubblocks.entries,
      ∀ old ∈ (OrderedMap.empty : OrderedMap ℕ ℕ).entries, old.1 ≠ kv.1) rest
  obtain rfl : last = block.freeSubblocks := by
    refine OrderedMap.eq_of_mem_iff fun kv ↦ (hmem kv).trans ⟨fun hor ↦ hor.resolve_left ?_, .inr⟩
    exact not_mem_nil
  have hread (tail : List UInt8) : read block.bitsSize (bits ++ tail) = (bits, tail) := by
    rw [Stream.read, ← h.bits_eq, List.take_left, List.drop_left]
  rw [load, save]
  simp only [append_assoc, getBe64_putBe64, getBe32_putBe32, toNat_ofNat32 h.size_lt, hread,
    toNat_ofNat32 h.count_lt, hlast, h.bits_eq, toNat_ofNat64 h.base_lt, true_and, ne_eq, map_some]
  split_ifs
  · rfl
  · rfl

end MemBlock

namespace Slots

variable {Context : Type}

/-- What the loop of `globalStateLoad` does to blocks that were saved. -/
def place (memory : ℕ → Memory) : List (ℕ × Node) → List ℕ → Slots Context → Option (Slots Context)
  | [], _, slots => some slots
  | (_, node) :: entries, regions, slots =>
    if regions.headD 0 = 0 then none
    else (slots.addBlock { node.block with physBase := regions.headD 0 }
      ⟨node.block.physBase, (memory node.id).bits⟩).bind (place memory entries regions.tail)

/-- The blocks of a list can be saved. -/
def Storable (memory : ℕ → Memory) (entries : List (ℕ × Node)) : Prop :=
  ∀ entry ∈ entries, entry.2.block.Storable (memory entry.2.id).bits

theorem loadBlocks_flatMap {memory : ℕ → Memory} {entries : List (ℕ × Node)} (h : Storable memory entries)
    (regions : List ℕ) (rest : List UInt8) (slots : Slots Context) :
    loadBlocks entries.length regions
        (entries.flatMap (fun entry ↦ entry.2.block.save (memory entry.2.id).bits) ++ rest) slots =
      (place memory entries regions slots).map fun slots ↦ (slots, rest) := by
  induction entries generalizing regions slots with
  | nil => rfl
  | cons first entries ih =>
    obtain ⟨hfirst, h⟩ := forall_mem_cons.mp h
    rw [length_cons, loadBlocks, List.flatMap_cons, append_assoc, MemBlock.load_save hfirst, place]
    split_ifs with hregion
    · rfl
    · simp only [Option.bind_eq_bind, bind_some]
      cases slots.addBlock { first.2.block with physBase := regions.headD 0 }
          ⟨first.2.block.physBase, (memory first.2.id).bits⟩ with
      | none => rfl
      | some slots => exact ih h regions.tail slots

theorem globalStateLoad_save {slots : Slots Context} (h : Storable slots.memory slots.state.g_blocks.entries)
    (hcount : slots.state.g_blocks.entries.length < 2 ^ 32) (regions : List ℕ) (rest : List UInt8)
    (target : Slots Context) : globalStateLoad regions (slots.globalStateSave ++ rest) target =
      (place slots.memory slots.state.g_blocks.entries regions target).map fun slots ↦ (slots, rest) := by
  rw [globalStateLoad, globalStateSave, append_assoc, getBe32_putBe32]
  simp only [toNat_ofNat32 hcount]
  exact loadBlocks_flatMap h regions rest target

/-- What the loop of `load` does to allocations that were saved. -/
def adopt (slots : Slots Context) : List (ℕ × Allocation) → (Finmap fun _ : ℕ ↦ Allocation) →
    Option (Finmap fun _ : ℕ ↦ Allocation)
  | [], m_allocations => some m_allocations
  | (phys, allocation) :: order, m_allocations =>
    (slots.insertLoaded phys allocation.size m_allocations).bind (adopt slots order)

/-- The numbers of the allocations fit in their words. -/
def AllocationsFit (order : List (ℕ × Allocation)) : Prop :=
  order.length < 2 ^ 32 ∧ ∀ kv ∈ order, kv.1 < 2 ^ 64 ∧ kv.2.size < 2 ^ 32

theorem loadAllocations_flatMap {order : List (ℕ × Allocation)} (h : ∀ kv ∈ order, kv.1 < 2 ^ 64 ∧ kv.2.size < 2 ^ 32)
    (slots : Slots Context) (m_allocations : Finmap fun _ : ℕ ↦ Allocation) (rest : List UInt8) :
    loadAllocations slots order.length m_allocations (order.flatMap putAllocation ++ rest) =
      (slots.adopt order m_allocations).map fun m_allocations ↦ (m_allocations, rest) := by
  induction order generalizing m_allocations with
  | nil => rfl
  | cons first order ih =>
    obtain ⟨⟨hphys, hsize⟩, h⟩ := forall_mem_cons.mp h
    rw [length_cons, loadAllocations, List.flatMap_cons, putAllocation, append_assoc, append_assoc,
      getBe64_putBe64, adopt]
    simp only [getBe32_putBe32, toNat_ofNat64 hphys, toNat_ofNat32 hsize]
    cases slots.insertLoaded first.1 first.2.size m_allocations with
    | none => rfl
    | some m_allocations => exact ih h m_allocations

variable [DecidableEq Context]

/-- A context gets its allocations. -/
def withAllocations (context : Context) (m_allocations : Finmap fun _ : ℕ ↦ Allocation) (slots : Slots Context) :
    Slots Context :=
  { slots with
    state := { slots.state with m_allocations := Function.update slots.state.m_allocations context m_allocations } }

theorem loadContext_save {order : List (ℕ × Allocation)} (h : AllocationsFit order) (context : Context)
    (slots : Slots Context) (rest : List UInt8) : loadContext context (saveContext order ++ rest) slots =
      (slots.adopt order ∅).map fun m_allocations ↦ (slots.withAllocations context m_allocations, rest) := by
  have hclear : slots.state.clear context [] = some { slots.state with
      m_allocations := Function.update slots.state.m_allocations context ∅ } := rfl
  have hsame : ∀ order m_allocations, adopt { slots with
      state := { slots.state with m_allocations := Function.update slots.state.m_allocations context ∅ } }
        order m_allocations = slots.adopt order m_allocations := by
    intro order
    induction order with
    | nil => exact fun _ ↦ rfl
    | cons first order ih =>
      intro m_allocations
      rw [adopt, adopt]
      exact congrArg _ (funext ih)
  rw [loadContext, hclear, Option.bind_eq_bind, bind_some, saveContext, append_assoc, getBe32_putBe32]
  simp only [toNat_ofNat32 h.1, loadAllocations_flatMap h.2, hsame]
  cases slots.adopt order ∅ with
  | none => rfl
  | some m_allocations =>
    simp only [map_some, withAllocations, Function.update_idem]
    rfl

/-- What `loadContexts` does to contexts that were saved. -/
def adoptAll : List (Context × List (ℕ × Allocation)) → Slots Context → Option (Slots Context)
  | [], slots => some slots
  | (context, order) :: contexts, slots =>
    (slots.adopt order ∅).bind fun m_allocations ↦ adoptAll contexts (slots.withAllocations context m_allocations)

theorem loadContexts_save {contexts : List (Context × List (ℕ × Allocation))}
    (h : ∀ saved ∈ contexts, AllocationsFit saved.2) (slots : Slots Context) :
    loadContexts (contexts.map Prod.fst) (contexts.flatMap fun saved ↦ saveContext saved.2) slots =
      (adoptAll contexts slots).map fun slots ↦ (slots, []) := by
  induction contexts generalizing slots with
  | nil => rfl
  | cons first contexts ih =>
    obtain ⟨hfirst, h⟩ := forall_mem_cons.mp h
    rw [List.map_cons, loadContexts, List.flatMap_cons, loadContext_save hfirst, adoptAll]
    cases slots.adopt first.2 ∅ with
    | none => rfl
    | some m_allocations => exact ih h _

/-- A load in terms of what was saved. -/
theorem load_save {slots : Slots Context} {contexts : List (Context × List (ℕ × Allocation))}
    (h : Storable slots.memory slots.state.g_blocks.entries) (hcount : slots.state.g_blocks.entries.length < 2 ^ 32)
    (hcontexts : ∀ saved ∈ contexts, AllocationsFit saved.2)
    (destroyed : List (Context × List (ℕ × Allocation))) (regions : List ℕ) (target : Slots Context) :
    target.load destroyed (contexts.map Prod.fst) regions (slots.save contexts) =
      (destroy destroyed target.state).bind fun state ↦
        (place slots.memory slots.state.g_blocks.entries regions (globalStateClear { target with state })).bind
          (adoptAll contexts) := by
  rw [load, save]
  cases destroy destroyed target.state with
  | none => rfl
  | some state =>
    simp only [Option.bind_eq_bind, bind_some, globalStateLoad_save h hcount]
    cases place slots.memory slots.state.g_blocks.entries regions (globalStateClear { target with state }) with
    | none => rfl
    | some placed =>
      simp only [map_some, bind_some, loadContexts_save hcontexts]
      cases adoptAll contexts placed with
      | none => rfl
      | some last => rfl

end Slots

/-! ## Blocks at new addresses -/

/-- The hardware has room for the blocks at these addresses. -/
structure RegionsFit (entries : List (ℕ × Node)) (regions : List ℕ) : Prop where
  fits : List.Forall₂ (fun entry region ↦ 0 < region ∧ region + entry.2.block.bitsSize < 2 ^ 64) entries regions
  apart : (entries.zip regions).Pairwise fun first second ↦
    first.2 + first.1.2.block.bitsSize ≤ second.2 ∨ second.2 + second.1.2.block.bitsSize ≤ first.2

/-- The entries that were saved with those that are made of them. -/
def placedFrom : ℕ → List (ℕ × Node) → List ℕ → List ((ℕ × Node) × (ℕ × Node))
  | id, entry :: entries, region :: regions =>
    (entry, (region, ⟨id, { entry.2.block with physBase := region }⟩)) :: placedFrom (id + 1) entries regions
  | _, _, _ => []

section Placed

variable {id : ℕ} {entries : List (ℕ × Node)} {regions : List ℕ} {old new : ℕ × Node}

theorem mem_placedFrom (hmem : (old, new) ∈ placedFrom id entries regions) :
    (old, new.1) ∈ entries.zip regions ∧ new.2.block = { old.2.block with physBase := new.1 } ∧
      id ≤ new.2.id ∧ new.2.id < id + entries.length := by
  induction entries generalizing id regions with
  | nil => exact absurd hmem not_mem_nil
  | cons entry entries ih =>
    cases regions with
    | nil => exact absurd hmem not_mem_nil
    | cons region regions =>
      rcases mem_cons.mp hmem with heq | hmem
      · cases heq
        exact ⟨mem_cons_self, rfl, le_rfl, Nat.lt_add_of_pos_right (Nat.succ_pos _)⟩
      · obtain ⟨hzip, hblock, hle, hlt⟩ := ih hmem
        rw [length_cons]
        exact ⟨mem_cons_of_mem _ hzip, hblock, by omega, by omega⟩

theorem exists_placedFrom (id : ℕ) (hlength : entries.length = regions.length) (hmem : old ∈ entries) :
    ∃ new, (old, new) ∈ placedFrom id entries regions := by
  induction entries generalizing id regions with
  | nil => cases hmem
  | cons entry entries ih =>
    cases regions with
    | nil => cases hlength
    | cons region regions =>
      rcases mem_cons.mp hmem with rfl | hmem
      · exact ⟨_, mem_cons_self⟩
      · obtain ⟨new, hnew⟩ := ih (id + 1) (Nat.succ.inj hlength) hmem
        exact ⟨new, mem_cons_of_mem _ hnew⟩

/-- Two pairs of entries are of different blocks, and the new ones lie apart. -/
def Different (first second : (ℕ × Node) × (ℕ × Node)) : Prop :=
  first.1 ≠ second.1 ∧ first.2.2.id ≠ second.2.2.id ∧
    (first.2.1 + first.1.2.block.bitsSize ≤ second.2.1 ∨ second.2.1 + second.1.2.block.bitsSize ≤ first.2.1)

theorem different_symm : Std.Symm Different := ⟨fun _ _ h ↦ ⟨h.1.symm, h.2.1.symm, h.2.2.symm⟩⟩

theorem placedFrom_pairwise (id : ℕ) (h : RegionsFit entries regions) (hnodup : entries.Nodup) :
    (placedFrom id entries regions).Pairwise Different := by
  obtain ⟨hfits, hapart⟩ := h
  induction hfits generalizing id with
  | nil => exact .nil
  | cons hfirst hrest ih =>
    obtain ⟨hhead, htail⟩ := List.pairwise_cons.mp hapart
    obtain ⟨hnot, hnodup⟩ := nodup_cons.mp hnodup
    refine .cons (fun other hother ↦ ?_) (ih (id + 1) hnodup htail)
    obtain ⟨hzip, _, hle, _⟩ := mem_placedFrom hother
    refine ⟨?_, (show id < _ from hle).ne, hhead _ hzip⟩
    rintro rfl
    exact hnot (List.of_mem_zip hzip).1

end Placed

namespace Slots

variable {Context : Type}

theorem addBlock_spec (block : MemBlock) {slots : Slots Context}
    (hfree : ∀ entry ∈ slots.state.g_blocks.entries, entry.1 ≠ block.physBase) (memory : Memory) :
    ∃ next, slots.addBlock block memory = some next ∧ (∀ entry, entry ∈ next.state.g_blocks.entries ↔
        entry = (block.physBase, ⟨slots.state.nextId, block⟩) ∨ entry ∈ slots.state.g_blocks.entries) ∧
      next.memory = Function.update slots.memory slots.state.nextId memory ∧
      next.state.m_allocations = slots.state.m_allocations ∧ next.state.nextId = slots.state.nextId + 1 := by
  have hnone : slots.state.g_blocks.find block.physBase = none := OrderedMap.find_eq_none.mpr hfree
  rw [addBlock, OrderedMap.insert, dif_pos hnone, map_some]
  exact ⟨_, rfl, fun _ ↦ OrderedMap.mem_add (h := hnone), rfl, rfl, rfl⟩

/-- What `place` leaves in slots without these addresses. -/
theorem place_spec (memory : ℕ → Memory) {entries : List (ℕ × Node)} {regions : List ℕ} (h : RegionsFit entries regions)
    (hpos : ∀ entry ∈ entries, 0 < entry.2.block.bitsSize) (slots : Slots Context)
    (hfree : ∀ region ∈ regions, ∀ entry ∈ slots.state.g_blocks.entries, entry.1 ≠ region) :
    ∃ last, place memory entries regions slots = some last ∧
      (∀ entry, entry ∈ last.state.g_blocks.entries ↔ entry ∈ slots.state.g_blocks.entries ∨
        ∃ old, (old, entry) ∈ placedFrom slots.state.nextId entries regions) ∧
      (∀ old new, (old, new) ∈ placedFrom slots.state.nextId entries regions →
        last.memory new.2.id = ⟨old.2.block.physBase, (memory old.2.id).bits⟩) ∧
      (∀ id < slots.state.nextId, last.memory id = slots.memory id) ∧
      last.state.m_allocations = slots.state.m_allocations ∧
      last.state.nextId = slots.state.nextId + entries.length := by
  obtain ⟨hfits, hapart⟩ := h
  induction hfits generalizing slots with
  | nil =>
    refine ⟨slots, rfl, fun entry ↦ ⟨.inl, ?_⟩, ?_, fun _ _ ↦ rfl, rfl, rfl⟩
    · rintro (hmem | ⟨_, hmem⟩)
      · exact hmem
      · cases hmem
    · intro old new hmem
      cases hmem
  | @cons first region entries regions hfirst hrest ih =>
    obtain ⟨hhead, htail⟩ := List.pairwise_cons.mp hapart
    obtain ⟨hposFirst, hpos⟩ := forall_mem_cons.mp hpos
    obtain ⟨hfreeFirst, hfree⟩ := forall_mem_cons.mp hfree
    obtain ⟨next, hadd, hnext, hmemoryNext, hallocationsNext, hidNext⟩ :=
      addBlock_spec { first.2.block with physBase := region } hfreeFirst
        ⟨first.2.block.physBase, (memory first.2.id).bits⟩
    have hfreeNext : ∀ other ∈ regions, ∀ entry ∈ next.state.g_blocks.entries, entry.1 ≠ other := by
      intro other hother entry hentry
      rcases (hnext entry).mp hentry with rfl | hentry
      · rw [← List.map_snd_zip hrest.length_eq.ge] at hother
        obtain ⟨⟨entry, other⟩, hzip, rfl⟩ := List.mem_map.mp hother
        have hlies := hhead _ hzip
        have hsize := hpos entry (List.of_mem_zip hzip).1
        simp only at hlies ⊢
        omega
      · exact hfree other hother entry hentry
    obtain ⟨last, hlast, hmem, hmemory, hbelow, hallocations, hnextId⟩ := ih hpos next hfreeNext htail
    rw [hidNext] at hmem hmemory hbelow hnextId
    refine ⟨last, ?_, fun entry ↦ ?_, ?_, fun id hid ↦ ?_, hallocations.trans hallocationsNext, ?_⟩
    · rw [place, List.headD_cons, if_neg hfirst.1.ne', List.tail_cons, hadd, bind_some, hlast]
    · rw [hmem, hnext, placedFrom]
      simp only [mem_cons, Prod.mk.injEq]
      constructor
      · rintro ((rfl | hentry) | ⟨old, hold⟩)
        · exact .inr ⟨first, .inl ⟨rfl, rfl⟩⟩
        · exact .inl hentry
        · exact .inr ⟨old, .inr hold⟩
      · rintro (hentry | ⟨old, ⟨rfl, rfl⟩ | hold⟩)
        · exact .inl (.inr hentry)
        · exact .inl (.inl rfl)
        · exact .inr ⟨old, hold⟩
    · intro old new hnew
      rcases mem_cons.mp hnew with heq | hnew
      · cases heq
        rw [hbelow _ (Nat.lt_succ_self _), hmemoryNext]
        exact update_self _ _ _
      · exact hmemory old new hnew
    · rw [hbelow id (hid.trans (Nat.lt_succ_self _)), hmemoryNext]
      exact update_of_ne hid.ne _ _
    · rw [hnextId, length_cons]
      omega

/-- Every block that was saved is there again, with the same bytes and free ranges; `moves` leads from the entries
that were saved to those that were loaded. -/
structure Relocates (saved loaded : Slots Context) (moves : ℕ × Node → ℕ × Node → Prop) : Prop where
  total : ∀ old ∈ saved.state.g_blocks.entries, ∃ new, moves old new
  onto : ∀ new ∈ loaded.state.g_blocks.entries, ∃ old, moves old new
  mem : ∀ old new, moves old new → old ∈ saved.state.g_blocks.entries ∧ new ∈ loaded.state.g_blocks.entries
  block_eq : ∀ old new, moves old new → new.2.block = { old.2.block with physBase := new.1 }
  memory_eq : ∀ old new, moves old new → loaded.memory new.2.id = ⟨old.2.block.physBase, (saved.memory old.2.id).bits⟩
  not_null : ∀ old new, moves old new → 0 < new.2.id
  unique : ∀ old new old' new', moves old new → moves old' new' → (old = old' ↔ new = new')

/-- The regions of two loaded blocks lie apart, and all are in the address space. -/
structure Regions (loaded : Slots Context) (moves : ℕ × Node → ℕ × Node → Prop) : Prop where
  fits : ∀ old new, moves old new → 0 < new.1 ∧ new.1 + old.2.block.bitsSize < 2 ^ 64
  apart : ∀ old new old' new', moves old new → moves old' new' → (old = old' ∧ new = new') ∨
    (old ≠ old' ∧ new.2.id ≠ new'.2.id ∧
      (new.1 + old.2.block.bitsSize ≤ new'.1 ∨ new'.1 + old'.2.block.bitsSize ≤ new.1))
  ids : ∀ entry ∈ loaded.state.g_blocks.entries, entry.2.id < loaded.state.nextId

theorem relocates_of_place {saved target : Slots Context} {regions : List ℕ}
    (h : RegionsFit saved.state.g_blocks.entries regions)
    (hpos : ∀ entry ∈ saved.state.g_blocks.entries, 0 < entry.2.block.bitsSize)
    (hempty : target.state.g_blocks = .empty) (hid : 0 < target.state.nextId) :
    ∃ loaded moves, place saved.memory saved.state.g_blocks.entries regions target = some loaded ∧
      Relocates saved loaded moves ∧ Regions loaded moves ∧ loaded.state.m_allocations = target.state.m_allocations ∧
      target.state.nextId ≤ loaded.state.nextId := by
  have hnone : ∀ entry, entry ∉ target.state.g_blocks.entries := by
    rw [hempty]
    exact fun _ ↦ not_mem_nil
  obtain ⟨loaded, hplace, hmem, hmemory, _, hallocations, hnextId⟩ := place_spec saved.memory h hpos
    target fun _ _ entry hentry ↦ absurd hentry (hnone entry)
  have hlength := h.fits.length_eq
  have happart (old new old' new' : ℕ × Node)
      (hto : (old, new) ∈ placedFrom target.state.nextId saved.state.g_blocks.entries regions)
      (hto' : (old', new') ∈ placedFrom target.state.nextId saved.state.g_blocks.entries regions) :
      (old = old' ∧ new = new') ∨ Different (old, new) (old', new') := by
    by_cases heq : ((old, new) : (ℕ × Node) × (ℕ × Node)) = (old', new')
    · exact .inl (Prod.mk.inj heq)
    · have hpair := placedFrom_pairwise target.state.nextId h saved.state.g_blocks.nodup_entries
      have := different_symm
      exact .inr (hpair.forall hto hto' heq)
  refine ⟨loaded, fun old new ↦ (old, new) ∈ placedFrom target.state.nextId saved.state.g_blocks.entries regions,
    hplace, ⟨fun old hold ↦ exists_placedFrom _ hlength hold, fun new hnew ↦ ?_, fun old new hto ↦ ?_,
      fun old new hto ↦ (mem_placedFrom hto).2.1, hmemory, fun old new hto ↦ ?_, fun old new old' new' hto hto' ↦ ?_⟩,
    ⟨fun old new hto ↦ ?_, happart, fun entry hentry ↦ ?_⟩, hallocations, by omega⟩
  · exact ((hmem new).mp hnew).resolve_left (hnone new)
  · exact ⟨(List.of_mem_zip (mem_placedFrom hto).1).1, (hmem new).mpr (.inr ⟨old, hto⟩)⟩
  · obtain ⟨_, _, hle, _⟩ := mem_placedFrom hto
    omega
  · obtain ⟨rfl, rfl⟩ | ⟨hold, hid, _⟩ := happart old new old' new' hto hto'
    · exact ⟨fun _ ↦ rfl, fun _ ↦ rfl⟩
    · exact ⟨fun heq ↦ absurd heq hold, fun heq ↦ absurd (congrArg (fun entry ↦ entry.2.id) heq) hid⟩
  · exact List.forall₂_iff_zip.mp h.fits |>.2 (mem_placedFrom hto).1
  · obtain ⟨old, hto⟩ := ((hmem entry).mp hentry).resolve_left (hnone entry)
    obtain ⟨_, _, _, hlt⟩ := mem_placedFrom hto
    omega

section Translate

variable {saved loaded : Slots Context} {moves : ℕ × Node → ℕ × Node → Prop} {old new : ℕ × Node} {p : ℕ}

/-- An address in a saved block is translated to the same place in the loaded one. -/
theorem Relocates.translatePhysAddr (h : Relocates saved loaded moves) (hregions : Regions loaded moves)
    (hsound : saved.state.Sound) (hto : moves old new) (hfrom : old.1 ≤ p) (hbelow : p < old.1 + old.2.block.bitsSize) :
    loaded.translatePhysAddr p = (new.1 + (p - old.1), new.2.id) := by
  have hblocks := hsound.blocks
  -- whichever block is found, it is the one that was saved from there
  have hfound : ∀ other ∈ loaded.state.g_blocks.entries,
      ((loaded.memory other.2.id).physBaseLoaded ≤ p ∧
        p < ((loaded.memory other.2.id).physBaseLoaded + other.2.block.bitsSize) % 2 ^ 64) ↔ other = new := by
    intro other hother
    obtain ⟨old', hto'⟩ := h.onto other hother
    obtain ⟨hold, _⟩ := h.mem old new hto
    obtain ⟨hold', _⟩ := h.mem old' other hto'
    rw [h.memory_eq old' other hto', h.block_eq old' other hto', ← hblocks.key_eq old' hold']
    have hend : old'.1 + old'.2.block.bitsSize < 2 ^ 64 := by
      rw [hblocks.key_eq old' hold']
      exact (hblocks.ok old' hold').end_lt
    simp only [Nat.mod_eq_of_lt hend]
    constructor
    · rintro ⟨hfrom', hbelow'⟩
      have hkey : old'.1 = old.1 := by
        rcases lt_trichotomy old'.1 old.1 with hless | heq | hmore
        · have hregion := hblocks.regions old' hold' old hold hless
          omega
        · exact heq
        · have hregion := hblocks.regions old hold old' hold' hmore
          omega
      obtain rfl := OrderedMap.eq_of_key hold' hold hkey
      obtain ⟨_, heq⟩ | ⟨hne, _⟩ := hregions.apart old' other old' new hto' hto
      · exact heq
      · exact absurd rfl hne
    · rintro rfl
      obtain ⟨rfl, _⟩ | ⟨_, hne, _⟩ := hregions.apart old' other old other hto' hto
      · exact ⟨hfrom, hbelow⟩
      · exact absurd rfl hne
  have hbase : new.2.block.physBase = new.1 := by rw [h.block_eq old new hto]
  have hloaded : (loaded.memory new.2.id).physBaseLoaded = old.1 := by
    rw [h.memory_eq old new hto, hblocks.key_eq old (h.mem old new hto).1]
  have hend := (hregions.fits old new hto).2
  have hfind : (loaded.state.g_blocks.entries.find? fun kv ↦ (loaded.memory kv.2.id).physBaseLoaded ≤ p ∧
      p < ((loaded.memory kv.2.id).physBaseLoaded + kv.2.block.bitsSize) % 2 ^ 64) = some new := by
    cases hcase : loaded.state.g_blocks.entries.find? fun kv ↦ (loaded.memory kv.2.id).physBaseLoaded ≤ p ∧
        p < ((loaded.memory kv.2.id).physBaseLoaded + kv.2.block.bitsSize) % 2 ^ 64 with
    | none =>
      have hnew := (h.mem old new hto).2
      exact absurd (decide_eq_true ((hfound new hnew).mpr rfl)) (List.find?_eq_none.mp hcase new hnew)
    | some other =>
      have hother := List.find?_some hcase
      rw [decide_eq_true_eq] at hother
      rw [(hfound other (List.mem_of_find?_eq_some hcase)).mp hother]
  rw [Slots.translatePhysAddr]
  simp only [hfind, hbase, hloaded]
  rw [Nat.mod_eq_of_lt (by omega)]

end Translate

/-! ## Allocations at new addresses -/

/-- The allocations are those that were saved, each at the same place of its block. -/
def Rebased (saved : Slots Context) (live : Context → ℕ → Option Allocation) (moves : ℕ × Node → ℕ × Node → Prop) :
    Prop :=
  ∀ context q found, live context q = some found ↔
    ∃ phys allocation old new, saved.state.live context phys = some allocation ∧ moves old new ∧
      old.2.id = allocation.owner ∧ old.1 ≤ phys ∧ phys + allocation.size ≤ old.1 + old.2.block.bitsSize ∧
      q = new.1 + (phys - old.1) ∧ found = ⟨allocation.size, new.2.id, allocation.size⟩

section Rebased

variable {saved loaded : Slots Context} {live : Context → ℕ → Option Allocation}
variable {moves : ℕ × Node → ℕ × Node → Prop}

variable {old new : ℕ × Node}

/-- An address lies in the region of one loaded block at most. -/
theorem Regions.unique {old' new' : ℕ × Node} {address : ℕ} (h : Regions loaded moves) (hto : moves old new)
    (hto' : moves old' new') (hfrom : new.1 ≤ address) (hbelow : address < new.1 + old.2.block.bitsSize)
    (hfrom' : new'.1 ≤ address) (hbelow' : address < new'.1 + old'.2.block.bitsSize) :
    old = old' ∧ new = new' := by
  refine (h.apart old new old' new' hto hto').resolve_right fun ⟨_, _, hapart⟩ ↦ ?_
  omega

/-- An address lies in the region of one saved block at most. -/
theorem unique_saved {old' : ℕ × Node} {address : ℕ} (h : saved.state.Sound)
    (hold : old ∈ saved.state.g_blocks.entries) (hold' : old' ∈ saved.state.g_blocks.entries)
    (hfrom : old.1 ≤ address) (hbelow : address < old.1 + old.2.block.bitsSize) (hfrom' : old'.1 ≤ address)
    (hbelow' : address < old'.1 + old'.2.block.bitsSize) : old = old' := by
  refine OrderedMap.eq_of_key hold hold' ?_
  rcases lt_trichotomy old.1 old'.1 with hless | heq | hmore
  · have hregion := h.blocks.regions old hold old' hold' hless
    omega
  · exact heq
  · have hregion := h.blocks.regions old' hold' old hold hmore
    omega

theorem Relocates.bitsSize_eq (h : Relocates saved loaded moves) (hto : moves old new) :
    new.2.block.bitsSize = old.2.block.bitsSize := by
  rw [h.block_eq old new hto]

theorem Rebased.disjoint (hlive : Rebased saved live moves) (hregions : Regions loaded moves)
    (h : saved.state.Sound) {context context' : Context} {q q' : ℕ} {found found' : Allocation}
    (hfound : live context q = some found) (hfound' : live context' q' = some found')
    (hne : (context, q) ≠ (context', q')) : q + found.size ≤ q' ∨ q' + found'.size ≤ q := by
  obtain ⟨phys, allocation, old, new, hsaved, hto, _, hfrom, hend, rfl, rfl⟩ := (hlive context q found).mp hfound
  obtain ⟨phys', allocation', old', new', hsaved', hto', _, hfrom', hend', rfl, rfl⟩ :=
    (hlive context' q' found').mp hfound'
  obtain ⟨rfl, rfl⟩ | ⟨_, _, hapart⟩ := hregions.apart old new old' new' hto hto'
  · have hpair : (context, phys) ≠ (context', phys') := by
      intro heq
      cases heq
      exact hne rfl
    have hsafe := h.blocks.disjoint context phys allocation context' phys' allocation' hsaved hsaved' hpair
    simp only
    omega
  · simp only
    omega

section

variable (hlive : Rebased saved live moves) (hmoves : Relocates saved loaded moves)
  (hregions : Regions loaded moves) (h : saved.state.Sound)
include hlive hmoves hregions h

theorem Rebased.allocated_iff {point : ℕ} (hto : moves old new) (hpoint : point < old.2.block.bitsSize) :
    Allocated live (new.1 + point) ↔ Allocated saved.state.live (old.1 + point) := by
  constructor
  · rintro ⟨context, q, found, hfound, hle, hlt⟩
    obtain ⟨phys, allocation, old', new', hsaved, hto', _, hfrom, hend, rfl, rfl⟩ := (hlive context q found).mp hfound
    simp only at hle hlt
    have hfrom' : new'.1 ≤ new.1 + point := by omega
    have hbelow' : new.1 + point < new'.1 + old'.2.block.bitsSize := by omega
    obtain ⟨rfl, rfl⟩ := hregions.unique hto hto' (Nat.le_add_right new.1 point) (by omega) hfrom' hbelow'
    exact ⟨context, phys, allocation, hsaved, by omega, by omega⟩
  · rintro ⟨context, phys, allocation, hsaved, hle, hlt⟩
    obtain ⟨old', hold', howner, hfrom, hend⟩ := h.blocks.owned context phys allocation hsaved
    obtain rfl := unique_saved h (hmoves.mem old new hto).1 hold' (Nat.le_add_right old.1 point) (by omega) (by omega)
      (by omega)
    refine ⟨context, new.1 + (phys - old.1), ⟨allocation.size, new.2.id, allocation.size⟩,
      (hlive _ _ _).mpr ⟨phys, allocation, old, new, hsaved, hto, howner, hfrom, hend, rfl, rfl⟩, by omega, ?_⟩
    simp only
    omega

/-- What was sound is sound at the new addresses. -/
theorem Rebased.sound : SharedSlots.Sound loaded.state.g_blocks live := by
  constructor
  · intro new hnew
    obtain ⟨old, hto⟩ := hmoves.onto new hnew
    rw [hmoves.block_eq old new hto]
  · intro new hnew new' hnew' hid
    obtain ⟨old, hto⟩ := hmoves.onto new hnew
    obtain ⟨old', hto'⟩ := hmoves.onto new' hnew'
    exact ((hregions.apart old new old' new' hto hto').resolve_right fun hboth ↦ hboth.2.1 hid).2
  · intro new hnew
    obtain ⟨old, hto⟩ := hmoves.onto new hnew
    have hok := h.blocks.ok old (hmoves.mem old new hto).1
    obtain ⟨hpos, hend⟩ := hregions.fits old new hto
    rw [hmoves.block_eq old new hto]
    exact ⟨hpos, hend, hok.size_pos, hok.size_lt, hok.coalesced⟩
  · intro new hnew new' hnew' hless
    obtain ⟨old, hto⟩ := hmoves.onto new hnew
    obtain ⟨old', hto'⟩ := hmoves.onto new' hnew'
    rw [hmoves.bitsSize_eq hto]
    obtain ⟨_, rfl⟩ | ⟨_, _, hapart⟩ := hregions.apart old new old' new' hto hto'
    · exact absurd hless (lt_irrefl _)
    · omega
  · intro context q found hfound
    obtain ⟨phys, allocation, old, new, _, hto, _, hfrom, hend, rfl, rfl⟩ := (hlive context q found).mp hfound
    have hbits := hmoves.bitsSize_eq hto
    refine ⟨new, (hmoves.mem old new hto).2, rfl, Nat.le_add_right _ _, ?_⟩
    simp only
    omega
  · intro context q found hfound
    obtain ⟨phys, allocation, _, _, hsaved, _, _, _, _, _, rfl⟩ := (hlive context q found).mp hfound
    exact ⟨(h.blocks.sized context phys allocation hsaved).1, le_rfl⟩
  · exact fun context q found context' q' found' ↦ hlive.disjoint hregions h
  · intro new hnew point hpoint
    obtain ⟨old, hto⟩ := hmoves.onto new hnew
    rw [hmoves.bitsSize_eq hto] at hpoint
    rw [hlive.allocated_iff hmoves hregions h hto hpoint, hmoves.block_eq old new hto]
    exact h.blocks.complement old (hmoves.mem old new hto).1 point hpoint

end

end Rebased

/-! ## The contexts -/

section Adopt

variable {slots : Slots Context}

/-- The addresses of a list can be translated one by one. -/
structure Translates (slots : Slots Context) (order : List (ℕ × Allocation)) : Prop where
  nodup : (order.map Prod.fst).Nodup
  phys_pos : ∀ kv ∈ order, kv.1 ≠ 0
  inj : ∀ kv ∈ order, ∀ kv' ∈ order, (slots.translatePhysAddr kv.1).1 = (slots.translatePhysAddr kv'.1).1 →
    kv.1 = kv'.1

theorem Translates.tail {first : ℕ × Allocation} {order : List (ℕ × Allocation)}
    (h : slots.Translates (first :: order)) : slots.Translates order :=
  ⟨(nodup_cons.mp h.nodup).2, fun kv hkv ↦ h.phys_pos kv (mem_cons_of_mem _ hkv),
    fun kv hkv kv' hkv' ↦ h.inj kv (mem_cons_of_mem _ hkv) kv' (mem_cons_of_mem _ hkv')⟩

/-- The allocation at a translated address, with the block that was found for it. -/
def loadedAs (slots : Slots Context) (kv : ℕ × Allocation) (q : ℕ) (found : Allocation) : Prop :=
  q = (slots.translatePhysAddr kv.1).1 ∧ found = ⟨kv.2.size, (slots.translatePhysAddr kv.1).2, kv.2.size⟩

theorem adopt_spec {order : List (ℕ × Allocation)} (m_allocations : Finmap fun _ : ℕ ↦ Allocation)
    (h : slots.Translates order)
    (hnew : ∀ kv ∈ order, m_allocations.lookup (slots.translatePhysAddr kv.1).1 = none) :
    ∃ last, slots.adopt order m_allocations = some last ∧ ∀ q found, last.lookup q = some found ↔
      m_allocations.lookup q = some found ∨ ∃ kv ∈ order, slots.loadedAs kv q found := by
  induction order generalizing m_allocations with
  | nil =>
    refine ⟨m_allocations, rfl, fun q found ↦ ⟨.inl, ?_⟩⟩
    rintro (hfound | ⟨_, hnil, _⟩)
    · exact hfound
    · cases hnil
  | cons first order ih =>
    have hnone := hnew first mem_cons_self
    let next := m_allocations.insert (slots.translatePhysAddr first.1).1
      ⟨first.2.size, (slots.translatePhysAddr first.1).2, first.2.size⟩
    have hinsert : slots.insertLoaded first.1 first.2.size m_allocations = some next := by
      rw [insertLoaded, if_pos (h.phys_pos first mem_cons_self), hnone]
      rfl
    have hother : ∀ kv ∈ order, (slots.translatePhysAddr kv.1).1 ≠ (slots.translatePhysAddr first.1).1 := by
      intro kv hkv heq
      have hsame := h.inj kv (mem_cons_of_mem _ hkv) first mem_cons_self heq
      exact (nodup_cons.mp h.nodup).1 (hsame ▸ List.mem_map_of_mem hkv)
    have hnext : ∀ kv ∈ order, next.lookup (slots.translatePhysAddr kv.1).1 = none := by
      intro kv hkv
      rw [Finmap.lookup_insert_of_ne _ (hother kv hkv)]
      exact hnew kv (mem_cons_of_mem _ hkv)
    obtain ⟨last, hlast, hmem⟩ := ih next h.tail hnext
    refine ⟨last, ?_, fun q found ↦ ?_⟩
    · rw [adopt, hinsert, bind_some, hlast]
    rw [hmem]
    by_cases hq : q = (slots.translatePhysAddr first.1).1
    · subst hq
      rw [Finmap.lookup_insert, hnone]
      constructor
      · rintro (hfound | ⟨kv, hkv, hloaded⟩)
        · exact .inr ⟨first, mem_cons_self, rfl, (Option.some.inj hfound).symm⟩
        · exact .inr ⟨kv, mem_cons_of_mem _ hkv, hloaded⟩
      · rintro (hfound | ⟨kv, hkv, hloaded⟩)
        · cases hfound
        rcases mem_cons.mp hkv with rfl | hkv
        · exact .inl (congrArg some hloaded.2.symm)
        · exact .inr ⟨kv, hkv, hloaded⟩
    · rw [Finmap.lookup_insert_of_ne _ hq]
      refine or_congr_right ⟨fun ⟨kv, hkv, hloaded⟩ ↦ ⟨kv, mem_cons_of_mem _ hkv, hloaded⟩, ?_⟩
      rintro ⟨kv, hkv, hloaded⟩
      rcases mem_cons.mp hkv with rfl | hkv
      · exact absurd hloaded.1 hq
      · exact ⟨kv, hkv, hloaded⟩

variable [DecidableEq Context]

/-- Loading contexts changes nothing but their allocations. -/
theorem adoptAll_spec {contexts : List (Context × List (ℕ × Allocation))}
    (hnodup : (contexts.map Prod.fst).Nodup) (h : ∀ saved ∈ contexts, slots.Translates saved.2) :
    ∃ last, adoptAll contexts slots = some last ∧ last.memory = slots.memory ∧
      last.state.g_blocks = slots.state.g_blocks ∧ last.state.nextId = slots.state.nextId ∧
      (∀ context, context ∉ contexts.map Prod.fst →
        last.state.m_allocations context = slots.state.m_allocations context) ∧
      ∀ saved ∈ contexts, ∀ q found, last.state.live saved.1 q = some found ↔
        ∃ kv ∈ saved.2, slots.loadedAs kv q found := by
  induction contexts generalizing slots with
  | nil => exact ⟨slots, rfl, rfl, rfl, rfl, fun _ _ ↦ rfl, fun _ hmem ↦ absurd hmem not_mem_nil⟩
  | cons first contexts ih =>
    obtain ⟨hnot, hnodup⟩ := nodup_cons.mp hnodup
    obtain ⟨hfirst, hrest⟩ := forall_mem_cons.mp h
    obtain ⟨m_allocations, hadopt, hlookup⟩ := adopt_spec ∅ hfirst fun _ _ ↦ Finmap.lookup_empty _
    have hkept : ∀ saved ∈ contexts, (slots.withAllocations first.1 m_allocations).Translates saved.2 :=
      fun saved hsaved ↦ ⟨(hrest saved hsaved).nodup, (hrest saved hsaved).phys_pos, (hrest saved hsaved).inj⟩
    obtain ⟨last, hlast, hmemory, hblocks, hnextId, hothers, hsaved⟩ := ih hnodup hkept
    refine ⟨last, ?_, hmemory, hblocks, hnextId, fun context hcontext ↦ ?_, ?_⟩
    · rw [adoptAll, hadopt, bind_some, hlast]
    · rw [List.map_cons, mem_cons, not_or] at hcontext
      rw [hothers context hcontext.2]
      exact update_of_ne hcontext.1 _ _
    · rw [forall_mem_cons]
      refine ⟨fun q found ↦ ?_, hsaved⟩
      have hown : last.state.m_allocations first.1 = m_allocations := by
        rw [hothers first.1 hnot]
        exact update_self _ _ _
      rw [State.live, hown, hlookup, Finmap.lookup_empty]
      exact ⟨fun hor ↦ hor.resolve_left (Option.some_ne_none _ ·.symm), .inr⟩

end Adopt

/-! ## Destroying contexts -/

section Destroy

variable [DecidableEq Context]

/-- The contexts are all that have allocations, each with its map gone through in some order. -/
structure Lists (contexts : List (Context × List (ℕ × Allocation))) (state : State Context) : Prop where
  nodup : (contexts.map Prod.fst).Nodup
  listed : ∀ saved ∈ contexts, Environment (.clear saved.1 saved.2) state
  others : ∀ context, context ∉ contexts.map Prod.fst → state.m_allocations context = ∅

omit [DecidableEq Context] in
theorem mem_of_listed {context : Context} {order : List (ℕ × Allocation)} {state : State Context}
    (h : Environment (.clear context order) state) (kv : ℕ × Allocation) :
    kv ∈ order ↔ state.live context kv.1 = some kv.2 := by
  obtain ⟨_, hlisted, hall⟩ := h
  refine ⟨hlisted kv, fun hlive ↦ ?_⟩
  have hkey : kv.1 ∈ (state.m_allocations context).keys :=
    Finmap.mem_keys.mpr (Finmap.lookup_isSome.mp (Option.isSome_of_eq_some hlive))
  obtain ⟨kv', hkv', heq⟩ := List.mem_map.mp (hall kv.1 hkey)
  have hlive' := hlisted kv' hkv'
  rw [heq] at hlive'
  rw [Prod.ext heq.symm (Option.some.inj (hlive.symm.trans hlive'))]
  exact hkv'

theorem destroy_spec {contexts : List (Context × List (ℕ × Allocation))} {state : State Context}
    (h : state.Sound) (hlists : Lists contexts state) :
    ∃ last, destroy contexts state = some last ∧ last.Sound ∧ last.nextId = state.nextId ∧
      ∀ context, last.m_allocations context = ∅ := by
  induction contexts generalizing state with
  | nil => exact ⟨state, rfl, h, rfl, fun context ↦ hlists.others context not_mem_nil⟩
  | cons first contexts ih =>
    obtain ⟨hnot, hnodup⟩ := nodup_cons.mp hlists.nodup
    obtain ⟨hfirst, hrest⟩ := forall_mem_cons.mp hlists.listed
    obtain ⟨next, hclear, hsound⟩ := h.clear hfirst
    obtain ⟨g_blocks, _, hnext⟩ := map_eq_some_iff.mp hclear
    have hmaps : next.m_allocations = Function.update state.m_allocations first.1 ∅ := by rw [← hnext]
    have hkept (context : Context) (hne : context ≠ first.1) :
        next.m_allocations context = state.m_allocations context := by
      rw [hmaps, update_of_ne hne]
    have hlistsNext : Lists contexts next := by
      refine ⟨hnodup, fun saved hsaved ↦ ?_, fun context hcontext ↦ ?_⟩
      · have hne : saved.1 ≠ first.1 := fun heq ↦ hnot (heq ▸ List.mem_map_of_mem hsaved)
        obtain ⟨horder, hlooked, hkeys⟩ := hrest saved hsaved
        refine ⟨horder, ?_, ?_⟩
        · rw [hkept saved.1 hne]
          exact hlooked
        · rw [hkept saved.1 hne]
          exact hkeys
      · by_cases hne : context = first.1
        · rw [hmaps, hne, update_self]
        · rw [hkept context hne]
          refine hlists.others context fun hmem ↦ ?_
          exact (mem_cons.mp hmem).elim hne hcontext
    obtain ⟨last, hlast, hsoundLast, hid, hempty⟩ := ih hsound hlistsNext
    refine ⟨last, ?_, hsoundLast, ?_, hempty⟩
    · rw [destroy, hclear, bind_some, hlast]
    · rw [hid, ← hnext]

end Destroy

end Slots

/-! ## Giving everything back -/

section GiveBack

variable {Context : Type} [DecidableEq Context]

omit [DecidableEq Context] in
theorem State.Sound.isAllFree {state : State Context} (h : state.Sound)
    (hnone : ∀ context phys, state.live context phys = none) :
    ∀ entry ∈ state.g_blocks.entries, entry.2.block.isAllFree = true := by
  intro entry hentry
  have hok := h.blocks.ok entry hentry
  rw [MemBlock.isAllFree, decide_eq_true_eq]
  refine hok.coalesced.entries_of_covers hok.size_pos fun point hpoint ↦ ?_
  rw [h.blocks.complement entry hentry point hpoint]
  rintro ⟨context, phys, allocation, hlive, _⟩
  rw [hnone] at hlive
  cases hlive

/-- Allocations are given back one by one. -/
def giveBack (order : List (Context × ℕ)) : List (Ping Context) :=
  order.map fun (context, phys) ↦ .unallocate context (UInt64.ofNat phys)

/-- The list has every allocation. -/
def ListsAll (order : List (Context × ℕ)) (state : State Context) : Prop :=
  ∀ context phys, (state.live context phys).isSome → (context, phys) ∈ order

theorem State.Sound.live_unallocate {state next : State Context} (h : state.Sound) {context : Context} {phys : ℕ}
    (hnext : state.unallocate context phys = some next) :
    next.live = record state.live context phys none := by
  unfold State.unallocate at hnext
  cases hlookup : (state.m_allocations context).lookup phys with
  | none =>
    rw [hlookup] at hnext
    cases hnext
    funext context' phys'
    by_cases heq : (context', phys') = (context, phys)
    · cases heq
      rw [record_self]
      exact hlookup
    · rw [record_of_ne _ heq]
  | some allocation =>
    obtain ⟨node, hrelease, _⟩ := h.blocks.release hlookup
    simp only [hlookup, hrelease, map_some] at hnext
    cases hnext
    exact live_erase context phys _ _

omit [DecidableEq Context] in
theorem State.Sound.phys_lt {state : State Context} (h : state.Sound) {context : Context} {phys : ℕ}
    (hsome : (state.live context phys).isSome) : phys < 2 ^ 64 := by
  obtain ⟨allocation, hlive⟩ := Option.isSome_iff_exists.mp hsome
  obtain ⟨entry, hentry, _, _, hend⟩ := h.blocks.owned context phys allocation hlive
  have hlt := (h.blocks.ok entry hentry).end_lt
  rw [← h.blocks.key_eq entry hentry] at hlt
  have hpos := (h.blocks.sized context phys allocation hlive).1
  omega

/-- In whatever order the allocations are given back, all blocks that are left are free. -/
theorem State.Sound.giveBack {state : State Context} (h : state.Sound) {order : List (Context × ℕ)}
    (hlists : ListsAll order state) :
    ∃ last, run SharedSlots.step state (SharedSlots.giveBack order) = some last ∧
      ∀ entry ∈ last.g_blocks.entries, entry.2.block.isAllFree = true := by
  induction order generalizing state with
  | nil =>
    refine ⟨state, rfl, h.isAllFree fun context phys ↦ ?_⟩
    cases hlive : state.live context phys with
    | none => rfl
    | some allocation => exact absurd (hlists context phys (by rw [hlive]; rfl)) not_mem_nil
  | cons first order ih =>
    obtain ⟨context, phys⟩ := first
    obtain ⟨next, hnext, hsound⟩ := h.unallocate context (UInt64.ofNat phys).toNat
    have hlive := h.live_unallocate hnext
    have hrest : ListsAll order next := by
      intro context' phys' hsome
      rw [hlive] at hsome
      by_cases heq : (context', phys') = (context, (UInt64.ofNat phys).toNat)
      · cases heq
        rw [record_self] at hsome
        cases hsome
      · rw [record_of_ne _ heq] at hsome
        refine (mem_cons.mp (hlists context' phys' hsome)).resolve_left fun hsame ↦ heq ?_
        cases hsame
        rw [toNat_ofNat64 (h.phys_lt hsome)]
    obtain ⟨last, hlast, hfree⟩ := ih hsound hrest
    refine ⟨last, ?_, hfree⟩
    change (SharedSlots.step (.unallocate context (UInt64.ofNat phys)) state).bind _ = _
    rw [SharedSlots.step, hnext, bind_some]
    exact hlast

end GiveBack

/-! ## What a ping does to the nodes -/

section Nodes

variable {Context : Type} [DecidableEq Context] {state next : State Context}

variable {blocks : OrderedMap ℕ Node} {node : Node}

theorem bitsSize_allocate {block next : MemBlock} {requestedSize address : ℕ}
    (h : block.allocate requestedSize = some (address, next)) : next.bitsSize = block.bitsSize := by
  unfold MemBlock.allocate at h
  cases hfind : findFreeSubblock block.freeSubblocks requestedSize with
  | none =>
    simp only [hfind] at h
    rw [(Prod.mk.inj (Option.some.inj h)).2]
  | some found =>
    simp only [hfind] at h
    obtain ⟨_, _, heq⟩ := map_eq_some_iff.mp h
    rw [← (Prod.mk.inj heq).2]

theorem bitsSize_unallocate {block next : MemBlock} {phys size : ℕ} (h : block.unallocate phys size = some next) :
    next.bitsSize = block.bitsSize := by
  unfold MemBlock.unallocate at h
  split_ifs at h
  obtain ⟨_, _, h⟩ := bind_eq_some_iff.mp h
  obtain ⟨_, _, h⟩ := bind_eq_some_iff.mp h
  obtain ⟨_, _, rfl⟩ := map_eq_some_iff.mp h
  rfl

/-- A node that was there before, with a block of the same size. -/
def Kept (blocks : OrderedMap ℕ Node) (node : Node) : Prop :=
  ∃ old ∈ blocks.entries, old.2.id = node.id ∧ old.2.block.bitsSize = node.block.bitsSize

theorem kept_self {entry : ℕ × Node} (h : entry ∈ blocks.entries) : Kept blocks entry.2 := ⟨entry, h, rfl, rfl⟩

theorem kept_serve {requestedSize physAddr : ℕ} {entries : List (ℕ × Node)}
    (h : serve requestedSize entries = some (some (physAddr, node))) :
    ∃ old ∈ entries, old.2.id = node.id ∧ old.2.block.bitsSize = node.block.bitsSize := by
  induction entries with
  | nil => cases h
  | cons first entries ih =>
    obtain ⟨⟨address, block⟩, hallocate, h⟩ := bind_eq_some_iff.mp h
    simp only at h
    split_ifs at h
    · obtain ⟨_, rfl⟩ := Prod.mk.inj (Option.some.inj (Option.some.inj h))
      exact ⟨first, mem_cons_self, rfl, (bitsSize_allocate hallocate).symm⟩
    · obtain ⟨old, hold, hid, hbits⟩ := ih h
      exact ⟨old, mem_cons_of_mem _ hold, hid, hbits⟩

theorem kept_release {phys : ℕ} {allocation : Allocation} (h : release phys allocation blocks = some node) :
    Kept blocks node := by
  obtain ⟨old, hfind, h⟩ := bind_eq_some_iff.mp h
  obtain ⟨block, hblock, rfl⟩ := map_eq_some_iff.mp h
  exact ⟨old, List.mem_of_find?_eq_some hfind, rfl, (bitsSize_unallocate hblock).symm⟩

theorem kept_setBlock (h : Kept blocks node) : ∀ entry ∈ (setBlock node blocks).entries, Kept blocks entry.2 := by
  intro entry hentry
  obtain ⟨old, hold, rfl⟩ := mem_setBlock.mp hentry
  simp only
  split_ifs
  · exact h
  · exact kept_self hold

theorem kept_releaseAll {order : List (ℕ × Allocation)} {last : OrderedMap ℕ Node}
    (h : releaseAll order blocks = some last) : ∀ entry ∈ last.entries, Kept blocks entry.2 := by
  induction order generalizing blocks with
  | nil =>
    cases h
    exact fun entry hentry ↦ kept_self hentry
  | cons first order ih =>
    obtain ⟨node, hrelease, h⟩ := bind_eq_some_iff.mp h
    intro entry hentry
    obtain ⟨middle, hmiddle, hid, hbits⟩ := ih h entry hentry
    obtain ⟨old, hold, hid', hbits'⟩ := kept_setBlock (kept_release hrelease) middle hmiddle
    exact ⟨old, hold, hid'.trans hid, hbits'.trans hbits⟩

/-- The size of a block that a ping may make. -/
def newSize : Ping Context → ℕ
  | .allocate _ size _ => max (alignedSize size) State.defaultSize
  | _ => 0

/-- A ping keeps nodes, drops them or makes one new node. -/
structure Nodes (size : ℕ) (state next : State Context) : Prop where
  nextId : next.nextId = state.nextId ∨ next.nextId = state.nextId + 1
  nodes : ∀ entry ∈ next.g_blocks.entries, Kept state.g_blocks entry.2 ∨
    (entry.2.id = state.nextId ∧ next.nextId = state.nextId + 1 ∧ entry.2.block.bitsSize = size)

theorem nodes_populate {context : Context} {physAddr size : ℕ} {allocation : Allocation} {middle : State Context}
    (h : middle.populatePhysAddr context physAddr allocation = some next) (hnodes : Nodes size state middle) :
    Nodes size state next := by
  unfold State.populatePhysAddr at h
  split_ifs at h
  cases h
  exact ⟨hnodes.nextId, hnodes.nodes⟩

theorem nodes_step {ping : Ping Context} (h : SharedSlots.step ping state = some next) :
    Nodes (newSize ping) state next := by
  cases ping with
  | allocate context size region =>
    obtain ⟨found, hserve, h⟩ := bind_eq_some_iff.mp h
    cases found with
    | some found =>
      refine nodes_populate h ⟨.inl rfl, fun entry hentry ↦ .inl ?_⟩
      exact kept_setBlock (kept_serve hserve) entry hentry
    | none =>
      obtain ⟨newBlock, hnew, h⟩ := bind_eq_some_iff.mp h
      obtain ⟨⟨physAddr, block⟩, hallocate, h⟩ := bind_eq_some_iff.mp h
      simp only at h
      split_ifs at h
      · cases h
        exact ⟨.inl rfl, fun entry hentry ↦ .inl (kept_self hentry)⟩
      obtain ⟨g_blocks, hinsert, h⟩ := bind_eq_some_iff.mp h
      refine nodes_populate h ⟨.inr rfl, fun entry hentry ↦ ?_⟩
      obtain ⟨hnone, rfl⟩ := OrderedMap.insert_eq_some hinsert
      obtain ⟨_, _, rfl⟩ := map_eq_some_iff.mp hnew
      rcases (OrderedMap.mem_add (h := hnone)).mp hentry with rfl | hentry
      · exact .inr ⟨rfl, rfl, bitsSize_allocate hallocate⟩
      · exact .inl (kept_self hentry)
  | unallocate context physAddr =>
    unfold SharedSlots.step State.unallocate at h
    cases hlookup : (state.m_allocations context).lookup physAddr.toNat with
    | none =>
      simp only [hlookup] at h
      cases h
      exact ⟨.inl rfl, fun entry hentry ↦ .inl (kept_self hentry)⟩
    | some allocation =>
      simp only [hlookup] at h
      obtain ⟨node, hrelease, rfl⟩ := map_eq_some_iff.mp h
      refine ⟨.inl rfl, fun entry hentry ↦ .inl (kept_setBlock (kept_release hrelease) entry ?_)⟩
      simp only at hentry
      split_ifs at hentry
      · exact (gcFrom_sublist _ _).subset hentry
      · exact hentry
  | clear context order =>
    obtain ⟨g_blocks, hrelease, rfl⟩ := map_eq_some_iff.mp h
    exact ⟨.inl rfl, fun entry hentry ↦ .inl (kept_releaseAll hrelease entry hentry)⟩

end Nodes

/-! ## Loading what was saved -/

namespace Slots

variable {Context : Type} [DecidableEq Context]

structure Sound (slots : Slots Context) : Prop where
  state : slots.state.Sound
  nextId_pos : 0 < slots.state.nextId
  not_null : ∀ entry ∈ slots.state.g_blocks.entries, 0 < entry.2.id
  bits : ∀ entry ∈ slots.state.g_blocks.entries, (slots.memory entry.2.id).bits.length = entry.2.block.bitsSize

section Load

variable {saved target : Slots Context} {contexts destroyed : List (Context × List (ℕ × Allocation))}
variable {regions : List ℕ}

omit [DecidableEq Context] in
theorem Sound.storable (h : saved.Sound) : Storable saved.memory saved.state.g_blocks.entries := by
  intro entry hentry
  have hok := h.state.blocks.ok entry hentry
  refine ⟨(Nat.le_add_right _ _).trans_lt hok.end_lt, hok.size_lt, h.bits entry hentry, fun kv hkv ↦ ?_,
    hok.coalesced.length_le.trans_lt hok.size_lt⟩
  have hend := hok.coalesced.end_le kv hkv
  have hlt := hok.size_lt
  omega

omit [DecidableEq Context] in
/-- An allocation is in a block, and not at address 0. -/
theorem Sound.owner (h : saved.Sound) {context : Context} {phys : ℕ} {allocation : Allocation}
    (hlive : saved.state.live context phys = some allocation) :
    ∃ old ∈ saved.state.g_blocks.entries, old.2.id = allocation.owner ∧ 0 < old.1 ∧ old.1 ≤ phys ∧
      phys + allocation.size ≤ old.1 + old.2.block.bitsSize ∧ phys < old.1 + old.2.block.bitsSize := by
  obtain ⟨old, hold, howner, hfrom, hend⟩ := h.state.blocks.owned context phys allocation hlive
  have hpos := (h.state.blocks.ok old hold).base_pos
  have hsize := (h.state.blocks.sized context phys allocation hlive).1
  rw [← h.state.blocks.key_eq old hold] at hpos
  exact ⟨old, hold, howner, hpos, hfrom, hend, by omega⟩

omit [DecidableEq Context] in
theorem Sound.allocationsFit (h : saved.Sound) {context : Context} {order : List (ℕ × Allocation)}
    (hlisted : Environment (.clear context order) saved.state) (hlength : order.length < 2 ^ 32) :
    AllocationsFit order := by
  refine ⟨hlength, fun kv hkv ↦ ?_⟩
  have hlive := (mem_of_listed hlisted kv).mp hkv
  obtain ⟨old, hold, _, _, hfrom, hend, _⟩ := h.owner hlive
  have hok := h.state.blocks.ok old hold
  have hbelow := hok.end_lt
  have hsize := hok.size_lt
  rw [← h.state.blocks.key_eq old hold] at hbelow
  omega

omit [DecidableEq Context] in
theorem Sound.translates {placed : Slots Context} {moves : ℕ × Node → ℕ × Node → Prop} (h : saved.Sound)
    (hmoves : Relocates saved placed moves) (hregions : Regions placed moves) {context : Context}
    {order : List (ℕ × Allocation)} (hlisted : Environment (.clear context order) saved.state) :
    placed.Translates order := by
  refine ⟨hlisted.1, fun kv hkv ↦ ?_, fun kv hkv kv' hkv' heq ↦ ?_⟩
  · obtain ⟨_, _, _, hpos, hfrom, _⟩ := h.owner ((mem_of_listed hlisted kv).mp hkv)
    omega
  · obtain ⟨old, hold, _, _, hfrom, _, hbelow⟩ := h.owner ((mem_of_listed hlisted kv).mp hkv)
    obtain ⟨old', hold', _, _, hfrom', _, hbelow'⟩ := h.owner ((mem_of_listed hlisted kv').mp hkv')
    obtain ⟨new, hto⟩ := hmoves.total old hold
    obtain ⟨new', hto'⟩ := hmoves.total old' hold'
    rw [hmoves.translatePhysAddr hregions h.state hto hfrom hbelow,
      hmoves.translatePhysAddr hregions h.state hto' hfrom' hbelow'] at heq
    simp only at heq
    obtain ⟨rfl, rfl⟩ := hregions.unique hto hto' (Nat.le_add_right new.1 (kv.1 - old.1)) (by omega) (by omega)
      (by omega)
    omega

omit [DecidableEq Context] in
/-- What is loaded for an allocation is at the same place of its block. -/
theorem Sound.loadedAs_iff {placed : Slots Context} {moves : ℕ × Node → ℕ × Node → Prop} (h : saved.Sound)
    (hmoves : Relocates saved placed moves) (hregions : Regions placed moves) {context : Context} {phys q : ℕ}
    {allocation found : Allocation} (hlive : saved.state.live context phys = some allocation) :
    placed.loadedAs (phys, allocation) q found ↔ ∃ old new, moves old new ∧ old.2.id = allocation.owner ∧
      old.1 ≤ phys ∧ phys + allocation.size ≤ old.1 + old.2.block.bitsSize ∧
      q = new.1 + (phys - old.1) ∧ found = ⟨allocation.size, new.2.id, allocation.size⟩ := by
  obtain ⟨old, hold, howner, _, hfrom, hend, hbelow⟩ := h.owner hlive
  obtain ⟨new, hto⟩ := hmoves.total old hold
  have htranslate := hmoves.translatePhysAddr hregions h.state hto hfrom hbelow
  constructor
  · rintro ⟨rfl, rfl⟩
    exact ⟨old, new, hto, howner, hfrom, hend, by rw [htranslate], by rw [htranslate]⟩
  · rintro ⟨old', new', hto', howner', _, _, rfl, rfl⟩
    obtain rfl := h.state.blocks.id_inj old' (hmoves.mem old' new' hto').1 old hold (howner'.trans howner.symm)
    obtain rfl := (hmoves.unique old' new' old' new hto' hto).mp rfl
    exact ⟨by rw [htranslate], by rw [htranslate]⟩

/-- Everything that was saved is there again, in slots that are sound. -/
theorem Sound.load (h : saved.Sound) (htarget : target.Sound) (hlists : Lists contexts saved.state)
    (hcount : saved.state.g_blocks.entries.length < 2 ^ 32) (hcounts : ∀ context ∈ contexts, context.2.length < 2 ^ 32)
    (hdestroyed : Lists destroyed target.state) (hfits : RegionsFit saved.state.g_blocks.entries regions) :
    ∃ loaded moves, target.load destroyed (contexts.map Prod.fst) regions (saved.save contexts) = some loaded ∧
      Relocates saved loaded moves ∧ Rebased saved loaded.state.live moves ∧ loaded.Sound := by
  obtain ⟨cleared, hcleared, _, hid, hempty⟩ := destroy_spec htarget.state hdestroyed
  have hpos : ∀ entry ∈ saved.state.g_blocks.entries, 0 < entry.2.block.bitsSize :=
    fun entry hentry ↦ (h.state.blocks.ok entry hentry).size_pos
  obtain ⟨placed, moves, hplace, hmoves, hregions, hmaps, hnext⟩ := relocates_of_place hfits hpos
    (rfl : (globalStateClear { target with state := cleared }).state.g_blocks = .empty)
    (hid.symm ▸ htarget.nextId_pos : 0 < cleared.nextId)
  have htranslates : ∀ context ∈ contexts, placed.Translates context.2 :=
    fun context hcontext ↦ h.translates hmoves hregions (hlists.listed context hcontext)
  obtain ⟨loaded, hadopt, hmemory, hblocks, hnextId, hothers, hlive⟩ := adoptAll_spec hlists.nodup htranslates
  have hmovesLoaded : Relocates saved loaded moves := by
    refine ⟨hmoves.total, ?_, ?_, hmoves.block_eq, ?_, hmoves.not_null, hmoves.unique⟩
    · rw [hblocks]
      exact hmoves.onto
    · rw [hblocks]
      exact hmoves.mem
    · rw [hmemory]
      exact hmoves.memory_eq
  have hregionsLoaded : Regions loaded moves := by
    refine ⟨hregions.fits, hregions.apart, ?_⟩
    rw [hblocks, hnextId]
    exact hregions.ids
  have hrebased : Rebased saved loaded.state.live moves := by
    intro context q found
    by_cases hcontext : context ∈ contexts.map Prod.fst
    · obtain ⟨⟨context, order⟩, hmem, rfl⟩ := List.mem_map.mp hcontext
      rw [hlive _ hmem]
      constructor
      · rintro ⟨kv, hkv, hloaded⟩
        have hkvLive := (mem_of_listed (hlists.listed _ hmem) kv).mp hkv
        obtain ⟨old, new, hrest⟩ := (h.loadedAs_iff hmoves hregions hkvLive).mp hloaded
        exact ⟨kv.1, kv.2, old, new, hkvLive, hrest⟩
      · rintro ⟨phys, allocation, old, new, hphys, hrest⟩
        exact ⟨(phys, allocation), (mem_of_listed (hlists.listed _ hmem) _).mpr hphys,
          (h.loadedAs_iff hmoves hregions hphys).mpr ⟨old, new, hrest⟩⟩
    · have hnone : loaded.state.live context q = none := by
        rw [State.live, hothers context hcontext, hmaps]
        change Finmap.lookup q (cleared.m_allocations context) = none
        rw [hempty]
        exact Finmap.lookup_empty q
      rw [hnone]
      refine ⟨fun h ↦ absurd h.symm (Option.some_ne_none _), ?_⟩
      rintro ⟨phys, allocation, _, _, hphys, _⟩
      rw [State.live, hlists.others context hcontext, Finmap.lookup_empty] at hphys
      cases hphys
  refine ⟨loaded, moves, ?_, hmovesLoaded, hrebased, ⟨hrebased.sound hmovesLoaded hregionsLoaded h.state,
    hregionsLoaded.ids⟩, ?_, fun new hnew ↦ ?_, fun new hnew ↦ ?_⟩
  · rw [load_save h.storable hcount fun context hcontext ↦
      h.allocationsFit (hlists.listed context hcontext) (hcounts context hcontext), hcleared, bind_some,
      hplace, bind_some, hadopt]
  · rw [hnextId]
    exact (hid.symm ▸ htarget.nextId_pos : 0 < cleared.nextId).trans_le hnext
  · obtain ⟨old, hto⟩ := hmovesLoaded.onto new hnew
    exact hmovesLoaded.not_null old new hto
  · obtain ⟨old, hto⟩ := hmovesLoaded.onto new hnew
    rw [hmovesLoaded.memory_eq old new hto, hmovesLoaded.bitsSize_eq hto]
    exact h.bits old (hmovesLoaded.mem old new hto).1

end Load

/-- What users expect of a load: all blocks and allocations are there again, and giving everything back leaves
all blocks free. -/
structure Restores (saved loaded : Slots Context) : Prop where
  same : ∃ moves, Relocates saved loaded moves ∧ Rebased saved loaded.state.live moves
  giveBack : ∀ order, ListsAll order loaded.state →
    ∃ last, run SharedSlots.step loaded.state (SharedSlots.giveBack order) = some last ∧
      ∀ entry ∈ last.g_blocks.entries, entry.2.block.isAllFree = true

end Slots

/-! ## Every load of every run -/

namespace Machine

variable {Context : Type} [DecidableEq Context]

/-- Memory has the size of its block, the device lists its contexts, and the hardware finds room for blocks. -/
def Environment : Event Context → Machine Context → Prop
  | .ping ping bits, machine => SharedSlots.Environment ping machine.now.state ∧ bits.length = newSize ping
  | .write id bits, machine => bits.length = (machine.now.memory id).bits.length
  | .save contexts, machine => Slots.Lists contexts machine.now.state
  | .restart, _ => True
  | .load destroyed regions, machine => Slots.Lists destroyed machine.now.state ∧
      ∀ snapshot ∈ machine.snapshot, RegionsFit snapshot.slots.state.g_blocks.entries regions

/-- Requests are not empty and fit in 32 bits, and so do the numbers of what is saved. -/
def Fits : Event Context → Machine Context → Prop
  | .ping ping _, machine => SizeFits ping machine.now.state
  | .save contexts, machine => machine.now.state.g_blocks.entries.length < 2 ^ 32 ∧
      ∀ context ∈ contexts, context.2.length < 2 ^ 32
  | _, _ => True

/-- The file is what is saved of sound slots. -/
structure SavedFrom (snapshot : Snapshot Context) (contexts : List (Context × List (ℕ × Allocation))) : Prop where
  slots : snapshot.slots.Sound
  file_eq : snapshot.file = snapshot.slots.save contexts
  contexts_eq : snapshot.contexts = contexts.map Prod.fst
  lists : Slots.Lists contexts snapshot.slots.state
  count : snapshot.slots.state.g_blocks.entries.length < 2 ^ 32
  counts : ∀ context ∈ contexts, context.2.length < 2 ^ 32

structure Sound (machine : Machine Context) : Prop where
  now : machine.now.Sound
  snapshot : ∀ snapshot ∈ machine.snapshot, ∃ contexts, SavedFrom snapshot contexts

section Runs

variable {machine next : Machine Context} {snapshot : Snapshot Context}
variable {destroyed : List (Context × List (ℕ × Allocation))} {regions : List ℕ}

omit [DecidableEq Context] in
theorem sound_slots_new : (Slots.new : Slots Context).Sound := by
  have hlive : (Slots.new : Slots Context).state.live = fun _ _ ↦ none := by
    funext context phys
    exact Finmap.lookup_empty phys
  refine ⟨⟨?_, fun _ h ↦ absurd h not_mem_nil⟩, Nat.one_pos, fun _ h ↦ absurd h not_mem_nil,
    fun _ h ↦ absurd h not_mem_nil⟩
  rw [hlive]
  exact sound_empty

omit [DecidableEq Context] in
theorem sound_new : (new : Machine Context).Sound := ⟨sound_slots_new, nofun⟩

/-- The bytes of new nodes are as many as their size says. -/
theorem Sound.ping {ping : Ping Context} {bits : List UInt8} (h : machine.Sound)
    (henvironment : Environment (.ping ping bits) machine) (hfits : Fits (.ping ping bits) machine)
    (hstep : step (.ping ping bits) machine = some next) : next.Sound := by
  obtain ⟨state, hstate, rfl⟩ := map_eq_some_iff.mp hstep
  obtain ⟨state', hstate', hsound⟩ := h.now.state.step henvironment.1 hfits
  cases hstate.symm.trans hstate'
  have hnodes := nodes_step hstate
  have hids := h.now.state.ids
  refine ⟨⟨hsound, ?_, fun entry hentry ↦ ?_, fun entry hentry ↦ ?_⟩, h.snapshot⟩
  · have hpos := h.now.nextId_pos
    have hnext := hnodes.nextId
    simp only
    omega
  · obtain ⟨old, hold, hid, _⟩ | ⟨hid, _⟩ := hnodes.nodes entry hentry
    · exact hid ▸ h.now.not_null old hold
    · exact hid ▸ h.now.nextId_pos
  · obtain ⟨old, hold, hid, hbits⟩ | ⟨hid, hnext, hbits⟩ := hnodes.nodes entry hentry
    · have hbelow := hids old hold
      rw [← hid, ← hbits, ← h.now.bits old hold]
      simp only
      split_ifs
      · rfl
      · rw [update_of_ne hbelow.ne]
    · simp only
      rw [if_neg (by omega), hid, update_self, hbits]
      exact henvironment.2

theorem Sound.write {id : ℕ} {bits : List UInt8} (h : machine.Sound)
    (henvironment : Environment (.write id bits) machine) (hstep : step (.write id bits) machine = some next) :
    next.Sound := by
  cases hstep
  refine ⟨⟨h.now.state, h.now.nextId_pos, h.now.not_null, fun entry hentry ↦ ?_⟩, h.snapshot⟩
  rw [← h.now.bits entry hentry]
  by_cases hid : entry.2.id = id
  · rw [hid]
    simp only [update_self]
    exact henvironment
  · simp only [update_of_ne hid]

theorem Sound.load (h : machine.Sound) (henvironment : Environment (.load destroyed regions) machine)
    (hsnapshot : machine.snapshot = some snapshot) :
    ∃ loaded moves, step (.load destroyed regions) machine = some { machine with now := loaded } ∧
      Slots.Relocates snapshot.slots loaded moves ∧ Slots.Rebased snapshot.slots loaded.state.live moves ∧
      loaded.Sound := by
  obtain ⟨contexts, hsaved⟩ := h.snapshot snapshot hsnapshot
  obtain ⟨loaded, moves, hload, hmoves, hrebased, hsound⟩ := hsaved.slots.load h.now hsaved.lists hsaved.count
    hsaved.counts henvironment.1 (henvironment.2 snapshot hsnapshot)
  refine ⟨loaded, moves, ?_, hmoves, hrebased, hsound⟩
  rw [step, hsnapshot, bind_some, hsaved.file_eq, hsaved.contexts_eq, hload, map_some]

theorem Sound.step {event : Event Context} (h : machine.Sound) (henvironment : Environment event machine)
    (hfits : Fits event machine) (hstep : step event machine = some next) : next.Sound := by
  cases event with
  | ping ping bits => exact h.ping henvironment hfits hstep
  | write id bits => exact h.write henvironment hstep
  | save contexts =>
    cases hstep
    refine ⟨h.now, fun snapshot hsnapshot ↦ ?_⟩
    cases hsnapshot
    exact ⟨contexts, h.now, rfl, rfl, henvironment, hfits.1, hfits.2⟩
  | restart =>
    cases hstep
    exact ⟨sound_slots_new, h.snapshot⟩
  | load destroyed regions =>
    obtain ⟨snapshot, hsnapshot, _⟩ := bind_eq_some_iff.mp hstep
    obtain ⟨loaded, _, hloaded, _, _, hsound⟩ := h.load henvironment hsnapshot
    cases hstep.symm.trans hloaded
    exact ⟨hsound, h.snapshot⟩

/-- Whatever a run did before, with loads and starts of the emulator among it, a load restores what was saved
last, as long as the sizes fit. -/
theorem restores_of_run (events : List (Event Context)) (machine : Machine Context) (snapshot : Snapshot Context)
    (destroyed : List (Context × List (ℕ × Allocation))) (regions : List ℕ)
    (henvironment : Guarded Machine.step Environment new events) (hfits : Guarded Machine.step Fits new events)
    (hrun : run Machine.step new events = some machine) (hsnapshot : machine.snapshot = some snapshot)
    (hload : Environment (.load destroyed regions) machine) :
    ∃ next, Machine.step (.load destroyed regions) machine = some next ∧
      Slots.Restores snapshot.slots next.now := by
  have h : machine.Sound := invariant_of_guarded Machine.Sound
    (fun _ _ _ h hguard hstep ↦ h.step hguard.1 hguard.2 hstep) sound_new (guarded_and henvironment hfits) hrun
  obtain ⟨loaded, moves, hstep, hmoves, hrebased, hsound⟩ := h.load hload hsnapshot
  exact ⟨_, hstep, ⟨moves, hmoves, hrebased⟩, fun order hlists ↦ hsound.state.giveBack hlists⟩

/-- Pings, each with the bytes of a block that it may make. -/
def pings (list : List (Ping Context × List UInt8)) : List (Event Context) :=
  list.map fun (ping, bits) ↦ .ping ping bits

/-- A run of pings is one of the allocator. -/
theorem guarded_pings (guard : Ping Context → State Context → Prop) {guard' : Event Context → Machine Context → Prop}
    {list : List (Ping Context × List UInt8)} {rest : List (Event Context)}
    (hguard : ∀ pair ∈ list, ∀ machine, guard pair.1 machine.now.state → guard' (.ping pair.1 pair.2) machine)
    (h : Guarded SharedSlots.step guard machine.now.state (list.map Prod.fst))
    (hrest : ∀ last, run Machine.step machine (pings list) = some last → Guarded Machine.step guard' last rest) :
    Guarded Machine.step guard' machine (pings list ++ rest) := by
  induction list generalizing machine with
  | nil => exact hrest machine rfl
  | cons first list ih =>
    obtain ⟨hfirst, hlist⟩ := forall_mem_cons.mp hguard
    refine ⟨hfirst machine h.1, fun next hstep ↦ ih hlist ?_ fun last hlast ↦ hrest last ?_⟩
    · obtain ⟨state, hstate, rfl⟩ := map_eq_some_iff.mp hstep
      exact h.2 state hstate
    · exact (congrArg (Option.bind · _) hstep).trans hlast

end Runs

/-- The bytes of a block that nobody has written to. -/
def zeros (size : ℕ) : List UInt8 := List.replicate size 0

theorem length_zeros (size : ℕ) : (zeros size).length = size := List.length_replicate

/-- One context has a page. -/
def onePage : List (Ping Unit × List UInt8) := [(.allocate () 1 0x100000, zeros State.defaultSize)]

def onePageSaved : List (Unit × List (ℕ × Allocation)) := [((), [(0x100000, ⟨4096, 1, 1⟩)])]

theorem restores_onePage : ∃ machine snapshot next, run step new (pings onePage ++ [.save onePageSaved]) = some machine ∧
    machine.snapshot = some snapshot ∧ snapshot.slots.state.live () 0x100000 = some ⟨4096, 1, 1⟩ ∧
    step (.load onePageSaved [0x800000000]) machine = some next ∧ Slots.Restores snapshot.slots next.now := by
  have hsome : (run step new (pings onePage)).isSome = true := by decide +kernel
  obtain ⟨machine, hrun⟩ := Option.isSome_iff_exists.mp hsome
  have hfacts : ∀ machine ∈ run step new (pings onePage),
      machine.now.state.g_blocks.entries.map (fun entry ↦ (entry.1, entry.2.block.bitsSize)) =
        [(0x100000, State.defaultSize)] ∧
      machine.now.state.live () 0x100000 = some ⟨4096, 1, 1⟩ ∧
      SharedSlots.Environment (.clear () [(0x100000, ⟨4096, 1, 1⟩)]) machine.now.state := by
    decide +kernel
  obtain ⟨hblocks, hlive, hlisted⟩ := hfacts machine hrun
  have hlists : Slots.Lists onePageSaved machine.now.state := by
    refine ⟨List.nodup_singleton _, fun saved hsaved ↦ ?_, fun context hcontext ↦ ?_⟩
    · rw [List.mem_singleton.mp hsaved]
      exact hlisted
    · exact absurd (List.mem_singleton.mpr rfl) hcontext
  have hregions : RegionsFit machine.now.state.g_blocks.entries [0x800000000] := by
    obtain ⟨entry, hentry, heq⟩ := List.map_eq_singleton_iff.mp hblocks
    obtain ⟨_, hsize⟩ := Prod.mk.inj heq
    rw [hentry]
    refine ⟨.cons ?_ .nil, List.pairwise_singleton _ _⟩
    rw [hsize]
    decide
  have hlength : (zeros State.defaultSize).length = newSize (.allocate () 1 0x100000) := by
    rw [length_zeros]
    decide
  have hnext : run step new (pings onePage ++ [.save onePageSaved]) =
      some ⟨machine.now, some ⟨machine.now.save onePageSaved, [()], machine.now⟩⟩ := by
    rw [run_append, hrun]
    rfl
  have henvironment : Guarded step Environment new (pings onePage ++ [.save onePageSaved]) := by
    refine guarded_pings SharedSlots.Environment (fun pair hpair machine h ↦ ⟨h, ?_⟩) (by decide +kernel) ?_
    · rw [List.mem_singleton.mp hpair]
      exact hlength
    · intro last hlast
      cases hrun.symm.trans hlast
      exact ⟨hlists, fun _ _ ↦ trivial⟩
  have hfits : Guarded step Fits new (pings onePage ++ [.save onePageSaved]) := by
    refine guarded_pings SizeFits (fun _ _ _ h ↦ h) (by decide +kernel) fun last hlast ↦ ?_
    cases hrun.symm.trans hlast
    have hcount := congrArg List.length hblocks
    rw [List.length_map, List.length_singleton] at hcount
    refine ⟨⟨by rw [hcount]; decide, by decide⟩, fun _ _ ↦ trivial⟩
  have hload : Environment (.load onePageSaved [0x800000000])
      ⟨machine.now, some ⟨machine.now.save onePageSaved, [()], machine.now⟩⟩ := by
    refine ⟨hlists, fun snapshot hsnapshot ↦ ?_⟩
    cases hsnapshot
    exact hregions
  obtain ⟨next, hstep, hrestores⟩ := restores_of_run _ _ _ onePageSaved [0x800000000] henvironment hfits hnext rfl hload
  exact ⟨_, _, next, hnext, rfl, hlive, hstep, hrestores⟩

/-- An empty allocation of one context, and an allocation of another one that is given back, so that the first
block is collected. -/
def collected : List (Ping (Bool) × List UInt8) :=
  [(.allocate false 0 0x20000000, zeros State.defaultSize), (.allocate true 0x5000000 0x10000000, zeros 0x5000000),
    (.unallocate true 0x10000000, [])]

def collectedSaved : List (Bool × List (ℕ × Allocation)) := [(false, [(0x20000000, ⟨0, 1, 0⟩)]), (true, [])]

/-- The empty allocation is saved without a block and gets the null pointer. -/
theorem empty_allocation_gets_null : ∃ machine snapshot next,
    Guarded step Environment new (pings collected ++ [.save collectedSaved, .restart]) ∧
    run step new (pings collected ++ [.save collectedSaved, .restart]) = some machine ∧
    machine.snapshot = some snapshot ∧ snapshot.slots.state.live false 0x20000000 = some ⟨0, 1, 0⟩ ∧
    Environment (.load [] [0x30000000]) machine ∧ step (.load [] [0x30000000]) machine = some next ∧
    next.now.state.live false 0 = some ⟨0, 0, 0⟩ ∧ ¬ Slots.Restores snapshot.slots next.now := by
  have hsome : (run step new (pings collected)).isSome = true := by decide +kernel
  obtain ⟨machine, hrun⟩ := Option.isSome_iff_exists.mp hsome
  have hlength : ∀ machine ∈ run step new (pings collected), machine.now.state.g_blocks.entries.length = 1 := by
    decide +kernel
  have hblocks : ∀ machine ∈ run step new (pings collected), ∀ entry ∈ machine.now.state.g_blocks.entries,
      entry.2.id = 2 ∧ entry.2.block.physBase < 2 ^ 64 ∧ entry.2.block.bitsSize = 0x5000000 ∧
        (∀ kv ∈ entry.2.block.freeSubblocks.entries, kv.1 < 2 ^ 32 ∧ kv.2 < 2 ^ 32) ∧
        entry.2.block.freeSubblocks.entries.length < 2 ^ 32 := by
    decide +kernel
  have hlive : ∀ machine ∈ run step new (pings collected),
      machine.now.state.live false 0x20000000 = some ⟨0, 1, 0⟩ := by
    decide +kernel
  have hlisted : ∀ machine ∈ run step new (pings collected),
      SharedSlots.Environment (.clear false [(0x20000000, ⟨0, 1, 0⟩)]) machine.now.state ∧
        SharedSlots.Environment (.clear true []) machine.now.state := by
    decide +kernel
  have hloaded : ∀ machine ∈ run step new (pings collected),
      ((Slots.place machine.now.memory machine.now.state.g_blocks.entries [0x30000000]
        (Slots.globalStateClear Slots.new)).bind (Slots.adoptAll collectedSaved)).map
          (fun slots ↦ slots.state.live false 0) = some (some ⟨0, 0, 0⟩) := by
    decide +kernel
  have hbits : (run step new (pings collected)).map (fun machine ↦ (machine.now.memory 2).bits) =
      some (zeros 0x5000000) := rfl
  replace hlength := hlength machine hrun
  replace hblocks := hblocks machine hrun
  replace hlive := hlive machine hrun
  replace hlisted := hlisted machine hrun
  rw [hrun, map_some, Option.some.injEq] at hbits
  obtain ⟨slots, hplaced, hnull⟩ := map_eq_some_iff.mp (hloaded machine hrun)
  have hnext : run step new (pings collected ++ [.save collectedSaved, .restart]) =
      some ⟨.new, some ⟨machine.now.save collectedSaved, [false, true], machine.now⟩⟩ := by
    rw [run_append, hrun]
    rfl
  have hlists : Slots.Lists collectedSaved machine.now.state := by
    refine ⟨by decide, fun saved hsaved ↦ ?_, fun context hcontext ↦ ?_⟩
    · rcases mem_cons.mp hsaved with rfl | hsaved
      · exact hlisted.1
      · rw [List.mem_singleton.mp hsaved]
        exact hlisted.2
    · exact absurd (show context ∈ [false, true] by revert context; decide) hcontext
  have hnone : Slots.Lists [] (Slots.new : Slots (Bool)).state :=
    ⟨List.nodup_nil, fun _ hmem ↦ absurd hmem not_mem_nil, fun _ _ ↦ rfl⟩
  have hregions : RegionsFit machine.now.state.g_blocks.entries [0x30000000] := by
    obtain ⟨entry, hentry⟩ := List.length_eq_one_iff.mp hlength
    have hsize := (hblocks entry (by rw [hentry]; exact List.mem_singleton_self _)).2.2.1
    rw [hentry]
    refine ⟨.cons ?_ .nil, List.pairwise_singleton _ _⟩
    rw [hsize]
    decide
  have hstorable : Slots.Storable machine.now.memory machine.now.state.g_blocks.entries := by
    intro entry hentry
    obtain ⟨hid, hbase, hsize, hsubblocks, hcount⟩ := hblocks entry hentry
    refine ⟨hbase, by rw [hsize]; decide, ?_, hsubblocks, hcount⟩
    rw [hid, hbits, hsize, length_zeros]
  have hfit : ∀ saved ∈ collectedSaved, Slots.AllocationsFit saved.2 :=
    forall_mem_cons.mpr ⟨⟨by decide, by decide⟩, List.forall_mem_singleton.mpr ⟨by decide, by decide⟩⟩
  have hload : Slots.load [] [false, true] [0x30000000] (machine.now.save collectedSaved) (.new : Slots (Bool)) =
      some slots := by
    have hcount : machine.now.state.g_blocks.entries.length < 2 ^ 32 := by rw [hlength]; decide
    exact (Slots.load_save hstorable hcount hfit [] [0x30000000] .new).trans hplaced
  have henvironment : Guarded step Environment new (pings collected ++ [.save collectedSaved, .restart]) := by
    refine guarded_pings SharedSlots.Environment (fun pair hpair machine h ↦ ⟨h, ?_⟩) (by decide +kernel) ?_
    · have hsizes : ∀ pair ∈ collected, pair.2.length = newSize pair.1 := by
        refine forall_mem_cons.mpr ⟨(length_zeros _).trans (by decide), ?_⟩
        refine forall_mem_cons.mpr ⟨(length_zeros _).trans (by decide), ?_⟩
        exact List.forall_mem_singleton.mpr rfl
      exact hsizes pair hpair
    · intro last hlast
      cases hrun.symm.trans hlast
      exact ⟨hlists, fun _ _ ↦ ⟨trivial, fun _ _ ↦ trivial⟩⟩
  refine ⟨_, ⟨machine.now.save collectedSaved, [false, true], machine.now⟩,
    ⟨slots, some ⟨machine.now.save collectedSaved, [false, true], machine.now⟩⟩, henvironment, hnext, rfl, hlive,
    ⟨hnone, fun snapshot hsnapshot ↦ ?_⟩, ?_, hnull, ?_⟩
  · cases hsnapshot
    exact hregions
  · change (Slots.load [] [false, true] [0x30000000] (machine.now.save collectedSaved) .new).map _ = _
    rw [hload]
    rfl
  · rintro ⟨⟨moves, hmoves, hrebased⟩, _⟩
    obtain ⟨_, _, old, new, _, hto, _, _, _, _, heq⟩ := (hrebased false 0 _).mp hnull
    have hid := hmoves.not_null old new hto
    have howner : 0 = new.2.id := congrArg Allocation.owner heq
    omega

end Machine

end FdeEmugl.SharedSlots
