import Mathlib.Data.Finmap
import FdeEmugl.Library.OrderedMap
import FdeEmugl.Library.Runs

/-!
# Guest memory mappings

`AddressSpaceHostMemoryAllocatorContext` backs guest physical ranges with host
memory at the guest's request. The device keeps the ranges of all contexts in an
ordered map from base address to host pointer and size, and finds the host
pointer for a guest address from the nearest base at or below it.

Only equal bases are refused. A request can ask for a range that reaches into
another one, rounds to no bytes at all, or runs to the end of the address space,
where the comparison with its end wraps; the look-up is right as long as no
request that is accepted does.
-/

namespace FdeEmugl.Mappings

open Runs
open OrderedMap

/-! ## The device and its contexts -/

def alignment : UInt64 := 4096

/-- The size of the mapping for a request, in 64 bits. -/
def alignedSize (size : UInt64) : UInt64 := ((size + alignment - 1) / alignment) * alignment

/-- `Context` names the contexts. A mapping is a host pointer and a size. -/
structure Device (Context : Type) where
  mMemoryMappings : OrderedMap ℕ (ℕ × ℕ)
  m_paddr2ptr : Context → Finmap fun _ : ℕ ↦ ℕ × ℕ

namespace Device

variable {Context : Type}

def new : Device Context := ⟨.empty, fun _ ↦ ∅⟩

def addMemoryMapping (gpa ptr size : ℕ) (device : Device Context) : Option (Device Context) :=
  (device.mMemoryMappings.insert gpa (ptr, size)).map fun mMemoryMappings ↦
    { device with mMemoryMappings }

def removeMemoryMapping (gpa : ℕ) (device : Device Context) : Option (Device Context) :=
  if (device.mMemoryMappings.find gpa).isSome then
    some { device with mMemoryMappings := device.mMemoryMappings.erase gpa }
  else none

def getHostPtr (gpa : UInt64) (device : Device Context) : Option ℕ :=
  match (device.mMemoryMappings.notBelow gpa.toNat).head?.filter fun mapping ↦ mapping.1 = gpa.toNat with
  | some (_, ptr, _) => some ptr
  | none =>
    match (device.mMemoryMappings.below gpa.toNat).getLast? with
    | none => none
    | some (base, ptr, size) =>
      -- the end of the range is computed in 64 bits
      if gpa.toNat < (base + size) % 2 ^ 64 then some (ptr + (gpa.toNat - base)) else none

variable [DecidableEq Context]

/-- `host_ptr` is what `aligned_buf_alloc` returns; 0 is null. -/
def allocate_impl (context : Context) (phys_addr size : UInt64) (host_ptr : ℕ)
    (device : Device Context) : Option ℕ × Device Context :=
  let aligned_size := alignedSize size
  if host_ptr = 0 then (none, device)
  else if ((device.m_paddr2ptr context).lookup phys_addr.toNat).isSome then (none, device)
  else match device.addMemoryMapping phys_addr.toNat host_ptr aligned_size.toNat with
    | none => (none, device)
    | some next =>
      (some host_ptr, { next with
        m_paddr2ptr := Function.update next.m_paddr2ptr context
          ((next.m_paddr2ptr context).insert phys_addr.toNat (host_ptr, aligned_size.toNat)) })

def allocate (context : Context) (phys_addr size : UInt64) (host_ptr : ℕ) (device : Device Context) :
    UInt64 × Device Context :=
  let (result, next) := device.allocate_impl context phys_addr size host_ptr
  (if result.isSome then 0 else -1, next)

/-- Without a result, removing the mapping has failed and the emulator dies. -/
def unallocate (context : Context) (phys_addr : UInt64) (device : Device Context) :
    Option (UInt64 × Device Context) :=
  match (device.m_paddr2ptr context).lookup phys_addr.toNat with
  | none => some (-1, device)
  | some _ =>
    (device.removeMemoryMapping phys_addr.toNat).map fun next ↦
      (0, { next with
        m_paddr2ptr := Function.update next.m_paddr2ptr context ((next.m_paddr2ptr context).erase phys_addr.toNat) })

end Device

inductive HostMemoryAllocatorCommand where
  | Allocate
  | Unallocate
  deriving DecidableEq

/-- The command that a number of the guest stands for. -/
def command (metadata : UInt64) : Option HostMemoryAllocatorCommand :=
  if metadata = 1 then some .Allocate else if metadata = 2 then some .Unallocate else none

/-- A ping, with the pointer that an allocation for it gets. -/
structure Ping (Context : Type) where
  context : Context
  metadata : UInt64
  phys_addr : UInt64
  size : UInt64
  host_ptr : ℕ

def perform {Context : Type} [DecidableEq Context] (info : Ping Context) (device : Device Context) :
    Option (UInt64 × Device Context) :=
  match command info.metadata with
  | some .Allocate => some (device.allocate info.context info.phys_addr info.size info.host_ptr)
  | some .Unallocate => device.unallocate info.context info.phys_addr
  | none => some (-1, device)

def step {Context : Type} [DecidableEq Context] (info : Ping Context) (device : Device Context) :
    Option (Device Context) :=
  (perform info device).map Prod.snd

/-! ## Ranges that can be looked up -/

/-- The guest address is in the range of the mapping. -/
def Covers (mapping : ℕ × ℕ × ℕ) (gpa : UInt64) : Prop := mapping.1 ≤ gpa.toNat ∧ gpa.toNat < mapping.1 + mapping.2.2

/-- A range that is not empty, ends before the end of the address space, and shares no address with
a mapping. -/
def Fits (mappings : OrderedMap ℕ (ℕ × ℕ)) (gpa size : ℕ) : Prop := 0 < size ∧ gpa + size < 2 ^ 64 ∧
    ∀ mapping ∈ mappings.entries, gpa + size ≤ mapping.1 ∨ mapping.1 + mapping.2.2 ≤ gpa

/-- An allocation is refused or asks for a range that fits. -/
def AsksForRoom {Context : Type} (info : Ping Context) (device : Device Context) : Prop :=
  command info.metadata = some .Allocate → info.host_ptr ≠ 0 →
    ((device.m_paddr2ptr info.context).lookup info.phys_addr.toNat).isNone →
      (device.mMemoryMappings.find info.phys_addr.toNat).isNone →
        Fits device.mMemoryMappings info.phys_addr.toNat (alignedSize info.size).toNat

/-- No mapping is empty or reaches the end of the address space, and each ends before the next one
begins. -/
structure Disjoint (mappings : OrderedMap ℕ (ℕ × ℕ)) : Prop where
  size_pos : ∀ mapping ∈ mappings.entries, 0 < mapping.2.2
  end_lt : ∀ mapping ∈ mappings.entries, mapping.1 + mapping.2.2 < 2 ^ 64
  apart : ∀ mapping ∈ mappings.entries, ∀ other ∈ mappings.entries, mapping.1 < other.1 →
    mapping.1 + mapping.2.2 ≤ other.1

section Disjoint

variable {mappings : OrderedMap ℕ (ℕ × ℕ)} {mapping other : ℕ × ℕ × ℕ} {gpa : UInt64}

theorem disjoint_empty : Disjoint .empty where
  size_pos := fun _ h ↦ absurd h List.not_mem_nil
  end_lt := fun _ h ↦ absurd h List.not_mem_nil
  apart := fun _ h ↦ absurd h List.not_mem_nil

theorem Disjoint.erase (h : Disjoint mappings) (base : ℕ) : Disjoint (mappings.erase base) where
  size_pos := fun mapping hmem ↦ h.size_pos mapping (mem_erase.mp hmem).1
  end_lt := fun mapping hmem ↦ h.end_lt mapping (mem_erase.mp hmem).1
  apart := fun mapping hmem other hother ↦
    h.apart mapping (mem_erase.mp hmem).1 other (mem_erase.mp hother).1

theorem Disjoint.add {base ptr size : ℕ} (h : Disjoint mappings) (hfits : Fits mappings base size)
    (hnone : mappings.find base = none) : Disjoint (mappings.add base (ptr, size) hnone) := by
  obtain ⟨hpos, hend, hroom⟩ := hfits
  constructor
  · intro mapping hmem
    rcases mem_add.mp hmem with rfl | hmem
    · exact hpos
    · exact h.size_pos mapping hmem
  · intro mapping hmem
    rcases mem_add.mp hmem with rfl | hmem
    · exact hend
    · exact h.end_lt mapping hmem
  · intro mapping hmem other hother hlt
    rcases mem_add.mp hmem with rfl | hmem <;>
      rcases mem_add.mp hother with rfl | hother
    · exact absurd hlt (lt_irrefl _)
    · have hsize := h.size_pos other hother
      have happart := hroom other hother
      simp only at hlt ⊢
      omega
    · have happart := hroom mapping hmem
      simp only at hlt ⊢
      omega
    · exact h.apart mapping hmem other hother hlt

theorem Disjoint.eq_of_covers (h : Disjoint mappings) (hmem : mapping ∈ mappings.entries)
    (hother : other ∈ mappings.entries) (hcovers : Covers mapping gpa) (hcovers' : Covers other gpa) :
    mapping = other := by
  obtain ⟨hle, hlt⟩ := hcovers
  obtain ⟨hle', hlt'⟩ := hcovers'
  rcases lt_trichotomy mapping.1 other.1 with hbefore | heq | hafter
  · have happart := h.apart mapping hmem other hother hbefore
    omega
  · exact eq_of_key hmem hother heq
  · have happart := h.apart other hother mapping hmem hafter
    omega

end Disjoint

section Lookup

variable {Context : Type} {device : Device Context} {mapping : ℕ × ℕ × ℕ} {gpa : UInt64}

/-- The look-up finds a mapping that covers the address, if it finds anything. -/
theorem covers_of_getHostPtr {ptr : ℕ} (h : Disjoint device.mMemoryMappings)
    (hptr : device.getHostPtr gpa = some ptr) :
    ∃ mapping ∈ device.mMemoryMappings.entries, Covers mapping gpa ∧ ptr = mapping.2.1 + (gpa.toNat - mapping.1) := by
  unfold Device.getHostPtr at hptr
  split at hptr
  · rename_i base found size hhead
    obtain ⟨hhead, heq⟩ := Option.filter_eq_some_iff.mp hhead
    have hmem := (mem_notBelow.mp (List.mem_of_head? hhead)).1
    have hpos := h.size_pos _ hmem
    simp only [decide_eq_true_eq] at heq
    cases hptr
    refine ⟨_, hmem, ⟨heq.le, ?_⟩, ?_⟩
    · simp only at hpos ⊢
      omega
    · simp only
      omega
  · split at hptr
    · cases hptr
    · rename_i base found size hlast
      obtain ⟨hmem, hlt⟩ := mem_below.mp (List.mem_of_getLast? hlast)
      have hend := h.end_lt _ hmem
      split_ifs at hptr with hcover
      cases hptr
      rw [Nat.mod_eq_of_lt hend] at hcover
      exact ⟨_, hmem, ⟨hlt.le, hcover⟩, rfl⟩

theorem getHostPtr_of_covers (h : Disjoint device.mMemoryMappings)
    (hmem : mapping ∈ device.mMemoryMappings.entries) (hcovers : Covers mapping gpa) :
    device.getHostPtr gpa = some (mapping.2.1 + (gpa.toNat - mapping.1)) := by
  obtain ⟨base, ptr, size⟩ := mapping
  obtain ⟨hle, hlt⟩ := hcovers
  have hend := h.end_lt _ hmem
  simp only at hle hlt hend ⊢
  rcases hle.eq_or_lt with heq | hbefore
  · have hhead := head_notBelow hmem
    rw [heq] at hhead ⊢
    simp [Device.getHostPtr, hhead, Option.filter]
  · -- a mapping that begins at the address would begin inside this one
    have hnot : (device.mMemoryMappings.notBelow gpa.toNat).head?.filter
        (fun mapping ↦ mapping.1 = gpa.toNat) = none := by
      rw [Option.filter_eq_none_iff]
      intro other hother heq
      rw [decide_eq_true_eq] at heq
      have hmem' := (mem_notBelow.mp (List.mem_of_head? hother)).1
      have happart := h.apart _ hmem other hmem' (heq ▸ hbefore)
      simp only at happart
      omega
    cases hlast : (device.mMemoryMappings.below gpa.toNat).getLast? with
    | none =>
      have hbelow := mem_below.mpr ⟨hmem, hbefore⟩
      rw [List.getLast?_eq_none_iff.mp hlast] at hbelow
      cases hbelow
    | some last =>
      obtain ⟨hmem', hlt'⟩ := mem_below.mp (List.mem_of_getLast? hlast)
      have hnearest := le_of_getLast_below hlast hmem hbefore
      have hself : last = (base, ptr, size) := by
        rcases hnearest.eq_or_lt with heq | hlater
        · exact (eq_of_key hmem hmem' heq).symm
        · have happart := h.apart _ hmem last hmem' hlater
          simp only at happart
          omega
      rw [hself] at hlast
      simp only [Device.getHostPtr, hnot, hlast, Nat.mod_eq_of_lt hend, if_pos hlt]

end Lookup

section Runs

variable {Context : Type} [DecidableEq Context] {device next : Device Context} {info : Ping Context}

section

variable (h : Disjoint device.mMemoryMappings)
include h

theorem Disjoint.allocate_impl {context : Context} {phys_addr size : UInt64} {host_ptr : ℕ}
    (hroom : host_ptr ≠ 0 → ((device.m_paddr2ptr context).lookup phys_addr.toNat).isNone → (device.mMemoryMappings.find phys_addr.toNat).isNone → Fits device.mMemoryMappings phys_addr.toNat (alignedSize size).toNat) :
    Disjoint (device.allocate_impl context phys_addr size host_ptr).2.mMemoryMappings := by
  unfold Device.allocate_impl
  split_ifs with hnull hknown
  · exact h
  · exact h
  · cases hadd : device.addMemoryMapping phys_addr.toNat host_ptr (alignedSize size).toNat with
    | none =>
      simp only [hadd]
      exact h
    | some added =>
      simp only [hadd]
      obtain ⟨mappings, hinsert, rfl⟩ := Option.map_eq_some_iff.mp hadd
      obtain ⟨hnone, rfl⟩ := insert_eq_some hinsert
      have hunknown : ((device.m_paddr2ptr context).lookup phys_addr.toNat).isNone := by
        simpa using hknown
      exact h.add (hroom hnull hunknown (by rw [hnone, Option.isNone_none])) hnone

theorem Disjoint.unallocate {context : Context} {phys_addr result : UInt64}
    (hunallocate : device.unallocate context phys_addr = some (result, next)) :
    Disjoint next.mMemoryMappings := by
  unfold Device.unallocate at hunallocate
  split at hunallocate
  · obtain ⟨_, rfl⟩ := Prod.mk.inj (Option.some.inj hunallocate)
    exact h
  · obtain ⟨removed, hremove, hnext⟩ := Option.map_eq_some_iff.mp hunallocate
    obtain ⟨_, rfl⟩ := Prod.mk.inj hnext
    rw [Device.removeMemoryMapping, Option.ite_none_right_eq_some] at hremove
    obtain ⟨_, hremoved⟩ := hremove
    cases hremoved
    exact h.erase _

theorem Disjoint.step (hguard : AsksForRoom info device) (hstep : step info device = some next) :
    Disjoint next.mMemoryMappings := by
  obtain ⟨⟨result, last⟩, hperform, rfl⟩ := Option.map_eq_some_iff.mp hstep
  unfold perform at hperform
  split at hperform
  · rename_i hcommand
    obtain ⟨_, rfl⟩ := Prod.mk.inj (Option.some.inj hperform)
    exact h.allocate_impl (hguard hcommand)
  · exact h.unallocate hperform
  · obtain ⟨_, rfl⟩ := Prod.mk.inj (Option.some.inj hperform)
    exact h

end

theorem disjoint_of_run {pings : List (Ping Context)} (hguard : Guarded step AsksForRoom .new pings)
    (hrun : run step .new pings = some device) : Disjoint device.mMemoryMappings :=
  invariant_of_guarded (fun device ↦ Disjoint device.mMemoryMappings)
    (fun _ _ _ h hguard hstep ↦ h.step hguard hstep) disjoint_empty hguard hrun

/-- As long as the ranges that are accepted fit, no mapping is empty, no address is in two mappings, and
an address leads to its place in the host memory of the mapping it is in, or to null if it is in
none. -/
theorem getHostPtr_of_asksForRoom (pings : List (Ping Context)) (device : Device Context)
    (hguard : Guarded step AsksForRoom .new pings) (hrun : run step .new pings = some device) :
    (∀ mapping ∈ device.mMemoryMappings.entries, 0 < mapping.2.2) ∧
    (∀ mapping ∈ device.mMemoryMappings.entries, ∀ other ∈ device.mMemoryMappings.entries,
      ∀ gpa, Covers mapping gpa → Covers other gpa → mapping = other) ∧
    (∀ mapping ∈ device.mMemoryMappings.entries, ∀ gpa, Covers mapping gpa →
      device.getHostPtr gpa = some (mapping.2.1 + (gpa.toNat - mapping.1))) ∧
    ∀ gpa, device.getHostPtr gpa = none ↔
      ∀ mapping ∈ device.mMemoryMappings.entries, ¬ Covers mapping gpa := by
  have h := disjoint_of_run hguard hrun
  refine ⟨h.size_pos, ?_, ?_, ?_⟩
  · intro mapping hmem other hother gpa
    exact h.eq_of_covers hmem hother
  · intro mapping hmem gpa
    exact getHostPtr_of_covers h hmem
  · intro gpa
    constructor
    · intro hnull mapping hmem hcovers
      rw [getHostPtr_of_covers h hmem hcovers] at hnull
      cases hnull
    · intro hnone
      cases hptr : device.getHostPtr gpa with
      | none => rfl
      | some ptr =>
        obtain ⟨mapping, hmem, hcovers, _⟩ := covers_of_getHostPtr h hptr
        exact absurd hcovers (hnone mapping hmem)

end Runs

instance (mappings : OrderedMap ℕ (ℕ × ℕ)) (gpa size : ℕ) : Decidable (Fits mappings gpa size) :=
  inferInstanceAs (Decidable (0 < size ∧ gpa + size < 2 ^ 64 ∧
    ∀ mapping ∈ mappings.entries, gpa + size ≤ mapping.1 ∨ mapping.1 + mapping.2.2 ≤ gpa))

instance {Context : Type} (info : Ping Context) (device : Device Context) : Decidable (AsksForRoom info device) :=
  inferInstanceAs (Decidable (command info.metadata = some .Allocate → info.host_ptr ≠ 0 →
    ((device.m_paddr2ptr info.context).lookup info.phys_addr.toNat).isNone →
      (device.mMemoryMappings.find info.phys_addr.toNat).isNone →
        Fits device.mMemoryMappings info.phys_addr.toNat (alignedSize info.size).toNat))

/-- Two contexts allocate a range each, the second one of a size that is rounded up. -/
def twoContexts : List (Ping Bool) := [⟨false, 1, 0x1000, 0x1000, 0x70000⟩, ⟨true, 1, 0x3000, 0x1001, 0x80000⟩,
    ⟨true, 1, 0x1000, 0x1000, 0x90000⟩]

theorem getHostPtr_twoContexts :
    ∃ device, Guarded step AsksForRoom .new twoContexts ∧ run step .new twoContexts = some device ∧
      (0x3000, 0x80000, 0x2000) ∈ device.mMemoryMappings.entries ∧
      device.getHostPtr 0x4008 = some 0x81008 := by
  have hguard : Guarded step AsksForRoom .new twoContexts := by decide +kernel
  have hmappings : (run step .new twoContexts).map (fun device ↦ device.mMemoryMappings.entries) =
      some [(0x1000, 0x70000, 0x1000), (0x3000, 0x80000, 0x2000)] := by decide +kernel
  obtain ⟨device, hrun, hentries⟩ := Option.map_eq_some_iff.mp hmappings
  have hmem : (0x3000, 0x80000, 0x2000) ∈ device.mMemoryMappings.entries := by
    rw [hentries]
    decide
  obtain ⟨_, _, hptr, _⟩ := getHostPtr_of_asksForRoom twoContexts device hguard hrun
  have hcovers : Covers (0x3000, 0x80000, 0x2000) 0x4008 := by
    constructor <;> decide
  exact ⟨device, hguard, hrun, hmem, hptr _ hmem _ hcovers⟩

/-- A range that begins inside another one is accepted, and the addresses behind it are no longer
found although the other range covers them. -/
theorem overlapping_range_accepted :
    ∃ device : Device Unit, run step .new
        [⟨(), 1, 0x1000, 0x3000, 0x70000⟩, ⟨(), 1, 0x2000, 0x1000, 0x80000⟩] = some device ∧
      (0x1000, 0x70000, 0x3000) ∈ device.mMemoryMappings.entries ∧
      (0x2000, 0x80000, 0x1000) ∈ device.mMemoryMappings.entries ∧
      Covers (0x1000, 0x70000, 0x3000) 0x2000 ∧ Covers (0x2000, 0x80000, 0x1000) 0x2000 ∧
      Covers (0x1000, 0x70000, 0x3000) 0x3008 ∧ device.getHostPtr 0x3008 = none := by
  have hfields : (run step (.new : Device Unit)
      [⟨(), 1, 0x1000, 0x3000, 0x70000⟩, ⟨(), 1, 0x2000, 0x1000, 0x80000⟩]).map (fun device ↦
        (device.mMemoryMappings.entries, device.getHostPtr 0x3008)) =
      some ([(0x1000, 0x70000, 0x3000), (0x2000, 0x80000, 0x1000)], none) := by decide +kernel
  obtain ⟨device, hrun, hdevice⟩ := Option.map_eq_some_iff.mp hfields
  obtain ⟨hentries, hnull⟩ := Prod.mk.inj hdevice
  refine ⟨device, hrun, ?_, ?_, ?_, ?_, ?_, hnull⟩
  · rw [hentries]
    decide
  · rw [hentries]
    decide
  · constructor <;> decide
  · constructor <;> decide
  · constructor <;> decide

end FdeEmugl.Mappings
