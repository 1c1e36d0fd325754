import FdeEmugl.Library.Ledger
import FdeEmugl.Library.Runs
import Mathlib.Data.List.AList

/-!
# Host mappings of guest DMA buffers

The entries are kept by guest address, with the host mapping of each as long as there is one. Everything happens
under a lock, but `getHostAddr` looks its entry up under the read lock and maps it under the write lock, with a
pointer to the entry in between. Other threads can map the entry meanwhile, or erase it. `addBuffer` assigns to the
entry of its address whatever is in it.

A mapping that is overwritten is lost. If neither `addBuffer` nor the second half of `getHostAddr` finds its entry
mapped, and the second half finds it at all, then each mapping is in one entry or was unmapped once.
-/

namespace FdeEmugl.Dma

open Runs

/-- `currHostAddr` is the number of the mapping. -/
structure DmaBufferInfo where
  hwpipe : ℕ
  guestAddr : UInt64
  bufferSize : UInt64
  currHostAddr : Option ℕ
  deriving DecidableEq

inductive Call where
  | doMap (mapping : ℕ) (addr bufferSize : UInt64)
  | doUnmap (mapping : ℕ) (bufferSize : UInt64)
  deriving DecidableEq

/-- Entries have numbers, which stand for their addresses in memory. `mappings` were made so far. -/
structure DmaMap where
  mDmaBuffers : AList fun _ : UInt64 ↦ ℕ × DmaBufferInfo
  nodes : ℕ
  mappings : ℕ
  log : List Call

def createMappingLocked (info : DmaBufferInfo) (map : DmaMap) : DmaBufferInfo × DmaMap :=
  ({ info with currHostAddr := some map.mappings }, { map with
      mappings := map.mappings + 1
      log := map.log ++ [.doMap map.mappings info.guestAddr info.bufferSize] })

/-- With the calls that it makes. -/
def removeMappingLocked (info : DmaBufferInfo) : DmaBufferInfo × List Call :=
  match info.currHostAddr with
  | some currHostAddr => ({ info with currHostAddr := none }, [.doUnmap currHostAddr info.bufferSize])
  | none => (info, [])

namespace DmaMap

def new : DmaMap := ⟨∅, 0, 0, []⟩

/-- `mDmaBuffers[guest_paddr] = info`. -/
def assign (guest_paddr : UInt64) (info : DmaBufferInfo) (map : DmaMap) : DmaMap :=
  match map.mDmaBuffers.lookup guest_paddr with
  | some (node, _) => { map with mDmaBuffers := map.mDmaBuffers.insert guest_paddr (node, info) }
  | none => { map with
      mDmaBuffers := map.mDmaBuffers.insert guest_paddr (map.nodes, info)
      nodes := map.nodes + 1 }

def addBuffer (hwpipe : ℕ) (guest_paddr bufferSize : UInt64) (map : DmaMap) : DmaMap :=
  let (info, map) := createMappingLocked ⟨hwpipe, guest_paddr, bufferSize, none⟩ map
  map.assign guest_paddr info

def removeBuffer (guest_paddr : UInt64) (map : DmaMap) : DmaMap :=
  match map.mDmaBuffers.lookup guest_paddr with
  | some (_, info) => { map with
      log := map.log ++ (removeMappingLocked info).2
      mDmaBuffers := map.mDmaBuffers.erase guest_paddr }
  | none => map

/-- The half of `getHostAddr` under the read lock: what it returns, or the entry that is to be mapped. -/
def getHostAddr (guest_paddr : UInt64) (map : DmaMap) : Option ℕ ⊕ ℕ :=
  match map.mDmaBuffers.lookup guest_paddr with
  | some (node, info) =>
    match info.currHostAddr with
    | some currHostAddr => .inl (some currHostAddr)
    | none => .inr node
  | none => .inl none

/-- The entry at a place in memory. -/
def entryAt (node : ℕ) (map : DmaMap) : Option (Σ _ : UInt64, ℕ × DmaBufferInfo) :=
  map.mDmaBuffers.entries.find? fun entry ↦ entry.2.1 = node

/-- The half under the write lock. Without a result, the entry is not there any more. -/
def mapEntry (node : ℕ) (map : DmaMap) : Option (Option ℕ × DmaMap) := (map.entryAt node).map fun entry ↦
    let (info, map) := createMappingLocked entry.2.2 map
    (info.currHostAddr, { map with mDmaBuffers := map.mDmaBuffers.insert entry.1 (node, info) })

/-- All entries without their mappings. -/
def removed (map : DmaMap) : AList fun _ : UInt64 ↦ ℕ × DmaBufferInfo :=
  ⟨map.mDmaBuffers.entries.map fun entry ↦ ⟨entry.1, entry.2.1, (removeMappingLocked entry.2.2).1⟩,
    List.NodupKeys.map₂ (fun _ value ↦ (value.1, (removeMappingLocked value.2).1)) _ map.mDmaBuffers.nodupKeys⟩

def removals (map : DmaMap) : List Call :=
  map.mDmaBuffers.entries.flatMap fun entry ↦ (removeMappingLocked entry.2.2).2

def invalidateHostMappings (map : DmaMap) : DmaMap :=
  { map with mDmaBuffers := map.removed, log := map.log ++ map.removals }

def resetHostMappings (map : DmaMap) : DmaMap := { map with mDmaBuffers := ∅, log := map.log ++ map.removals }

def getPipeInstance (guest_paddr : UInt64) (map : DmaMap) : Option ℕ :=
  (map.mDmaBuffers.lookup guest_paddr).map fun entry ↦ entry.2.hwpipe

/-- The mappings that are in entries. -/
def held (map : DmaMap) : List ℕ := map.mDmaBuffers.entries.filterMap fun entry ↦ entry.2.2.currHostAddr

end DmaMap

def Call.unmapped : Call → Option ℕ
  | .doUnmap mapping _ => some mapping
  | .doMap _ _ _ => none

/-- The mappings that were passed to `doUnmap`. -/
def DmaMap.unmapped (map : DmaMap) : List ℕ := map.log.filterMap Call.unmapped

/-! ## Threads -/

inductive Action (Thread : Type) where
  | addBuffer (thread : Thread) (hwpipe : ℕ) (guest_paddr bufferSize : UInt64)
  | removeBuffer (thread : Thread) (guest_paddr : UInt64)
  | getHostAddr (thread : Thread) (guest_paddr : UInt64)
  /-- the thread goes on in `getHostAddr` -/
  | upgrade (thread : Thread)
  | invalidateHostMappings (thread : Thread)
  | resetHostMappings (thread : Thread)

/-- `pending` threads have let the read lock go in `getHostAddr`. -/
structure State (Thread : Type) where
  map : DmaMap
  pending : Thread → Option ℕ
  touchedErased : Bool

namespace State

variable {Thread : Type}

def start : State Thread := ⟨.new, fun _ ↦ none, false⟩

/-- A thread calls one of the functions. -/
def call (thread : Thread) (next : DmaMap) (s : State Thread) : Option (State Thread) :=
  if (s.pending thread).isSome then none else some { s with map := next }

variable [DecidableEq Thread]

def step : Action Thread → State Thread → Option (State Thread)
  | .addBuffer thread hwpipe guest_paddr bufferSize, s =>
    s.call thread (s.map.addBuffer hwpipe guest_paddr bufferSize)
  | .removeBuffer thread guest_paddr, s => s.call thread (s.map.removeBuffer guest_paddr)
  | .getHostAddr thread guest_paddr, s =>
    if (s.pending thread).isSome then none
    else match s.map.getHostAddr guest_paddr with
      | .inl _ => some s
      | .inr node => some { s with pending := Function.update s.pending thread (some node) }
  | .upgrade thread, s =>
    (s.pending thread).map fun node ↦
      match s.map.mapEntry node with
      | some (_, map) => { s with map := map, pending := Function.update s.pending thread none }
      | none => { s with pending := Function.update s.pending thread none, touchedErased := true }
  | .invalidateHostMappings thread, s => s.call thread s.map.invalidateHostMappings
  | .resetHostMappings thread, s => s.call thread s.map.resetHostMappings

end State

/-- Each mapping is in one entry or was unmapped once, and no erased entry was used. -/
structure Balanced {Thread : Type} (s : State Thread) : Prop where
  once : ∀ mapping < s.map.mappings, s.map.held.count mapping + s.map.unmapped.count mapping = 1
  kept : s.touchedErased = false

/-- Nothing that is mapped is mapped again, and the entry of a thread in `getHostAddr` is still there. -/
def Fits {Thread : Type} : Action Thread → State Thread → Prop
  | .addBuffer _ _ guest_paddr _, s => ∀ entry ∈ s.map.mDmaBuffers.lookup guest_paddr, entry.2.currHostAddr = none
  | .upgrade thread, s => ∀ node ∈ s.pending thread, ∃ entry ∈ s.map.entryAt node, entry.2.2.currHostAddr = none
  | _, _ => True

instance decidableFits {Thread : Type} (action : Action Thread) (s : State Thread) : Decidable (Fits action s) :=
  match action with
  | .addBuffer _ _ guest_paddr _ =>
    inferInstanceAs (Decidable (∀ entry ∈ s.map.mDmaBuffers.lookup guest_paddr, entry.2.currHostAddr = none))
  | .upgrade thread =>
    inferInstanceAs (Decidable (∀ node ∈ s.pending thread,
      ∃ entry ∈ s.map.entryAt node, entry.2.2.currHostAddr = none))
  | .removeBuffer _ _ | .getHostAddr _ _ | .invalidateHostMappings _ | .resetHostMappings _ => isTrue trivial

/-! ## The account of the mappings -/

namespace DmaMap

variable {map next : DmaMap} {guest_paddr : UInt64} {node : ℕ}

def account (map : DmaMap) : Account := ⟨map.held, map.unmapped, map.mappings⟩

/-- The mapping at an address, if there is one. -/
def mappedAt (guest_paddr : UInt64) (map : DmaMap) : List ℕ :=
  ((map.mDmaBuffers.lookup guest_paddr).bind fun entry ↦ entry.2.currHostAddr).toList

theorem held_perm (map : DmaMap) (guest_paddr : UInt64) : map.held.Perm (map.mappedAt guest_paddr ++
      (map.mDmaBuffers.erase guest_paddr).entries.filterMap fun entry ↦ entry.2.2.currHostAddr) := by
  have herase : (map.mDmaBuffers.erase guest_paddr).entries = map.mDmaBuffers.entries.kerase guest_paddr := rfl
  rw [herase]
  cases hlookup : map.mDmaBuffers.lookup guest_paddr with
  | none =>
    rw [mappedAt, hlookup, List.kerase_of_notMem_keys (AList.lookup_eq_none.mp hlookup)]
    exact .refl _
  | some value =>
    have hmem := AList.mem_lookup_iff.mp hlookup
    obtain ⟨other, front, back, _, hentries, hkerase⟩ := List.exists_of_kerase (List.mem_keys_of_mem hmem)
    obtain rfl : value = other :=
      map.mDmaBuffers.nodupKeys.eq_of_mk_mem hmem (hentries ▸ List.mem_append_right _ List.mem_cons_self)
    rw [hkerase, held, mappedAt, hlookup, hentries, List.filterMap_append, List.filterMap_append]
    cases hcurr : value.2.currHostAddr with
    | none => simp [hcurr]
    | some mapping =>
      simp only [List.filterMap_cons, hcurr, Option.bind_some, Option.toList_some, List.singleton_append]
      exact List.perm_middle

theorem mappedAt_eq_nil_iff (map : DmaMap) (guest_paddr : UInt64) : map.mappedAt guest_paddr = [] ↔
    ∀ entry ∈ map.mDmaBuffers.lookup guest_paddr, entry.2.currHostAddr = none := by
  rw [mappedAt]
  cases map.mDmaBuffers.lookup guest_paddr with
  | none => simp
  | some value => simp

theorem unmapped_append (map : DmaMap) (calls : List Call) :
    (map.log ++ calls).filterMap Call.unmapped = map.unmapped ++ calls.filterMap Call.unmapped :=
  List.filterMap_append

theorem unmapped_removeMappingLocked (info : DmaBufferInfo) :
    (removeMappingLocked info).2.filterMap Call.unmapped = info.currHostAddr.toList := by
  rw [removeMappingLocked]
  cases info.currHostAddr with
  | none => rfl
  | some mapping => rfl

theorem currHostAddr_removeMappingLocked (info : DmaBufferInfo) :
    (removeMappingLocked info).1.currHostAddr = none := by
  rw [removeMappingLocked]
  cases hcurr : info.currHostAddr with
  | none => exact hcurr
  | some mapping => rfl

theorem unmapped_removals (map : DmaMap) : map.removals.filterMap Call.unmapped = map.held := by
  rw [removals, List.filterMap_flatMap, held, List.filterMap_eq_flatMap_toList]
  simp only [unmapped_removeMappingLocked]

theorem held_removed (map : DmaMap) : map.removed.entries.filterMap (fun entry ↦ entry.2.2.currHostAddr) = [] := by
  rw [removed, List.filterMap_map]
  exact List.filterMap_eq_nil_iff.mpr fun entry _ ↦ currHostAddr_removeMappingLocked entry.2.2

/-- A new mapping is assigned to an entry, whatever it held. -/
theorem moves_insert {info : DmaBufferInfo} (guest_paddr : UInt64) (hinfo : info.currHostAddr = some map.mappings)
    (hentries : next.mDmaBuffers = map.mDmaBuffers.insert guest_paddr (node, info))
    (hmappings : next.mappings = map.mappings + 1) (hunmapped : next.unmapped = map.unmapped) :
    Account.Moves map.account next.account (map.mappedAt guest_paddr) := by
  refine .take _ _ (map.held_perm guest_paddr) ?_ hunmapped hmappings
  have hinsert : (map.mDmaBuffers.insert guest_paddr (node, info)).entries =
      ⟨guest_paddr, node, info⟩ :: (map.mDmaBuffers.erase guest_paddr).entries := rfl
  simp only [account, held, hentries, hinsert, List.filterMap_cons, hinfo]

theorem moves_addBuffer (hwpipe : ℕ) (guest_paddr bufferSize : UInt64) (map : DmaMap) :
    Account.Moves map.account (map.addBuffer hwpipe guest_paddr bufferSize).account (map.mappedAt guest_paddr) := by
  have hlog (addr : UInt64) : (map.log ++ [Call.doMap map.mappings addr bufferSize]).filterMap Call.unmapped =
      map.unmapped := (unmapped_append map _).trans (List.append_nil _)
  rw [addBuffer, createMappingLocked]
  dsimp only
  rw [assign]
  dsimp only
  cases map.mDmaBuffers.lookup guest_paddr with
  | none => exact moves_insert guest_paddr rfl rfl rfl (hlog guest_paddr)
  | some value => exact moves_insert guest_paddr rfl rfl rfl (hlog guest_paddr)

/-- The entry that is found is the one at its address. -/
theorem lookup_of_entryAt {entry : Σ _ : UInt64, ℕ × DmaBufferInfo} (h : map.entryAt node = some entry) :
    map.mDmaBuffers.lookup entry.1 = some entry.2 :=
  AList.mem_lookup_iff.mpr (List.mem_of_find?_eq_some h)

theorem moves_mapEntry {entry : Σ _ : UInt64, ℕ × DmaBufferInfo} {result : Option ℕ × DmaMap}
    (hentry : map.entryAt node = some entry) (h : map.mapEntry node = some result) :
    Account.Moves map.account result.2.account entry.2.2.currHostAddr.toList := by
  have hmapped : entry.2.2.currHostAddr.toList = map.mappedAt entry.1 := by
    rw [mappedAt, lookup_of_entryAt hentry, Option.bind_some]
  rw [mapEntry, hentry, Option.map_some] at h
  cases h
  rw [hmapped]
  exact moves_insert entry.1 rfl rfl rfl ((unmapped_append map _).trans (List.append_nil _))

theorem moves_removeBuffer (guest_paddr : UInt64) (map : DmaMap) :
    Account.Moves map.account (map.removeBuffer guest_paddr).account [] := by
  rw [removeBuffer]
  cases hlookup : map.mDmaBuffers.lookup guest_paddr with
  | none => exact .refl _
  | some value =>
    refine .release (map.mappedAt guest_paddr) (map.held_perm guest_paddr) ?_ rfl
    refine (unmapped_append map _).trans ?_
    rw [unmapped_removeMappingLocked, mappedAt, hlookup]
    rfl

theorem moves_invalidateHostMappings (map : DmaMap) :
    Account.Moves map.account map.invalidateHostMappings.account [] := by
  refine .release map.held ?_ ((unmapped_append map _).trans (by rw [unmapped_removals]; rfl)) rfl
  change map.held.Perm (map.held ++ map.removed.entries.filterMap fun entry ↦ entry.2.2.currHostAddr)
  rw [held_removed, List.append_nil]

theorem moves_resetHostMappings (map : DmaMap) : Account.Moves map.account map.resetHostMappings.account [] := by
  refine .release map.held ?_ ((unmapped_append map _).trans (by rw [unmapped_removals]; rfl)) rfl
  change map.held.Perm (map.held ++ [])
  rw [List.append_nil]

end DmaMap

/-! ## Runs -/

section Runs

variable {Thread : Type} [DecidableEq Thread] {action : Action Thread} {actions : List (Action Thread)}
  {s next last : State Thread}

/-- An erased entry was used, or a mapping is lost. -/
def Broken (s : State Thread) : Prop := s.touchedErased = true ∨ s.map.account.Lost

theorem call_eq {thread : Thread} {map : DmaMap} (h : s.call thread map = some next) :
    next = { s with map := map } := by
  rw [State.call] at h
  obtain ⟨_, h⟩ := Option.ite_none_left_eq_some.mp h
  exact (Option.some.inj h).symm

/-- What a step does: it uses an entry that was erased, or drops what it finds mapped where it maps. -/
theorem step_cases (h : State.step action s = some next) :
    ¬ Fits action s ∧ next.touchedErased = true ∧ next.map = s.map ∨
    next.touchedErased = s.touchedErased ∧ ∃ dropped, Account.Moves s.map.account next.map.account dropped ∧
      (Fits action s ↔ dropped = []) := by
  cases action with
  | addBuffer thread hwpipe guest_paddr bufferSize =>
    rw [call_eq h]
    exact .inr ⟨rfl, _, s.map.moves_addBuffer hwpipe guest_paddr bufferSize,
      (s.map.mappedAt_eq_nil_iff guest_paddr).symm⟩
  | removeBuffer thread guest_paddr =>
    rw [call_eq h]
    exact .inr ⟨rfl, _, s.map.moves_removeBuffer guest_paddr, iff_of_true trivial rfl⟩
  | getHostAddr thread guest_paddr =>
    refine .inr ?_
    obtain ⟨_, h⟩ := Option.ite_none_left_eq_some.mp h
    cases hhalf : s.map.getHostAddr guest_paddr with
    | inl result =>
      rw [hhalf] at h
      cases h
      exact ⟨rfl, _, .refl _, iff_of_true trivial rfl⟩
    | inr node =>
      rw [hhalf] at h
      cases h
      exact ⟨rfl, _, .refl _, iff_of_true trivial rfl⟩
  | upgrade thread =>
    obtain ⟨node, hnode, h⟩ := Option.map_eq_some_iff.mp h
    cases hentry : s.map.entryAt node with
    | none =>
      have hmap : s.map.mapEntry node = none := by rw [DmaMap.mapEntry, hentry, Option.map_none]
      rw [hmap] at h
      subst h
      refine .inl ⟨fun hfits ↦ ?_, rfl, rfl⟩
      obtain ⟨entry, hmem, _⟩ := hfits node hnode
      rw [hentry] at hmem
      cases hmem
    | some entry =>
      obtain ⟨result, hmap⟩ : ∃ result, s.map.mapEntry node = some result := by
        rw [DmaMap.mapEntry, hentry]
        exact ⟨_, rfl⟩
      rw [hmap] at h
      subst h
      refine .inr ⟨rfl, _, DmaMap.moves_mapEntry hentry hmap, ?_⟩
      rw [Option.toList_eq_nil_iff]
      constructor
      · intro hfits
        obtain ⟨found, hfound, hnone⟩ := hfits node hnode
        cases hentry.symm.trans hfound
        exact hnone
      · intro hnone other hother
        cases hnode.symm.trans hother
        exact ⟨entry, hentry, hnone⟩
  | invalidateHostMappings thread =>
    rw [call_eq h]
    exact .inr ⟨rfl, _, s.map.moves_invalidateHostMappings, iff_of_true trivial rfl⟩
  | resetHostMappings thread =>
    rw [call_eq h]
    exact .inr ⟨rfl, _, s.map.moves_resetHostMappings, iff_of_true trivial rfl⟩

/-- The account is exact and no erased entry was used. -/
structure Sound (s : State Thread) : Prop where
  exact : s.map.account.Exact
  kept : s.touchedErased = false

omit [DecidableEq Thread] in
theorem sound_start : Sound (State.start : State Thread) := ⟨.refl _, rfl⟩

theorem Sound.step (h : Sound s) (hfits : Fits action s) (hstep : State.step action s = some next) : Sound next := by
  obtain ⟨hnot, _⟩ | ⟨htouched, dropped, hmoves, hiff⟩ := step_cases hstep
  · exact absurd hfits hnot
  · obtain rfl := hiff.mp hfits
    exact ⟨hmoves.exact h.exact, htouched.trans h.kept⟩

theorem Sound.broken (h : Sound s) (hfits : ¬ Fits action s) (hstep : State.step action s = some next) :
    Broken next := by
  obtain ⟨_, htouched, _⟩ | ⟨_, dropped, hmoves, hiff⟩ := step_cases hstep
  · exact .inl htouched
  · obtain ⟨mapping, hmem⟩ := List.exists_mem_of_ne_nil dropped (mt hiff.mpr hfits)
    exact .inr (hmoves.lost_of_mem h.exact hmem)

theorem Broken.step (h : Broken s) (hstep : State.step action s = some next) : Broken next := by
  obtain ⟨_, htouched, _⟩ | ⟨htouched, dropped, hmoves, _⟩ := step_cases hstep
  · exact .inl htouched
  · exact h.imp htouched.trans hmoves.lost

omit [DecidableEq Thread] in
theorem Sound.balanced (h : Sound s) : Balanced s := ⟨fun _ hlt ↦ h.exact.count_eq_one hlt, h.kept⟩

omit [DecidableEq Thread] in
theorem Broken.not_balanced (h : Broken s) : ¬ Balanced s := by
  rintro ⟨honce, hkept⟩
  obtain htouched | hlost := h
  · rw [htouched] at hkept
    cases hkept
  · obtain ⟨mapping, hlt, hzero⟩ := hlost.count_eq_zero
    have hone := honce mapping hlt
    simp only [DmaMap.account] at hzero
    omega

/-- A run is sound up to the first step that does not fit, and broken from there on. -/
theorem sound_or_broken (h : Sound s) (hrun : run State.step s actions = some last) :
    Guarded State.step Fits s actions ∧ Sound last ∨ ¬ Guarded State.step Fits s actions ∧ Broken last := by
  induction actions generalizing s with
  | nil =>
    cases hrun
    exact .inl ⟨trivial, h⟩
  | cons action actions ih =>
    obtain ⟨next, hnext, hrest⟩ := Option.bind_eq_some_iff.mp hrun
    rw [guarded_cons_of_step hnext]
    by_cases hfits : Fits action s
    · simpa only [hfits, true_and] using ih (h.step hfits hnext) hrest
    · refine .inr ⟨fun hguarded ↦ hfits hguarded.1, ?_⟩
      exact invariant_of_run (fun _ _ _ hbroken hstep ↦ hbroken.step hstep) (h.broken hfits hnext) hrest

/-- After any interleaving, each mapping is in one entry or was unmapped once and no erased entry was used, if and
only if nothing mapped was mapped again and no thread in `getHostAddr` came back to an erased entry. -/
theorem balanced_iff_fits (actions : List (Action Thread)) (s : State Thread)
    (hrun : run State.step State.start actions = some s) :
    Balanced s ↔ Guarded State.step Fits State.start actions := by
  obtain ⟨hguarded, hsound⟩ | ⟨hnot, hbroken⟩ := sound_or_broken sound_start hrun
  · exact iff_of_true hsound.balanced hguarded
  · exact iff_of_false hbroken.not_balanced hnot

end Runs

/-- A buffer is added, invalidated, mapped by a thread, looked up by another and removed. -/
def mappedAgain : List (Action Bool) :=
  [.addBuffer false 7 0x1000 64, .invalidateHostMappings false, .getHostAddr true 0x1000, .upgrade true,
    .getHostAddr false 0x1000, .removeBuffer false 0x1000]

theorem balanced_iff_fits_mappedAgain :
    ∃ s, run State.step State.start mappedAgain = some s ∧ s.map.mappings = 2 ∧ Balanced s := by
  have hends : (run State.step State.start mappedAgain).map (fun s ↦ s.map.mappings) = some 2 := by decide +kernel
  obtain ⟨s, hrun, hmappings⟩ := Option.map_eq_some_iff.mp hends
  have hfits : Guarded State.step Fits State.start mappedAgain := by decide +kernel
  exact ⟨s, hrun, hmappings, (balanced_iff_fits mappedAgain s hrun).mpr hfits⟩

/-- A buffer is added twice. -/
def addedTwice : List (Action Bool) := [.addBuffer false 7 0x1000 64, .addBuffer false 7 0x1000 64]

/-- Two threads find the buffer without a mapping. -/
def mappedTwice : List (Action Bool) :=
  [.addBuffer false 7 0x1000 64, .invalidateHostMappings false, .getHostAddr true 0x1000,
    .getHostAddr false 0x1000, .upgrade true, .upgrade false]

/-- The buffer is removed while a thread is about to map it. -/
def removedBetween : List (Action Bool) :=
  [.addBuffer false 7 0x1000 64, .invalidateHostMappings false, .getHostAddr true 0x1000,
    .removeBuffer false 0x1000, .upgrade true]

/-- A mapping is lost when a buffer is added twice or mapped by two threads, and an erased entry can be used. -/
theorem mappings_lost :
    (∃ s, run State.step State.start addedTwice = some s ∧ ¬ Balanced s) ∧
    (∃ s, run State.step State.start mappedTwice = some s ∧ ¬ Balanced s) ∧
    ∃ s, run State.step State.start removedBetween = some s ∧ ¬ Balanced s := by
  have hlost : ∀ (actions : List (Action Bool)) (mapping : ℕ), (run State.step State.start actions).map (fun s ↦
      (decide (mapping < s.map.mappings), s.map.held.count mapping + s.map.unmapped.count mapping)) =
        some (true, 0) → ∃ s, run State.step State.start actions = some s ∧ ¬ Balanced s := by
    intro actions mapping h
    obtain ⟨s, hrun, hcounts⟩ := Option.map_eq_some_iff.mp h
    obtain ⟨hlt, hzero⟩ := Prod.mk.inj hcounts
    refine ⟨s, hrun, fun hbalanced ↦ ?_⟩
    have hone := hbalanced.once mapping (of_decide_eq_true hlt)
    omega
  refine ⟨hlost addedTwice 0 (by decide +kernel), hlost mappedTwice 1 (by decide +kernel), ?_⟩
  have htouched : (run State.step State.start removedBetween).map State.touchedErased = some true := by
    decide +kernel
  obtain ⟨s, hrun, htrue⟩ := Option.map_eq_some_iff.mp htouched
  refine ⟨s, hrun, fun hbalanced ↦ ?_⟩
  rw [hbalanced.kept] at htrue
  cases htrue

end FdeEmugl.Dma
