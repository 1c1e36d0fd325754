import FdeEmugl.Library.OrderedMap
import FdeEmugl.Library.Runs
import FdeEmugl.Library.Walk
import Mathlib.Data.String.Basic

/-!
# The hierarchy of snapshots

`constructDeps` sorts the existing snapshots into roots and children. A parent that is gone is
looked up in the map that the call before left in a file, until a name is reached that was seen by a call
of this process.

The names a process has seen are never forgotten, so a parent can be one that has been deleted, and nothing
keeps the map in the file free of cycles.
-/

namespace FdeEmugl.Snapshot

open Relation Runs Walk
open Option (bind_eq_some_iff map_eq_some_iff)

variable {Name : Type*} [LinearOrder Name]

structure SnapshotInfo (Name : Type*) where
  name : Name
  parent : Option Name
  deriving DecidableEq

/-- What `getExistingSnapshots` returns: one snapshot for each directory. -/
structure Listing (Name : Type*) where
  infos : List (SnapshotInfo Name)
  distinct : (infos.map SnapshotInfo.name).Nodup

def Listing.names (listing : Listing Name) : List Name := listing.infos.map SnapshotInfo.name

/-- `Hierarchy::Info`. -/
structure HierarchyInfo (Name : Type*) [LinearOrder Name] where
  roots : List Name
  deps : OrderedMap Name (List Name)

/-- The dependencies are those of the file, as pairs of a name and its parent; a file that cannot be read has
none. -/
structure HierarchyImpl (Name : Type*) [LinearOrder Name] where
  mValidParents : Finset Name
  dependencies : List (Name × Name)
  depInfo : HierarchyInfo Name

/-- `mPrevParentMap`. -/
def loadPersistentData (dependencies : List (Name × Name)) : OrderedMap Name Name :=
  dependencies.foldl (fun mPrevParentMap dependency ↦ mPrevParentMap.put dependency.1 dependency.2) .empty

/-- `depInfo` and `mNextParentMap` while `constructDeps` fills them. -/
structure Building (Name : Type*) [LinearOrder Name] where
  depInfo : HierarchyInfo Name
  mNextParentMap : OrderedMap Name Name

namespace Building

def start : Building Name := ⟨⟨[], .empty⟩, .empty⟩

def addRoot (name : Name) (building : Building Name) : Building Name :=
  { building with depInfo := { building.depInfo with roots := building.depInfo.roots ++ [name] } }

def addEdge (parent name : Name) (building : Building Name) : Building Name where
  depInfo := { building.depInfo with
    deps := building.depInfo.deps.put parent ((building.depInfo.deps.find parent).getD [] ++ [name]) }
  mNextParentMap := building.mNextParentMap.put name parent

/-- The names that stand somewhere. -/
def placed (building : Building Name) : List Name :=
  building.depInfo.roots ++ building.depInfo.deps.entries.flatMap Prod.snd

end Building

/-- One round of the loop that looks for a parent that is known; `none` is the end of the map. -/
def lookUp (mValidParents : Finset Name) (mPrevParentMap : OrderedMap Name Name) (name : Name) : Name ⊕ Option Name :=
  match mPrevParentMap.find name with
  | none => .inr none
  | some parent => if parent ∈ mValidParents then .inr (some parent) else .inl parent

/-- The parent under which a snapshot is put; `none` is a root. -/
def place (mValidParents : Finset Name) (mPrevParentMap : OrderedMap Name Name) (fuel : ℕ)
    (s : SnapshotInfo Name) : Option (Option Name) :=
  match s.parent with
  | none => some none
  | some p => if p ∈ mValidParents then some (some p) else loop (lookUp mValidParents mPrevParentMap) fuel p

def addSnapshot (mValidParents : Finset Name) (mPrevParentMap : OrderedMap Name Name) (fuel : ℕ)
    (building : Building Name) (s : SnapshotInfo Name) : Option (Building Name) :=
  (place mValidParents mPrevParentMap fuel s).map fun
    | none => building.addRoot s.name
    | some p => building.addEdge p s.name

/-- Without a state, the fuel of the loop was not enough. -/
def constructDeps (fuel : ℕ) (listing : Listing Name) (impl : HierarchyImpl Name) : Option (HierarchyImpl Name) :=
  let mPrevParentMap := loadPersistentData impl.dependencies
  let mValidParents := impl.mValidParents ∪ listing.names.toFinset
  (listing.infos.foldlM (addSnapshot mValidParents mPrevParentMap fuel) .start).map fun building ↦
    { mValidParents, dependencies := building.mNextParentMap.entries, depInfo := building.depInfo }

/-! ## What is built -/

section Building

variable {building last : Building Name} {known : Finset Name} {prev : OrderedMap Name Name} {fuel : ℕ}
  {name parent : Name}

variable {infos : List (SnapshotInfo Name)}

theorem placed_addRoot : (building.addRoot name).placed.Perm (name :: building.placed) := by
  unfold Building.placed Building.addRoot
  rw [List.append_assoc]
  exact List.perm_middle

theorem placed_addEdge : (building.addEdge parent name).placed.Perm (name :: building.placed) := by
  have hput : (building.addEdge parent name).depInfo.deps.entries.Perm
      ((parent, (building.depInfo.deps.find parent).getD [] ++ [name]) ::
        (building.depInfo.deps.erase parent).entries) := OrderedMap.entries_put_perm
  have hold : (building.depInfo.deps.entries.flatMap Prod.snd).Perm ((building.depInfo.deps.find parent).getD [] ++
        (building.depInfo.deps.erase parent).entries.flatMap Prod.snd) := by
    cases hfind : building.depInfo.deps.find parent with
    | none => rw [OrderedMap.entries_erase_of_find hfind, Option.getD_none, List.nil_append]
    | some children => exact (OrderedMap.entries_perm_erase hfind).flatMap_right _
  have hnew : ((building.addEdge parent name).depInfo.deps.entries.flatMap Prod.snd).Perm
      (name :: building.depInfo.deps.entries.flatMap Prod.snd) := by
    refine (hput.flatMap_right _).trans ?_
    rw [List.flatMap_cons, List.append_assoc]
    exact List.perm_middle.trans (.cons name hold.symm)
  exact (hnew.append_left _).trans List.perm_middle

theorem mem_keys_addEdge {key : Name} : (∃ entry ∈ (building.addEdge parent name).depInfo.deps.entries, entry.1 = key) ↔
    key = parent ∨ ∃ entry ∈ building.depInfo.deps.entries, entry.1 = key := by
  simp only [Building.addEdge, OrderedMap.mem_put]
  constructor
  · intro ⟨entry, hentry, hkey⟩
    obtain heq | hold := hentry
    · exact .inl (hkey.symm.trans (congrArg Prod.fst heq))
    · exact .inr ⟨entry, hold.1, hkey⟩
  · intro hkey
    by_cases heq : key = parent
    · exact ⟨_, .inl rfl, heq.symm⟩
    · obtain ⟨entry, hentry, hsame⟩ := hkey.resolve_left heq
      exact ⟨entry, .inr ⟨hentry, fun hparent ↦ heq (hsame.symm.trans hparent)⟩, hsame⟩

/-- Every snapshot is put somewhere, and the keys are the parents under which they are put. -/
theorem addSnapshots_spec (h : infos.foldlM (addSnapshot known prev fuel) building = some last) :
    last.placed.Perm (building.placed ++ infos.map SnapshotInfo.name) ∧
      ∀ key, (∃ entry ∈ last.depInfo.deps.entries, entry.1 = key) ↔
        (∃ entry ∈ building.depInfo.deps.entries, entry.1 = key) ∨
          ∃ s ∈ infos, place known prev fuel s = some (some key) := by
  induction infos generalizing building with
  | nil =>
    cases h
    simp
  | cons s infos ih =>
    obtain ⟨next, hnext, hrest⟩ := bind_eq_some_iff.mp h
    obtain ⟨hplaced, hkeys⟩ := ih hrest
    obtain ⟨parent, hplace, rfl⟩ := map_eq_some_iff.mp hnext
    have hhere : ∀ other, (∃ t ∈ s :: infos, place known prev fuel t = some (some other)) ↔
        parent = some other ∨ ∃ t ∈ infos, place known prev fuel t = some (some other) := by
      intro other
      rw [List.exists_mem_cons_iff, hplace, Option.some.injEq]
    cases parent with
    | none =>
      refine ⟨hplaced.trans ?_, fun key ↦ (hkeys key).trans ?_⟩
      · rw [List.map_cons]
        exact (placed_addRoot.append_right _).trans List.perm_middle.symm
      · rw [hhere]
        simp [Building.addRoot]
    | some parent =>
      refine ⟨hplaced.trans ?_, fun key ↦ (hkeys key).trans ?_⟩
      · rw [List.map_cons]
        exact (placed_addEdge.append_right _).trans List.perm_middle.symm
      · rw [hhere, mem_keys_addEdge, Option.some.injEq, eq_comm, or_assoc]
        exact or_left_comm

theorem place_mono {more : ℕ} {s : SnapshotInfo Name} {result : Option Name}
    (h : place known prev fuel s = some result) (hle : fuel ≤ more) : place known prev more s = some result := by
  unfold place at h ⊢
  cases hparent : s.parent with
  | none =>
    rw [hparent] at h
    exact h
  | some p =>
    rw [hparent] at h
    by_cases hknown : p ∈ known
    · simpa only [if_pos hknown] using h
    · simp only [if_neg hknown] at h ⊢
      exact loop_mono h hle

theorem addSnapshots_mono {more : ℕ} (h : infos.foldlM (addSnapshot known prev fuel) building = some last)
    (hle : fuel ≤ more) : infos.foldlM (addSnapshot known prev more) building = some last := by
  induction infos generalizing building with
  | nil => exact h
  | cons s infos ih =>
    obtain ⟨next, hnext, hrest⟩ := bind_eq_some_iff.mp h
    obtain ⟨parent, hplace, rfl⟩ := map_eq_some_iff.mp hnext
    rw [List.foldlM_cons, addSnapshot, place_mono hplace hle, Option.map_some]
    exact ih hrest

theorem exists_addSnapshots : (∃ last, infos.foldlM (addSnapshot known prev fuel) building = some last) ↔
      ∀ s ∈ infos, ∃ parent, place known prev fuel s = some parent := by
  induction infos generalizing building with
  | nil => simp
  | cons s infos ih =>
    rw [List.forall_mem_cons]
    constructor
    · intro ⟨last, hlast⟩
      obtain ⟨next, hnext, hrest⟩ := bind_eq_some_iff.mp hlast
      obtain ⟨parent, hplace, _⟩ := map_eq_some_iff.mp hnext
      exact ⟨⟨parent, hplace⟩, ih.mp ⟨last, hrest⟩⟩
    · intro ⟨⟨parent, hplace⟩, hrest⟩
      obtain ⟨last, hlast⟩ := ih.mpr hrest
      refine ⟨last, ?_⟩
      rw [List.foldlM_cons, addSnapshot, hplace, Option.map_some]
      exact hlast

end Building

/-! ## The walk through the map in the file -/

/-- The parent that the file has for a name is not known either. -/
def Hole (known : Finset Name) (prev : OrderedMap Name Name) (name parent : Name) : Prop :=
  prev.find name = some parent ∧ parent ∉ known

section Walk

variable {known : Finset Name} {prev : OrderedMap Name Name} {fuel : ℕ} {name parent : Name}

theorem lookUp_eq_inr {result : Option Name} : lookUp known prev name = .inr result ↔
    prev.find name = result ∧ ∀ parent ∈ result, parent ∈ known := by
  unfold lookUp
  cases hfind : prev.find name with
  | none =>
    simp only [Sum.inr.injEq]
    exact ⟨fun heq ↦ ⟨heq, heq ▸ fun parent hparent ↦ by cases hparent⟩, And.left⟩
  | some parent =>
    by_cases hknown : parent ∈ known
    · simp only [if_pos hknown, Sum.inr.injEq]
      exact ⟨fun heq ↦ ⟨heq, heq ▸ fun other hother ↦ Option.some.inj hother ▸ hknown⟩, And.left⟩
    · simp only [if_neg hknown, reduceCtorEq, false_iff]
      exact fun h ↦ hknown (h.2 parent h.1.symm)

theorem goes_lookUp : Goes (lookUp known prev) = Hole known prev := by
  funext name parent
  unfold Goes lookUp Hole
  cases prev.find name with
  | none => simp
  | some other =>
    by_cases hknown : other ∈ known
    · simp only [if_pos hknown, reduceCtorEq, Option.some.injEq, eq_iff_iff, false_iff]
      exact fun h ↦ h.2 (h.1 ▸ hknown)
    · simp only [if_neg hknown, Sum.inl.injEq, Option.some.injEq, eq_iff_iff]
      exact ⟨fun heq ↦ ⟨heq, heq ▸ hknown⟩, And.left⟩

theorem mem_loadPersistentData {dependencies : List (Name × Name)} {entry : Name × Name}
    (h : entry ∈ (loadPersistentData dependencies).entries) : entry ∈ dependencies := by
  suffices hfold : ∀ map : OrderedMap Name Name,
      entry ∈ (dependencies.foldl (fun map dependency ↦ map.put dependency.1 dependency.2) map).entries →
        entry ∈ map.entries ∨ entry ∈ dependencies by
    exact (hfold .empty h).resolve_left List.not_mem_nil
  clear h
  induction dependencies with
  | nil => exact fun map h ↦ .inl h
  | cons dependency dependencies ih =>
    intro map h
    obtain hput | hlater := ih _ h
    · obtain heq | hold := OrderedMap.mem_put.mp hput
      · exact .inr (heq ▸ .head _)
      · exact .inl hold.1
    · exact .inr (.tail _ hlater)

/-- One round for each dependency is enough, if the walk comes back to no name. -/
theorem exists_loop_lookUp {dependencies : List (Name × Name)}
    (hback : ∀ last, ReflTransGen (Hole known (loadPersistentData dependencies)) name last →
      ¬ TransGen (Hole known (loadPersistentData dependencies)) last last) :
    ∃ result, loop (lookUp known (loadPersistentData dependencies)) (dependencies.length + 1) name = some result := by
  rw [← goes_lookUp] at hback
  obtain ⟨result, hresult⟩ := exists_loop_of_bounded (dependencies.map Prod.fst).toFinset (fun last next _ hgoes ↦ by
      have hhole : Hole known (loadPersistentData dependencies) last next := by rwa [← goes_lookUp]
      have hmem := mem_loadPersistentData (OrderedMap.find_eq_some.mp hhole.1)
      exact List.mem_toFinset.mpr (List.mem_map_of_mem hmem)) hback
  have hcard : (dependencies.map Prod.fst).toFinset.card ≤ dependencies.length :=
    (List.toFinset_card_le _).trans_eq (List.length_map _)
  exact ⟨result, loop_mono hresult (Nat.succ_le_succ hcard)⟩

end Walk

/-! ## Calls -/

/-- Every existing snapshot stands in one place, and what has children exists. -/
structure HierarchyInfo.Correct (listing : Listing Name) (info : HierarchyInfo Name) : Prop where
  once : ∀ name ∈ listing.names, (info.roots ++ info.deps.entries.flatMap Prod.snd).count name = 1
  exists_key : ∀ entry ∈ info.deps.entries, entry.1 ∈ listing.names

namespace HierarchyImpl

def known (listing : Listing Name) (impl : HierarchyImpl Name) : Finset Name :=
  impl.mValidParents ∪ listing.names.toFinset

/-- A parent that is gone has not been seen by an earlier call. The walk from it through the map in the file
does not come back to a name, and where it meets a name that this or an earlier call has seen, that snapshot
exists. -/
def KeepsTree (listing : Listing Name) (impl : HierarchyImpl Name) : Prop :=
  ∀ s ∈ listing.infos, ∀ p ∈ s.parent, p ∉ listing.names → p ∉ impl.mValidParents ∧
    ∀ name, ReflTransGen (Hole (impl.known listing) (loadPersistentData impl.dependencies)) p name →
      ¬ TransGen (Hole (impl.known listing) (loadPersistentData impl.dependencies)) name name ∧
      ∀ parent ∈ (loadPersistentData impl.dependencies).find name, parent ∈ impl.known listing →
        parent ∈ listing.names

/-- One call of `constructDeps`, with enough fuel. -/
def step (listing : Listing Name) (impl : HierarchyImpl Name) : Option (HierarchyImpl Name) :=
  constructDeps (impl.dependencies.length + 1) listing impl

/-- Every call returns and leaves a correct hierarchy. -/
def Builds : HierarchyImpl Name → List (Listing Name) → Prop
  | _, [] => True
  | impl, listing :: calls => ∃ fuel next, constructDeps fuel listing impl = some next ∧
      next.depInfo.Correct listing ∧ Builds next calls

section Calls

variable {impl next : HierarchyImpl Name} {listing : Listing Name} {fuel : ℕ}

theorem known_iff {name : Name} : name ∈ impl.known listing ↔ name ∈ impl.mValidParents ∨ name ∈ listing.names := by
  rw [known, Finset.mem_union, List.mem_toFinset]

theorem exists_constructDeps : (∃ next, constructDeps fuel listing impl = some next) ↔ ∀ s ∈ listing.infos, ∃ parent,
      place (impl.known listing) (loadPersistentData impl.dependencies) fuel s = some parent := by
  have hfold : (∃ building, listing.infos.foldlM (addSnapshot (impl.known listing)
      (loadPersistentData impl.dependencies) fuel) .start = some building) ↔ _ := exists_addSnapshots
  rw [← hfold]
  simp only [constructDeps, map_eq_some_iff]
  constructor
  · intro ⟨_, building, hbuilding, _⟩
    exact ⟨building, hbuilding⟩
  · intro ⟨building, hbuilding⟩
    exact ⟨_, building, hbuilding, rfl⟩

/-- The hierarchy is correct if snapshots are put under existing ones. -/
theorem correct_iff (h : constructDeps fuel listing impl = some next) : next.depInfo.Correct listing ↔
    ∀ s ∈ listing.infos, ∀ key,
      place (impl.known listing) (loadPersistentData impl.dependencies) fuel s = some (some key) →
        key ∈ listing.names := by
  obtain ⟨building, hbuilding, rfl⟩ := map_eq_some_iff.mp h
  obtain ⟨hplaced, hkeys⟩ := addSnapshots_spec hbuilding
  have hstart : ∀ key : Name, ¬ ∃ entry ∈ (Building.start : Building Name).depInfo.deps.entries, entry.1 = key :=
    fun key ⟨entry, hentry, _⟩ ↦ List.not_mem_nil hentry
  constructor
  · intro hcorrect s hs key hplace
    obtain ⟨entry, hentry, rfl⟩ := (hkeys key).mpr (.inr ⟨s, hs, hplace⟩)
    exact hcorrect.exists_key entry hentry
  · intro hunder
    refine ⟨fun name hname ↦ ?_, fun entry hentry ↦ ?_⟩
    · exact (hplaced.count_eq name).trans (List.count_eq_one_of_mem listing.distinct hname)
    · obtain ⟨s, hs, hplace⟩ := ((hkeys entry.1).mp ⟨entry, hentry, rfl⟩).resolve_left (hstart entry.1)
      exact hunder s hs entry.1 hplace

theorem KeepsTree.exists_place (h : impl.KeepsTree listing) {s : SnapshotInfo Name} (hs : s ∈ listing.infos) :
    ∃ parent, place (impl.known listing) (loadPersistentData impl.dependencies)
      (impl.dependencies.length + 1) s = some parent ∧ ∀ key ∈ parent, key ∈ listing.names := by
  unfold place
  cases hparent : s.parent with
  | none => exact ⟨none, rfl, fun _ hkey ↦ by cases hkey⟩
  | some p =>
    by_cases hexists : p ∈ listing.names
    · simp only [if_pos (known_iff.mpr (.inr hexists))]
      exact ⟨some p, rfl, fun _ hkey ↦ Option.some.inj hkey ▸ hexists⟩
    obtain ⟨hnever, hwalk⟩ := h s hs p hparent hexists
    have hunknown : p ∉ impl.known listing := fun hmem ↦ (known_iff.mp hmem).elim hnever hexists
    simp only [if_neg hunknown]
    obtain ⟨result, hresult⟩ := exists_loop_lookUp fun last hreach ↦ (hwalk last hreach).1
    refine ⟨result, hresult, fun key hkey ↦ ?_⟩
    obtain ⟨last, hreach, hlast⟩ := exists_last hresult
    obtain ⟨hfind, hknown⟩ := lookUp_eq_inr.mp hlast
    rw [goes_lookUp] at hreach
    exact (hwalk last hreach).2 key (hfind.trans hkey) (hknown key hkey)

theorem keepsTree_of_correct (h : constructDeps fuel listing impl = some next)
    (hcorrect : next.depInfo.Correct listing) : impl.KeepsTree listing := by
  intro s hs p hparent hgone
  have hunder := (correct_iff h).mp hcorrect s hs
  obtain ⟨parent, hplace⟩ := exists_constructDeps.mp ⟨next, h⟩ s hs
  unfold place at hplace hunder
  simp only [Option.mem_def.mp hparent] at hplace hunder
  by_cases hknown : p ∈ impl.known listing
  · rw [if_pos hknown] at hunder
    exact absurd (hunder p rfl) hgone
  rw [if_neg hknown] at hplace hunder
  refine ⟨fun hseen ↦ hknown (known_iff.mpr (.inl hseen)), fun name hreach ↦ ?_⟩
  rw [← goes_lookUp] at hreach ⊢
  obtain ⟨rest, hrest⟩ := loop_of_reach hreach hplace
  refine ⟨not_back_of_loop hrest, fun key hkey hseen ↦ hunder key (hplace.trans (congrArg some ?_))⟩
  exact loop_eq_of_last hplace hreach (lookUp_eq_inr.mpr ⟨hkey, fun other hother ↦ Option.some.inj hother ▸ hseen⟩)

theorem constructDeps_mono {more : ℕ} (h : constructDeps fuel listing impl = some next) (hle : fuel ≤ more) :
    constructDeps more listing impl = some next := by
  obtain ⟨building, hbuilding, rfl⟩ := map_eq_some_iff.mp h
  exact map_eq_some_iff.mpr ⟨building, addSnapshots_mono hbuilding hle, rfl⟩

theorem exists_step (h : impl.KeepsTree listing) :
    ∃ next, impl.step listing = some next ∧ next.depInfo.Correct listing := by
  obtain ⟨next, hnext⟩ := exists_constructDeps.mpr fun s hs ↦ (h.exists_place hs).imp fun _ ↦ And.left
  refine ⟨next, hnext, (correct_iff hnext).mpr fun s hs key hplace ↦ ?_⟩
  obtain ⟨parent, hparent, hunder⟩ := h.exists_place hs
  exact hunder key (Option.some.inj (hparent.symm.trans hplace))

/-- A call that returns and leaves a correct hierarchy does so with the fuel of `step`. -/
theorem step_of_constructDeps (h : constructDeps fuel listing impl = some next)
    (hcorrect : next.depInfo.Correct listing) : impl.step listing = some next := by
  obtain ⟨other, hother, _⟩ := exists_step (keepsTree_of_correct h hcorrect)
  have hfirst := constructDeps_mono h (Nat.le_max_left fuel (impl.dependencies.length + 1))
  have hsecond := constructDeps_mono hother (Nat.le_max_right fuel (impl.dependencies.length + 1))
  rw [hother, ← hfirst.symm.trans hsecond]

end Calls

/-- All calls return and leave a correct hierarchy exactly if none of them meets a parent that was deleted
after an earlier call, or a cycle of the file. -/
theorem builds_iff (impl : HierarchyImpl Name) (calls : List (Listing Name)) :
    impl.Builds calls ↔ Guarded step KeepsTree impl calls := by
  induction calls generalizing impl with
  | nil => exact Iff.rfl
  | cons listing calls ih =>
    constructor
    · intro ⟨fuel, next, hnext, hcorrect, hrest⟩
      have hstep := step_of_constructDeps hnext hcorrect
      exact (guarded_cons_of_step hstep).mpr ⟨keepsTree_of_correct hnext hcorrect, (ih next).mp hrest⟩
    · intro hguarded
      obtain ⟨next, hnext, hcorrect⟩ := exists_step hguarded.1
      exact ⟨_, next, hnext, hcorrect, (ih next).mpr (hguarded.2 next hnext)⟩

/-- A process that has seen no snapshot yet. -/
def started (dependencies : List (Name × Name)) : HierarchyImpl Name := ⟨∅, dependencies, ⟨[], .empty⟩⟩

/-- A snapshot and its child, and then the child alone. -/
def parentAndChild : Listing String := ⟨[⟨"base", none⟩, ⟨"child", some "base"⟩], by decide⟩

def childAlone : Listing String := ⟨[⟨"child", some "base"⟩], by decide⟩

/-- The base was saved again while its child was loaded. -/
def savedOver : Listing String :=
  ⟨[⟨"base", some "child"⟩, ⟨"child", some "base"⟩, ⟨"third", some "base"⟩], by decide⟩

def thirdAlone : Listing String := ⟨[⟨"third", some "base"⟩], by decide⟩

/-- The parent is deleted between two calls and keeps its child; and a process that starts when the snapshots
of a cycle have been deleted never returns. -/
theorem deleted_parent_and_cycle :
    (∃ next last, step parentAndChild (started []) = some next ∧ step childAlone next = some last ∧
      last.depInfo.deps.entries = [("base", ["child"])] ∧ ¬ (started []).Builds [parentAndChild, childAlone]) ∧
    ∃ next, step savedOver (started []) = some next ∧
      ∀ fuel, constructDeps fuel thirdAlone (started next.dependencies) = none := by
  constructor
  · have hcalls : ((step parentAndChild (started [])).bind (step childAlone)).map
        (fun last ↦ last.depInfo.deps.entries) = some [("base", ["child"])] := by
      decide +kernel
    obtain ⟨last, hboth, hdeps⟩ := map_eq_some_iff.mp hcalls
    obtain ⟨next, hnext, hlast⟩ := bind_eq_some_iff.mp hboth
    refine ⟨next, last, hnext, hlast, hdeps, ?_⟩
    intro ⟨_, next', hnext', hcorrect, _, last', hlast', hcorrect', _⟩
    obtain rfl := Option.some.inj (hnext.symm.trans (step_of_constructDeps hnext' hcorrect))
    obtain rfl := Option.some.inj (hlast.symm.trans (step_of_constructDeps hlast' hcorrect'))
    have hexists := hcorrect'.exists_key ("base", ["child"]) (hdeps ▸ .head _)
    exact absurd hexists (by decide)
  · have hcall : (step savedOver (started [])).map dependencies =
        some [("base", "child"), ("child", "base"), ("third", "base")] := by
      decide +kernel
    obtain ⟨next, hnext, hdependencies⟩ := map_eq_some_iff.mp hcall
    refine ⟨next, hnext, fun fuel ↦ ?_⟩
    rw [hdependencies]
    by_contra hreturns
    obtain ⟨last, hlast⟩ := Option.ne_none_iff_exists'.mp hreturns
    obtain ⟨parent, hplace⟩ := exists_constructDeps.mp ⟨last, hlast⟩ ⟨"third", some "base"⟩ (.head _)
    simp only [place] at hplace
    rw [if_neg (by decide)] at hplace
    refine not_back_of_loop hplace (TransGen.tail (.single (?_ : Goes _ _ "child")) ?_) <;>
    · rw [goes_lookUp]
      unfold Hole
      decide +kernel

end HierarchyImpl

end FdeEmugl.Snapshot
