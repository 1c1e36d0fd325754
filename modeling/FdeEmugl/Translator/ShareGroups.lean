import FdeEmugl.Library.Runs
import Mathlib.Data.Finmap
import Mathlib.Data.UInt

/-!
# The registry of share groups

`ObjectNameManager` maps contexts to share groups and keeps the ids in use in a multiset, one copy
for each context of a group. `deleteShareGroup` erases an id by its value, which takes all copies
away at once. The registry is right as long as only the last context of a group is deleted.
-/

namespace FdeEmugl.ShareGroups

open Runs

/-- A share group object and its id. -/
structure ShareGroup where
  object : ℕ
  id : UInt64
deriving Repr, DecidableEq

structure ObjectNameManager (Context : Type*) where
  m_groups : Finmap fun _ : Context ↦ ShareGroup
  m_usedSharedGroupIDs : Multiset UInt64
  m_nextSharedGroupID : UInt64
  /-- How many share groups were made. -/
  made : ℕ

variable {Context : Type*} [DecidableEq Context]

namespace ObjectNameManager

def new (Context : Type*) : ObjectNameManager Context := ⟨∅, 0, 1, 0⟩

/-- The search for a free id. It never ends if there is none, which the fuel, the number of ids,
stands for. -/
def findID (used : Multiset UInt64) : ℕ → UInt64 → Option UInt64
  | 0, _ => none
  | fuel + 1, next => if next = 0 ∨ next ∈ used then findID used fuel (next + 1) else some next

def createShareGroup (p_groupName : Context) (sharedGroupID : UInt64)
    (manager : ObjectNameManager Context) : Option (ShareGroup × ObjectNameManager Context) :=
  match manager.m_groups.lookup p_groupName with
  | some group => some (group, manager)
  | none =>
    if sharedGroupID = 0 then
      (findID manager.m_usedSharedGroupIDs (2 ^ 64) manager.m_nextSharedGroupID).map fun id ↦
        (⟨manager.made, id⟩,
          { m_groups := manager.m_groups.insert p_groupName ⟨manager.made, id⟩
            m_usedSharedGroupIDs := id ::ₘ manager.m_usedSharedGroupIDs
            m_nextSharedGroupID := id + 1
            made := manager.made + 1 })
    else
      some (⟨manager.made, sharedGroupID⟩,
        { manager with
          m_groups := manager.m_groups.insert p_groupName ⟨manager.made, sharedGroupID⟩
          m_usedSharedGroupIDs := sharedGroupID ::ₘ manager.m_usedSharedGroupIDs
          made := manager.made + 1 })

def attachShareGroup (p_groupName p_existingGroupName : Context)
    (manager : ObjectNameManager Context) : Option ShareGroup × ObjectNameManager Context :=
  match manager.m_groups.lookup p_existingGroupName with
  | none => (none, manager)
  | some group =>
    if p_groupName ∈ manager.m_groups then (some group, manager)
    else (some group,
      { manager with
        m_groups := manager.m_groups.insert p_groupName group
        m_usedSharedGroupIDs := group.id ::ₘ manager.m_usedSharedGroupIDs })

/-- The contexts at which the search of `attachOrCreateShareGroup` may stop; the order of
`m_groups` is not known. -/
def hasID (manager : ObjectNameManager Context) (id : UInt64) (context : Context) : Prop :=
  (manager.m_groups.lookup context).map ShareGroup.id = some id

instance (manager : ObjectNameManager Context) (id : UInt64) (context : Context) :
    Decidable (manager.hasID id context) :=
  inferInstanceAs (Decidable (_ = _))

/-- `ite` is where the search stops, if it finds anything. -/
def attachOrCreateShareGroup (p_groupName : Context) (p_existingGroupID : UInt64)
    (ite : Option Context) (manager : ObjectNameManager Context) :
    Option (Option ShareGroup × ObjectNameManager Context) :=
  match ite with
  | some context =>
    if p_existingGroupID ≠ 0 ∧ manager.hasID p_existingGroupID context then
      some (manager.attachShareGroup p_groupName context)
    else none
  | none =>
    if p_existingGroupID = 0 ∨ ∀ context ∈ manager.m_groups.keys, ¬ manager.hasID p_existingGroupID context then
      (manager.createShareGroup p_groupName p_existingGroupID).map fun (group, next) ↦
        (some group, next)
    else none

/-- `erase` of a multiset takes away all the elements that are equal to its argument. -/
def deleteShareGroup (p_groupName : Context) (manager : ObjectNameManager Context) :
    ObjectNameManager Context :=
  match manager.m_groups.lookup p_groupName with
  | none => manager
  | some group =>
    { manager with
      m_usedSharedGroupIDs := manager.m_usedSharedGroupIDs.filter (· ≠ group.id)
      m_groups := manager.m_groups.erase p_groupName }

end ObjectNameManager

inductive Call (Context : Type*) where
  | createShareGroup (p_groupName : Context) (sharedGroupID : UInt64)
  | attachShareGroup (p_groupName p_existingGroupName : Context)
  | attachOrCreateShareGroup (p_groupName : Context) (p_existingGroupID : UInt64)
      (ite : Option Context)
  | deleteShareGroup (p_groupName : Context)

def step : Call Context → ObjectNameManager Context → Option (ObjectNameManager Context)
  | .createShareGroup name id, manager => (manager.createShareGroup name id).map Prod.snd
  | .attachShareGroup name existing, manager => some (manager.attachShareGroup name existing).2
  | .attachOrCreateShareGroup name id ite, manager =>
    (manager.attachOrCreateShareGroup name id ite).map Prod.snd
  | .deleteShareGroup name, manager => some (manager.deleteShareGroup name)

/-- No other context has the share group of this one. -/
def AloneInGroup (name : Context) (manager : ObjectNameManager Context) : Prop :=
  ∀ other ∈ manager.m_groups.keys, other ≠ name → manager.m_groups.lookup other ≠ manager.m_groups.lookup name

/-- Only the last context of a share group is deleted, and, as the assertion of
`createShareGroup` asks, no group is made with an id in use. -/
def DeletesLast : Call Context → ObjectNameManager Context → Prop
  | .createShareGroup name id, manager =>
    id ≠ 0 → name ∉ manager.m_groups → id ∉ manager.m_usedSharedGroupIDs
  | .deleteShareGroup name, manager => AloneInGroup name manager
  | .attachShareGroup _ _, _ | .attachOrCreateShareGroup _ _ _, _ => True

/-! ## The invariant -/

/-- A group is attached to some context. -/
def Attached (manager : ObjectNameManager Context) (group : ShareGroup) : Prop :=
  ∃ context, manager.m_groups.lookup context = some group

structure Consistent (manager : ObjectNameManager Context) : Prop where
  used : ∀ id, id ∈ manager.m_usedSharedGroupIDs ↔ ∃ group, Attached manager group ∧ group.id = id
  id_injective : ∀ group other, Attached manager group → Attached manager other → group.id = other.id → group = other
  object_injective : ∀ group other, Attached manager group → Attached manager other →
    group.object = other.object → group = other
  object_lt : ∀ group, Attached manager group → group.object < manager.made

variable {manager next : ObjectNameManager Context} {name : Context} {group : ShareGroup}

variable {id : UInt64}

theorem consistent_new : Consistent (ObjectNameManager.new Context) where
  used id := by simp [ObjectNameManager.new, Attached]
  id_injective _ _ hgroup := by simp [ObjectNameManager.new, Attached] at hgroup
  object_injective _ _ hgroup := by simp [ObjectNameManager.new, Attached] at hgroup
  object_lt _ hgroup := by simp [ObjectNameManager.new, Attached] at hgroup

/-- A context that was not there gets a group. -/
theorem attached_insert (hname : name ∉ manager.m_groups) (other : ShareGroup) {used : Multiset UInt64}
    {nextID : UInt64} {made : ℕ} :
    Attached ⟨manager.m_groups.insert name group, used, nextID, made⟩ other ↔
      other = group ∨ Attached manager other := by
  constructor
  · rintro ⟨context, hlookup⟩
    by_cases heq : context = name
    · subst heq
      simp only [Finmap.lookup_insert, Option.some.injEq] at hlookup
      exact .inl hlookup.symm
    · simp only [Finmap.lookup_insert_of_ne _ heq] at hlookup
      exact .inr ⟨context, hlookup⟩
  · rintro (rfl | ⟨context, hlookup⟩)
    · exact ⟨name, Finmap.lookup_insert _⟩
    · have hne : context ≠ name := by
        rintro rfl
        exact hname (Finmap.mem_of_lookup_eq_some hlookup)
      exact ⟨context, (Finmap.lookup_insert_of_ne _ hne).trans hlookup⟩

/-- A new group with an id that is not in use. -/
theorem Consistent.create (h : Consistent manager) (hname : name ∉ manager.m_groups)
    (hid : id ∉ manager.m_usedSharedGroupIDs) (nextID : UInt64) :
    Consistent ⟨manager.m_groups.insert name ⟨manager.made, id⟩,
      id ::ₘ manager.m_usedSharedGroupIDs, nextID, manager.made + 1⟩ := by
  have hother : ∀ group, Attached manager group → group.id ≠ id ∧ group.object ≠ manager.made := by
    intro group hgroup
    refine ⟨?_, (h.object_lt group hgroup).ne⟩
    rintro rfl
    exact hid ((h.used group.id).mpr ⟨group, hgroup, rfl⟩)
  constructor
  · intro id'
    simp only [attached_insert hname, Multiset.mem_cons, h.used]
    constructor
    · rintro (rfl | ⟨group, hgroup, rfl⟩)
      · exact ⟨_, .inl rfl, rfl⟩
      · exact ⟨group, .inr hgroup, rfl⟩
    · rintro ⟨group, rfl | hgroup, rfl⟩
      · exact .inl rfl
      · exact .inr ⟨group, hgroup, rfl⟩
  · simp only [attached_insert hname]
    rintro group other (rfl | hgroup) (rfl | hothers) heq
    · rfl
    · exact absurd heq.symm (hother other hothers).1
    · exact absurd heq (hother group hgroup).1
    · exact h.id_injective group other hgroup hothers heq
  · simp only [attached_insert hname]
    rintro group other (rfl | hgroup) (rfl | hothers) heq
    · rfl
    · exact absurd heq.symm (hother other hothers).2
    · exact absurd heq (hother group hgroup).2
    · exact h.object_injective group other hgroup hothers heq
  · simp only [attached_insert hname]
    rintro group (rfl | hgroup)
    · exact Nat.lt_succ_self _
    · exact (h.object_lt group hgroup).trans (Nat.lt_succ_self _)

/-- One more context for a group that has one. -/
theorem Consistent.attach (h : Consistent manager) (hname : name ∉ manager.m_groups)
    (hgroup : Attached manager group) :
    Consistent { manager with
      m_groups := manager.m_groups.insert name group
      m_usedSharedGroupIDs := group.id ::ₘ manager.m_usedSharedGroupIDs } := by
  have hsame (other : ShareGroup) : Attached { manager with
      m_groups := manager.m_groups.insert name group
      m_usedSharedGroupIDs := group.id ::ₘ manager.m_usedSharedGroupIDs } other ↔
        Attached manager other := by
    rw [attached_insert hname]
    constructor
    · rintro (rfl | hother)
      · exact hgroup
      · exact hother
    · exact .inr
  constructor
  · intro id
    simp only [hsame, Multiset.mem_cons, h.used]
    constructor
    · rintro (rfl | hid)
      · exact ⟨group, hgroup, rfl⟩
      · exact hid
    · exact .inr
  · simpa only [hsame] using h.id_injective
  · simpa only [hsame] using h.object_injective
  · simpa only [hsame] using h.object_lt

/-- The last context of a group goes. -/
theorem Consistent.delete (h : Consistent manager) (hlookup : manager.m_groups.lookup name = some group)
    (halone : AloneInGroup name manager) :
    Consistent { manager with
      m_usedSharedGroupIDs := manager.m_usedSharedGroupIDs.filter (· ≠ group.id)
      m_groups := manager.m_groups.erase name } := by
  have hattached (other : ShareGroup) : Attached { manager with
      m_usedSharedGroupIDs := manager.m_usedSharedGroupIDs.filter (· ≠ group.id)
      m_groups := manager.m_groups.erase name } other ↔ Attached manager other ∧ other ≠ group := by
    constructor
    · rintro ⟨context, hcontext⟩
      have hne : context ≠ name := by
        rintro rfl
        simp [Finmap.lookup_erase] at hcontext
      simp only [Finmap.lookup_erase_ne hne] at hcontext
      refine ⟨⟨context, hcontext⟩, ?_⟩
      rintro rfl
      exact halone context (Finmap.mem_of_lookup_eq_some hcontext) hne (hcontext.trans hlookup.symm)
    · rintro ⟨⟨context, hcontext⟩, hother⟩
      have hne : context ≠ name := by
        rintro rfl
        exact hother (Option.some.inj (hcontext.symm.trans hlookup))
      exact ⟨context, (Finmap.lookup_erase_ne hne).trans hcontext⟩
  constructor
  · intro id
    simp only [hattached, Multiset.mem_filter, h.used]
    constructor
    · rintro ⟨⟨other, hother, rfl⟩, hne⟩
      exact ⟨other, ⟨hother, fun heq ↦ hne (congrArg ShareGroup.id heq)⟩, rfl⟩
    · rintro ⟨other, ⟨hother, hne⟩, rfl⟩
      exact ⟨⟨other, hother, rfl⟩, fun heq ↦ hne (h.id_injective other group hother ⟨name, hlookup⟩ heq)⟩
  · simp only [hattached]
    exact fun first second hfirst hsecond ↦ h.id_injective first second hfirst.1 hsecond.1
  · simp only [hattached]
    exact fun first second hfirst hsecond ↦ h.object_injective first second hfirst.1 hsecond.1
  · simp only [hattached]
    exact fun first hfirst ↦ h.object_lt first hfirst.1

/-! ## The calls -/

open ObjectNameManager

theorem findID_spec {used : Multiset UInt64} {fuel : ℕ} {nextID : UInt64}
    (h : findID used fuel nextID = some id) : id ≠ 0 ∧ id ∉ used := by
  induction fuel generalizing nextID with
  | zero => cases h
  | succ fuel ih =>
    simp only [findID] at h
    split_ifs at h with htaken
    · exact ih h
    · cases h
      exact not_or.mp htaken

/-- What `createShareGroup` can do: the context has a group already, or it gets a new one whose id
is free, or the given one. -/
theorem createShareGroup_cases (h : manager.createShareGroup name id = some (group, next)) :
    manager.m_groups.lookup name = some group ∧ next = manager ∨
      name ∉ manager.m_groups ∧ (id = 0 ∧ group.id ∉ manager.m_usedSharedGroupIDs ∨ id ≠ 0 ∧ group.id = id) ∧
        ∃ nextID, next = ⟨manager.m_groups.insert name ⟨manager.made, group.id⟩,
          group.id ::ₘ manager.m_usedSharedGroupIDs, nextID, manager.made + 1⟩ := by
  unfold createShareGroup at h
  cases hlookup : manager.m_groups.lookup name with
  | some existing =>
    simp only [hlookup, Option.some.injEq, Prod.mk.injEq] at h
    exact .inl ⟨congrArg some h.1, h.2.symm⟩
  | none =>
    have hname := Finmap.lookup_eq_none.mp hlookup
    simp only [hlookup] at h
    split_ifs at h with hzero
    · obtain ⟨found, hfound, hresult⟩ := Option.map_eq_some_iff.mp h
      simp only [Prod.mk.injEq] at hresult
      obtain ⟨rfl, rfl⟩ := hresult
      exact .inr ⟨hname, .inl ⟨hzero, (findID_spec hfound).2⟩, _, rfl⟩
    · simp only [Option.some.injEq, Prod.mk.injEq] at h
      obtain ⟨rfl, rfl⟩ := h
      exact .inr ⟨hname, .inr ⟨hzero, rfl⟩, _, rfl⟩

section

variable (h : Consistent manager)
include h

theorem Consistent.createShareGroup (hid : id ≠ 0 → name ∉ manager.m_groups → id ∉ manager.m_usedSharedGroupIDs)
    (hcreate : manager.createShareGroup name id = some (group, next)) : Consistent next := by
  obtain ⟨_, rfl⟩ | ⟨hname, hfree, nextID, rfl⟩ := createShareGroup_cases hcreate
  · exact h
  · apply h.create hname
    obtain ⟨_, hfree⟩ | ⟨hgiven, heq⟩ := hfree
    · exact hfree
    · rw [heq]
      exact hid hgiven hname

theorem Consistent.attachShareGroup (name existing : Context) :
    Consistent (manager.attachShareGroup name existing).2 := by
  unfold ObjectNameManager.attachShareGroup
  cases hlookup : manager.m_groups.lookup existing with
  | none => exact h
  | some group =>
    simp only
    split_ifs with hname
    · exact h
    · exact h.attach hname ⟨existing, hlookup⟩

theorem Consistent.attachOrCreateShareGroup {ite : Option Context} {result : Option ShareGroup}
    (hcall : manager.attachOrCreateShareGroup name id ite = some (result, next)) : Consistent next := by
  unfold ObjectNameManager.attachOrCreateShareGroup at hcall
  cases ite with
  | some context =>
    simp only [Option.ite_none_right_eq_some, Option.some.injEq] at hcall
    have hnext : next = (manager.attachShareGroup name context).2 := by rw [hcall.2]
    rw [hnext]
    exact h.attachShareGroup name context
  | none =>
    simp only [Option.ite_none_right_eq_some, Option.map_eq_some_iff, Prod.mk.injEq] at hcall
    obtain ⟨hnone, ⟨group, last⟩, hcreate, _, rfl⟩ := hcall
    refine h.createShareGroup (fun hid _ hused ↦ ?_) hcreate
    -- the search has passed every group, so the id is not in use
    obtain ⟨other, ⟨context, hcontext⟩, rfl⟩ := (h.used id).mp hused
    obtain hzero | hpassed := hnone
    · exact hid hzero
    · exact hpassed context (Finmap.mem_keys.mpr (Finmap.mem_of_lookup_eq_some hcontext))
        (congrArg (Option.map ShareGroup.id) hcontext)

theorem Consistent.deleteShareGroup (halone : AloneInGroup name manager) :
    Consistent (manager.deleteShareGroup name) := by
  unfold ObjectNameManager.deleteShareGroup
  cases hlookup : manager.m_groups.lookup name with
  | none => exact h
  | some group => exact h.delete hlookup halone

theorem Consistent.step {call : Call Context} (hguard : DeletesLast call manager)
    (hstep : step call manager = some next) : Consistent next := by
  cases call with
  | createShareGroup name id =>
    obtain ⟨⟨group, last⟩, hcreate, rfl⟩ := Option.map_eq_some_iff.mp hstep
    exact h.createShareGroup hguard hcreate
  | attachShareGroup name existing =>
    cases hstep
    exact h.attachShareGroup name existing
  | attachOrCreateShareGroup name id ite =>
    obtain ⟨⟨result, last⟩, hcall, rfl⟩ := Option.map_eq_some_iff.mp hstep
    exact h.attachOrCreateShareGroup hcall
  | deleteShareGroup name =>
    cases hstep
    exact h.deleteShareGroup hguard

end

theorem consistent_of_run {calls : List (Call Context)} {manager : ObjectNameManager Context}
    (hguard : Guarded step DeletesLast (ObjectNameManager.new Context) calls)
    (hrun : run step (ObjectNameManager.new Context) calls = some manager) : Consistent manager :=
  invariant_of_guarded Consistent (fun _ _ _ h hguard hstep ↦ h.step hguard hstep) consistent_new hguard
    hrun

/-- As long as only last contexts are deleted, groups have the same id exactly when they are the same
object, the ids in use are those of the attached groups, and a new group gets an id that no attached
group has. -/
theorem groups_identified_of_deletesLast (calls : List (Call Context))
    (manager : ObjectNameManager Context)
    (hguard : Guarded step DeletesLast (ObjectNameManager.new Context) calls)
    (hrun : run step (ObjectNameManager.new Context) calls = some manager) :
    (∀ context other group group', manager.m_groups.lookup context = some group →
      manager.m_groups.lookup other = some group' →
        (group.id = group'.id ↔ group.object = group'.object)) ∧
    (∀ id, id ∈ manager.m_usedSharedGroupIDs ↔
      ∃ context group, manager.m_groups.lookup context = some group ∧ group.id = id) ∧
    ∀ name id group next, name ∉ manager.m_groups →
      DeletesLast (.createShareGroup name id) manager →
      manager.createShareGroup name id = some (group, next) →
        ∀ other group', manager.m_groups.lookup other = some group' → group'.id ≠ group.id := by
  have h := consistent_of_run hguard hrun
  refine ⟨?_, ?_, ?_⟩
  · intro context other group group' hgroup hgroup'
    constructor
    · intro heq
      exact congrArg ShareGroup.object (h.id_injective _ _ ⟨context, hgroup⟩ ⟨other, hgroup'⟩ heq)
    · intro heq
      exact congrArg ShareGroup.id (h.object_injective _ _ ⟨context, hgroup⟩ ⟨other, hgroup'⟩ heq)
  · intro id
    rw [h.used]
    constructor
    · rintro ⟨group, ⟨context, hlookup⟩, hid⟩
      exact ⟨context, group, hlookup, hid⟩
    · rintro ⟨context, group, hlookup, hid⟩
      exact ⟨group, ⟨context, hlookup⟩, hid⟩
  · intro name id group next hname hcall hcreate other group' hother heq
    have hused := (h.used group.id).mpr ⟨group', ⟨other, hother⟩, heq⟩
    obtain ⟨hlookup, _⟩ | ⟨_, hfree, _⟩ := createShareGroup_cases hcreate
    · exact hname (Finmap.mem_of_lookup_eq_some hlookup)
    · obtain ⟨_, hfree⟩ | ⟨hgiven, rfl⟩ := hfree
      · exact hfree hused
      · exact hcall hgiven hname hused

instance decidableDeletesLast : ∀ (call : Call Context) manager, Decidable (DeletesLast call manager)
  | .createShareGroup name id, manager =>
    inferInstanceAs (Decidable (id ≠ 0 → name ∉ manager.m_groups → id ∉ manager.m_usedSharedGroupIDs))
  | .deleteShareGroup name, manager =>
    inferInstanceAs (Decidable (∀ other ∈ manager.m_groups.keys, other ≠ name →
      manager.m_groups.lookup other ≠ manager.m_groups.lookup name))
  | .attachShareGroup _ _, _ | .attachOrCreateShareGroup _ _ _, _ => isTrue trivial

/-- A group is restored from a snapshot and shared, another one comes and goes. -/
def restoreCalls : List (Call ℕ) :=
  [.attachOrCreateShareGroup 0 2 none, .attachOrCreateShareGroup 1 2 (some 0), .createShareGroup 2 0,
    .createShareGroup 3 0, .deleteShareGroup 2, .attachShareGroup 4 3]

theorem groups_identified_restore :
    ∃ manager, Guarded step DeletesLast (ObjectNameManager.new ℕ) restoreCalls ∧
      run step (ObjectNameManager.new ℕ) restoreCalls = some manager ∧
      manager.m_groups.lookup 1 = some ⟨0, 2⟩ ∧ manager.m_groups.lookup 4 = some ⟨2, 3⟩ ∧
      ∀ id, id ∈ manager.m_usedSharedGroupIDs ↔
        ∃ context group, manager.m_groups.lookup context = some group ∧ group.id = id := by
  have hguard : Guarded step DeletesLast (ObjectNameManager.new ℕ) restoreCalls := by decide +kernel
  have hlookups : (run step (ObjectNameManager.new ℕ) restoreCalls).map
      (fun manager ↦ (manager.m_groups.lookup 1, manager.m_groups.lookup 4)) =
        some (some ⟨0, 2⟩, some ⟨2, 3⟩) := by decide +kernel
  obtain ⟨manager, hrun, hlookup⟩ := Option.map_eq_some_iff.mp hlookups
  obtain ⟨_, hused, _⟩ := groups_identified_of_deletesLast restoreCalls manager hguard hrun
  exact ⟨manager, hguard, hrun, (Prod.mk.inj hlookup).1, (Prod.mk.inj hlookup).2, hused⟩

/-- One of two contexts of a restored group is deleted: the id is free again while the other context
still has the group, and the next group gets it. -/
def deleteSharedCalls : List (Call ℕ) :=
  [.attachOrCreateShareGroup 0 1 none, .attachShareGroup 1 0, .deleteShareGroup 0, .createShareGroup 2 0]

theorem id_given_twice :
    ∃ manager, run step (ObjectNameManager.new ℕ) deleteSharedCalls = some manager ∧
      ¬ ∀ context other group group', manager.m_groups.lookup context = some group →
        manager.m_groups.lookup other = some group' →
          (group.id = group'.id ↔ group.object = group'.object) := by
  have hlookups : (run step (ObjectNameManager.new ℕ) deleteSharedCalls).map
      (fun manager ↦ (manager.m_groups.lookup 1, manager.m_groups.lookup 2)) =
        some (some ⟨0, 1⟩, some ⟨1, 1⟩) := by decide +kernel
  obtain ⟨manager, hrun, hlookup⟩ := Option.map_eq_some_iff.mp hlookups
  obtain ⟨hfirst, hsecond⟩ := Prod.mk.inj hlookup
  refine ⟨manager, hrun, fun h ↦ ?_⟩
  have hsame := (h 1 2 _ _ hfirst hsecond).mp rfl
  exact absurd hsame (by decide)

end FdeEmugl.ShareGroups
