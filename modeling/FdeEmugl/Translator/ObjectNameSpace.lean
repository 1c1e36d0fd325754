import FdeEmugl.Base.EntityManager
import FdeEmugl.Library.TwoWayMap
import Mathlib.Data.Finmap

/-!
# Names of GL objects

A `NameSpace` maps the names of a share group to GL objects, and the global names of these objects back
to a local name. Objects are shared by several names once they come from an EGL image, but the
map back has one entry for each global name, and it is removed with any of the names. The two maps
agree as long as only names that are alone on their object are deleted or bound to something
else, and no name in use is generated again.
-/

namespace FdeEmugl.Names

open Runs TwoWayMap Entities
open Function (update_of_ne update_self)

/-! ## `HybridComponentManager` -/

def maxIndex : ℕ := 10000

/-- Small indices go to the array of an `UnpackedComponentManager`, which keeps the components that
are live; all others go to a map. -/
structure HybridComponentManager (Data : Type*) where
  mItems : List (Option Data)
  mMap : Finmap fun _ : ℕ ↦ Data

namespace HybridComponentManager

variable {Data : Type*}

def new (Data : Type*) : HybridComponentManager Data := ⟨[], ∅⟩

/-- The place of a small index, by way of `index2Handle` and `indexOfEntity`. -/
def cell (index : ℕ) : ℕ := getHandleIndex hybridBits (makeHandle hybridBits (index % 2 ^ 32) 1 1)

/-- Room for an index. -/
def resize (index : ℕ) (mItems : List (Option Data)) : List (Option Data) :=
  if index + 1 > mItems.length then mItems ++ List.replicate ((index + 1) * 2 - mItems.length) none
  else mItems

def add (index : ℕ) (data : Data) (components : HybridComponentManager Data) : HybridComponentManager Data :=
  if index < maxIndex then
    { components with
      mItems := (resize (cell index) components.mItems).set (cell index) (some data) }
  else { components with mMap := components.mMap.insert index data }

def remove (index : ℕ) (components : HybridComponentManager Data) : HybridComponentManager Data :=
  if index < maxIndex then { components with mItems := components.mItems.set (cell index) none }
  else { components with mMap := components.mMap.erase index }

def get (components : HybridComponentManager Data) (index : ℕ) : Option Data :=
  if index < maxIndex then components.mItems[cell index]?.join else components.mMap.lookup index

/-- Where there may be something. -/
def keys (components : HybridComponentManager Data) : Finset ℕ :=
  Finset.range components.mItems.length ∪ components.mMap.keys

variable (index : ℕ)

theorem cell_eq {index : ℕ} (h : index < maxIndex) : cell index = index := by
  have hsmall : index < 2 ^ 32 := h.trans (by decide)
  rw [cell, Nat.mod_eq_of_lt hsmall]
  have hbits : index < 2 ^ hybridBits.indexBits := hsmall
  exact getHandleIndex_makeHandle hbits 1 1

theorem get_new : (new Data).get index = none := by
  simp [new, get]

theorem lt_length_resize (mItems : List (Option Data)) : index < (resize index mItems).length := by
  unfold resize
  split_ifs with hroom
  · rw [List.length_append, List.length_replicate]
    omega
  · omega

/-- What is appended is not live. -/
theorem join_resize (mItems : List (Option Data)) (other : ℕ) :
    (resize index mItems)[other]?.join = mItems[other]?.join := by
  unfold resize
  split_ifs with hroom
  · by_cases hlt : other < mItems.length
    · rw [List.getElem?_append_left hlt]
    · have hnone : mItems[other]? = none := List.getElem?_eq_none (by omega)
      rw [List.getElem?_append_right (by omega), hnone, List.getElem?_replicate]
      split_ifs <;> rfl
  · rfl

theorem get_add (components : HybridComponentManager Data) (index : ℕ) (data : Data) :
    (components.add index data).get = Function.update components.get index (some data) := by
  funext other
  by_cases heq : other = index
  · subst heq
    rw [update_self]
    by_cases hindex : other < maxIndex
    · simp only [add, get, if_pos hindex, List.getElem?_set_self (lt_length_resize _ _), Option.join_some]
    · simp only [add, get, if_neg hindex, Finmap.lookup_insert]
  · rw [update_of_ne heq]
    by_cases hindex : index < maxIndex <;> by_cases hother : other < maxIndex
    · simp only [add, get, if_pos hindex, if_pos hother, cell_eq hindex, cell_eq hother,
        List.getElem?_set_ne (Ne.symm heq), join_resize]
    · simp only [add, get, if_pos hindex, if_neg hother]
    · simp only [add, get, if_neg hindex, if_pos hother]
    · simp only [add, get, if_neg hindex, if_neg hother, Finmap.lookup_insert_of_ne _ heq]

theorem get_remove (components : HybridComponentManager Data) (index : ℕ) :
    (components.remove index).get = Function.update components.get index none := by
  funext other
  by_cases heq : other = index
  · subst heq
    rw [update_self]
    by_cases hindex : other < maxIndex
    · simp only [remove, get, if_pos hindex, List.getElem?_set_self']
      cases components.mItems[cell other]? <;> rfl
    · simp only [remove, get, if_neg hindex, Finmap.lookup_erase]
  · rw [update_of_ne heq]
    by_cases hindex : index < maxIndex <;> by_cases hother : other < maxIndex
    · simp only [remove, get, if_pos hindex, if_pos hother, cell_eq hindex, cell_eq hother,
        List.getElem?_set_ne (Ne.symm heq)]
    · simp only [remove, get, if_pos hindex, if_neg hother]
    · simp only [remove, get, if_neg hindex, if_pos hother]
    · simp only [remove, get, if_neg hindex, if_neg hother, Finmap.lookup_erase_ne heq]

theorem mem_keys {components : HybridComponentManager Data} {index : ℕ} {data : Data}
    (h : components.get index = some data) : index ∈ components.keys := by
  unfold get at h
  rw [keys, Finset.mem_union]
  split_ifs at h with hindex
  · rw [cell_eq hindex] at h
    have hitem := Option.join_eq_some_iff.mp h
    exact .inl (Finset.mem_range.mpr (List.getElem?_eq_some_iff.mp hitem).1)
  · exact .inr (Finmap.mem_keys.mpr (Finmap.mem_of_lookup_eq_some h))

end HybridComponentManager

open HybridComponentManager

/-! ## `NameSpace` -/

/-- A `NamedObject` is given by its global name. -/
structure NameSpace where
  m_nextName : UInt64
  m_localToGlobalMap : HybridComponentManager ℕ
  m_globalToLocalMap : HybridComponentManager UInt64

namespace NameSpace

def new : NameSpace := ⟨0, .new ℕ, .new UInt64⟩

/-- The global name of a local name, if it is in use. -/
def globalName (space : NameSpace) (localName : UInt64) : Option ℕ := space.m_localToGlobalMap.get localName.toNat

def localName (space : NameSpace) (globalName : ℕ) : Option UInt64 := space.m_globalToLocalMap.get globalName

def getGlobalName (space : NameSpace) (p_localName : UInt64) : ℕ := (space.globalName p_localName).getD 0

def getLocalName (space : NameSpace) (p_globalName : ℕ) : UInt64 := (space.localName p_globalName).getD 0

/-- The loop that looks for a local name; its fuel is the number of names. -/
def nextName (space : NameSpace) : ℕ → UInt64 → Option UInt64
  | 0, _ => none
  | fuel + 1, m_nextName =>
    let localName := m_nextName + 1
    if localName = 0 ∨ (space.globalName localName).isSome then nextName space fuel localName
    else some localName

/-- A name and its object go into both maps. -/
def bind (localName : UInt64) (globalName : ℕ) (space : NameSpace) : NameSpace := { space with
    m_localToGlobalMap := space.m_localToGlobalMap.add localName.toNat globalName
    m_globalToLocalMap := space.m_globalToLocalMap.add globalName localName }

/-- `globalName` is the name that the new `NamedObject` gets from the driver. -/
def genName (globalName : ℕ) (p_localName : UInt64) (genLocal : Bool) (space : NameSpace) :
    Option (UInt64 × NameSpace) :=
  if genLocal then
    (space.nextName (2 ^ 64) space.m_nextName).map fun localName ↦
      (localName, { space with m_nextName := localName }.bind localName globalName)
  else some (p_localName, space.bind p_localName globalName)

def deleteName (p_localName : UInt64) (space : NameSpace) : NameSpace :=
  match space.globalName p_localName with
  | none => space
  | some globalName =>
    { space with
      m_globalToLocalMap := space.m_globalToLocalMap.remove globalName
      m_localToGlobalMap := space.m_localToGlobalMap.remove p_localName.toNat }

def setGlobalObject (p_localName : UInt64) (p_namedObject : ℕ) (space : NameSpace) : NameSpace :=
  match space.globalName p_localName with
  | none => space.bind p_localName p_namedObject
  | some globalName =>
    { space with m_globalToLocalMap := space.m_globalToLocalMap.remove globalName }.bind p_localName p_namedObject

def replaceGlobalObject (p_localName : UInt64) (p_namedObject : ℕ) (space : NameSpace) : NameSpace :=
  match space.globalName p_localName with
  | none => space
  | some globalName =>
    { space with m_globalToLocalMap := space.m_globalToLocalMap.remove globalName }.bind p_localName p_namedObject

end NameSpace

inductive Call where
  | genName (globalName : ℕ) (p_localName : UInt64) (genLocal : Bool)
  | setGlobalObject (p_localName : UInt64) (p_namedObject : ℕ)
  | replaceGlobalObject (p_localName : UInt64) (p_namedObject : ℕ)
  | deleteName (p_localName : UInt64)

def step : Call → NameSpace → Option NameSpace
  | .genName globalName name genLocal, space => (space.genName globalName name genLocal).map Prod.snd
  | .setGlobalObject name object, space => some (space.setGlobalObject name object)
  | .replaceGlobalObject name object, space => some (space.replaceGlobalObject name object)
  | .deleteName name, space => some (space.deleteName name)

/-- No other name in use stands for the object of this name. -/
def AloneOnObject (name : UInt64) (space : NameSpace) : Prop :=
  ∀ other ∈ space.m_localToGlobalMap.keys, other ≠ name.toNat →
    space.m_localToGlobalMap.get other ≠ space.globalName name

/-- Names that share an object are neither deleted nor bound to another one, and the name that is
kept for an object is not generated again. -/
def LeavesShared : Call → NameSpace → Prop
  | .genName globalName name genLocal, space =>
    genLocal = true ∨ ∀ old ∈ space.globalName name, old = globalName ∨ space.localName old ≠ some name
  | .setGlobalObject name object, space | .replaceGlobalObject name object, space =>
    space.globalName name = none ∨ space.globalName name = some object ∨ AloneOnObject name space
  | .deleteName name, space => space.globalName name = none ∨ AloneOnObject name space

/-! ## The maps agree -/

def Agrees (space : NameSpace) : Prop := Agree space.globalName space.localName

variable {space next : NameSpace} {name : UInt64} {globalName : ℕ}

open NameSpace

variable {object : ℕ}

section

variable (components : HybridComponentManager ℕ) (m_nextName : UInt64) (back : HybridComponentManager UInt64)

theorem globalName_add : NameSpace.globalName ⟨m_nextName, components.add name.toNat globalName, back⟩ =
      Function.update (NameSpace.globalName ⟨m_nextName, components, back⟩) name (some globalName) := by
  funext other
  simp only [NameSpace.globalName, get_add]
  by_cases heq : other = name
  · rw [heq, update_self, update_self]
  · rw [update_of_ne heq, update_of_ne fun h ↦ heq (UInt64.toNat_inj.mp h)]
    rfl

theorem globalName_remove : NameSpace.globalName ⟨m_nextName, components.remove name.toNat, back⟩ =
      Function.update (NameSpace.globalName ⟨m_nextName, components, back⟩) name none := by
  funext other
  simp only [NameSpace.globalName, get_remove]
  by_cases heq : other = name
  · rw [heq, update_self, update_self]
  · rw [update_of_ne heq, update_of_ne fun h ↦ heq (UInt64.toNat_inj.mp h)]
    rfl

end

theorem globalName_bind (space : NameSpace) (name : UInt64) (globalName : ℕ) :
    (space.bind name globalName).globalName = Function.update space.globalName name (some globalName) :=
  globalName_add _ _ _

theorem localName_bind (space : NameSpace) (name : UInt64) (globalName : ℕ) :
    (space.bind name globalName).localName = Function.update space.localName globalName (some name) :=
  get_add _ _ _

theorem forall_ne_of_aloneOnObject {old : ℕ} (halone : AloneOnObject name space)
    (hname : space.globalName name = some old) : ∀ other, other ≠ name → space.globalName other ≠ some old := by
  intro other hne hother
  refine halone other.toNat (mem_keys hother) ?_ (hother.trans hname.symm)
  exact fun heq ↦ hne (UInt64.toNat_inj.mp heq)

theorem agrees_new : Agrees NameSpace.new := by
  have hforth : NameSpace.new.globalName = fun _ ↦ none := by
    funext other
    exact get_new _
  have hback : NameSpace.new.localName = fun _ ↦ none := by
    funext other
    exact get_new _
  rw [Agrees, hforth, hback]
  exact agree_none

/-- A name that the map back does not lead to from another object is bound. -/
theorem Agrees.bind (h : Agrees space) (hfree : ∀ other, space.localName other = some name → other = globalName) :
    Agrees (space.bind name globalName) := by
  rw [Agrees, globalName_bind, localName_bind]
  exact Agree.bind h hfree

/-- A name in use is bound to another object. -/
theorem Agrees.rebind (h : Agrees space) {old : ℕ} (hname : space.globalName name = some old)
    (halone : old ≠ object → AloneOnObject name space) :
    Agrees ({ space with m_globalToLocalMap := space.m_globalToLocalMap.remove old }.bind name object) := by
  rw [Agrees, globalName_bind, localName_bind]
  have hback : NameSpace.localName { space with m_globalToLocalMap := space.m_globalToLocalMap.remove old } =
      Function.update space.localName old none :=
    get_remove _ _
  rw [hback]
  exact Agree.rebind h hname fun hne ↦ forall_ne_of_aloneOnObject (halone hne) hname

theorem Agrees.deleteName (h : Agrees space) (hguard : space.globalName name = none ∨ AloneOnObject name space) :
    Agrees (space.deleteName name) := by
  unfold NameSpace.deleteName
  cases hname : space.globalName name with
  | none => exact h
  | some old =>
    obtain hnone | halone := hguard
    · rw [hname] at hnone
      cases hnone
    · have hback : NameSpace.localName { space with
            m_globalToLocalMap := space.m_globalToLocalMap.remove old
            m_localToGlobalMap := space.m_localToGlobalMap.remove name.toNat } =
          Function.update space.localName old none :=
        get_remove _ _
      have hforth : NameSpace.globalName { space with
            m_globalToLocalMap := space.m_globalToLocalMap.remove old
            m_localToGlobalMap := space.m_localToGlobalMap.remove name.toNat } =
          Function.update space.globalName name none :=
        globalName_remove _ _ _
      rw [Agrees]
      simp only
      rw [hforth, hback]
      exact Agree.unbind h hname (forall_ne_of_aloneOnObject halone hname)

theorem nextName_spec {fuel : ℕ} {start : UInt64} (h : space.nextName fuel start = some name) :
    name ≠ 0 ∧ space.globalName name = none := by
  induction fuel generalizing start with
  | zero => cases h
  | succ fuel ih =>
    simp only [NameSpace.nextName] at h
    split_ifs at h with htaken
    · exact ih h
    · cases h
      obtain ⟨hzero, hfree⟩ := not_or.mp htaken
      exact ⟨hzero, by simpa using hfree⟩

section

variable (h : Agrees space)
include h

theorem Agrees.localName_ne (hfree : space.globalName name = none) (other : ℕ) :
    space.localName other ≠ some name := by
  intro hother
  have hused := h.forth_of_back other name hother
  rw [hfree] at hused
  cases hused

theorem Agrees.genName {given : UInt64} {genLocal : Bool}
    (hguard : LeavesShared (.genName globalName given genLocal) space)
    (hgen : space.genName globalName given genLocal = some (name, next)) : Agrees next := by
  unfold NameSpace.genName at hgen
  split_ifs at hgen with hlocal
  · obtain ⟨found, hfound, hresult⟩ := Option.map_eq_some_iff.mp hgen
    obtain ⟨rfl, rfl⟩ := Prod.mk.inj hresult
    have hstart : Agrees { space with m_nextName := found } := h
    refine hstart.bind fun other hother ↦ ?_
    exact absurd hother (hstart.localName_ne (nextName_spec hfound).2 other)
  · cases hgen
    refine h.bind fun other hother ↦ ?_
    obtain htrue | hkept := hguard
    · exact absurd htrue hlocal
    · exact (hkept other (h.forth_of_back other _ hother)).resolve_right fun hne ↦ hne hother

theorem Agrees.setGlobalObject (hguard : LeavesShared (.setGlobalObject name object) space) :
    Agrees (space.setGlobalObject name object) := by
  unfold NameSpace.setGlobalObject
  cases hname : space.globalName name with
  | none => exact h.bind fun other hother ↦ absurd hother (h.localName_ne hname other)
  | some old =>
    refine h.rebind hname fun hne ↦ ?_
    obtain hnone | hsame | halone := hguard
    · rw [hname] at hnone
      cases hnone
    · exact absurd (Option.some.inj (hname.symm.trans hsame)) hne
    · exact halone

theorem Agrees.replaceGlobalObject (hguard : LeavesShared (.replaceGlobalObject name object) space) :
    Agrees (space.replaceGlobalObject name object) := by
  have hset : LeavesShared (.setGlobalObject name object) space := hguard
  have hsame := h.setGlobalObject hset
  unfold NameSpace.setGlobalObject at hsame
  unfold NameSpace.replaceGlobalObject
  cases hname : space.globalName name with
  | none => exact h
  | some old =>
    rw [hname] at hsame
    exact hsame

theorem Agrees.step {call : Call} (hguard : LeavesShared call space) (hstep : step call space = some next) :
    Agrees next := by
  cases call with
  | genName globalName given genLocal =>
    obtain ⟨⟨name, last⟩, hgen, rfl⟩ := Option.map_eq_some_iff.mp hstep
    exact h.genName hguard hgen
  | setGlobalObject name object =>
    cases hstep
    exact h.setGlobalObject hguard
  | replaceGlobalObject name object =>
    cases hstep
    exact h.replaceGlobalObject hguard
  | deleteName name =>
    cases hstep
    exact h.deleteName hguard

end

theorem agrees_of_run {calls : List Call} {space : NameSpace} (hguard : Guarded step LeavesShared NameSpace.new calls)
    (hrun : run step NameSpace.new calls = some space) : Agrees space :=
  invariant_of_guarded Agrees (fun _ _ _ h hguard hstep ↦ h.step hguard hstep) agrees_new hguard hrun

/-- As long as names that share an object stay with it, going to the global name and back leads to a
name in use for the same object, no deleted name is found from a global name, and a generated name
is new and not 0. -/
theorem names_roundTrip_of_leavesShared (calls : List Call) (space : NameSpace)
    (hguard : Guarded step LeavesShared NameSpace.new calls)
    (hrun : run step NameSpace.new calls = some space) :
    (∀ name globalName, space.globalName name = some globalName →
      space.globalName (space.getLocalName (space.getGlobalName name)) = some globalName) ∧
    (∀ globalName name, space.localName globalName = some name → (space.globalName name).isSome) ∧
    ∀ globalName given name next, space.genName globalName given true = some (name, next) →
      name ≠ 0 ∧ space.globalName name = none := by
  have h := agrees_of_run hguard hrun
  refine ⟨?_, ?_, ?_⟩
  · intro name globalName hname
    obtain ⟨kept, hkept⟩ := h.back_of_forth name globalName hname
    rw [getGlobalName, hname, Option.getD_some, getLocalName, hkept, Option.getD_some]
    exact h.forth_of_back globalName kept hkept
  · intro globalName name hname
    rw [h.forth_of_back globalName name hname]
    rfl
  · intro globalName given name next hgen
    simp only [NameSpace.genName, if_true, Option.map_eq_some_iff, Prod.mk.injEq] at hgen
    obtain ⟨found, hfound, rfl, _⟩ := hgen
    exact nextName_spec hfound

instance (name : UInt64) (space : NameSpace) : Decidable (AloneOnObject name space) :=
  inferInstanceAs (Decidable (∀ other ∈ space.m_localToGlobalMap.keys, other ≠ name.toNat →
    space.m_localToGlobalMap.get other ≠ space.globalName name))

instance decidableLeavesShared : ∀ call space, Decidable (LeavesShared call space)
  | .genName globalName name genLocal, space =>
    inferInstanceAs (Decidable (genLocal = true ∨
      ∀ old ∈ space.globalName name, old = globalName ∨ space.localName old ≠ some name))
  | .setGlobalObject name object, space | .replaceGlobalObject name object, space =>
    inferInstanceAs (Decidable (space.globalName name = none ∨ space.globalName name = some object ∨
      AloneOnObject name space))
  | .deleteName name, space =>
    inferInstanceAs (Decidable (space.globalName name = none ∨ AloneOnObject name space))

/-- Two textures are generated and both become targets of the EGL image with the texture 7. -/
def imageCalls : List Call :=
  [.genName 3 0 true, .genName 4 0 true, .replaceGlobalObject 1 7, .replaceGlobalObject 2 7]

theorem names_roundTrip_image :
    ∃ space, Guarded step LeavesShared NameSpace.new imageCalls ∧
      run step NameSpace.new imageCalls = some space ∧ space.globalName 1 = some 7 ∧
      space.globalName (space.getLocalName (space.getGlobalName 1)) = some 7 := by
  have hguard : Guarded step LeavesShared NameSpace.new imageCalls := by decide +kernel
  have hnames : (run step NameSpace.new imageCalls).map (fun space ↦ space.globalName 1) =
      some (some 7) := by decide +kernel
  obtain ⟨space, hrun, hname⟩ := Option.map_eq_some_iff.mp hnames
  obtain ⟨hback, _, _⟩ := names_roundTrip_of_leavesShared imageCalls space hguard hrun
  exact ⟨space, hguard, hrun, hname, hback 1 7 hname⟩

/-- One of the two textures is deleted: the other one is no longer found from its global name. -/
theorem shared_name_lost :
    ∃ space, run step NameSpace.new (imageCalls ++ [.deleteName 2]) = some space ∧
      space.globalName 1 = some 7 ∧
      ¬ ∀ name globalName, space.globalName name = some globalName →
        space.globalName (space.getLocalName (space.getGlobalName name)) = some globalName := by
  have hnames : (run step NameSpace.new (imageCalls ++ [.deleteName 2])).map (fun space ↦
      (space.globalName 1, space.globalName (space.getLocalName (space.getGlobalName 1)))) =
        some (some 7, none) := by decide +kernel
  obtain ⟨space, hrun, hname⟩ := Option.map_eq_some_iff.mp hnames
  obtain ⟨hused, hlost⟩ := Prod.mk.inj hname
  refine ⟨space, hrun, hused, fun h ↦ ?_⟩
  rw [h 1 7 hused] at hlost
  cases hlost

end FdeEmugl.Names
