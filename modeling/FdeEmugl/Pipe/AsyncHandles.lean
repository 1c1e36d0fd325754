import FdeEmugl.Library.Runs
import Mathlib.Algebra.Group.Nat.Defs
import Mathlib.Algebra.Order.Group.Int
import Mathlib.Data.List.AList

/-!
# The handles of asynchronous pipes

A service of asynchronous pipes keeps its pipes under ids from a counter, which snapshots save and set back. A
loaded pipe brings its own id. The handles stay right in every run that sets the counter back only above the
ids in use, and that loads pipes under free ids below the counter.
-/

namespace FdeEmugl.AsyncHandles

open Runs

/-! ## The streams of the services -/

/-- `findServicePositionByName`: the search begins at the hint and goes on from the beginning. -/
def findServicePositionByName (services : List (List UInt8)) (name : List UInt8) (startPosHint : ℕ) : Option ℕ :=
  match (services.drop startPosHint).findIdx? (· = name) with
  | some position => some (startPosHint + position)
  | none => (services.take startPosHint).findIdx? (· = name)

/-- The services found for the entries of a snapshot, each searched for behind the last one found. -/
def found {Saved : Type} (services : List (List UInt8)) : Option ℕ → List (List UInt8 × Saved) → List (ℕ × Saved)
  | _, [] => []
  | servicePos, (name, saved) :: rest =>
    match findServicePositionByName services name (servicePos.elim 0 Nat.succ) with
    | none => found services none rest
    | some position => (position, saved) :: found services (some position) rest

/-- The calls of the function: one for every entry with a service, and one without a stream for every service
that had none. -/
def forEachServiceFromStream {Saved : Type} (services : List (List UInt8)) (stream : List (List UInt8 × Saved)) :
    List (ℕ × Option Saved) :=
  let calls := found services none stream
  calls.map (fun call ↦ (call.1, some call.2)) ++
    ((List.range services.length).filter fun position ↦ position ∉ calls.map Prod.fst).map fun position ↦ (position, none)

section Found

variable {Saved : Type} {services : List (List UInt8)} {name : List UInt8} {position hint : ℕ}

theorem getElem?_of_findIdx? (h : services.findIdx? (· = name) = some position) : services[position]? = some name := by
  obtain ⟨hlt, hname, -⟩ := List.findIdx?_eq_some_iff_getElem.mp h
  rw [List.getElem?_eq_getElem hlt, of_decide_eq_true hname]

theorem getElem?_of_find (h : findServicePositionByName services name hint = some position) :
    services[position]? = some name := by
  unfold findServicePositionByName at h
  split at h
  · rename_i offset hoffset
    cases h
    rw [← List.getElem?_drop]
    exact getElem?_of_findIdx? hoffset
  · have hlt : position < hint := by
      obtain ⟨hlt, -⟩ := List.findIdx?_eq_some_iff_getElem.mp h
      exact (List.length_take_le hint services).trans_lt' hlt
    rw [← List.getElem?_take_of_lt hlt]
    exact getElem?_of_findIdx? h

theorem exists_find (h : name ∈ services) (hint : ℕ) :
    ∃ position, findServicePositionByName services name hint = some position := by
  unfold findServicePositionByName
  split
  · exact ⟨_, rfl⟩
  · rename_i hdrop
    refine Option.isSome_iff_exists.mp (List.findIdx?_isSome.trans (List.any_eq_true.mpr ⟨name, ?_, by simp⟩))
    rw [← List.take_append_drop hint services] at h
    refine (List.mem_append.mp h).resolve_right fun hmem ↦ ?_
    exact absurd (List.findIdx?_eq_none_iff.mp hdrop name hmem) (by simp)

theorem mem_found (hnodup : services.Nodup) (h : services[position]? = some name) (servicePos : Option ℕ)
    (stream : List (List UInt8 × Saved)) :
    position ∈ (found services servicePos stream).map Prod.fst ↔ name ∈ stream.map Prod.fst := by
  induction stream generalizing servicePos with
  | nil => exact iff_of_false List.not_mem_nil List.not_mem_nil
  | cons entry rest ih =>
    obtain ⟨other, saved⟩ := entry
    rw [List.map_cons, List.mem_cons, found]
    cases hfind : findServicePositionByName services other (servicePos.elim 0 Nat.succ) with
    | none =>
      have hne : name ≠ other := by
        rintro rfl
        obtain ⟨_, hsome⟩ := exists_find (List.mem_of_getElem? h) (servicePos.elim 0 Nat.succ)
        rw [hfind] at hsome
        cases hsome
      simp only [hne, false_or]
      exact ih none
    | some place =>
      have hplace := getElem?_of_find hfind
      have hsame : position = place ↔ name = other := by
        constructor
        · rintro rfl
          rw [h] at hplace
          exact Option.some.inj hplace
        · rintro rfl
          obtain ⟨hlt, -⟩ := List.getElem?_eq_some_iff.mp h
          exact (List.getElem?_inj hlt hnodup).mp (h.trans hplace.symm)
      rw [List.map_cons, List.mem_cons, hsame]
      exact or_congr_right (ih (some place))

end Found

/-! ## A service -/

/-- Four bytes of a stream as an `int`. -/
def toInt (bits : UInt32) : ℤ := (bits.toNat : ℤ).bmod (2 ^ 32)

/-- A pipe knows its handle; which object it is tells it from the others. -/
structure Pipe where
  id : ℤ
  object : ℕ
deriving DecidableEq

/-- `opened` are the pipes that the guest has not closed, `made` counts the objects, and `readNull` is set when a
null stream has been read. -/
structure Service where
  mNextId : ℤ
  mPipes : AList fun _ : ℤ ↦ ℕ
  opened : List Pipe
  made : ℕ
  readNull : Bool

namespace Service

variable (s : Service)

def new : Service := ⟨0, ∅, [], 0, false⟩

def getPipe (id : ℤ) : Option ℕ := s.mPipes.lookup id

def createPipeUnderLock (id : ℤ) : Service :=
  { s with mPipes := s.mPipes.insert id s.made, opened := ⟨id, s.made⟩ :: s.opened, made := s.made + 1 }

def create : ℤ × Service :=
  (s.mNextId, { s with mNextId := (s.mNextId + 1).bmod (2 ^ 32) }.createPipeUnderLock s.mNextId)

/-- The id comes from the stream. -/
def load (id : UInt32) : Service := s.createPipeUnderLock (toInt id)

def destroyPipe (id : ℤ) : Service := { s with mPipes := s.mPipes.erase id }

def onGuestClose (pipe : Pipe) : Service := { s.destroyPipe pipe.id with opened := s.opened.erase pipe }

def preSave : UInt32 := UInt32.ofNat (s.mNextId % 2 ^ 32).toNat

/-- What a null stream would give cannot be said. -/
def preLoad : Option UInt32 → Service
  | some bits => { s with mNextId := toInt bits }
  | none => { s with readNull := true }

end Service

inductive ServiceLabel where
  | create
  | load (id : UInt32)
  | close (pipe : Pipe)
  | preSave
  | preLoad (stream : Option UInt32)
deriving DecidableEq

/-- Nothing follows once a null stream has been read. -/
def serviceStep (label : ServiceLabel) (s : Service) : Option Service :=
  if s.readNull then none
  else
    match label with
    | .create => some s.create.2
    | .load id => some (s.load id)
    | .close pipe => if pipe ∈ s.opened then some (s.onGuestClose pipe) else none
    | .preSave => some s
    | .preLoad stream => some (s.preLoad stream)

namespace Service

variable {s : Service}

/-- The invariant. -/
structure Sound (s : Service) : Prop where
  getPipe_iff : ∀ id object, s.getPipe id = some object ↔ ⟨id, object⟩ ∈ s.opened
  below : ∀ id ∈ s.mPipes, id < s.mNextId
  range : -2 ^ 31 ≤ s.mNextId ∧ s.mNextId < 2 ^ 31
  fresh : ∀ pipe ∈ s.opened, pipe.object < s.made
  nodup : s.opened.Nodup
  notNull : s.readNull = false

theorem sound_new : new.Sound where
  getPipe_iff _ _ := iff_of_false nofun List.not_mem_nil
  below id hid := absurd hid (AList.notMem_empty id)
  range := by decide
  fresh _ hpipe := nomatch hpipe
  nodup := .nil
  notNull := rfl

theorem Sound.createPipeUnderLock (h : s.Sound) {id : ℤ} (hfree : id ∉ s.mPipes) (hbelow : id < s.mNextId) :
    (s.createPipeUnderLock id).Sound where
  getPipe_iff other object := by
    change (s.mPipes.insert id s.made).lookup other = some object ↔ (⟨other, object⟩ : Pipe) ∈ ⟨id, s.made⟩ :: s.opened
    rw [List.mem_cons, Pipe.mk.injEq]
    by_cases heq : other = id
    · rw [heq, AList.lookup_insert, ← h.getPipe_iff, getPipe, AList.lookup_eq_none.mpr hfree]
      simp [eq_comm]
    · rw [AList.lookup_insert_ne heq, ← h.getPipe_iff]
      simp [heq, getPipe]
  below other hother := by
    obtain rfl | hother := (AList.mem_insert _).mp hother
    · exact hbelow
    · exact h.below other hother
  range := h.range
  fresh pipe hpipe := by
    obtain rfl | hpipe := List.mem_cons.mp hpipe
    · exact Nat.lt_succ_self s.made
    · exact Nat.lt_succ_of_lt (h.fresh pipe hpipe)
  nodup := List.nodup_cons.mpr ⟨fun hmem ↦ Nat.lt_irrefl s.made (h.fresh _ hmem), h.nodup⟩
  notNull := h.notNull

theorem Sound.raise (h : s.Sound) {mNextId : ℤ} (hbelow : ∀ id ∈ s.mPipes, id < mNextId)
    (hrange : -2 ^ 31 ≤ mNextId ∧ mNextId < 2 ^ 31) : ({ s with mNextId } : Service).Sound :=
  ⟨h.getPipe_iff, hbelow, hrange, h.fresh, h.nodup, h.notNull⟩

theorem Sound.next_not_mem (h : s.Sound) : s.mNextId ∉ s.mPipes := fun hmem ↦
  absurd (h.below s.mNextId hmem) (Int.lt_irrefl s.mNextId)

theorem Sound.onGuestClose (h : s.Sound) {pipe : Pipe} (hpipe : pipe ∈ s.opened) : (s.onGuestClose pipe).Sound where
  getPipe_iff id object := by
    change (s.mPipes.erase pipe.id).lookup id = some object ↔ (⟨id, object⟩ : Pipe) ∈ s.opened.erase pipe
    rw [h.nodup.mem_erase_iff, ← h.getPipe_iff]
    by_cases heq : id = pipe.id
    · have hown : s.getPipe pipe.id = some pipe.object := (h.getPipe_iff pipe.id pipe.object).mpr hpipe
      rw [heq, AList.lookup_erase, hown]
      refine iff_of_false nofun fun ⟨hne, hobject⟩ ↦ hne ?_
      rw [← Option.some.inj hobject]
    · have hne : (⟨id, object⟩ : Pipe) ≠ pipe := fun hsame ↦ heq (congrArg Pipe.id hsame)
      rw [AList.lookup_erase_ne heq]
      exact (and_iff_right hne).symm
  below id hid := h.below id (AList.mem_erase.mp hid).2
  range := h.range
  fresh other hother := h.fresh other (List.mem_of_mem_erase hother)
  nodup := h.nodup.erase pipe
  notNull := h.notNull

/-- What is to hold of the handles. -/
structure HandlesRight (s : Service) : Prop where
  getPipe_iff : ∀ id object, s.getPipe id = some object ↔ ⟨id, object⟩ ∈ s.opened
  create_new : s.create.1 ∉ s.mPipes
  notNull : s.readNull = false

theorem Sound.handlesRight (h : s.Sound) : s.HandlesRight := ⟨h.getPipe_iff, h.next_not_mem, h.notNull⟩

end Service

/-- The condition under which a step keeps the handles. -/
def KeepsHandles : ServiceLabel → Service → Prop
  | .create, s => s.mNextId < 2 ^ 31 - 1
  | .load id, s => toInt id ∉ s.mPipes ∧ toInt id < s.mNextId
  | .preLoad none, _ => False
  | .preLoad (some bits), s => ∀ id ∈ s.mPipes.keys, id < toInt bits
  | _, _ => True

instance decidableKeepsHandles : ∀ label s, Decidable (KeepsHandles label s)
  | .create, _ => inferInstanceAs (Decidable (_ < _))
  | .load _, _ => inferInstanceAs (Decidable (_ ∧ _))
  | .preLoad none, _ => isFalse id
  | .preLoad (some _), _ => inferInstanceAs (Decidable (∀ _ ∈ _, _))
  | .close _, _ | .preSave, _ => isTrue trivial

theorem toInt_range (bits : UInt32) : -2 ^ 31 ≤ toInt bits ∧ toInt bits < 2 ^ 31 := by
  have hlow := Int.le_bmod (x := (bits.toNat : ℤ)) (m := 2 ^ 32) (by decide)
  have hhigh := Int.bmod_lt (x := (bits.toNat : ℤ)) (m := 2 ^ 32) (by decide)
  unfold toInt
  omega

namespace Service

variable {s : Service}

theorem Sound.create (h : s.Sound) (hlt : s.mNextId < 2 ^ 31 - 1) : s.create.2.Sound := by
  have hrange := h.range
  have hnext : (s.mNextId + 1).bmod (2 ^ 32) = s.mNextId + 1 := by
    apply Int.bmod_eq_of_le <;> omega
  have hraised : ({ s with mNextId := (s.mNextId + 1).bmod (2 ^ 32) } : Service).Sound := by
    rw [hnext]
    refine h.raise (fun id hid ↦ ?_) (by omega)
    have := h.below id hid
    omega
  refine hraised.createPipeUnderLock h.next_not_mem ?_
  dsimp only
  omega

theorem Sound.step (h : s.Sound) {label : ServiceLabel} (hkeeps : KeepsHandles label s) {next : Service}
    (hstep : serviceStep label s = some next) : next.Sound := by
  unfold serviceStep at hstep
  rw [if_neg (by simp [h.notNull])] at hstep
  cases label with
  | create => exact Option.some.inj hstep ▸ h.create hkeeps
  | load id => exact Option.some.inj hstep ▸ h.createPipeUnderLock hkeeps.1 hkeeps.2
  | close pipe =>
    dsimp only at hstep
    split_ifs at hstep with hopened
    exact Option.some.inj hstep ▸ h.onGuestClose hopened
  | preSave => exact Option.some.inj hstep ▸ h
  | preLoad stream =>
    cases stream with
    | none => exact hkeeps.elim
    | some bits => exact Option.some.inj hstep ▸ h.raise hkeeps (toInt_range bits)

/-- In a run of steps that keep the handles, the handles are right. -/
theorem handlesRight_of_keepsHandles (labels : List ServiceLabel) {last : Service}
    (hkeeps : Guarded serviceStep KeepsHandles new labels) (hrun : run serviceStep new labels = some last) :
    last.HandlesRight :=
  Sound.handlesRight <| invariant_of_guarded Sound (fun _ _ _ hsound hkeeps hstep ↦ hsound.step hkeeps hstep)
    sound_new hkeeps hrun

/-- Two pipes are closed, the counter is set back, and the first one is loaded. -/
def reloadRun : List ServiceLabel :=
  [.create, .preSave, .create, .close ⟨0, 0⟩, .close ⟨1, 1⟩, .preLoad (some 1), .load 0, .create]

theorem handlesRight_reloadRun :
    ∃ last, run serviceStep new reloadRun = some last ∧ last.opened = [⟨1, 3⟩, ⟨0, 2⟩] ∧ last.HandlesRight :=
  ⟨_, rfl, by decide, handlesRight_of_keepsHandles reloadRun (by decide) rfl⟩

/-- The counter is set back while two pipes are open, and the next pipe takes the place of the second one. A service
that is not in the snapshot reads from a null stream. -/
theorem replaced_after_preLoad :
    (∃ last, run serviceStep new [.create, .preSave, .create, .preLoad (some 1), .create] = some last ∧
        ⟨1, 1⟩ ∈ last.opened ∧ last.getPipe 1 = some 2) ∧
      forEachServiceFromStream [[97]] ([] : List (List UInt8 × UInt32)) = [(0, none)] ∧
        ∃ last, run serviceStep new [.preLoad none] = some last ∧ last.readNull :=
  ⟨⟨_, rfl, by decide, by decide⟩, rfl, _, rfl, rfl⟩

end Service

end FdeEmugl.AsyncHandles
