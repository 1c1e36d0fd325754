import FdeEmugl.Render.FenceSync
import FdeEmugl.Library.Shares

/-!
# The lifetime of fences

`mCount` is the number of references held by the guest, by the timeline and by the threads, except
while a fence is being deleted; then nobody else is concerned with it. The invariant consists of an
account of each fence that is there and of facts about the heap as a whole. A step concerns one
fence at most, and the accounts of all others are framed away at once.

A wait, and the sweep between its `decRef` and the flag, use a fence without a reference. The
invariant is kept as long as the last reference is not dropped meanwhile.
-/

namespace FdeEmugl.Fences

open Runs
open Function (update_of_ne update_self)
open State

variable {Thread : Type*}

/-! ## Who holds references -/

namespace Place

variable {place : Place} {fence : Pointer}

theorem references_nonneg (number : ℕ) (place : Place) : 0 ≤ place.references number := by
  unfold references
  split <;> first | split_ifs <;> decide | exact le_rfl

/-- A place is about one fence at most. -/
theorem references_eq_zero {number : ℕ} (h : ∀ fence ∈ place.pointer, fence.number ≠ number) :
    place.references number = 0 := by
  unfold references
  split <;> first | rfl | exact if_neg (h _ rfl)

theorem pointer_of_deleting (h : place.deleting = some fence) : place.pointer = some fence := by
  unfold deleting at h
  split at h <;> simp_all [pointer]

theorem pointer_of_building (h : place.building = some fence) : place.pointer = some fence := by
  unfold building at h
  split at h <;> simp_all [pointer]

theorem pointer_of_swept (h : place.swept = some fence) : place.pointer = some fence := by
  unfold swept at h
  split at h <;> simp_all [pointer]

/-- A thread that uses a fence has a reference to it, or is deleting it, or has none. -/
theorem references_pos (h : place.pointer = some fence) (hdeleting : place.deleting ≠ some fence)
    (huncounted : place.uncounted ≠ some fence) : 0 < place.references fence.number := by
  cases place with
  | idle | incrementing | sweeping _ => cases h
  | found other | reading other _ => exact absurd h huncounted
  | constructing other _ | loading other | adding other _ | waiting other =>
    cases h
    simp [references]
  | dropping other stage _ =>
    cases h
    cases stage with
    | test | decrement => simp [references]
    | destroy | free => exact absurd rfl hdeleting

/-- A caller whose `decRef` has deleted the fence has done with it. -/
theorem pointer_afterDecRef_true (fence : Pointer) (onSync : Bool) (caller : Caller) :
    (afterDecRef fence true onSync caller).pointer = none := by
  cases caller with
  | wait => cases onSync <;> rfl
  | rcDestroySyncKHR | sweepFirst _ | sweepSecond _ => rfl

/-- A caller whose `decRef` has not deleted the fence has no reference left. The first `decRef` of
the sweep goes on to the flag. -/
theorem afterDecRef_false (fence : Pointer) (onSync : Bool) (caller : Caller) (number : ℕ) :
    (∀ used ∈ (afterDecRef fence false onSync caller).pointer, used = fence) ∧
      (afterDecRef fence false onSync caller).deleting = none ∧
      (afterDecRef fence false onSync caller).building = none ∧
      ((afterDecRef fence false onSync caller).swept = some fence →
        (dropping fence .decrement caller).swept = some fence) ∧
      (afterDecRef fence false onSync caller).references number = 0 := by
  cases caller with
  | wait => cases onSync <;> exact ⟨nofun, rfl, rfl, nofun, rfl⟩
  | rcDestroySyncKHR | sweepSecond _ => exact ⟨nofun, rfl, rfl, nofun, rfl⟩
  | sweepFirst _ => exact ⟨fun used hused ↦ (Option.some.inj hused).symm, rfl, rfl, id, rfl⟩

end Place

open Place

section Holders

variable [Fintype Thread]

/-- The references to a fence: the guest's, the timeline's and those of the threads. -/
def references (s : State Thread) (fence : Pointer) : ℤ :=
  (if (s.guest fence.number).isSome then 1 else 0) +
    (if fence.address ∈ s.mFences.map Prod.fst then 1 else 0) +
    Shares.total (Place.references fence.number) s.threads

/-- What holds of every fence that was not deleted. -/
structure Account (s : State Thread) (fence : Pointer) : Prop where
  counted : (∀ thread, (s.threads thread).deleting ≠ some fence) → s.mCount fence = references s fence
  deleting : ∀ thread, (s.threads thread).deleting = some fence →
    s.guest fence.number = none ∧ fence.address ∉ s.mFences.map Prod.fst ∧ 0 ≤ s.mCount fence ∧
      ∀ other, other ≠ thread → (s.threads other).pointer ≠ some fence
  unregistered : ∀ thread caller, s.threads thread = .dropping fence .free caller → s.registry fence.address = false
  building : ∀ thread, (s.threads thread).building = some fence →
    s.registry fence.address = true ∧ fence.address ∉ s.mFences.map Prod.fst ∧ s.guest fence.number = none ∧
      (∀ other, other ≠ thread → (s.threads other).building ≠ some fence) ∧
      ∀ other, (s.threads other).swept ≠ some fence
  swept : ∀ thread, (s.threads thread).swept = some fence →
    thread = none ∧ fence.address ∉ s.mFences.map Prod.fst ∧
      (s.asked fence.number = true → (s.guest fence.number).isSome)
  keyed : fence.address ∈ s.mFences.map Prod.fst →
    s.registry fence.address = true ∧ (s.asked fence.number = true → (s.guest fence.number).isSome)
  guest : ∀ handle, s.guest fence.number = some handle → handle = fence.address ∧ s.registry fence.address = true

/-- The invariant of the fences. -/
structure Sound (s : State Thread) : Prop where
  clean : s.usedAfterDelete = false
  number_lt : ∀ fence, s.alive fence = true → fence.number < s.created
  unique : ∀ first second, s.alive first = true → s.alive second = true →
    first.number = second.number → first = second
  asked : ∀ fence, s.alive fence = true → s.shouldDestroyWhenSignaled fence = s.asked fence.number
  registered : ∀ address, s.registry address = true → ∃ number, s.alive ⟨address, number⟩ = true
  valid : ∀ thread fence, (s.threads thread).pointer = some fence → s.alive fence = true
  key_alive : ∀ address ∈ s.mFences.map Prod.fst, ∃ number, s.alive ⟨address, number⟩ = true
  guest_alive : ∀ number handle, s.guest number = some handle → s.alive ⟨handle, number⟩ = true
  account : ∀ fence, s.alive fence = true → Account s fence
  deletions_le : ∀ number, s.deletions number ≤ 1
  deleted : ∀ number, s.deletions number ≠ 0 → number < s.created ∧ ∀ address, s.alive ⟨address, number⟩ = false

section Frame

variable [DecidableEq Thread] {s next : State Thread} {thread : Option Thread} {place : Place}
  {fence : Pointer}

theorem references_of_update (fence : Pointer) (hthreads : next.threads = Function.update s.threads thread place) :
    Shares.total (Place.references fence.number) next.threads =
      Shares.total (Place.references fence.number) s.threads +
        (place.references fence.number - (s.threads thread).references fence.number) := by
  rw [hthreads, Shares.total_update]

omit [Fintype Thread] in
/-- Who is concerned with a fence after a thread moved to a place that is not. -/
theorem of_update (property : Place → Option Pointer)
    (hthreads : next.threads = Function.update s.threads thread place)
    (hplace : property place ≠ some fence) {other : Option Thread}
    (h : property (next.threads other) = some fence) :
    other ≠ thread ∧ property (s.threads other) = some fence := by
  rw [hthreads] at h
  by_cases heq : other = thread
  · rw [heq, update_self] at h
    exact absurd h hplace
  · rw [update_of_ne heq] at h
    exact ⟨heq, h⟩

section

variable (h : Account s fence) (hthreads : next.threads = Function.update s.threads thread place)
include h hthreads

/-- A step of a thread does not concern a fence that it uses neither before nor after. -/
theorem account_frame (hbefore : ∀ used ∈ (s.threads thread).pointer, used.number ≠ fence.number)
    (hafter : ∀ used ∈ place.pointer, used.number ≠ fence.number)
    (hcount : next.mCount fence = s.mCount fence) (hguest : next.guest fence.number = s.guest fence.number)
    (hkey : fence.address ∈ next.mFences.map Prod.fst ↔ fence.address ∈ s.mFences.map Prod.fst)
    (hregistry : next.registry fence.address = s.registry fence.address)
    (hasked : next.asked fence.number = s.asked fence.number) : Account next fence := by
  have hne : place.pointer ≠ some fence := fun hused ↦ hafter fence hused rfl
  have hne' : (s.threads thread).pointer ≠ some fence := fun hused ↦ hbefore fence hused rfl
  have hreferences : references next fence = references s fence := by
    rw [references, references, references_of_update fence hthreads, hguest,
      references_eq_zero hbefore, references_eq_zero hafter]
    simp only [hkey, sub_self, add_zero]
  have hdeleting : ∀ other, (next.threads other).deleting = some fence →
      (s.threads other).deleting = some fence := fun _ hused ↦
    (of_update Place.deleting hthreads (fun hdel ↦ hne (pointer_of_deleting hdel)) hused).2
  have hbuilding : ∀ other, (next.threads other).building = some fence →
      (s.threads other).building = some fence := fun _ hused ↦
    (of_update Place.building hthreads (fun hbuild ↦ hne (pointer_of_building hbuild)) hused).2
  have hswept : ∀ other, (next.threads other).swept = some fence →
      (s.threads other).swept = some fence := fun _ hused ↦
    (of_update Place.swept hthreads (fun hsweep ↦ hne (pointer_of_swept hsweep)) hused).2
  constructor
  · intro hnone
    rw [hcount, hreferences]
    refine h.counted fun other hdel ↦ ?_
    have hmoved : other ≠ thread := by
      rintro rfl
      exact hne' (pointer_of_deleting hdel)
    apply hnone other
    rwa [hthreads, update_of_ne hmoved]
  · intro other hdel
    obtain ⟨hnone, hnokey, hnonneg, halone⟩ := h.deleting other (hdeleting other hdel)
    refine ⟨hguest ▸ hnone, fun hmem ↦ hnokey (hkey.mp hmem), hcount ▸ hnonneg, ?_⟩
    exact fun third hthird hused ↦ halone third hthird (of_update pointer hthreads hne hused).2
  · intro other caller hfree
    rw [hregistry]
    refine h.unregistered other caller ?_
    rw [hthreads] at hfree
    by_cases heq : other = thread
    · rw [heq, update_self] at hfree
      exact absurd (congrArg pointer hfree) hne
    · rwa [update_of_ne heq] at hfree
  · intro other hbuild
    obtain ⟨hreg, hnokey, hnone, halone, hnoswept⟩ := h.building other (hbuilding other hbuild)
    refine ⟨hregistry ▸ hreg, fun hmem ↦ hnokey (hkey.mp hmem), hguest ▸ hnone, ?_, ?_⟩
    · exact fun third hthird hused ↦ halone third hthird (hbuilding third hused)
    · exact fun third hused ↦ hnoswept third (hswept third hused)
  · intro other hsweep
    obtain ⟨hsync, hnokey, hasks⟩ := h.swept other (hswept other hsweep)
    exact ⟨hsync, fun hmem ↦ hnokey (hkey.mp hmem), by rwa [hasked, hguest]⟩
  · intro hmem
    rw [hregistry, hasked, hguest]
    exact h.keyed (hkey.mp hmem)
  · intro handle hhandle
    rw [hregistry]
    exact h.guest handle (hguest ▸ hhandle)

/-- A thread goes on with its fence: nobody deletes the fence, and the thread's reference count
changes as the fence's does. -/
theorem account_move (hnone : ∀ other, (s.threads other).deleting ≠ some fence) (hplace : place.deleting ≠ some fence)
    (hbuilding : place.building = some fence → (s.threads thread).building = some fence)
    (hswept : place.swept = some fence → (s.threads thread).swept = some fence)
    (hcount : next.mCount fence = s.mCount fence + (place.references fence.number - (s.threads thread).references fence.number))
    (hguest : next.guest = s.guest) (hkeys : next.mFences = s.mFences)
    (hregistry : next.registry = s.registry) (hasked : next.asked = s.asked) : Account next fence := by
  have hback (property : Place → Option Pointer)
      (hproperty : property place = some fence → property (s.threads thread) = some fence)
      (other : Option Thread) (hother : property (next.threads other) = some fence) :
      property (s.threads other) = some fence := by
    rw [hthreads] at hother
    by_cases heq : other = thread
    · rw [heq, update_self] at hother
      exact heq ▸ hproperty hother
    · rwa [update_of_ne heq] at hother
  have hdeleting : ∀ other, (next.threads other).deleting ≠ some fence := fun other hdel ↦
    hnone other (of_update Place.deleting hthreads hplace hdel).2
  constructor
  · intro _
    rw [hcount, h.counted hnone, references, references, references_of_update fence hthreads,
      hguest, hkeys, add_assoc]
  · exact fun other hdel ↦ absurd hdel (hdeleting other)
  · exact fun other caller hfree ↦ absurd (congrArg Place.deleting hfree) (hdeleting other)
  · intro other hbuild
    rw [hregistry, hkeys, hguest]
    obtain ⟨hreg, hnokey, hno, halone, hnoswept⟩ :=
      h.building other (hback Place.building hbuilding other hbuild)
    refine ⟨hreg, hnokey, hno, ?_, ?_⟩
    · exact fun third hthird hused ↦ halone third hthird (hback Place.building hbuilding third hused)
    · exact fun third hused ↦ hnoswept third (hback Place.swept hswept third hused)
  · intro other hsweep
    rw [hkeys, hguest, hasked]
    exact h.swept other (hback Place.swept hswept other hsweep)
  · rw [hkeys, hguest, hasked, hregistry]
    exact h.keyed
  · rw [hguest, hregistry]
    exact h.guest

end

/-- A step of a thread that concerns one fence and neither creates nor deletes one. -/
structure Concerns (s next : State Thread) (thread : Option Thread) (place : Place)
    (fence : Pointer) : Prop where
  threads : next.threads = Function.update s.threads thread place
  before : ∀ used ∈ (s.threads thread).pointer, used = fence
  after : ∀ used ∈ place.pointer, used = fence
  clean : next.usedAfterDelete = s.usedAfterDelete
  alive : ∀ other, next.alive other = s.alive other
  flag : ∀ other, next.shouldDestroyWhenSignaled other = s.shouldDestroyWhenSignaled other
  count : ∀ other, s.alive other = true → other ≠ fence → next.mCount other = s.mCount other
  guest : ∀ number, number ≠ fence.number → next.guest number = s.guest number
  keys : ∀ address, address ≠ fence.address → (address ∈ next.mFences.map Prod.fst ↔ address ∈ s.mFences.map Prod.fst)
  registry : ∀ address, address ≠ fence.address → next.registry address = s.registry address
  asked : next.asked = s.asked
  created : next.created = s.created
  deletions : next.deletions = s.deletions

omit [Fintype Thread] [DecidableEq Thread] in
theorem number_eq_of_alive {address first second : ℕ} (hfirst : s.alive ⟨address, first⟩ = true)
    (hsecond : s.alive ⟨address, second⟩ = true) : first = second := by
  simp only [State.alive, Option.any_eq_true, beq_iff_eq] at hfirst hsecond
  obtain ⟨found, hfound, rfl⟩ := hfirst
  obtain ⟨other, hother, rfl⟩ := hsecond
  rw [Option.some.inj (hfound.symm.trans hother)]

omit [DecidableEq Thread] in
/-- Two fences that are there have different addresses. -/
theorem address_ne_of_alive (h : Sound s) {other : Pointer} (hfence : s.alive fence = true)
    (hother : s.alive other = true) (hne : other ≠ fence) : other.address ≠ fence.address := by
  intro hsame
  have hnumber : other.number = fence.number := number_eq_of_alive (s := s) (hsame ▸ hother) hfence
  exact hne (h.unique other fence hother hfence hnumber)

theorem sound_of_concerns (h : Sound s) (hfence : s.alive fence = true)
    (hstep : Concerns s next thread place fence) (haccount : Account next fence) : Sound next := by
  constructor
  · rw [hstep.clean]
    exact h.clean
  · intro other hother
    rw [hstep.created]
    exact h.number_lt other (hstep.alive other ▸ hother)
  · intro first second hfirst hsecond
    exact h.unique first second (hstep.alive first ▸ hfirst) (hstep.alive second ▸ hsecond)
  · intro other hother
    rw [hstep.flag, hstep.asked]
    exact h.asked other (hstep.alive other ▸ hother)
  · intro address haddress
    by_cases heq : address = fence.address
    · exact ⟨fence.number, by rw [hstep.alive, heq]; exact hfence⟩
    · rw [hstep.registry address heq] at haddress
      simpa only [hstep.alive] using h.registered address haddress
  · intro other used hused
    rw [hstep.alive]
    by_cases hmoved : place.pointer = some used
    · exact hstep.after used hmoved ▸ hfence
    · exact h.valid other used (of_update pointer hstep.threads hmoved hused).2
  · intro address hmem
    by_cases heq : address = fence.address
    · exact ⟨fence.number, by rw [hstep.alive, heq]; exact hfence⟩
    · simpa only [hstep.alive] using h.key_alive address ((hstep.keys address heq).mp hmem)
  · intro number handle hguest
    rw [hstep.alive]
    by_cases heq : number = fence.number
    · subst heq
      rw [(haccount.guest handle hguest).1]
      exact hfence
    · exact h.guest_alive number handle (hstep.guest number heq ▸ hguest)
  · intro other hother
    rw [hstep.alive] at hother
    by_cases heq : other = fence
    · exact heq ▸ haccount
    have hnumber : other.number ≠ fence.number := fun hsame ↦
      heq (h.unique other fence hother hfence hsame)
    have haddress : other.address ≠ fence.address := address_ne_of_alive h hfence hother heq
    refine account_frame (h.account other hother) hstep.threads ?_ ?_ (hstep.count other hother heq)
      (hstep.guest _ hnumber) (hstep.keys _ haddress) (hstep.registry _ haddress)
      (by rw [hstep.asked])
    · exact fun used hused hsame ↦ hnumber (hstep.before used hused ▸ hsame.symm)
    · exact fun used hused hsame ↦ hnumber (hstep.after used hused ▸ hsame.symm)
  · intro number
    rw [hstep.deletions]
    exact h.deletions_le number
  · intro number hnumber
    rw [hstep.deletions] at hnumber
    simp only [hstep.created, hstep.alive]
    exact h.deleted number hnumber

omit [DecidableEq Thread] in
/-- Nobody deletes a fence that another thread uses, unless that thread deletes it. -/
theorem not_deleting_of_pointer (h : Sound s) (hpointer : (s.threads thread).pointer = some fence)
    (hplace : (s.threads thread).deleting ≠ some fence) (other : Option Thread) :
    (s.threads other).deleting ≠ some fence := by
  intro hdel
  obtain ⟨_, _, _, halone⟩ := (h.account fence (h.valid thread fence hpointer)).deleting other hdel
  refine halone thread ?_ hpointer
  rintro rfl
  exact hplace hdel

/-- A step that leaves all fences and references alone. -/
theorem sound_quiet (h : Sound s) (hbefore : (s.threads thread).pointer = none)
    (hafter : place.pointer = none) (mTime : Int32) (mInput : List ℕ) :
    Sound { s.goto thread place with mTime := mTime, mInput := mInput } := by
  have hthreads : (s.goto thread place).threads = Function.update s.threads thread place := rfl
  constructor
  · exact h.clean
  · exact h.number_lt
  · exact h.unique
  · exact h.asked
  · exact h.registered
  · intro other used hused
    have hmoved : place.pointer ≠ some used := by
      rw [hafter]
      exact nofun
    exact h.valid other used (of_update pointer hthreads hmoved hused).2
  · exact h.key_alive
  · exact h.guest_alive
  · intro fence hfence
    refine account_frame (h.account fence hfence) hthreads ?_ ?_ rfl rfl Iff.rfl rfl rfl
    · rw [hbefore]
      exact nofun
    · rw [hafter]
      exact nofun
  · exact h.deletions_le
  · exact h.deleted

/-- A thread goes on with its fence, whose count changes with the thread's references. -/
theorem sound_setCount (h : Sound s) (hpointer : (s.threads thread).pointer = some fence)
    (hstays : (s.threads thread).deleting ≠ some fence) (hplace : place.deleting ≠ some fence)
    (hafter : ∀ used ∈ place.pointer, used = fence)
    (hbuilding : place.building = some fence → (s.threads thread).building = some fence)
    (hswept : place.swept = some fence → (s.threads thread).swept = some fence) {count : ℤ}
    (hcount : count = s.mCount fence + (place.references fence.number - (s.threads thread).references fence.number)) :
    Sound ((s.setCount fence count).goto thread place) := by
  have hfence := h.valid thread fence hpointer
  have hstep : Concerns s ((s.setCount fence count).goto thread place) thread place fence := {
    threads := rfl
    before := fun used hused ↦ Option.some.inj (hused.symm.trans hpointer)
    after := hafter
    clean := rfl
    alive := alive_setCount s fence count
    flag := shouldDestroyWhenSignaled_setCount s fence count
    count := fun other hother hne ↦
      mCount_setCount_of_ne s count (address_ne_of_alive h hfence hother hne)
    guest := fun _ _ ↦ rfl
    keys := fun _ _ ↦ Iff.rfl
    registry := fun _ _ ↦ rfl
    asked := rfl
    created := rfl
    deletions := rfl }
  refine sound_of_concerns h hfence hstep (account_move (h.account fence hfence) hstep.threads
    (not_deleting_of_pointer h hpointer hstays) hplace hbuilding hswept ?_ rfl rfl rfl rfl)
  exact (mCount_setCount hfence count).trans hcount

/-- A thread goes on, or begins, with a fence and its references stay the same. -/
theorem sound_goto (h : Sound s) (hfence : s.alive fence = true)
    (hbefore : ∀ used ∈ (s.threads thread).pointer, used = fence)
    (hnone : ∀ other, (s.threads other).deleting ≠ some fence) (hplace : place.deleting ≠ some fence)
    (hafter : ∀ used ∈ place.pointer, used = fence)
    (hbuilding : place.building = some fence → (s.threads thread).building = some fence)
    (hswept : place.swept = some fence → (s.threads thread).swept = some fence)
    (hreferences : place.references fence.number = (s.threads thread).references fence.number) :
    Sound (s.goto thread place) := by
  have hstep : Concerns s (s.goto thread place) thread place fence := {
    threads := rfl
    before := hbefore
    after := hafter
    clean := rfl
    alive := fun _ ↦ rfl
    flag := fun _ ↦ rfl
    count := fun _ _ _ ↦ rfl
    guest := fun _ _ ↦ rfl
    keys := fun _ _ ↦ Iff.rfl
    registry := fun _ _ ↦ rfl
    asked := rfl
    created := rfl
    deletions := rfl }
  refine sound_of_concerns h hfence hstep (account_move (h.account fence hfence) hstep.threads hnone
    hplace hbuilding hswept ?_ rfl rfl rfl rfl)
  rw [hreferences, sub_self, add_zero]
  rfl

/-- A reference to a fence changes hands: only the guest, the keys of the timeline and the place of
one thread change, and only as far as this fence is concerned. -/
theorem sound_transfer (thread : Option Thread) (place : Place) (guest : ℕ → Option ℕ)
    (mFences : List (ℕ × Int32)) (h : Sound s) (hfence : s.alive fence = true)
    (hbefore : ∀ used ∈ (s.threads thread).pointer, used = fence)
    (hnone : ∀ other, (s.threads other).deleting ≠ some fence) (hplace : place.deleting ≠ some fence)
    (hafter : ∀ used ∈ place.pointer, used = fence)
    (hguest : ∀ number, number ≠ fence.number → guest number = s.guest number)
    (hkeys : ∀ address, address ≠ fence.address → (address ∈ mFences.map Prod.fst ↔ address ∈ s.mFences.map Prod.fst))
    (hreferences : (if (guest fence.number).isSome then 1 else 0) +
        (if fence.address ∈ mFences.map Prod.fst then 1 else 0) + place.references fence.number =
      (if (s.guest fence.number).isSome then 1 else 0) + (if fence.address ∈ s.mFences.map Prod.fst then 1 else 0) +
          (s.threads thread).references fence.number)
    (hbuilding : ∀ other, ((s.goto thread place).threads other).building ≠ some fence)
    (hswept : ∀ other, ((s.goto thread place).threads other).swept = some fence → other = none ∧
      fence.address ∉ mFences.map Prod.fst ∧
      (s.asked fence.number = true → (guest fence.number).isSome))
    (hkeyed : fence.address ∈ mFences.map Prod.fst → s.registry fence.address = true ∧
      (s.asked fence.number = true → (guest fence.number).isSome))
    (hhandle : ∀ handle, guest fence.number = some handle →
      handle = fence.address ∧ s.registry fence.address = true) :
    Sound { s.goto thread place with guest := guest, mFences := mFences } := by
  have hstep : Concerns s { s.goto thread place with guest := guest, mFences := mFences } thread
      place fence := {
    threads := rfl
    before := hbefore
    after := hafter
    clean := rfl
    alive := fun _ ↦ rfl
    flag := fun _ ↦ rfl
    count := fun _ _ _ ↦ rfl
    guest := hguest
    keys := hkeys
    registry := fun _ _ ↦ rfl
    asked := rfl
    created := rfl
    deletions := rfl }
  have hdeleting (other : Option Thread) :
      ((s.goto thread place).threads other).deleting ≠ some fence := fun hdel ↦
    hnone other (of_update Place.deleting hstep.threads hplace hdel).2
  refine sound_of_concerns h hfence hstep ?_
  constructor
  · intro _
    have hcounted := (h.account fence hfence).counted hnone
    have htotal := references_of_update fence hstep.threads
    rw [references] at hcounted ⊢
    rw [htotal]
    simp only
    change s.mCount fence = _
    omega
  · exact fun other hdel ↦ absurd hdel (hdeleting other)
  · exact fun other caller hfree ↦ absurd (congrArg Place.deleting hfree) (hdeleting other)
  · exact fun other hbuild ↦ absurd hbuild (hbuilding other)
  · exact hswept
  · exact hkeyed
  · exact hhandle

theorem mem_keys_emplace (key : ℕ) (fenceTime : Int32) (mFences : List (ℕ × Int32)) (address : ℕ) :
    address ∈ (emplace key fenceTime mFences).map Prod.fst ↔ address = key ∨ address ∈ mFences.map Prod.fst := by
  unfold emplace
  split_ifs with hmem
  · exact ⟨Or.inr, fun h ↦ h.elim (fun heq ↦ heq ▸ hmem) id⟩
  · rw [List.map_cons, List.mem_cons]

theorem mem_keys_eraseKey (key : ℕ) (mFences : List (ℕ × Int32)) (address : ℕ) :
    address ∈ (eraseKey key mFences).map Prod.fst ↔ address ≠ key ∧ address ∈ mFences.map Prod.fst := by
  simp only [eraseKey, List.mem_map, List.mem_filter, decide_eq_true_eq]
  constructor
  · rintro ⟨entry, ⟨hmem, hne⟩, rfl⟩
    exact ⟨hne, entry, hmem, rfl⟩
  · rintro ⟨hne, entry, hmem, rfl⟩
    exact ⟨entry, ⟨hmem, hne⟩, rfl⟩

/-- The account of a fence that one thread deletes while nobody else is concerned with it. -/
theorem account_deleting {stage : DecRef} {caller : Caller}
    (hthreads : next.threads = Function.update s.threads thread (.dropping fence stage caller))
    (hstage : (Place.dropping fence stage caller).deleting = some fence)
    (hguest : next.guest fence.number = none) (hnokey : fence.address ∉ next.mFences.map Prod.fst)
    (hnonneg : 0 ≤ next.mCount fence)
    (halone : ∀ other, other ≠ thread → (s.threads other).pointer ≠ some fence)
    (hfree : stage = .free → next.registry fence.address = false) : Account next fence := by
  have hself : next.threads thread = .dropping fence stage caller := by
    rw [hthreads, update_self]
  have hother (other : Option Thread) (hne : other ≠ thread) :
      (next.threads other).pointer ≠ some fence := by
    rw [hthreads, update_of_ne hne]
    exact halone other hne
  constructor
  · intro hnone
    exact absurd (hself ▸ hstage) (hnone thread)
  · intro other hdel
    obtain rfl : other = thread := by
      by_contra hne
      exact hother other hne (pointer_of_deleting hdel)
    exact ⟨hguest, hnokey, hnonneg, hother⟩
  · intro other caller' hplace
    by_cases hne : other = thread
    · rw [hne, hself] at hplace
      exact hfree (Place.dropping.inj hplace).2.1
    · exact absurd (congrArg pointer hplace) (hother other hne)
  · intro other hbuild
    have hne : other ≠ thread := by
      rintro rfl
      rw [hself] at hbuild
      cases hbuild
    exact absurd (pointer_of_building hbuild) (hother other hne)
  · intro other hsweep
    have hne : other ≠ thread := by
      rintro rfl
      rw [hself] at hsweep
      cases stage with
      | test | decrement => cases hstage
      | destroy | free => cases hsweep
    exact absurd (pointer_of_swept hsweep) (hother other hne)
  · exact fun hmem ↦ absurd hmem hnokey
  · intro handle hhandle
    exact absurd (hhandle.symm.trans hguest) nofun

section Moves

variable (h : Sound s)

include h

/-- The constructor returns: its first reference goes to the guest. -/
theorem sound_constructed (hthread : s.threads thread = .constructing fence false) :
    Sound (s.constructed thread fence) := by
  have hpointer : (s.threads thread).pointer = some fence := congrArg pointer hthread
  have hfence := h.valid thread fence hpointer
  have hstays : (s.threads thread).deleting ≠ some fence := by
    rw [hthread]
    exact nofun
  obtain ⟨hreg, hnokey, hno, halone, hnoswept⟩ :=
    (h.account fence hfence).building thread (congrArg Place.building hthread)
  refine sound_transfer thread .idle (Function.update s.guest fence.number (some fence.address))
    s.mFences h hfence (fun used hused ↦ Option.some.inj (hused.symm.trans hpointer))
    (not_deleting_of_pointer h hpointer hstays) nofun nofun ?_ (fun _ _ ↦ Iff.rfl) ?_ ?_ ?_ ?_ ?_
  · exact fun number hne ↦ update_of_ne hne _ _
  · rw [hthread, update_self, hno, if_neg hnokey]
    simp [Place.references]
  · intro other hbuild
    obtain ⟨hne, hused⟩ := of_update Place.building rfl (by exact nofun) hbuild
    exact halone other hne hused
  · intro other hsweep
    exact absurd (of_update Place.swept rfl (by exact nofun) hsweep).2 (hnoswept other)
  · exact fun hmem ↦ absurd hmem hnokey
  · intro handle hhandle
    rw [update_self] at hhandle
    exact ⟨(Option.some.inj hhandle).symm, hreg⟩

/-- `addFence` puts the fence into the timeline, with the reference taken for it. -/
theorem sound_added {fenceTime : Int32} (hthread : s.threads thread = .adding fence fenceTime) :
    Sound { s.constructed thread fence with
      mFences := emplace fence.address fenceTime s.mFences } := by
  have hpointer : (s.threads thread).pointer = some fence := congrArg pointer hthread
  have hfence := h.valid thread fence hpointer
  have hstays : (s.threads thread).deleting ≠ some fence := by
    rw [hthread]
    exact nofun
  obtain ⟨hreg, hnokey, hno, halone, hnoswept⟩ :=
    (h.account fence hfence).building thread (congrArg Place.building hthread)
  refine sound_transfer thread .idle (Function.update s.guest fence.number (some fence.address))
    (emplace fence.address fenceTime s.mFences) h hfence
    (fun used hused ↦ Option.some.inj (hused.symm.trans hpointer))
    (not_deleting_of_pointer h hpointer hstays) nofun nofun ?_ ?_ ?_ ?_ ?_ ?_ ?_
  · exact fun number hne ↦ update_of_ne hne _ _
  · intro address hne
    rw [mem_keys_emplace]
    exact or_iff_right hne
  · have hkey : fence.address ∈ (emplace fence.address fenceTime s.mFences).map Prod.fst :=
      (mem_keys_emplace _ _ _ _).mpr (Or.inl rfl)
    rw [hthread, update_self, hno, if_pos hkey, if_neg hnokey]
    simp [Place.references]
  · intro other hbuild
    obtain ⟨hne, hused⟩ := of_update Place.building rfl (by exact nofun) hbuild
    exact halone other hne hused
  · intro other hsweep
    exact absurd (of_update Place.swept rfl (by exact nofun) hsweep).2 (hnoswept other)
  · intro _
    rw [update_self]
    exact ⟨hreg, fun _ ↦ rfl⟩
  · intro handle hhandle
    rw [update_self] at hhandle
    exact ⟨(Option.some.inj hhandle).symm, hreg⟩

/-- The guest gives its reference to `rcDestroySyncKHR`. -/
theorem sound_rcDestroySyncKHR {thread : Option Thread} (hidle : s.threads thread = .idle)
    {number handle : ℕ} (hguest : s.guest number = some handle) (hasked : s.asked number = false) :
    Sound { s.goto thread (.dropping ⟨handle, number⟩ .test .rcDestroySyncKHR) with
      guest := Function.update s.guest number none } := by
  have hfence := h.guest_alive number handle hguest
  have haccount := h.account ⟨handle, number⟩ hfence
  refine sound_transfer thread (.dropping ⟨handle, number⟩ .test .rcDestroySyncKHR)
    (Function.update s.guest number none) s.mFences h hfence ?_ ?_ nofun
    (fun used hused ↦ (Option.some.inj hused).symm) ?_ (fun _ _ ↦ Iff.rfl) ?_ ?_ ?_ ?_ ?_
  · rw [hidle]
    exact nofun
  · intro other hdel
    obtain ⟨hnone, _⟩ := haccount.deleting other hdel
    rw [hguest] at hnone
    cases hnone
  · exact fun other hne ↦ update_of_ne hne _ _
  · rw [hidle, update_self, hguest]
    simp [Place.references, add_comm]
  · intro other hbuild
    obtain ⟨_, hused⟩ := of_update Place.building rfl (by exact nofun) hbuild
    obtain ⟨_, _, hnone, _⟩ := haccount.building other hused
    rw [hguest] at hnone
    cases hnone
  · intro other hsweep
    obtain ⟨_, hused⟩ := of_update Place.swept rfl (by exact nofun) hsweep
    obtain ⟨hsync, hnokey, _⟩ := haccount.swept other hused
    exact ⟨hsync, hnokey, fun htrue ↦ absurd (hasked.symm.trans htrue) nofun⟩
  · exact fun hmem ↦ ⟨(haccount.keyed hmem).1, fun htrue ↦ absurd (hasked.symm.trans htrue) nofun⟩
  · intro other hother
    rw [update_self] at hother
    cases hother

/-- The sweep takes the reference of the timeline. -/
theorem sound_sweepDue (fence : Pointer) {sweep rest : Sweep}
    (hthread : s.threads none = .sweeping sweep) (hkey : fence.address ∈ s.mFences.map Prod.fst)
    (hfence : s.alive fence = true) :
    Sound { s.goto none (.dropping fence .test (.sweepFirst rest)) with
      mFences := eraseKey fence.address s.mFences } := by
  have haccount := h.account fence hfence
  have hgone : fence.address ∉ (eraseKey fence.address s.mFences).map Prod.fst := fun hmem ↦
    ((mem_keys_eraseKey _ _ _).mp hmem).1 rfl
  refine sound_transfer none (.dropping fence .test (.sweepFirst rest)) s.guest
    (eraseKey fence.address s.mFences) h hfence ?_ ?_ nofun
    (fun used hused ↦ (Option.some.inj hused).symm) (fun _ _ ↦ rfl) ?_ ?_ ?_ ?_ ?_ haccount.guest
  · rw [hthread]
    exact nofun
  · intro other hdel
    obtain ⟨_, hnokey, _⟩ := haccount.deleting other hdel
    exact hnokey hkey
  · intro address hne
    rw [mem_keys_eraseKey]
    exact and_iff_right hne
  · rw [hthread, if_neg hgone, if_pos hkey]
    simp [Place.references]
  · intro other hbuild
    obtain ⟨_, hused⟩ := of_update Place.building rfl (by exact nofun) hbuild
    obtain ⟨_, hnokey, _⟩ := haccount.building other hused
    exact hnokey hkey
  · intro other hsweep
    refine ⟨?_, hgone, (haccount.keyed hkey).2⟩
    by_contra hne
    rw [show (s.goto none (.dropping fence .test (.sweepFirst rest))).threads other =
      s.threads other from update_of_ne hne _ _] at hsweep
    exact hne (haccount.swept other hsweep).1
  · exact fun hmem ↦ absurd hmem hgone

/-- The sweep takes the first reference of a fence that is to be destroyed when it is signaled. -/
theorem sound_readTrue {sweep : Sweep} (hthread : s.threads thread = .reading fence sweep)
    (hflag : s.shouldDestroyWhenSignaled fence = true) :
    Sound { s.goto thread (.dropping fence .test (.sweepSecond sweep)) with
      guest := Function.update s.guest fence.number none } := by
  have hpointer : (s.threads thread).pointer = some fence := congrArg pointer hthread
  have hfence := h.valid thread fence hpointer
  have hstays : (s.threads thread).deleting ≠ some fence := by
    rw [hthread]
    exact nofun
  have haccount := h.account fence hfence
  obtain ⟨hsync, hnokey, hguest⟩ := haccount.swept thread (congrArg Place.swept hthread)
  have hsome := hguest (h.asked fence hfence ▸ hflag)
  refine sound_transfer thread (.dropping fence .test (.sweepSecond sweep))
    (Function.update s.guest fence.number none) s.mFences h hfence
    (fun used hused ↦ Option.some.inj (hused.symm.trans hpointer))
    (not_deleting_of_pointer h hpointer hstays) nofun
    (fun used hused ↦ (Option.some.inj hused).symm) ?_ (fun _ _ ↦ Iff.rfl) ?_ ?_ ?_ ?_ ?_
  · exact fun other hne ↦ update_of_ne hne _ _
  · rw [hthread, update_self, if_pos hsome]
    simp [Place.references, add_comm]
  · intro other hbuild
    obtain ⟨_, hused⟩ := of_update Place.building rfl (by exact nofun) hbuild
    obtain ⟨_, _, hnone, _⟩ := haccount.building other hused
    rw [hnone] at hsome
    cases hsome
  · intro other hsweep
    obtain ⟨hne, hused⟩ := of_update Place.swept rfl (by exact nofun) hsweep
    exact absurd ((haccount.swept other hused).1.trans hsync.symm) hne
  · exact fun hmem ↦ absurd hmem hnokey
  · intro other hother
    rw [update_self] at hother
    cases hother

omit [DecidableEq Thread] in
variable {caller : Caller}

section

variable {stage : DecRef} (hplace : s.threads thread = .dropping fence stage caller)
  (hstage : stage = .test ∨ stage = .decrement) (hone : s.mCount fence = 1)
  (hunshared : Unshared s thread fence)
include hplace hstage hone hunshared

/-- The last reference of a fence is dropped and nobody else uses it: the guest has no reference,
the timeline has none, and no other thread is concerned with it. -/
theorem alone_of_last : s.guest fence.number = none ∧ fence.address ∉ s.mFences.map Prod.fst ∧
      ∀ other, other ≠ thread → (s.threads other).pointer ≠ some fence := by
  have hpointer : (s.threads thread).pointer = some fence := congrArg pointer hplace
  have hheld : (s.threads thread).references fence.number = 1 := by
    rw [hplace]
    obtain rfl | rfl := hstage <;> exact if_pos rfl
  have hstays : (s.threads thread).deleting ≠ some fence := by
    rw [hplace]
    obtain rfl | rfl := hstage <;> exact nofun
  have hnone := not_deleting_of_pointer h hpointer hstays
  have hcounted := (h.account fence (h.valid thread fence hpointer)).counted hnone
  have hnonneg := references_nonneg fence.number
  have hle := Shares.le_total hnonneg s.threads thread
  rw [hone, references] at hcounted
  refine ⟨?_, ?_, ?_⟩
  · by_contra hguest
    rw [if_pos (Option.isSome_iff_ne_none.mpr hguest)] at hcounted
    split_ifs at hcounted <;> omega
  · intro hkey
    rw [if_pos hkey] at hcounted
    split_ifs at hcounted <;> omega
  · intro other hne hused
    have hpos := references_pos hused (hnone other) (hunshared other hne)
    have htwo := Shares.add_le_total hnonneg s.threads hne
    split_ifs at hcounted <;> omega

/-- The thread that dropped the last reference begins to delete the fence. -/
theorem sound_last {count : ℤ} (hcount : 0 ≤ count) :
    Sound ((s.setCount fence count).goto thread (.dropping fence .destroy caller)) := by
  have hpointer : (s.threads thread).pointer = some fence := congrArg pointer hplace
  have hfence := h.valid thread fence hpointer
  obtain ⟨hguest, hnokey, halone⟩ := alone_of_last h hplace hstage hone hunshared
  have hstep : Concerns s ((s.setCount fence count).goto thread (.dropping fence .destroy caller))
      thread (.dropping fence .destroy caller) fence := {
    threads := rfl
    before := fun used hused ↦ Option.some.inj (hused.symm.trans hpointer)
    after := fun used hused ↦ (Option.some.inj hused).symm
    clean := rfl
    alive := alive_setCount s fence count
    flag := shouldDestroyWhenSignaled_setCount s fence count
    count := fun other hother hne ↦
      mCount_setCount_of_ne s count (address_ne_of_alive h hfence hother hne)
    guest := fun _ _ ↦ rfl
    keys := fun _ _ ↦ Iff.rfl
    registry := fun _ _ ↦ rfl
    asked := rfl
    created := rfl
    deletions := rfl }
  exact sound_of_concerns h hfence hstep (account_deleting hstep.threads rfl hguest hnokey
    (hcount.trans_eq (mCount_setCount hfence count).symm) halone nofun)

end

/-- The address of the fence leaves the registry. -/
theorem sound_destroy (hplace : s.threads thread = .dropping fence .destroy caller) : Sound { s with
      registry := Function.update s.registry fence.address false
      threads := Function.update s.threads thread (.dropping fence .free caller) } := by
  have hpointer : (s.threads thread).pointer = some fence := congrArg pointer hplace
  have hfence := h.valid thread fence hpointer
  obtain ⟨hguest, hnokey, hnonneg, halone⟩ :=
    (h.account fence hfence).deleting thread (congrArg Place.deleting hplace)
  have hstep : Concerns s { s with
      registry := Function.update s.registry fence.address false
      threads := Function.update s.threads thread (.dropping fence .free caller) }
      thread (.dropping fence .free caller) fence := {
    threads := rfl
    before := fun used hused ↦ Option.some.inj (hused.symm.trans hpointer)
    after := fun used hused ↦ (Option.some.inj hused).symm
    clean := rfl
    alive := fun _ ↦ rfl
    flag := fun _ ↦ rfl
    count := fun _ _ _ ↦ rfl
    guest := fun _ _ ↦ rfl
    keys := fun _ _ ↦ Iff.rfl
    registry := fun address hne ↦ update_of_ne hne _ _
    asked := rfl
    created := rfl
    deletions := rfl }
  exact sound_of_concerns h hfence hstep (account_deleting hstep.threads rfl hguest hnokey hnonneg
    halone fun _ ↦ update_self _ _ _)

/-- The memory of the fence is freed. -/
theorem sound_free (hplace : s.threads thread = .dropping fence .free caller) (hafter : place.pointer = none) :
    Sound { s with
      heap := Function.update s.heap fence.address none
      deletions := Function.update s.deletions fence.number (s.deletions fence.number + 1)
      threads := Function.update s.threads thread place } := by
  have hpointer : (s.threads thread).pointer = some fence := congrArg pointer hplace
  have hfence := h.valid thread fence hpointer
  have haccount := h.account fence hfence
  obtain ⟨hguest, hnokey, _, halone⟩ := haccount.deleting thread (congrArg Place.deleting hplace)
  have hunregistered := haccount.unregistered thread caller hplace
  set next : State Thread := { s with
    heap := Function.update s.heap fence.address none
    deletions := Function.update s.deletions fence.number (s.deletions fence.number + 1)
    threads := Function.update s.threads thread place } with hnext
  have hthreads : next.threads = Function.update s.threads thread place := rfl
  have halive (other : Pointer) :
      next.alive other = true ↔ s.alive other = true ∧ other.address ≠ fence.address := by
    unfold State.alive
    by_cases heq : other.address = fence.address
    · simp [hnext, heq]
    · simp [hnext, heq]
  have hkeep {other : Pointer} (hother : s.alive other = true) (hne : other ≠ fence) :
      next.alive other = true :=
    (halive other).mpr ⟨hother, address_ne_of_alive h hfence hother hne⟩
  have hfirst : s.deletions fence.number = 0 := by
    by_contra hdeleted
    exact absurd hfence (by rw [(h.deleted _ hdeleted).2 fence.address]; exact nofun)
  constructor
  · exact h.clean
  · exact fun other hother ↦ h.number_lt other ((halive other).mp hother).1
  · exact fun first second hfirst' hsecond ↦
      h.unique first second ((halive first).mp hfirst').1 ((halive second).mp hsecond).1
  · intro other hother
    obtain ⟨hthere, hne⟩ := (halive other).mp hother
    have hflag : next.shouldDestroyWhenSignaled other = s.shouldDestroyWhenSignaled other := by
      simp [shouldDestroyWhenSignaled, hnext, update_of_ne hne]
    rw [hflag]
    exact h.asked other hthere
  · intro address haddress
    obtain ⟨number, hthere⟩ := h.registered address haddress
    refine ⟨number, (halive _).mpr ⟨hthere, ?_⟩⟩
    rintro rfl
    exact absurd (hunregistered.symm.trans haddress) nofun
  · intro other used hused
    have hmoved : place.pointer ≠ some used := by
      rw [hafter]
      exact nofun
    obtain ⟨hne, hbefore⟩ := of_update pointer hthreads hmoved hused
    exact hkeep (h.valid other used hbefore) fun heq ↦ halone other hne (heq ▸ hbefore)
  · intro address hmem
    obtain ⟨number, hthere⟩ := h.key_alive address hmem
    refine ⟨number, (halive _).mpr ⟨hthere, ?_⟩⟩
    rintro rfl
    exact hnokey hmem
  · intro number handle hhandle
    refine hkeep (h.guest_alive number handle hhandle) fun heq ↦ ?_
    have hnumber : number = fence.number := congrArg Pointer.number heq
    exact absurd ((hnumber ▸ hhandle).symm.trans hguest) nofun
  · intro other hother
    obtain ⟨hthere, haddress⟩ := (halive other).mp hother
    have hnumber : other.number ≠ fence.number := fun hsame ↦
      haddress (congrArg Pointer.address (h.unique other fence hthere hfence hsame))
    refine account_frame (h.account other hthere) hthreads ?_ ?_ ?_ rfl Iff.rfl rfl rfl
    · exact fun used hused hsame ↦
        hnumber (Option.some.inj (hused.symm.trans hpointer) ▸ hsame.symm)
    · rw [hafter]
      exact nofun
    · simp [mCount, hnext, update_of_ne haddress]
  · intro number
    simp only [hnext]
    by_cases heq : number = fence.number
    · rw [heq, update_self, hfirst]
    · rw [update_of_ne heq]
      exact h.deletions_le number
  · intro number hnumber
    simp only [hnext] at hnumber
    have hgone (address : ℕ) (hthere : s.alive ⟨address, number⟩ = true)
        (haddress : address ≠ fence.address) : s.deletions number = 0 ∧ number ≠ fence.number := by
      refine ⟨?_, fun heq ↦ haddress
        (congrArg Pointer.address (h.unique ⟨address, number⟩ fence hthere hfence heq))⟩
      by_contra hdeleted
      exact absurd hthere (by rw [(h.deleted _ hdeleted).2 address]; exact nofun)
    refine ⟨?_, fun address ↦ ?_⟩
    · by_cases heq : number = fence.number
      · exact heq ▸ h.number_lt fence hfence
      · rw [update_of_ne heq] at hnumber
        exact (h.deleted number hnumber).1
    · by_contra hthere
      obtain ⟨hbefore, haddress⟩ := (halive _).mp (Bool.not_eq_false _ ▸ hthere)
      obtain ⟨hzero, hne⟩ := hgone address hbefore haddress
      rw [update_of_ne hne] at hnumber
      exact hnumber hzero

/-- The state in which a thread has made a fence at a free address. -/
abbrev State.withFence (s : State Thread) (thread : Option Thread) (address : ℕ)
    (hasNativeFence destroyWhenSignaled : Bool) : State Thread :=
  { s.goto thread (.constructing ⟨address, s.created⟩ hasNativeFence) with
    heap := Function.update s.heap address (some ⟨s.created, 1, destroyWhenSignaled⟩)
    registry := Function.update s.registry address true
    asked := Function.update s.asked s.created destroyWhenSignaled
    created := s.created + 1 }

section Created

variable {address : ℕ} (hfree : s.heap address = none) (hasNativeFence destroyWhenSignaled : Bool)

omit [Fintype Thread] [DecidableEq Thread] h in
include hfree in
theorem address_ne_of_free {other : Pointer} (hother : s.alive other = true) : other.address ≠ address := by
  intro heq
  simp [State.alive, heq, hfree] at hother

omit [Fintype Thread] h in
include hfree in
theorem alive_withFence (other : Pointer) :
    (s.withFence thread address hasNativeFence destroyWhenSignaled).alive other = true ↔
      other = ⟨address, s.created⟩ ∨ s.alive other = true := by
  unfold State.alive
  by_cases heq : other.address = address
  · have hsame : other = ⟨address, s.created⟩ ↔ s.created = other.number := by
      rw [Pointer.ext_iff]
      simp only [heq, true_and]
      exact eq_comm
    simp [heq, hfree, hsame]
  · have hdifferent : other ≠ ⟨address, s.created⟩ := fun hsame ↦ heq (congrArg Pointer.address hsame)
    simp [heq, hdifferent]

include hfree in
/-- Only the thread that makes the fence knows it, and holds its one reference. -/
theorem account_withFence :
    Account (s.withFence thread address hasNativeFence destroyWhenSignaled) ⟨address, s.created⟩ := by
  set fence : Pointer := ⟨address, s.created⟩ with hfence
  set next := s.withFence thread address hasNativeFence destroyWhenSignaled with hnext
  have hthreads : next.threads = Function.update s.threads thread (.constructing fence hasNativeFence) := rfl
  have hguest : s.guest s.created = none := by
    by_contra hsome
    obtain ⟨handle, hhandle⟩ := Option.ne_none_iff_exists'.mp hsome
    exact (h.number_lt _ (h.guest_alive _ handle hhandle)).ne rfl
  have hnokey : address ∉ s.mFences.map Prod.fst := by
    intro hmem
    obtain ⟨number, hthere⟩ := h.key_alive address hmem
    exact address_ne_of_free hfree hthere rfl
  have hunused (other : Option Thread) : ∀ used ∈ (s.threads other).pointer, used.number ≠ s.created :=
    fun used hused ↦ (h.number_lt used (h.valid other used hused)).ne
  have hothers (other : Option Thread) (hne : other ≠ thread) :
      (next.threads other).pointer ≠ some fence := by
    rw [hthreads, update_of_ne hne]
    exact fun hused ↦ hunused other fence hused rfl
  have hself : next.threads thread = .constructing fence hasNativeFence := by
    rw [hthreads, update_self]
  have hbuilder {property : Place → Option Pointer} {other : Option Thread}
      (hpointer : ∀ {place}, property place = some fence → place.pointer = some fence)
      (hplace : property (.constructing fence hasNativeFence) ≠ some fence) :
      property (next.threads other) ≠ some fence := by
    intro hused
    by_cases heq : other = thread
    · exact hplace (hself ▸ heq ▸ hused)
    · exact hothers other heq (hpointer hused)
  constructor
  · intro _
    have hcount : next.mCount fence = 1 := by
      simp [mCount, hnext, hfence]
    have hzero : Shares.total (Place.references fence.number) s.threads = 0 :=
      Shares.total_eq_zero fun other ↦ references_eq_zero (hunused other)
    have hbefore : (s.threads thread).references fence.number = 0 := references_eq_zero (hunused thread)
    have hafter : (Place.constructing fence hasNativeFence).references fence.number = 1 := if_pos rfl
    have hnone : (next.guest fence.number).isSome = false := by
      rw [show next.guest fence.number = none from hguest]
      rfl
    have hkey : fence.address ∉ next.mFences.map Prod.fst := hnokey
    rw [hcount, references, references_of_update fence hthreads, hzero, hbefore, hafter, hnone, if_neg hkey]
    rfl
  · exact fun other hdel ↦ absurd hdel (hbuilder pointer_of_deleting fun h ↦ by cases h)
  · exact fun other caller hplace ↦ absurd (congrArg Place.deleting hplace)
      (hbuilder pointer_of_deleting fun h ↦ by cases h)
  · intro other hbuild
    obtain rfl : other = thread := by
      by_contra hne
      exact hothers other hne (pointer_of_building hbuild)
    refine ⟨update_self _ _ _, hnokey, hguest, ?_, ?_⟩
    · exact fun third hne hused ↦ hothers third hne (pointer_of_building hused)
    · exact fun third ↦ hbuilder pointer_of_swept fun h ↦ by cases h
  · exact fun other hsweep ↦ absurd hsweep (hbuilder pointer_of_swept fun h ↦ by cases h)
  · exact fun hmem ↦ absurd hmem hnokey
  · exact fun handle hhandle ↦ by cases hhandle.symm.trans hguest

include hfree in
/-- A new fence at a free address. -/
theorem sound_withFence (hidle : (s.threads thread).pointer = none) :
    Sound (s.withFence thread address hasNativeFence destroyWhenSignaled) := by
  set fence : Pointer := ⟨address, s.created⟩ with hfence
  set next := s.withFence thread address hasNativeFence destroyWhenSignaled with hnext
  have hthreads : next.threads = Function.update s.threads thread (.constructing fence hasNativeFence) := rfl
  have hnumber {other : Pointer} (hother : s.alive other = true) : other.number ≠ s.created :=
    (h.number_lt other hother).ne
  have halive (other : Pointer) : next.alive other = true ↔ other = fence ∨ s.alive other = true :=
    alive_withFence hfree hasNativeFence destroyWhenSignaled other
  constructor
  · exact h.clean
  · intro other hother
    obtain rfl | hbefore := (halive other).mp hother
    · exact Nat.lt_succ_self s.created
    · exact Nat.lt_succ_of_lt (h.number_lt other hbefore)
  · intro first second hfirst hsecond hsame
    obtain rfl | hfirst := (halive first).mp hfirst
    · obtain rfl | hsecond := (halive second).mp hsecond
      · rfl
      · exact absurd hsame.symm (hnumber hsecond)
    · obtain rfl | hsecond := (halive second).mp hsecond
      · exact absurd hsame (hnumber hfirst)
      · exact h.unique first second hfirst hsecond hsame
  · intro other hother
    obtain rfl | hbefore := (halive other).mp hother
    · simp [shouldDestroyWhenSignaled, hnext, hfence]
    · have hflag : next.shouldDestroyWhenSignaled other = s.shouldDestroyWhenSignaled other := by
        simp [shouldDestroyWhenSignaled, hnext, address_ne_of_free hfree hbefore]
      rw [hflag, h.asked other hbefore]
      exact (update_of_ne (hnumber hbefore) _ _).symm
  · intro other hother
    by_cases heq : other = address
    · exact ⟨s.created, (halive _).mpr (Or.inl (by rw [heq, hfence]))⟩
    · have hbefore : s.registry other = true := by
        rw [← hother]
        exact (update_of_ne heq _ _).symm
      obtain ⟨number, hthere⟩ := h.registered other hbefore
      exact ⟨number, (halive _).mpr (Or.inr hthere)⟩
  · intro other used hused
    by_cases hmoved : (Place.constructing fence hasNativeFence).pointer = some used
    · exact (halive used).mpr (Or.inl (Option.some.inj hmoved).symm)
    · exact (halive used).mpr (Or.inr
        (h.valid other used (of_update pointer hthreads hmoved hused).2))
  · intro other hmem
    obtain ⟨number, hthere⟩ := h.key_alive other hmem
    exact ⟨number, (halive _).mpr (Or.inr hthere)⟩
  · exact fun number handle hhandle ↦ (halive _).mpr (Or.inr (h.guest_alive number handle hhandle))
  · intro other hother
    obtain rfl | hbefore := (halive other).mp hother
    · exact account_withFence h hfree hasNativeFence destroyWhenSignaled
    refine account_frame (h.account other hbefore) hthreads ?_ ?_ ?_ rfl Iff.rfl ?_ ?_
    · rw [hidle]
      exact fun _ hused ↦ by cases hused
    · intro used hused
      rw [← Option.some.inj hused]
      exact (hnumber hbefore).symm
    · simp [mCount, hnext, address_ne_of_free hfree hbefore]
    · exact update_of_ne (address_ne_of_free hfree hbefore) _ _
    · exact update_of_ne (hnumber hbefore) _ _
  · exact h.deletions_le
  · intro number hdeleted
    obtain ⟨hlt, hgone⟩ := h.deleted number hdeleted
    refine ⟨Nat.lt_succ_of_lt hlt, fun other ↦ ?_⟩
    by_contra hthere
    obtain hsame | hbefore := (halive _).mp (Bool.not_eq_false _ ▸ hthere)
    · exact hlt.ne (congrArg Pointer.number hsame)
    · rw [hgone other] at hbefore
      cases hbefore

end Created

/-! ### One step -/

omit [DecidableEq Thread] in
/-- A look-up finds a fence that is there. -/
theorem getFromHandle_alive {handle : ℕ} (hfound : s.getFromHandle handle = some fence) :
    s.registry handle = true ∧ fence.address = handle ∧ s.alive fence = true := by
  obtain ⟨hregistry, hsome⟩ := Option.ite_none_right_eq_some.mp hfound
  obtain ⟨number, hthere⟩ := h.registered handle hregistry
  obtain ⟨found, hheap, hnumber⟩ := (Option.any_eq_true _ _).mp hthere
  have hpointer := Option.some.inj hsome
  simp only [hheap, Option.map_some, Option.getD_some] at hpointer
  subst hpointer
  exact ⟨hregistry, rfl, by simp [State.alive, hheap]⟩

/-- A wait looks a fence up while nobody deletes it. -/
theorem sound_found {handle : ℕ} (hidle : (s.threads thread).pointer = none)
    (hfound : s.getFromHandle handle = some fence) (hlookable : Lookable s handle) :
    Sound (s.goto thread (.found fence)) := by
  obtain ⟨hregistry, rfl, hfence⟩ := getFromHandle_alive h hfound
  refine sound_goto h hfence ?_ ?_ nofun (fun used hused ↦ (Option.some.inj hused).symm) nofun nofun ?_
  · rw [hidle]
    exact nofun
  · intro other hdel
    -- a fence that is deleted is either about to leave the registry or has left it
    cases hplace : s.threads other with
    | dropping dropped stage caller =>
      rw [hplace] at hdel
      cases stage with
      | test | decrement => cases hdel
      | destroy =>
        cases hdel
        exact hlookable other (by rw [hplace]; rfl)
      | free =>
        cases hdel
        have hgone := (h.account _ hfence).unregistered other caller hplace
        exact absurd (hgone.symm.trans hregistry) nofun
    | _ =>
      rw [hplace] at hdel
      cases hdel
  · exact (references_eq_zero (by rw [hidle]; exact nofun)).symm

theorem sound_decRef {stage : DecRef} {caller : Caller} (hplace : s.threads thread = .dropping fence stage caller)
    (hguard : ∀ dropped ∈ (s.threads thread).releasing, s.mCount dropped = 1 →
      Unshared s thread dropped) : Sound (s.decRef thread fence caller stage) := by
  have hpointer : (s.threads thread).pointer = some fence := congrArg pointer hplace
  have hfence := h.valid thread fence hpointer
  have honly : ∀ used ∈ (s.threads thread).pointer, used = fence := fun used hused ↦
    Option.some.inj (hused.symm.trans hpointer)
  cases stage with
  | test =>
    have hstays : (s.threads thread).deleting ≠ some fence := by
      rw [hplace]
      exact nofun
    rw [decRef, use_of_alive hfence]
    split_ifs with hone
    · have hsame : Sound ((s.setCount fence (s.mCount fence)).goto thread
          (.dropping fence .destroy caller)) :=
        sound_last h hplace (Or.inl rfl) hone
          (hguard fence (congrArg releasing hplace) hone) (by omega)
      rwa [setCount_mCount] at hsame
    · refine sound_goto h hfence honly (not_deleting_of_pointer h hpointer hstays) nofun
        (fun used hused ↦ (Option.some.inj hused).symm) nofun ?_ ?_
      · rw [hplace]
        cases caller with
        | sweepFirst _ => exact id
        | wait | rcDestroySyncKHR | sweepSecond _ => exact nofun
      · rw [hplace]
        rfl
  | decrement =>
    have hstays : (s.threads thread).deleting ≠ some fence := by
      rw [hplace]
      exact nofun
    rw [decRef, use_of_alive hfence]
    split_ifs with hzero
    · have hone : s.mCount fence = 1 := by omega
      exact sound_last h hplace (Or.inr rfl) hone
        (hguard fence (congrArg releasing hplace) hone) (by omega)
    · obtain ⟨hafter, hdeleting, hbuilding, hswept, hreferences⟩ :=
        afterDecRef_false fence thread.isNone caller fence.number
      refine sound_setCount h hpointer hstays (by rw [hdeleting]; exact nofun) hafter
        (by rw [hbuilding]; exact nofun) (hplace ▸ hswept) ?_
      rw [hreferences, hplace]
      simp [Place.references, sub_eq_add_neg]
  | destroy =>
    rw [decRef, use_of_alive hfence]
    exact sound_destroy h hplace
  | free =>
    obtain ⟨found, hheap, hnumber⟩ := (Option.any_eq_true _ _).mp hfence
    have hdeleted : ((s.heap fence.address).map FenceSync.number).getD fence.number = fence.number := by
      rw [hheap]
      exact beq_iff_eq.mp hnumber
    rw [decRef, use_of_alive hfence, hdeleted]
    exact sound_free h hplace (pointer_afterDecRef_true fence thread.isNone caller)

theorem sound_incRef {place : Place} (hpointer : (s.threads thread).pointer = some fence)
    (hstays : (s.threads thread).deleting ≠ some fence) (hplace : place.pointer = some fence)
    (hdeleting : place.deleting = none) (hswept : place.swept = none)
    (hbuilding : place.building = some fence → (s.threads thread).building = some fence)
    (hreferences : place.references fence.number =
      (s.threads thread).references fence.number + 1) : Sound (s.incRef thread fence place) := by
  rw [incRef, use_of_alive (h.valid thread fence hpointer)]
  refine sound_setCount h hpointer hstays ?_ ?_ hbuilding ?_ ?_
  · rw [hdeleting]
    exact nofun
  · exact fun used hused ↦ Option.some.inj (hused.symm.trans hplace)
  · rw [hswept]
    exact nofun
  · rw [hreferences, add_sub_cancel_left]

omit [DecidableEq Thread] in
/-- The queue of the sync thread holds no references. -/
theorem sound_input (mInput : List ℕ) : Sound { s with mInput := mInput } where
  clean := h.clean
  number_lt := h.number_lt
  unique := h.unique
  asked := h.asked
  registered := h.registered
  valid := h.valid
  key_alive := h.key_alive
  guest_alive := h.guest_alive
  account fence hfence := by
    have haccount := h.account fence hfence
    exact ⟨haccount.counted, haccount.deleting, haccount.unregistered, haccount.building,
      haccount.swept, haccount.keyed, haccount.guest⟩
  deletions_le := h.deletions_le
  deleted := h.deleted

theorem sound_proceed (hguard : ∀ dropped ∈ (s.threads thread).releasing, s.mCount dropped = 1 →
      Unshared s thread dropped)
    (hnext : proceed thread s = some next) : Sound next := by
  unfold proceed at hnext
  have hdone {place : Place} (hplace : s.threads thread = place) {fence : Pointer}
      (hpointer : place.pointer = some fence) :
      (s.threads thread).pointer = some fence ∧ s.alive fence = true ∧
        ∀ used ∈ (s.threads thread).pointer, used = fence := by
    rw [← hplace] at hpointer
    exact ⟨hpointer, h.valid thread fence hpointer, fun used hused ↦ Option.some.inj (hused.symm.trans hpointer)⟩
  cases hplace : s.threads thread with
  | idle =>
    rw [hplace] at hnext
    cases hnext
  | constructing fence hasNativeFence =>
    simp only [hplace] at hnext
    obtain ⟨hpointer, hfence, _⟩ := hdone hplace rfl
    split_ifs at hnext with hnative
    · cases hnext
      refine sound_incRef h hpointer (by rw [hplace]; exact nofun) rfl rfl rfl
        (fun _ ↦ by rw [hplace]; rfl) ?_
      rw [hplace]
      simp [Place.references]
    · cases hnext
      exact sound_constructed h (by rw [hplace, Bool.eq_false_of_not_eq_true hnative])
  | loading fence =>
    simp only [hplace] at hnext
    obtain ⟨hpointer, hfence, honly⟩ := hdone hplace rfl
    cases hnext
    refine sound_goto h hfence honly
      (not_deleting_of_pointer h hpointer (by rw [hplace]; exact nofun)) nofun
      (fun used hused ↦ (Option.some.inj hused).symm) (fun _ ↦ by rw [hplace]; rfl) nofun ?_
    rw [hplace]
    rfl
  | adding fence fenceTime =>
    simp only [hplace] at hnext
    split at hnext
    case h_5 => exact Option.some.inj hnext ▸ sound_added h hplace
    all_goals cases hnext
  | found fence =>
    simp only [hplace] at hnext
    obtain ⟨hpointer, hfence, _⟩ := hdone hplace rfl
    cases hnext
    refine sound_incRef h hpointer (by rw [hplace]; exact nofun) rfl rfl rfl nofun ?_
    rw [hplace]
    simp [Place.references]
  | waiting fence =>
    simp only [hplace] at hnext
    obtain ⟨hpointer, hfence, honly⟩ := hdone hplace rfl
    cases hnext
    rw [use_of_alive hfence]
    refine sound_goto h hfence honly
      (not_deleting_of_pointer h hpointer (by rw [hplace]; exact nofun)) nofun
      (fun used hused ↦ (Option.some.inj hused).symm) nofun nofun ?_
    rw [hplace]
    rfl
  | dropping fence stage caller =>
    simp only [hplace] at hnext
    exact Option.some.inj hnext ▸ sound_decRef h hplace hguard
  | incrementing =>
    simp only [hplace] at hnext
    cases hnext
    exact sound_quiet h (by rw [hplace]; rfl) rfl _ s.mInput
  | sweeping sweep =>
    simp only [hplace] at hnext
    obtain ⟨_, hsome⟩ := Option.ite_none_right_eq_some.mp hnext
    cases hsome
    exact sound_quiet h (by rw [hplace]; rfl) rfl s.mTime s.mInput
  | reading fence sweep =>
    simp only [hplace] at hnext
    obtain ⟨hpointer, hfence, honly⟩ := hdone hplace rfl
    rw [use_of_alive hfence] at hnext
    split_ifs at hnext with hflag
    · exact Option.some.inj hnext ▸ sound_readTrue h hplace hflag
    · cases hnext
      refine sound_goto h hfence honly
        (not_deleting_of_pointer h hpointer (by rw [hplace]; exact nofun)) nofun nofun nofun nofun ?_
      rw [hplace]
      rfl

theorem sound_sweepNext {key : ℕ} (hnext : sweepNext key s = some next) : Sound next := by
  unfold sweepNext at hnext
  split at hnext
  · rename_i sweep entry fenceTime hplace hentry
    obtain ⟨_, hnext⟩ := Option.ite_none_right_eq_some.mp hnext
    have hkey : key ∈ s.mFences.map Prod.fst := by
      have hmem := List.mem_of_find?_eq_some hentry
      have hsame : entry = key := by simpa using List.find?_some hentry
      exact List.mem_map.mpr ⟨_, hmem, hsame⟩
    have hidle : (s.threads none).pointer = none := congrArg pointer hplace
    split at hnext
    · rename_i hmissing
      -- a fence of the timeline is in the registry
      obtain ⟨number, hthere⟩ := h.key_alive key hkey
      have hregistry := ((h.account _ hthere).keyed hkey).1
      simp only [getFromHandle, hregistry, if_true] at hmissing
      cases hmissing
    · rename_i actual hactual
      obtain ⟨_, rfl, hfence⟩ := getFromHandle_alive h hactual
      split_ifs at hnext with hdue
      · exact Option.some.inj hnext ▸ sound_sweepDue h actual hplace hkey hfence
      · cases hnext
        exact sound_quiet h hidle rfl s.mTime s.mInput
  · cases hnext

/-- Every step that meets the condition keeps the invariant. -/
theorem sound_step {action : Action Thread} (hguard : LastDropAlone action s)
    (hnext : step action s = some next) : Sound next := by
  cases action with
  | rcCreateSyncKHR thread address hasNativeFence destroyWhenSignaled =>
    obtain ⟨⟨hidle, hfree⟩, hsome⟩ := Option.ite_none_right_eq_some.mp hnext
    exact Option.some.inj hsome ▸ sound_withFence h hfree _ _ (congrArg pointer hidle)
  | rcClientWaitSyncKHR thread handle =>
    obtain ⟨hidle, hsome⟩ := Option.ite_none_right_eq_some.mp hnext
    split at hsome
    · exact Option.some.inj hsome ▸ h
    · rename_i fence hfound
      exact Option.some.inj hsome ▸ sound_found h (congrArg pointer hidle) hfound hguard
  | rcDestroySyncKHR thread number =>
    simp only [step] at hnext
    split at hnext
    · rename_i handle hguest
      obtain ⟨⟨hidle, hasked⟩, hsome⟩ := Option.ite_none_right_eq_some.mp hnext
      have hthere := h.guest_alive number handle hguest
      have hregistry := ((h.account _ hthere).guest handle hguest).2
      obtain ⟨found, hheap, hnumber⟩ := (Option.any_eq_true _ _).mp hthere
      have hfound : s.getFromHandle handle = some ⟨handle, number⟩ := by
        simp only at hregistry hheap
        simp only [getFromHandle, hregistry, if_true, hheap, Option.map_some,
          Option.getD_some, beq_iff_eq.mp hnumber]
      rw [hfound] at hsome
      exact Option.some.inj hsome ▸ sound_rcDestroySyncKHR h hidle hguest hasked
    · cases hnext
  | rcTriggerWait handle =>
    exact Option.some.inj hnext ▸ sound_input h _
  | receive =>
    simp only [step] at hnext
    split at hnext
    · rename_i handle mInput hplace hinput
      have hlookable : Lookable s handle := hguard handle (by rw [hinput]; rfl)
      split at hnext
      · exact Option.some.inj hnext ▸ sound_input h mInput
      · rename_i fence hfound
        have hmoved := sound_found h (congrArg pointer hplace) hfound hlookable
        exact Option.some.inj hnext ▸ sound_input hmoved mInput
    · cases hnext
  | sweepNext key => exact sound_sweepNext h hnext
  | proceed thread => exact sound_proceed h hguard hnext

end Moves

end Frame

/-! ## Whole runs -/

theorem sound_start : Sound (start : State Thread) where
  clean := rfl
  number_lt := nofun
  unique := nofun
  asked := nofun
  registered := nofun
  valid := nofun
  key_alive := nofun
  guest_alive := nofun
  account := nofun
  deletions_le := fun _ ↦ Nat.zero_le 1
  deleted := fun _ hdeleted ↦ absurd rfl hdeleted

/-- Nobody has a negative count. -/
theorem mCount_nonneg {s : State Thread} (h : Sound s) {address : ℕ} {found : FenceSync}
    (hfound : s.heap address = some found) : 0 ≤ found.mCount := by
  have hthere : s.alive ⟨address, found.number⟩ = true := by simp [State.alive, hfound]
  have haccount := h.account _ hthere
  have hcount : s.mCount ⟨address, found.number⟩ = found.mCount := by simp [mCount, hfound]
  by_cases hdel : ∃ thread, (s.threads thread).deleting = some ⟨address, found.number⟩
  · obtain ⟨thread, hdel⟩ := hdel
    obtain ⟨_, _, hnonneg, _⟩ := haccount.deleting thread hdel
    rwa [hcount] at hnonneg
  · push Not at hdel
    have htotal := Shares.total_nonneg (references_nonneg found.number) s.threads
    rw [← hcount, haccount.counted hdel, references]
    split_ifs <;> simp only <;> omega

/-- In every run in which the last reference of a fence is dropped only while no wait is between its
look-up and its `incRef`: no fence is deleted twice, no count goes below 0, and no fence is used
after it was deleted. -/
theorem lifetime_of_lastDropAlone [DecidableEq Thread] {actions : List (Action Thread)} {s : State Thread}
    (hguard : Guarded step LastDropAlone State.start actions)
    (hrun : run step State.start actions = some s) :
    (∀ number, s.deletions number ≤ 1) ∧
      (∀ address found, s.heap address = some found → 0 ≤ found.mCount) ∧
      s.usedAfterDelete = false := by
  have hsound : Sound s := invariant_of_guarded Sound
    (fun _ _ _ hsound hguard hnext ↦ sound_step hsound hguard hnext) sound_start hguard hrun
  exact ⟨hsound.deletions_le, fun address found hfound ↦ mCount_nonneg hsound hfound, hsound.clean⟩

end Holders

/-- A fence is waited for and destroyed, and its address is used again for a native fence that the
sync thread waits for and sweeps past. -/
def waitThenDestroy : List (Action (Fin 2)) :=
  [.rcCreateSyncKHR 0 1 false false, .proceed (some 0), .rcClientWaitSyncKHR 1 1,
    .proceed (some 1), .proceed (some 1), .proceed (some 1), .proceed (some 1),
    .rcDestroySyncKHR 0 0, .proceed (some 0), .proceed (some 0), .proceed (some 0),
    .rcCreateSyncKHR 0 1 true true, .proceed (some 0), .proceed (some 0), .proceed (some 0),
    .rcTriggerWait 1, .receive, .proceed none, .proceed none, .proceed none, .proceed none,
    .proceed none, .sweepNext 1, .proceed none]

theorem lifetime_waitThenDestroy :
    Guarded step LastDropAlone State.start waitThenDestroy ∧
      ∃ s, run step State.start waitThenDestroy = some s ∧ s.created = 2 ∧
        s.deletions 0 = 1 ∧ (∀ number, s.deletions number ≤ 1) ∧
        (∀ address found, s.heap address = some found → 0 ≤ found.mCount) ∧
        s.usedAfterDelete = false := by
  have hguard : Guarded step LastDropAlone State.start waitThenDestroy := by decide +kernel
  have hends : (run step State.start waitThenDestroy).map
      (fun s ↦ (s.created, s.deletions 0)) = some (2, 1) := by decide +kernel
  obtain ⟨s, hrun, hs⟩ := Option.map_eq_some_iff.mp hends
  exact ⟨hguard, s, hrun, congrArg Prod.fst hs, congrArg Prod.snd hs,
    lifetime_of_lastDropAlone hguard hrun⟩

/-- A fence is destroyed between the look-up of a wait and its `incRef`. -/
def destroyDuringWait : List (Action (Fin 2)) :=
  [.rcCreateSyncKHR 0 1 false false, .proceed (some 0), .rcClientWaitSyncKHR 1 1,
    .rcDestroySyncKHR 0 0, .proceed (some 0), .proceed (some 0), .proceed (some 0),
    .proceed (some 1)]

/-- The wait counts up and waits on a fence that was deleted. -/
theorem wait_uses_deleted :
    ∃ s, run step State.start destroyDuringWait = some s ∧
      ¬ ((∀ number, s.deletions number ≤ 1) ∧
        (∀ address found, s.heap address = some found → 0 ≤ found.mCount) ∧
        s.usedAfterDelete = false) := by
  have hends : (run step State.start destroyDuringWait).map State.usedAfterDelete = some true := by
    decide +kernel
  obtain ⟨s, hrun, hs⟩ := Option.map_eq_some_iff.mp hends
  refine ⟨s, hrun, ?_⟩
  rintro ⟨_, _, hclean⟩
  rw [hs] at hclean
  cases hclean

end FdeEmugl.Fences
