import FdeEmugl.FrameBuffer.Ownership

/-!
# What creators return and what drains leave

A creator returns the handle that it has entered into its map, or 0 with the maps as they
were. `createWindowSurface` does not put its result back to 0 when no surface could be
created, and `createColorBuffer` first runs the destroys that wait. A render thread that
ends drains its window surfaces and then its contexts, and a surface that nothing was ever
attached to stays.
-/

namespace FdeEmugl.Fb

open ColorBuffers
open FrameBuffer
open ColorBufferRef
open Option (bind_some isNone_iff_eq_none isSome_eq_false_iff)

/-! ## The next id -/

/-- Of the free ids the one that a counter comes to first. -/
structure First (free : HandleType → Prop) (counter id : HandleType) : Prop where
  isFree : free id
  least : ∀ other, free other → (id - counter - 1).toNat ≤ (other - counter - 1).toNat

namespace FrameBuffer

/-- There is an id to give out. -/
def HasFree (s : FrameBuffer) : Prop := ∃ id, s.taken id = false

end FrameBuffer

section Generator

variable {s s' : FrameBuffer} {id : HandleType}

theorem First.unique {free : HandleType → Prop} {counter id other : HandleType} (h : First free counter id)
    (hother : First free counter other) : id = other := by
  have hdistance := le_antisymm (h.least other hother.isFree) (hother.least id h.isFree)
  have hsub : id - counter - 1 = other - counter - 1 := UInt32.toNat_inj.mp hdistance
  exact (UInt32.sub_left_inj counter).mp ((UInt32.sub_left_inj 1).mp hsub)

theorem distance_succ {counter id : HandleType} (h : id ≠ counter + 1) :
    (id - counter - 1).toNat = (id - (counter + 1) - 1).toNat + 1 := by
  have hne : id - counter - 1 ≠ 0 := by
    intro hzero
    apply h
    rw [UInt32.sub_eq_iff_eq_add, UInt32.zero_add, UInt32.sub_eq_iff_eq_add] at hzero
    rw [hzero, UInt32.add_comm]
  have hstep : id - (counter + 1) - 1 = id - counter - 1 - 1 := by
    simp only [UInt32.sub_eq_add_neg, UInt32.neg_add, UInt32.add_assoc]
  have hpos : 0 < (id - counter - 1).toNat := Nat.pos_of_ne_zero fun hzero ↦ hne (UInt32.toNat_inj.mp hzero)
  have hone : (1 : UInt32) ≤ id - counter - 1 := UInt32.le_iff_toNat_le.mpr hpos
  rw [hstep, UInt32.toNat_sub_of_le _ _ hone]
  have htoNat : (1 : UInt32).toNat = 1 := rfl
  omega

theorem genHandleFrom_least {fuel : ℕ} {counter other : HandleType}
    (h : s.genHandleFrom fuel counter = some id) (hother : s.taken other = false) :
    (id - counter - 1).toNat ≤ (other - counter - 1).toNat := by
  induction fuel generalizing counter with
  | zero => cases h
  | succ fuel ih =>
    have hid := taken_of_genHandleFrom h
    unfold genHandleFrom at h
    split_ifs at h with htaken
    · have hpassed : ∀ {free : HandleType}, s.taken free = false → free ≠ counter + 1 := by
        rintro free hfree rfl
        rw [htaken] at hfree
        cases hfree
      rw [distance_succ (hpassed hid), distance_succ (hpassed hother)]
      exact Nat.succ_le_succ (ih h)
    · have hzero : id - counter - 1 = 0 := by
        rw [← Option.some.inj h, UInt32.add_comm, UInt32.add_sub_cancel, UInt32.sub_self]
      rw [hzero]
      exact Nat.zero_le _

/-- `genHandle_locked` gives out the first free id, and does not return if there is none. -/
theorem genHandle_cases (s : FrameBuffer) : (∃ id, s.genHandle_locked = .ok (id, { s with s_nextHandle := id }) ∧
      First (fun id ↦ s.taken id = false) s.s_nextHandle id) ∨
    (∃ fault, s.genHandle_locked = .error fault) ∧ ¬ s.HasFree := by
  cases hgen : s.genHandle_locked with
  | error fault =>
    refine .inr ⟨⟨fault, rfl⟩, ?_⟩
    rintro ⟨id, hfree⟩
    rw [taken_of_genHandle_locked_error hgen id] at hfree
    cases hfree
  | ok result =>
    obtain ⟨id, generated⟩ := result
    obtain ⟨htaken, rfl⟩ := genHandle_locked_ok hgen
    refine .inl ⟨id, rfl, htaken, fun other hother ↦ ?_⟩
    unfold genHandle_locked at hgen
    split at hgen
    · cases hgen
    · next found hfound =>
      obtain rfl : found = id := (Prod.mk.inj (Except.ok.inj hgen)).1
      exact genHandleFrom_least hfound hother

end Generator

/-! ## The destroys that wait -/

/-- How many references can be dropped until the color buffer goes: a count of 0 wraps first. -/
def ColorBufferRef.left (ref : ColorBufferRef) : ℕ := (ref.refcount - 1).toNat + 1

/-- What is left of it after some references have been dropped. -/
def ColorBufferRef.dropped (ref : ColorBufferRef) (count : ℕ) : Option ColorBufferRef :=
  if count < ref.left then some { ref with refcount := ref.refcount - UInt32.ofNat count } else none

namespace FrameBuffer

/-- The destroys that wait drop the last reference of this color buffer. -/
def Condemned (s : FrameBuffer) (handle : HandleType) : Prop :=
  ∃ ref, s.m_colorbuffers handle = some ref ∧ ref.left ≤ s.mOutstandingColorBufferDestroys.count handle

/-- Free as soon as the destroys that wait are done. -/
def Vacant (s : FrameBuffer) (id : HandleType) : Prop :=
  id ≠ 0 ∧ s.m_contexts id = false ∧ s.m_windows id = none ∧ s.m_buffers id = false ∧
    (s.m_colorbuffers id = none ∨ s.Condemned id)

end FrameBuffer

section Sweep

variable {s : FrameBuffer} {cbs : ColorBuffers} {handle : HandleType} {ref : ColorBufferRef}

theorem dropped_zero : ref.dropped 0 = some ref := by
  have hleft : 0 < ref.left := Nat.succ_pos _
  have hcount : ref.refcount - UInt32.ofNat 0 = ref.refcount := UInt32.sub_zero _
  rw [dropped, if_pos hleft, hcount]

theorem dropped_last (h : ref.refcount - 1 = 0) (count : ℕ) : ref.dropped (count + 1) = none := by
  have hleft : ref.left = 1 := by
    rw [ColorBufferRef.left, h]
    rfl
  rw [dropped, hleft, if_neg (by omega)]

theorem dropped_succ (h : ref.refcount - 1 ≠ 0) (count : ℕ) :
    ref.dropped (count + 1) = { ref with refcount := ref.refcount - 1 }.dropped count := by
  have hpos : 0 < (ref.refcount - 1).toNat := Nat.pos_of_ne_zero fun hzero ↦ h (UInt32.toNat_inj.mp hzero)
  have hone : (1 : UInt32) ≤ ref.refcount - 1 := UInt32.le_iff_toNat_le.mpr hpos
  have hleft : ref.left = { ref with refcount := ref.refcount - 1 }.left + 1 := by
    have htoNat : (1 : UInt32).toNat = 1 := rfl
    simp only [ColorBufferRef.left, UInt32.toNat_sub_of_le _ _ hone]
    omega
  have hcount : ref.refcount - UInt32.ofNat (count + 1) = ref.refcount - 1 - UInt32.ofNat count := by
    have hsucc : UInt32.ofNat (count + 1) = 1 + UInt32.ofNat count := by
      rw [UInt32.ofNat_add, UInt32.add_comm]
      rfl
    simp only [hsucc, UInt32.sub_eq_add_neg, UInt32.neg_add, UInt32.add_assoc]
  simp only [dropped, hleft, hcount, Nat.add_lt_add_iff_right]

/-- A color buffer that has lost a reference is not as it was. -/
theorem dropped_ne {count : ℕ} (hpos : 0 < count) : ref.dropped count ≠ some ref := by
  unfold dropped
  split_ifs with hleft
  · intro heq
    have hcount : ref.refcount - UInt32.ofNat count = ref.refcount :=
      congrArg refcount (Option.some.inj heq)
    have hzero : UInt32.ofNat count = 0 :=
      (UInt32.sub_right_inj ref.refcount).mp (hcount.trans (UInt32.sub_zero _).symm)
    have hlt : count < 2 ^ 32 := by
      have hbound := (ref.refcount - 1).toNat_lt
      unfold ColorBufferRef.left at hleft
      omega
    have htoNat := congrArg UInt32.toNat hzero
    rw [UInt32.toNat_ofNat_of_lt' hlt] at htoNat
    exact hpos.ne' htoNat
  · exact Option.some_ne_none ref |>.symm

theorem map_dec_self : (cbs.decColorBufferRefCountLocked handle).2.m_colorbuffers handle =
    (cbs.m_colorbuffers handle).bind fun ref ↦
      if ref.refcount - 1 = 0 then none else some { ref with refcount := ref.refcount - 1 } := by
  unfold decColorBufferRefCountLocked
  cases hlive : cbs.m_colorbuffers handle with
  | none => exact hlive
  | some ref =>
    simp only [bind_some]
    split_ifs
    · exact map_erase_self ..
    · exact map_decrement_self ..

theorem map_dec_of_ne {other : HandleType} (h : handle ≠ other) :
    (cbs.decColorBufferRefCountLocked other).2.m_colorbuffers handle = cbs.m_colorbuffers handle := by
  unfold decColorBufferRefCountLocked
  cases cbs.m_colorbuffers other with
  | none => rfl
  | some ref =>
    simp only
    split_ifs
    · rw [map_erase_of_ne _ _ h, map_decrement_of_ne _ _ _ h]
    · exact map_decrement_of_ne _ _ _ h

/-- Each destroy that waits drops one reference. -/
theorem map_foldl_dec (destroys : List HandleType) :
    (destroys.foldl (fun cbs handle ↦ (cbs.decColorBufferRefCountLocked handle).2) cbs).m_colorbuffers handle =
      (cbs.m_colorbuffers handle).bind fun ref ↦ ref.dropped (destroys.count handle) := by
  induction destroys generalizing cbs with
  | nil => simp [dropped_zero]
  | cons first destroys ih =>
    rw [List.foldl_cons, ih]
    by_cases hfirst : handle = first
    · subst hfirst
      rw [map_dec_self, List.count_cons_self, Option.bind_assoc]
      refine Option.bind_congr fun ref _ ↦ ?_
      split_ifs with hlast
      · rw [dropped_last hlast]
        rfl
      · rw [dropped_succ hlast]
        rfl
    · rw [map_dec_of_ne hfirst, List.count_cons_of_ne (Ne.symm hfirst)]

theorem map_sweep (s : FrameBuffer) (handle : HandleType) :
    s.sweepColorBuffersLocked.m_colorbuffers handle = (s.m_colorbuffers handle).bind fun ref ↦
      ref.dropped (s.mOutstandingColorBufferDestroys.count handle) := map_foldl_dec _

theorem sweep_eq_none : s.sweepColorBuffersLocked.m_colorbuffers handle = none ↔
    s.m_colorbuffers handle = none ∨ s.Condemned handle := by
  rw [map_sweep]
  unfold FrameBuffer.Condemned
  cases hlive : s.m_colorbuffers handle with
  | none => simp
  | some ref =>
    simp only [bind_some, dropped, reduceCtorEq, false_or, Option.some.injEq, exists_eq_left']
    split_ifs with hleft
    · simpa using hleft
    · simpa using hleft

theorem taken_sweep {id : HandleType} : s.sweepColorBuffersLocked.taken id = false ↔ s.Vacant id := by
  unfold FrameBuffer.Vacant
  rw [← sweep_eq_none, taken_eq_false]
  constructor
  · rintro ⟨hzero, hall⟩
    exact ⟨hzero, hall .context, isSome_eq_false_iff.mp (hall .window) |> isNone_iff_eq_none.mp,
      hall .buffer, isSome_eq_false_iff.mp (hall .colorBuffer) |> isNone_iff_eq_none.mp⟩
  · rintro ⟨hzero, hcontext, hwindow, hbuffer, hcolorBuffer⟩
    refine ⟨hzero, fun kind ↦ ?_⟩
    cases kind with
    | context => exact hcontext
    | window => exact isSome_eq_false_iff.mpr (isNone_iff_eq_none.mpr hwindow)
    | colorBuffer => exact isSome_eq_false_iff.mpr (isNone_iff_eq_none.mpr hcolorBuffer)
    | buffer => exact hbuffer

/-- The sweep leaves the map as it was only if no destroy waits for a color buffer there is. -/
theorem sweep_eq_iff : s.sweepColorBuffersLocked.m_colorbuffers = s.m_colorbuffers ↔
    ∀ handle ∈ s.mOutstandingColorBufferDestroys, s.m_colorbuffers handle = none := by
  constructor
  · intro heq handle hmem
    have hsame := (map_sweep s handle).symm.trans (congrFun heq handle)
    cases hlive : s.m_colorbuffers handle with
    | none => rfl
    | some ref =>
      rw [hlive] at hsame
      exact absurd hsame (dropped_ne (List.count_pos_iff.mpr hmem))
  · intro hall
    funext handle
    rw [map_sweep]
    cases hlive : s.m_colorbuffers handle with
    | none => rfl
    | some ref =>
      have hnone : handle ∉ s.mOutstandingColorBufferDestroys := by
        intro hmem
        rw [hall handle hmem] at hlive
        cases hlive
      rw [bind_some, List.count_eq_zero_of_not_mem hnone, dropped_zero]

end Sweep

/-! ## Creation -/

namespace FrameBuffer

/-- The four maps are as they were. -/
structure SameMaps (s s' : FrameBuffer) : Prop where
  contexts : s'.m_contexts = s.m_contexts
  windows : s'.m_windows = s.m_windows
  colorBuffers : s'.m_colorbuffers = s.m_colorbuffers
  buffers : s'.m_buffers = s.m_buffers

theorem SameMaps.refl (s : FrameBuffer) : s.SameMaps s := ⟨rfl, rfl, rfl, rfl⟩

end FrameBuffer

/-- A handle is returned exactly if it is new in the map of its kind, and 0 leaves the maps alone. -/
structure Agrees (kind : Kind) (s : FrameBuffer) (ret : HandleType) (s' : FrameBuffer) : Prop where
  handle : ∀ handle ≠ 0, ret = handle ↔ s.has kind handle = false ∧ s'.has kind handle = true
  failure : ret = 0 → s.SameMaps s'

/-- The creator returns, and its result agrees with the maps. -/
def AgreesOf (kind : Kind) (s : FrameBuffer) (result : Except Fault (HandleType × FrameBuffer)) : Prop :=
  ∃ ret s', result = .ok (ret, s') ∧ Agrees kind s ret s'

section Creation

variable {s s' : FrameBuffer} {host : Host} {thread : ThreadId} {isCreated : Bool} {kind : Kind}
  {ret : HandleType}

theorem SameMaps.has (h : s.SameMaps s') (kind : Kind) (id : HandleType) : s'.has kind id = s.has kind id := by
  cases kind with
  | context => exact congrFun h.contexts id
  | window => exact congrArg Option.isSome (congrFun h.windows id)
  | colorBuffer => exact congrArg Option.isSome (congrFun h.colorBuffers id)
  | buffer => exact congrFun h.buffers id

theorem agrees_zero (h : s.SameMaps s') : Agrees kind s 0 s' where
  handle handle hzero := by
    refine ⟨fun heq ↦ absurd heq.symm hzero, ?_⟩
    rintro ⟨hbefore, hafter⟩
    rw [SameMaps.has h, hbefore] at hafter
    cases hafter
  failure _ := h

theorem agrees_added (hzero : ret ≠ 0) (hfresh : s.has kind ret = false) (hself : s'.has kind ret = true)
    (hother : ∀ id, s'.has kind id = true → s.has kind id = true ∨ id = ret) : Agrees kind s ret s' where
  handle handle _ := by
    constructor
    · rintro rfl
      exact ⟨hfresh, hself⟩
    · rintro ⟨hbefore, hafter⟩
      obtain hlive | rfl := hother handle hafter
      · rw [hbefore] at hlive
        cases hlive
      · rfl
  failure hret := absurd hret hzero

/-- A result that is not a key cannot agree. -/
theorem Agrees.has (h : Agrees kind s ret s') (hzero : ret ≠ 0) : s'.has kind ret = true :=
  ((h.handle ret hzero).mp rfl).2

theorem agreesOf_ok : AgreesOf kind s (.ok (ret, s')) ↔ Agrees kind s ret s' := by
  constructor
  · rintro ⟨ret', state, heq, hagrees⟩
    cases heq
    exact hagrees
  · exact fun hagrees ↦ ⟨ret, s', rfl, hagrees⟩

theorem not_agreesOf_error {fault : Fault} : ¬ AgreesOf kind s (.error fault) := by
  rintro ⟨ret, s', heq, _⟩
  cases heq

theorem has_addContext_self : (s.addContext thread ret).has .context ret = true := by
  unfold addContext
  simp only
  split_ifs <;> exact Function.update_self ..

theorem has_addWindow_self : (s.addWindow thread ret).has .window ret = true := by
  unfold addWindow
  simp only
  split_ifs <;> simp [FrameBuffer.has, setInfo]

theorem agreesOf_createRenderContext {hasConfig : Bool} {share : HandleType} :
    AgreesOf .context s (s.createRenderContext thread hasConfig isCreated share) ↔
      hasConfig = false ∨ share ≠ 0 ∧ s.m_contexts share = false ∨ s.HasFree := by
  have hnone : AgreesOf .context s (.ok (0, s)) := agreesOf_ok.mpr (agrees_zero (.refl s))
  unfold createRenderContext
  by_cases hconfig : hasConfig = false
  · rw [if_pos hconfig]
    exact iff_of_true hnone (.inl hconfig)
  by_cases hshare : share ≠ 0 ∧ s.m_contexts share = false
  · rw [if_neg hconfig, if_pos hshare]
    exact iff_of_true hnone (.inr (.inl hshare))
  rw [if_neg hconfig, if_neg hshare]
  obtain ⟨id, hgen, hfirst⟩ | ⟨⟨fault, hgen⟩, hfull⟩ := genHandle_cases s
  · obtain ⟨hzero, hfresh⟩ := taken_eq_false.mp hfirst.isFree
    rw [hgen]
    refine iff_of_true ?_ (.inr (.inr ⟨id, hfirst.isFree⟩))
    cases isCreated with
    | true =>
      refine agreesOf_ok.mpr (agrees_added hzero (hfresh .context) has_addContext_self fun other hother ↦ ?_)
      exact (adds_addContext.has .context other hother).imp_right And.right
    | false => exact agreesOf_ok.mpr (agrees_zero ⟨rfl, rfl, rfl, rfl⟩)
  · rw [hgen]
    refine iff_of_false not_agreesOf_error ?_
    rintro (hcondition | hcondition | hcondition)
    · exact hconfig hcondition
    · exact hshare hcondition
    · exact hfull hcondition

/-- A surface that could not be created leaves its handle behind as the result. -/
theorem agreesOf_createWindowSurface {hasConfig : Bool} :
    AgreesOf .window s (s.createWindowSurface thread hasConfig isCreated) ↔
      hasConfig = false ∨ isCreated = true ∧ s.HasFree := by
  unfold createWindowSurface
  by_cases hconfig : hasConfig = false
  · rw [if_pos hconfig]
    exact iff_of_true (agreesOf_ok.mpr (agrees_zero (.refl s))) (.inl hconfig)
  rw [if_neg hconfig, or_iff_right hconfig]
  obtain ⟨id, hgen, hfirst⟩ | ⟨⟨fault, hgen⟩, hfull⟩ := genHandle_cases s
  · obtain ⟨hzero, hfresh⟩ := taken_eq_false.mp hfirst.isFree
    rw [hgen]
    cases isCreated with
    | true =>
      refine iff_of_true ?_ ⟨rfl, id, hfirst.isFree⟩
      refine agreesOf_ok.mpr (agrees_added hzero (hfresh .window) has_addWindow_self fun other hother ↦ ?_)
      exact (adds_addWindow.has .window other hother).imp_right And.right
    | false =>
      refine iff_of_false (fun hagrees ↦ ?_) fun hcondition ↦ Bool.false_ne_true hcondition.1
      have hkey : s.has .window id = true := (agreesOf_ok.mp hagrees).has hzero
      rw [hfresh .window] at hkey
      cases hkey
  · rw [hgen]
    exact iff_of_false not_agreesOf_error fun hcondition ↦ hfull hcondition.2

theorem createBufferWithHandleLocked_of_fresh (hfresh : ∀ kind, s.has kind ret = false) :
    s.createBufferWithHandleLocked isCreated ret =
      if isCreated then .ok (ret, { s with m_buffers := Function.update s.m_buffers ret true })
      else .ok (0, s) := by
  have hcolorBuffer : (s.m_colorbuffers ret).isSome = false := hfresh .colorBuffer
  have hbuffer : s.m_buffers ret = false := hfresh .buffer
  simp [createBufferWithHandleLocked, hcolorBuffer, hbuffer]

theorem agreesOf_createBuffer : AgreesOf .buffer s (s.createBuffer isCreated) ↔ s.HasFree := by
  unfold createBuffer
  obtain ⟨id, hgen, hfirst⟩ | ⟨⟨fault, hgen⟩, hfull⟩ := genHandle_cases s
  · obtain ⟨hzero, hfresh⟩ := taken_eq_false.mp hfirst.isFree
    have hcounted : ∀ kind, { s with s_nextHandle := id }.has kind id = false := hfresh
    rw [hgen]
    refine iff_of_true ?_ ⟨id, hfirst.isFree⟩
    simp only [createBufferWithHandleLocked_of_fresh hcounted]
    cases isCreated with
    | true =>
      refine agreesOf_ok.mpr (agrees_added hzero (hfresh .buffer) (Function.update_self ..) fun _ hother ↦ ?_)
      exact of_update_true hother
    | false => exact agreesOf_ok.mpr (agrees_zero ⟨rfl, rfl, rfl, rfl⟩)
  · rw [hgen]
    exact iff_of_false not_agreesOf_error hfull

theorem has_ownNewColorBuffer {id : HandleType} :
    (s.ownNewColorBuffer host thread ret).has .colorBuffer id = s.has .colorBuffer id := by
  unfold ownNewColorBuffer
  split_ifs <;> rfl

/-- The creation proper comes after the destroys that wait. -/
theorem agreesOf_createColorBuffer : AgreesOf .colorBuffer s (s.createColorBuffer host thread isCreated) ↔
      (∃ id, s.Vacant id) ∧
      (isCreated = true → ∀ id, First s.Vacant s.s_nextHandle id → s.m_colorbuffers id = none) ∧
      (isCreated = false → ∀ handle ∈ s.mOutstandingColorBufferDestroys, s.m_colorbuffers handle = none) := by
  have hvacant : (fun id ↦ s.sweepColorBuffersLocked.taken id = false) = s.Vacant :=
    funext fun id ↦ propext taken_sweep
  unfold createColorBuffer
  obtain ⟨id, hgen, hfirst⟩ | ⟨⟨fault, hgen⟩, hfull⟩ := genHandle_cases s.sweepColorBuffersLocked
  · obtain ⟨hzero, hfresh⟩ := taken_eq_false.mp hfirst.isFree
    rw [hvacant] at hfirst
    rw [hgen]
    -- nothing waits any more when the second sweep comes
    set counted : FrameBuffer := { s.sweepColorBuffersLocked with s_nextHandle := id } with hcounted
    have hswept : counted.sweepColorBuffersLocked = counted := rfl
    simp only [createColorBufferWithHandleLocked, hswept]
    cases isCreated with
    | true =>
      have hfreshId : (counted.m_colorbuffers id).isSome ≠ true := by
        rw [show (counted.m_colorbuffers id).isSome = false from hfresh .colorBuffer]
        exact Bool.false_ne_true
      rw [if_pos rfl, if_neg hfreshId, agreesOf_ok]
      constructor
      · intro hagrees
        refine ⟨⟨id, hfirst.isFree⟩, fun _ other hother ↦ ?_, fun hfalse ↦ (by cases hfalse)⟩
        rw [hother.unique hfirst]
        have habsent := ((hagrees.handle id hzero).mp rfl).1
        exact isNone_iff_eq_none.mp (isSome_eq_false_iff.mp habsent)
      · rintro ⟨_, hnew, _⟩
        have habsent : s.has .colorBuffer id = false :=
          isSome_eq_false_iff.mpr (isNone_iff_eq_none.mpr (hnew rfl id hfirst))
        refine agrees_added hzero habsent ?_ fun other hother ↦ ?_
        · rw [has_ownNewColorBuffer]
          exact congrArg Option.isSome (map_set_self ..)
        · rw [has_ownNewColorBuffer] at hother
          by_cases hself : other = id
          · exact .inr hself
          · left
            apply (shrinks_sweep s).has .colorBuffer other
            have hkept := congrArg Option.isSome (map_set_of_ne counted.colorBuffers id created hself)
            exact hkept.symm.trans hother
    | false =>
      rw [if_neg Bool.false_ne_true, agreesOf_ok, ← sweep_eq_iff]
      constructor
      · intro hagrees
        exact ⟨⟨id, hfirst.isFree⟩, fun htrue ↦ (by cases htrue), fun _ ↦ (hagrees.failure rfl).colorBuffers⟩
      · rintro ⟨_, _, hkept⟩
        exact agrees_zero ⟨rfl, rfl, hkept rfl, rfl⟩
  · rw [hgen]
    refine iff_of_false not_agreesOf_error ?_
    rintro ⟨⟨id, hid⟩, _⟩
    exact hfull ⟨id, taken_sweep.mpr hid⟩

end Creation

/-! ## Drains -/

/-- Nothing of the thread's sets is left in the maps. -/
structure Drained (s : FrameBuffer) (thread : ThreadId) (s' : FrameBuffer) : Prop where
  windows : ∀ handle ∈ (s.tInfo thread).m_windowSet, s'.m_windows handle = none
  contexts : ∀ handle ∈ (s.tInfo thread).m_contextSet, s'.m_contexts handle = false

section Drain

variable {s : FrameBuffer} {host : Host} {thread : ThreadId} {handle : HandleType} {order : List HandleType}

theorem foldl_update_false_of_mem {removed : List HandleType} {keys : HandleType → Bool} (h : handle ∈ removed) :
    removed.foldl (fun keys handle ↦ Function.update keys handle false) keys handle = false := by
  induction removed generalizing keys with
  | nil => cases h
  | cons first removed ih =>
    rw [List.foldl_cons]
    by_cases hrest : handle ∈ removed
    · exact ih hrest
    · obtain rfl : handle = first := (List.mem_cons.mp h).resolve_right hrest
      rw [foldl_update_false_of_not_mem hrest, Function.update_self]

theorem drainWindow_attached (h : s.Attached handle) :
    (drainWindow host s handle).m_windows handle = none := by
  obtain ⟨window, hwindow, hattached⟩ := h
  unfold drainWindow
  simp only [hwindow]
  rw [if_pos hattached]
  exact Function.update_self ..

/-- A surface with something attached goes at its turn and does not come back. -/
theorem drainWindows_attached (h : s.Attached handle) (hmem : handle ∈ order) :
    (order.foldl (drainWindow host) s).m_windows handle = none := by
  induction order generalizing s with
  | nil => cases hmem
  | cons first order ih =>
    rw [List.foldl_cons]
    by_cases hfirst : handle = first
    · subst hfirst
      by_contra hlive
      have hshrinks : Shrinks (drainWindow host s handle)
          (order.foldl (drainWindow host) (drainWindow host s handle)) :=
        shrinks_drainWindows
      have hback := hshrinks.windows handle (Option.isSome_iff_ne_none.mpr hlive)
      rw [drainWindow_attached h] at hback
      cases hback
    · refine ih ?_ ((List.mem_cons.mp hmem).resolve_left hfirst)
      obtain ⟨window, hwindow, hattached⟩ := h
      exact ⟨window, (m_windows_drainWindow fun heq ↦ absurd heq hfirst).trans hwindow, hattached⟩

theorem m_shuttingDown_drainWindows :
    (order.foldl (drainWindow host) s).m_shuttingDown = s.m_shuttingDown := by
  induction order generalizing s with
  | nil => rfl
  | cons first order ih =>
    rw [List.foldl_cons, ih]
    unfold drainWindow
    split
    · rfl
    · split_ifs <;> rfl

theorem m_windows_drained (hrunning : s.m_shuttingDown = false) :
    ((s.drainWindowSurface host thread order).drainRenderContext thread).m_windows =
      (order.foldl (drainWindow host) s).m_windows := by
  unfold drainWindowSurface
  rw [if_neg (by simp [hrunning])]
  unfold drainRenderContext
  split_ifs <;> rfl

/-- The contexts of the thread go, whatever its window surfaces are. -/
theorem m_contexts_drained (hrunning : s.m_shuttingDown = false) (hmem : handle ∈ (s.tInfo thread).m_contextSet) :
    ((s.drainWindowSurface host thread order).drainRenderContext thread).m_contexts handle = false := by
  unfold drainWindowSurface
  rw [if_neg (by simp [hrunning])]
  have hstill : ((order.foldl (drainWindow host) s).setInfo thread
      { s.tInfo thread with m_windowSet := [] }).m_shuttingDown = false :=
    m_shuttingDown_drainWindows.trans hrunning
  unfold drainRenderContext
  rw [if_neg (by simp [hstill])]
  refine foldl_update_false_of_mem ?_
  simpa [setInfo] using hmem

theorem drained_iff (horder : order.Perm (s.tInfo thread).m_windowSet) (hrunning : s.m_shuttingDown = false) :
    Drained s thread ((s.drainWindowSurface host thread order).drainRenderContext thread) ↔
      ∀ handle ∈ (s.tInfo thread).m_windowSet, ∀ window, s.m_windows handle = some window → window.attached ≠ 0 := by
  constructor
  · intro hdrained handle hmem window hwindow hnothing
    have hkept : (order.foldl (drainWindow host) s).m_windows handle = s.m_windows handle := by
      refine m_windows_drainWindows fun _ hattached ↦ ?_
      obtain ⟨other, hother, hsome⟩ := hattached
      rw [hwindow] at hother
      exact hsome (Option.some.inj hother ▸ hnothing)
    have hgone := hdrained.windows handle hmem
    rw [m_windows_drained hrunning, hkept, hwindow] at hgone
    cases hgone
  · intro hattached
    refine ⟨fun handle hmem ↦ ?_, fun handle hmem ↦ m_contexts_drained hrunning hmem⟩
    rw [m_windows_drained hrunning]
    cases hwindow : s.m_windows handle with
    | none =>
      refine (m_windows_drainWindows fun _ hnone ↦ ?_).trans hwindow
      obtain ⟨window, hsome, _⟩ := hnone
      rw [hwindow] at hsome
      cases hsome
    | some window =>
      exact drainWindows_attached ⟨window, hwindow, hattached handle hmem window hwindow⟩
        (horder.mem_iff.mpr hmem)

end Drain

/-- Exactly when the creators and the drains of a thread that ends agree with the maps. -/
theorem created_and_drained_iff (host : Host) (s : FrameBuffer) (thread : ThreadId) :
    (∀ hasConfig isCreated share,
      AgreesOf .context s (s.createRenderContext thread hasConfig isCreated share) ↔
        hasConfig = false ∨ share ≠ 0 ∧ s.m_contexts share = false ∨ s.HasFree) ∧
    (∀ hasConfig isCreated, AgreesOf .window s (s.createWindowSurface thread hasConfig isCreated) ↔
      hasConfig = false ∨ isCreated = true ∧ s.HasFree) ∧
    (∀ isCreated, AgreesOf .colorBuffer s (s.createColorBuffer host thread isCreated) ↔
      (∃ id, s.Vacant id) ∧
      (isCreated = true → ∀ id, First s.Vacant s.s_nextHandle id → s.m_colorbuffers id = none) ∧
      (isCreated = false →
        ∀ handle ∈ s.mOutstandingColorBufferDestroys, s.m_colorbuffers handle = none)) ∧
    (∀ isCreated, AgreesOf .buffer s (s.createBuffer isCreated) ↔ s.HasFree) ∧
    (∀ order, order.Perm (s.tInfo thread).m_windowSet → s.m_shuttingDown = false →
      (Drained s thread ((s.drainWindowSurface host thread order).drainRenderContext thread) ↔
        ∀ handle ∈ (s.tInfo thread).m_windowSet, ∀ window, s.m_windows handle = some window →
          window.attached ≠ 0)) :=
  ⟨fun _ _ _ ↦ agreesOf_createRenderContext, fun _ _ ↦ agreesOf_createWindowSurface,
    fun _ ↦ agreesOf_createColorBuffer, fun _ ↦ agreesOf_createBuffer, fun _ ↦ drained_iff⟩

/-- A thread with one context and one window surface, to which a color buffer is attached. -/
def FrameBuffer.oneOfEach : FrameBuffer :=
  { FrameBuffer.new with
    s_nextHandle := 3
    m_contexts := fun handle ↦ handle = 1
    m_windows := fun handle ↦ if handle = 2 then some ⟨3, [3]⟩ else none
    colorBuffers := ColorBuffers.new.set 3 created
    tInfo := fun _ ↦ ⟨0, [1], [2]⟩ }

theorem created_and_drained_oneOfEach :
    AgreesOf .window .oneOfEach (FrameBuffer.oneOfEach.createWindowSurface 1 true true) ∧
    Drained .oneOfEach 1
      ((FrameBuffer.oneOfEach.drainWindowSurface .counting 1 [2]).drainRenderContext 1) := by
  obtain ⟨_, hwindow, _, _, hdrain⟩ := created_and_drained_iff .counting .oneOfEach 1
  refine ⟨(hwindow true true).mpr (.inr ⟨rfl, 4, by decide⟩), (hdrain [2] (List.Perm.refl _) rfl).mpr ?_⟩
  intro handle hmem window hsome
  obtain rfl : handle = 2 := List.mem_singleton.mp hmem
  obtain rfl : ⟨3, [3]⟩ = window := Option.some.inj hsome
  decide

/-- The result of a creation that failed is no key of `m_windows`, and a window surface that
nothing was attached to outlives its thread. -/
theorem window_handle_without_window :
    (∃ s', FrameBuffer.new.createWindowSurface 1 true false = .ok (1, s') ∧ s'.m_windows 1 = none) ∧
    ¬ AgreesOf .window .new (FrameBuffer.new.createWindowSurface 1 true false) ∧
    ∃ s, FrameBuffer.new.createWindowSurface 1 true true = .ok (1, s) ∧ (s.tInfo 1).m_windowSet = [1] ∧
      ((s.drainWindowSurface .counting 1 [1]).drainRenderContext 1).m_windows 1 = some ⟨0, []⟩ ∧
      ¬ Drained s 1 ((s.drainWindowSurface .counting 1 [1]).drainRenderContext 1) := by
  refine ⟨⟨_, rfl, rfl⟩, fun hagrees ↦ ?_, _, rfl, rfl, rfl, fun hdrained ↦ ?_⟩
  · have hcondition := agreesOf_createWindowSurface.mp hagrees
    revert hcondition
    simp
  · have hgone := hdrained.windows 1 (List.mem_singleton.mpr rfl)
    cases hgone

end FdeEmugl.Fb
