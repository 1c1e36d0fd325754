import FdeEmugl.Library.Runs
import FdeEmugl.Library.TwoWayMap
import FdeEmugl.Pipe.HostGoldfishPipe

/-!
# The registry of the pipes

The two maps of a device are each other's inverse. They stay so in every run that loads only pipes whose
service is registered, and single pipes only under fds that the device has given out already.
-/

namespace FdeEmugl.HostPipe

open Runs TwoWayMap
open Function (update_of_ne update_self)

section Maps

variable {Key Value : Type*} [DecidableEq Key] {map : AList fun _ : Key ↦ Value} {key : Key} {value : Value}

theorem lookup_insert_eq_update :
    (fun other ↦ (map.insert key value).lookup other) = Function.update (fun other ↦ map.lookup other) key (some value) := by
  funext other
  by_cases heq : other = key
  · rw [heq, update_self, AList.lookup_insert]
  · rw [update_of_ne heq, AList.lookup_insert_ne heq]

theorem lookup_erase_eq_update :
    (fun other ↦ (map.erase key).lookup other) = Function.update (fun other ↦ map.lookup other) key none := by
  funext other
  by_cases heq : other = key
  · rw [heq, update_self, AList.lookup_erase]
  · rw [update_of_ne heq, AList.lookup_erase_ne heq]

theorem erase_of_not_mem (h : key ∉ map) : map.erase key = map := AList.ext (List.kerase_of_notMem_keys h)

theorem ok_bind {α β : Type} (result : α) (next : α → Except Die β) : (Except.ok result >>= next) = next result := rfl

end Maps

namespace Device

variable {d : Device}

/-- The host pipe of an fd. -/
def hostPipeAt (d : Device) (fd : ℤ) : Option ℕ := (d.lookupFdInfo fd).map FdInfo.hostPipe

/-- The invariant. -/
structure Sound (d : Device) : Prop where
  paired : Paired d.hostPipeAt fun hostPipe ↦ d.mPipeToHwPipe.lookup hostPipe
  notNull : ∀ fd, d.hostPipeAt fd ≠ some 0
  generated : ∀ fd ∈ d.mFdInfo, fd ≤ d.mFdGenerator
  nonneg : 0 ≤ d.mFdGenerator

variable {fd : ℤ} {after : Device}

theorem sound_new : new.Sound where
  paired := paired_none
  notNull _ := nofun
  generated _ hfd := absurd hfd (AList.notMem_empty _)
  nonneg := le_refl 0

theorem mem_hostPipes {hostPipe : ℕ} : hostPipe ∈ d.hostPipes ↔ ∃ fd, d.hostPipeAt fd = some hostPipe := by
  unfold hostPipes hostPipeAt lookupFdInfo
  simp only [List.mem_map, Option.map_eq_some_iff]
  constructor
  · rintro ⟨entry, hentry, heq⟩
    exact ⟨entry.1, entry.2, AList.mem_lookup_iff.mpr hentry, heq⟩
  · rintro ⟨fd, info, hinfo, heq⟩
    exact ⟨⟨fd, info⟩, AList.mem_lookup_iff.mp hinfo, heq⟩

theorem hostPipeAt_eq_none : d.hostPipeAt fd = none ↔ fd ∉ d.mFdInfo := by
  unfold hostPipeAt lookupFdInfo
  rw [Option.map_eq_none_iff, AList.lookup_eq_none]

theorem hostPipeAt_insert {info : FdInfo} (h : after.mFdInfo = d.mFdInfo.insert fd info) :
    after.hostPipeAt = Function.update d.hostPipeAt fd (some info.hostPipe) := by
  funext other
  unfold hostPipeAt lookupFdInfo
  rw [h]
  by_cases heq : other = fd
  · rw [heq, update_self, AList.lookup_insert, Option.map_some]
  · rw [update_of_ne heq, AList.lookup_insert_ne heq]

theorem hostPipeAt_erase (h : after.mFdInfo = d.mFdInfo.erase fd) :
    after.hostPipeAt = Function.update d.hostPipeAt fd none := by
  funext other
  unfold hostPipeAt lookupFdInfo
  rw [h]
  by_cases heq : other = fd
  · rw [heq, update_self, AList.lookup_erase, Option.map_none]
  · rw [update_of_ne heq, AList.lookup_erase_ne heq]

section

variable (h : d.Sound)
include h

/-- The same pipes are open. -/
theorem Sound.of_same (hinfo : after.mFdInfo = d.mFdInfo) (hpipes : after.mPipeToHwPipe = d.mPipeToHwPipe)
    (hfd : d.mFdGenerator ≤ after.mFdGenerator) : after.Sound := by
  have hat : after.hostPipeAt = d.hostPipeAt := by
    unfold hostPipeAt lookupFdInfo
    rw [hinfo]
  refine ⟨?_, ?_, fun fd hfd' ↦ ?_, h.nonneg.trans hfd⟩
  · rw [hat, hpipes]
    exact h.paired
  · rw [hat]
    exact h.notNull
  · rw [hinfo] at hfd'
    exact (h.generated fd hfd').trans hfd

theorem Sound.associatePipes (info : FdInfo) (hfd : fd ∉ d.mFdInfo) (hle : fd ≤ d.mFdGenerator)
    (hnew : d.IsNew info.hostPipe) :
    ∃ after, d.associatePipes fd info = .ok after ∧ after.Sound ∧ after.mFdInfo = d.mFdInfo.insert fd info ∧
      after.mFdGenerator = d.mFdGenerator ∧ after.services = d.services := by
  refine ⟨_, if_neg hfd, ?_, rfl, rfl, rfl⟩
  have hfree : d.mPipeToHwPipe.lookup info.hostPipe = none := by
    refine Option.eq_none_iff_forall_ne_some.mpr fun other hother ↦ hnew.2 ?_
    exact mem_hostPipes.mpr ⟨other, (h.paired other info.hostPipe).mpr hother⟩
  refine ⟨?_, fun other ↦ ?_, fun other hother ↦ ?_, h.nonneg⟩
  · rw [hostPipeAt_insert rfl, lookup_insert_eq_update]
    exact h.paired.bind (hostPipeAt_eq_none.mpr hfd) hfree
  · rw [hostPipeAt_insert rfl]
    by_cases heq : other = fd
    · rw [heq, update_self]
      exact fun hnull ↦ hnew.1 (Option.some.inj hnull)
    · rw [update_of_ne heq]
      exact h.notNull other
  · obtain rfl | hother := AList.mem_insert _ |>.mp hother
    · exact hle
    · exact h.generated other hother

theorem Sound.eraseFdInfo (fd : ℤ) :
    ∃ erased after, d.eraseFdInfo fd = .ok (erased, after) ∧ after.Sound ∧ after.mFdInfo = d.mFdInfo.erase fd ∧
      after.mFdGenerator = d.mFdGenerator ∧ after.services = d.services := by
  unfold Device.eraseFdInfo
  cases hlookup : d.lookupFdInfo fd with
  | none => exact ⟨false, d, rfl, h, (erase_of_not_mem (AList.lookup_eq_none.mp hlookup)).symm, rfl, rfl⟩
  | some info =>
    have hat : d.hostPipeAt fd = some info.hostPipe := by
      unfold hostPipeAt
      rw [hlookup, Option.map_some]
    have hback := (h.paired fd info.hostPipe).mp hat
    have hkey : info.hostPipe ∈ d.mPipeToHwPipe := AList.lookup_isSome.mp (Option.isSome_iff_exists.mpr ⟨fd, hback⟩)
    refine ⟨true, _, if_pos hkey, ?_, rfl, rfl, rfl⟩
    refine ⟨?_, fun other ↦ ?_, fun other hother ↦ ?_, h.nonneg⟩
    · rw [hostPipeAt_erase rfl, lookup_erase_eq_update]
      exact h.paired.unbind hat
    · rw [hostPipeAt_erase rfl]
      by_cases heq : other = fd
      · rw [heq, update_self]
        exact nofun
      · rw [update_of_ne heq]
        exact h.notNull other
    · exact h.generated other (AList.mem_erase.mp hother).2

theorem Sound.close (fd : ℤ) : ∃ after, d.close fd = .ok after ∧ after.Sound := by
  obtain ⟨erased, after, herase, hsound, -⟩ := h.eraseFdInfo fd
  unfold Device.close
  rw [herase]
  cases erased with
  | true => exact ⟨after, rfl, hsound⟩
  | false => exact ⟨_, rfl, hsound.of_same rfl rfl le_rfl⟩

/-- Pipes are erased one by one. -/
theorem Sound.foldlM_erase (fds : List ℤ) :
    ∃ after, fds.foldlM (fun d fd ↦ (d.eraseFdInfo fd).map Prod.snd) d = .ok after ∧ after.Sound ∧
      after.mFdGenerator = d.mFdGenerator ∧ after.services = d.services ∧
        ∀ fd ∈ after.mFdInfo, fd ∈ d.mFdInfo ∧ fd ∉ fds := by
  induction fds generalizing d with
  | nil => exact ⟨d, rfl, h, rfl, rfl, fun fd hfd ↦ ⟨hfd, List.not_mem_nil⟩⟩
  | cons fd fds ih =>
    obtain ⟨erased, middle, herase, hsound, hinfo, hgenerator, hservices⟩ := h.eraseFdInfo fd
    obtain ⟨after, hrest, hsound, hgenerator', hservices', hleft⟩ := ih hsound
    refine ⟨after, ?_, hsound, hgenerator'.trans hgenerator, hservices'.trans hservices, fun other hother ↦ ?_⟩
    · rw [List.foldlM_cons, herase]
      exact hrest
    · obtain ⟨hother, hnot⟩ := hleft other hother
      rw [hinfo, AList.mem_erase] at hother
      exact ⟨hother.2, List.not_mem_cons_of_ne_of_not_mem hother.1 hnot⟩

theorem Sound.clearLocked : ∃ after, d.clearLocked = .ok after ∧ after.Sound ∧ after.mFdGenerator = d.mFdGenerator ∧
      after.services = d.services ∧ ∀ fd, fd ∉ after.mFdInfo := by
  obtain ⟨after, hclear, hsound, hgenerator, hservices, hleft⟩ := h.foldlM_erase d.mFdInfo.keys
  exact ⟨after, hclear, hsound, hgenerator, hservices, fun fd hfd ↦ (hleft fd hfd).2 (AList.mem_keys.mp (hleft fd hfd).1)⟩

end

/-! ## Connecting and loading -/

theorem bmod_succ (hnonneg : 0 ≤ fd) (hlt : fd < 2 ^ 31 - 1) : (fd + 1).bmod (2 ^ 32) = fd + 1 := by
  apply Int.bmod_eq_of_le <;> omega

/-- The next fd is not open. -/
theorem Sound.succ_not_mem (h : d.Sound) : d.mFdGenerator + 1 ∉ d.mFdInfo := fun hmem ↦
  absurd (h.generated _ hmem) (by omega)

theorem Sound.connect (h : d.Sound) (hlt : d.mFdGenerator < 2 ^ 31 - 1) (name : Name) {created : Option ℕ}
    (hnew : ∀ hostPipe ∈ created, d.IsNew hostPipe) :
    ∃ fd after, d.connect name created = .ok (fd, after) ∧ after.Sound := by
  have hfd := bmod_succ h.nonneg hlt
  have hraised : ({ d with mFdGenerator := d.mFdGenerator + 1 } : Device).Sound :=
    h.of_same rfl rfl (by dsimp only; omega)
  unfold Device.connect
  rw [hfd]
  dsimp only
  split
  · rename_i service hostPipe _
    obtain ⟨after, hassociate, hsound, -⟩ :=
      hraised.associatePipes ⟨hostPipe, service⟩ h.succ_not_mem le_rfl (hnew hostPipe rfl)
    exact ⟨_, after, by rw [hassociate]; rfl, hsound⟩
  · exact ⟨_, _, rfl, hraised.of_same rfl rfl le_rfl⟩

/-- What a load gets to before the first pipe that is to be closed. -/
def reached (d : Device) (pipes : List (SavedPipe × Option ℕ)) : List (SavedPipe × Option ℕ) :=
  pipes.takeWhile fun pipe ↦ pipe.1.service ∉ d.services ∨ pipe.2.isSome

theorem IsNew.insert {hostPipe : ℕ} (h : d.IsNew hostPipe) {info : FdInfo}
    (hinfo : after.mFdInfo = d.mFdInfo.insert fd info) (hne : hostPipe ≠ info.hostPipe) :
    after.IsNew hostPipe := by
  refine ⟨h.1, fun hmem ↦ ?_⟩
  obtain ⟨other, hother⟩ := mem_hostPipes.mp hmem
  rw [hostPipeAt_insert hinfo] at hother
  by_cases heq : other = fd
  · rw [heq, update_self] at hother
    exact hne (Option.some.inj hother).symm
  · rw [update_of_ne heq] at hother
    exact h.2 (mem_hostPipes.mpr ⟨other, hother⟩)

section

variable (h : d.Sound) {pipes : List (SavedPipe × Option ℕ)}
  (hservices : ∀ pipe ∈ d.reached pipes, pipe.1.service ∈ d.services)
  (hfds : (pipes.map fun pipe ↦ pipe.1.fd).Nodup)
include h hservices hfds

theorem Sound.loadPipes (hclosed : ∀ pipe ∈ pipes, pipe.1.fd ∉ d.mFdInfo)
    (hdistinct : (pipes.filterMap Prod.snd).Nodup)
    (hnew : ∀ hostPipe ∈ pipes.filterMap Prod.snd, d.IsNew hostPipe) :
    ∃ after, d.loadPipes pipes = .ok after ∧ after.Sound := by
  induction pipes generalizing d with
  | nil => exact ⟨d, rfl, h⟩
  | cons pipe rest ih =>
    obtain ⟨saved, loaded⟩ := pipe
    have hservice : saved.service ∈ d.services := by
      by_contra hservice
      have hreached : (saved, loaded) ∈ d.reached ((saved, loaded) :: rest) := by
        unfold reached
        rw [List.takeWhile_cons_of_pos (by simp [hservice])]
        exact .head _
      exact hservice (hservices _ hreached)
    have hraised : ({ d with mFdGenerator := max d.mFdGenerator saved.fd } : Device).Sound :=
      h.of_same rfl rfl (le_max_left _ _)
    cases loaded with
    | none =>
      simp only [Device.loadPipes, android_pipe_guest_load, if_pos hservice]
      exact ⟨_, rfl, hraised.of_same rfl rfl le_rfl⟩
    | some hostPipe =>
      obtain ⟨hfd, hfds⟩ := List.nodup_cons.mp hfds
      have hpipes : ((saved, some hostPipe) :: rest).filterMap Prod.snd = hostPipe :: rest.filterMap Prod.snd := rfl
      rw [hpipes] at hdistinct hnew
      obtain ⟨hpipe, hdistinct⟩ := List.nodup_cons.mp hdistinct
      obtain ⟨middle, hassociate, hsound, hinfo, -, hsame⟩ :=
        hraised.associatePipes ⟨hostPipe, saved.service⟩ (hclosed _ (.head rest)) (le_max_right _ _)
          (hnew hostPipe (.head _))
      simp only [Device.loadPipes, android_pipe_guest_load, if_pos hservice, hassociate, ok_bind]
      refine ih hsound (fun pipe hreached ↦ ?_) hfds (fun pipe hrest hmem ↦ ?_) hdistinct fun other hother ↦ ?_
      · unfold reached at hreached
        rw [hsame] at hreached ⊢
        refine hservices pipe ?_
        unfold reached
        rw [List.takeWhile_cons_of_pos (by simp)]
        exact .tail _ hreached
      · rw [hinfo, AList.mem_insert] at hmem
        obtain heq | hmem := hmem
        · exact hfd (List.mem_map.mpr ⟨pipe, hrest, heq⟩)
        · exact hclosed pipe (.tail _ hrest) hmem
      · refine IsNew.insert (hnew other (.tail _ hother)) hinfo ?_
        rintro rfl
        exact hpipe hother

theorem Sound.loadSnapshot (hdistinct : (pipes.filterMap Prod.snd).Nodup)
    (hnotNull : 0 ∉ pipes.filterMap Prod.snd) : ∃ after, d.loadSnapshot pipes = .ok after ∧ after.Sound := by
  obtain ⟨cleared, hclear, hsound, -, hsame, hnone⟩ := h.clearLocked
  have hload : d.loadSnapshot pipes = cleared.loadPipes pipes := by
    unfold Device.loadSnapshot
    rw [hclear]
    rfl
  rw [hload]
  unfold reached at hservices
  rw [← hsame] at hservices
  refine hsound.loadPipes hservices hfds (fun pipe _ ↦ hnone pipe.1.fd) hdistinct fun hostPipe hmem ↦ ⟨?_, ?_⟩
  · rintro rfl
    exact hnotNull hmem
  · intro hopen
    obtain ⟨fd, hfd⟩ := mem_hostPipes.mp hopen
    rw [hostPipeAt_eq_none.mpr (hnone fd)] at hfd
    cases hfd

end

theorem Sound.loadSnapshotSinglePipe (h : d.Sound) {saved : SavedPipe} {loaded : Option ℕ}
    (hservice : saved.service ∈ d.services) (hle : loaded.isSome → saved.fd ≤ d.mFdGenerator)
    (hnew : ∀ hostPipe ∈ loaded, ({ d with mFdInfo := d.mFdInfo.erase saved.fd } : Device).IsNew hostPipe) :
    ∃ result, d.loadSnapshotSinglePipe [(saved, loaded)] = .ok result ∧ result.2.Sound := by
  obtain ⟨erased, middle, herase, hsound, hinfo, hgenerator, hsame⟩ := h.eraseFdInfo saved.fd
  have hregistered : saved.service ∈ middle.services := hsame ▸ hservice
  cases loaded with
  | none =>
    simp only [Device.loadSnapshotSinglePipe, herase, ok_bind, android_pipe_guest_load, if_pos hregistered]
    exact ⟨(saved.fd, { middle with mErrno := EIO }), rfl, hsound.of_same rfl rfl le_rfl⟩
  | some hostPipe =>
    have hclosed : saved.fd ∉ middle.mFdInfo := by
      rw [hinfo, AList.mem_erase]
      exact fun hmem ↦ hmem.1 rfl
    have hfresh : middle.IsNew hostPipe := by
      have := hnew hostPipe rfl
      unfold IsNew hostPipes at this ⊢
      rwa [hinfo]
    obtain ⟨after, hassociate, hsound, -⟩ := hsound.associatePipes ⟨hostPipe, saved.service⟩ hclosed
      (hgenerator ▸ hle rfl) hfresh
    simp only [Device.loadSnapshotSinglePipe, herase, ok_bind, android_pipe_guest_load, if_pos hregistered,
      hassociate]
    exact ⟨(saved.fd, after), rfl, hsound⟩

theorem nodup_saveSnapshot (d : Device) {order : List ℤ} (h : order.Nodup) :
    ((d.saveSnapshot order).map SavedPipe.fd).Nodup := by
  have hsublist : ((d.saveSnapshot order).map SavedPipe.fd).Sublist order := by
    unfold saveSnapshot
    induction order with
    | nil => exact .slnil
    | cons fd order ih =>
      cases hlookup : d.lookupFdInfo fd with
      | none =>
        rw [List.filterMap_cons_none (by rw [hlookup]; rfl)]
        exact (ih h.of_cons).cons fd
      | some info =>
        rw [List.filterMap_cons_some (by rw [hlookup]; rfl)]
        exact (ih h.of_cons).cons_cons fd
  exact h.sublist hsublist

end Device

/-! ## Runs -/

/-- A device may die only where a pipe that is not open is to be saved. -/
structure Fine (result : Except Die Device) : Prop where
  sound : ∀ d, result = .ok d → d.Sound
  died : ∀ die, result = .error die → die = .saveSnapshot

variable {d : Device} {w : World}

theorem fine_ok (h : d.Sound) : Fine (.ok d) := ⟨fun _ heq ↦ Except.ok.inj heq ▸ h, nofun⟩

theorem fine_of_exists {result : Except Die Device} (h : ∃ after, result = .ok after ∧ after.Sound) : Fine result := by
  obtain ⟨after, rfl, hsound⟩ := h
  exact fine_ok hsound

theorem fine_map {α : Type} {result : Except Die (α × Device)} (h : ∃ after, result = .ok after ∧ after.2.Sound) :
    Fine (result.map Prod.snd) := by
  obtain ⟨after, rfl, hsound⟩ := h
  exact fine_ok hsound

structure World.Sound (w : World) : Prop where
  devices : ∀ session, Fine (w.devices session)
  snapshots : ∀ snapshot ∈ w.snapshots, (snapshot.map SavedPipe.fd).Nodup

/-- The condition under which an operation keeps the registry. -/
def Operation.KeepsRegistry (d : Device) : Operation → Prop
  | .connect _ _ => d.mFdGenerator < 2 ^ 31 - 1
  | .loadSnapshot snapshot loaded =>
    ∀ pipe ∈ d.reached (snapshot.zip loaded), pipe.1.service ∈ d.services
  | .loadSnapshotSinglePipe snapshot loaded =>
    snapshot.length = 1 → ∀ pipe ∈ snapshot.zip loaded,
      pipe.1.service ∈ d.services ∧ (pipe.2.isSome → pipe.1.fd ≤ d.mFdGenerator)
  | _ => True

instance decidableOperationKeepsRegistry (d : Device) : ∀ operation, Decidable (Operation.KeepsRegistry d operation)
  | .connect _ _ => inferInstanceAs (Decidable (_ < _))
  | .loadSnapshot _ _ => inferInstanceAs (Decidable (∀ _ ∈ _, _))
  | .loadSnapshotSinglePipe _ _ => inferInstanceAs (Decidable (_ → ∀ _ ∈ _, _))
  | .addService _ | .resetServices | .close _ | .closeFromHost _ | .read _ _ | .write _ _ | .saveSnapshot _
  | .savePipe _ | .clear => isTrue trivial

/-- Loaded pipes have registered services, and a single pipe comes under an fd that has been given out. -/
def KeepsRegistry (label : ℕ × Operation) (w : World) : Prop :=
  ∀ d ∈ (w.devices label.1).toOption, label.2.KeepsRegistry d

theorem Device.Sound.errno (h : d.Sound) (answer : ℤ) : (d.setErrno answer).Sound := by
  unfold Device.setErrno
  split_ifs <;> first | exact h | exact h.of_same rfl rfl le_rfl

section

variable {snapshot : List SavedPipe} {loaded : List (Option ℕ)} (h : loaded.length = snapshot.length)
include h

theorem map_fd_zip : ((snapshot.zip loaded).map fun pipe ↦ pipe.1.fd) = snapshot.map SavedPipe.fd := by
  have hfst : (snapshot.zip loaded).map Prod.fst = snapshot := List.map_fst_zip h.ge
  nth_rewrite 2 [← hfst]
  rw [List.map_map]
  rfl

theorem filterMap_zip : (snapshot.zip loaded).filterMap Prod.snd = loaded.reduceOption := by
  have hsnd : (snapshot.zip loaded).map Prod.snd = loaded := List.map_snd_zip h.le
  change _ = loaded.filterMap id
  nth_rewrite 2 [← hsnd]
  rw [List.filterMap_map]
  rfl

end

theorem loadSnapshotSinglePipe_of_length {pipes : List (SavedPipe × Option ℕ)} (h : pipes.length ≠ 1) :
    d.loadSnapshotSinglePipe pipes = .ok (kNoFd, { d with mErrno := EIO }) := by
  match pipes with
  | [] => rfl
  | [pipe] => exact absurd rfl h
  | _ :: _ :: _ => rfl

theorem fine_perform (hw : w.Sound) (h : d.Sound) {operation : Operation} (hpossible : operation.Possible w d)
    (hkeeps : operation.KeepsRegistry d) : Fine (operation.perform d).1 := by
  cases operation with
  | addService name => exact fine_ok (h.of_same rfl rfl le_rfl)
  | resetServices => exact fine_ok (h.of_same rfl rfl le_rfl)
  | connect name created =>
    obtain ⟨fd, after, hconnect, hsound⟩ := h.connect hkeeps name hpossible
    exact fine_map ⟨(fd, after), hconnect, hsound⟩
  | close fd => exact fine_of_exists (h.close fd)
  | closeFromHost hwPipe => exact fine_of_exists (h.close hwPipe)
  | read fd answer =>
    refine fine_ok ?_
    unfold Device.read
    split
    · exact h.of_same rfl rfl le_rfl
    · exact h.errno answer
  | write fd answer =>
    refine fine_ok ?_
    unfold Device.write
    split
    · exact h.of_same rfl rfl le_rfl
    · exact h.errno answer
  | saveSnapshot order => exact fine_ok h
  | savePipe fd =>
    change Fine ((d.savePipe fd).map fun _ ↦ d)
    unfold Device.savePipe
    split
    · exact ⟨nofun, fun die heq ↦ (Except.error.inj heq).symm⟩
    · exact fine_ok h
  | loadSnapshot snapshot loaded =>
    obtain ⟨hsaved, hlength, hdistinct, hnotNull⟩ := hpossible
    have hfds := hw.snapshots snapshot hsaved
    rw [← map_fd_zip hlength] at hfds
    rw [← filterMap_zip hlength] at hdistinct hnotNull
    exact fine_of_exists (h.loadSnapshot hkeeps hfds hdistinct hnotNull)
  | loadSnapshotSinglePipe snapshot loaded =>
    obtain ⟨hsaved, hlength, hnew⟩ := hpossible
    by_cases hone : snapshot.length = 1
    · obtain ⟨saved, rfl⟩ := List.length_eq_one_iff.mp hone
      obtain ⟨created, rfl⟩ := List.length_eq_one_iff.mp (hlength.trans hone)
      obtain ⟨hservice, hle⟩ := hkeeps hone (saved, created) (.head _)
      refine fine_map (h.loadSnapshotSinglePipe hservice hle fun hostPipe hcreated ↦ ?_)
      exact hnew saved (.head _) hostPipe (List.mem_filterMap.mpr ⟨created, .head _, hcreated⟩)
    · refine fine_map ⟨(kNoFd, { d with mErrno := EIO }), ?_, h.of_same rfl rfl le_rfl⟩
      have hzip : (snapshot.zip loaded).length ≠ 1 := by
        rw [List.length_zip, hlength, Nat.min_self]
        exact hone
      exact loadSnapshotSinglePipe_of_length hzip
  | clear =>
    obtain ⟨after, hclear, hsound, -⟩ := h.clearLocked
    exact fine_of_exists ⟨after, hclear, hsound⟩

theorem nodup_perform {operation : Operation} (hpossible : operation.Possible w d) :
    ∀ snapshot ∈ (operation.perform d).2, (snapshot.map SavedPipe.fd).Nodup := by
  intro snapshot hsnapshot
  cases operation with
  | saveSnapshot order =>
    obtain rfl := List.mem_singleton.mp hsnapshot
    exact d.nodup_saveSnapshot (hpossible.symm.nodup d.mFdInfo.keys_nodup)
  | savePipe fd =>
    change snapshot ∈ (d.savePipe fd).toOption.toList at hsnapshot
    unfold Device.savePipe at hsnapshot
    split at hsnapshot
    · cases hsnapshot
    · obtain rfl := List.mem_singleton.mp hsnapshot
      exact List.nodup_singleton fd
  | _ => cases hsnapshot

theorem sound_init : World.init.Sound where
  devices _ := fine_ok Device.sound_new
  snapshots _ hsnapshot := nomatch hsnapshot

theorem World.Sound.step {next : World} (hw : w.Sound) {label : ℕ × Operation}
    (hkeeps : KeepsRegistry label w) (hstep : worldStep label w = some next) : next.Sound := by
  obtain ⟨session, operation⟩ := label
  unfold worldStep at hstep
  unfold KeepsRegistry at hkeeps
  dsimp only at hstep hkeeps
  cases hdevice : w.devices session with
  | error die =>
    rw [hdevice] at hstep
    cases hstep
  | ok d =>
    rw [hdevice] at hstep hkeeps
    dsimp only at hstep
    split_ifs at hstep with hpossible
    cases hstep
    have hsound := (hw.devices session).sound d hdevice
    refine ⟨fun other ↦ ?_, fun snapshot hsnapshot ↦ ?_⟩
    · change Fine (Function.update w.devices session _ other)
      by_cases heq : other = session
      · rw [heq, update_self]
        exact fine_perform hw hsound hpossible (hkeeps d rfl)
      · rw [update_of_ne heq]
        exact hw.devices other
    · obtain hnew | hold := List.mem_append.mp hsnapshot
      · exact nodup_perform hpossible snapshot hnew
      · exact hw.snapshots snapshot hold

instance decidableKeepsRegistry (label : ℕ × Operation) (w : World) : Decidable (KeepsRegistry label w) :=
  inferInstanceAs (Decidable (∀ _ ∈ _, _))

end FdeEmugl.HostPipe
