import Mathlib.Algebra.Group.Nat.Defs
import Mathlib.Algebra.Order.Group.Int
import Mathlib.Data.List.AList

/-!
# HostGoldfishPipeDevice

The device keeps its open pipes under their fds and knows the hardware pipe of every host pipe. A snapshot
holds the fds of the pipes and the names of their services. It may be loaded by another device, which has
services of its own.
-/

namespace FdeEmugl.HostPipe

abbrev Name := List UInt8

instance decidableMemNames (name : Name) (names : List Name) : Decidable (name ∈ names) := inferInstance

/-- The places at which `crashhandler_die_format` is called. -/
inductive Die where
  | associatePipes
  | eraseFdInfo
  | saveSnapshot
deriving DecidableEq

/-- A pipe is known by its address, and the service that made it by its name. -/
structure FdInfo where
  hostPipe : ℕ
  service : Name
deriving DecidableEq

/-- A hardware pipe is known by its fd; `services` are those that are registered. -/
structure Device where
  services : List Name
  mFdGenerator : ℤ
  mErrno : ℤ
  mFdInfo : AList fun _ : ℤ ↦ FdInfo
  mPipeToHwPipe : AList fun _ : ℕ ↦ ℤ

structure SavedPipe where
  fd : ℤ
  service : Name
deriving DecidableEq

def kNoFd : ℤ := -1
def ENOENT : ℤ := 2
def EIO : ℤ := 5
def EINVAL : ℤ := 22
def EAGAIN : ℤ := 11
def ENOMEM : ℤ := 12
def PIPE_ERROR_INVAL : ℤ := -1
def PIPE_ERROR_AGAIN : ℤ := -2
def PIPE_ERROR_NOMEM : ℤ := -3
def PIPE_ERROR_IO : ℤ := -4

/-- What the buffer of a connector pipe takes. -/
def kBufferSize : ℕ := 128

/-- `pipe:` -/
def handshakeBytes : Name := [112, 105, 112, 101, 58]

/-- `qemud:` -/
def kQemudPrefix : Name := [113, 101, 109, 117, 100, 58]

/-- The name of the service in front of the arguments. -/
def untilColon (name : Name) : Name := name.takeWhile (· ≠ 58)

/-- The service that `ConnectorPipe::onGuestSend` finds for the bytes behind `pipe:`. A service of qemud may be
registered for itself. -/
def connectorService (services : List Name) (pipeName : Name) : Option Name :=
  let qemudName := kQemudPrefix ++ untilColon (pipeName.drop kQemudPrefix.length)
  if kBufferSize < handshakeBytes.length + pipeName.length + 1 then none
  else if pipeName.take kQemudPrefix.length = kQemudPrefix ∧ qemudName ∈ services then some qemudName
  else if untilColon pipeName ∈ services then some (untilColon pipeName)
  else none

namespace Device

variable (d : Device)

def new : Device := ⟨[], 0, 0, ∅, ∅⟩

def setErrno (res : ℤ) : Device :=
  if res = PIPE_ERROR_INVAL then { d with mErrno := EINVAL }
  else if res = PIPE_ERROR_AGAIN then { d with mErrno := EAGAIN }
  else if res = PIPE_ERROR_NOMEM then { d with mErrno := ENOMEM }
  else if res = PIPE_ERROR_IO then { d with mErrno := EIO }
  else d

def lookupFdInfo (fd : ℤ) : Option FdInfo := d.mFdInfo.lookup fd

def associatePipes (hwPipeFd : ℤ) (info : FdInfo) : Except Die Device :=
  let d := { d with mPipeToHwPipe := d.mPipeToHwPipe.insert info.hostPipe hwPipeFd }
  if hwPipeFd ∈ d.mFdInfo then .error .associatePipes
  else .ok { d with mFdInfo := d.mFdInfo.insert hwPipeFd info }

def eraseFdInfo (fd : ℤ) : Except Die (Bool × Device) :=
  match d.lookupFdInfo fd with
  | none => .ok (false, d)
  | some info =>
    if info.hostPipe ∈ d.mPipeToHwPipe then
      .ok (true, { d with mPipeToHwPipe := d.mPipeToHwPipe.erase info.hostPipe, mFdInfo := d.mFdInfo.erase fd })
    else .error .eraseFdInfo

/-- `created` is what the service gives for the new pipe. -/
def connect (name : Name) (created : Option ℕ) : Except Die (ℤ × Device) :=
  let hwPipeFd := (d.mFdGenerator + 1).bmod (2 ^ 32)
  let d := { d with mFdGenerator := hwPipeFd }
  match connectorService d.services name, created with
  | some service, some hostPipe => (d.associatePipes hwPipeFd ⟨hostPipe, service⟩).map fun d ↦ (hwPipeFd, d)
  | _, _ => .ok (kNoFd, { d with mErrno := EIO })

def close (fd : ℤ) : Except Die Device :=
  (d.eraseFdInfo fd).map fun (erased, d) ↦ if erased then d else { d with mErrno := ENOENT }

/-- The wake callback is left out. -/
def closeFromHostCallback (hwPipe : ℤ) : Except Die Device := d.close hwPipe

/-- `answer` is what the pipe gives back. -/
def read (fd answer : ℤ) : ℤ × Device :=
  match d.lookupFdInfo fd with
  | none => (PIPE_ERROR_INVAL, { d with mErrno := EINVAL })
  | some _ => (answer, d.setErrno answer)

/-- No service makes a pipe that puts another one in its place. -/
def write (fd answer : ℤ) : ℤ × Device :=
  match d.lookupFdInfo fd with
  | none => (PIPE_ERROR_INVAL, { d with mErrno := EINVAL })
  | some _ => (answer, d.setErrno answer)

/-- The first pipe is erased until there is none. -/
def clearLocked : Except Die Device := d.mFdInfo.keys.foldlM (fun d fd ↦ (d.eraseFdInfo fd).map Prod.snd) d

/-! ## Snapshots -/

/-- The map is walked through in an order of its own. -/
def saveSnapshot (order : List ℤ) : List SavedPipe :=
  order.filterMap fun fd ↦ (d.lookupFdInfo fd).map fun info ↦ ⟨fd, info.service⟩

def savePipe (fd : ℤ) : Except Die (List SavedPipe) :=
  match d.lookupFdInfo fd with
  | none => .error .saveSnapshot
  | some info => .ok [⟨fd, info.service⟩]

/-- The host pipe, and whether it is to be closed. A service that is not registered gives no pipe, which is not
to be closed; `loaded` is what a registered service gives. -/
def android_pipe_guest_load (saved : SavedPipe) (loaded : Option ℕ) : ℕ × Bool :=
  if saved.service ∈ d.services then
    match loaded with
    | none => (0, true)
    | some hostPipe => (hostPipe, false)
  else (0, false)

def loadPipes (d : Device) : List (SavedPipe × Option ℕ) → Except Die Device
  | [] => .ok d
  | (saved, loaded) :: rest =>
    let d := { d with mFdGenerator := max d.mFdGenerator saved.fd }
    match d.android_pipe_guest_load saved loaded with
    | (hostPipe, false) => do
      let d ← d.associatePipes saved.fd ⟨hostPipe, saved.service⟩
      loadPipes d rest
    | (_, true) => .ok { d with mErrno := EIO }

def loadSnapshot (pipes : List (SavedPipe × Option ℕ)) : Except Die Device := do
  let d ← d.clearLocked
  d.loadPipes pipes

def loadSnapshotSinglePipe : List (SavedPipe × Option ℕ) → Except Die (ℤ × Device)
  | [(saved, loaded)] => do
    let (_, d) ← d.eraseFdInfo saved.fd
    match d.android_pipe_guest_load saved loaded with
    | (hostPipe, false) =>
      let d ← d.associatePipes saved.fd ⟨hostPipe, saved.service⟩
      .ok (saved.fd, d)
    | (_, true) => .ok (saved.fd, { d with mErrno := EIO })
  | _ => .ok (kNoFd, { d with mErrno := EIO })

/-- The addresses of the open pipes. -/
def hostPipes : List ℕ := d.mFdInfo.entries.map fun entry ↦ entry.2.hostPipe

/-- The address of a new pipe is not null and not that of an open one. -/
def IsNew (hostPipe : ℕ) : Prop := hostPipe ≠ 0 ∧ hostPipe ∉ d.hostPipes

instance decidableIsNew (hostPipe : ℕ) : Decidable (d.IsNew hostPipe) := inferInstanceAs (Decidable (_ ∧ _))

end Device

/-! ## Devices and their snapshots -/

/-- A device is gone when its process has died. -/
structure World where
  devices : ℕ → Except Die Device
  snapshots : List (List SavedPipe)

/-- What a device is made to do; what the services and the allocator answer is part of it. -/
inductive Operation where
  | addService (name : Name)
  | resetServices
  | connect (name : Name) (created : Option ℕ)
  | close (fd : ℤ)
  | closeFromHost (hwPipe : ℤ)
  | read (fd answer : ℤ)
  | write (fd answer : ℤ)
  | saveSnapshot (order : List ℤ)
  | savePipe (fd : ℤ)
  | loadSnapshot (snapshot : List SavedPipe) (loaded : List (Option ℕ))
  | loadSnapshotSinglePipe (snapshot : List SavedPipe) (loaded : List (Option ℕ))
  | clear

/-- The pipes that a load is given are new. Those that were open are closed before, and so is the pipe with the
fd of a single one. -/
def Operation.Possible (w : World) (d : Device) : Operation → Prop
  | .connect _ created => ∀ hostPipe ∈ created, d.IsNew hostPipe
  | .saveSnapshot order => order.Perm d.mFdInfo.keys
  | .loadSnapshot snapshot loaded =>
    snapshot ∈ w.snapshots ∧ loaded.length = snapshot.length ∧ loaded.reduceOption.Nodup ∧ 0 ∉ loaded.reduceOption
  | .loadSnapshotSinglePipe snapshot loaded =>
    snapshot ∈ w.snapshots ∧ loaded.length = snapshot.length ∧ ∀ saved ∈ snapshot, ∀ hostPipe ∈ loaded.reduceOption,
        ({ d with mFdInfo := d.mFdInfo.erase saved.fd } : Device).IsNew hostPipe
  | _ => True

instance decidablePossible (w : World) (d : Device) : ∀ operation, Decidable (Operation.Possible w d operation)
  | .connect _ _ => inferInstanceAs (Decidable (∀ _ ∈ _, _))
  | .saveSnapshot _ => inferInstanceAs (Decidable (List.Perm _ _))
  | .loadSnapshot _ _ => inferInstanceAs (Decidable (_ ∧ _ ∧ _ ∧ _))
  | .loadSnapshotSinglePipe _ _ => inferInstanceAs (Decidable (_ ∧ _ ∧ ∀ _ ∈ _, ∀ _ ∈ _, _))
  | .addService _ | .resetServices | .close _ | .closeFromHost _ | .read _ _ | .write _ _ | .savePipe _ | .clear =>
    isTrue trivial

/-- What becomes of the device, and what it has saved. -/
def Operation.perform (d : Device) : Operation → Except Die Device × List (List SavedPipe)
  | .addService name => (.ok { d with services := name :: d.services }, [])
  | .resetServices => (.ok { d with services := [] }, [])
  | .connect name created => ((d.connect name created).map Prod.snd, [])
  | .close fd => (d.close fd, [])
  | .closeFromHost hwPipe => (d.closeFromHostCallback hwPipe, [])
  | .read fd answer => (.ok (d.read fd answer).2, [])
  | .write fd answer => (.ok (d.write fd answer).2, [])
  | .saveSnapshot order => (.ok d, [d.saveSnapshot order])
  | .savePipe fd => ((d.savePipe fd).map fun _ ↦ d, (d.savePipe fd).toOption.toList)
  | .loadSnapshot snapshot loaded => (d.loadSnapshot (snapshot.zip loaded), [])
  | .loadSnapshotSinglePipe snapshot loaded =>
    ((d.loadSnapshotSinglePipe (snapshot.zip loaded)).map Prod.snd, [])
  | .clear => (d.clearLocked, [])

def World.init : World := ⟨fun _ ↦ .ok .new, []⟩

/-- One device does something. -/
def worldStep (label : ℕ × Operation) (w : World) : Option World :=
  match w.devices label.1 with
  | .error _ => none
  | .ok d =>
    if label.2.Possible w d then
      some ⟨Function.update w.devices label.1 (label.2.perform d).1, (label.2.perform d).2 ++ w.snapshots⟩
    else none

end FdeEmugl.HostPipe
