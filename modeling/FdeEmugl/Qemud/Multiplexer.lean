import FdeEmugl.Library.OwnerIndex
import FdeEmugl.Library.Runs
import FdeEmugl.Qemud.Sink

/-!
# The clients of qemud

Every client is on the list of the multiplexer and, but for the client of the control channel, on the list of
its service, which also counts its clients. Clients come by messages on the control channel, by pipes and from
snapshots.
-/

namespace FdeEmugl.Qemud

open Runs

inductive QemudProtocol where
  | pipe
  | serial (channel : ℤ)
deriving DecidableEq

/-- A client on the list of the multiplexer. -/
structure ListedClient where
  id : ℕ
  protocol : QemudProtocol
  service : Option ℕ
deriving DecidableEq

namespace ListedClient

variable (c : ListedClient)

def channel : Option ℤ :=
  match c.protocol with
  | .pipe => none
  | .serial channel => some channel

/-- Neither a pipe client nor the client of the control channel. -/
def isNonControl : Bool :=
  match c.protocol with
  | .pipe => false
  | .serial channel => channel > 0

end ListedClient

structure QemudService where
  name : List UInt8
  max_clients : ℤ
  num_clients : ℤ
  clients : List ℕ
deriving DecidableEq

/-- The services in the order of their list, and what is known of each. The next client gets the next number. -/
structure QemudMultiplexer where
  services : List ℕ
  service : ℕ → QemudService
  clients : List ListedClient
  nextClient : ℕ

/-- What a snapshot holds of a service; `loads` says whether `serv_load` will take its data. -/
structure SavedService where
  name : List UInt8
  max_clients : ℤ
  loads : Bool
deriving DecidableEq

/-- What a snapshot holds of a serial client, and whether `serv_connect` and `clie_load` will take it. -/
structure SavedClient where
  name : List UInt8
  channel : ℤ
  accepts : Bool
  loads : Bool
deriving DecidableEq

namespace QemudMultiplexer

variable (m : QemudMultiplexer)

/-- `qemud_multiplexer_init`: there is the client of the control channel. -/
def init : QemudMultiplexer := ⟨[], fun _ ↦ ⟨[], 0, 0, []⟩, [⟨0, .serial 0, none⟩], 1⟩

def qemud_service_register (name : List UInt8) (max_clients : ℤ) : QemudMultiplexer := { m with
    services := m.services.length :: m.services
    service := Function.update m.service m.services.length ⟨name, max_clients, 0, []⟩ }

def qemud_service_find (service_name : List UInt8) : Option ℕ :=
  m.services.find? fun sv ↦ (m.service sv).name = service_name

def qemud_service_add_client (sv id : ℕ) : QemudMultiplexer := { m with
    service := Function.update m.service sv
      { m.service sv with clients := id :: (m.service sv).clients, num_clients := (m.service sv).num_clients + 1 } }

def qemud_service_remove_client (sv id : ℕ) : QemudMultiplexer :=
  if id ∈ (m.service sv).clients then
    { m with
      service := Function.update m.service sv { m.service sv with
          clients := (m.service sv).clients.erase id
          num_clients := (m.service sv).num_clients - 1 } }
  else m

/-- A negative channel stands for a pipe. -/
def qemud_client_new (sv : ℕ) (channelId : ℤ) : QemudMultiplexer :=
  let protocol := if channelId < 0 then .pipe else .serial channelId
  let c : ListedClient := ⟨m.nextClient, protocol, some sv⟩
  qemud_service_add_client { m with clients := c :: m.clients, nextClient := m.nextClient + 1 } sv m.nextClient

/-- The service may refuse the client. -/
def qemud_service_connect_client (sv : ℕ) (channel_id : ℤ) (accepts : Bool) : Option QemudMultiplexer :=
  if accepts then some (m.qemud_client_new sv channel_id) else none

/-- `qemud_client_disconnect`, once it is not put off. -/
def qemud_client_disconnect (c : ListedClient) : QemudMultiplexer :=
  let m := { m with clients := m.clients.filter fun other ↦ other.id ≠ c.id }
  match c.service with
  | none => m
  | some sv => m.qemud_service_remove_client sv c.id

def qemud_multiplexer_connect (service_name : List UInt8) (channel_id : ℤ) (accepts : Bool) : ℤ × QemudMultiplexer :=
  match m.qemud_service_find service_name with
  | none => (-1, m)
  | some sv =>
    if (m.service sv).max_clients > 0 ∧ (m.service sv).num_clients ≥ (m.service sv).max_clients then (-2, m)
    else
      match m.qemud_service_connect_client sv channel_id accepts with
      | none => (-1, m)
      | some m => (0, m)

def qemud_multiplexer_disconnect (channel : ℤ) : QemudMultiplexer :=
  match m.clients.find? fun c ↦ c.channel = some channel with
  | none => m
  | some c => m.qemud_client_disconnect c

def qemud_multiplexer_disconnect_noncontrol : QemudMultiplexer :=
  (m.clients.filter ListedClient.isNonControl).foldl qemud_client_disconnect m

/-! ## The control channel -/

/-- `connect:` -/
def connectBytes : List UInt8 := [99, 111, 110, 110, 101, 99, 116, 58]

/-- `disconnect:` -/
def disconnectBytes : List UInt8 := [100, 105, 115, 99, 111, 110, 110, 101, 99, 116, 58]

inductive Command where
  | connect (service_name : List UInt8) (channel : ℤ)
  | disconnect (channel : ℤ)
deriving DecidableEq

/-- What a message asks for. The name ends before the first colon, and a channel of two digits must end the
message. -/
def command (msg : List UInt8) : Option Command :=
  if msg.length > 8 ∧ msg.take 8 = connectBytes then
    let name := msg.drop 8
    let service_name := name.takeWhile fun c ↦ c ≠ 58 ∧ c ≠ 0
    match name.dropWhile fun c ↦ c ≠ 58 ∧ c ≠ 0 with
    | 58 :: q =>
      if q.length = 2 ∧ hex2int q > 0 then some (.connect service_name (hex2int q)) else none
    | _ => none
  else if msg.length = 13 ∧ msg.take 11 = disconnectBytes then
    let channel_id := hex2int ((msg.drop 11).take 2)
    if channel_id > 0 then some (.disconnect channel_id) else none
  else none

/-- The answers are left out. -/
def qemud_multiplexer_control_recv (msg : List UInt8) (accepts : Bool) : QemudMultiplexer :=
  match command msg with
  | none => m
  | some (.connect service_name channel) => (m.qemud_multiplexer_connect service_name channel accepts).2
  | some (.disconnect channel) => m.qemud_multiplexer_disconnect channel

/-! ## Pipes -/

/-- `_qemudPipe_init` and `_qemudPipe_load`. -/
def qemudPipe_connect (service_name : List UInt8) (accepts : Bool) : QemudMultiplexer :=
  match m.qemud_service_find service_name with
  | none => m
  | some sv => (m.qemud_service_connect_client sv (-1) accepts).getD m

/-- `qemud_client_close`: the pipe of a pipe client is asked to close. -/
def qemud_client_close (id : ℕ) : QemudMultiplexer :=
  match m.clients.find? fun c ↦ c.id = id with
  | none => m
  | some c => if c.protocol = .pipe then m else m.qemud_client_disconnect c

/-- `_qemudPipe_closeFromGuest`. -/
def qemudPipe_closeFromGuest (id : ℕ) : QemudMultiplexer :=
  match m.clients.find? fun c ↦ c.id = id ∧ c.protocol = .pipe with
  | none => m
  | some c => m.qemud_client_disconnect c

/-! ## Snapshots -/

def savedServices : List SavedService :=
  m.services.map fun sv ↦ ⟨(m.service sv).name, (m.service sv).max_clients, true⟩

def savedClients : List SavedClient := (m.clients.filter ListedClient.isNonControl).map fun c ↦
    ⟨(c.service.map fun sv ↦ (m.service sv).name).getD [], c.channel.getD 0, true, true⟩

def EIO : ℤ := 5

def qemud_service_load (saved : SavedService) : ℤ × QemudMultiplexer :=
  match m.qemud_service_find saved.name with
  | none => (- EIO, m)
  | some sv =>
    let m := { m with
      service := Function.update m.service sv
        { m.service sv with max_clients := saved.max_clients, num_clients := 0 } }
    (if saved.loads then 0 else - EIO, m)

def qemud_load_services (m : QemudMultiplexer) : List SavedService → ℤ × QemudMultiplexer
  | [] => (0, m)
  | saved :: rest =>
    let (ret, m) := m.qemud_service_load saved
    if ret = 0 then qemud_load_services m rest else (ret, m)

def qemud_serial_client_load (saved : SavedClient) : ℤ × QemudMultiplexer :=
  match m.qemud_service_find saved.name with
  | none => (- EIO, m)
  | some sv =>
    if saved.channel = 0 then (- EIO, m)
    else
      match m.qemud_service_connect_client sv saved.channel saved.accepts with
      | none => (- EIO, m)
      | some m => (if saved.loads then 0 else - EIO, m)

def loadClients (m : QemudMultiplexer) : List SavedClient → ℤ × QemudMultiplexer
  | [] => (0, m)
  | saved :: rest =>
    let (ret, m) := m.qemud_serial_client_load saved
    if ret = 0 then loadClients m rest else (ret, m)

def qemud_load_clients (clients : List SavedClient) : ℤ × QemudMultiplexer :=
  loadClients m.qemud_multiplexer_disconnect_noncontrol clients

/-- `serialLoads` says whether `qemud_serial_load` succeeds. -/
def qemud_multiplexer_load (serialLoads : Bool) (services : List SavedService) (clients : List SavedClient) :
    ℤ × QemudMultiplexer :=
  if serialLoads then
    let (ret, m) := m.qemud_load_services services
    if ret = 0 then m.qemud_load_clients clients else (ret, m)
  else (- EIO, m)

end QemudMultiplexer

/-- Saving changes nothing; what is loaded may come from anywhere. -/
inductive MultiplexerLabel where
  | register (name : List UInt8) (max_clients : ℤ)
  | control (msg : List UInt8) (accepts : Bool)
  | pipe (service_name : List UInt8) (accepts : Bool)
  | close (id : ℕ)
  | closeFromGuest (id : ℕ)
  | load (serialLoads : Bool) (services : List SavedService) (clients : List SavedClient)
deriving DecidableEq

def multiplexerStep : MultiplexerLabel → QemudMultiplexer → Option QemudMultiplexer
  | .register name max_clients, m => some (m.qemud_service_register name max_clients)
  | .control msg accepts, m => some (m.qemud_multiplexer_control_recv msg accepts)
  | .pipe service_name accepts, m => some (m.qemudPipe_connect service_name accepts)
  | .close id, m => some (m.qemud_client_close id)
  | .closeFromGuest id, m => some (m.qemudPipe_closeFromGuest id)
  | .load serialLoads services clients, m => some (m.qemud_multiplexer_load serialLoads services clients).2

end FdeEmugl.Qemud
