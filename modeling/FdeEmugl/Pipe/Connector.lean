import FdeEmugl.Base.Stream
import FdeEmugl.Pipe.AsyncHandles
import FdeEmugl.Pipe.HostGoldfishPipe
import Mathlib.Data.List.TakeWhile

/-!
# The connection of a pipe to its service

The first bytes that the guest sends name a service and end with a zero. They come in any number of calls and
buffers; the buffer in which they are collected is then cut in place to look up the two services that they can mean.
-/

namespace FdeEmugl.Connector

open FdeEmugl.Stream
open AsyncHandles (findServicePositionByName getElem?_of_find exists_find)
open List (append_assoc append_nil cons_append length_append length_take mem_append mem_append_right mem_cons_self
  not_mem_nil)

/-! ## The code -/

abbrev Bytes := List UInt8

def PIPE_ERROR_INVAL : ℤ := -1
def PIPE_ERROR_IO : ℤ := -4

def kBufferSize : ℕ := 128

def colon : UInt8 := 58

def letters (text : String) : Bytes := text.toList.map fun letter ↦ UInt8.ofNat letter.toNat

def pipePrefix : Bytes := letters "pipe:"

def kQemudPrefix : Bytes := letters "qemud:"

/-- The text from a place up to the next zero. -/
def cString (memory : Bytes) (pointer : ℕ) : Bytes := (memory.drop pointer).takeWhile (· ≠ 0)

def strchr (memory : Bytes) (pointer : ℕ) (ch : UInt8) : Option ℕ :=
  ((cString memory pointer).findIdx? (· = ch)).map (pointer + ·)

structure ConnectorPipe where
  mBuffer : Bytes
  mPos : ℕ

/-- The buffer of a new pipe has no defined bytes. -/
def ConnectorPipe.new (content : Vector UInt8 kBufferSize) : ConnectorPipe := ⟨content.toList, 0⟩

/-- The loop over the bytes of a buffer: how many were read, and whether the last one is the zero. -/
def readBytes : Bytes → ConnectorPipe → ConnectorPipe × ℕ × Bool
  | [], pipe => (pipe, 0, false)
  | byte :: data, pipe =>
    let pipe : ConnectorPipe := ⟨pipe.mBuffer.set pipe.mPos byte, pipe.mPos + 1⟩
    if byte = 0 then (pipe, 1, true)
    else
      let (pipe, n, foundZero) := readBytes data pipe
      (pipe, n + 1, foundZero)

/-- The loop over the buffers. -/
def readBuffers (avail : ℕ) : List Bytes → ConnectorPipe → ℕ → ConnectorPipe × ℕ × ℕ × Bool
  | [], pipe, result => (pipe, avail, result, false)
  | buffer :: buffers, pipe, result =>
    if avail = 0 then (pipe, avail, result, false)
    else
      let (pipe, n, foundZero) := readBytes (buffer.take avail) pipe
      if foundZero then (pipe, avail - n, result + n, true)
      else readBuffers (avail - n) buffers pipe (result + n)

section Services

variable {Pipe : Type} (services : List Bytes) (create : Bytes → Option Bytes → Option Pipe)

def findServiceByName (name : Bytes) : Option Bytes := (findServicePositionByName services name 0).bind (services[·]?)

/-- The service for a name that begins with `qemud:`, and the place of its arguments. -/
def findQemudService (mBuffer : Bytes) (pipeName : ℕ) (pipeArgs : Option ℕ) : Bytes × Option Bytes × Option ℕ :=
  let pipeArgs2 := pipeArgs.bind fun place ↦ strchr mBuffer (place + 1) colon
  let cut := pipeArgs2.elim mBuffer fun place ↦ mBuffer.set place 0
  match findServiceByName services (cString cut pipeName) with
  | some svc => (cut, some svc, pipeArgs2)
  | none => (pipeArgs2.elim cut fun place ↦ cut.set place colon, none, pipeArgs)

/-- The arguments are cut off, and the service is asked for a pipe. -/
def createPipe (pipeName : ℕ) : Bytes × Option Bytes × Option ℕ → Bytes × Option Pipe
  | (mBuffer, svc, pipeArgs) =>
    let mBuffer := pipeArgs.elim mBuffer fun place ↦ mBuffer.set place 0
    let args := pipeArgs.map fun place ↦ cString mBuffer (place + 1)
    match svc.or (findServiceByName services (cString mBuffer pipeName)) with
    | none => (mBuffer, none)
    | some svc => (mBuffer, create svc args)

/-- What follows the zero. -/
def connect (mBuffer : Bytes) : Bytes × Option Pipe :=
  if mBuffer.take pipePrefix.length ≠ pipePrefix then (mBuffer, none)
  else
    let pipeName := pipePrefix.length
    let pipeArgs := strchr mBuffer pipeName colon
    if (cString mBuffer pipeName).take kQemudPrefix.length = kQemudPrefix then
      createPipe services create pipeName (findQemudService services mBuffer pipeName pipeArgs)
    else createPipe services create pipeName (mBuffer, none, pipeArgs)

/-- The pipe, the returned number and, after a success, the pipe that takes its place. -/
def onGuestSend (buffers : List Bytes) (pipe : ConnectorPipe) : ConnectorPipe × ℤ × Option Pipe :=
  let (pipe, avail, result, foundZero) := readBuffers (kBufferSize - pipe.mPos) buffers pipe 0
  if ¬ foundZero then
    if avail = 0 then (pipe, PIPE_ERROR_IO, none) else (pipe, result, none)
  else
    match connect services create pipe.mBuffer with
    | (mBuffer, none) => ({ pipe with mBuffer }, PIPE_ERROR_INVAL, none)
    | (mBuffer, some newPipe) => ({ pipe with mBuffer }, result, some newPipe)

end Services

def onSave (pipe : ConnectorPipe) : Bytes := putBe32 (UInt32.ofNat pipe.mPos) ++ pipe.mBuffer.take pipe.mPos

/-- Loading into a pipe with any bytes in its buffer; a refused snapshot gives no pipe. -/
def onLoad (content : Vector UInt8 kBufferSize) (stream : Bytes) : Option ConnectorPipe :=
  let (word, rest) := getBe32 stream
  let len := (Int32.ofNat word.toNat).toInt
  if len < 0 ∨ len > kBufferSize then none
  else
    let (bytes, _) := Stream.read len.toNat rest
    if bytes.length = len.toNat then some ⟨bytes ++ content.toList.drop bytes.length, len.toNat⟩ else none

/-! ## The handshake -/

/-- A call of the guest, or a snapshot that is loaded into a new pipe. -/
inductive Event
  | send (buffers : List Bytes)
  | snapshot (content : Vector UInt8 kBufferSize)

def Event.bytes : Event → Bytes
  | send buffers => buffers.flatten
  | snapshot _ => []

/-- How the handshake stands, with the number of bytes reported as accepted. -/
inductive Outcome (Pipe : Type)
  | waiting (accepted : ℤ)
  | failed (error : ℤ)
  | refused
  | created (pipe : Pipe) (accepted : ℤ)

section Run

variable {Pipe : Type} (services : List Bytes) (create : Bytes → Option Bytes → Option Pipe)

/-- The events up to the first decision. -/
def run : List Event → ConnectorPipe → ℤ → Outcome Pipe
  | [], _, accepted => .waiting accepted
  | .send buffers :: events, pipe, accepted =>
    match onGuestSend services create buffers pipe with
    | (_, result, some newPipe) => .created newPipe (accepted + result)
    | (pipe, result, none) => if result < 0 then .failed result else run events pipe (accepted + result)
  | .snapshot content :: events, pipe, accepted =>
    match onLoad content (onSave pipe) with
    | none => .refused
    | some pipe => run events pipe accepted

/-- A text up to its first colon, and what is behind that. -/
def splitColon (text : Bytes) : Bytes × Option Bytes :=
  (text.takeWhile (· ≠ colon), if colon ∈ text then some ((text.dropWhile (· ≠ colon)).drop 1) else none)

/-- The service that a text names, with its arguments. -/
def chosen (text : Bytes) : Option (Bytes × Option Bytes) :=
  if text.take pipePrefix.length ≠ pipePrefix then none
  else
    let rest := text.drop pipePrefix.length
    let (name, args) := splitColon (rest.drop kQemudPrefix.length)
    if rest.take kQemudPrefix.length = kQemudPrefix ∧ kQemudPrefix ++ name ∈ services then
      some (kQemudPrefix ++ name, args)
    else if (splitColon rest).1 ∈ services then some (splitColon rest)
    else none

/-- What comes of the bytes that the guest sends. -/
def outcome (sent : Bytes) : Outcome Pipe :=
  if 0 ∈ sent.take kBufferSize then
    let text := sent.takeWhile (· ≠ 0)
    match (chosen services text).bind fun (service, args) ↦ create service args with
    | none => .failed PIPE_ERROR_INVAL
    | some newPipe => .created newPipe (text.length + 1 : ℕ)
  else if sent.length < kBufferSize then .waiting sent.length
  else .failed PIPE_ERROR_IO

end Run

/-! ## Collecting the bytes -/

/-- The buffer begins with what was received. -/
structure ConnectorPipe.Holds (pipe : ConnectorPipe) (received : Bytes) : Prop where
  buffer : received <+: pipe.mBuffer
  position : pipe.mPos = received.length
  length : pipe.mBuffer.length = kBufferSize

variable {pipe : ConnectorPipe} {received data text : Bytes}

variable {pointer : ℕ} {rest : Bytes} (content : Vector UInt8 kBufferSize) (events : List Event)

theorem ConnectorPipe.Holds.store (h : pipe.Holds received) (hroom : received.length < kBufferSize) (byte : UInt8) :
    (ConnectorPipe.mk (pipe.mBuffer.set pipe.mPos byte) (pipe.mPos + 1)).Holds (received ++ [byte]) := by
  obtain ⟨junk, hjunk⟩ := h.buffer
  have hlength := h.length
  rw [← hjunk, length_append] at hlength
  obtain ⟨old, junk, rfl⟩ := List.exists_cons_of_ne_nil (List.ne_nil_of_length_pos (by omega : 0 < junk.length))
  refine ⟨⟨junk, ?_⟩, ?_, ?_⟩
  · rw [← hjunk, h.position, List.set_append_right _ _ (Nat.le_refl _), Nat.sub_self, List.set_cons_zero,
      append_assoc, List.singleton_append]
  · rw [h.position, length_append, List.length_singleton]
  · rw [List.length_set, h.length]

theorem readBytes_spec (data : Bytes) (h : pipe.Holds received)
    (hroom : received.length + data.length ≤ kBufferSize) :
    (0 ∉ data ∧ ∃ after, readBytes data pipe = (after, data.length, false) ∧ after.Holds (received ++ data)) ∨
      ∃ text rest, data = text ++ 0 :: rest ∧ 0 ∉ text ∧
        ∃ after, readBytes data pipe = (after, text.length + 1, true) ∧ after.Holds (received ++ (text ++ [0])) := by
  induction data generalizing pipe received with
  | nil => exact Or.inl ⟨not_mem_nil, pipe, rfl, by rwa [append_nil]⟩
  | cons byte data ih =>
    rw [List.length_cons] at hroom
    have hstore := h.store (by omega) byte
    by_cases hzero : byte = 0
    · refine Or.inr ⟨[], data, by rw [hzero]; rfl, not_mem_nil, _, ?_, by rwa [hzero] at hstore⟩
      rw [readBytes, if_pos hzero, hzero]
      rfl
    have hrest := ih hstore (by rw [length_append, List.length_singleton]; omega)
    simp only [append_assoc, List.singleton_append] at hrest
    obtain ⟨hnone, after, hread, hafter⟩ | ⟨text, rest, rfl, hnone, after, hread, hafter⟩ := hrest
    · refine Or.inl ⟨List.not_mem_cons_of_ne_of_not_mem (Ne.symm hzero) hnone, after, ?_, hafter⟩
      rw [readBytes, if_neg hzero, hread]
      rfl
    · refine Or.inr ⟨byte :: text, rest, rfl, List.not_mem_cons_of_ne_of_not_mem (Ne.symm hzero) hnone, after, ?_,
        hafter⟩
      rw [readBytes, if_neg hzero, hread]
      rfl

/-- Several buffers are read as one, as far as there is room. -/
theorem readBuffers_spec {avail : ℕ} (buffers : List Bytes) (h : pipe.Holds received)
    (hroom : received.length + avail = kBufferSize) (result : ℕ) :
    (0 ∉ buffers.flatten.take avail ∧ ∃ after, readBuffers avail buffers pipe result =
        (after, avail - (buffers.flatten.take avail).length, result + (buffers.flatten.take avail).length, false) ∧
        after.Holds (received ++ buffers.flatten.take avail)) ∨
      ∃ text rest, buffers.flatten.take avail = text ++ 0 :: rest ∧ 0 ∉ text ∧
        ∃ after left, readBuffers avail buffers pipe result = (after, left, result + (text.length + 1), true) ∧
          after.Holds (received ++ (text ++ [0])) := by
  induction buffers generalizing pipe received avail result with
  | nil =>
    rw [List.flatten_nil, List.take_nil, append_nil]
    exact Or.inl ⟨not_mem_nil, pipe, rfl, h⟩
  | cons buffer buffers ih =>
    by_cases hfull : avail = 0
    · rw [hfull, List.take_zero, append_nil]
      exact Or.inl ⟨not_mem_nil, pipe, if_pos rfl, h⟩
    have hread := readBytes_spec (buffer.take avail) h (by rw [length_take]; omega)
    rw [List.flatten_cons, List.take_append]
    obtain ⟨hnone, after, hread, hafter⟩ | ⟨text, rest, hsplit, hnone, after, hread, hafter⟩ := hread
    · have hlength : (buffer.take avail).length = min avail buffer.length := length_take
      have hleft : avail - (buffer.take avail).length = avail - buffer.length := by omega
      have hstep : readBuffers avail (buffer :: buffers) pipe result =
          readBuffers (avail - buffer.length) buffers after (result + (buffer.take avail).length) := by
        rw [readBuffers, if_neg hfull, hread]
        simp only [Bool.false_eq_true, ↓reduceIte, hleft]
      have hnext : (received ++ buffer.take avail).length + (avail - buffer.length) = kBufferSize := by
        rw [length_append]
        omega
      have hrest := ih hafter hnext (result + (buffer.take avail).length)
      rw [← hstep] at hrest
      obtain ⟨hnone', last, hrun, hlast⟩ | ⟨text, rest, hsplit, hnone', last, left, hrun, hlast⟩ := hrest
      · refine Or.inl ⟨fun hmem ↦ (mem_append.mp hmem).elim hnone hnone', last, ?_, ?_⟩
        · rw [hrun, length_append, Nat.add_assoc, ← hleft, Nat.sub_sub]
        · rwa [← append_assoc]
      · refine Or.inr ⟨buffer.take avail ++ text, rest, ?_, fun hmem ↦ (mem_append.mp hmem).elim hnone hnone',
          last, left, ?_, ?_⟩
        · rw [hsplit, append_assoc]
        · rw [hrun, length_append, Nat.add_assoc, Nat.add_assoc]
        · rwa [append_assoc, ← append_assoc]
    · refine Or.inr ⟨text, rest ++ buffers.flatten.take (avail - buffer.length), ?_, hnone, after,
        avail - (text.length + 1), ?_, hafter⟩
      · rw [hsplit, append_assoc, cons_append]
      · rw [readBuffers, if_neg hfull, hread]
        rfl

/-! ## Cutting the buffer -/

variable {services : List Bytes} {front first junk : Bytes}

theorem takeWhile_zero (junk : Bytes) (h : 0 ∉ text) : (text ++ 0 :: junk).takeWhile (· ≠ 0) = text := by
  have hall : ∀ byte ∈ text, decide (byte ≠ 0) = true := fun _ hbyte ↦ decide_eq_true fun hzero ↦ h (hzero ▸ hbyte)
  rw [List.takeWhile_append_of_pos hall, List.takeWhile_cons_of_neg (by decide), append_nil]

theorem cString_append (junk : Bytes) (h : 0 ∉ text) (hpointer : front.length = pointer) :
    cString (front ++ (text ++ 0 :: junk)) pointer = text := by
  rw [cString, List.drop_left' hpointer, takeWhile_zero junk h]

theorem findIdx?_colon_none (h : colon ∉ text) : text.findIdx? (· = colon) = none :=
  List.findIdx?_eq_none_iff.mpr fun _ hbyte ↦ decide_eq_false fun heq ↦ h (heq ▸ hbyte)

theorem findIdx?_colon_some (h : colon ∉ first) (rest : Bytes) :
    (first ++ colon :: rest).findIdx? (· = colon) = some first.length := by
  rw [List.findIdx?_append, findIdx?_colon_none h, List.findIdx?_cons, if_pos (decide_eq_true rfl), Option.none_or,
    Option.map_some, Nat.zero_add]

theorem splitColon_none (h : colon ∉ text) : splitColon text = (text, none) := by
  have hall : text.takeWhile (· ≠ colon) = text :=
    List.takeWhile_eq_self_iff.mpr fun _ hbyte ↦ decide_eq_true fun heq ↦ h (heq ▸ hbyte)
  rw [splitColon, hall, if_neg h]

theorem splitColon_some (h : colon ∉ first) (rest : Bytes) :
    splitColon (first ++ colon :: rest) = (first, some rest) := by
  have hall : ∀ byte ∈ first, decide (byte ≠ colon) = true := fun _ hbyte ↦
    decide_eq_true fun heq ↦ h (heq ▸ hbyte)
  have hmem : colon ∈ first ++ colon :: rest := mem_append_right first mem_cons_self
  rw [splitColon, if_pos hmem, List.takeWhile_append_of_pos hall, List.dropWhile_append_of_pos hall,
    List.takeWhile_cons_of_neg (by decide), List.dropWhile_cons_of_neg (by decide), append_nil]
  rfl

/-- A text has no colon, or it is split at its first one. -/
theorem exists_splitColon (text : Bytes) :
    colon ∉ text ∨ ∃ first rest, text = first ++ colon :: rest ∧ colon ∉ first := by
  by_cases hmem : colon ∈ text
  · exact Or.inr (List.eq_append_cons_of_mem hmem)
  · exact Or.inl hmem

theorem set_append (front : Bytes) (old byte : UInt8) (rest : Bytes) {place : ℕ} (h : front.length = place) :
    (front ++ old :: rest).set place byte = front ++ byte :: rest := by
  rw [List.set_append_right _ _ h.le, h, Nat.sub_self, List.set_cons_zero]

theorem findServiceByName_eq (services : List Bytes) (name : Bytes) :
    findServiceByName services name = if name ∈ services then some name else none := by
  rw [findServiceByName]
  split_ifs with hmem
  · obtain ⟨position, hfind⟩ := exists_find hmem 0
    rw [hfind, Option.bind_some, getElem?_of_find hfind]
  · cases hfind : findServicePositionByName services name 0 with
    | none => rfl
    | some position => exact absurd (List.mem_of_getElem? (getElem?_of_find hfind)) hmem

theorem strchr_none (junk : Bytes) (h : 0 ∉ text) (hcolon : colon ∉ text) (hpointer : front.length = pointer) :
    strchr (front ++ (text ++ 0 :: junk)) pointer colon = none := by
  rw [strchr, cString_append junk h hpointer, findIdx?_colon_none hcolon, Option.map_none]

theorem strchr_some (junk : Bytes) (h : 0 ∉ first ++ colon :: rest) (hcolon : colon ∉ first)
    (hpointer : front.length = pointer) :
    strchr (front ++ (first ++ colon :: rest ++ 0 :: junk)) pointer colon = some (pointer + first.length) := by
  rw [strchr, cString_append junk h hpointer, findIdx?_colon_some hcolon, Option.map_some]

/-! ## The two interpretations -/

variable {Pipe : Type} {create : Bytes → Option Bytes → Option Pipe} {name args : Bytes}

section

variable (junk : Bytes)

/-- A name without arguments. -/
theorem createPipe_none (h : 0 ∉ name) (svc : Option Bytes) :
    (createPipe services create pipePrefix.length (pipePrefix ++ (name ++ 0 :: junk), svc, none)).2 =
      (svc.or (findServiceByName services name)).bind fun service ↦ create service none := by
  simp only [createPipe, Option.elim_none, Option.map_none, cString_append junk h rfl]
  cases svc.or (findServiceByName services name) with
  | none => rfl
  | some service => rfl

/-- A name with arguments behind the byte that is cut. -/
theorem createPipe_some (hname : 0 ∉ name) (hargs : 0 ∉ args) (old : UInt8) (svc : Option Bytes) :
    (createPipe services create pipePrefix.length
        (pipePrefix ++ (name ++ old :: args ++ 0 :: junk), svc, some (pipePrefix.length + name.length))).2 =
      (svc.or (findServiceByName services name)).bind fun service ↦ create service (some args) := by
  have hset : (pipePrefix ++ (name ++ old :: args ++ 0 :: junk)).set (pipePrefix.length + name.length) 0 =
      pipePrefix ++ (name ++ 0 :: (args ++ 0 :: junk)) := by
    rw [append_assoc, cons_append, ← append_assoc, ← append_assoc]
    exact set_append _ _ _ _ length_append
  have hsplit : pipePrefix ++ (name ++ 0 :: (args ++ 0 :: junk)) =
      (pipePrefix ++ name ++ [0]) ++ (args ++ 0 :: junk) := by
    rw [append_assoc, append_assoc, List.singleton_append]
  have hargs : cString (pipePrefix ++ (name ++ 0 :: (args ++ 0 :: junk))) (pipePrefix.length + name.length + 1) =
      args := by
    rw [hsplit]
    exact cString_append junk hargs (by rw [length_append, length_append, List.length_singleton])
  simp only [createPipe, Option.elim_some, Option.map_some, hset, cString_append _ hname rfl, hargs]
  cases svc.or (findServiceByName services name) with
  | none => rfl
  | some service => rfl

/-- The name behind `qemud:` is cut off at its first colon, and the colon is put back if there is no such service. -/
theorem findQemudService_eq {more : Bytes} (h : 0 ∉ more) {place : ℕ}
    (hplace : place + 1 = (pipePrefix ++ kQemudPrefix).length) :
    findQemudService services (pipePrefix ++ (kQemudPrefix ++ more ++ 0 :: junk)) pipePrefix.length (some place) =
      (if kQemudPrefix ++ (splitColon more).1 ∈ services then
        match (splitColon more).2 with
        | none => (pipePrefix ++ (kQemudPrefix ++ more ++ 0 :: junk), some (kQemudPrefix ++ more), none)
        | some args => (pipePrefix ++ (kQemudPrefix ++ (splitColon more).1 ++ 0 :: (args ++ 0 :: junk)),
            some (kQemudPrefix ++ (splitColon more).1),
            some (pipePrefix.length + (kQemudPrefix ++ (splitColon more).1).length))
      else (pipePrefix ++ (kQemudPrefix ++ more ++ 0 :: junk), none, some place)) := by
  have hprefix : 0 ∉ kQemudPrefix := by decide
  have hfront : ∀ rest : Bytes, pipePrefix ++ (kQemudPrefix ++ rest) = pipePrefix ++ kQemudPrefix ++ rest := fun _ ↦
    (append_assoc _ _ _).symm
  obtain hcolon | ⟨name, args, rfl, hcolon⟩ := exists_splitColon more
  · have hsearch : strchr (pipePrefix ++ (kQemudPrefix ++ more ++ 0 :: junk)) (place + 1) colon = none := by
      rw [append_assoc kQemudPrefix, hfront]
      exact strchr_none junk h hcolon hplace.symm
    have hname : 0 ∉ kQemudPrefix ++ more := fun hmem ↦ (mem_append.mp hmem).elim hprefix h
    simp only [findQemudService, Option.bind_some, hsearch, Option.elim_none, splitColon_none hcolon,
      cString_append junk hname rfl, findServiceByName_eq]
    split_ifs <;> rfl
  · have hzero : 0 ∉ name ∧ 0 ∉ args := ⟨fun hmem ↦ h (List.mem_append_left _ hmem),
        fun hmem ↦ h (mem_append_right _ (List.mem_cons_of_mem _ hmem))⟩
    have hname : 0 ∉ kQemudPrefix ++ name := fun hmem ↦ (mem_append.mp hmem).elim hprefix hzero.1
    have hend : (pipePrefix ++ (kQemudPrefix ++ name)).length = place + 1 + name.length := by
      rw [hplace, ← append_assoc, length_append]
    have hsearch : strchr (pipePrefix ++ (kQemudPrefix ++ (name ++ colon :: args) ++ 0 :: junk)) (place + 1) colon =
        some (place + 1 + name.length) := by
      rw [append_assoc kQemudPrefix, hfront]
      exact strchr_some junk h hcolon hplace.symm
    have hwhole : ∀ byte : UInt8, pipePrefix ++ (kQemudPrefix ++ name) ++ byte :: (args ++ 0 :: junk) =
        pipePrefix ++ (kQemudPrefix ++ (name ++ byte :: args) ++ 0 :: junk) := by
      intro byte
      simp only [append_assoc, cons_append]
    have hcut : (pipePrefix ++ (kQemudPrefix ++ (name ++ colon :: args) ++ 0 :: junk)).set
        (place + 1 + name.length) 0 = pipePrefix ++ (kQemudPrefix ++ name ++ 0 :: (args ++ 0 :: junk)) := by
      rw [← hwhole, set_append _ _ _ _ hend, append_assoc]
    have hrestore : (pipePrefix ++ (kQemudPrefix ++ name ++ 0 :: (args ++ 0 :: junk))).set (place + 1 + name.length)
        colon = pipePrefix ++ (kQemudPrefix ++ (name ++ colon :: args) ++ 0 :: junk) := by
      rw [← append_assoc, set_append _ _ _ _ hend, hwhole]
    simp only [findQemudService, Option.bind_some, hsearch, Option.elim_some, hcut, splitColon_some hcolon,
      cString_append _ hname rfl, findServiceByName_eq, hrestore]
    rw [← hend, length_append]
    split_ifs <;> rfl

theorem take_pattern {pattern : Bytes} (hpattern : 0 ∉ pattern) :
    (text ++ 0 :: junk).take pattern.length = pattern ↔ text.take pattern.length = pattern := by
  obtain hlong | hshort := Nat.le_total pattern.length text.length
  · rw [List.take_append_of_le_length hlong]
  · obtain heq | hlt := Nat.eq_or_lt_of_le hshort
    · rw [← heq, List.take_left, List.take_length]
    · refine iff_of_false (fun h ↦ hpattern ?_) fun h ↦ ?_
      · rw [← h, List.take_append, List.take_of_length_le hshort]
        refine mem_append_right text ?_
        obtain ⟨k, hk⟩ := Nat.exists_eq_add_of_lt hlt
        rw [hk, Nat.add_assoc, Nat.add_sub_cancel_left, List.take_succ_cons]
        exact mem_cons_self
      · have hlength := congrArg List.length h
        rw [length_take] at hlength
        omega

/-- The interpretation as a name and its arguments. -/
theorem createPipe_rest (h : 0 ∉ rest) :
    (createPipe services create pipePrefix.length (pipePrefix ++ (rest ++ 0 :: junk), none,
        strchr (pipePrefix ++ (rest ++ 0 :: junk)) pipePrefix.length colon)).2 =
      if (splitColon rest).1 ∈ services then create (splitColon rest).1 (splitColon rest).2 else none := by
  obtain hcolon | ⟨name, args, rfl, hcolon⟩ := exists_splitColon rest
  · rw [strchr_none junk h hcolon rfl, createPipe_none junk h, splitColon_none hcolon, Option.none_or,
      findServiceByName_eq]
    split_ifs <;> rfl
  · have hname : 0 ∉ name := fun hmem ↦ h (List.mem_append_left _ hmem)
    have hargs : 0 ∉ args := fun hmem ↦ h (mem_append_right _ (List.mem_cons_of_mem _ hmem))
    rw [strchr_some junk h hcolon rfl, createPipe_some junk hname hargs, splitColon_some hcolon, Option.none_or,
      findServiceByName_eq]
    split_ifs <;> rfl

/-- The interpretation as a `qemud:` name of its own, before the other one. -/
theorem createPipe_qemud {more : Bytes} (h : 0 ∉ kQemudPrefix ++ more) : (createPipe services create pipePrefix.length
        (findQemudService services (pipePrefix ++ (kQemudPrefix ++ more ++ 0 :: junk)) pipePrefix.length
          (strchr (pipePrefix ++ (kQemudPrefix ++ more ++ 0 :: junk)) pipePrefix.length colon))).2 =
      if kQemudPrefix ++ (splitColon more).1 ∈ services then
        create (kQemudPrefix ++ (splitColon more).1) (splitColon more).2
      else if (splitColon (kQemudPrefix ++ more)).1 ∈ services then
        create (splitColon (kQemudPrefix ++ more)).1 (splitColon (kQemudPrefix ++ more)).2
      else none := by
  have hmore : 0 ∉ more := fun hmem ↦ h (mem_append_right _ hmem)
  have hcolon : colon ∉ letters "qemud" := by decide
  have hplace : strchr (pipePrefix ++ (kQemudPrefix ++ more ++ 0 :: junk)) pipePrefix.length colon =
      some (pipePrefix.length + (letters "qemud").length) := strchr_some junk h hcolon rfl
  have hend : pipePrefix.length + (letters "qemud").length + 1 = (pipePrefix ++ kQemudPrefix).length := rfl
  rw [hplace, findQemudService_eq junk hmore hend]
  split_ifs with hown hother
  · obtain hcolon | ⟨name, args, rfl, hcolon⟩ := exists_splitColon more
    · rw [splitColon_none hcolon]
      simp only
      rw [createPipe_none junk h]
      rfl
    · have hname : 0 ∉ kQemudPrefix ++ name := by
        rw [← append_assoc] at h
        exact fun hmem ↦ h (List.mem_append_left _ hmem)
      have hargs : 0 ∉ args := fun hmem ↦ hmore (mem_append_right _ (List.mem_cons_of_mem _ hmem))
      have hbuffer : kQemudPrefix ++ name ++ 0 :: (args ++ 0 :: junk) =
          kQemudPrefix ++ name ++ 0 :: args ++ 0 :: junk := by rw [← cons_append, ← append_assoc]
      rw [splitColon_some hcolon]
      simp only
      rw [hbuffer, createPipe_some junk hname hargs]
      rfl
  · rw [← hplace, createPipe_rest junk h, if_pos hother]
  · rw [← hplace, createPipe_rest junk h, if_neg hother]

end

/-- Cutting the buffer finds the service that the text names. -/
theorem connect_eq (services : List Bytes) (create : Bytes → Option Bytes → Option Pipe) (h : 0 ∉ text)
    (junk : Bytes) :
    (connect services create (text ++ 0 :: junk)).2 =
      (chosen services text).bind fun (service, args) ↦ create service args := by
  unfold connect chosen
  by_cases hpipe : text.take pipePrefix.length = pipePrefix
  · have hbuffer := (take_pattern junk (by decide : 0 ∉ pipePrefix)).mpr hpipe
    rw [if_neg (not_not_intro hpipe), if_neg (not_not_intro hbuffer)]
    obtain ⟨rest, rfl⟩ : ∃ rest, text = pipePrefix ++ rest := ⟨text.drop pipePrefix.length, by
      conv_lhs => rw [← List.take_append_drop pipePrefix.length text, hpipe]⟩
    have hrest : 0 ∉ rest := fun hmem ↦ h (mem_append_right _ hmem)
    rw [append_assoc]
    simp only [cString_append junk hrest rfl, List.drop_left]
    by_cases hqemud : rest.take kQemudPrefix.length = kQemudPrefix
    · obtain ⟨more, rfl⟩ : ∃ more, rest = kQemudPrefix ++ more := ⟨rest.drop kQemudPrefix.length, by
        conv_lhs => rw [← List.take_append_drop kQemudPrefix.length rest, hqemud]⟩
      rw [if_pos hqemud, createPipe_qemud junk hrest, List.drop_left]
      simp only [hqemud, true_and]
      split_ifs <;> rfl
    · rw [if_neg hqemud, createPipe_rest junk hrest]
      simp only [hqemud, false_and, ↓reduceIte]
      split_ifs <;> rfl
  · have hbuffer : ¬ (text ++ 0 :: junk).take pipePrefix.length = pipePrefix := fun heq ↦
      hpipe ((take_pattern junk (by decide)).mp heq)
    rw [if_pos hpipe, if_pos hbuffer]
    rfl

/-! ## The handshake -/

theorem holds_new : (ConnectorPipe.new content).Holds [] := ⟨ List.nil_prefix, rfl, content.length_toList⟩

/-- A snapshot keeps what was received, whatever the buffer of the new pipe holds. -/
theorem onLoad_onSave (h : pipe.Holds received) (content : Vector UInt8 kBufferSize) :
    ∃ loaded, onLoad content (onSave pipe) = some loaded ∧ loaded.Holds received := by
  have hroom : received.length ≤ kBufferSize := h.length ▸ h.buffer.length_le
  have htake : pipe.mBuffer.take pipe.mPos = received := by
    rw [h.position]
    exact (List.prefix_iff_eq_take.mp h.buffer).symm
  have hbound : received.length < 2 ^ 31 := hroom.trans_lt (by decide)
  have hword : (UInt32.ofNat received.length).toNat = received.length :=
    UInt32.toNat_ofNat_of_lt' (hbound.trans (by decide))
  have hlen : (Int32.ofNat received.length).toInt = received.length := Int32.toInt_ofNat_of_lt hbound
  refine ⟨⟨received ++ content.toList.drop received.length, received.length⟩, ?_, List.prefix_append _ _, rfl, ?_⟩
  · have hvalid : ¬ ((received.length : ℤ) < 0 ∨ (received.length : ℤ) > kBufferSize) := by omega
    have hstream : getBe32 (onSave pipe) = (UInt32.ofNat received.length, received) := by
      rw [onSave, htake, h.position, getBe32_putBe32]
    unfold onLoad
    simp only [hstream, hword, hlen, if_neg hvalid, Int.toNat_natCast, Stream.read, List.take_length]
    exact if_pos trivial
  · rw [length_append, List.length_drop, Vector.length_toList, Nat.add_sub_cancel' hroom]

section

variable (services : List Bytes) (create : Bytes → Option Bytes → Option Pipe) {buffers : List Bytes}
  (h : pipe.Holds received)
include h

/-- A call without the zero: the bytes are kept, and a full buffer is an error. -/
theorem onGuestSend_waiting {head : Bytes} (hroom : received.length < kBufferSize)
    (hhead : buffers.flatten.take (kBufferSize - received.length) = head) (hnone : 0 ∉ head) :
    ∃ after, onGuestSend services create buffers pipe =
        (after, if received.length + head.length = kBufferSize then PIPE_ERROR_IO else head.length, none) ∧
      after.Holds (received ++ head) := by
  have hread := readBuffers_spec buffers h (Nat.add_sub_cancel' hroom.le) 0
  have hlength : head.length ≤ kBufferSize - received.length := by
    rw [← hhead]
    exact List.length_take_le _ _
  rw [← h.position] at hhead hlength
  rw [← h.position, Nat.zero_add, hhead] at hread
  obtain ⟨-, after, hread, hafter⟩ | ⟨text, rest, hsplit, -⟩ := hread
  · refine ⟨after, ?_, hafter⟩
    have hfull : kBufferSize - pipe.mPos - head.length = 0 ↔ pipe.mPos + head.length = kBufferSize := by
      rw [h.position] at hlength ⊢
      omega
    unfold onGuestSend
    simp only [hread, Bool.false_eq_true, not_false_eq_true, if_true, hfull, ← h.position]
    split_ifs
    · exact rfl
    · exact rfl
  · exact absurd (hsplit ▸ mem_append_right text mem_cons_self) hnone

/-- A call with the zero decides. -/
theorem onGuestSend_decided (hzero : 0 ∉ received) (hroom : received.length < kBufferSize)
    (hhead : buffers.flatten.take (kBufferSize - received.length) = text ++ 0 :: rest) (hnone : 0 ∉ text) :
    ∃ after, onGuestSend services create buffers pipe =
      match (chosen services (received ++ text)).bind fun (service, args) ↦ create service args with
      | none => (after, PIPE_ERROR_INVAL, none)
      | some newPipe => (after, (text.length + 1 : ℕ), some newPipe) := by
  have hread := readBuffers_spec buffers h (Nat.add_sub_cancel' hroom.le) 0
  rw [← h.position] at hhead
  rw [← h.position, Nat.zero_add, hhead] at hread
  obtain ⟨hall, -⟩ | ⟨found, others, hsplit, hfound, after, left, hread, hafter⟩ := hread
  · exact absurd (mem_append_right text mem_cons_self) hall
  · obtain rfl : text = found := by
      have hsame := takeWhile_zero rest hnone
      rw [hsplit, takeWhile_zero others hfound] at hsame
      exact hsame.symm
    obtain ⟨junk, hjunk⟩ := hafter.buffer
    have hbuffer : after.mBuffer = received ++ text ++ 0 :: junk := by
      rw [← hjunk]
      simp only [append_assoc, cons_append, List.nil_append]
    have htext : 0 ∉ received ++ text := fun hmem ↦ (mem_append.mp hmem).elim hzero hnone
    have hconnect := connect_eq services create htext junk
    rw [← hbuffer] at hconnect
    refine ⟨⟨(connect services create after.mBuffer).1, after.mPos⟩, ?_⟩
    rw [← hconnect]
    unfold onGuestSend
    simp only [hread, not_true_eq_false, if_false, Nat.zero_add]
    cases connect services create after.mBuffer with
    | mk mBuffer newPipe =>
      cases newPipe with
      | none => exact rfl
      | some newPipe => exact rfl

end

theorem outcome_zero {head : Bytes} (hhead : head.length < kBufferSize) (hzero : 0 ∉ head) :
    outcome services create (head ++ 0 :: rest) =
      match (chosen services head).bind fun (service, args) ↦ create service args with
      | none => .failed PIPE_ERROR_INVAL
      | some newPipe => .created newPipe (head.length + 1 : ℕ) := by
  have hmem : 0 ∈ (head ++ 0 :: rest).take kBufferSize := by
    obtain ⟨room, hroom⟩ := Nat.exists_eq_add_of_lt hhead
    rw [List.take_append, hroom, Nat.add_assoc, Nat.add_sub_cancel_left, List.take_succ_cons]
    exact mem_append_right _ mem_cons_self
  have htext : (head ++ 0 :: rest).takeWhile (· ≠ 0) = head := takeWhile_zero rest hzero
  unfold outcome
  rw [if_pos hmem, htext]

/-- Without a zero, bytes up to the end of the buffer are awaited, and no more. -/
theorem outcome_full {sent : Bytes} (h : 0 ∉ sent.take kBufferSize) : outcome services create sent =
      if sent.length < kBufferSize then .waiting sent.length else .failed PIPE_ERROR_IO := if_neg h

theorem run_snapshot (pipe : ConnectorPipe) (accepted : ℤ) :
    run services create (.snapshot content :: events) pipe accepted =
      match onLoad content (onSave pipe) with
      | none => .refused
      | some loaded => run services create events loaded accepted := rfl

theorem run_send (buffers : List Bytes) (events : List Event) (pipe : ConnectorPipe) (accepted : ℤ) :
    run services create (.send buffers :: events) pipe accepted =
      match onGuestSend services create buffers pipe with
      | (_, result, some newPipe) => .created newPipe (accepted + result)
      | (pipe, result, none) =>
        if result < 0 then .failed result else run services create events pipe (accepted + result) := rfl

/-- What the guest has sent so far decides what comes of the rest. -/
theorem run_eq (h : pipe.Holds received) (hzero : 0 ∉ received) (hroom : received.length < kBufferSize) :
    run services create events pipe received.length =
      outcome services create (received ++ events.flatMap Event.bytes) := by
  induction events generalizing pipe received with
  | nil =>
    have htake : 0 ∉ received.take kBufferSize := fun hmem ↦ hzero (List.mem_of_mem_take hmem)
    have hout : outcome services create received = .waiting received.length := by
      rw [outcome_full htake, if_pos hroom]
    rw [List.flatMap_nil, append_nil, hout]
    exact rfl
  | cons event events ih =>
    cases event with
    | snapshot content =>
      obtain ⟨loaded, hload, hloaded⟩ := onLoad_onSave h content
      have hstep : run services create (.snapshot content :: events) pipe received.length =
          run services create events loaded received.length := by
        rw [run_snapshot, hload]
      exact hstep.trans (ih hloaded hzero hroom)
    | send buffers =>
      have hbytes : (Event.send buffers :: events).flatMap Event.bytes =
          buffers.flatten ++ events.flatMap Event.bytes := List.flatMap_cons
      by_cases hmem : 0 ∈ buffers.flatten.take (kBufferSize - received.length)
      · obtain ⟨text, rest, hhead, hnone⟩ := List.eq_append_cons_of_mem hmem
        obtain ⟨after, hsend⟩ := onGuestSend_decided services create h hzero hroom hhead hnone
        have hlength : text.length < kBufferSize - received.length := by
          have htake := congrArg List.length hhead
          rw [length_take, length_append, List.length_cons] at htake
          omega
        have hsent : received ++ (Event.send buffers :: events).flatMap Event.bytes = received ++ text ++
            0 :: (rest ++ buffers.flatten.drop (kBufferSize - received.length) ++ events.flatMap Event.bytes) := by
          conv_lhs =>
            rw [hbytes, ← List.take_append_drop (kBufferSize - received.length) buffers.flatten, hhead]
          simp only [append_assoc, cons_append]
        have hshort : (received ++ text).length < kBufferSize := by
          rw [length_append]
          omega
        have hclean : 0 ∉ received ++ text := fun hmem ↦ (mem_append.mp hmem).elim hzero hnone
        rw [hsent, outcome_zero hshort hclean, run_send, hsend]
        cases (chosen services (received ++ text)).bind fun (service, args) ↦ create service args with
        | none => rfl
        | some newPipe =>
          have hcount : ((received ++ text).length + 1 : ℕ) = (received.length : ℤ) + (text.length + 1 : ℕ) := by
            rw [length_append, Nat.add_assoc, Int.natCast_add]
          exact (congrArg (Outcome.created newPipe) hcount).symm
      · obtain ⟨head, hhead⟩ : ∃ head, buffers.flatten.take (kBufferSize - received.length) = head := ⟨_, rfl⟩
        rw [hhead] at hmem
        obtain ⟨after, hsend, hafter⟩ := onGuestSend_waiting services create h hroom hhead hmem
        have hlength : head.length = min (kBufferSize - received.length) buffers.flatten.length := by
          rw [← hhead, length_take]
        have hclean : 0 ∉ received ++ head := fun hzero' ↦ (mem_append.mp hzero').elim hzero hmem
        rw [hbytes, run_send, hsend]
        by_cases hfull : received.length + head.length = kBufferSize
        · have htake : (received ++ (buffers.flatten ++ events.flatMap Event.bytes)).take kBufferSize =
              received ++ head := by
            rw [List.take_append, List.take_of_length_le hroom.le, List.take_append_of_le_length (by omega), hhead]
          have hlong : ¬ (received ++ (buffers.flatten ++ events.flatMap Event.bytes)).length < kBufferSize := by
            rw [length_append, length_append]
            omega
          rw [outcome_full (htake ▸ hclean), if_neg hlong, if_pos hfull]
          rfl
        · have hall : head = buffers.flatten := by
            rw [← hhead]
            exact List.take_of_length_le (by omega)
          have hresult : ¬ ((head.length : ℕ) : ℤ) < 0 := Int.not_lt.mpr (Int.natCast_nonneg _)
          have hrest := ih hafter hclean (by rw [length_append]; omega)
          rw [length_append, Int.natCast_add, append_assoc, hall] at hrest
          rw [if_neg hfull]
          simp only
          rw [if_neg hresult, hall, hrest]

/-- Whatever the calls, the buffers and the snapshots between them, the bytes up to the first zero decide. -/
theorem handshake (services : List Bytes) (create : Bytes → Option Bytes → Option Pipe)
    (content : Vector UInt8 kBufferSize) (events : List Event) :
    run services create events (ConnectorPipe.new content) 0 =
      outcome services create (events.flatMap Event.bytes) :=
  run_eq events (holds_new content) not_mem_nil (by decide)

end FdeEmugl.Connector
