import FdeEmugl.Library.Cyclic
import FdeEmugl.Library.Runs
import FdeEmugl.Render.ReadBuffer

/-!
# The memory of a ReadBuffer

`ReadBuffer` says what bytes a buffer holds. Here they are in a block of memory: the stream writes
behind them, they are moved to the front of the block or copied to a larger one, and each read is
asked for some number of bytes. The sizes are `size_t`s, but the free space is taken as an `int`, so a
block of 2^31 bytes or more is not used as it is.
-/

namespace FdeEmugl.Render

open Cyclic Runs

/-- `allocated` is the size of the block that `m_buf` really has. -/
structure MemoryBuffer where
  m_buf : ℕ → UInt8
  allocated : ℕ
  m_size : ℕ
  /-- The distance from `m_buf` to `m_readPtr`. -/
  readPos : ℕ
  m_validData : ℕ
  m_neededFreeTailSize : ℤ

/-- One call of `stream->read`: the bytes it may write, those that there is memory for, and those it
writes. -/
structure ReadCall where
  asked : ℕ
  tail : ℕ
  got : List UInt8
deriving DecidableEq

namespace MemoryBuffer

/-- The result of the first allocation is not looked at. -/
def new (bufsize : ℕ) (allocates : Bool) : MemoryBuffer where
  m_buf _ := 0
  allocated := if allocates then bufsize else 0
  m_size := bufsize
  readPos := 0
  m_validData := 0
  m_neededFreeTailSize := 0

/-- The bytes from `m_readPtr` on. -/
def valid (buf : MemoryBuffer) : List UInt8 := segment buf.m_buf buf.readPos buf.m_validData

def toReadBuffer (buf : MemoryBuffer) : ReadBuffer where
  m_size := buf.m_size
  readPos := buf.readPos
  data := buf.valid
  m_neededFreeTailSize := buf.m_neededFreeTailSize

def tail (buf : MemoryBuffer) : ℕ := buf.allocated - (buf.readPos + buf.m_validData)

/-- What the stream writes behind the valid data. -/
def store (bytes : List UInt8) (buf : MemoryBuffer) : MemoryBuffer :=
  { buf with
    m_buf := copy buf.m_buf (buf.readPos + buf.m_validData) (fun index ↦ bytes.getD index 0) bytes.length
    m_validData := buf.m_validData + bytes.length }

/-- `memmove` to the front. -/
def move (buf : MemoryBuffer) : MemoryBuffer :=
  { buf with
    m_buf := copy buf.m_buf 0 (fun index ↦ buf.m_buf (buf.readPos + index)) buf.m_validData
    readPos := 0 }

/-- `memcpy` to a new block. -/
def moveTo (size : ℕ) (buf : MemoryBuffer) : MemoryBuffer :=
  { buf with
    m_buf := copy (fun _ ↦ 0) 0 (fun index ↦ buf.m_buf (buf.readPos + index)) buf.m_validData
    allocated := size
    m_size := size
    readPos := 0 }

/-- The reading loop, with its calls of the stream. -/
def readLoop (minSizeToRead maxSizeToRead : ℤ) :
    ℤ → MemoryBuffer → List (List UInt8) → ℤ × MemoryBuffer × List (List UInt8) × List ReadCall
  | readTotal, buf, [] =>
    (ReadBuffer.noMoreData readTotal, buf, [], [⟨toSize (maxSizeToRead - readTotal), buf.tail, []⟩])
  | readTotal, buf, chunk :: chunks =>
    let asked := toSize (maxSizeToRead - readTotal)
    let call : ReadCall := ⟨asked, buf.tail, chunk.take asked⟩
    if chunk = [] then
      (ReadBuffer.noMoreData readTotal, buf, chunks, [call])
    else if asked = 0 then
      (ReadBuffer.noMoreData readTotal, buf, chunk :: chunks, [call])
    else if chunk.length ≤ asked then
      let readTotal := toInt (readTotal + chunk.length)
      if readTotal < minSizeToRead then
        let (stat, buf, chunks, calls) :=
          readLoop minSizeToRead maxSizeToRead readTotal (buf.store chunk) chunks
        (stat, buf, chunks, call :: calls)
      else (readTotal, buf.store chunk, chunks, [call])
    else
      let readTotal := toInt (readTotal + asked)
      let filled := buf.store (chunk.take asked)
      (readTotal, filled, chunk.drop asked :: chunks,
        call ::
          if readTotal < minSizeToRead then [⟨toSize (maxSizeToRead - readTotal), filled.tail, []⟩] else [])

def newSize (minSizeToRead : ℤ) (buf : MemoryBuffer) : ℕ :=
  let size := max (toSize (toInt (2 * minSizeToRead) + buf.m_validData)) (toSize (2 * buf.m_size))
  if size < buf.m_size then 2 ^ 31 - 1 else size

def minSizeToRead (minSize : ℤ) (buf : MemoryBuffer) : ℤ := toInt (minSize - buf.m_validData)

def neededFreeTailThisTime (minSize : ℤ) (buf : MemoryBuffer) : ℤ :=
  max (buf.minSizeToRead minSize) buf.m_neededFreeTailSize

def freeTailSize (buf : MemoryBuffer) : ℤ := toInt (buf.m_size - (buf.readPos + buf.m_validData))

/-- `maxSizeToRead` and the buffer that is read into. There is no result if the allocation fails. -/
def makeRoom (malloc : ℕ → Bool) (minSize : ℤ) (buf : MemoryBuffer) : Option (ℤ × MemoryBuffer) :=
  if buf.freeTailSize ≥ buf.neededFreeTailThisTime minSize then some (buf.freeTailSize, buf)
  else if buf.freeTailSize + buf.readPos ≥ buf.neededFreeTailThisTime minSize then
    some (toInt (buf.m_size - buf.m_validData), buf.move)
  else
    let size := buf.newSize (buf.minSizeToRead minSize)
    if malloc size then some (toInt (size - buf.m_validData), buf.moveTo size) else none

def getData (malloc : ℕ → Bool) (minSize : ℤ) (buf : MemoryBuffer) (chunks : List (List UInt8)) :
    ℤ × MemoryBuffer × List (List UInt8) × List ReadCall :=
  match buf.makeRoom malloc minSize with
  | none => (-1, buf, chunks, [])
  | some (maxSizeToRead, buf') => readLoop (buf.minSizeToRead minSize) maxSizeToRead 0 buf' chunks

def consume (amount : ℕ) (buf : MemoryBuffer) : MemoryBuffer :=
  { buf with m_validData := buf.m_validData - amount, readPos := buf.readPos + amount }

def setNeededFreeTailSize (size : ℤ) (buf : MemoryBuffer) : MemoryBuffer := { buf with m_neededFreeTailSize := size }

/-! ## The bytes -/

variable {buf : MemoryBuffer} {bytes : List UInt8} {chunks : List (List UInt8)} {malloc : ℕ → Bool}
variable {minSize readTotal minSizeToRead maxSizeToRead : ℤ}

variable {wanted : ℤ}

theorem length_valid (buf : MemoryBuffer) : buf.valid.length = buf.m_validData := length_segment _ _ _

theorem valid_store (bytes : List UInt8) (buf : MemoryBuffer) : (buf.store bytes).valid = buf.valid ++ bytes :=
  segment_copy_behind buf.m_buf buf.readPos buf.m_validData bytes 0

theorem valid_move (buf : MemoryBuffer) : buf.move.valid = buf.valid := by
  have hfront := segment_copy_front buf.m_buf (fun index ↦ buf.m_buf (buf.readPos + index)) buf.m_validData
  unfold valid move
  rw [hfront]
  simp [Cyclic.segment]

theorem valid_moveTo (size : ℕ) (buf : MemoryBuffer) : (buf.moveTo size).valid = buf.valid := by
  have hfront := segment_copy_front (fun _ ↦ 0) (fun index ↦ buf.m_buf (buf.readPos + index)) buf.m_validData
  unfold valid moveTo
  rw [hfront]
  simp [Cyclic.segment]

theorem valid_consume {amount : ℕ} (h : amount ≤ buf.m_validData) :
    (buf.consume amount).valid = buf.valid.drop amount := by
  obtain ⟨rest, hrest⟩ := Nat.exists_eq_add_of_le h
  unfold valid consume
  rw [hrest, Nat.add_sub_cancel_left, segment_add, List.drop_left' (length_segment _ _ _)]

/-- The loop appends what the stream has written. -/
theorem valid_readLoop (readTotal : ℤ) (buf : MemoryBuffer) (chunks : List (List UInt8)) :
    (readLoop minSizeToRead maxSizeToRead readTotal buf chunks).2.1.valid =
      buf.valid ++ (readLoop minSizeToRead maxSizeToRead readTotal buf chunks).2.2.2.flatMap ReadCall.got := by
  induction chunks generalizing readTotal buf with
  | nil => simp [readLoop]
  | cons chunk chunks ih =>
    simp only [readLoop]
    split_ifs with hempty hnone hwhole hless hless
    · simp [hempty]
    · simp [hnone]
    · simp [ih, valid_store, List.take_of_length_le hwhole]
    · simp [valid_store, List.take_of_length_le hwhole]
    · simp [valid_store]
    · simp [valid_store]

theorem valid_of_makeRoom {result : ℤ × MemoryBuffer} (h : buf.makeRoom malloc minSize = some result) :
    result.2.valid = buf.valid := by
  unfold makeRoom at h
  dsimp only at h
  split_ifs at h
  · cases h
    rfl
  · cases h
    exact valid_move buf
  · cases h
    exact valid_moveTo _ buf

theorem valid_getData (malloc : ℕ → Bool) (minSize : ℤ) (buf : MemoryBuffer) (chunks : List (List UInt8)) :
    (getData malloc minSize buf chunks).2.1.valid =
      buf.valid ++ (getData malloc minSize buf chunks).2.2.2.flatMap ReadCall.got := by
  unfold getData
  cases hroom : buf.makeRoom malloc minSize with
  | none => simp
  | some result =>
    dsimp only
    rw [valid_readLoop, valid_of_makeRoom hroom]

/-! ## The list of bytes -/

theorem toReadBuffer_readLoop (readTotal : ℤ) (buf : MemoryBuffer) (chunks : List (List UInt8)) :
    ReadBuffer.readLoop minSizeToRead maxSizeToRead readTotal buf.valid chunks =
      ((readLoop minSizeToRead maxSizeToRead readTotal buf chunks).1,
        (readLoop minSizeToRead maxSizeToRead readTotal buf chunks).2.1.valid,
        (readLoop minSizeToRead maxSizeToRead readTotal buf chunks).2.2.1) := by
  induction chunks generalizing readTotal buf with
  | nil => rfl
  | cons chunk chunks ih =>
    simp only [readLoop, ReadBuffer.readLoop]
    split_ifs <;> simp [← valid_store, ih]

/-- Only the cells and their number change. -/
theorem readLoop_frame (minSizeToRead maxSizeToRead readTotal : ℤ) (buf : MemoryBuffer) (chunks : List (List UInt8)) :
    ∃ cells count, (readLoop minSizeToRead maxSizeToRead readTotal buf chunks).2.1 =
      { buf with m_buf := cells, m_validData := count } := by
  induction chunks generalizing readTotal buf with
  | nil => exact ⟨_, _, rfl⟩
  | cons chunk chunks ih =>
    simp only [readLoop]
    split_ifs
    · exact ⟨_, _, rfl⟩
    · exact ⟨_, _, rfl⟩
    · obtain ⟨cells, count, hlater⟩ := ih (toInt (readTotal + chunk.length)) (buf.store chunk)
      exact ⟨cells, count, hlater⟩
    · exact ⟨_, _, rfl⟩
    · exact ⟨_, _, rfl⟩
    · exact ⟨_, _, rfl⟩

theorem toReadBuffer_of_frame {buf' : MemoryBuffer}
    (h : ∃ cells count, buf' = { buf with m_buf := cells, m_validData := count }) :
    buf'.toReadBuffer = { buf.toReadBuffer with data := buf'.valid } := by
  obtain ⟨cells, count, rfl⟩ := h
  rfl

/-- On the bytes that the buffer holds, `getData` is the one of `ReadBuffer`. -/
theorem toReadBuffer_getData (malloc : ℕ → Bool) (minSize : ℤ) (buf : MemoryBuffer) (chunks : List (List UInt8)) :
    buf.toReadBuffer.getData malloc minSize chunks =
      ((getData malloc minSize buf chunks).1, (getData malloc minSize buf chunks).2.1.toReadBuffer,
        (getData malloc minSize buf chunks).2.2.1) := by
  have hlength : buf.toReadBuffer.validData = buf.m_validData := length_valid buf
  have hsize : buf.toReadBuffer.newSize (buf.minSizeToRead minSize) = buf.newSize (buf.minSizeToRead minSize) := by
    unfold ReadBuffer.newSize newSize
    rw [hlength]
    rfl
  have hloop (buf' : MemoryBuffer) (maxSizeToRead : ℤ) :
      (readLoop (buf.minSizeToRead minSize) maxSizeToRead 0 buf' chunks).2.1.toReadBuffer =
        { buf'.toReadBuffer with
          data := (readLoop (buf.minSizeToRead minSize) maxSizeToRead 0 buf' chunks).2.1.valid } :=
    toReadBuffer_of_frame (readLoop_frame _ _ 0 buf' chunks)
  unfold ReadBuffer.getData getData makeRoom
  simp only [hlength]
  rw [← minSizeToRead, hsize]
  unfold neededFreeTailThisTime freeTailSize
  simp only [toReadBuffer, ge_iff_le] at hloop ⊢
  split_ifs
  · simp only [hloop, toReadBuffer_readLoop]
  · rw [← valid_move]
    simp only [hloop, toReadBuffer_readLoop]
    rfl
  · rw [← valid_moveTo]
    simp only [hloop, toReadBuffer_readLoop]
    rfl
  · rfl

/-! ## The room for a read -/

/-- The stream did not fill a place that it was given. -/
def NoData (calls : List ReadCall) : Prop := ∃ call ∈ calls, 0 < call.asked ∧ call.got = []

/-- No call asks for more than there is memory for, and what was wanted came unless the stream had no
data. -/
structure Filled (wanted : ℤ) (buf buf' : MemoryBuffer) (calls : List ReadCall) : Prop where
  asks : ∀ call ∈ calls, call.asked ≤ call.tail
  inBlock : buf.readPos + buf'.m_validData ≤ buf.allocated
  enough : wanted ≤ (buf'.m_validData : ℤ) - buf.m_validData ∨ NoData calls

section

variable {call : ReadCall} (hcall : call.asked ≤ call.tail)
include hcall

theorem Filled.cons {buf' : MemoryBuffer} {calls : List ReadCall}
    (h : (buf.store bytes).Filled (wanted - bytes.length) buf' calls) :
    buf.Filled wanted buf' (call :: calls) where
  asks := List.forall_mem_cons.mpr ⟨hcall, h.asks⟩
  inBlock := h.inBlock
  enough := by
    refine h.enough.imp (fun henough ↦ ?_) fun ⟨other, hother, hnone⟩ ↦ ⟨other, .tail _ hother, hnone⟩
    have hvalid : (buf.store bytes).m_validData = buf.m_validData + bytes.length := rfl
    omega

theorem Filled.of_call (hblock : buf.readPos + buf.m_validData + bytes.length ≤ buf.allocated)
    (henough : wanted ≤ bytes.length ∨ 0 < call.asked ∧ call.got = []) :
    buf.Filled wanted (buf.store bytes) [call] where
  asks := by simpa using hcall
  inBlock := by
    have hvalid : (buf.store bytes).m_validData = buf.m_validData + bytes.length := rfl
    omega
  enough := by
    have hvalid : (buf.store bytes).m_validData = buf.m_validData + bytes.length := rfl
    refine henough.imp (fun henough ↦ ?_) fun hnone ↦ ⟨call, .head _, hnone⟩
    omega

theorem Filled.of_none (hblock : buf.readPos + buf.m_validData ≤ buf.allocated)
    (hnone : 0 < call.asked ∧ call.got = []) :
    buf.Filled wanted buf [call] where
  asks := by simpa using hcall
  inBlock := hblock
  enough := .inr ⟨call, .head _, hnone⟩

end

/-- The loop in a buffer that has room for `maxSizeToRead` bytes, of which `readTotal` are filled. -/
theorem filled_readLoop (hread : 0 ≤ readTotal) (hless : readTotal < minSizeToRead)
    (hmin : minSizeToRead ≤ maxSizeToRead) (hmax : maxSizeToRead < 2 ^ 31)
    (hroom : (buf.readPos + buf.m_validData : ℤ) + (maxSizeToRead - readTotal) ≤ buf.allocated)
    (chunks : List (List UInt8)) :
    buf.Filled (minSizeToRead - readTotal) (readLoop minSizeToRead maxSizeToRead readTotal buf chunks).2.1
      (readLoop minSizeToRead maxSizeToRead readTotal buf chunks).2.2.2 := by
  induction chunks generalizing readTotal buf with
  | nil =>
    have hasked := toSize_of_nonneg (maxSizeToRead - readTotal) (by omega) (by omega)
    have hcall : toSize (maxSizeToRead - readTotal) ≤ buf.tail := by
      unfold tail
      omega
    exact .of_none hcall (by omega) ⟨by dsimp only; omega, rfl⟩
  | cons chunk chunks ih =>
    have hasked := toSize_of_nonneg (maxSizeToRead - readTotal) (by omega) (by omega)
    have hcall : toSize (maxSizeToRead - readTotal) ≤ buf.tail := by
      unfold tail
      omega
    simp only [readLoop]
    split_ifs with hempty hnone hwhole hagain hagain
    · exact .of_none hcall (by omega) ⟨by dsimp only; omega, by simp [hempty]⟩
    · omega
    · have htotal := toInt_of_small (readTotal + chunk.length) (by omega) (by omega)
      rw [htotal] at hagain ⊢
      have hvalid : (buf.store chunk).m_validData = buf.m_validData + chunk.length := rfl
      have hplace : (buf.store chunk).readPos = buf.readPos := rfl
      have hblock : (buf.store chunk).allocated = buf.allocated := rfl
      have hlater : (buf.store chunk).Filled (minSizeToRead - (readTotal + chunk.length)) _ _ :=
        ih (by omega) hagain (by omega)
      rw [← Int.sub_sub] at hlater
      exact hlater.cons hcall
    · have htotal := toInt_of_small (readTotal + chunk.length) (by omega) (by omega)
      rw [htotal] at hagain
      exact .of_call hcall (by omega) (.inl (by omega))
    · -- After a chunk that was cut the buffer is full.
      have htotal := toInt_of_small (readTotal + toSize (maxSizeToRead - readTotal)) (by omega) (by omega)
      omega
    · have htotal := toInt_of_small (readTotal + toSize (maxSizeToRead - readTotal)) (by omega) (by omega)
      have htake : (chunk.take (toSize (maxSizeToRead - readTotal))).length =
          toSize (maxSizeToRead - readTotal) := List.length_take_of_le (by omega)
      exact .of_call hcall (by omega) (.inl (by omega))

/-- The buffer is read into where it is if its block is there. After moving or reallocating, the room
behind the valid data is, as an `int`, at least what has to be read. -/
def Roomy (malloc : ℕ → Bool) (minSize : ℤ) (buf : MemoryBuffer) : Prop :=
  if buf.freeTailSize ≥ buf.neededFreeTailThisTime minSize then buf.allocated = buf.m_size
  else if buf.freeTailSize + buf.readPos ≥ buf.neededFreeTailThisTime minSize then
    buf.allocated = buf.m_size ∧ minSize - buf.m_validData ≤ toInt (buf.m_size - buf.m_validData)
  else
    malloc (buf.newSize (buf.minSizeToRead minSize)) = true →
      minSize - buf.m_validData ≤ toInt (buf.newSize (buf.minSizeToRead minSize) - buf.m_validData)

instance (malloc : ℕ → Bool) (minSize : ℤ) (buf : MemoryBuffer) : Decidable (buf.Roomy malloc minSize) := by
  unfold Roomy
  infer_instance

/-- What `makeRoom` leads to in a buffer that is roomy. -/
structure Room (minSizeToRead : ℤ) (buf : MemoryBuffer) (maxSizeToRead : ℤ) (buf' : MemoryBuffer) : Prop where
  validData_eq : buf'.m_validData = buf.m_validData
  allocated_eq : buf'.allocated = buf'.m_size
  min_le : minSizeToRead ≤ maxSizeToRead
  max_lt : maxSizeToRead < 2 ^ 31
  inBlock : (buf'.readPos + buf'.m_validData : ℤ) + maxSizeToRead ≤ buf'.allocated

section

variable (hless : (buf.m_validData : ℤ) < minSize) (hint : minSize < 2 ^ 31)
include hless hint

theorem minSizeToRead_eq : buf.minSizeToRead minSize = minSize - buf.m_validData :=
  toInt_of_small _ (by omega) (by omega)

theorem validData_le_newSize : buf.m_validData ≤ buf.newSize (buf.minSizeToRead minSize) := by
  have hmin := minSizeToRead_eq hless hint
  -- If the doubling overflows, the sum is negative and becomes a huge size.
  have hpacket : buf.m_validData ≤ toSize (toInt (2 * buf.minSizeToRead minSize) + buf.m_validData) := by
    have hsize := toSize_eq (toInt (2 * buf.minSizeToRead minSize) + buf.m_validData)
    rw [toInt_eq] at hsize ⊢
    split_ifs at hsize ⊢ <;> omega
  unfold newSize
  dsimp only
  split_ifs
  · omega
  · exact hpacket.trans (le_max_left _ _)

theorem room_of_makeRoom {result : ℤ × MemoryBuffer} (hblock : buf.readPos + buf.m_validData ≤ buf.m_size)
    (hroomy : buf.Roomy malloc minSize) (h : buf.makeRoom malloc minSize = some result) :
    Room (minSize - buf.m_validData) buf result.1 result.2 := by
  have hmin := minSizeToRead_eq hless hint
  have hneeded : minSize - buf.m_validData ≤ buf.neededFreeTailThisTime minSize := by
    rw [← hmin]
    exact le_max_left _ _
  unfold Roomy at hroomy
  unfold makeRoom at h
  dsimp only at h
  split_ifs at h hroomy with htail hfront hmalloc
  · cases h
    have hfree : buf.freeTailSize ≤ _ := toInt_le (buf.m_size - (buf.readPos + buf.m_validData)) (by omega)
    exact ⟨rfl, hroomy, by omega, (toInt_bounds _).2, by dsimp only; omega⟩
  · cases h
    have hfree := toInt_le (buf.m_size - buf.m_validData) (by omega)
    have hpos : buf.move.readPos = 0 := rfl
    have hvalid : buf.move.m_validData = buf.m_validData := rfl
    have halloc : buf.move.allocated = buf.allocated := rfl
    exact ⟨rfl, hroomy.1, hroomy.2, (toInt_bounds _).2, by dsimp only; omega⟩
  · cases h
    have hle := validData_le_newSize hless hint
    have hfree := toInt_le (buf.newSize (buf.minSizeToRead minSize) - buf.m_validData) (by omega)
    refine ⟨rfl, rfl, hroomy hmalloc, (toInt_bounds _).2, ?_⟩
    simp only [moveTo]
    omega

end

/-- What a call in a roomy buffer comes to. -/
structure GetsData (minSize : ℤ) (failed : Prop) (buf buf' : MemoryBuffer) (calls : List ReadCall) : Prop where
  asks : ∀ call ∈ calls, call.asked ≤ call.tail
  inBlock : buf'.readPos + buf'.m_validData ≤ buf'.m_size
  noBlock : buf'.allocated ≠ buf'.m_size → buf' = buf
  enough : (buf'.m_validData : ℤ) < minSize → NoData calls ∨ failed

theorem getsData (hless : (buf.m_validData : ℤ) < minSize) (hint : minSize < 2 ^ 31)
    (hblock : buf.readPos + buf.m_validData ≤ buf.m_size) (hroomy : buf.Roomy malloc minSize)
    (chunks : List (List UInt8)) :
    GetsData minSize (buf.makeRoom malloc minSize = none) buf (buf.getData malloc minSize chunks).2.1
      (buf.getData malloc minSize chunks).2.2.2 := by
  unfold getData
  cases hroom : buf.makeRoom malloc minSize with
  | none => exact ⟨by simp, hblock, fun _ ↦ rfl, fun _ ↦ .inr rfl⟩
  | some result =>
    obtain ⟨maxSizeToRead, moved⟩ := result
    obtain ⟨hvalid, halloc, hmin, hmax, hinside⟩ := room_of_makeRoom hless hint hblock hroomy hroom
    dsimp only at hvalid halloc hmin hmax hinside ⊢
    rw [minSizeToRead_eq hless hint]
    have hfilled : moved.Filled (minSize - buf.m_validData - 0) _ _ :=
      filled_readLoop le_rfl (by omega) hmin hmax (by omega) chunks
    obtain ⟨cells, count, hframe⟩ :=
      readLoop_frame (minSize - buf.m_validData) maxSizeToRead 0 moved chunks
    refine ⟨hfilled.asks, ?_, ?_, ?_⟩
    · have hend := hfilled.inBlock
      rw [hframe] at hend ⊢
      dsimp only at hend ⊢
      omega
    · intro hne
      rw [hframe] at hne
      exact absurd halloc hne
    · intro hshort
      refine .inl (hfilled.enough.resolve_left ?_)
      omega

end MemoryBuffer

/-! ## Runs -/

inductive BufferCall where
  /-- What `malloc` serves during the call, and what the stream delivers. -/
  | getData (malloc : ℕ → Bool) (minSize : ℤ) (chunks : List (List UInt8))
  | consume (amount : ℕ)
  | setNeededFreeTailSize (size : ℤ)

/-- What a call of `getData` has come to. -/
structure BufferReturn where
  minSize : ℤ
  validData : ℕ
  noData : Bool
  allocationFailed : Bool

/-- A buffer with what has happened to it: the bytes received, the number of those consumed, the calls
of the stream and the returns of `getData`. -/
structure BufferSession where
  buf : MemoryBuffer
  received : List UInt8
  consumed : ℕ
  reads : List ReadCall
  returns : List BufferReturn

namespace BufferSession

open MemoryBuffer

def start (bufsize : ℕ) (allocates : Bool) : BufferSession := ⟨.new bufsize allocates, [], 0, [], []⟩

/-- The calls that the assertions allow. -/
def step : BufferCall → BufferSession → Option BufferSession
  | .getData malloc minSize chunks, s =>
    if (s.buf.m_validData : ℤ) < minSize ∧ minSize < 2 ^ 31 then
      let (_, buf, _, calls) := s.buf.getData malloc minSize chunks
      some { s with
        buf
        received := s.received ++ calls.flatMap ReadCall.got
        reads := s.reads ++ calls
        returns := s.returns ++ [{
          minSize
          validData := buf.m_validData
          noData := calls.any fun call ↦ 0 < call.asked && call.got = []
          allocationFailed := (s.buf.makeRoom malloc minSize).isNone }] }
    else none
  | .consume amount, s =>
    if amount ≤ s.buf.m_validData then
      some { s with buf := s.buf.consume amount, consumed := s.consumed + amount }
    else none
  | .setNeededFreeTailSize size, s =>
    if -2 ^ 31 ≤ size ∧ size < 2 ^ 31 then some { s with buf := s.buf.setNeededFreeTailSize size }
    else none

/-- What a buffer promises. -/
structure Correct (s : BufferSession) : Prop where
  unread : s.buf.valid = s.received.drop s.consumed
  inBlock : s.buf.readPos + s.buf.m_validData ≤ s.buf.m_size
  asks : ∀ call ∈ s.reads, call.asked ≤ call.tail
  short : ∀ result ∈ s.returns, result.validData < result.minSize →
    result.noData = true ∨ result.allocationFailed = true

/-- The condition on a call. -/
def RoomyCall : BufferCall → BufferSession → Prop
  | .getData malloc minSize _, s => s.buf.Roomy malloc minSize
  | _, _ => True

instance : ∀ call s, Decidable (RoomyCall call s)
  | .getData malloc minSize _, s => inferInstanceAs (Decidable (s.buf.Roomy malloc minSize))
  | .consume _, _ => isTrue trivial
  | .setNeededFreeTailSize _, _ => isTrue trivial

/-- Without its block a buffer has no data. -/
structure Held (s : BufferSession) : Prop extends Correct s where
  consumed_le : s.consumed ≤ s.received.length
  noBlock : s.buf.allocated ≠ s.buf.m_size → s.buf.m_validData = 0

variable {s next : BufferSession} {call : BufferCall}

theorem held_start (bufsize : ℕ) (allocates : Bool) : (start bufsize allocates).Held where
  unread := rfl
  inBlock := Nat.zero_le _
  asks := by simp [start]
  short := by simp [start]
  consumed_le := le_rfl
  noBlock _ := rfl

/-- After a call the unread bytes are those from before and the new ones. -/
theorem unread_append {bytes : List UInt8} (h : s.Held) :
    s.received.drop s.consumed ++ bytes = (s.received ++ bytes).drop s.consumed :=
  (List.drop_append_of_le_length h.consumed_le).symm

theorem held_getData {malloc : ℕ → Bool} {minSize : ℤ} {chunks : List (List UInt8)} (h : s.Held)
    (hroomy : s.buf.Roomy malloc minSize) (hstep : step (.getData malloc minSize chunks) s = some next) :
    next.Held := by
  simp only [step] at hstep
  split_ifs at hstep with hguard
  cases hstep
  have hgets := getsData hguard.1 hguard.2 h.inBlock hroomy chunks
  refine ⟨⟨?_, hgets.inBlock, ?_, ?_⟩, ?_, ?_⟩
  · rw [← unread_append h, ← h.unread]
    exact valid_getData malloc minSize s.buf chunks
  · exact List.forall_mem_append.mpr ⟨h.asks, hgets.asks⟩
  · refine List.forall_mem_append.mpr ⟨h.short, ?_⟩
    simp only [List.mem_singleton, forall_eq]
    intro hshort
    rcases hgets.enough hshort with ⟨call, hcall, hasked, hnone⟩ | hfailed
    · exact .inl (List.any_eq_true.mpr ⟨call, hcall, by simp [hasked, hnone]⟩)
    · exact .inr (by rw [hfailed]; rfl)
  · have hconsumed := h.consumed_le
    simp only [List.length_append]
    omega
  · intro hne
    have hsame := hgets.noBlock hne
    dsimp only at hne ⊢
    rw [hsame] at hne ⊢
    exact h.noBlock hne

theorem held_step (h : s.Held) (hroomy : RoomyCall call s) (hstep : step call s = some next) : next.Held := by
  cases call with
  | getData malloc minSize chunks => exact held_getData h hroomy hstep
  | consume amount =>
    simp only [step] at hstep
    split_ifs at hstep with hguard
    cases hstep
    have hlength := congrArg List.length h.unread
    rw [length_valid, List.length_drop] at hlength
    have hblock := h.inBlock
    refine ⟨⟨?_, ?_, h.asks, h.short⟩, ?_, fun hne ↦ ?_⟩
    · rw [valid_consume hguard, h.unread, List.drop_drop]
    · simp only [consume]
      omega
    · have hconsumed := h.consumed_le
      dsimp only
      omega
    · have hnone := h.noBlock hne
      simp only [consume]
      omega
  | setNeededFreeTailSize size =>
    simp only [step] at hstep
    split_ifs at hstep
    cases hstep
    exact ⟨⟨h.unread, h.inBlock, h.asks, h.short⟩, h.consumed_le, h.noBlock⟩

/-- Whatever the stream and the allocator do, a buffer keeps its promises as long as every call of
`getData` finds room. -/
theorem correct_of_roomy (bufsize : ℕ) (allocates : Bool) {calls : List BufferCall} {last : BufferSession}
    (hroomy : Guarded step RoomyCall (start bufsize allocates) calls)
    (hrun : run step (start bufsize allocates) calls = some last) : last.Correct :=
  (invariant_of_guarded Held (fun _ _ _ h hcall hstep ↦ held_step h hcall hstep)
    (held_start bufsize allocates) hroomy hrun).toCorrect

/-- A block of 2^30 bytes with more of them asked to be free becomes one of 2^31 bytes; as an `int`, that
is a negative number, and as the size of a read more than there are bytes. -/
theorem huge_read :
    ∃ last, run step (start (2 ^ 30) true)
        [.setNeededFreeTailSize (2 ^ 30 + 1), .getData (fun _ ↦ true) 8 []] = some last ∧
      last.reads = [⟨2 ^ 64 - 2 ^ 31, 2 ^ 31, []⟩] ∧ ¬ last.Correct := by
  have hrun : (run step (start (2 ^ 30) true)
      [.setNeededFreeTailSize (2 ^ 30 + 1), .getData (fun _ ↦ true) 8 []]).map BufferSession.reads =
        some [⟨2 ^ 64 - 2 ^ 31, 2 ^ 31, []⟩] := by
    decide +kernel
  obtain ⟨last, hlast, hreads⟩ := Option.map_eq_some_iff.mp hrun
  refine ⟨last, hlast, hreads, fun hcorrect ↦ ?_⟩
  have hasks := hcorrect.asks
  rw [hreads] at hasks
  exact absurd (hasks _ (.head _)) (by decide)

/-- A buffer of four bytes that has to grow. -/
def growingCalls : List BufferCall :=
  [.getData (fun size ↦ size < 100) 3 [[1, 2], [3, 4]], .consume 3,
    .getData (fun size ↦ size < 100) 8 [[5, 6, 7], [], [8, 9, 10, 11]],
    .getData (fun size ↦ size < 100) 8 [[8, 9, 10, 11]]]

theorem correct_growingCalls :
    ∃ last, run step (start 4 true) growingCalls = some last ∧ last.buf.valid = [4, 5, 6, 7, 8, 9, 10, 11] ∧
      last.Correct := by
  have hrun : (run step (start 4 true) growingCalls).map (fun last ↦ last.buf.valid) =
      some [4, 5, 6, 7, 8, 9, 10, 11] := by
    decide +kernel
  obtain ⟨last, hlast, hvalid⟩ := Option.map_eq_some_iff.mp hrun
  exact ⟨last, hlast, hvalid, correct_of_roomy 4 true (by decide +kernel) hlast⟩

end BufferSession

end FdeEmugl.Render
