import Mathlib.Algebra.Group.Int.Defs
import Mathlib.Algebra.Group.Nat.Defs
import Mathlib.Data.List.Basic
import Mathlib.Order.Basic

/-!
# ReadBuffer

The bytes received from the guest and not yet consumed, in a block of memory of
`m_size` bytes. `getData` makes room by moving the bytes to the front of the block or
into a larger one, and reads until it has what was asked for. Its quantities are `int`s
and `size_t`s; the conversions are written out where the code makes them.

What the guest sends arrives in chunks: each call of `IOStream::read` delivers the
next chunk, or as much of it as there is room for. An empty chunk is a read that fails.
-/

namespace FdeEmugl.Render

structure ReadBuffer where
  m_size : ℕ
  /-- The distance from `m_buf` to `m_readPtr`. -/
  readPos : ℕ
  /-- The `m_validData` bytes from `m_readPtr` on. -/
  data : List UInt8
  m_neededFreeTailSize : ℤ
deriving Repr, DecidableEq

def toInt (value : ℤ) : ℤ := (Int32.ofInt value).toInt

def toSize (value : ℤ) : ℕ := (UInt64.ofInt value).toNat

variable (value : ℤ)

theorem toInt_bounds : -2 ^ 31 ≤ toInt value ∧ toInt value < 2 ^ 31 :=
  ⟨(Int32.ofInt value).le_toInt, (Int32.ofInt value).toInt_lt⟩

theorem toInt_of_small (hlow : 0 ≤ value) (hhigh : value < 2 ^ 31) : toInt value = value :=
  Int32.toInt_ofInt_of_le (by omega) (by omega)

theorem toInt_eq : toInt value = if value % 2 ^ 32 < 2 ^ 31 then value % 2 ^ 32 else value % 2 ^ 32 - 2 ^ 32 := by
  have hsize : (Int32.size : ℤ) = 2 ^ 32 := rfl
  unfold toInt
  rw [Int32.toInt_ofInt, Int.bmod, hsize]
  split_ifs <;> omega

/-- An `int` made of a `size_t` is not larger. -/
theorem toInt_le (h : 0 ≤ value) : toInt value ≤ value := by
  rw [toInt_eq]
  split_ifs <;> omega

theorem toSize_eq : (toSize value : ℤ) = value % 2 ^ 64 := by
  unfold toSize UInt64.ofInt
  rw [UInt64.toNat_ofNat']
  omega

theorem toSize_of_nonneg (hlow : 0 ≤ value) (hhigh : value < 2 ^ 31) : (toSize value : ℤ) = value := by
  rw [toSize_eq]
  omega

namespace ReadBuffer

def new (bufsize : ℕ) : ReadBuffer where
  m_size := bufsize
  readPos := 0
  data := []
  m_neededFreeTailSize := 0

def validData (buf : ReadBuffer) : ℕ := buf.data.length

/-- What `getData` returns when a read delivers nothing. -/
def noMoreData (readTotal : ℤ) : ℤ := if readTotal > 0 then readTotal else -1

/-- The reading loop: the value returned, the bytes of the buffer and the chunks still ahead.
After a chunk that was cut a further read would ask for 0 bytes and get none. -/
def readLoop (minSizeToRead maxSizeToRead : ℤ) :
    ℤ → List UInt8 → List (List UInt8) → ℤ × List UInt8 × List (List UInt8)
  | readTotal, data, [] => (noMoreData readTotal, data, [])
  | readTotal, data, chunk :: chunks =>
    let room := toSize (maxSizeToRead - readTotal)
    if chunk = [] then
      (noMoreData readTotal, data, chunks)
    else if room = 0 then
      (noMoreData readTotal, data, chunk :: chunks)
    else if chunk.length ≤ room then
      let readTotal := toInt (readTotal + chunk.length)
      if readTotal < minSizeToRead then
        readLoop minSizeToRead maxSizeToRead readTotal (data ++ chunk) chunks
      else (readTotal, data ++ chunk, chunks)
    else
      (toInt (readTotal + room), data ++ chunk.take room, chunk.drop room :: chunks)

/-- The size of the larger block: room for two of the requested packets. -/
def newSize (minSizeToRead : ℤ) (buf : ReadBuffer) : ℕ :=
  let size := max (toSize (toInt (2 * minSizeToRead) + buf.validData)) (toSize (2 * buf.m_size))
  if size < buf.m_size then 2 ^ 31 - 1 else size

/-- `malloc` says which sizes the allocator can serve. -/
def getData (malloc : ℕ → Bool) (minSize : ℤ) (buf : ReadBuffer) (chunks : List (List UInt8)) :
    ℤ × ReadBuffer × List (List UInt8) :=
  let minSizeToRead := toInt (minSize - buf.validData)
  let neededFreeTailThisTime := max minSizeToRead buf.m_neededFreeTailSize
  let freeTailSize := toInt (buf.m_size - (buf.readPos + buf.validData))
  let fill (buf : ReadBuffer) (maxSizeToRead : ℤ) :=
    let (stat, data, chunks) := readLoop minSizeToRead maxSizeToRead 0 buf.data chunks
    (stat, { buf with data := data }, chunks)
  if freeTailSize ≥ neededFreeTailThisTime then
    fill buf freeTailSize
  else if freeTailSize + buf.readPos ≥ neededFreeTailThisTime then
    fill { buf with readPos := 0 } (toInt (buf.m_size - buf.validData))
  else if malloc (buf.newSize minSizeToRead) then
    fill { buf with m_size := buf.newSize minSizeToRead, readPos := 0 }
      (toInt (buf.newSize minSizeToRead - buf.validData))
  else (-1, buf, chunks)

def consume (amount : ℕ) (buf : ReadBuffer) : ReadBuffer :=
  { buf with data := buf.data.drop amount, readPos := buf.readPos + amount }

/-- The buffer grows by a piece of the stream, from its front. -/
def Receives (data : List UInt8) (chunks : List (List UInt8)) (data' : List UInt8)
    (chunks' : List (List UInt8)) : Prop :=
  ∃ received, data' = data ++ received ∧ chunks.flatten = received ++ chunks'.flatten

theorem receives_readLoop (minSizeToRead maxSizeToRead readTotal : ℤ) (data : List UInt8)
    (chunks : List (List UInt8)) :
    Receives data chunks (readLoop minSizeToRead maxSizeToRead readTotal data chunks).2.1
      (readLoop minSizeToRead maxSizeToRead readTotal data chunks).2.2 := by
  induction chunks generalizing readTotal data with
  | nil => exact ⟨[], by simp [readLoop], by simp [readLoop]⟩
  | cons chunk chunks ih =>
    simp only [readLoop]
    split_ifs with hempty hroom hwhole hless
    · exact ⟨[], by simp, by simp [hempty]⟩
    · exact ⟨[], by simp, by simp⟩
    · obtain ⟨received, hdata, hchunks⟩ := ih (toInt (readTotal + chunk.length)) (data ++ chunk)
      exact ⟨chunk ++ received, by rw [hdata, List.append_assoc],
        by rw [List.flatten_cons, hchunks, List.append_assoc]⟩
    · exact ⟨chunk, rfl, by simp⟩
    · refine ⟨chunk.take (toSize (maxSizeToRead - readTotal)), rfl, ?_⟩
      simp only [List.flatten_cons]
      rw [← List.append_assoc, List.take_append_drop]

theorem receives_getData (malloc : ℕ → Bool) (minSize : ℤ) (buf : ReadBuffer) (chunks : List (List UInt8)) :
    Receives buf.data chunks (getData malloc minSize buf chunks).2.1.data
      (getData malloc minSize buf chunks).2.2 := by
  simp only [getData]
  split_ifs
  · exact receives_readLoop _ _ _ _ _
  · exact receives_readLoop _ _ _ _ _
  · exact receives_readLoop _ _ _ _ _
  · exact ⟨[], by simp, by simp⟩

end ReadBuffer

end FdeEmugl.Render
