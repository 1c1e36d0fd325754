import FdeEmugl.Library.ByteMemory
import FdeEmugl.Pipe.LengthPrefix

/-!
# Arrays of fixed-point numbers

A fixed-point number has 16 bits behind the point. Arrays of them are converted to floats word by word, also in
place, and elements can be picked by indices.
-/

namespace FdeEmugl.FixedArrays

/-! ## Numbers -/

/-- The float next to a whole number, as its bits without the sign. Of two that are as near, the even one is taken. -/
def floatBits (magnitude : ℕ) : ℕ :=
  if magnitude = 0 then 0
  else
    let exponent := Nat.log2 magnitude
    let significand :=
      if exponent ≤ 23 then magnitude * 2 ^ (23 - exponent)
      else
        let unit := 2 ^ (exponent - 23)
        let rest := magnitude % unit
        if 2 * rest < unit ∨ 2 * rest = unit ∧ magnitude / unit % 2 = 0 then magnitude / unit
        else magnitude / unit + 1
    -- a significand of 2 ^ 24 goes over into the exponent
    (127 + exponent) * 2 ^ 23 + significand - 2 ^ 23

/-- The division by `65536.0f` is exact and lowers the exponent. -/
def X2F (fixed : UInt32) : UInt32 :=
  let magnitude := if fixed.toNat < 2 ^ 31 then fixed.toNat else 2 ^ 32 - fixed.toNat
  let sign := if fixed.toNat < 2 ^ 31 then 0 else 2 ^ 31
  if magnitude = 0 then 0 else UInt32.ofNat (sign + floatBits magnitude - 16 * 2 ^ 23)

example : [X2F 0, X2F 0x10000, X2F 0xFFFF8000, X2F 0x7FFFFFFF] = [0, 0x3F800000, 0xBF000000, 0x47000000] := by
  decide +kernel

/-! ## Words of a memory -/

def word (memory : ByteMemory) (address : ℤ) : UInt32 := Pipe.getLe32 (memory.load address 4)

def setWord (address : ℤ) (value : UInt32) (memory : ByteMemory) : ByteMemory :=
  memory.store address (Pipe.putLe32 value)

section Words

variable {memory other : ByteMemory} {address place : ℤ} {value : UInt32}

theorem setWord_outside (h : place < address ∨ address + 4 ≤ place) :
    setWord address value memory place = memory place := by
  have hsize := Pipe.length_putLe32 value
  exact ByteMemory.store_outside (by omega)

@[simp] theorem word_setWord : word (setWord address value memory) address = value := by
  have hload : (setWord address value memory).load address 4 = Pipe.putLe32 value :=
    ByteMemory.load_of_holds ByteMemory.holds_store
  rw [word, hload, Pipe.getLe32_putLe32]

theorem word_congr (h : ∀ place, address ≤ place → place < address + 4 → memory place = other place) :
    word memory address = word other address := by
  rw [word, word, ByteMemory.load_congr h]

end Words

/-! ## Indices -/

/-- A type that is not known gives the index 0. -/
inductive IndicesType where
  | unsignedByte
  | unsignedShort
  | unsignedInt
  | unknown
deriving DecidableEq

def getIndex (indices_type : IndicesType) (indices : ℕ → UInt8) (i : ℕ) : ℕ :=
  match indices_type with
  | .unsignedByte => (indices i).toNat
  | .unsignedShort => (indices (2 * i)).toNat + 256 * (indices (2 * i + 1)).toNat
  | .unsignedInt =>
    (Pipe.getLe32 [indices (4 * i), indices (4 * i + 1), indices (4 * i + 2), indices (4 * i + 3)]).toNat
  | .unknown => 0

/-! ## Conversion -/

/-- Products of indices and strides are `GLuint`s. -/
def convertFixedIndirectLoop (dataIn : ℤ) (strideIn : ℕ) (dataOut : ℤ) (indices : List ℕ) (strideOut attribSize : ℕ)
    (memory : ByteMemory) : ByteMemory :=
  indices.foldl (fun memory index ↦
      (List.range attribSize).foldl (fun memory (j : ℕ) ↦
          setWord (dataOut + (index * strideOut % 2 ^ 32 : ℕ) + 4 * j)
            (X2F (word memory (dataIn + (index * strideIn % 2 ^ 32 : ℕ) + 4 * j))) memory)
        memory)
    memory

/-- Words that are converted where they are. -/
def convertWords (addresses : List ℤ) (memory : ByteMemory) : ByteMemory :=
  addresses.foldl (fun memory address ↦ setWord address (X2F (word memory address)) memory) memory

theorem convertFixedIndirectLoop_eq (data : ℤ) (stride : ℕ) (indices : List ℕ) (attribSize : ℕ)
    (memory : ByteMemory) :
    convertFixedIndirectLoop data stride data indices stride attribSize memory =
      convertWords (indices.flatMap fun index ↦ (List.range attribSize).map fun j : ℕ ↦
        data + (index * stride % 2 ^ 32 : ℕ) + 4 * j) memory := by
  rw [convertWords, List.foldl_flatMap, convertFixedIndirectLoop]
  simp only [List.foldl_map]

/-- Words that are apart are converted once each, and nothing else changes. -/
theorem convertWords_spec {addresses : List ℤ} (hapart : addresses.Pairwise fun first second ↦
    first + 4 ≤ second ∨ second + 4 ≤ first) (memory : ByteMemory) :
    (∀ address ∈ addresses, word (convertWords addresses memory) address = X2F (word memory address)) ∧
      ∀ place, (∀ address ∈ addresses, place < address ∨ address + 4 ≤ place) →
        convertWords addresses memory place = memory place := by
  induction addresses generalizing memory with
  | nil => exact ⟨fun _ hmem ↦ absurd hmem List.not_mem_nil, fun _ _ ↦ rfl⟩
  | cons first addresses ih =>
    obtain ⟨hfirst, hrest⟩ := List.pairwise_cons.mp hapart
    obtain ⟨hwords, hplaces⟩ := ih hrest (setWord first (X2F (word memory first)) memory)
    refine ⟨fun address hmem ↦ ?_, fun place hplace ↦ ?_⟩
    · obtain rfl | hmem := List.mem_cons.mp hmem
      · have hkept : word (convertWords (address :: addresses) memory) address =
            word (setWord address (X2F (word memory address)) memory) address :=
          word_congr fun place hlower hupper ↦ hplaces place fun other hother ↦ by
            have hother := hfirst other hother
            omega
        rw [hkept, word_setWord]
      · have hother := hfirst address hmem
        have hsame : word (setWord first (X2F (word memory first)) memory) address = word memory address :=
          word_congr fun place hlower hupper ↦ setWord_outside (by omega)
        exact (hwords address hmem).trans (by rw [hsame])
    · obtain ⟨houtside, hothers⟩ := List.forall_mem_cons.mp hplace
      exact (hplaces place hothers).trans (setWord_outside houtside)

end FdeEmugl.FixedArrays
