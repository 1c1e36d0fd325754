import FdeEmugl.Library.BitFields
import Mathlib.Data.List.Infix

/-!
# Start codes

`getNextStartCodeHeader` moves a window of four bytes over a frame. It is filled with the first three bytes and
only compared after the next byte has come in, so that a start code of three bytes at the very front is not seen.
A stream of NAL units is split by searching again behind every start code that was found.
-/

namespace FdeEmugl.StartCodes

open BitFields
open List (length_append length_cons map_cons prefix_append tail_cons)

/-! ## The search -/

def startHeaderMask : UInt32 := 0x00000001

/-- The loop over the remaining bytes. Without a result a byte outside of the frame is read. -/
def searchFrom (frame : List UInt8) (szBytes : ℕ) : ℕ → UInt32 → Option (Option ℕ)
  | 0, _ => some none
  | remaining + 1, window => do
    let position := szBytes - (remaining + 1)
    let byte ← frame[position]?
    let window := (window <<< 8) ||| byte.toUInt32
    if window ^^^ startHeaderMask = 0 then some (some (position - 3))
    else if (window &&& 0x00ffffff) ^^^ startHeaderMask = 0 then some (some (position - 2))
    else searchFrom frame szBytes remaining window

/-- The position of the header, if there is one. -/
def getNextStartCodeHeader (frame : List UInt8) (szBytes : ℕ) : Option (Option ℕ) :=
  if szBytes < 3 then some none
  else do
    let b0 ← frame[0]?
    let b1 ← frame[1]?
    let b2 ← frame[2]?
    let window := (b0.toUInt32 <<< 16) ||| (b1.toUInt32 <<< 8) ||| b2.toUInt32
    if szBytes = 3 then some (if window ^^^ startHeaderMask = 0 then some 0 else none)
    else searchFrom frame szBytes (szBytes - 3) window

/-! ## Headers -/

def threeByteHeader : List UInt8 := [0, 0, 1]

def fourByteHeader : List UInt8 := [0, 0, 0, 1]

/-- A header starts at the front. -/
def Starts (bytes : List UInt8) : Prop := threeByteHeader <+: bytes ∨ fourByteHeader <+: bytes

instance decidableStarts (bytes : List UInt8) : Decidable (Starts bytes) := inferInstanceAs (Decidable (_ ∨ _))

/-- The position of the first header. -/
def firstHeader (bytes : List UInt8) : Option ℕ := bytes.tails.findIdx? fun rest ↦ Starts rest

section Headers

variable {a b c d : UInt8} {rest bytes : List UInt8}

theorem three_starts : threeByteHeader <+: a :: b :: c :: rest ↔ a = 0 ∧ b = 0 ∧ c = 1 := by
  rw [threeByteHeader, List.cons_prefix_cons, List.cons_prefix_cons, List.cons_prefix_cons]
  constructor
  · rintro ⟨rfl, rfl, rfl, _⟩
    exact ⟨rfl, rfl, rfl⟩
  · rintro ⟨rfl, rfl, rfl⟩
    exact ⟨rfl, rfl, rfl, List.nil_prefix⟩

theorem four_starts : fourByteHeader <+: a :: b :: c :: d :: rest ↔ a = 0 ∧ b = 0 ∧ c = 0 ∧ d = 1 := by
  rw [fourByteHeader, List.cons_prefix_cons, eq_comm]
  exact and_congr_right fun _ ↦ three_starts

theorem Starts.three_le (h : Starts bytes) : 3 ≤ bytes.length := by
  obtain h | h := h
  · exact h.length_le
  · exact (by decide : 3 ≤ fourByteHeader.length).trans h.length_le

theorem not_starts_of_lt (h : bytes.length < 3) : ¬ Starts bytes := fun hstarts ↦ hstarts.three_le.not_gt h

theorem firstHeader_cons (a : UInt8) (rest : List UInt8) :
    firstHeader (a :: rest) = if Starts (a :: rest) then some 0 else (firstHeader rest).map (· + 1) := by
  rw [firstHeader, List.tails_cons, List.findIdx?_cons, firstHeader]
  by_cases h : Starts (a :: rest)
  · rw [if_pos (decide_eq_true h), if_pos h]
  · rw [if_neg (fun htrue ↦ h (of_decide_eq_true htrue)), if_neg h]

theorem firstHeader_of_starts (h : Starts bytes) : firstHeader bytes = some 0 := by
  cases bytes with
  | nil => exact absurd h.three_le (by decide)
  | cons byte bytes => rw [firstHeader_cons, if_pos h]

theorem firstHeader_of_lt (h : bytes.length < 3) : firstHeader bytes = none := by
  rw [firstHeader, List.findIdx?_eq_none_iff]
  intro rest hrest
  have hlength := ((List.mem_tails rest bytes).mp hrest).length_le
  exact decide_eq_false (not_starts_of_lt (by omega))

theorem firstHeader_eq_some {i : ℕ} :
    firstHeader bytes = some i ↔ Starts (bytes.drop i) ∧ ∀ j < i, ¬ Starts (bytes.drop j) := by
  rw [firstHeader, List.findIdx?_eq_some_iff_getElem]
  simp only [List.getElem_tails, decide_eq_true_eq, List.length_tails]
  constructor
  · rintro ⟨-, hall⟩
    exact hall
  · intro hall
    have hthree := hall.1.three_le
    rw [List.length_drop] at hthree
    exact ⟨by omega, hall⟩

theorem firstHeader_eq_none : firstHeader bytes = none ↔ ∀ i, ¬ Starts (bytes.drop i) := by
  rw [firstHeader, List.findIdx?_eq_none_iff]
  constructor
  · exact fun h i ↦ of_decide_eq_false (h _ ((List.mem_tails _ _).mpr (List.drop_suffix i bytes)))
  · intro h rest hrest
    have hdrop := List.suffix_iff_eq_drop.mp ((List.mem_tails rest bytes).mp hrest)
    rw [hdrop]
    exact decide_eq_false (h _)

/-- What is returned is the first position where a header starts, and nothing is read outside. -/
def FindsFirst (frame : List UInt8) : Prop := ∃ result, getNextStartCodeHeader frame frame.length = some result ∧
    (∀ i, result = some i ↔ Starts (frame.drop i) ∧ ∀ j < i, ¬ Starts (frame.drop j)) ∧
    (result = none ↔ ∀ i, ¬ Starts (frame.drop i))

theorem findsFirst_iff : FindsFirst bytes ↔ getNextStartCodeHeader bytes bytes.length = some (firstHeader bytes) := by
  constructor
  · rintro ⟨result, hresult, hsome, -⟩
    rw [hresult, Option.some_inj]
    exact Option.ext fun i ↦ (hsome i).trans firstHeader_eq_some.symm
  · exact fun h ↦ ⟨firstHeader bytes, h, fun i ↦ firstHeader_eq_some, firstHeader_eq_none⟩

end Headers

/-! ## What the search finds -/

section Search

variable {a b c d : UInt8} {front rest frame : List UInt8} {window : UInt32}

theorem toNat_shifted (window : UInt32) (byte : UInt8) :
    ((window <<< 8) ||| byte.toUInt32).toNat = window.toNat % 2 ^ 24 * 2 ^ 8 + byte.toNat := by
  have hbyte := byte.toNat_lt
  have hshift : (window <<< 8).toNat = (window.toNat % 2 ^ 24) <<< 8 := by
    rw [UInt32.toNat_shiftLeft, Nat.shiftLeft_eq, Nat.shiftLeft_eq]
    change window.toNat * 2 ^ 8 % 2 ^ 32 = _
    omega
  rw [UInt32.toNat_or, hshift, UInt8.toNat_toUInt32, shiftLeft_or hbyte]

theorem xor_mask_eq_zero : window ^^^ startHeaderMask = 0 ↔ window.toNat = 1 := by
  rw [UInt32.xor_eq_zero_iff, ← UInt32.toNat_inj]
  rfl

theorem toNat_and_mask : (window &&& 0x00ffffff).toNat = window.toNat % 2 ^ 24 := by
  rw [UInt32.toNat_and]
  exact Nat.and_two_pow_sub_one_eq_mod _ 24

/-- The first header that is not one of three bytes at the front. -/
def laterHeader (bytes : List UInt8) : Option ℕ :=
  if fourByteHeader <+: bytes then some 0 else (firstHeader bytes.tail).map (· + 1)

/-- The window holds the three bytes before the ones that remain. -/
theorem searchFrom_eq (hframe : frame = front ++ a :: b :: c :: rest)
    (hwindow : window.toNat % 2 ^ 24 = a.toNat * 2 ^ 16 + b.toNat * 2 ^ 8 + c.toNat) :
    searchFrom frame frame.length rest.length window =
      some ((laterHeader (a :: b :: c :: rest)).map (front.length + ·)) := by
  induction rest generalizing front a b c window with
  | nil =>
    have hnone : laterHeader [a, b, c] = none := by
      rw [laterHeader, if_neg (fun h ↦ absurd h.length_le (Nat.lt_succ_self 3).not_ge), tail_cons,
        firstHeader_of_lt (Nat.lt_succ_self _), Option.map_none]
    rw [hnone]
    rfl
  | cons d rest ih =>
    have hlength : frame.length = front.length + (rest.length + 4) := by
      rw [hframe, length_append]
      rfl
    have hposition : frame.length - (rest.length + 1) = front.length + 3 := by omega
    have hbyte : frame[front.length + 3]? = some d := by
      rw [hframe, List.getElem?_append_right (by omega), Nat.add_sub_cancel_left]
      rfl
    have hnext := toNat_shifted window d
    rw [hwindow] at hnext
    have ha := a.toNat_lt
    have hb := b.toNat_lt
    have hc := c.toNat_lt
    have hd := d.toNat_lt
    have hfour : (window <<< 8 ||| d.toUInt32) ^^^ startHeaderMask = 0 ↔
        fourByteHeader <+: a :: b :: c :: d :: rest := by
      rw [xor_mask_eq_zero, hnext, four_starts, ← UInt8.toNat_inj, ← UInt8.toNat_inj, ← UInt8.toNat_inj,
        ← UInt8.toNat_inj]
      simp only [UInt8.toNat_zero, UInt8.toNat_one]
      omega
    have hthree : ((window <<< 8 ||| d.toUInt32) &&& 0x00ffffff) ^^^ startHeaderMask = 0 ↔
        threeByteHeader <+: b :: c :: d :: rest := by
      rw [xor_mask_eq_zero, toNat_and_mask, hnext, three_starts, ← UInt8.toNat_inj, ← UInt8.toNat_inj,
        ← UInt8.toNat_inj]
      simp only [UInt8.toNat_zero, UInt8.toNat_one]
      omega
    simp only [length_cons, searchFrom, hposition, hbyte, Option.bind_eq_bind, Option.bind_some, hfour, hthree]
    rw [laterHeader, tail_cons]
    by_cases hfirst : fourByteHeader <+: a :: b :: c :: d :: rest
    · rw [if_pos hfirst, if_pos hfirst]
      rfl
    · rw [if_neg hfirst, if_neg hfirst]
      by_cases hsecond : threeByteHeader <+: b :: c :: d :: rest
      · rw [if_pos hsecond, firstHeader_of_starts (.inl hsecond)]
        rfl
      · have hmoved : frame = (front ++ [a]) ++ b :: c :: d :: rest := by
          rw [hframe, List.append_assoc]
          rfl
        have hshifted : (window <<< 8 ||| d.toUInt32).toNat % 2 ^ 24 =
            b.toNat * 2 ^ 16 + c.toNat * 2 ^ 8 + d.toNat := by
          rw [hnext]
          omega
        have hstep := ih hmoved hshifted
        have hstarts : Starts (b :: c :: d :: rest) ↔ fourByteHeader <+: b :: c :: d :: rest := or_iff_right hsecond
        rw [if_neg hsecond, hstep, laterHeader, firstHeader_cons, tail_cons]
        simp only [hstarts]
        split_ifs
        · simp only [Option.map_some, length_append, List.length_singleton]
        · simp only [Option.map_map, length_append, List.length_singleton]
          congr 2
          funext i
          simp only [Function.comp_apply]
          omega

theorem getNextStartCodeHeader_of_lt (h : frame.length < 3) :
    getNextStartCodeHeader frame frame.length = some (firstHeader frame) := by
  rw [getNextStartCodeHeader, if_pos h, firstHeader_of_lt h]

/-- The first three bytes as a window. -/
theorem toNat_primed (a b c : UInt8) : ((a.toUInt32 <<< 16) ||| (b.toUInt32 <<< 8) ||| c.toUInt32).toNat =
      a.toNat * 2 ^ 16 + b.toNat * 2 ^ 8 + c.toNat := by
  have ha := a.toNat_lt
  have hb := b.toNat_lt
  have hc := c.toNat_lt
  have hfirst : (a.toUInt32 <<< 16).toNat = a.toNat <<< 16 := by
    rw [UInt32.toNat_shiftLeft, UInt8.toNat_toUInt32, Nat.shiftLeft_eq, Nat.shiftLeft_eq]
    change a.toNat * 2 ^ 16 % 2 ^ 32 = _
    omega
  have hsecond : (b.toUInt32 <<< 8).toNat = b.toNat <<< 8 := by
    rw [UInt32.toNat_shiftLeft, UInt8.toNat_toUInt32, Nat.shiftLeft_eq, Nat.shiftLeft_eq]
    change b.toNat * 2 ^ 8 % 2 ^ 32 = _
    omega
  rw [UInt32.toNat_or, UInt32.toNat_or, hfirst, hsecond, UInt8.toNat_toUInt32, Nat.or_assoc, shiftLeft_or hc,
    shiftLeft_or (by omega : b.toNat * 2 ^ 8 + c.toNat < 2 ^ 16)]
  omega

theorem getNextStartCodeHeader_three : getNextStartCodeHeader [a, b, c] 3 = some (firstHeader [a, b, c]) := by
  have ha := a.toNat_lt
  have hb := b.toNat_lt
  have hc := c.toNat_lt
  have hthree : ((a.toUInt32 <<< 16) ||| (b.toUInt32 <<< 8) ||| c.toUInt32) ^^^ startHeaderMask = 0 ↔
      Starts [a, b, c] := by
    rw [Starts, or_iff_left (fun h ↦ absurd h.length_le (Nat.lt_succ_self 3).not_ge), xor_mask_eq_zero, toNat_primed,
      three_starts, ← UInt8.toNat_inj, ← UInt8.toNat_inj, ← UInt8.toNat_inj]
    simp only [UInt8.toNat_zero, UInt8.toNat_one]
    omega
  have hrest : firstHeader [b, c] = none := firstHeader_of_lt (Nat.lt_succ_self 2)
  rw [firstHeader_cons, hrest, Option.map_none]
  simp only [getNextStartCodeHeader, if_neg (Nat.lt_irrefl 3), if_true, List.getElem?_cons_zero,
    List.getElem?_cons_succ, Option.bind_eq_bind, Option.bind_some, hthree]

theorem getNextStartCodeHeader_long (a b c d : UInt8) (rest : List UInt8) :
    getNextStartCodeHeader (a :: b :: c :: d :: rest) (rest.length + 4) =
      some (laterHeader (a :: b :: c :: d :: rest)) := by
  have ha := a.toNat_lt
  have hb := b.toNat_lt
  have hc := c.toNat_lt
  have hprimed := toNat_primed a b c
  have hframe : a :: b :: c :: d :: rest = [] ++ a :: b :: c :: d :: rest := rfl
  have hwindow : ((a.toUInt32 <<< 16) ||| (b.toUInt32 <<< 8) ||| c.toUInt32).toNat % 2 ^ 24 =
      a.toNat * 2 ^ 16 + b.toNat * 2 ^ 8 + c.toNat := by omega
  have hsearch := searchFrom_eq hframe hwindow
  have hzero : (fun i ↦ ([] : List UInt8).length + i) = id := by
    funext i
    exact Nat.zero_add i
  rw [hzero, Option.map_id_fun, id_eq] at hsearch
  simp only [getNextStartCodeHeader, if_neg (by omega : ¬ rest.length + 4 < 3),
    if_neg (by omega : ¬ rest.length + 4 = 3),
    List.getElem?_cons_zero, List.getElem?_cons_succ, Option.bind_eq_bind, Option.bind_some]
  exact hsearch

/-- A start code of three bytes with something behind it stands at the front. -/
def Overlooked (frame : List UInt8) : Prop := 3 < frame.length ∧ threeByteHeader <+: frame

theorem laterHeader_eq (h : ¬ threeByteHeader <+: a :: rest) : laterHeader (a :: rest) = firstHeader (a :: rest) := by
  have hstarts : Starts (a :: rest) ↔ fourByteHeader <+: a :: rest := or_iff_right h
  rw [laterHeader, firstHeader_cons, tail_cons]
  simp only [hstarts]

theorem findsFirst_iff_not_overlooked (frame : List UInt8) : FindsFirst frame ↔ ¬ Overlooked frame := by
  rw [findsFirst_iff]
  by_cases hlt : frame.length < 3
  · exact iff_of_true (getNextStartCodeHeader_of_lt hlt) fun h ↦ absurd h.1 (by omega)
  · obtain _ | ⟨a, _ | ⟨b, _ | ⟨c, _ | ⟨d, rest⟩⟩⟩⟩ := frame
    · exact absurd (Nat.succ_pos 2) hlt
    · exact absurd (Nat.lt_add_of_pos_left (Nat.succ_pos 1)) hlt
    · exact absurd (Nat.lt_add_of_pos_left (Nat.succ_pos 0)) hlt
    · exact iff_of_true getNextStartCodeHeader_three fun h ↦ absurd h.1 (lt_irrefl 3)
    · have hlong : 3 < (a :: b :: c :: d :: rest).length := Nat.lt_add_of_pos_left (Nat.succ_pos rest.length)
      rw [length_cons, length_cons, length_cons, length_cons, getNextStartCodeHeader_long,
        Option.some_inj, Overlooked, and_iff_right hlong]
      constructor
      · intro heq hthree
        rw [firstHeader_of_starts (.inl hthree), laterHeader] at heq
        obtain ⟨rfl, rfl, rfl⟩ := three_starts.mp hthree
        rw [if_neg (fun h ↦ absurd (four_starts.mp h).2.2.1 (by decide))] at heq
        obtain ⟨i, -, hi⟩ := Option.map_eq_some_iff.mp heq
        cases hi
      · exact laterHeader_eq

end Search

/-! ## Splitting a stream -/

/-- The bytes of a NAL unit: it is not empty, has no start code in it and does not end with a zero. -/
structure NalUnit where
  fourBytes : Bool
  bytes : List UInt8
  nonempty : bytes ≠ []
  last_ne : bytes.getLast? ≠ some 0
  no_header : ¬ threeByteHeader <:+: bytes

namespace NalUnit

def header (unit : NalUnit) : List UInt8 := if unit.fourBytes then fourByteHeader else threeByteHeader

end NalUnit

/-- The units with a start code in front of each. -/
def annexB (units : List NalUnit) : List UInt8 := units.flatMap fun unit ↦ unit.header ++ unit.bytes

/-- The length of the header that starts the bytes. -/
def headerLength (bytes : List UInt8) : ℕ := if threeByteHeader <+: bytes then 3 else 4

/-- The units behind the end of a header, each search starting behind the header before it. -/
def unitsFrom : ℕ → List UInt8 → List (List UInt8)
  | 0, _ => []
  | left + 1, rest =>
    match getNextStartCodeHeader rest rest.length with
    | some (some i) => rest.take i :: unitsFrom left (rest.drop (i + headerLength (rest.drop i)))
    | _ => [rest]

/-- What stands in front of the first header is no unit. -/
def splitUnits (frame : List UInt8) : List (List UInt8) :=
  match getNextStartCodeHeader frame frame.length with
  | some (some i) => unitsFrom frame.length (frame.drop (i + headerLength (frame.drop i)))
  | _ => []

section Split

variable {bytes rest : List UInt8}

variable (unit : NalUnit) (units : List NalUnit)

theorem starts_header (rest : List UInt8) : Starts (unit.header ++ rest) := by
  rw [NalUnit.header]
  split_ifs
  · exact .inr (prefix_append _ _)
  · exact .inl (prefix_append _ _)

theorem headerLength_header (rest : List UInt8) : headerLength (unit.header ++ rest) = unit.header.length := by
  rw [NalUnit.header, headerLength]
  split_ifs with hfour hthree hthree
  · exact absurd (three_starts.mp hthree).2.2 (by decide)
  · rfl
  · rfl
  · exact absurd (prefix_append _ _) hthree

theorem three_infix_of_starts (h : Starts bytes) : threeByteHeader <:+: bytes := by
  obtain h | h := h
  · exact h.isInfix
  · exact (List.suffix_cons 0 threeByteHeader).isInfix.trans h.isInfix

/-- No header begins inside of a unit. -/
theorem not_starts_append (hne : bytes ≠ []) (hlast : bytes.getLast? ≠ some 0) (hno : ¬ threeByteHeader <:+: bytes)
    (rest : List UInt8) : ¬ Starts (bytes ++ rest) := by
  rintro (hthree | hfour)
  · obtain hle | hle := le_total threeByteHeader.length bytes.length
    · exact hno (List.prefix_of_prefix_length_le hthree (prefix_append bytes rest) hle).isInfix
    · have hinside := List.prefix_of_prefix_length_le (prefix_append bytes rest) hthree hle
      rw [← List.mem_inits] at hinside
      simp only [threeByteHeader, List.inits, map_cons, List.map_nil, List.mem_cons, List.not_mem_nil,
        or_false] at hinside
      obtain rfl | rfl | rfl | rfl := hinside
      · exact hne rfl
      · exact hlast rfl
      · exact hlast rfl
      · exact hno (List.infix_refl _)
  · obtain hle | hle := le_total fourByteHeader.length bytes.length
    · exact hno (three_infix_of_starts
      (.inr (List.prefix_of_prefix_length_le hfour (prefix_append bytes rest) hle)))
    · have hinside := List.prefix_of_prefix_length_le (prefix_append bytes rest) hfour hle
      rw [← List.mem_inits] at hinside
      simp only [fourByteHeader, List.inits, map_cons, List.map_nil, List.mem_cons, List.not_mem_nil, or_false]
        at hinside
      obtain rfl | rfl | rfl | rfl | rfl := hinside
      · exact hne rfl
      · exact hlast rfl
      · exact hlast rfl
      · exact hlast rfl
      · exact hno (three_infix_of_starts (.inr (List.prefix_refl _)))

theorem firstHeader_append (hlast : bytes.getLast? ≠ some 0) (hno : ¬ threeByteHeader <:+: bytes)
    (rest : List UInt8) :
    firstHeader (bytes ++ rest) = (firstHeader rest).map (bytes.length + ·) := by
  induction bytes with
  | nil =>
    have hzero : (fun i ↦ ([] : List UInt8).length + i) = id := by
      funext i
      exact Nat.zero_add i
    rw [hzero, Option.map_id_fun, id_eq, List.nil_append]
  | cons byte bytes ih =>
    have hstarts := not_starts_append (List.cons_ne_nil byte bytes) hlast hno rest
    have hrest : bytes.getLast? ≠ some 0 := by
      cases bytes with
      | nil => exact Option.some_ne_none 0 |>.symm
      | cons next bytes => rwa [List.getLast?_cons_cons] at hlast
    have hinside : ¬ threeByteHeader <:+: bytes := fun h ↦ hno (h.trans (List.suffix_cons byte bytes).isInfix)
    rw [List.cons_append] at hstarts ⊢
    rw [firstHeader_cons, if_neg hstarts, ih hrest hinside, Option.map_map]
    congr 1
    funext i
    rw [Function.comp_apply, length_cons]
    omega

theorem NalUnit.not_starts (rest : List UInt8) : ¬ Starts (unit.bytes ++ rest) :=
  not_starts_append unit.nonempty unit.last_ne unit.no_header rest

theorem annexB_cons : annexB (unit :: units) = unit.header ++ (unit.bytes ++ annexB units) := by
  rw [annexB, List.flatMap_cons, List.append_assoc]
  rfl

theorem firstHeader_annexB : firstHeader (annexB (unit :: units)) = some 0 := by
  rw [annexB_cons]
  exact firstHeader_of_starts (starts_header unit _)

theorem length_le_annexB : units.length ≤ (annexB units).length := by
  induction units with
  | nil => exact Nat.zero_le _
  | cons unit units ih =>
    have hpos : 0 < unit.bytes.length := List.length_pos_iff.mpr unit.nonempty
    rw [annexB_cons, length_append, length_append, length_cons]
    omega

/-- The search goes on behind the header that was found. -/
theorem drop_header (rest : List UInt8) : (unit.header ++ rest).drop (headerLength (unit.header ++ rest)) = rest := by
  rw [headerLength_header, List.drop_left]

theorem getNextStartCodeHeader_unit (rest : List UInt8) :
    getNextStartCodeHeader (unit.bytes ++ rest) (unit.bytes ++ rest).length =
      some ((firstHeader rest).map (unit.bytes.length + ·)) := by
  have hfinds := (findsFirst_iff_not_overlooked (unit.bytes ++ rest)).mpr fun h ↦ unit.not_starts rest (.inl h.2)
  rw [findsFirst_iff.mp hfinds, firstHeader_append unit.last_ne unit.no_header]

theorem unitsFrom_annexB {left : ℕ} (hleft : units.length < left) :
    unitsFrom left (unit.bytes ++ annexB units) = unit.bytes :: units.map NalUnit.bytes := by
  induction units generalizing unit left with
  | nil =>
    obtain ⟨left, rfl⟩ := Nat.exists_eq_add_one_of_ne_zero (by omega : left ≠ 0)
    have hnone : firstHeader (annexB []) = none := firstHeader_of_lt (by decide)
    rw [unitsFrom, getNextStartCodeHeader_unit, hnone, Option.map_none]
    exact congrArg (· :: []) (List.append_nil unit.bytes)
  | cons next units ih =>
    obtain ⟨left, rfl⟩ := Nat.exists_eq_add_one_of_ne_zero (by omega : left ≠ 0)
    rw [unitsFrom, getNextStartCodeHeader_unit, firstHeader_annexB, Option.map_some, Nat.add_zero]
    simp only [List.take_left, List.drop_left, ← List.drop_drop]
    rw [annexB_cons, drop_header, ih next (Nat.lt_of_succ_lt_succ hleft), map_cons]

end Split

/-- A frame is searched and split right exactly if it does not begin with a start code of three bytes that has
something behind it. -/
theorem start_codes_found_iff (frame : List UInt8) :
    (FindsFirst frame ∧ ∀ units, annexB units = frame → splitUnits frame = units.map NalUnit.bytes) ↔
      ¬ Overlooked frame := by
  rw [findsFirst_iff_not_overlooked, and_iff_left_iff_imp]
  rintro hframe units rfl
  have hfound := findsFirst_iff.mp ((findsFirst_iff_not_overlooked _).mpr hframe)
  rw [splitUnits, hfound]
  cases units with
  | nil => rfl
  | cons unit units =>
    have hlength := length_le_annexB (unit :: units)
    rw [firstHeader_annexB]
    simp only [List.drop_zero, Nat.zero_add]
    generalize (annexB (unit :: units)).length = left at hlength
    rw [annexB_cons, drop_header, unitsFrom_annexB unit units hlength, map_cons]

/-- Two units behind start codes of three bytes: the first one is not found. -/
theorem first_unit_lost : ¬ ∀ frame, FindsFirst frame ∧
    ∀ units, annexB units = frame → splitUnits frame = units.map NalUnit.bytes := fun hall ↦
  absurd ((findsFirst_iff.mp (hall [0, 0, 1, 0x67, 0, 0, 1, 0x68]).1)) (by decide)

end FdeEmugl.StartCodes
