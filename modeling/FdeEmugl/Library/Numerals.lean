import Mathlib.Algebra.Group.Nat.Defs
import Mathlib.Data.List.Basic

/-!
# Numerals

Numbers as digits in a base, the highest digit first, with a fixed number of digits or with as many as needed. The
text of a number is scanned as the C library does it: white space, a sign, and digits as far as they go.
-/

namespace FdeEmugl.Numerals

/-! ## Digits -/

def value (base : ℕ) (digits : List ℕ) : ℕ := digits.foldl (fun value digit ↦ value * base + digit) 0

/-- The lowest digits of a number. -/
def fixedDigits (base : ℕ) : ℕ → ℕ → List ℕ
  | 0, _ => []
  | width + 1, number => fixedDigits base width (number / base) ++ [number % base]

/-- The digits of a number, at most one more than `fuel`. -/
def digits (base : ℕ) : ℕ → ℕ → List ℕ
  | 0, number => [number % base]
  | fuel + 1, number => if number < base then [number] else digits base fuel (number / base) ++ [number % base]

variable {base width fuel number digit : ℕ} {digitList : List ℕ}

@[simp] theorem value_append_singleton (base : ℕ) (digitList : List ℕ) (digit : ℕ) :
    value base (digitList ++ [digit]) = value base digitList * base + digit := by
  rw [value, List.foldl_append]
  rfl

@[simp] theorem length_fixedDigits (base width number : ℕ) : (fixedDigits base width number).length = width := by
  induction width generalizing number with
  | zero => rfl
  | succ width ih => rw [fixedDigits, List.length_append, ih, List.length_singleton]

theorem lt_of_mem_fixedDigits (hbase : 0 < base) (h : digit ∈ fixedDigits base width number) : digit < base := by
  induction width generalizing number with
  | zero => cases h
  | succ width ih =>
    obtain h | h := List.mem_append.mp h
    · exact ih h
    · rw [List.mem_singleton.mp h]
      exact Nat.mod_lt _ hbase

theorem value_fixedDigits (hnumber : number < base ^ width) :
    value base (fixedDigits base width number) = number := by
  induction width generalizing number with
  | zero =>
    rw [Nat.pow_zero, Nat.lt_one_iff] at hnumber
    exact hnumber.symm
  | succ width ih =>
    have hless : number / base < base ^ width := Nat.div_lt_of_lt_mul (by rwa [Nat.pow_succ, Nat.mul_comm] at hnumber)
    rw [fixedDigits, value_append_singleton, ih hless, Nat.mul_comm, Nat.div_add_mod]

theorem digits_ne_nil (base fuel number : ℕ) : digits base fuel number ≠ [] := by
  cases fuel with
  | zero => exact List.cons_ne_nil _ _
  | succ fuel =>
    rw [digits]
    split_ifs
    · exact List.cons_ne_nil _ _
    · exact List.append_ne_nil_of_right_ne_nil _ (List.cons_ne_nil _ _)

theorem length_digits_le (base fuel number : ℕ) : (digits base fuel number).length ≤ fuel + 1 := by
  induction fuel generalizing number with
  | zero => exact Nat.le_refl _
  | succ fuel ih =>
    rw [digits]
    split_ifs
    · exact Nat.le_add_left _ _
    · rw [List.length_append]
      exact Nat.succ_le_succ (ih _)

theorem lt_of_mem_digits (hbase : 0 < base) (h : digit ∈ digits base fuel number) : digit < base := by
  induction fuel generalizing number with
  | zero =>
    rw [List.mem_singleton.mp h]
    exact Nat.mod_lt _ hbase
  | succ fuel ih =>
    rw [digits] at h
    split_ifs at h with hsmall
    · rwa [List.mem_singleton.mp h]
    · obtain h | h := List.mem_append.mp h
      · exact ih h
      · rw [List.mem_singleton.mp h]
        exact Nat.mod_lt _ hbase

theorem value_digits (hnumber : number < base ^ (fuel + 1)) : value base (digits base fuel number) = number := by
  induction fuel generalizing number with
  | zero =>
    rw [Nat.zero_add, Nat.pow_one] at hnumber
    have hmod : number % base = number := Nat.mod_eq_of_lt hnumber
    simp [value, digits, hmod]
  | succ fuel ih =>
    rw [digits]
    split_ifs with hsmall
    · simp [value]
    · have hless : number / base < base ^ (fuel + 1) :=
        Nat.div_lt_of_lt_mul (by rwa [Nat.pow_succ, Nat.mul_comm] at hnumber)
      rw [value_append_singleton, ih hless, Nat.mul_comm, Nat.div_add_mod]

theorem value_lt (h : ∀ digit ∈ digitList, digit < base) : value base digitList < base ^ digitList.length := by
  suffices hfold : ∀ start, digitList.foldl (fun value digit ↦ value * base + digit) start <
      (start + 1) * base ^ digitList.length by
    have hzero := hfold 0
    rwa [Nat.zero_add, Nat.one_mul] at hzero
  induction digitList with
  | nil => exact fun start ↦ Nat.lt_of_lt_of_eq (Nat.lt_succ_self start) (Nat.mul_one _).symm
  | cons digit digitList ih =>
    intro start
    obtain ⟨hdigit, hdigits⟩ := List.forall_mem_cons.mp h
    have hnext : start * base + digit + 1 ≤ (start + 1) * base := by
      rw [Nat.succ_mul]
      omega
    calc
      (digit :: digitList).foldl (fun value digit ↦ value * base + digit) start <
          (start * base + digit + 1) * base ^ digitList.length := ih hdigits _
      _ ≤ (start + 1) * base * base ^ digitList.length := Nat.mul_le_mul_right _ hnext
      _ = (start + 1) * base ^ (digit :: digitList).length := by
        rw [List.length_cons, Nat.pow_succ, Nat.mul_assoc, Nat.mul_comm base]

/-! ## Text -/

def isSpace (letter : UInt8) : Bool := 9 ≤ letter ∧ letter ≤ 13 ∨ letter = 32

def isDigit (base : ℕ) (letter : UInt8) : Bool := 48 ≤ letter.toNat ∧ letter.toNat < 48 + base

def digitLetter (digit : ℕ) : UInt8 := UInt8.ofNat (48 + digit)

def digitOf (letter : UInt8) : ℕ := letter.toNat - 48

def letters (digitList : List ℕ) : List UInt8 := digitList.map digitLetter

def plus : UInt8 := 43

def minus : UInt8 := 45

/-- A sign, or none, and what follows it. -/
def scanSign : List UInt8 → Bool × List UInt8
  | [] => (false, [])
  | letter :: text =>
    if letter = minus then (true, text) else if letter = plus then (false, text) else (false, letter :: text)

/-- Whether there is a minus, the number without its sign, and the rest of the text, if there is a digit. -/
def scan (base : ℕ) (text : List UInt8) : Option (Bool × ℕ × List UInt8) :=
  let (negative, text) := scanSign (text.dropWhile isSpace)
  let found := text.takeWhile (isDigit base)
  if found = [] then none
  else some (negative, value base (found.map digitOf), text.dropWhile (isDigit base))

section Scan

variable {letter : UInt8} {text rest : List UInt8}

theorem toNat_digitLetter (h : digit < 10) : (digitLetter digit).toNat = 48 + digit :=
  UInt8.toNat_ofNat_of_lt' (by change 48 + digit < 256; omega)

theorem isDigit_digitLetter (hbase : base ≤ 10) (h : digit < base) : isDigit base (digitLetter digit) = true := by
  rw [isDigit, toNat_digitLetter (by omega)]
  exact decide_eq_true ⟨by omega, by omega⟩

theorem digitOf_digitLetter (h : digit < 10) : digitOf (digitLetter digit) = digit := by
  rw [digitOf, toNat_digitLetter h, Nat.add_sub_cancel_left]

theorem map_digitOf_letters (h : ∀ digit ∈ digitList, digit < 10) : (letters digitList).map digitOf = digitList := by
  rw [letters, List.map_map]
  exact (List.map_congr_left fun digit hdigit ↦ digitOf_digitLetter (h digit hdigit)).trans (List.map_id _)

/-- A digit is no white space and no sign. -/
theorem isDigit_plain (h : isDigit base letter = true) : isSpace letter = false ∧ letter ≠ minus ∧ letter ≠ plus := by
  obtain ⟨hlow, -⟩ := of_decide_eq_true h
  have hne {other : UInt8} (hother : other.toNat < 48) : letter ≠ other := fun heq ↦ by
    rw [heq] at hlow
    omega
  refine ⟨decide_eq_false ?_, hne (by decide), hne (by decide)⟩
  rintro (⟨-, hle⟩ | heq)
  · have hle : letter.toNat ≤ 13 := UInt8.le_iff_toNat_le.mp hle
    omega
  · exact hne (by decide) heq

theorem scanSign_of_isDigit (h : isDigit base letter = true) :
    scanSign ((letter :: text).dropWhile isSpace) = (false, letter :: text) := by
  obtain ⟨hspace, hminus, hplus⟩ := isDigit_plain h
  rw [List.dropWhile_cons_of_neg (by rw [hspace]; exact Bool.false_ne_true), scanSign, if_neg hminus, if_neg hplus]

section

variable (hbase : base ≤ 10) (hne : digitList ≠ []) (hdigits : ∀ digit ∈ digitList, digit < base)
  (hrest : ∀ letter ∈ rest.head?, isDigit base letter = false)
include hbase hne hdigits hrest

/-- Digits that stand behind the sign are found, as far as they go. -/
theorem scan_of_scanSign {negative : Bool}
    (hsign : scanSign (text.dropWhile isSpace) = (negative, letters digitList ++ rest)) :
    scan base text = some (negative, value base digitList, rest) := by
  have hletters : ∀ letter ∈ letters digitList, isDigit base letter = true := fun letter hletter ↦ by
    obtain ⟨digit, hdigit, rfl⟩ := List.mem_map.mp hletter
    exact isDigit_digitLetter hbase (hdigits digit hdigit)
  have hstop : rest.takeWhile (isDigit base) = [] ∧ rest.dropWhile (isDigit base) = rest := by
    cases rest with
    | nil => exact ⟨rfl, rfl⟩
    | cons letter rest =>
      have hletter : ¬isDigit base letter = true := by
        rw [hrest letter rfl]
        exact Bool.false_ne_true
      exact ⟨List.takeWhile_cons_of_neg hletter, List.dropWhile_cons_of_neg hletter⟩
  have hfound : (letters digitList ++ rest).takeWhile (isDigit base) = letters digitList := by
    rw [List.takeWhile_append_of_pos hletters, hstop.1, List.append_nil]
  have hleft : (letters digitList ++ rest).dropWhile (isDigit base) = rest := by
    rw [List.dropWhile_append_of_pos hletters, hstop.2]
  have hsome : letters digitList ≠ [] := by
    rw [letters]
    exact mt List.map_eq_nil_iff.mp hne
  simp only [scan, hsign, hfound, hleft, if_neg hsome]
  rw [map_digitOf_letters fun digit hdigit ↦ Nat.lt_of_lt_of_le (hdigits digit hdigit) hbase]

/-- What was printed is found again. -/
theorem scan_letters : scan base (letters digitList ++ rest) = some (false, value base digitList, rest) := by
  refine scan_of_scanSign hbase hne hdigits hrest ?_
  obtain ⟨digit, others, rfl⟩ := List.exists_cons_of_ne_nil hne
  exact scanSign_of_isDigit (isDigit_digitLetter hbase (hdigits digit List.mem_cons_self))

end

theorem digitOf_lt (h : isDigit base letter = true) : digitOf letter < base := by
  obtain ⟨hlow, hhigh⟩ := of_decide_eq_true h
  rw [digitOf]
  omega

theorem length_scanSign (text : List UInt8) : (scanSign text).2.length ≤ text.length := by
  cases text with
  | nil => exact Nat.le_refl 0
  | cons letter text =>
    rw [scanSign]
    split_ifs
    · exact Nat.le_succ _
    · exact Nat.le_succ _
    · exact Nat.le_refl _

theorem scan_eq (base : ℕ) (text : List UInt8) : scan base text =
      if (scanSign (text.dropWhile isSpace)).2.takeWhile (isDigit base) = [] then none
      else some ((scanSign (text.dropWhile isSpace)).1,
        value base (((scanSign (text.dropWhile isSpace)).2.takeWhile (isDigit base)).map digitOf),
        (scanSign (text.dropWhile isSpace)).2.dropWhile (isDigit base)) := rfl

/-- A number has no more digits than its text has letters. -/
theorem scan_lt {negative : Bool} {number : ℕ} (hbase : 0 < base) (h : scan base text = some (negative, number, rest)) :
    number < base ^ text.length := by
  rw [scan_eq] at h
  split_ifs at h with hfound
  obtain ⟨rfl, rfl, rfl⟩ := h
  have hdigits : ∀ digit ∈ ((scanSign (text.dropWhile isSpace)).2.takeWhile (isDigit base)).map digitOf, digit < base := by
    intro digit hdigit
    obtain ⟨letter, hletter, rfl⟩ := List.mem_map.mp hdigit
    exact digitOf_lt (List.all_eq_true.mp List.all_takeWhile letter hletter)
  have hlength : ((scanSign (text.dropWhile isSpace)).2.takeWhile (isDigit base)).length ≤ text.length :=
    calc
      _ ≤ (scanSign (text.dropWhile isSpace)).2.length := (List.takeWhile_sublist _).length_le
      _ ≤ (text.dropWhile isSpace).length := length_scanSign _
      _ ≤ text.length := (List.dropWhile_sublist _).length_le
  refine Nat.lt_of_lt_of_le (value_lt hdigits) (Nat.pow_le_pow_right hbase ?_)
  rwa [List.length_map]

end Scan

end FdeEmugl.Numerals
