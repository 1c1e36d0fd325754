import FdeEmugl.Base.IniRewrite
import FdeEmugl.Library.Numerals
import Mathlib.Algebra.Group.Int.Defs

/-!
# Typed values of ini files

A value is stored as text. A getter replaces the variables of the environment in it and converts it as the C library
does: nothing at all counts as zero, or as a beginning of every word, and a number is narrowed or multiplied after it
was checked.
-/

namespace FdeEmugl.Ini

open Numerals

/-! ## Variables of the environment -/

def percent : UInt8 := 37

def makeValidValue : Text → Text
  | [] => []
  | ch :: str =>
    if ch = 0 then [] else if ch = percent then percent :: percent :: makeValidValue str
    else ch :: makeValidValue str

/-- The loop of `envSubst`; `var` is the name of the variable that has been opened. -/
def substitute (envGet : Text → Text) : Option Text → Text → Text
  | none, [] => []
  | some var, [] => percent :: var
  | none, ch :: fix =>
    if ch ≠ percent then ch :: substitute envGet none fix
    else match fix with
      | [] => substitute envGet (some []) []
      | next :: rest =>
        if next = percent then percent :: substitute envGet none rest else substitute envGet (some []) (next :: rest)
  | some var, ch :: fix =>
    if ch ≠ percent then substitute envGet (some (var ++ [ch])) fix else envGet var ++ substitute envGet none fix

/-- The index of the loop is an `unsigned int`: it never gets to the end of a text of 2^32 bytes. -/
def envSubst (envGet : Text → Text) (fix : Text) : Option Text :=
  if fix.length < 2 ^ 32 then some (substitute envGet none fix) else none

def getString (envGet : Text → Text) (ini : IniFile) (key defaultValue : Text) : Option Text :=
  envSubst envGet ((ini.mData key).getD defaultValue)

def setString (ini : IniFile) (key value : Text) : IniFile := ini.updateData key value

/-! ## Conversions -/

def c_str (text : Text) : Text := text.takeWhile (· ≠ 0)

/-- The number, whether it was out of range, and what stands behind it. -/
def strtoll (text : Text) : ℤ × Bool × Text :=
  match scan 10 (c_str text) with
  | none => (0, false, c_str text)
  | some (negative, number, rest) =>
    let result : ℤ := if negative then -number else number
    if result < -2 ^ 63 then (-2 ^ 63, true, rest)
    else if 2 ^ 63 ≤ result then (2 ^ 63 - 1, true, rest) else (result, false, rest)

/-- Numbers of 64 bits have at most 20 digits. -/
def to_string (value : ℤ) : Text := (if value < 0 then [minus] else []) ++ letters (digits 10 19 value.natAbs)

def tolower (uc : UInt8) : UInt8 := if uc - 'A'.toUInt8 < 26 then uc + 32 else uc

/-- Whether `strncasecmp` finds no difference between a word and a text, for the size of the text. -/
def strncasecmp : Text → Text → Bool
  | _, [] => true
  | [], uc :: _ => uc = 0
  | letter :: word, uc :: text => tolower letter = tolower uc ∧ strncasecmp word text

/-! ## Getters -/

variable {V : Type}

/-- What the getters have in common. They return, if they do, the default for what they do not understand. -/
def getTyped (parse : Text → Option V) (envGet : Text → Text) (ini : IniFile) (key : Text) (defaultValue : V) :
    Option V :=
  match ini.mData key with
  | none => some defaultValue
  | some _ => (getString envGet ini key []).map fun value ↦ (parse value).getD defaultValue

def parseNumber (narrow : ℤ → V) (value : Text) : Option V :=
  let (result, errno, rest) := strtoll value
  if errno ∨ rest ≠ [] then none else some (narrow result)

def getInt : (Text → Text) → IniFile → Text → Int32 → Option Int32 := getTyped (parseNumber Int32.ofInt)

def getInt64 : (Text → Text) → IniFile → Text → Int64 → Option Int64 := getTyped (parseNumber Int64.ofInt)

def word (letters : List Char) : Text := letters.map Char.toUInt8

def trueWords : List Text := [word ['y', 'e', 's'], word ['t', 'r', 'u', 'e'], word ['1']]

def falseWords : List Text := [word ['n', 'o'], word ['f', 'a', 'l', 's', 'e'], word ['0']]

def isBoolTrue (value : Text) : Bool := trueWords.any (strncasecmp · value)

def isBoolFalse (value : Text) : Bool := falseWords.any (strncasecmp · value)

def parseBool (value : Text) : Option Bool :=
  if isBoolTrue value then some true else if isBoolFalse value then some false else none

def getBool : (Text → Text) → IniFile → Text → Bool → Option Bool := getTyped parseBool

/-- What the number is multiplied by; nothing comes behind it at the end of the text. -/
def multiplier : Option UInt8 → Option UInt64
  | none => some 1
  | some uc =>
    if uc = 'k'.toUInt8 ∨ uc = 'K'.toUInt8 then some 1024
    else if uc = 'm'.toUInt8 ∨ uc = 'M'.toUInt8 then some (1024 * 1024)
    else if uc = 'g'.toUInt8 ∨ uc = 'G'.toUInt8 then some (1024 * 1024 * 1024) else none

def parseDiskSize (valueStr : Text) : Option UInt64 :=
  let (result, errno, rest) := strtoll valueStr
  if errno then none else (multiplier rest.head?).map (UInt64.ofInt result * ·)

def getDiskSize : (Text → Text) → IniFile → Text → UInt64 → Option UInt64 := getTyped parseDiskSize

/-! ## Setters -/

def setInt (ini : IniFile) (key : Text) (value : Int32) : IniFile := ini.updateData key (to_string value.toInt)

def setInt64 (ini : IniFile) (key : Text) (value : Int64) : IniFile := ini.updateData key (to_string value.toInt)

def setBool (ini : IniFile) (key : Text) (value : Bool) : IniFile :=
  ini.updateData key (if value then word ['t', 'r', 'u', 'e'] else word ['f', 'a', 'l', 's', 'e'])

def kKilo : UInt64 := 1024

def kMega : UInt64 := 1024 * kKilo

def kGiga : UInt64 := 1024 * kMega

/-- The largest unit that divides a size, and its suffix. -/
def diskSizeUnit (value : UInt64) : UInt64 × Text :=
  if value ≥ kGiga ∧ value % kGiga = 0 then (kGiga, ['g'.toUInt8])
  else if value ≥ kMega ∧ value % kMega = 0 then (kMega, ['m'.toUInt8])
  else if value ≥ kKilo ∧ value % kKilo = 0 then (kKilo, ['k'.toUInt8]) else (1, [])

def setDiskSize (ini : IniFile) (key : Text) (value : UInt64) : IniFile :=
  ini.updateData key (to_string ((value / (diskSizeUnit value).1).toNat : ℤ) ++ (diskSizeUnit value).2)

/-! ## What is promised -/

/-- The value comes back from the file, and from every file with keys and values that lines can hold after it was
written and read. -/
def Returns (get : IniFile → Text → V → Option V) (set : IniFile → Text → V → IniFile) (v : V) : Prop :=
  ∀ ini key defaultValue, get (set ini key v) key defaultValue = some v ∧
    (ini.Printable → IsKey key → ∀ keepComments reread,
      IniFile.read keepComments (set ini key v).write = some reread → get reread key defaultValue = some v)

/-- The default is returned for a stored text that does not stand for a value. -/
def Defaults (get : (Text → Text) → IniFile → Text → V → Option V) (Stands : Text → Prop) (envGet : Text → Text)
    (text : Text) : Prop :=
  ¬Stands (substitute envGet none text) →
    ∀ (ini : IniFile) key defaultValue, get envGet (ini.updateData key text) key defaultValue = some defaultValue

def Fits (bound : ℕ) (negative : Bool) (number : ℕ) : Prop := if negative then number ≤ bound else number < bound

/-- A decimal number in range. -/
def NumberText (bound : ℕ) (text : Text) : Prop :=
  (∀ uc ∈ text.head?, isSpace uc = false) ∧ ∃ negative number, scan 10 text = some (negative, number, []) ∧
    Fits bound negative number

def BoolText (text : Text) : Prop := text.map tolower ∈ trueWords ++ falseWords

/-- Digits with one unit at most, and a product of 64 bits. -/
def DiskSizeText (text : Text) : Prop :=
  (∃ uc ∈ text.head?, isDigit 10 uc) ∧ ∃ number rest unit, scan 10 text = some (false, number, rest) ∧
    rest.length ≤ 1 ∧ multiplier rest.head? = some unit ∧ number * unit.toNat < 2 ^ 64

/-- Up to the first NUL, nothing, or white space and a number of 64 bits. -/
def ReadsNumber (text : Text) : Prop :=
  c_str text = [] ∨ ∃ negative number, scan 10 (c_str text) = some (negative, number, []) ∧ Fits (2 ^ 63) negative number

/-- A beginning of one of the words, or one of them with a NUL behind it. -/
def ReadsBool (text : Text) : Prop :=
  ∃ word ∈ trueWords ++ falseWords, text.map tolower <+: word ∨ word ++ [0] <+: text.map tolower

/-- Up to the first NUL, white space and a number of 64 bits, or nothing; then the end or a unit with anything. -/
def ReadsDiskSize (text : Text) : Prop := (scan 10 (c_str text) = none ∧ (multiplier (c_str text).head?).isSome) ∨
    ∃ negative number rest, scan 10 (c_str text) = some (negative, number, rest) ∧ Fits (2 ^ 63) negative number ∧
      (multiplier rest.head?).isSome

/-! ## Text of keys -/

section Text

variable {uc : UInt8} {text : Text} {envGet : Text → Text}

theorem isKeyChar_plain (h : isKeyChar uc = true) :
    uc ≠ 0 ∧ uc ≠ percent ∧ isSpaceChar uc = false ∧ isValueChar uc = true := by
  have hne {other : UInt8} (hother : isKeyChar other = false) : uc ≠ other := by
    rintro rfl
    exact Bool.false_ne_true (hother.symm.trans h)
  refine ⟨hne (by decide), hne (by decide), decide_eq_false ?_, decide_eq_true ⟨hne (by decide), hne (by decide)⟩⟩
  rintro (heq | heq | heq) <;> exact absurd heq (hne (by decide))

theorem isValue_of_isKeyChar (h : ∀ uc ∈ text, isKeyChar uc = true) : IsValue text where
  chars := fun uc hmem ↦ (isKeyChar_plain (h uc hmem)).2.2.2
  first := fun uc hmem ↦ (isKeyChar_plain (h uc (List.mem_of_mem_head? hmem))).2.2.1
  last := fun uc hmem ↦ (isKeyChar_plain (h uc (List.mem_of_mem_getLast? hmem))).2.2.1

theorem substitute_cons (h : uc ≠ percent) : substitute envGet none (uc :: text) = uc :: substitute envGet none text := by
  cases text <;> simp [substitute, h]

theorem substitute_escape : substitute envGet none (percent :: percent :: text) =
    percent :: substitute envGet none text := by
  simp [substitute]

theorem substitute_of_isKeyChar (h : ∀ uc ∈ text, isKeyChar uc = true) : substitute envGet none text = text := by
  induction text with
  | nil => rfl
  | cons uc text ih =>
    obtain ⟨huc, htext⟩ := List.forall_mem_cons.mp h
    rw [substitute_cons (isKeyChar_plain huc).2.1, ih htext]

theorem c_str_of_isKeyChar (h : ∀ uc ∈ text, isKeyChar uc = true) : c_str text = text :=
  List.takeWhile_eq_self_iff.mpr fun uc hmem ↦ decide_eq_true (isKeyChar_plain (h uc hmem)).1

/-- What is escaped is the text again, up to its first NUL. -/
theorem substitute_makeValidValue (h : 0 ∉ text) : substitute envGet none (makeValidValue text) = text := by
  induction text with
  | nil => rfl
  | cons ch text ih =>
    have ih := ih (List.not_mem_of_not_mem_cons h)
    rw [makeValidValue, if_neg (List.ne_of_not_mem_cons h).symm]
    split_ifs with hch
    · rw [substitute_escape, ih, hch]
    · rw [substitute_cons hch, ih]

theorem isKeyChar_to_string (value : ℤ) : ∀ uc ∈ to_string value, isKeyChar uc = true := by
  have hdigit : ∀ digit < 10, isKeyChar (digitLetter digit) = true := by decide
  intro uc hmem
  obtain hmem | hmem := List.mem_append.mp hmem
  · split_ifs at hmem
    · rw [List.mem_singleton.mp hmem]
      decide
    · cases hmem
  · obtain ⟨digit, hdigits, rfl⟩ := List.mem_map.mp hmem
    exact hdigit digit (lt_of_mem_digits (by decide) hdigits)

theorem length_to_string_le (value : ℤ) : (to_string value).length ≤ 21 := by
  have hdigits := length_digits_le 10 19 value.natAbs
  rw [to_string, List.length_append, letters, List.length_map]
  split_ifs <;> simp only [List.length_nil, List.length_singleton] <;> omega

end Text

/-! ## Getters and setters -/

section Typed

variable {parse : Text → Option V} {envGet : Text → Text} {ini : IniFile} {key text : Text} {v : V}

theorem getTyped_of_some (h : ini.mData key = some text) (defaultValue : V) :
    getTyped parse envGet ini key defaultValue =
      if text.length < 2 ^ 32 then some ((parse (substitute envGet none text)).getD defaultValue) else none := by
  rw [getTyped, h]
  simp only [getString, h, Option.getD_some, envSubst]
  split_ifs <;> rfl

/-- A value of which there are others comes back exactly if its text is converted to it. -/
theorem returns_iff (parse : Text → Option V) (envGet : Text → Text) {set : IniFile → Text → V → IniFile} (text : Text)
    {first second : V} (hne : first ≠ second) (hset : ∀ ini key, set ini key v = ini.updateData key text)
    (htext : ∀ uc ∈ text, isKeyChar uc = true) (hlength : text.length < 2 ^ 32) :
    Returns (getTyped parse envGet) set v ↔ parse text = some v := by
  have hget (ini : IniFile) (key : Text) (defaultValue : V) (h : ini.mData key = some text) :
      getTyped parse envGet ini key defaultValue = some ((parse text).getD defaultValue) := by
    rw [getTyped_of_some h, if_pos hlength, substitute_of_isKeyChar htext]
  have hstored (ini : IniFile) (key : Text) : (ini.updateData key text).mData key = some text :=
    ini.mData_updateData_self key text
  constructor
  · intro h
    have hall (defaultValue : V) : (parse text).getD defaultValue = v := by
      have hreturns := (h .empty [] defaultValue).1
      rwa [hset, hget _ _ _ (hstored _ _), Option.some_inj] at hreturns
    cases hparse : parse text with
    | none =>
      rw [hparse] at hall
      exact absurd ((hall first).trans (hall second).symm) hne
    | some found =>
      rw [hparse] at hall
      exact congrArg some (hall v)
  · intro h ini key defaultValue
    rw [hset]
    refine ⟨?_, fun hprintable hkey keepComments reread hread ↦ ?_⟩
    · rw [hget _ _ _ (hstored ini key), h]
      rfl
    · obtain ⟨-, hread⟩ := Option.ite_none_right_eq_some.mp hread
      cases hread
      have hwritten := hprintable.updateData (printable_entry hkey (isValue_of_isKeyChar htext))
      rw [hget _ _ _ ((hwritten.mData_write keepComments key).trans (hstored ini key)), h]
      rfl

theorem defaults_iff (parse : Text → Option V) (Stands : Text → Prop) (envGet : Text → Text) (text : Text)
    {first second : V} (hne : first ≠ second) : Defaults (getTyped parse) Stands envGet text ↔
      Stands (substitute envGet none text) ∨ text.length < 2 ^ 32 ∧ parse (substitute envGet none text) = none := by
  have hget (ini : IniFile) (key : Text) (defaultValue : V) :
      getTyped parse envGet (ini.updateData key text) key defaultValue = some defaultValue ↔
        text.length < 2 ^ 32 ∧ (parse (substitute envGet none text)).getD defaultValue = defaultValue := by
    rw [getTyped_of_some (ini.mData_updateData_self key text), Option.ite_none_right_eq_some, Option.some_inj]
  by_cases hstands : Stands (substitute envGet none text)
  · exact iff_of_true (fun h ↦ absurd hstands h) (.inl hstands)
  · rw [or_iff_right hstands]
    constructor
    · intro h
      have hall := fun defaultValue ↦ (hget .empty [] defaultValue).mp (h hstands .empty [] defaultValue)
      refine ⟨(hall first).1, ?_⟩
      cases hparse : parse (substitute envGet none text) with
      | none => rfl
      | some found =>
        rw [hparse] at hall
        exact absurd ((hall first).2.symm.trans (hall second).2) hne
    · rintro ⟨hlength, hnone⟩ - ini key defaultValue
      rw [hget, hnone]
      exact ⟨hlength, rfl⟩

end Typed

/-! ## Numbers -/

section Numbers

variable {text rest : Text} {negative : Bool} {number : ℕ}

def signed (negative : Bool) (number : ℕ) : ℤ := if negative then -number else number

variable {value : ℤ}

theorem strtoll_of_scan (h : scan 10 (c_str text) = some (negative, number, rest)) :
    (Fits (2 ^ 63) negative number → strtoll text = (signed negative number, false, rest)) ∧
      (¬Fits (2 ^ 63) negative number → (strtoll text).2.1 = true) := by
  rw [strtoll, h]
  simp only [Fits, signed]
  split_ifs <;> first | exact ⟨fun _ ↦ rfl, fun h ↦ by omega⟩ | exact ⟨fun h ↦ by omega, fun _ ↦ rfl⟩

theorem parseNumber_eq_none_iff (narrow : ℤ → V) : parseNumber narrow text = none ↔ ¬ReadsNumber text := by
  cases hscan : scan 10 (c_str text) with
  | none =>
    have hread : strtoll text = (0, false, c_str text) := by
      rw [strtoll, hscan]
    simp [parseNumber, hread, ReadsNumber, hscan]
  | some found =>
    obtain ⟨negative, number, rest⟩ := found
    obtain ⟨hfits, herror⟩ := strtoll_of_scan hscan
    have hne : c_str text ≠ [] := by
      intro hnil
      rw [hnil] at hscan
      cases hscan
    have hreads : ReadsNumber text ↔ rest = [] ∧ Fits (2 ^ 63) negative number := by
      rw [ReadsNumber, or_iff_right hne, hscan]
      constructor
      · rintro ⟨negative, number, heq, hrange⟩
        cases heq
        exact ⟨rfl, hrange⟩
      · rintro ⟨rfl, hrange⟩
        exact ⟨negative, number, rfl, hrange⟩
    rw [hreads, parseNumber]
    by_cases hrange : Fits (2 ^ 63) negative number
    · rw [and_iff_left hrange]
      simp [hfits hrange]
    · simp only [herror hrange, true_or, if_true, true_iff]
      exact fun h ↦ hrange h.2

/-- A number that was printed is read, whatever stands behind its digits. -/
theorem scan_to_string (h : value.natAbs < 10 ^ 20) (hrest : ∀ uc ∈ rest.head?, isDigit 10 uc = false) :
    scan 10 (to_string value ++ rest) = some (decide (value < 0), value.natAbs, rest) := by
  have hdigits : ∀ digit ∈ digits 10 19 value.natAbs, digit < 10 := fun _ ↦ lt_of_mem_digits (by decide)
  have hne := digits_ne_nil 10 19 value.natAbs
  have hvalue : Numerals.value 10 (digits 10 19 value.natAbs) = value.natAbs := value_digits h
  rw [to_string]
  split_ifs with hneg
  · have hsign : scanSign (([minus] ++ letters (digits 10 19 value.natAbs) ++ rest).dropWhile isSpace) =
        (true, letters (digits 10 19 value.natAbs) ++ rest) := rfl
    rw [scan_of_scanSign (by decide) hne hdigits hrest hsign, hvalue, decide_eq_true hneg]
  · rw [List.nil_append, scan_letters (by decide) hne hdigits hrest, hvalue, decide_eq_false hneg]

theorem strtoll_to_string (hlow : -2 ^ 63 ≤ value) (hhigh : value < 2 ^ 63)
    (hkey : ∀ uc ∈ rest, isKeyChar uc = true) (hrest : ∀ uc ∈ rest.head?, isDigit 10 uc = false) :
    strtoll (to_string value ++ rest) = (value, false, rest) := by
  have hplain : c_str (to_string value ++ rest) = to_string value ++ rest :=
    c_str_of_isKeyChar (List.forall_mem_append.mpr ⟨isKeyChar_to_string value, hkey⟩)
  have hsmall : value.natAbs < 10 ^ 20 := by omega
  have hscan := scan_to_string hsmall hrest
  rw [← hplain] at hscan
  have hsigned : signed (decide (value < 0)) value.natAbs = value := by
    simp only [signed, decide_eq_true_eq]
    split_ifs <;> omega
  have hfits : Fits (2 ^ 63) (decide (value < 0)) value.natAbs := by
    simp only [Fits, decide_eq_true_eq]
    split_ifs <;> omega
  rw [(strtoll_of_scan hscan).1 hfits, hsigned]

theorem parseNumber_to_string (narrow : ℤ → V) (hlow : -2 ^ 63 ≤ value) (hhigh : value < 2 ^ 63) :
    parseNumber narrow (to_string value) = some (narrow value) := by
  have hread : strtoll (to_string value ++ []) = (value, false, []) :=
    strtoll_to_string hlow hhigh (fun _ h ↦ absurd h List.not_mem_nil) fun _ h ↦ absurd h (Option.not_mem_none _)
  rw [List.append_nil] at hread
  simp [parseNumber, hread]

end Numbers

/-! ## Words -/

section Words

variable {text letters : Text}

theorem tolower_eq_zero {uc : UInt8} : tolower uc = 0 ↔ uc = 0 := by
  rw [tolower]
  split_ifs with h
  · have hlow : (uc - 65).toNat < 26 := UInt8.lt_iff_toNat_lt.mp h
    have hless := uc.toNat_lt
    rw [UInt8.toNat_sub] at hlow
    rw [← UInt8.toNat_inj, ← UInt8.toNat_inj, UInt8.toNat_add]
    simp only [UInt8.reduceToNat] at *
    omega
  · rfl

theorem strncasecmp_iff (hlower : letters.map tolower = letters) (hzero : 0 ∉ letters) :
    strncasecmp letters text = true ↔ text.map tolower <+: letters ∨ letters ++ [0] <+: text.map tolower := by
  induction letters generalizing text with
  | nil =>
    cases text with
    | nil => simp [strncasecmp]
    | cons uc text =>
      have hcomm : 0 = tolower uc ↔ uc = 0 := eq_comm.trans tolower_eq_zero
      simp [strncasecmp, hcomm]
  | cons letter letters ih =>
    cases text with
    | nil => simp [strncasecmp]
    | cons uc text =>
      obtain ⟨hletter, hlower⟩ := List.cons.inj hlower
      have ih := @ih text hlower (List.not_mem_of_not_mem_cons hzero)
      have hcomm : letter = tolower uc ↔ tolower uc = letter := eq_comm
      simp [strncasecmp, hletter, ih, hcomm, and_or_left]

theorem parseBool_eq_none_iff : parseBool text = none ↔ ¬ReadsBool text := by
  have hwords : ∀ letters ∈ trueWords ++ falseWords, letters.map tolower = letters ∧ 0 ∉ letters := by decide
  have hany (words : List Text) (hsub : words ⊆ trueWords ++ falseWords) : words.any (strncasecmp · text) = true ↔
      ∃ letters ∈ words, text.map tolower <+: letters ∨ letters ++ [0] <+: text.map tolower := by
    rw [List.any_eq_true]
    refine exists_congr fun letters ↦ and_congr_right fun hmem ↦ ?_
    exact strncasecmp_iff (hwords letters (hsub hmem)).1 (hwords letters (hsub hmem)).2
  have hboth : ReadsBool text ↔ isBoolTrue text = true ∨ isBoolFalse text = true := by
    rw [isBoolTrue, isBoolFalse, ← Bool.or_eq_true, ← List.any_append]
    exact (hany _ (List.Subset.refl _)).symm
  rw [hboth, parseBool]
  split_ifs <;> simp [*]

end Words

/-! ## Disk sizes -/

section DiskSizes

variable {text : Text}

theorem parseDiskSize_eq_none_iff : parseDiskSize text = none ↔ ¬ReadsDiskSize text := by
  cases hscan : scan 10 (c_str text) with
  | none =>
    have hread : strtoll text = (0, false, c_str text) := by
      rw [strtoll, hscan]
    simp [parseDiskSize, hread, ReadsDiskSize, hscan]
  | some found =>
    obtain ⟨negative, number, rest⟩ := found
    obtain ⟨hfits, herror⟩ := strtoll_of_scan hscan
    have hreads : ReadsDiskSize text ↔ Fits (2 ^ 63) negative number ∧ (multiplier rest.head?).isSome = true := by
      rw [ReadsDiskSize, hscan]
      constructor
      · rintro (⟨hnone, -⟩ | ⟨negative, number, rest, heq, hreads⟩)
        · cases hnone
        · cases heq
          exact hreads
      · exact fun h ↦ .inr ⟨negative, number, rest, rfl, h⟩
    rw [hreads, parseDiskSize]
    by_cases hrange : Fits (2 ^ 63) negative number
    · rw [and_iff_right hrange]
      simp [hfits hrange]
    · simp only [herror hrange, if_true, true_iff]
      exact fun h ↦ hrange h.1

theorem forall_mem_suffix {letter : UInt8} (h : isKeyChar letter = true) : ∀ uc ∈ [letter], isKeyChar uc = true :=
  List.forall_mem_singleton.mpr h

theorem forall_mem_head_suffix {letter : UInt8} (h : isDigit 10 letter = false) :
    ∀ uc ∈ [letter].head?, isDigit 10 uc = false := by
  rintro _ ⟨⟩
  exact h

theorem diskSizeUnit_spec (v : UInt64) : ∃ unit suffix, diskSizeUnit v = (unit, suffix) ∧
    multiplier suffix.head? = some unit ∧ (∀ uc ∈ suffix, isKeyChar uc = true) ∧
    (∀ uc ∈ suffix.head?, isDigit 10 uc = false) ∧ suffix.length ≤ 1 ∧ v.toNat % unit.toNat = 0 ∧ 0 < unit.toNat ∧
    (v.toNat / unit.toNat < 2 ^ 63 ↔ v.toNat < 2 ^ 63 ∨ v.toNat % 1024 = 0) := by
  have hv := v.toNat_lt
  have hmod (unit : UInt64) (h : v % unit = 0) : v.toNat % unit.toNat = 0 := by
    rw [← UInt64.toNat_mod, h]
    rfl
  rw [diskSizeUnit]
  split_ifs with hgiga hmega hkilo
  · have hdvd : v.toNat % 1073741824 = 0 := hmod _ hgiga.2
    exact ⟨_, _, rfl, rfl, forall_mem_suffix rfl, forall_mem_head_suffix rfl, by decide, hdvd, by decide, by
      change v.toNat / 1073741824 < 2 ^ 63 ↔ _
      omega⟩
  · have hdvd : v.toNat % 1048576 = 0 := hmod _ hmega.2
    exact ⟨_, _, rfl, rfl, forall_mem_suffix rfl, forall_mem_head_suffix rfl, by decide, hdvd, by decide, by
      change v.toNat / 1048576 < 2 ^ 63 ↔ _
      omega⟩
  · have hdvd : v.toNat % 1024 = 0 := hmod _ hkilo.2
    exact ⟨_, _, rfl, rfl, forall_mem_suffix rfl, forall_mem_head_suffix rfl, by decide, hdvd, by decide, by
      change v.toNat / 1024 < 2 ^ 63 ↔ _
      omega⟩
  · have hsmall (h : v.toNat % 1024 = 0) : v.toNat < 1024 := by
      refine Nat.lt_of_not_le fun hle ↦ hkilo ⟨UInt64.le_iff_toNat_le.mpr hle, ?_⟩
      rw [← UInt64.toNat_inj, UInt64.toNat_mod]
      exact h
    refine ⟨1, [], rfl, rfl, List.forall_mem_nil _, fun _ h ↦ absurd h (Option.not_mem_none _), by decide, Nat.mod_one _, by decide, ?_⟩
    change v.toNat / 1 < 2 ^ 63 ↔ _
    omega

end DiskSizes

/-! ## All types -/

/-- The conditions under which the values come back and the default is returned. -/
structure TypedValues (envGet : Text → Text) : Prop where
  int : ∀ v, Returns (getInt envGet) setInt v
  int64 : ∀ v, Returns (getInt64 envGet) setInt64 v
  bool : ∀ v, Returns (getBool envGet) setBool v
  diskSize : ∀ v, Returns (getDiskSize envGet) setDiskSize v ↔ v.toNat < 2 ^ 63 ∨ v.toNat % 1024 = 0
  string : ∀ s, 0 ∉ s →
    ((∀ ini key defaultValue, getString envGet (setString ini key (makeValidValue s)) key defaultValue = some s) ↔
      (makeValidValue s).length < 2 ^ 32)
  intText : ∀ text, Defaults getInt (NumberText (2 ^ 31)) envGet text ↔
    NumberText (2 ^ 31) (substitute envGet none text) ∨
      text.length < 2 ^ 32 ∧ ¬ReadsNumber (substitute envGet none text)
  int64Text : ∀ text, Defaults getInt64 (NumberText (2 ^ 63)) envGet text ↔
    NumberText (2 ^ 63) (substitute envGet none text) ∨
      text.length < 2 ^ 32 ∧ ¬ReadsNumber (substitute envGet none text)
  boolText : ∀ text, Defaults getBool BoolText envGet text ↔
    BoolText (substitute envGet none text) ∨ text.length < 2 ^ 32 ∧ ¬ReadsBool (substitute envGet none text)
  diskSizeText : ∀ text, Defaults getDiskSize DiskSizeText envGet text ↔
    DiskSizeText (substitute envGet none text) ∨ text.length < 2 ^ 32 ∧ ¬ReadsDiskSize (substitute envGet none text)

theorem zero_ne_one32 : (0 : Int32) ≠ 1 := by decide

theorem zero_ne_one64 : (0 : Int64) ≠ 1 := by decide

theorem zero_ne_one_size : (0 : UInt64) ≠ 1 := by decide

theorem typedValues (envGet : Text → Text) : TypedValues envGet where
  int := fun v ↦ by
    have hlength := length_to_string_le v.toInt
    refine (returns_iff (parseNumber Int32.ofInt) envGet (to_string v.toInt) zero_ne_one32 (fun _ _ ↦ rfl)
      (isKeyChar_to_string v.toInt) (by omega)).mpr ?_
    have hle := v.le_toInt
    have hlt := v.toInt_lt
    rw [parseNumber_to_string Int32.ofInt (by omega) (by omega), Int32.ofInt_toInt]
  int64 := fun v ↦ by
    have hlength := length_to_string_le v.toInt
    refine (returns_iff (parseNumber Int64.ofInt) envGet (to_string v.toInt) zero_ne_one64 (fun _ _ ↦ rfl)
      (isKeyChar_to_string v.toInt) (by omega)).mpr ?_
    rw [parseNumber_to_string Int64.ofInt v.le_toInt v.toInt_lt, Int64.ofInt_toInt]
  bool := fun v ↦ by
    refine (returns_iff parseBool envGet (if v then word ['t', 'r', 'u', 'e'] else word ['f', 'a', 'l', 's', 'e'])
      Bool.false_ne_true (fun _ _ ↦ rfl) (List.all_eq_true.mp ?_) ?_).mpr ?_ <;> cases v <;> decide
  diskSize := fun v ↦ by
    obtain ⟨unit, suffix, hunit, hmultiplier, hkey, hdigit, hlength, hmod, hpos, hiff⟩ := diskSizeUnit_spec v
    have hdigits := length_to_string_le ((v / unit).toNat : ℤ)
    have htext : (to_string ((v / unit).toNat : ℤ) ++ suffix).length < 2 ^ 32 := by
      rw [List.length_append]
      omega
    have hset (ini : IniFile) (key : Text) :
        setDiskSize ini key v = ini.updateData key (to_string ((v / unit).toNat : ℤ) ++ suffix) := by
      rw [setDiskSize, hunit]
    refine (returns_iff parseDiskSize envGet _ zero_ne_one_size hset
      (List.forall_mem_append.mpr ⟨isKeyChar_to_string _, hkey⟩) htext).trans ?_
    rw [← hiff, ← UInt64.toNat_div]
    have hquotient := (v / unit).toNat_lt
    constructor
    · intro h
      by_contra hlarge
      have hsmall : ((v / unit).toNat : ℤ).natAbs < 10 ^ 20 := by omega
      have hscan := scan_to_string hsmall hdigit
      rw [← c_str_of_isKeyChar (List.forall_mem_append.mpr ⟨isKeyChar_to_string _, hkey⟩)] at hscan
      have hrange : ¬Fits (2 ^ 63) (decide (((v / unit).toNat : ℤ) < 0)) ((v / unit).toNat : ℤ).natAbs := by
        rw [decide_eq_false (by omega), Int.natAbs_natCast]
        exact hlarge
      have herror := (strtoll_of_scan hscan).2 hrange
      rw [parseDiskSize] at h
      simp only [herror, if_true] at h
      cases h
    · intro hsmall
      have hnumber : UInt64.ofInt ((v / unit).toNat : ℤ) = v / unit := by
        have hmod : ((v / unit).toNat : ℤ) % 2 ^ 64 = (v / unit).toNat := by omega
        rw [UInt64.ofInt, hmod, Int.toNat_natCast, UInt64.ofNat_toNat]
      have hproduct : v / unit * unit = v := by
        rw [← UInt64.toNat_inj, UInt64.toNat_mul, UInt64.toNat_div, Nat.div_mul_cancel (Nat.dvd_of_mod_eq_zero hmod),
          Nat.mod_eq_of_lt v.toNat_lt]
      rw [parseDiskSize, strtoll_to_string (by omega) (by omega) hkey hdigit]
      simp only [hnumber, hmultiplier, Option.map_some, hproduct]
      exact if_neg Bool.false_ne_true
  string := fun s hs ↦ by
    constructor
    · intro h
      obtain ⟨hlength, -⟩ := Option.ite_none_right_eq_some.mp (h .empty [] [])
      exact hlength
    · intro hlength ini key defaultValue
      rw [getString, setString, IniFile.mData_updateData_self, Option.getD_some, envSubst, if_pos hlength,
        substitute_makeValidValue hs]
  intText := fun text ↦ by
    rw [getInt, defaults_iff _ _ _ _ zero_ne_one32, parseNumber_eq_none_iff]
  int64Text := fun text ↦ by
    rw [getInt64, defaults_iff _ _ _ _ zero_ne_one64, parseNumber_eq_none_iff]
  boolText := fun text ↦ by
    rw [getBool, defaults_iff _ _ _ _ Bool.false_ne_true, parseBool_eq_none_iff]
  diskSizeText := fun text ↦ by
    rw [getDiskSize, defaults_iff _ _ _ _ zero_ne_one_size, parseDiskSize_eq_none_iff]

/-- The empty text is no number, and is read as zero. -/
theorem empty_read_as_zero : ¬Defaults getInt (NumberText (2 ^ 31)) (fun _ ↦ []) [] := by
  intro h
  have hempty : ¬NumberText (2 ^ 31) (substitute (fun _ ↦ []) none []) := by
    rintro ⟨-, _, _, hscan, -⟩
    cases hscan
  exact absurd (h hempty .empty [] 7) (by decide)

end FdeEmugl.Ini
