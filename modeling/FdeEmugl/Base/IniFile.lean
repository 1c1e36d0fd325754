import FdeEmugl.Library.Lines
import Mathlib.Algebra.Group.Nat.Defs
import Mathlib.Data.List.DropRight
import Mathlib.Data.List.Nodup

/-!
# Ini files

The lines of an ini file are read as comments, blank lines among them, as keys with their values, or not at all. A file
is written from the keys in their order; the comments come with the numbers that they had as lines.
-/

namespace FdeEmugl.Ini

open Function (update update_self update_of_ne)
open Lines

abbrev Text := List UInt8

scoped instance lawfulText : LawfulBEq Text := inferInstance

def lineFeed : UInt8 := 10

def carriageReturn : UInt8 := 13

/-! ## Lines -/

def isSpaceChar (uc : UInt8) : Bool := uc = ' '.toUInt8 ∨ uc = carriageReturn ∨ uc = 9

def isValueChar (uc : UInt8) : Bool := uc ≠ carriageReturn ∧ uc ≠ lineFeed

/-- The differences wrap: each comparison is about a range. -/
def isKeyStartChar (uc : UInt8) : Bool := uc - 'a'.toUInt8 < 26 ∨ uc - 'A'.toUInt8 < 26 ∨ uc = '_'.toUInt8

def isKeyChar (uc : UInt8) : Bool := isKeyStartChar uc ∨ uc - '0'.toUInt8 < 10 ∨ uc = '.'.toUInt8 ∨ uc = '-'.toUInt8

/-- What a line is read as, and what is written. -/
inductive Item where
  | comment (text : Text)
  | entry (key value : Text)
  deriving DecidableEq

def parseValue (key rest : Text) : Option Item :=
  if (rest.dropWhile isValueChar).dropWhile isSpaceChar = [] then
    some (.entry key ((rest.takeWhile isValueChar).rdropWhile isSpaceChar))
  else none

def parseAssignment (key : Text) : Text → Option Item
  | [] => none
  | letter :: rest => if letter = '='.toUInt8 then parseValue key (rest.dropWhile isSpaceChar) else none

/-- A line; `none` is one that is dropped. -/
def parseLine (line : Text) : Option Item :=
  match line.dropWhile isSpaceChar with
  | [] => some (.comment line)
  | first :: rest =>
    if first = '#'.toUInt8 ∨ first = ';'.toUInt8 then some (.comment line)
    else if isKeyStartChar first then
      parseAssignment (first :: rest.takeWhile isKeyChar) ((rest.dropWhile isKeyChar).dropWhile isSpaceChar)
    else none

/-! ## Reading and writing -/

/-- The keys stand in their order, each once; a comment has the number of its line. -/
structure IniFile where
  mData : Text → Option Text
  mOrderList : List Text
  mComments : List (ℕ × Text)
  listed : ∀ key, (mData key).isSome ↔ key ∈ mOrderList
  nodup : mOrderList.Nodup

namespace IniFile

theorem listed_none (key : Text) : (none : Option Text).isSome ↔ key ∈ ([] : List Text) :=
  iff_of_false Bool.false_ne_true List.not_mem_nil

def empty : IniFile := ⟨fun _ ↦ none, [], [], listed_none, List.nodup_nil⟩

theorem listed_emplace (ini : IniFile) (key value other : Text) : (update ini.mData key (some value) other).isSome ↔
    other ∈ if key ∈ ini.mOrderList then ini.mOrderList else ini.mOrderList ++ [key] := by
  by_cases heq : other = key
  · rw [heq, update_self]
    split_ifs with hmem
    · exact iff_of_true rfl hmem
    · exact iff_of_true rfl (List.mem_append_right _ List.mem_cons_self)
  · rw [update_of_ne heq, ini.listed]
    split_ifs
    · exact Iff.rfl
    · rw [List.mem_append, List.mem_singleton, or_iff_left heq]

theorem nodup_emplace (ini : IniFile) (key : Text) :
    (if key ∈ ini.mOrderList then ini.mOrderList else ini.mOrderList ++ [key]).Nodup := by
  split_ifs with hmem
  · exact ini.nodup
  · exact List.concat_eq_append ▸ ini.nodup.concat hmem

/-- A new key comes last, the value of a known one is replaced. -/
def updateData (ini : IniFile) (key value : Text) : IniFile where
  mData := update ini.mData key (some value)
  mOrderList := if key ∈ ini.mOrderList then ini.mOrderList else ini.mOrderList ++ [key]
  mComments := ini.mComments
  listed := listed_emplace ini key value
  nodup := nodup_emplace ini key

theorem mData_updateData_self (ini : IniFile) (key value : Text) : (ini.updateData key value).mData key = some value :=
  update_self _ _ _

theorem mData_updateData_of_ne (ini : IniFile) (value : Text) {key other : Text} (h : other ≠ key) :
    (ini.updateData key value).mData other = ini.mData other := update_of_ne h _ _

def addComment (ini : IniFile) (outputLineno : ℕ) (line : Text) : IniFile :=
  { ini with mComments := ini.mComments ++ [(outputLineno, line)] }

/-- The keys and their values in order. -/
def entries (ini : IniFile) : List (Text × Text) := ini.mOrderList.map fun key ↦ (key, (ini.mData key).getD [])

/-- One turn of the loop in `parseStream`. Lines that are dropped have no number. -/
def readLine (keepComments : Bool) (state : ℕ × IniFile) (line : Text) : ℕ × IniFile :=
  let (outputLineno, ini) := state
  match parseLine line with
  | none => (outputLineno, ini)
  | some (.comment text) => (outputLineno + 1, if keepComments then ini.addComment (outputLineno + 1) text else ini)
  | some (.entry key value) => (outputLineno + 1, ini.updateData key value)

def parseStream (keepComments : Bool) (content : Text) : IniFile :=
  ((lines lineFeed content).foldl (readLine keepComments) (0, empty)).2

/-- A file that is too large is not read. -/
def read (keepComments : Bool) (content : Text) : Option IniFile :=
  if content.length ≤ 655360 then some (parseStream keepComments content) else none

end IniFile

/-- The text of a line that is written. -/
def Item.line : Item → Text
  | comment text => text
  | entry key value => key ++ [' '.toUInt8, '='.toUInt8, ' '.toUInt8] ++ value

/-- The comments that are due at a line, the line behind them, and the other comments. -/
def writeComments (lineno : ℕ) : List (ℕ × Text) → List Item × ℕ × List (ℕ × Text)
  | [] => ([], lineno, [])
  | (number, text) :: comments =>
    if number ≤ lineno then
      let (written, next) := writeComments (lineno + 1) comments
      (.comment text :: written, next)
    else ([], lineno, (number, text) :: comments)

def writeEntries (discardEmpty : Bool) (lineno : ℕ) (comments : List (ℕ × Text)) : List (Text × Text) → List Item
  | [] => []
  | (key, value) :: entries =>
    let (written, lineno, comments) := writeComments (lineno + 1) comments
    let entry := if discardEmpty ∧ value = [] then [] else [.entry key value]
    written ++ entry ++ writeEntries discardEmpty lineno comments entries

def IniFile.writeCommon (discardEmpty : Bool) (ini : IniFile) : Text :=
  unlines lineFeed ((writeEntries discardEmpty 0 ini.mComments ini.entries).map Item.line)

def IniFile.write (ini : IniFile) : Text := ini.writeCommon false

/-! ## A written line is read again -/

def IsKey (key : Text) : Prop := ∃ first rest, key = first :: rest ∧ isKeyStartChar first ∧ ∀ uc ∈ rest, isKeyChar uc

/-- Values go on to the end of the line, and have no white space around them. -/
structure IsValue (value : Text) : Prop where
  chars : ∀ uc ∈ value, isValueChar uc
  first : ∀ uc ∈ value.head?, isSpaceChar uc = false
  last : ∀ uc ∈ value.getLast?, isSpaceChar uc = false

/-- The line of an item is one line, and is read as the item. -/
structure Item.Printable (item : Item) : Prop where
  reads : parseLine item.line = some item
  oneLine : lineFeed ∉ item.line

section Lines

variable {uc : UInt8} {key value rest line text : Text} {item : Item}

theorem isKeyStartChar_plain (h : isKeyStartChar uc = true) :
    isSpaceChar uc = false ∧ ¬(uc = '#'.toUInt8 ∨ uc = ';'.toUInt8) ∧ uc ≠ lineFeed := by
  refine ⟨Bool.eq_false_iff.mpr fun hspace ↦ ?_, ?_, ?_⟩
  · obtain rfl | rfl | rfl := of_decide_eq_true hspace <;> exact absurd h (by decide)
  · rintro (rfl | rfl) <;> exact absurd h (by decide)
  · rintro rfl
    exact absurd h (by decide)

theorem isKeyChar_ne (h : isKeyChar uc = true) : uc ≠ lineFeed := by
  rintro rfl
  exact absurd h (by decide)

theorem isSpaceChar_dropWhile (h : ∀ uc ∈ value.head?, isSpaceChar uc = false) :
    value.dropWhile isSpaceChar = value := by
  cases value with
  | nil => rfl
  | cons first value => exact List.dropWhile_cons_of_neg (by rw [h first rfl]; exact Bool.false_ne_true)

theorem parseLine_entry (hkey : IsKey key) (hvalue : IsValue value) :
    parseLine (Item.entry key value).line = some (.entry key value) := by
  obtain ⟨first, rest, rfl, hfirst, hrest⟩ := hkey
  obtain ⟨hspace, hmark, -⟩ := isKeyStartChar_plain hfirst
  have hstart : (Item.entry (first :: rest) value).line.dropWhile isSpaceChar =
      first :: (rest ++ ' '.toUInt8 :: '='.toUInt8 :: ' '.toUInt8 :: value) := by
    simp [Item.line, hspace]
  have hname : (rest ++ ' '.toUInt8 :: '='.toUInt8 :: ' '.toUInt8 :: value).takeWhile isKeyChar = rest := by
    rw [List.takeWhile_append_of_pos hrest, List.takeWhile_cons_of_neg (by decide), List.append_nil]
  have hleft : ((rest ++ ' '.toUInt8 :: '='.toUInt8 :: ' '.toUInt8 :: value).dropWhile isKeyChar).dropWhile
      isSpaceChar = '='.toUInt8 :: ' '.toUInt8 :: value := by
    rw [List.dropWhile_append_of_pos hrest, List.dropWhile_cons_of_neg (by decide),
      List.dropWhile_cons_of_pos (by decide), List.dropWhile_cons_of_neg (by decide)]
  have htrim : (' '.toUInt8 :: value).dropWhile isSpaceChar = value := by
    rw [List.dropWhile_cons_of_pos (by decide), isSpaceChar_dropWhile hvalue.first]
  have hwhole : value.takeWhile isValueChar = value := List.takeWhile_eq_self_iff.mpr hvalue.chars
  have hnone : value.dropWhile isValueChar = [] := List.dropWhile_eq_nil_iff.mpr hvalue.chars
  have hend : value.rdropWhile isSpaceChar = value := List.rdropWhile_eq_self_iff.mpr fun hne ↦ by
    rw [hvalue.last _ (List.getLast?_eq_getLast_of_ne_nil hne)]
    exact Bool.false_ne_true
  rw [parseLine, hstart]
  simp only [if_neg hmark, if_pos hfirst, hname, hleft, parseAssignment, if_pos, htrim, parseValue, hnone, hwhole,
    hend]
  rfl

theorem printable_entry (hkey : IsKey key) (hvalue : IsValue value) : (Item.entry key value).Printable := by
  refine ⟨parseLine_entry hkey hvalue, fun hmem ↦ ?_⟩
  obtain ⟨first, rest, rfl, hfirst, hrest⟩ := hkey
  obtain hmem | hmem := List.mem_append.mp hmem
  · obtain hmem | hmem := List.mem_append.mp hmem
    · obtain heq | hmem := List.mem_cons.mp hmem
      · exact (isKeyStartChar_plain hfirst).2.2 heq.symm
      · exact isKeyChar_ne (hrest _ hmem) rfl
    · exact absurd hmem (by decide)
  · exact absurd (hvalue.chars _ hmem) (by decide)

theorem isValue_trimmed (h : ∀ uc ∈ rest.head?, isSpaceChar uc = false) :
    IsValue ((rest.takeWhile isValueChar).rdropWhile isSpaceChar) := by
  have hprefix := (List.rdropWhile_prefix isSpaceChar (rest.takeWhile isValueChar)).trans
    (List.takeWhile_prefix isValueChar)
  refine ⟨fun uc hmem ↦ ?_, fun uc hhead ↦ ?_, fun uc hlast ↦ ?_⟩
  · exact List.all_eq_true.mp List.all_takeWhile uc ((List.rdropWhile_prefix _ _).subset hmem)
  · obtain ⟨more, hmore⟩ := hprefix
    refine h uc ?_
    rw [← hmore, List.head?_append, Option.mem_def.mp hhead]
    rfl
  · obtain ⟨hne, rfl⟩ := List.mem_getLast?_eq_getLast hlast
    exact Bool.eq_false_iff.mpr (List.rdropWhile_last_not _ _ hne)

theorem isSpaceChar_head (rest : Text) : ∀ uc ∈ (rest.dropWhile isSpaceChar).head?, isSpaceChar uc = false := by
  intro uc hhead
  have hnot := List.head?_dropWhile_not isSpaceChar rest
  rw [Option.mem_def.mp hhead] at hnot
  exact hnot

/-- What is read from a line could be written as a line. -/
theorem printable_of_parseLine (hline : lineFeed ∉ line) (h : parseLine line = some item) : item.Printable := by
  have hcomment (heq : parseLine line = some (.comment line)) : (Item.comment line).Printable := ⟨heq, hline⟩
  have hparsed := h
  rw [parseLine] at h
  split at h
  · cases h
    exact hcomment hparsed
  · rename_i first rest _
    split_ifs at h with hmark hfirst
    · cases h
      exact hcomment hparsed
    · have hkey : IsKey (first :: rest.takeWhile isKeyChar) :=
        ⟨first, _, rfl, hfirst, fun uc hmem ↦ List.all_eq_true.mp List.all_takeWhile uc hmem⟩
      unfold parseAssignment at h
      split at h
      · cases h
      · rw [Option.ite_none_right_eq_some, parseValue, Option.ite_none_right_eq_some] at h
        obtain ⟨-, -, h⟩ := h
        cases h
        exact printable_entry hkey (isValue_trimmed (isSpaceChar_head _))

end Lines

end FdeEmugl.Ini
