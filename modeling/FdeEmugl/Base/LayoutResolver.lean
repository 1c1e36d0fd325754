import FdeEmugl.Library.Shelves
import Mathlib.Data.List.Sort

/-!
# Layout of displays

Displays are merged into columns as long as no column gets higher than the highest display. The columns are put in
two rows, and each display gets a position in its column.
-/

namespace FdeEmugl.Layouts

open Shelves
open List (flatMap_append flatMap_cons forall_mem_cons map_append map_cons mem_append_right mem_cons mem_map
  not_mem_nil)

/-! ## The code -/

/-- The sum of two numbers of 32 bits. -/
def add32 (first second : ℕ) : ℕ := (first + second) % 2 ^ 32

structure Rect where
  id : ℕ
  width : ℕ
  height : ℕ
  isChild : Bool
  children : List ℕ
deriving DecidableEq

/-- The displays by their ids, with widths and heights, in the order of the map. -/
abbrev Displays := List (ℕ × ℕ × ℕ)

def Displays.size (displays : Displays) (id : ℕ) : ℕ × ℕ :=
  match displays.find? fun display ↦ display.1 = id with
  | some display => display.2
  | none => (0, 0)

def Displays.maxHeight (displays : Displays) : ℕ := displays.foldl (fun height display ↦ max height display.2.2) 0

def narrower (a b : Rect) : Bool := a.width < b.width ∨ a.width = b.width ∧ a.id > b.id

def higher (a b : Rect) : Bool := a.height > b.height ∨ a.height = b.height ∧ a.id < b.id

/-- A stable sort by the order `less`. -/
def stableSort (less : Rect → Rect → Bool) (row : List Rect) : List Rect := row.insertionSort fun a b ↦ !less b a

def Rect.adopt (parent child : Rect) : Rect :=
  { parent with
    children := parent.children ++ child.id :: child.children
    height := add32 parent.height child.height }

/-- The inner loop: the first rectangle behind `child` that can take it. -/
def adoptFirst (maxHeight : ℕ) (child : Rect) : List Rect → Option (List Rect)
  | [] => none
  | parent :: rest =>
    if add32 child.height parent.height ≤ maxHeight then some (parent.adopt child :: rest)
    else (adoptFirst maxHeight child rest).map (parent :: ·)

/-- The outer loop, with the number of its turns. -/
def combine (maxHeight : ℕ) : ℕ → List Rect → List Rect
  | 0, rectangles => rectangles
  | _ + 1, [] => []
  | turns + 1, rect :: rest =>
    match adoptFirst maxHeight rect rest with
    | some rest => { rect with isChild := true } :: combine maxHeight turns rest
    | none => rect :: combine maxHeight turns rest

/-- The rectangles that are no children of others. -/
def merged (displays : Displays) : List Rect :=
  let rectangles := stableSort narrower (displays.map fun (id, width, height) ↦ ⟨id, width, height, false, []⟩)
  (combine displays.maxHeight rectangles.length rectangles).filter fun rect ↦ !rect.isChild

/-- A row of the rectangles, by the bits of their indices. -/
def rowOf (bits : ℕ → Bool) (rectangles : List Rect) : List Rect :=
  (rectangles.zipIdx.filter fun rect ↦ bits rect.2).map Prod.fst

section Score

variable {Score : Type} (computeScore : ℕ → ℕ → ℕ → ℕ → Score) (less : Score → Score → Bool)

def rowWidth (row : List Rect) : ℕ := row.foldl (fun width rect ↦ add32 width rect.width) 0

def rowHeight (row : List Rect) : ℕ := row.foldl (fun height rect ↦ max height rect.height) 0

def scoreOf (rectangles : List Rect) (bitset : ℕ) : Score :=
  let firstRow := rowOf bitset.testBit rectangles
  let secondRow := rowOf (fun idx ↦ !bitset.testBit idx) rectangles
  let combinedHeight := add32 (rowHeight firstRow) (rowHeight secondRow)
  let combinedWidth := max (rowWidth firstRow) (rowWidth secondRow)
  computeScore combinedWidth combinedHeight (rowWidth firstRow) (rowWidth secondRow)

/-- The best bit set with its score. -/
def bestScore (rectangles : List Rect) : Option (ℕ × Score) :=
  (List.range (2 ^ (rectangles.length - 1))).foldl
    (fun best bitset ↦
      let score := scoreOf computeScore rectangles bitset
      match best with
      | none => some (bitset, score)
      | some (_, bestScore) => if less score bestScore then some (bitset, score) else best)
    none

end Score

abbrev Layout := ℕ → Option (ℕ × ℕ)

def Layout.set (layout : Layout) (id x y : ℕ) : Layout := Function.update layout id (some (x, y))

section Rows

variable (size : ℕ → ℕ × ℕ)

/-- The loop over the children of a rectangle. -/
def placeChildren (width : ℕ) : ℕ → List ℕ → Layout → Layout
  | _, [], layout => layout
  | cumulativeHeight, id :: ids, layout =>
    placeChildren width (add32 cumulativeHeight (size id).2) ids (layout.set id width cumulativeHeight)

/-- The loop over a row. -/
def placeRow (yOffset : ℕ) : ℕ → List Rect → Layout → Layout
  | _, [], layout => layout
  | width, rect :: row, layout =>
    let layout := layout.set rect.id width yOffset
    let layout := placeChildren size width (add32 (size rect.id).2 yOffset) rect.children layout
    placeRow yOffset (add32 width rect.width) row layout

/-- The row comes back sorted. -/
def computeCoordinatesPerRow (row : List Rect) (yOffset : ℕ) : List Rect × Layout :=
  let row := stableSort higher row
  (row, placeRow size yOffset 0 row fun _ ↦ none)

end Rows

/-- The score of a layout is a parameter. There is no result without rectangles, or for more of them than an `int`
has bits to shift over. -/
def resolveLayout {Score : Type} (computeScore : ℕ → ℕ → ℕ → ℕ → Score) (less : Score → Score → Bool)
    (displays : Displays) : Option Layout :=
  let rectangles := merged displays
  if rectangles.length = 0 ∨ 31 < rectangles.length then none
  else
    let inFirst (idx : ℕ) : Bool :=
      match bestScore computeScore less rectangles with
      | some (bitset, _) => bitset.testBit idx
      -- all bits of -1 are set
      | none => true
    let (firstRow, resFirstRow) := computeCoordinatesPerRow displays.size (rowOf inFirst rectangles) 0
    let firstRowHeight := (firstRow.head?.map Rect.height).getD 0
    let (_, resSecRow) :=
      computeCoordinatesPerRow displays.size (rowOf (fun idx ↦ !inFirst idx) rectangles) firstRowHeight
    some fun id ↦ (resFirstRow id).or (resSecRow id)

example : (resolveLayout (fun width height _ _ ↦ max (9 * height) (16 * width) - min (9 * height) (16 * width))
    (fun a b ↦ decide (a < b)) [(0, 1080, 1960), (1, 1080, 1860), (2, 1200, 1300), (3, 1200, 1400)]).map
      (fun layout ↦ [0, 1, 2, 3].map layout) =
    some [some (0, 1860), some (0, 0), some (1080, 1860), some (1080, 0)] := by
  decide +kernel

/-! ## Merging -/

def Rect.members (rect : Rect) : List ℕ := rect.id :: rect.children

/-- The column of a rectangle: the displays one above the other, none of them wider than the lowest. -/
structure Column (size : ℕ → ℕ × ℕ) (maxHeight : ℕ) (rect : Rect) : Prop where
  isChild : rect.isChild = false
  width : rect.width = (size rect.id).1
  height : rect.height = heights size rect.members
  height_le : rect.height ≤ maxHeight
  narrower : ∀ child ∈ rect.children, (size child).1 ≤ rect.width

section Merging

variable {size : ℕ → ℕ × ℕ} {maxHeight : ℕ} {rect child parent : Rect} {rest rectangles : List Rect}

theorem add32_eq {first second : ℕ} (h : first + second < 2 ^ 32) : add32 first second = first + second :=
  Nat.mod_eq_of_lt h

theorem adoptFirst_eq_some {rest' : List Rect} (h : adoptFirst maxHeight child rest = some rest') :
    ∃ before parent after, rest = before ++ parent :: after ∧ rest' = before ++ parent.adopt child :: after ∧
      add32 child.height parent.height ≤ maxHeight := by
  induction rest generalizing rest' with
  | nil => cases h
  | cons parent rest ih =>
    rw [adoptFirst] at h
    split_ifs at h with hfits
    · exact ⟨[], parent, rest, rfl, (Option.some.inj h).symm, hfits⟩
    · obtain ⟨after, hafter, rfl⟩ := Option.map_eq_some_iff.mp h
      obtain ⟨front, other, back, rfl, rfl, hother⟩ := ih hafter
      exact ⟨parent :: front, other, back, rfl, rfl, hother⟩

/-- A column is put on another one. -/
theorem Column.adopt (hparent : Column size maxHeight parent) (hchild : Column size maxHeight child)
    (hwidth : child.width ≤ parent.width) (hfits : add32 child.height parent.height ≤ maxHeight)
    (hsmall : child.height + parent.height < 2 ^ 32) : Column size maxHeight (parent.adopt child) := by
  have hsum : add32 parent.height child.height = parent.height + child.height := add32_eq (by omega)
  rw [add32_eq hsmall] at hfits
  refine ⟨hparent.isChild, hparent.width, ?_, ?_, fun other hother ↦ ?_⟩
  · change add32 parent.height child.height = heights size (parent.members ++ child.members)
    rw [hsum, heights_append, hparent.height, hchild.height]
  · change add32 parent.height child.height ≤ maxHeight
    omega
  · obtain hother | hother := List.mem_append.mp hother
    · exact hparent.narrower other hother
    obtain rfl | hother := mem_cons.mp hother
    · exact hchild.width ▸ hwidth
    · exact Nat.le_trans (hchild.narrower other hother) hwidth

/-- Every display stays in exactly one column. -/
theorem combine_spec (turns : ℕ) (hturns : rectangles.length ≤ turns)
    (hcolumns : ∀ rect ∈ rectangles, Column size maxHeight rect)
    (hsorted : (rectangles.map Rect.width).Pairwise (· ≤ ·))
    (hsmall : heights size (rectangles.flatMap Rect.members) < 2 ^ 32) :
    (((combine maxHeight turns rectangles).filter fun rect ↦ !rect.isChild).flatMap Rect.members).Perm
        (rectangles.flatMap Rect.members) ∧
      ∀ rect ∈ (combine maxHeight turns rectangles).filter fun rect ↦ !rect.isChild, Column size maxHeight rect := by
  induction turns generalizing rectangles with
  | zero =>
    obtain rfl := List.length_eq_zero_iff.mp (Nat.le_zero.mp hturns)
    exact ⟨.nil, fun _ h ↦ absurd h not_mem_nil⟩
  | succ turns ih =>
    cases rectangles with
    | nil => exact ⟨.nil, fun _ h ↦ absurd h not_mem_nil⟩
    | cons rect rest =>
      obtain ⟨hrect, hrest⟩ := forall_mem_cons.mp hcolumns
      obtain ⟨hfirst, htail⟩ := List.pairwise_cons.mp hsorted
      rw [List.forall_mem_map] at hfirst
      rw [List.length_cons] at hturns
      rw [flatMap_cons, heights_append] at hsmall
      rw [combine]
      cases hadopt : adoptFirst maxHeight rect rest with
      | none =>
        obtain ⟨hperm, hkept⟩ := ih (by omega) hrest htail (by omega)
        dsimp only
        rw [List.filter_cons_of_pos (by rw [hrect.isChild]; rfl)]
        exact ⟨hperm.append_left rect.members, forall_mem_cons.mpr ⟨hrect, hkept⟩⟩
      | some rest' =>
        obtain ⟨before, parent, after, rfl, rfl, hfits⟩ := adoptFirst_eq_some hadopt
        have hparent := hrest parent (mem_append_right before List.mem_cons_self)
        simp only [flatMap_append, flatMap_cons, heights_append, ← hrect.height, ← hparent.height] at hsmall
        have hadopted : Column size maxHeight (parent.adopt rect) :=
          hparent.adopt hrect (hfirst parent (mem_append_right before List.mem_cons_self)) hfits (by omega)
        have hheight : heights size (parent.adopt rect).members = parent.height + rect.height := by
          rw [hparent.height, hrect.height, ← heights_append]
          rfl
        dsimp only
        rw [List.filter_cons_of_neg Bool.false_ne_true]
        have hmembers : (parent.adopt rect).members = parent.members ++ rect.members := rfl
        have hwidths : (before ++ parent.adopt rect :: after).map Rect.width =
            (before ++ parent :: after).map Rect.width := by
          rw [map_append, map_append]
          rfl
        rw [← hwidths] at htail
        obtain ⟨hbefore, hafter⟩ := List.forall_mem_append.mp hrest
        have hlength : (before ++ parent.adopt rect :: after).length ≤ turns := by
          rw [List.length_append, List.length_cons] at hturns ⊢
          omega
        have hcolumns' : ∀ other ∈ before ++ parent.adopt rect :: after, Column size maxHeight other :=
          List.forall_mem_append.mpr
            ⟨hbefore, forall_mem_cons.mpr ⟨hadopted, (forall_mem_cons.mp hafter).2⟩⟩
        have hsmall' : heights size ((before ++ parent.adopt rect :: after).flatMap Rect.members) < 2 ^ 32 := by
          simp only [flatMap_append, flatMap_cons, heights_append, hheight]
          omega
        obtain ⟨hperm, hkept⟩ := ih hlength hcolumns' htail hsmall'
        refine ⟨hperm.trans ?_, hkept⟩
        simp only [flatMap_append, flatMap_cons, hmembers, List.append_assoc]
        exact ((List.perm_append_comm_assoc _ _ _).append_left _).trans (List.perm_append_comm_assoc _ _ _)

end Merging

/-! ## Sorting -/

section Sorting

theorem stableSort_perm (less : Rect → Rect → Bool) (row : List Rect) : (stableSort less row).Perm row :=
  List.perm_insertionSort _ row

/-- What is sorted by a key and then by ids is sorted by the key. -/
theorem stableSort_sorted {less : Rect → Rect → Bool} {key : Rect → Rect → Prop}
    (htotal : ∀ a b, less a b = false ∨ less b a = false)
    (htrans : ∀ a b c, less b a = false → less c b = false → less c a = false)
    (hkey : ∀ a b, less b a = false → key a b) (row : List Rect) : (stableSort less row).Pairwise key := by
  have hsymm : Std.Total fun a b ↦ (!less b a) = true := ⟨fun a b ↦ by
    simpa only [Bool.not_eq_true'] using (htotal a b).symm⟩
  have htransitive : IsTrans Rect fun a b ↦ (!less b a) = true := ⟨fun a b c hab hbc ↦ by
    rw [Bool.not_eq_true'] at hab hbc ⊢
    exact htrans a b c hab hbc⟩
  refine (List.pairwise_insertionSort (fun a b ↦ (!less b a) = true) row).imp fun {a b} hab ↦ hkey a b ?_
  rwa [Bool.not_eq_true'] at hab

theorem narrower_sorted (row : List Rect) : ((stableSort narrower row).map Rect.width).Pairwise (· ≤ ·) := by
  rw [List.pairwise_map]
  refine stableSort_sorted (fun a b ↦ ?_) (fun a b c hab hbc ↦ ?_) (fun a b hab ↦ ?_) row <;>
    simp only [narrower, decide_eq_false_iff_not] at * <;> omega

theorem higher_sorted (row : List Rect) : (stableSort higher row).Pairwise fun a b ↦ b.height ≤ a.height := by
  refine stableSort_sorted (fun a b ↦ ?_) (fun a b c hab hbc ↦ ?_) (fun a b hab ↦ ?_) row <;>
    simp only [higher, decide_eq_false_iff_not] at * <;> omega

end Sorting

/-! ## Displays -/

section Displays

variable {displays : Displays}

section

variable (hnodup : (displays.map Prod.fst).Nodup)
include hnodup

theorem size_eq {display : ℕ × ℕ × ℕ} (h : display ∈ displays) : displays.size display.1 = display.2 := by
  have hfind : displays.find? (fun other ↦ decide (other.1 = display.1)) = some display := by
    induction displays with
    | nil => cases h
    | cons first displays ih =>
      rw [map_cons, List.nodup_cons] at hnodup
      obtain rfl | h := mem_cons.mp h
      · exact List.find?_cons_of_pos (decide_eq_true rfl)
      · have hne : first.1 ≠ display.1 := fun heq ↦ hnodup.1 (heq ▸ List.mem_map_of_mem h)
        rw [List.find?_cons_of_neg (by rwa [decide_eq_true_eq])]
        exact ih hnodup.2 h
  rw [Displays.size, hfind]

theorem heights_ids :
    heights displays.size (displays.map Prod.fst) = (displays.map fun display ↦ display.2.2).sum := by
  rw [heights, List.map_map]
  exact congrArg List.sum (List.map_congr_left fun display hdisplay ↦ congrArg Prod.snd (size_eq hnodup hdisplay))

theorem widths_ids : widths displays.size (displays.map Prod.fst) = (displays.map fun display ↦ display.2.1).sum := by
  rw [widths, List.map_map]
  exact congrArg List.sum (List.map_congr_left fun display hdisplay ↦ congrArg Prod.fst (size_eq hnodup hdisplay))

end

theorem foldl_max_spec {α : Type*} (value : α → ℕ) (items : List α) (start : ℕ) :
    start ≤ items.foldl (fun height item ↦ max height (value item)) start ∧
      (∀ item ∈ items, value item ≤ items.foldl (fun height item ↦ max height (value item)) start) ∧
      (items.foldl (fun height item ↦ max height (value item)) start = start ∨
        ∃ item ∈ items, items.foldl (fun height item ↦ max height (value item)) start = value item) := by
  induction items generalizing start with
  | nil => exact ⟨Nat.le_refl _, fun _ h ↦ absurd h not_mem_nil, .inl rfl⟩
  | cons first items ih =>
    obtain ⟨hstart, hitems, hvalue⟩ := ih (max start (value first))
    rw [List.foldl_cons]
    refine ⟨by omega, forall_mem_cons.mpr ⟨by omega, hitems⟩, ?_⟩
    obtain hsame | ⟨item, hitem, hsame⟩ := hvalue
    · rw [hsame]
      obtain hle | hle := Nat.le_total (value first) start
      · exact .inl (by omega)
      · exact .inr ⟨first, List.mem_cons_self, by omega⟩
    · exact .inr ⟨item, List.mem_cons_of_mem first hitem, hsame⟩

theorem le_maxHeight {display : ℕ × ℕ × ℕ} (h : display ∈ displays) : display.2.2 ≤ displays.maxHeight :=
  (foldl_max_spec (fun display : ℕ × ℕ × ℕ ↦ display.2.2) displays 0).2.1 display h

theorem exists_maxHeight (hne : displays ≠ []) : ∃ display ∈ displays, displays.maxHeight = display.2.2 := by
  obtain hzero | hsome := (foldl_max_spec (fun display : ℕ × ℕ × ℕ ↦ display.2.2) displays 0).2.2
  · obtain ⟨display, hdisplay⟩ := List.exists_mem_of_ne_nil displays hne
    have hle := le_maxHeight hdisplay
    rw [← Displays.maxHeight] at hzero
    exact ⟨display, hdisplay, by omega⟩
  · exact hsome

/-- The columns have all displays. -/
theorem merged_spec (hnodup : (displays.map Prod.fst).Nodup)
    (hheights : (displays.map fun display ↦ display.2.2).sum < 2 ^ 32) :
    ((merged displays).flatMap Rect.members).Perm (displays.map Prod.fst) ∧
      ∀ rect ∈ merged displays, Column displays.size displays.maxHeight rect := by
  have hperm := stableSort_perm narrower
    (displays.map fun (id, width, height) ↦ (⟨id, width, height, false, []⟩ : Rect))
  have hids : ((stableSort narrower
      (displays.map fun (id, width, height) ↦ (⟨id, width, height, false, []⟩ : Rect))).flatMap Rect.members).Perm
      (displays.map Prod.fst) := by
    refine (hperm.flatMap_right Rect.members).trans ?_
    rw [List.flatMap_map]
    exact .of_eq (List.flatMap_pure_eq_map Prod.fst displays)
  have hcolumns : ∀ rect ∈ stableSort narrower
      (displays.map fun (id, width, height) ↦ (⟨id, width, height, false, []⟩ : Rect)),
      Column displays.size displays.maxHeight rect := by
    intro rect hrect
    obtain ⟨display, hdisplay, rfl⟩ := mem_map.mp (hperm.mem_iff.mp hrect)
    have hsize := size_eq hnodup hdisplay
    refine ⟨rfl, ?_, ?_, le_maxHeight hdisplay, fun child hchild ↦ absurd hchild not_mem_nil⟩
    · exact (congrArg Prod.fst hsize).symm
    · exact (congrArg Prod.snd hsize).symm
  have hsmall := heights_ids hnodup
  rw [← hsmall, ← heights_perm hids] at hheights
  obtain ⟨hkept, hgood⟩ := combine_spec _ (Nat.le_refl _) hcolumns (narrower_sorted _) hheights
  exact ⟨hkept.trans hids, hgood⟩

end Displays

/-! ## Positions -/

/-- The position of each box, under its key. -/
def Layout.setAll (items : List (ℕ × Box)) (layout : Layout) : Layout :=
  items.foldl (fun layout item ↦ layout.set item.1 item.2.x item.2.y) layout

def Rect.column (rect : Rect) : ℕ × List ℕ := (rect.id, rect.children)

section Positions

variable {size : ℕ → ℕ × ℕ} {maxHeight : ℕ} {rect : Rect} {row rectangles : List Rect}

theorem setAll_append (first second : List (ℕ × Box)) (layout : Layout) :
    layout.setAll (first ++ second) = (layout.setAll first).setAll second := List.foldl_append

theorem setAll_of_notMem {items : List (ℕ × Box)} {id : ℕ} (h : id ∉ items.map Prod.fst) (layout : Layout) :
    layout.setAll items id = layout id := by
  induction items generalizing layout with
  | nil => rfl
  | cons item items ih =>
    rw [map_cons, mem_cons, not_or] at h
    exact (ih h.2 _).trans (Function.update_of_ne h.1 _ _)

theorem setAll_of_mem {items : List (ℕ × Box)} (hnodup : (items.map Prod.fst).Nodup) {item : ℕ × Box}
    (h : item ∈ items) (layout : Layout) : layout.setAll items item.1 = some (item.2.x, item.2.y) := by
  induction items generalizing layout with
  | nil => cases h
  | cons first items ih =>
    rw [map_cons, List.nodup_cons] at hnodup
    obtain rfl | h := mem_cons.mp h
    · exact (setAll_of_notMem hnodup.1 _).trans (Function.update_self _ _ _)
    · exact ih hnodup.2 h _

/-- Positions that are looked up in one layout after the other. -/
theorem or_setAll {first second : List (ℕ × Box)} (hnodup : ((first ++ second).map Prod.fst).Nodup) (id : ℕ) :
    (Layout.setAll first (fun _ ↦ none) id).or (Layout.setAll second (fun _ ↦ none) id) =
      Layout.setAll (first ++ second) (fun _ ↦ none) id := by
  rw [map_append, List.nodup_append] at hnodup
  obtain ⟨_, hsecond, hdisjoint⟩ := hnodup
  rw [setAll_append]
  by_cases hmem : id ∈ second.map Prod.fst
  · have hnot : id ∉ first.map Prod.fst := fun hfirst ↦ hdisjoint id hfirst id hmem rfl
    obtain ⟨item, hitem, rfl⟩ := mem_map.mp hmem
    rw [setAll_of_notMem hnot, Option.none_or, setAll_of_mem hsecond hitem, setAll_of_mem hsecond hitem]
  · rw [setAll_of_notMem hmem, setAll_of_notMem hmem, Option.or_none]

theorem placeChildren_eq (width : ℕ) {y : ℕ} {ids : List ℕ} (h : y + heights size ids < 2 ^ 32) (layout : Layout) :
    placeChildren size width y ids layout = layout.setAll (stack size width y ids) := by
  induction ids generalizing y layout with
  | nil => rfl
  | cons id ids ih =>
    rw [heights_cons] at h
    rw [placeChildren, add32_eq (by omega), ih (by omega)]
    rfl

/-- The loop over a row puts its columns on a shelf. -/
theorem placeRow_eq {y x : ℕ} (hcolumns : ∀ rect ∈ row, Column size maxHeight rect)
    (hheights : ∀ rect ∈ row, y + rect.height < 2 ^ 32)
    (hwidths : x + widths size (row.map Rect.id) < 2 ^ 32) (layout : Layout) :
    placeRow size y x row layout = layout.setAll (shelf size y x (row.map Rect.column)) := by
  induction row generalizing x layout with
  | nil => rfl
  | cons rect row ih =>
    obtain ⟨hrect, hrow⟩ := forall_mem_cons.mp hcolumns
    obtain ⟨hheight, hheights⟩ := forall_mem_cons.mp hheights
    rw [map_cons, widths_cons] at hwidths
    rw [hrect.height, Rect.members, heights_cons] at hheight
    have hfirst : add32 (size rect.id).2 y = y + (size rect.id).2 := by
      rw [add32_eq (by omega), Nat.add_comm]
    have hnext : add32 x rect.width = x + (size rect.id).1 := by
      rw [hrect.width, add32_eq (by omega)]
    rw [placeRow, hfirst, hnext, placeChildren_eq x (by omega), ih hrow hheights (by omega), map_cons]
    exact (setAll_append _ _ _).symm

theorem rows_perm (bits : ℕ → Bool) (rectangles : List Rect) :
    (rowOf bits rectangles ++ rowOf (fun idx ↦ !bits idx) rectangles).Perm rectangles := by
  have hsplit := (List.filter_append_perm (fun rect : Rect × ℕ ↦ bits rect.2) rectangles.zipIdx).map Prod.fst
  rw [map_append, List.zipIdx_map_fst] at hsplit
  exact hsplit

theorem heights_le (size : ℕ → ℕ × ℕ) (h : rect ∈ row) :
    heights size rect.members ≤ heights size (row.flatMap Rect.members) := by
  obtain ⟨before, after, rfl⟩ := List.append_of_mem h
  simp only [flatMap_append, flatMap_cons, heights_append]
  omega

theorem widths_le (size : ℕ → ℕ × ℕ) (row : List Rect) :
    widths size (row.map Rect.id) ≤ widths size (row.flatMap Rect.members) := by
  induction row with
  | nil => exact Nat.le_refl _
  | cons rect row ih =>
    rw [map_cons, flatMap_cons, widths_cons, widths_append, Rect.members, widths_cons]
    omega

/-- The first rectangle of a sorted row is the highest. -/
theorem le_firstRowHeight {rect : Rect} (h : rect ∈ stableSort higher row) :
    rect.height ≤ ((stableSort higher row).head?.map Rect.height).getD 0 := by
  have hsorted := higher_sorted row
  cases hrow : stableSort higher row with
  | nil =>
    rw [hrow] at h
    cases h
  | cons first rest =>
    rw [hrow] at h hsorted
    obtain rfl | h := mem_cons.mp h
    · exact Nat.le_refl _
    · exact (List.pairwise_cons.mp hsorted).1 rect h

theorem flatMap_columnKeys (row : List Rect) :
    (row.map Rect.column).flatMap columnKeys = row.flatMap Rect.members := by
  rw [List.flatMap_map]
  rfl

end Positions

/-! ## The layout -/

/-- All displays and no others have a position, where they do not overlap. -/
structure Resolves (displays : Displays) (layout : Layout) : Prop where
  keys : ∀ id, (layout id).isSome = true ↔ id ∈ displays.map Prod.fst
  apart : ∀ first ∈ displays, ∀ second ∈ displays, first.1 ≠ second.1 →
    ∀ place place', layout first.1 = some place → layout second.1 = some place' →
      Box.Apart ⟨place.1, place.2, first.2.1, first.2.2⟩ ⟨place'.1, place'.2, second.2.1, second.2.2⟩

/-- No column is higher than the highest display, or has a display wider than its lowest one. -/
structure MergedWithin (displays : Displays) (rect : Rect) : Prop where
  height : ∃ display ∈ displays, heights displays.size (rect.id :: rect.children) ≤ display.2.2
  narrower : ∀ child ∈ rect.children, (displays.size child).1 ≤ (displays.size rect.id).1

section Layout

variable {displays : Displays}

/-- Boxes that do not overlap are a layout, if they are those of the displays. -/
theorem resolves_setAll (hnodup : (displays.map Prod.fst).Nodup) {items : List (ℕ × Box)}
    (hkeys : (items.map Prod.fst).Perm (displays.map Prod.fst))
    (hsizes : ∀ item ∈ items, (item.2.width, item.2.height) = displays.size item.1)
    (hapart : items.Pairwise ItemsApart) : Resolves displays (Layout.setAll items fun _ ↦ none) := by
  have hitems : (items.map Prod.fst).Nodup := hkeys.nodup_iff.mpr hnodup
  have hbox (display : ℕ × ℕ × ℕ) (hdisplay : display ∈ displays) : ∃ box : Box, (display.1, box) ∈ items ∧
      Layout.setAll items (fun _ ↦ none) display.1 = some (box.x, box.y) ∧
      (box.width, box.height) = display.2 := by
    obtain ⟨⟨id, box⟩, hitem, rfl⟩ := mem_map.mp (hkeys.mem_iff.mpr (List.mem_map_of_mem hdisplay))
    exact ⟨box, hitem, setAll_of_mem hitems hitem _, (hsizes _ hitem).trans (size_eq hnodup hdisplay)⟩
  refine ⟨fun id ↦ ?_, fun first hfirst second hsecond hne place place' hplace hplace' ↦ ?_⟩
  · rw [← hkeys.mem_iff]
    constructor
    · intro hsome
      by_contra hnot
      rw [setAll_of_notMem hnot] at hsome
      cases hsome
    · intro hmem
      obtain ⟨item, hitem, rfl⟩ := mem_map.mp hmem
      rw [setAll_of_mem hitems hitem]
      rfl
  · obtain ⟨box, hmem, hlayout, hsize⟩ := hbox first hfirst
    obtain ⟨box', hmem', hlayout', hsize'⟩ := hbox second hsecond
    have hitem : (first.1, box) ≠ (second.1, box') := fun heq ↦ hne (Prod.mk.inj heq).1
    rw [← Option.some.inj (hlayout.symm.trans hplace), ← Option.some.inj (hlayout'.symm.trans hplace'), ← hsize,
      ← hsize']
    exact hapart.forall hmem hmem' hitem

/-- The two rows of a division are shelves. -/
theorem rows_eq (hnodup : (displays.map Prod.fst).Nodup)
    (hwidths : (displays.map fun display ↦ display.2.1).sum < 2 ^ 32)
    (hheights : (displays.map fun display ↦ display.2.2).sum < 2 ^ 32) (bits : ℕ → Bool) :
    ∃ items, (items.map Prod.fst).Perm (displays.map Prod.fst) ∧
      (∀ item ∈ items, (item.2.width, item.2.height) = displays.size item.1) ∧ items.Pairwise ItemsApart ∧
      ∀ firstRow secondRow resFirstRow resSecRow,
        computeCoordinatesPerRow displays.size (rowOf bits (merged displays)) 0 = (firstRow, resFirstRow) →
        computeCoordinatesPerRow displays.size (rowOf (fun idx ↦ !bits idx) (merged displays))
          ((firstRow.head?.map Rect.height).getD 0) = (secondRow, resSecRow) →
        (fun id ↦ (resFirstRow id).or (resSecRow id)) = Layout.setAll items fun _ ↦ none := by
  obtain ⟨hids, hcolumns⟩ := merged_spec hnodup hheights
  set firstRow := stableSort higher (rowOf bits (merged displays)) with hfirstRow
  set secondRow := stableSort higher (rowOf (fun idx ↦ !bits idx) (merged displays)) with hsecondRow
  set height := (firstRow.head?.map Rect.height).getD 0 with hheight
  have hrows : (firstRow ++ secondRow).Perm (merged displays) :=
    ((stableSort_perm higher _).append (stableSort_perm higher _)).trans (rows_perm bits _)
  have hcolumn (rect : Rect) (hrect : rect ∈ firstRow ++ secondRow) :
      Column displays.size displays.maxHeight rect := hcolumns rect (hrows.mem_iff.mp hrect)
  have hmembers : (firstRow.flatMap Rect.members ++ secondRow.flatMap Rect.members).Perm (displays.map Prod.fst) := by
    rw [← flatMap_append]
    exact (hrows.flatMap_right Rect.members).trans hids
  -- what is placed stays below 2 ^ 32
  rw [← heights_ids hnodup, ← heights_perm hmembers, heights_append] at hheights
  rw [← widths_ids hnodup, ← widths_perm hmembers, widths_append] at hwidths
  have hheight_le : height ≤ heights displays.size (firstRow.flatMap Rect.members) := by
    cases hrow : firstRow with
    | nil =>
      rw [hheight, hrow]
      exact Nat.zero_le _
    | cons rect rest =>
      have hmem : rect ∈ firstRow := hrow ▸ List.mem_cons_self
      have hle := heights_le displays.size hmem
      rw [← (hcolumn rect (List.mem_append_left _ hmem)).height, hrow] at hle
      rw [hheight, hrow]
      exact hle
  have hfirst : placeRow displays.size 0 0 firstRow (fun _ ↦ none) =
      Layout.setAll (shelf displays.size 0 0 (firstRow.map Rect.column)) fun _ ↦ none := by
    refine placeRow_eq (fun rect hrect ↦ hcolumn rect (List.mem_append_left _ hrect)) (fun rect hrect ↦ ?_) ?_ _
    · have hle := heights_le displays.size hrect
      rw [← (hcolumn rect (List.mem_append_left _ hrect)).height] at hle
      omega
    · have hle := widths_le displays.size firstRow
      omega
  have hsecond : placeRow displays.size height 0 secondRow (fun _ ↦ none) =
      Layout.setAll (shelf displays.size height 0 (secondRow.map Rect.column)) fun _ ↦ none := by
    refine placeRow_eq (fun rect hrect ↦ hcolumn rect (mem_append_right _ hrect)) (fun rect hrect ↦ ?_) ?_ _
    · have hle := heights_le displays.size hrect
      rw [← (hcolumn rect (mem_append_right _ hrect)).height] at hle
      omega
    · have hle := widths_le displays.size secondRow
      omega
  have hkeys : (shelf displays.size 0 0 (firstRow.map Rect.column) ++
      shelf displays.size height 0 (secondRow.map Rect.column)).map Prod.fst =
      firstRow.flatMap Rect.members ++ secondRow.flatMap Rect.members := by
    rw [map_append, keys_shelf, keys_shelf, flatMap_columnKeys, flatMap_columnKeys]
  refine ⟨shelf displays.size 0 0 (firstRow.map Rect.column) ++
    shelf displays.size height 0 (secondRow.map Rect.column), ?_, fun item hitem ↦ ?_, ?_, ?_⟩
  · rw [hkeys]
    exact hmembers
  · obtain hitem | hitem := List.mem_append.mp hitem
    · exact sizes_shelf hitem
    · exact sizes_shelf hitem
  · have hfits (top : ℕ) (rect : Rect) (hrect : rect ∈ firstRow ++ secondRow) (htop : rect.height ≤ top) :
        Fits displays.size top rect.column := by
      have h := hcolumn rect hrect
      refine ⟨fun child hchild ↦ h.width ▸ h.narrower child hchild, ?_⟩
      rw [h.height] at htop
      exact htop
    have hlow : ∀ column ∈ firstRow.map Rect.column, Fits displays.size height column :=
      List.forall_mem_map.mpr fun rect hrect ↦
        hfits height rect (List.mem_append_left _ hrect) (le_firstRowHeight hrect)
    have hhigh : ∀ column ∈ secondRow.map Rect.column, Fits displays.size displays.maxHeight column :=
      List.forall_mem_map.mpr fun rect hrect ↦
        hfits displays.maxHeight rect (mem_append_right _ hrect)
          (hcolumn rect (mem_append_right _ hrect)).height_le
    exact shelves_apart hlow hhigh
  · intro row row' res res' hres hres'
    cases hres
    cases hres'
    funext id
    rw [← hfirstRow, ← hsecondRow, ← hheight, hfirst, hsecond]
    refine or_setAll ?_ id
    rw [hkeys]
    exact hmembers.nodup_iff.mpr hnodup

/-- The layout of displays with different ids, whose widths and heights have sums of 32 bits, does not overlap for any
score. -/
theorem resolveLayout_spec {Score : Type} (computeScore : ℕ → ℕ → ℕ → ℕ → Score) (less : Score → Score → Bool)
    (hne : displays ≠ []) (hnodup : (displays.map Prod.fst).Nodup)
    (hwidths : (displays.map fun display ↦ display.2.1).sum < 2 ^ 32)
    (hheights : (displays.map fun display ↦ display.2.2).sum < 2 ^ 32) (hmerged : (merged displays).length ≤ 31) :
    (∀ rect ∈ merged displays, MergedWithin displays rect) ∧
      ∃ layout, resolveLayout computeScore less displays = some layout ∧ Resolves displays layout := by
  obtain ⟨hids, hcolumns⟩ := merged_spec hnodup hheights
  refine ⟨fun rect hrect ↦ ?_, ?_⟩
  · have hcolumn := hcolumns rect hrect
    obtain ⟨display, hdisplay, hheight⟩ := exists_maxHeight hne
    refine ⟨⟨display, hdisplay, ?_⟩, fun child hchild ↦ hcolumn.width ▸ hcolumn.narrower child hchild⟩
    rw [← hheight, ← Rect.members, ← hcolumn.height]
    exact hcolumn.height_le
  · have hsome : ¬((merged displays).length = 0 ∨ 31 < (merged displays).length) := by
      rintro (hzero | hmany)
      · rw [List.length_eq_zero_iff.mp hzero] at hids
        exact hne (List.map_eq_nil_iff.mp (List.nil_perm.mp hids))
      · omega
    rw [resolveLayout, if_neg hsome]
    obtain ⟨items, hkeys, hsizes, hapart, hlayout⟩ := rows_eq hnodup hwidths hheights fun idx ↦
      match bestScore computeScore less (merged displays) with
      | some (bitset, _) => bitset.testBit idx
      | none => true
    exact ⟨_, rfl, hlayout _ _ _ _ rfl rfl ▸ resolves_setAll hnodup hkeys hsizes hapart⟩

end Layout

/-- A display that is merged, and a score that is the same for all layouts. -/
theorem resolveLayout_spec_small :
    (∀ rect ∈ merged [(0, 1080, 1960), (1, 1080, 1860), (2, 100, 100)],
      MergedWithin [(0, 1080, 1960), (1, 1080, 1860), (2, 100, 100)] rect) ∧
      ∃ layout, resolveLayout (fun _ _ _ _ ↦ 0) (fun a b : ℕ ↦ decide (a < b))
          [(0, 1080, 1960), (1, 1080, 1860), (2, 100, 100)] = some layout ∧
        Resolves [(0, 1080, 1960), (1, 1080, 1860), (2, 100, 100)] layout :=
  resolveLayout_spec _ _ (List.cons_ne_nil _ _) (by decide) (by decide) (by decide) (by decide +kernel)

end FdeEmugl.Layouts
