import Mathlib.Algebra.BigOperators.Group.List.Basic
import Mathlib.Algebra.GroupWithZero.Nat
import Mathlib.Data.List.Pairwise

/-!
# Boxes on shelves

Boxes are put one above the other in columns, and columns next to each other on a shelf. A column is as wide as its
lowest box, and no box in it is wider. Boxes that are placed this way do not overlap.
-/

namespace FdeEmugl.Shelves

structure Box where
  x : ℕ
  y : ℕ
  width : ℕ
  height : ℕ

namespace Box

def Apart (first second : Box) : Prop :=
  first.x + first.width ≤ second.x ∨ second.x + second.width ≤ first.x ∨ first.y + first.height ≤ second.y ∨
    second.y + second.height ≤ first.y

theorem Apart.symm {first second : Box} (h : Apart first second) : Apart second first := by
  unfold Apart at h ⊢
  omega

/-- The box is between the four bounds. -/
structure Within (box : Box) (left right bottom top : ℕ) : Prop where
  left_le : left ≤ box.x
  le_right : box.x + box.width ≤ right
  bottom_le : bottom ≤ box.y
  le_top : box.y + box.height ≤ top

end Box

variable {ι : Type*} (sizes : ι → ℕ × ℕ)

/-- What the keys are as high as together. -/
def heights (keys : List ι) : ℕ := (keys.map fun key ↦ (sizes key).2).sum

def widths (keys : List ι) : ℕ := (keys.map fun key ↦ (sizes key).1).sum

/-- Boxes one above the other. -/
def stack (x : ℕ) : ℕ → List ι → List (ι × Box)
  | _, [] => []
  | y, key :: keys => (key, ⟨x, y, (sizes key).1, (sizes key).2⟩) :: stack x (y + (sizes key).2) keys

/-- Columns next to each other, each with its lowest box first. -/
def shelf (y : ℕ) : ℕ → List (ι × List ι) → List (ι × Box)
  | _, [] => []
  | x, (key, others) :: columns => stack sizes x y (key :: others) ++ shelf y (x + (sizes key).1) columns

/-- The boxes of two items do not overlap. -/
def ItemsApart (first second : ι × Box) : Prop := first.2.Apart second.2

instance itemsApart_symm : Std.Symm (ItemsApart (ι := ι)) := ⟨fun _ _ ↦ Box.Apart.symm⟩

variable {sizes}

variable {x y : ℕ} {item : ι × Box} {columns : List (ι × List ι)} {height : ℕ}

@[simp] theorem heights_cons (key : ι) (keys : List ι) :
    heights sizes (key :: keys) = (sizes key).2 + heights sizes keys := rfl

@[simp] theorem heights_append (first second : List ι) :
    heights sizes (first ++ second) = heights sizes first + heights sizes second := by
  rw [heights, List.map_append, List.sum_append, heights, heights]

theorem heights_perm {first second : List ι} (h : first.Perm second) : heights sizes first = heights sizes second :=
  (h.map _).sum_eq

@[simp] theorem widths_cons (key : ι) (keys : List ι) :
    widths sizes (key :: keys) = (sizes key).1 + widths sizes keys := rfl

@[simp] theorem widths_append (first second : List ι) :
    widths sizes (first ++ second) = widths sizes first + widths sizes second := by
  rw [widths, List.map_append, List.sum_append, widths, widths]

theorem widths_perm {first second : List ι} (h : first.Perm second) : widths sizes first = widths sizes second :=
  (h.map _).sum_eq

/-! ## Columns -/

theorem keys_stack (x y : ℕ) (keys : List ι) : (stack sizes x y keys).map Prod.fst = keys := by
  induction keys generalizing y with
  | nil => rfl
  | cons key keys ih => rw [stack, List.map_cons, ih]

theorem sizes_stack {keys : List ι} (h : item ∈ stack sizes x y keys) :
    (item.2.width, item.2.height) = sizes item.1 := by
  induction keys generalizing y with
  | nil => cases h
  | cons key keys ih =>
    obtain rfl | h := List.mem_cons.mp h
    · rfl
    · exact ih h

theorem stack_within {width : ℕ} {keys : List ι} (hwidth : ∀ key ∈ keys, (sizes key).1 ≤ width)
    (h : item ∈ stack sizes x y keys) : item.2.Within x (x + width) y (y + heights sizes keys) := by
  induction keys generalizing y with
  | nil => cases h
  | cons key keys ih =>
    obtain ⟨hkey, hkeys⟩ := List.forall_mem_cons.mp hwidth
    rw [heights_cons]
    obtain rfl | h := List.mem_cons.mp h
    · exact ⟨Nat.le_refl _, Nat.add_le_add_left hkey _, Nat.le_refl _, by dsimp only; omega⟩
    · obtain ⟨hleft, hright, hbottom, htop⟩ := ih hkeys h
      exact ⟨hleft, hright, by omega, by omega⟩

theorem le_stack {keys : List ι} (h : item ∈ stack sizes x y keys) : y ≤ item.2.y := by
  induction keys generalizing y with
  | nil => cases h
  | cons key keys ih =>
    obtain rfl | h := List.mem_cons.mp h
    · exact Nat.le_refl _
    · exact Nat.le_trans (Nat.le_add_right _ _) (ih h)

theorem stack_apart (x y : ℕ) (keys : List ι) : (stack sizes x y keys).Pairwise ItemsApart := by
  induction keys generalizing y with
  | nil => exact .nil
  | cons key keys ih =>
    exact List.pairwise_cons.mpr ⟨fun item hitem ↦ .inr (.inr (.inl (le_stack hitem))), ih _⟩

/-! ## Shelves -/

/-- The keys of a column. -/
def columnKeys (column : ι × List ι) : List ι := column.1 :: column.2

/-- No box of a column is wider than its lowest one, and the column is not higher than the shelf. -/
def Fits (sizes : ι → ℕ × ℕ) (height : ℕ) (column : ι × List ι) : Prop :=
  (∀ key ∈ column.2, (sizes key).1 ≤ (sizes column.1).1) ∧ heights sizes (columnKeys column) ≤ height

theorem keys_shelf (x y : ℕ) (columns : List (ι × List ι)) :
    (shelf sizes y x columns).map Prod.fst = columns.flatMap columnKeys := by
  induction columns generalizing x with
  | nil => rfl
  | cons column columns ih =>
    rw [shelf, List.map_append, keys_stack, ih, List.flatMap_cons]
    rfl

theorem sizes_shelf (h : item ∈ shelf sizes y x columns) : (item.2.width, item.2.height) = sizes item.1 := by
  induction columns generalizing x with
  | nil => cases h
  | cons column columns ih =>
    obtain h | h := List.mem_append.mp h
    · exact sizes_stack h
    · exact ih h

theorem shelf_within (hfits : ∀ column ∈ columns, Fits sizes height column) (h : item ∈ shelf sizes y x columns) :
    item.2.Within x (x + widths sizes (columns.map Prod.fst)) y (y + height) := by
  induction columns generalizing x with
  | nil => cases h
  | cons column columns ih =>
    obtain ⟨⟨hwidth, hheight⟩, hrest⟩ := List.forall_mem_cons.mp hfits
    rw [List.map_cons, widths_cons]
    obtain h | h := List.mem_append.mp h
    · have hkeys : ∀ key ∈ columnKeys column, (sizes key).1 ≤ (sizes column.1).1 :=
        List.forall_mem_cons.mpr ⟨Nat.le_refl _, hwidth⟩
      obtain ⟨hleft, hright, hbottom, htop⟩ := stack_within hkeys h
      exact ⟨hleft, by omega, hbottom, Nat.le_trans htop (Nat.add_le_add_left hheight y)⟩
    · obtain ⟨hleft, hright, hbottom, htop⟩ := ih hrest h
      exact ⟨by omega, by omega, hbottom, htop⟩

theorem shelf_apart (hfits : ∀ column ∈ columns, Fits sizes height column) (x y : ℕ) :
    (shelf sizes y x columns).Pairwise ItemsApart := by
  induction columns generalizing x with
  | nil => exact .nil
  | cons column columns ih =>
    obtain ⟨⟨hwidth, _⟩, hrest⟩ := List.forall_mem_cons.mp hfits
    refine List.pairwise_append.mpr ⟨stack_apart x y _, ih hrest _, fun first hfirst second hsecond ↦ ?_⟩
    have hkeys : ∀ key ∈ columnKeys column, (sizes key).1 ≤ (sizes column.1).1 :=
      List.forall_mem_cons.mpr ⟨Nat.le_refl _, hwidth⟩
    have hbefore := (stack_within hkeys hfirst).le_right
    have hbehind := (shelf_within hrest hsecond).left_le
    exact .inl (Nat.le_trans hbefore hbehind)

/-- Two shelves, one above the other. -/
theorem shelves_apart {above : ℕ} {first second : List (ι × List ι)}
    (hfirst : ∀ column ∈ first, Fits sizes height column)
    (hsecond : ∀ column ∈ second, Fits sizes above column) :
    (shelf sizes 0 0 first ++ shelf sizes height 0 second).Pairwise ItemsApart := by
  refine List.pairwise_append.mpr ⟨shelf_apart hfirst 0 0, shelf_apart hsecond 0 height, fun low hlow high hhigh ↦ ?_⟩
  have htop := (shelf_within hfirst hlow).le_top
  have hbottom := (shelf_within hsecond hhigh).bottom_le
  exact .inr (.inr (.inl (by omega)))

end FdeEmugl.Shelves
