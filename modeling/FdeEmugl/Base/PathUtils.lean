import FdeEmugl.Library.Tokens
import Mathlib.Data.List.Infix

/-!
# Simplified paths

A path is cut into its components, a stack removes the components that change nothing, and what is left is put
together again. The root of an absolute path is the first component of the stack, and a parent directory removes it as
it removes any other component.
-/

namespace FdeEmugl.Paths

open Tokens
open List (append_nil cons_ne_nil foldl_cons mem_append nil_append not_mem_nil)

/-! ## The code, for POSIX hosts -/

abbrev Text := List Char

def NUL : Char := Char.ofNat 0

def dirSeparator : Char := '/'

def isDirSeparator (ch : Char) : Bool := ch = '/'

def dot : Text := ['.']

def dotDot : Text := ['.', '.']

def rootPrefixSize : Text → ℕ
  | [] => 0
  | ch :: _ => if ch = '/' then 1 else 0

def isAbsolute (path : Text) : Bool :=
  let prefixSize := rootPrefixSize path
  if prefixSize = 0 then false else true

/-- The loop of `decompose`, with the characters of the component that it is in. -/
def decomposeFrom (component : Text) : Text → List Text
  | [] => if component = [] then [] else [component]
  | ch :: text =>
    if ch = NUL then if component = [] then [] else [component]
    else if isDirSeparator ch then
      if component = [] then decomposeFrom [] text else component :: decomposeFrom [] text
    else decomposeFrom (component ++ [ch]) text

def decompose (path : Text) : List Text :=
  if path = [] then []
  else
    let prefixLen := rootPrefixSize path
    if prefixLen = 0 then decomposeFrom [] path
    else path.take prefixLen :: decomposeFrom [] (path.drop prefixLen)

/-- The loop of `recompose`, from a component on. -/
def recomposeFrom (n : ℕ) (addSeparator : Bool) (result : Text) : List Text → Text
  | [] => result
  | component :: components =>
    let separated := if addSeparator then result ++ [dirSeparator] else result
    let addSeparator := if n = 0 ∧ rootPrefixSize component = component.length then false else true
    recomposeFrom (n + 1) addSeparator (separated ++ component) components

def recompose (components : List Text) : Text :=
  if components = [] then [] else recomposeFrom 0 false [] components

def simplifyStep (stack : List Text) (component : Text) : List Text :=
  if component = dot then stack
  else if component = dotDot then
    if stack ≠ [] ∧ stack.getLast? ≠ some dotDot then stack.dropLast else stack ++ [component]
  else stack ++ [component]

def simplifyComponents (components : List Text) : List Text :=
  let stack := components.foldl simplifyStep []
  if stack = [] then [dot] else stack

def canonical (path : Text) : Text := recompose (simplifyComponents (decompose path))

def join (path1 path2 : Text) : Text :=
  if path1 = [] then path2
  else if path2 = [] then path1
  else if isAbsolute path2 then path2
  else if rootPrefixSize path1 < path1.length ∧ path1.getLast?.any isDirSeparator = false then
    path1 ++ dirSeparator :: path2
  else path1 ++ path2

/-! ## Where a path leads -/

/-- A place below the root or, after some parents, below the current directory. -/
structure Location where
  absolute : Bool
  parents : ℕ
  names : List Text
  deriving DecidableEq

def Location.enter (location : Location) (component : Text) : Location :=
  if component = dot then location
  else if component = dotDot then
    if location.names ≠ [] then { location with names := location.names.dropLast }
    else if location.absolute then location
    else { location with parents := location.parents + 1 }
  else { location with names := location.names ++ [component] }

/-- The components are what stands between separators; the parent of the root is the root. -/
def locate (path : Text) : Location := (words '/' path).foldl Location.enter ⟨path.head? = some '/', 0, []⟩

structure Canonical (path : Text) : Prop where
  idempotent : canonical (canonical path) = canonical path
  location : locate (canonical path) = locate path
  absolute : isAbsolute (canonical path) = isAbsolute path

def countNames (components : List Text) : ℕ := components.countP fun component ↦ component ≠ dot ∧ component ≠ dotDot

/-- Below the root, some beginning of the path has more parents than names. -/
def PassesRoot (path : Text) : Prop := isAbsolute path = true ∧
    ∃ components, components <+: words '/' path ∧ countNames components < components.count dotDot

/-! ## Components -/

variable {path text component : Text} {components : List Text} {location : Location}

theorem words_component (h : '/' ∉ component) : words '/' component = if component = [] then [] else [component] := by
  split_ifs with hnil
  · rw [hnil, words_nil]
  · exact words_of_notMem h hnil

theorem decomposeFrom_eq (htext : NUL ∉ text) (hcomponent : '/' ∉ component) :
    decomposeFrom component text = words '/' (component ++ text) := by
  induction text generalizing component with
  | nil => rw [decomposeFrom, append_nil, words_component hcomponent]
  | cons ch text ih =>
    rw [List.mem_cons, not_or] at htext
    rw [decomposeFrom, if_neg fun hzero ↦ htext.1 hzero.symm]
    by_cases hslash : ch = '/'
    · have hseparator : isDirSeparator ch = true := decide_eq_true hslash
      rw [if_pos hseparator, hslash, words_append_cons, words_component hcomponent,
        ih htext.2 not_mem_nil, nil_append]
      split_ifs
      · rfl
      · rfl
    · have hseparator : ¬ isDirSeparator ch = true := fun h ↦ hslash (of_decide_eq_true h)
      have hnext : '/' ∉ component ++ [ch] := by
        rw [mem_append, List.mem_singleton, not_or]
        exact ⟨hcomponent, fun heq ↦ hslash heq.symm⟩
      rw [if_neg hseparator, ih htext.2 hnext, List.append_assoc, List.singleton_append]

theorem decompose_relative (hpath : NUL ∉ path) (h : path.head? ≠ some '/') : decompose path = words '/' path := by
  cases path with
  | nil => rw [words_nil]; rfl
  | cons ch text =>
    have hprefix : rootPrefixSize (ch :: text) = 0 := if_neg fun heq ↦ h (congrArg some heq)
    rw [decompose, if_neg (cons_ne_nil ch text), hprefix, if_pos rfl,
      decomposeFrom_eq hpath not_mem_nil, nil_append]

def root : Text := ['/']

theorem decompose_absolute (htext : NUL ∉ text) : decompose ('/' :: text) = root :: words '/' text := by
  have hprefix : rootPrefixSize ('/' :: text) = 1 := rfl
  rw [decompose, if_neg (cons_ne_nil _ _), hprefix, if_neg Nat.one_ne_zero, List.take_succ_cons,
    List.drop_succ_cons, List.drop_zero, List.take_zero, decomposeFrom_eq htext not_mem_nil, nil_append]
  rfl

theorem isAbsolute_eq (path : Text) : isAbsolute path = decide (path.head? = some '/') := by
  cases path with
  | nil => rfl
  | cons ch text =>
    rw [isAbsolute, rootPrefixSize, List.head?_cons]
    by_cases hslash : ch = '/'
    · rw [if_pos hslash, hslash]
      rfl
    · rw [if_neg hslash, if_pos rfl]
      exact (decide_eq_false fun heq ↦ hslash (Option.some.inj heq)).symm

/-! ## The stack -/

/-- The stack that stands for a place. -/
def Location.stack (location : Location) : List Text :=
  (if location.absolute then [root] else []) ++ List.replicate location.parents dotDot ++ location.names

/-- What can stand between separators. -/
def Proper (component : Text) : Prop := component ≠ [] ∧ '/' ∉ component ∧ NUL ∉ component

structure Location.Valid (location : Location) : Prop where
  rooted : location.absolute = true → location.parents = 0
  named : ∀ name ∈ location.names, name ≠ dot ∧ name ≠ dotDot
  proper : ∀ name ∈ location.names, Proper name

theorem Location.valid_start (absolute : Bool) : (Location.mk absolute 0 []).Valid :=
  ⟨fun _ ↦ rfl, fun _ h ↦ absurd h not_mem_nil, fun _ h ↦ absurd h not_mem_nil⟩

/-- What the stack does: a parent below the root makes the path a relative one. -/
def Location.step (location : Location) (component : Text) : Location :=
  if location.absolute = true ∧ location.names = [] ∧ component = dotDot then ⟨false, 0, []⟩
  else location.enter component

theorem Location.enter_dot : location.enter dot = location := if_pos rfl

theorem Location.enter_name (hdot : component ≠ dot) (hdotDot : component ≠ dotDot) :
    location.enter component = { location with names := location.names ++ [component] } := by
  rw [Location.enter, if_neg hdot, if_neg hdotDot]

theorem Location.enter_dotDot : location.enter dotDot =
      if location.names ≠ [] then { location with names := location.names.dropLast }
      else if location.absolute then location else { location with parents := location.parents + 1 } := by
  rw [Location.enter, if_neg (by decide), if_pos rfl]

@[simp] theorem Location.absolute_enter (location : Location) (component : Text) :
    (location.enter component).absolute = location.absolute := by
  unfold Location.enter
  split_ifs <;> rfl

section

variable (h : location.Valid)
include h

theorem Location.Valid.enter (hcomponent : Proper component) : (location.enter component).Valid := by
  unfold Location.enter
  split_ifs with hdot hdotDot hnames habsolute
  · exact h
  · exact ⟨h.rooted, fun name hname ↦ h.named name (List.mem_of_mem_dropLast hname),
      fun name hname ↦ h.proper name (List.mem_of_mem_dropLast hname)⟩
  · exact h
  · exact ⟨fun habs ↦ absurd habs habsolute, h.named, h.proper⟩
  · refine ⟨h.rooted, fun name hname ↦ ?_, fun name hname ↦ ?_⟩
    · obtain hname | hname := mem_append.mp hname
      · exact h.named name hname
      · rw [List.mem_singleton.mp hname]
        exact ⟨hdot, hdotDot⟩
    · obtain hname | hname := mem_append.mp hname
      · exact h.proper name hname
      · rw [List.mem_singleton.mp hname]
        exact hcomponent

theorem Location.Valid.step (hcomponent : Proper component) : (location.step component).Valid := by
  unfold Location.step
  split_ifs
  · exact Location.valid_start false
  · exact h.enter hcomponent

/-- A parent where no name is left. -/
theorem simplifyStep_parent (hnames : location.names = []) :
    (if location.stack ≠ [] ∧ location.stack.getLast? ≠ some dotDot then location.stack.dropLast
      else location.stack ++ [dotDot]) = (location.step dotDot).stack := by
  obtain ⟨absolute, parents, names⟩ := location
  obtain rfl : names = [] := hnames
  cases absolute with
  | true =>
    obtain rfl : parents = 0 := h.rooted rfl
    rfl
  | false =>
    have hstack : (Location.mk false parents []).stack = List.replicate parents dotDot := by
      simp [Location.stack]
    have hlast : ¬ ((Location.mk false parents []).stack ≠ [] ∧
        (Location.mk false parents []).stack.getLast? ≠ some dotDot) := by
      rintro ⟨hne, hother⟩
      rw [hstack] at hne hother
      obtain ⟨last, hlast⟩ := Option.ne_none_iff_exists'.mp (mt List.getLast?_eq_none_iff.mp hne)
      exact hother (hlast.trans (congrArg some (List.eq_of_mem_replicate (List.mem_of_getLast? hlast))))
    have hstep : (Location.mk false parents []).step dotDot = ⟨false, parents + 1, []⟩ := rfl
    rw [if_neg hlast, hstep, hstack]
    simp [Location.stack, List.replicate_succ']

/-- A step of the code is a step of the place. -/
theorem simplifyStep_stack (component : Text) :
    simplifyStep location.stack component = (location.step component).stack := by
  by_cases hdot : component = dot
  · have hstep : location.step component = location := by
      rw [hdot, Location.step, if_neg (fun hroot ↦ absurd hroot.2.2 (by decide)), Location.enter_dot]
    rw [hstep, simplifyStep, if_pos hdot]
  by_cases hdotDot : component = dotDot
  · rw [hdotDot, simplifyStep, if_neg (by decide), if_pos rfl]
    by_cases hnames : location.names = []
    · exact simplifyStep_parent h hnames
    · have hlast : location.stack.getLast? = location.names.getLast? := by
        rw [Location.stack, List.getLast?_append_of_ne_nil _ hnames]
      have hname : location.names.getLast? ≠ some dotDot := fun heq ↦
        (h.named dotDot (List.mem_of_getLast? heq)).2 rfl
      have hstack : location.stack ≠ [] := List.append_ne_nil_of_right_ne_nil _ hnames
      rw [if_pos ⟨hstack, hlast ▸ hname⟩, Location.step, if_neg (fun hroot ↦ hnames hroot.2.1), Location.enter_dotDot,
        if_pos hnames, Location.stack, List.dropLast_append_of_ne_nil hnames]
      rfl
  · rw [simplifyStep, if_neg hdot, if_neg hdotDot, Location.step, if_neg (fun hroot ↦ hdotDot hroot.2.2),
      Location.enter_name hdot hdotDot, Location.stack, Location.stack, List.append_assoc]

theorem foldl_simplifyStep (hcomponents : ∀ component ∈ components, Proper component) :
    components.foldl simplifyStep location.stack = (components.foldl Location.step location).stack ∧
      (components.foldl Location.step location).Valid := by
  induction components generalizing location with
  | nil => exact ⟨rfl, h⟩
  | cons component components ih =>
    obtain ⟨hcomponent, hcomponents⟩ := List.forall_mem_cons.mp hcomponents
    rw [foldl_cons, foldl_cons, simplifyStep_stack h]
    exact ih (h.step hcomponent) hcomponents

end

/-! ## Passing the root -/

theorem Location.absolute_foldl_enter (components : List Text) (location : Location) :
    (components.foldl Location.enter location).absolute = location.absolute := by
  induction components generalizing location with
  | nil => rfl
  | cons component components ih => rw [foldl_cons, ih, Location.absolute_enter]

/-- A relative path stays one, and its steps are those to its place. -/
theorem Location.foldl_step_relative (components : List Text) (h : location.absolute = false) :
    components.foldl Location.step location = components.foldl Location.enter location := by
  induction components generalizing location with
  | nil => rfl
  | cons component components ih =>
    have hstep : location.step component = location.enter component :=
      if_neg fun hroot ↦ absurd (h.symm.trans hroot.1) (by decide)
    rw [foldl_cons, foldl_cons, hstep, ih (by rw [Location.absolute_enter, h])]

/-- Beginnings of a list with a first element. -/
theorem exists_prefix_cons {property : List Text → Prop} :
    (∃ front, front <+: component :: components ∧ property front) ↔
      property [] ∨ ∃ front, front <+: components ∧ property (component :: front) := by
  constructor
  · rintro ⟨front, hfront, hproperty⟩
    cases front with
    | nil => exact Or.inl hproperty
    | cons head front =>
      obtain ⟨rfl, hrest⟩ := List.cons_prefix_cons.mp hfront
      exact Or.inr ⟨front, hrest, hproperty⟩
  · rintro (hproperty | ⟨front, hfront, hproperty⟩)
    · exact ⟨[], List.nil_prefix, hproperty⟩
    · exact ⟨component :: front, List.cons_prefix_cons.mpr ⟨rfl, hfront⟩, hproperty⟩

/-- More parents than names lead out of a place below the root, and only these do. -/
theorem foldl_step_absolute (components names : List Text) :
    (∃ front, front <+: components ∧ names.length + countNames front < front.count dotDot) ∧
        (components.foldl Location.step ⟨true, 0, names⟩).absolute = false ∨
      (¬ ∃ front, front <+: components ∧ names.length + countNames front < front.count dotDot) ∧
        components.foldl Location.step ⟨true, 0, names⟩ = components.foldl Location.enter ⟨true, 0, names⟩ := by
  induction components generalizing names with
  | nil =>
    refine Or.inr ⟨?_, rfl⟩
    rintro ⟨front, hfront, hcount⟩
    rw [List.prefix_nil.mp hfront, List.count_nil] at hcount
    exact Nat.not_lt_zero _ hcount
  | cons component components ih =>
    have hnil : ¬ names.length + countNames [] < List.count dotDot [] := Nat.not_lt_zero _
    rw [exists_prefix_cons, or_iff_right hnil, foldl_cons, foldl_cons]
    by_cases hdot : component = dot
    · have hcount : ∀ front, countNames (component :: front) = countNames front ∧
          (component :: front).count dotDot = front.count dotDot := by
        intro front
        rw [hdot]
        exact ⟨List.countP_cons_of_neg (by decide), List.count_cons_of_ne (by decide)⟩
      have hstep : (Location.mk true 0 names).step component = ⟨true, 0, names⟩ ∧
          (Location.mk true 0 names).enter component = ⟨true, 0, names⟩ := by
        rw [hdot]
        exact ⟨if_neg fun hroot ↦ absurd hroot.2.2 (by decide), Location.enter_dot⟩
      simp only [hcount, hstep]
      exact ih names
    by_cases hdotDot : component = dotDot
    · have hcount : ∀ front, countNames (component :: front) = countNames front ∧
          (component :: front).count dotDot = front.count dotDot + 1 := by
        intro front
        rw [hdotDot]
        exact ⟨List.countP_cons_of_neg (by decide), List.count_cons_self⟩
      simp only [hcount]
      obtain rfl | hnames := eq_or_ne names []
      · refine Or.inl ⟨⟨[], List.nil_prefix, Nat.lt_succ_self 0⟩, ?_⟩
        have hstep : (Location.mk true 0 []).step component = ⟨false, 0, []⟩ := if_pos ⟨rfl, rfl, hdotDot⟩
        rw [hstep, Location.foldl_step_relative components rfl, Location.absolute_foldl_enter]
      · have henter : (Location.mk true 0 names).enter component = ⟨true, 0, names.dropLast⟩ := by
          rw [hdotDot, Location.enter_dotDot, if_pos hnames]
        have hstep : (Location.mk true 0 names).step component = ⟨true, 0, names.dropLast⟩ := by
          rw [Location.step, if_neg (fun hroot ↦ hnames hroot.2.1), henter]
        have hlength := List.length_pos_of_ne_nil hnames
        have hfront : ∀ front : List Text, names.length + countNames front < front.count dotDot + 1 ↔
            names.dropLast.length + countNames front < front.count dotDot := by
          intro front
          rw [List.length_dropLast]
          omega
        simp only [henter, hstep, hfront]
        exact ih names.dropLast
    · have hcount : ∀ front, names.length + countNames (component :: front) =
            (names ++ [component]).length + countNames front ∧
          (component :: front).count dotDot = front.count dotDot := by
        intro front
        have hname : countNames (component :: front) = countNames front + 1 :=
          List.countP_cons_of_pos (decide_eq_true ⟨hdot, hdotDot⟩)
        refine ⟨?_, List.count_cons_of_ne hdotDot⟩
        rw [hname, List.length_append, List.length_singleton]
        omega
      have hstep : (Location.mk true 0 names).step component = ⟨true, 0, names ++ [component]⟩ := by
        rw [Location.step, if_neg (fun hroot ↦ hdotDot hroot.2.2), Location.enter_name hdot hdotDot]
      simp only [hcount, hstep, Location.enter_name hdot hdotDot]
      exact ih (names ++ [component])

/-! ## Putting components together -/

theorem recomposeFrom_succ (n : ℕ) (result : Text) (components : List Text) :
    recomposeFrom (n + 1) true result components = result ++ components.flatMap fun component ↦ '/' :: component := by
  induction components generalizing n result with
  | nil => rw [recomposeFrom, List.flatMap_nil, append_nil]
  | cons component components ih =>
    have hflag : ¬ (n + 1 = 0 ∧ rootPrefixSize component = component.length) := fun h ↦ Nat.succ_ne_zero n h.1
    rw [recomposeFrom, if_pos rfl, if_neg hflag, ih, List.flatMap_cons]
    simp [dirSeparator]

theorem intercalate_cons (component : Text) (components : List Text) : ['/'].intercalate (component :: components) =
      component ++ components.flatMap fun component ↦ '/' :: component := by
  induction components generalizing component with
  | nil => rw [List.intercalate_singleton, List.flatMap_nil, append_nil]
  | cons next components ih => rw [List.intercalate_cons_cons, ih, List.flatMap_cons]; simp

theorem recompose_cons (hcomponent : component ≠ [] ∧ '/' ∉ component) (components : List Text) :
    recompose (component :: components) = ['/'].intercalate (component :: components) := by
  have hlength : rootPrefixSize component ≠ component.length := by
    cases component with
    | nil => exact absurd rfl hcomponent.1
    | cons ch text =>
      have hslash : ch ≠ '/' := by
        rintro rfl
        exact hcomponent.2 List.mem_cons_self
      rw [rootPrefixSize, if_neg hslash]
      exact (Nat.succ_ne_zero _).symm
  rw [recompose, if_neg (cons_ne_nil _ _)]
  simp only [recomposeFrom, if_neg Bool.false_ne_true, hlength, and_false, ↓reduceIte]
  rw [recomposeFrom_succ, intercalate_cons, nil_append]

theorem recompose_root (components : List Text) :
    recompose (root :: components) = '/' :: ['/'].intercalate components := by
  rw [recompose, if_neg (cons_ne_nil _ _)]
  cases components with
  | nil => rfl
  | cons component components =>
    have hlater : ¬ (0 + 1 = 0 ∧ rootPrefixSize component = component.length) := fun h ↦ Nat.one_ne_zero h.1
    simp only [recomposeFrom, if_neg hlater, if_neg Bool.false_ne_true]
    rw [recomposeFrom_succ, intercalate_cons]
    rfl

/-! ## The text of a place -/

/-- What stands between the separators of the text. -/
def Location.parts (location : Location) : List Text :=
  if location.absolute then location.names else if location.stack = [] then [dot] else location.stack

def Location.print (location : Location) : Text :=
  if location.absolute then '/' :: ['/'].intercalate location.parts else ['/'].intercalate location.parts

theorem Location.Valid.parts (h : location.Valid) : ∀ part ∈ location.parts, Proper part := by
  intro part hpart
  unfold Location.parts at hpart
  split_ifs at hpart with habsolute hempty
  · exact h.proper part hpart
  · rw [List.mem_singleton.mp hpart]
    exact ⟨by decide, by decide, by decide⟩
  · rw [Location.stack, if_neg habsolute, nil_append] at hpart
    obtain hpart | hpart := mem_append.mp hpart
    · rw [List.eq_of_mem_replicate hpart]
      exact ⟨by decide, by decide, by decide⟩
    · exact h.proper part hpart

theorem Location.Valid.recompose_stack (h : location.Valid) :
    recompose (if location.stack = [] then [dot] else location.stack) = location.print := by
  by_cases habsolute : location.absolute = true
  · have hstack : location.stack = root :: location.names := by
      rw [Location.stack, if_pos habsolute, h.rooted habsolute]
      rfl
    rw [hstack, if_neg (cons_ne_nil _ _), recompose_root, Location.print, if_pos habsolute, Location.parts,
      if_pos habsolute]
  · have hparts : location.parts = if location.stack = [] then [dot] else location.stack := if_neg habsolute
    rw [← hparts, Location.print, if_neg habsolute]
    obtain ⟨part, parts, hsplit⟩ : ∃ part parts, location.parts = part :: parts := by
      refine List.exists_cons_of_ne_nil ?_
      rw [hparts]
      split_ifs with hempty
      · exact cons_ne_nil _ _
      · exact hempty
    have hpart := h.parts part (hsplit ▸ List.mem_cons_self)
    rw [hsplit, recompose_cons ⟨hpart.1, hpart.2.1⟩]

theorem Location.Valid.words_print (h : location.Valid) : words '/' location.print = location.parts := by
  have hparts : words '/' (['/'].intercalate location.parts) = location.parts :=
    words_intercalate (fun part hpart ↦ (h.parts part hpart).1) fun part hpart ↦ (h.parts part hpart).2.1
  unfold Location.print
  split_ifs
  · rw [words_cons_self, hparts]
  · exact hparts

theorem Location.Valid.head?_print (h : location.Valid) :
    location.print.head? = some '/' ↔ location.absolute = true := by
  unfold Location.print
  split_ifs with habsolute
  · exact iff_of_true rfl habsolute
  · refine iff_of_false ?_ habsolute
    obtain hnil | ⟨part, parts, hsplit⟩ : location.parts = [] ∨ ∃ part parts, location.parts = part :: parts := by
      cases location.parts with
      | nil => exact Or.inl rfl
      | cons part parts => exact Or.inr ⟨part, parts, rfl⟩
    · rw [hnil]
      exact fun heq ↦ Option.some_ne_none _ heq.symm
    · obtain ⟨hne, hslash, -⟩ := h.parts part (hsplit ▸ List.mem_cons_self)
      rw [hsplit, intercalate_cons, List.head?_append_of_ne_nil _ hne]
      exact fun heq ↦ hslash (List.mem_of_mem_head? heq)

theorem mem_intercalate {letter : Char} (h : letter ∈ ['/'].intercalate components) :
    letter = '/' ∨ ∃ component ∈ components, letter ∈ component := by
  cases components with
  | nil => exact absurd h not_mem_nil
  | cons component components =>
    rw [intercalate_cons] at h
    obtain h | h := mem_append.mp h
    · exact Or.inr ⟨component, List.mem_cons_self, h⟩
    · obtain ⟨other, hother, h⟩ := List.mem_flatMap.mp h
      obtain rfl | h := List.mem_cons.mp h
      · exact Or.inl rfl
      · exact Or.inr ⟨other, List.mem_cons_of_mem component hother, h⟩

theorem Location.Valid.notMem_print (h : location.Valid) : NUL ∉ location.print := by
  have hparts : NUL ∉ ['/'].intercalate location.parts := by
    intro hmem
    obtain hslash | ⟨part, hpart, hmem⟩ := mem_intercalate hmem
    · exact absurd hslash (by decide)
    · exact (h.parts part hpart).2.2 hmem
  unfold Location.print
  split_ifs
  · exact List.not_mem_cons_of_ne_of_not_mem (by decide) hparts
  · exact hparts

theorem foldl_enter_names {names : List Text} (h : ∀ name ∈ names, name ≠ dot ∧ name ≠ dotDot) :
    names.foldl Location.enter location = { location with names := location.names ++ names } := by
  induction names generalizing location with
  | nil => rw [List.foldl_nil, append_nil]
  | cons name names ih =>
    obtain ⟨hname, hnames⟩ := List.forall_mem_cons.mp h
    rw [foldl_cons, Location.enter_name hname.1 hname.2, ih hnames]
    simp

theorem foldl_enter_parents (parents more : ℕ) :
    (List.replicate more dotDot).foldl Location.enter ⟨false, parents, []⟩ = ⟨false, parents + more, []⟩ := by
  induction more generalizing parents with
  | zero => rfl
  | succ more ih =>
    have henter : (Location.mk false parents []).enter dotDot = ⟨false, parents + 1, []⟩ := rfl
    rw [List.replicate_succ, foldl_cons, henter, ih, Nat.add_right_comm, Nat.add_assoc]

theorem Location.Valid.foldl_parts (h : location.Valid) :
    location.parts.foldl Location.enter ⟨location.absolute, 0, []⟩ = location := by
  obtain ⟨absolute, parents, names⟩ := location
  cases absolute with
  | true =>
    obtain rfl : parents = 0 := h.rooted rfl
    exact (foldl_enter_names h.named).trans rfl
  | false =>
    have hstack : (Location.mk false parents names).stack.foldl Location.enter ⟨false, 0, []⟩ =
        ⟨false, parents, names⟩ := by
      rw [Location.stack, if_neg Bool.false_ne_true, nil_append, List.foldl_append, foldl_enter_parents,
        foldl_enter_names h.named]
      simp
    rw [Location.parts, if_neg Bool.false_ne_true]
    split_ifs with hempty
    · rw [hempty] at hstack
      exact hstack
    · exact hstack

/-! ## Canonical paths -/

/-- The place that the stack ends with. -/
def finalPlace (path : Text) : Location := (words '/' path).foldl Location.step ⟨path.head? = some '/', 0, []⟩

theorem proper_words (hpath : NUL ∉ path) : ∀ component ∈ words '/' path, Proper component := fun _ hcomponent ↦
  ⟨(mem_words hcomponent).1, (mem_words hcomponent).2, fun hzero ↦ hpath (mem_of_mem_words hcomponent hzero)⟩

theorem valid_finalPlace (hpath : NUL ∉ path) : (finalPlace path).Valid :=
  (foldl_simplifyStep (Location.valid_start _) (proper_words hpath)).2

theorem foldl_decompose (hpath : NUL ∉ path) : (decompose path).foldl simplifyStep [] = (finalPlace path).stack := by
  by_cases hslash : path.head? = some '/'
  · obtain ⟨text, rfl⟩ : ∃ text, path = '/' :: text := by
      cases path with
      | nil => cases hslash
      | cons ch text => exact ⟨text, by rw [Option.some.inj hslash]⟩
    have hroot : simplifyStep [] root = (Location.mk true 0 []).stack := rfl
    have htext : NUL ∉ text := fun hzero ↦ hpath (List.mem_cons_of_mem '/' hzero)
    rw [decompose_absolute htext, foldl_cons, hroot, finalPlace, words_cons_self,
      (foldl_simplifyStep (Location.valid_start true) (proper_words htext)).1, List.head?_cons, decide_eq_true rfl]
  · have hempty : [] = (Location.mk false 0 []).stack := rfl
    rw [decompose_relative hpath hslash, hempty,
      (foldl_simplifyStep (Location.valid_start false) (proper_words hpath)).1, finalPlace, decide_eq_false hslash]

theorem canonical_eq (hpath : NUL ∉ path) : canonical path = (finalPlace path).print := by
  rw [canonical, simplifyComponents, foldl_decompose hpath]
  exact (valid_finalPlace hpath).recompose_stack

theorem passesRoot_iff (path : Text) : PassesRoot path ∧ isAbsolute path = true ∧ (finalPlace path).absolute = false ∨
      ¬ PassesRoot path ∧ finalPlace path = locate path := by
  by_cases hslash : path.head? = some '/'
  · have habsolute : isAbsolute path = true := by rw [isAbsolute_eq, decide_eq_true hslash]
    have hrun := foldl_step_absolute (words '/' path) []
    simp only [List.length_nil, Nat.zero_add] at hrun
    rw [finalPlace, locate, decide_eq_true hslash]
    obtain ⟨hpasses, hfinal⟩ | ⟨hnot, hfinal⟩ := hrun
    · exact Or.inl ⟨⟨habsolute, hpasses⟩, habsolute, hfinal⟩
    · exact Or.inr ⟨fun h ↦ hnot h.2, hfinal⟩
  · refine Or.inr ⟨fun h ↦ ?_, ?_⟩
    · rw [PassesRoot, isAbsolute_eq, decide_eq_false hslash] at h
      exact Bool.false_ne_true h.1
    · rw [finalPlace, locate, decide_eq_false hslash]
      exact Location.foldl_step_relative _ rfl

theorem Location.Valid.locate_print (h : location.Valid) : locate location.print = location := by
  have hhead : decide (location.print.head? = some '/') = location.absolute :=
    Bool.eq_iff_iff.mpr (decide_eq_true_iff.trans h.head?_print)
  rw [locate, h.words_print, hhead, h.foldl_parts]

theorem Location.Valid.isAbsolute_print (h : location.Valid) : isAbsolute location.print = location.absolute := by
  rw [isAbsolute_eq]
  exact Bool.eq_iff_iff.mpr (decide_eq_true_iff.trans h.head?_print)

theorem Location.Valid.not_passesRoot (h : location.Valid) : ¬ PassesRoot location.print := by
  rintro ⟨habsolute, front, hfront, hcount⟩
  rw [h.isAbsolute_print] at habsolute
  rw [h.words_print, Location.parts, if_pos habsolute] at hfront
  have hmem : dotDot ∈ front := List.count_pos_iff.mp (Nat.zero_lt_of_lt hcount)
  exact (h.named dotDot (hfront.subset hmem)).2 rfl

/-- A path is simplified to the path of its place exactly when its parents do not pass the root. -/
theorem canonical_iff (hpath : NUL ∉ path) : Canonical path ↔ ¬ PassesRoot path := by
  have hvalid := valid_finalPlace hpath
  obtain ⟨hpasses, habsolute, hfinal⟩ | ⟨hnot, hfinal⟩ := passesRoot_iff path
  · refine iff_of_false (fun h ↦ ?_) (not_not_intro hpasses)
    have hsame := h.absolute
    rw [canonical_eq hpath, hvalid.isAbsolute_print, hfinal, habsolute] at hsame
    exact Bool.false_ne_true hsame
  · refine iff_of_true ?_ hnot
    have hcanonical : canonical path = (locate path).print := by rw [canonical_eq hpath, hfinal]
    rw [hfinal] at hvalid
    have hagain : finalPlace (locate path).print = locate (locate path).print :=
      ((passesRoot_iff _).resolve_left fun h ↦ hvalid.not_passesRoot h.1).2
    refine ⟨?_, ?_, ?_⟩
    · rw [hcanonical, canonical_eq hvalid.notMem_print, hagain, hvalid.locate_print]
    · rw [hcanonical, hvalid.locate_print]
    · rw [hcanonical, hvalid.isAbsolute_print, isAbsolute_eq, locate, Location.absolute_foldl_enter]

theorem canonical_iff_dots :
    Canonical ['/', 'a', '/', '.', '.', '/', 'b'] ↔ ¬ PassesRoot ['/', 'a', '/', '.', '.', '/', 'b'] :=
  canonical_iff (by decide)

/-- The parent of the root is the current directory. -/
theorem root_parent_relative : ¬ ∀ path, NUL ∉ path → Canonical path := by
  intro hclaim
  have habsolute := (hclaim ['/', '.', '.'] (by decide)).absolute
  have hcanonical : canonical ['/', '.', '.'] = ['.'] := by decide
  rw [hcanonical] at habsolute
  exact absurd habsolute (by decide)

end FdeEmugl.Paths
