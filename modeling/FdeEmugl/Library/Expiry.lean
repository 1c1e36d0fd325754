import Mathlib.Data.List.Forall2
import Mathlib.Data.List.Pairwise
import Mathlib.Order.Basic

/-!
# Lists of keys with the times at which they were put in

Entries are appended with a clock that never goes back, so the list is sorted by time.
An entry is taken out by blanking its key, found through its time as a lower bound;
entries whose time has come are cut off at the front.
-/

namespace FdeEmugl.Expiry

open List (mem_cons mem_cons_of_mem mem_cons_self pairwise_cons)

structure Entry (Key : Type*) where
  time : ℕ
  key : Key
deriving Repr, DecidableEq

variable {Key : Type*}

def Sorted (entries : List (Entry Key)) : Prop := entries.Pairwise fun first second ↦ first.time ≤ second.time

section Clear

variable [DecidableEq Key]

/-- Blank the first entry of `key` in the block of entries with this time. -/
def clearBlock (blank key : Key) (time : ℕ) : List (Entry Key) → List (Entry Key)
  | [] => []
  | entry :: entries =>
    if entry.time = time then
      if entry.key = key then { entry with key := blank } :: entries
      else entry :: clearBlock blank key time entries
    else entry :: entries

/-- Skip to the first entry that is not before `time`, then look through its block. -/
def clear (blank key : Key) (time : ℕ) : List (Entry Key) → List (Entry Key)
  | [] => []
  | entry :: entries =>
    if entry.time < time then entry :: clear blank key time entries
    else clearBlock blank key time (entry :: entries)

/-- The second list is the first with some keys blanked. -/
abbrev Blanked (blank : Key) : List (Entry Key) → List (Entry Key) → Prop :=
  List.Forall₂ fun before after ↦ after.time = before.time ∧ (after.key = before.key ∨ after.key = blank)

omit [DecidableEq Key] in
theorem Blanked.refl (blank : Key) (entries : List (Entry Key)) : Blanked blank entries entries :=
  List.forall₂_same.mpr fun _ _ ↦ ⟨rfl, .inl rfl⟩

theorem blanked_clearBlock (blank key : Key) (time : ℕ) (entries : List (Entry Key)) :
    Blanked blank entries (clearBlock blank key time entries) := by
  induction entries with
  | nil => exact .nil
  | cons entry entries ih =>
    unfold clearBlock
    split_ifs
    · exact .cons ⟨rfl, .inr rfl⟩ (Blanked.refl blank entries)
    · exact .cons ⟨rfl, .inl rfl⟩ ih
    · exact Blanked.refl blank _

theorem blanked_clear (blank key : Key) (time : ℕ) (entries : List (Entry Key)) :
    Blanked blank entries (clear blank key time entries) := by
  induction entries with
  | nil => exact .nil
  | cons entry entries ih =>
    unfold clear
    split_ifs
    · exact .cons ⟨rfl, .inl rfl⟩ ih
    · exact blanked_clearBlock blank key time _

omit [DecidableEq Key] in
theorem Blanked.exists_origin {blank : Key} {before after : List (Entry Key)}
    (h : Blanked blank before after) {entry : Entry Key} (hmem : entry ∈ after) :
    ∃ origin ∈ before, entry.time = origin.time ∧ (entry.key = origin.key ∨ entry.key = blank) := by
  induction h with
  | nil => cases hmem
  | cons hhead htail ih =>
    obtain rfl | hrest := mem_cons.mp hmem
    · exact ⟨_, mem_cons_self, hhead⟩
    · obtain ⟨origin, horigin, hfrom⟩ := ih hrest
      exact ⟨origin, mem_cons_of_mem _ horigin, hfrom⟩

omit [DecidableEq Key] in
theorem Blanked.sorted {blank : Key} {before after : List (Entry Key)}
    (h : Blanked blank before after) (hsorted : Sorted before) : Sorted after := by
  induction h with
  | nil => exact .nil
  | cons hhead htail ih =>
    obtain ⟨hfirst, hrest⟩ := pairwise_cons.mp hsorted
    refine pairwise_cons.mpr ⟨fun entry hmem ↦ ?_, ih hrest⟩
    obtain ⟨origin, horigin, htime, _⟩ := Blanked.exists_origin htail hmem
    rw [hhead.1, htime]
    exact hfirst origin horigin

omit [DecidableEq Key] in
variable {blank : Key}

/-- Blanking brings no new pairs of entries with one key, except the blank. -/
theorem Blanked.pairwise {before after : List (Entry Key)} (h : Blanked blank before after)
    (free : Key → Prop) (hblank : free blank)
    (hpairs : before.Pairwise fun first second ↦ first.key = second.key → free first.key) :
    after.Pairwise fun first second ↦ first.key = second.key → free first.key := by
  induction h with
  | nil => exact .nil
  | cons hhead htail ih =>
    obtain ⟨hfirst, hrest⟩ := pairwise_cons.mp hpairs
    refine pairwise_cons.mpr ⟨fun entry hmem hkey ↦ ?_, ih hrest⟩
    obtain ⟨origin, horigin, _, hfrom⟩ := Blanked.exists_origin htail hmem
    obtain hsame | hhere := hhead.2
    · obtain hsame' | hthere := hfrom
      · rw [hsame]
        exact hfirst origin horigin (hsame.symm.trans (hkey.trans hsame'))
      · rwa [hkey, hthere]
    · rwa [hhere]

theorem mem_clearBlock_of_ne {key : Key} {time : ℕ} {entries : List (Entry Key)} {entry : Entry Key}
    (h : entry ∈ entries) (hkey : entry.key ≠ key) : entry ∈ clearBlock blank key time entries := by
  induction entries with
  | nil => cases h
  | cons first entries ih =>
    unfold clearBlock
    split_ifs with htime hfirst
    · obtain rfl | hrest := mem_cons.mp h
      · exact absurd hfirst hkey
      · exact mem_cons_of_mem _ hrest
    · obtain rfl | hrest := mem_cons.mp h
      · exact mem_cons_self
      · exact mem_cons_of_mem _ (ih hrest)
    · exact h

/-- Only entries of the key are touched. -/
theorem mem_clear_of_ne {key : Key} {time : ℕ} {entries : List (Entry Key)} {entry : Entry Key}
    (h : entry ∈ entries) (hkey : entry.key ≠ key) : entry ∈ clear blank key time entries := by
  induction entries with
  | nil => cases h
  | cons first entries ih =>
    unfold clear
    split_ifs
    · obtain rfl | hrest := mem_cons.mp h
      · exact mem_cons_self
      · exact mem_cons_of_mem _ (ih hrest)
    · exact mem_clearBlock_of_ne h hkey

/-- `key` has at most one entry, and it has this time. -/
structure Single (key : Key) (time : ℕ) (entries : List (Entry Key)) : Prop where
  time_eq : ∀ entry ∈ entries, entry.key = key → entry.time = time
  single : entries.Pairwise fun first second ↦ ¬ (first.key = key ∧ second.key = key)

omit [DecidableEq Key] in
variable {key : Key} {time : ℕ} {entries : List (Entry Key)}

theorem Single.tail {first : Entry Key} (h : Single key time (first :: entries)) : Single key time entries where
  time_eq entry hmem := h.time_eq entry (mem_cons_of_mem _ hmem)
  single := (pairwise_cons.mp h.single).2

theorem key_ne_of_mem_clearBlock {blank : Key} (hblank : blank ≠ key) (hsorted : Sorted entries)
    (hsingle : Single key time entries) (hfirst : ∀ entry ∈ entries, time ≤ entry.time) :
    ∀ entry ∈ clearBlock blank key time entries, entry.key ≠ key := by
  induction entries with
  | nil => simp [clearBlock]
  | cons first entries ih =>
    obtain ⟨hless, hrest⟩ := pairwise_cons.mp hsorted
    unfold clearBlock
    split_ifs with htime hkey
    · intro entry hmem
      obtain rfl | hmem := mem_cons.mp hmem
      · exact hblank
      · exact fun hentry ↦ (pairwise_cons.mp hsingle.single).1 entry hmem ⟨hkey, hentry⟩
    · intro entry hmem
      obtain rfl | hmem := mem_cons.mp hmem
      · exact hkey
      · exact ih hrest hsingle.tail (fun other hother ↦ hfirst other (mem_cons_of_mem _ hother)) entry hmem
    · -- the block is over, and the only entry of the key would have been in it
      intro entry hmem hentry
      have hentryTime := hsingle.time_eq entry hmem hentry
      have hlate := hfirst first mem_cons_self
      obtain rfl | hmem := mem_cons.mp hmem
      · exact htime hentryTime
      · have hle := hless entry hmem
        omega

/-- In a sorted list the one entry of a key is found through its time. -/
theorem key_ne_of_mem_clear {blank : Key} (hblank : blank ≠ key) (hsorted : Sorted entries)
    (hsingle : Single key time entries) : ∀ entry ∈ clear blank key time entries, entry.key ≠ key := by
  induction entries with
  | nil => simp [clear]
  | cons first entries ih =>
    obtain ⟨hless, hrest⟩ := pairwise_cons.mp hsorted
    unfold clear
    split_ifs with hearly
    · intro entry hmem
      obtain rfl | hmem := mem_cons.mp hmem
      · intro hkey
        have htime := hsingle.time_eq entry mem_cons_self hkey
        omega
      · exact ih hrest hsingle.tail entry hmem
    · refine key_ne_of_mem_clearBlock hblank hsorted hsingle fun entry hmem ↦ ?_
      obtain rfl | hmem := mem_cons.mp hmem
      · omega
      · have hle := hless entry hmem
        omega

end Clear

/-- In a sorted list everything that is due is at the front. -/
theorem mem_takeWhile_due {entries : List (Entry Key)} {delay now : ℕ} (hsorted : Sorted entries)
    {entry : Entry Key} (hmem : entry ∈ entries) (hdue : entry.time + delay ≤ now) :
    entry ∈ entries.takeWhile fun entry ↦ decide (entry.time + delay ≤ now) := by
  induction entries with
  | nil => cases hmem
  | cons first entries ih =>
    obtain ⟨hless, hrest⟩ := pairwise_cons.mp hsorted
    obtain rfl | hmem := mem_cons.mp hmem
    · simp [hdue]
    · have hle := hless entry hmem
      have hfirst : first.time + delay ≤ now := by omega
      simp [hfirst, ih hrest hmem]

end FdeEmugl.Expiry
