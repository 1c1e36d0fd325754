import FdeEmugl.AddressSpace.Allocator
import FdeEmugl.AddressSpace.SharedSlots

/-!
# The choice of a free range

A block takes the first free range that is as large as the request, and without one the last range that is large
enough: the loop compares the best size so far with the request, not with the range at hand. The allocator of an
address space takes a smallest one of the same ranges.
-/

namespace FdeEmugl.SharedSlots
open AddressSpace

variable {sz : ℕ} {fsb : OrderedMap ℕ ℕ} {entries : List (ℕ × ℕ)} {best i j : ℕ × ℕ}

/-! ## What the loop finds -/

def lastSufficient (fsb : OrderedMap ℕ ℕ) (sz : ℕ) : Option (ℕ × ℕ) := (fsb.entries.filter fun i ↦ sz ≤ i.2).getLast?

/-- A range of exactly the size is kept. -/
theorem findFrom_of_exact (h : best.2 = sz) (entries : List (ℕ × ℕ)) : findFrom sz (some best) entries =
    some best := by
  induction entries with
  | nil => rfl
  | cons head entries ih =>
    rw [findFrom, if_neg, ih]
    rw [Option.elim_some, h]
    exact fun hboth ↦ lt_irrefl sz hboth.2

theorem findFrom_eq (hsz : sz < 2 ^ 64 - 1) (entries : List (ℕ × ℕ)) (best : Option (ℕ × ℕ))
    (hbest : ∀ i ∈ best, sz < i.2) :
    findFrom sz best entries = (entries.find? fun i ↦ i.2 = sz).or
      ((entries.filter fun i ↦ sz ≤ i.2).getLast?.or best) := by
  induction entries generalizing best with
  | nil => rfl
  | cons head entries ih =>
    have hmore : sz < best.elim (2 ^ 64 - 1) Prod.snd := by
      cases best with
      | none => exact hsz
      | some i => exact hbest i rfl
    obtain hless | rfl | hlarge := lt_trichotomy head.2 sz
    · rw [findFrom, if_neg (fun hboth ↦ hboth.1.not_gt hless), ih best hbest,
        List.find?_cons_of_neg (by simpa using hless.ne), List.filter_cons_of_neg (by simpa using hless)]
    · rw [findFrom, if_pos ⟨le_rfl, hmore⟩, findFrom_of_exact rfl, List.find?_cons_of_pos (by simp), Option.some_or]
    · rw [findFrom, if_pos ⟨hlarge.le, hmore⟩, ih (some head) (fun i hi ↦ Option.mem_some.mp hi ▸ hlarge),
        List.find?_cons_of_neg (by simpa using hlarge.ne'), List.filter_cons_of_pos (by simpa using hlarge.le),
        List.getLast?_cons]
      cases (entries.filter fun i ↦ sz ≤ i.2).getLast? <;> rfl

theorem findFreeSubblock_eq (hsz : sz < 2 ^ 64 - 1) (fsb : OrderedMap ℕ ℕ) :
    findFreeSubblock fsb sz = (fsb.entries.find? fun i ↦ i.2 = sz).or (lastSufficient fsb sz) := by
  rw [findFreeSubblock, findFrom_eq hsz _ none (fun i hi ↦ absurd hi (Option.not_mem_none i)), Option.or_none]
  rfl

/-- No range is as large as the largest `size_t`. -/
theorem findFrom_of_max (hsz : ¬ sz < 2 ^ 64 - 1) (entries : List (ℕ × ℕ)) : findFrom sz none entries = none := by
  induction entries with
  | nil => rfl
  | cons head entries ih => rw [findFrom, if_neg (fun hboth ↦ hsz hboth.2), ih]

/-! ## The best choice -/

/-- The range is large enough, and none that is large enough is smaller. -/
def Least (entries : List (ℕ × ℕ)) (sz : ℕ) (i : ℕ × ℕ) : Prop :=
  i ∈ entries ∧ sz ≤ i.2 ∧ ∀ j ∈ entries, sz ≤ j.2 → i.2 ≤ j.2

/-- The offsets and the sizes of the blocks that are free. -/
def freeRanges (blocks : List Block) : List (ℕ × ℕ) :=
  (blocks.filter fun block ↦ block.available).map fun block ↦ (block.offset, block.size)

/-- The size of the block that `find_available_block` takes. -/
def availableSize (blocks : List Block) (sz : ℕ) : Option ℕ :=
  ((find_available_block blocks sz).join.bind fun i ↦ blocks[i]?).map AddressSpace.Block.size

structure BestFit (fsb : OrderedMap ℕ ℕ) (sz : ℕ) : Prop where
  none_iff : findFreeSubblock fsb sz = none ↔ ∀ i ∈ fsb.entries, i.2 < sz
  least : ∀ i, findFreeSubblock fsb sz = some i → Least fsb.entries sz i
  same_size : ∀ blocks, WellFormed blocks → freeRanges blocks = fsb.entries →
    availableSize blocks sz = (findFreeSubblock fsb sz).map Prod.snd

theorem mem_freeRanges {blocks : List Block} :
    i ∈ freeRanges blocks ↔ ∃ block ∈ blocks, block.available = true ∧ (block.offset, block.size) = i := by
  simp [freeRanges, and_assoc]

/-- The size is that of a least range. -/
theorem availableSize_spec {blocks : List Block} (h : WellFormed blocks) (sz : ℕ) :
    (availableSize blocks sz = none ∧ ∀ i ∈ freeRanges blocks, i.2 < sz) ∨
      ∃ i, availableSize blocks sz = some i.2 ∧ Least (freeRanges blocks) sz i := by
  obtain ⟨hnone, hall⟩ | ⟨front, block, back, rfl, hfound, ⟨hle, havailable⟩, hmin⟩ :=
    find_available_block_spec h sz
  · refine .inl ⟨by rw [availableSize, hnone]; rfl, fun i hi ↦ ?_⟩
    obtain ⟨block, hblock, havailable, rfl⟩ := mem_freeRanges.mp hi
    exact not_le.mp fun hle ↦ hall block hblock ⟨hle, havailable⟩
  · refine .inr ⟨(block.offset, block.size), ?_, mem_freeRanges.mpr ⟨block, by simp, havailable, rfl⟩, hle, ?_⟩
    · rw [availableSize, hfound, Option.join_some, Option.bind_some, getElem_length, Option.map_some]
    · intro j hj hlarge
      obtain ⟨other, hother, havailable, rfl⟩ := mem_freeRanges.mp hj
      exact hmin other hother ⟨hlarge, havailable⟩

theorem Least.size_eq (hi : Least entries sz i) (hj : Least entries sz j) : i.2 = j.2 :=
  le_antisymm (hi.2.2 j hj.1 hj.2.1) (hj.2.2 i hi.1 hi.2.1)

theorem bestFit_of_least (hnone : findFreeSubblock fsb sz = none → ∀ i ∈ fsb.entries, i.2 < sz)
    (hleast : ∀ i, findFreeSubblock fsb sz = some i → Least fsb.entries sz i) : BestFit fsb sz := by
  have hsome (i : ℕ × ℕ) (hi : findFreeSubblock fsb sz = some i) : ¬ ∀ i ∈ fsb.entries, i.2 < sz := fun hall ↦
    (hall i (hleast i hi).1).not_ge (hleast i hi).2.1
  refine ⟨⟨hnone, fun hall ↦ ?_⟩, hleast, fun blocks hblocks hranges ↦ ?_⟩
  · cases hfound : findFreeSubblock fsb sz with
    | none => rfl
    | some i => exact absurd hall (hsome i hfound)
  · obtain ⟨hsize, hall⟩ | ⟨i, hsize, hi⟩ := availableSize_spec hblocks sz
    · rw [hranges] at hall
      cases hfound : findFreeSubblock fsb sz with
      | none => exact hsize
      | some i => exact absurd hall (hsome i hfound)
    · rw [hranges] at hi
      cases hfound : findFreeSubblock fsb sz with
      | none => exact absurd (hnone hfound i hi.1) hi.2.1.not_gt
      | some j => rw [hsize, Option.map_some, hi.size_eq (hleast j hfound)]

/-- Sizes are 32-bit words. The choice is the best one exactly where a range has just the size, or where the last
sufficient range is a smallest one. -/
theorem bestFit_iff (hsizes : ∀ i ∈ fsb.entries, i.2 < 2 ^ 32) (sz : ℕ) :
    BestFit fsb sz ↔ (∃ i ∈ fsb.entries, i.2 = sz) ∨
      ∀ i ∈ lastSufficient fsb sz, ∀ j ∈ fsb.entries, sz ≤ j.2 → i.2 ≤ j.2 := by
  have hlast (i : ℕ × ℕ) (hi : lastSufficient fsb sz = some i) : i ∈ fsb.entries ∧ sz ≤ i.2 := by
    have hmem := List.mem_filter.mp (List.mem_of_getLast? hi)
    exact ⟨hmem.1, of_decide_eq_true hmem.2⟩
  have hempty (h : lastSufficient fsb sz = none) : ∀ i ∈ fsb.entries, i.2 < sz := by
    intro i hi
    rw [lastSufficient, List.getLast?_eq_none_iff, List.filter_eq_nil_iff] at h
    exact not_le.mp (by simpa using h i hi)
  by_cases hsz : sz < 2 ^ 64 - 1
  · have hfound := findFreeSubblock_eq hsz fsb
    cases hexact : fsb.entries.find? fun i ↦ i.2 = sz with
    | some i =>
      rw [hexact, Option.some_or] at hfound
      have hi : i.2 = sz := by simpa using List.find?_some hexact
      have hmem := List.mem_of_find?_eq_some hexact
      refine iff_of_true (bestFit_of_least (fun hnone ↦ ?_) fun j hj ↦ ?_) (.inl ⟨i, hmem, hi⟩)
      · rw [hfound] at hnone
        cases hnone
      · rw [hfound, Option.some.injEq] at hj
        subst hj
        exact ⟨hmem, hi.ge, fun j _ hlarge ↦ hi.trans_le hlarge⟩
    | none =>
      rw [hexact, Option.none_or] at hfound
      rw [List.find?_eq_none] at hexact
      constructor
      · exact fun h ↦ .inr fun i hi ↦ (h.least i (hfound.trans hi)).2.2
      · rintro (⟨i, hi, hsize⟩ | hleast)
        · exact absurd (decide_eq_true hsize) (hexact i hi)
        · rw [← hfound] at hlast hempty hleast
          exact bestFit_of_least hempty fun i hi ↦ ⟨(hlast i hi).1, (hlast i hi).2, hleast i hi⟩
  · have hsmall : ∀ i ∈ fsb.entries, i.2 < sz := fun i hi ↦ (hsizes i hi).trans_le (by omega)
    have hfound : findFreeSubblock fsb sz = none := findFrom_of_max hsz _
    refine iff_of_true (bestFit_of_least (fun _ ↦ hsmall) fun i hi ↦ ?_) (.inr fun i hi ↦ ?_)
    · rw [hfound] at hi
      cases hi
    · exact absurd (hsmall i (hlast i hi).1) (hlast i hi).2.not_gt

/-- A range of two pages in front of one of four. -/
def twoRanges : OrderedMap ℕ ℕ := ⟨[(0, 8192), (65536, 16384)], by decide⟩

theorem bestFit_iff_two_pages : BestFit twoRanges 8192 :=
  (bestFit_iff (by decide) 8192).mpr (.inl ⟨(0, 8192), by decide, rfl⟩)

/-- For one page the larger range is taken. -/
theorem larger_range_taken : ¬ BestFit twoRanges 4096 := fun h ↦
  absurd ((h.least (65536, 16384) (by decide)).2.2 (0, 8192) (by decide) (by decide)) (by decide)

end FdeEmugl.SharedSlots
