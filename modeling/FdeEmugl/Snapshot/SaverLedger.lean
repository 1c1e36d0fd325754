import FdeEmugl.Snapshot.RamSaver

/-!
# Where the pages of a snapshot are

The bytes of the file behind the header belong to pages and to gaps, and none of them to two. The loops
of `writePage` give and take ranges: the old place of a page is kept or becomes a gap, a gap becomes a
place, and the last loop makes the file longer. As long as joined gaps are not too large nothing gets
lost on the way.
-/

namespace FdeEmugl.Snapshot

open Coverage
open SaverPage
open Option (elim_none elim_some)
open Function (update_of_ne update_self)

/-! ## The tracker -/

/-- A compressed file has a generic tracker. In a file that is not compressed no page ever leaves its
place. -/
def GapTracker.Kept (exact : Prop) (compressed : Bool) (last : ℕ) : GapTracker → Prop
  | generic gaps => compressed = true ∧ SizesAreInts gaps ∧ (∀ gap ∈ gaps, gap.start ≤ last) ∧
      (exact → SizesArePositive gaps)
  | oneSize mGapStarts _ => compressed = false ∧ mGapStarts = []

/-- Positions of pages that are not compressed are whole numbers of pages apart. -/
def Suits (compressed : Bool) (range : Range) : Prop := 0 ≤ range.size ∧ range.size ≤ kDefaultPageSize ∧
    (compressed = false → range.size ≠ 0 → range.size = kDefaultPageSize ∧ (kDefaultPageSize : ℤ) ∣ range.start - 8)

/-- The bytes between the header and `last` are divided among pages and gaps. -/
structure Ledger (exact : Prop) (compressed : Bool) (owners : Finset PageId) (own : PageId → Range)
    (mGaps : GapTracker) (last : ℕ) : Prop where
  divides : Divides exact owners own mGaps.gaps 8 last
  suits : ∀ id ∈ owners, Suits compressed (own id)
  kept : mGaps.Kept exact compressed last
  le_last : 8 ≤ last
  aligned : compressed = false → (kDefaultPageSize : ℤ) ∣ last - 8

section Steps

variable {exact : Prop} {compressed : Bool} {owners : Finset PageId} {own : PageId → Range}
  {mGaps : GapTracker} {last : ℕ} {id : PageId} {page : SaverPage}

variable {range : Range}

theorem suits_none (compressed : Bool) : Suits compressed ⟨0, 0⟩ := ⟨le_rfl, by decide, fun _ hne ↦ absurd rfl hne⟩

/-- One page trades with the gaps. -/
theorem Ledger.exchange (h : Ledger exact compressed owners own mGaps last) (hid : id ∈ owners)
    {mGaps' : GapTracker} (hsuits : Suits compressed range) (hkept : mGaps'.Kept exact compressed last)
    (hle : ∀ point, range.covers point + cover mGaps'.gaps point ≤ (own id).covers point + cover mGaps.gaps point)
    (hge : exact → ∀ point, (own id).covers point + cover mGaps.gaps point ≤ range.covers point + cover mGaps'.gaps point) :
    Ledger exact compressed owners (Function.update own id range) mGaps' last where
  divides := h.divides.exchange hid hle hge
  suits other hother := by
    by_cases heq : other = id
    · rw [heq, update_self]
      exact hsuits
    · rw [update_of_ne heq]
      exact h.suits other hother
  kept := hkept
  le_last := h.le_last
  aligned := h.aligned

/-! ### Keeping the old place -/

/-- What a page of the save before occupies. -/
def SaverPage.old (page : SaverPage) : Range :=
  page.loaderPage.elim ⟨0, 0⟩ fun loaderPage ↦ ⟨loaderPage.filePos, loaderPage.sizeOnDisk⟩

/-- What a page occupies once it has a place. -/
def SaverPage.placed (page : SaverPage) : Range :=
  if page.filePos = 0 then ⟨0, 0⟩ else ⟨page.filePos, page.sizeOnDisk⟩

/-- What a page gives back. -/
def SaverPage.released (page : SaverPage) : Option Range := page.loaderPage.bind fun loaderPage ↦
    if page.sizeOnDisk < loaderPage.sizeOnDisk then
      some ⟨loaderPage.filePos + page.sizeOnDisk, (loaderPage.sizeOnDisk - page.sizeOnDisk : ℕ)⟩
    else if loaderPage.sizeOnDisk < page.sizeOnDisk ∧ loaderPage.sizeOnDisk ≠ 0 then
      some ⟨loaderPage.filePos, loaderPage.sizeOnDisk⟩
    else none

theorem SaverPage.reuse_snd (page : SaverPage) (mGaps : GapTracker) :
    (page.reuse mGaps).2 = page.released.elim mGaps fun range ↦ mGaps.add range.start range.size := by
  unfold SaverPage.reuse released
  cases page.loaderPage with
  | none => rfl
  | some loaderPage =>
    simp only [Option.bind_some]
    split_ifs <;> first | rfl | omega

theorem SaverPage.reuse_fst (page : SaverPage) (mGaps : GapTracker) :
    (page.reuse mGaps).1 = page.loaderPage.elim page.filePos fun loaderPage ↦
      if page.sizeOnDisk ≤ loaderPage.sizeOnDisk then loaderPage.filePos else page.filePos := by
  unfold SaverPage.reuse
  cases page.loaderPage with
  | none => rfl
  | some loaderPage =>
    simp only [elim_some]
    split_ifs <;> rfl

/-- The old place is what the page keeps and what it gives back. -/
theorem SaverPage.covers_old (hpos : page.filePos = 0) (hold : 0 < page.old.size → page.old.start ≠ 0)
    (hsize : 0 < page.sizeOnDisk) (mGaps : GapTracker) (point : ℕ) :
    page.old.covers point = (page.moveTo (page.reuse mGaps).1).placed.covers point +
        page.released.elim 0 fun range ↦ range.covers point := by
  have hnone (start : ℕ) : (Range.mk start 0).covers point = 0 := Range.covers_of_size_nonpos le_rfl point
  unfold SaverPage.old placed released moveTo
  rw [reuse_fst]
  cases hloader : page.loaderPage with
  | none => simp [hpos]
  | some loaderPage =>
    simp only [SaverPage.old, hloader, elim_some] at hold
    simp only [Option.bind_some, elim_some]
    obtain hless | heq | hmore := Nat.lt_trichotomy page.sizeOnDisk loaderPage.sizeOnDisk
    · have hrest : (0 : ℤ) ≤ (loaderPage.sizeOnDisk - page.sizeOnDisk : ℕ) := Int.natCast_nonneg _
      have hsplit := Range.covers_add loaderPage.filePos page.sizeOnDisk hrest point
      rw [← Int.natCast_add, Nat.add_sub_cancel' hless.le] at hsplit
      simp only [if_pos hless, if_pos hless.le, if_neg (hold (by omega)), elim_some]
      exact hsplit
    · simp only [heq, lt_irrefl, false_and, le_refl, if_true, if_false, if_neg (hold (by omega)),
        elim_none, Nat.add_zero]
    · by_cases hzero : loaderPage.sizeOnDisk = 0
      · simp [hzero, hpos, hsize.not_ge, hnone]
      · simp [hmore, hmore.not_ge, hmore.not_gt, hzero, hpos, hnone]

/-- What a page gives back can be joined with its neighbours. -/
def SaverPage.ReleaseFits (page : SaverPage) (mGaps : GapTracker) : Prop :=
  ∀ range ∈ page.released, JoinsFit range mGaps.gaps

instance (page : SaverPage) (mGaps : GapTracker) : Decidable (page.ReleaseFits mGaps) :=
  inferInstanceAs (Decidable (∀ _ ∈ _, _))

/-- A gap is added to a generic tracker. -/
theorem GapTracker.Kept.add (h : mGaps.Kept exact compressed last) (hcompressed : compressed = true)
    (hint : range.size < 2 ^ 31) (hstart : range.start ≤ last) (hfit : exact → JoinsFit range mGaps.gaps) :
    (mGaps.add range.start range.size).Kept exact compressed last ∧
      (∀ point, cover (mGaps.add range.start range.size).gaps point ≤ cover mGaps.gaps point + range.covers point) ∧
      (exact → ∀ point, cover mGaps.gaps point + range.covers point ≤
        cover (mGaps.add range.start range.size).gaps point) := by
  cases mGaps with
  | oneSize mGapStarts mSize => exact absurd (hcompressed.symm.trans h.1) (by decide)
  | generic gaps =>
    obtain ⟨_, hints, hstarts, hpositive⟩ := h
    refine ⟨⟨hcompressed, sizesAreInts_add hints hint, ?_, fun hexact ↦ ?_⟩, ?_, fun hexact point ↦ ?_⟩
    · exact forall_start_add (· ≤ last) hstart hstarts
    · exact sizesArePositive_add (hpositive hexact) fun _ ↦ hfit hexact
    · exact fun point ↦ cover_add_le hints hint point
    · exact (cover_add_eq (hpositive hexact) (fun _ ↦ hfit hexact) point).ge

/-- What is released lies in the old place, and is released in a compressed file only. -/
theorem SaverPage.released_spec (hsuits : Suits compressed page.old) (hrange : range ∈ page.released)
    (hwhole : compressed = false → page.sizeOnDisk = kDefaultPageSize) :
    compressed = true ∧ 0 < range.size ∧ range.size ≤ page.old.size ∧
      (range.start : ℤ) + range.size ≤ page.old.start + page.old.size := by
  obtain ⟨loaderPage, hloader, hsome⟩ := Option.bind_eq_some_iff.mp hrange
  have hold : page.old = ⟨loaderPage.filePos, loaderPage.sizeOnDisk⟩ := by
    rw [SaverPage.old, hloader]
    rfl
  rw [hold] at hsuits ⊢
  obtain ⟨_, hle, hfull⟩ := hsuits
  simp only at hle hfull
  have hcompressed (hne : loaderPage.sizeOnDisk ≠ 0) (hdifferent : loaderPage.sizeOnDisk ≠ page.sizeOnDisk) :
      compressed = true := by
    by_contra hnot
    rw [Bool.not_eq_true] at hnot
    have hsize := hwhole hnot
    have hfull := (hfull hnot (by omega)).1
    omega
  split_ifs at hsome with hless hmore
  · cases hsome
    refine ⟨hcompressed (by omega) (by omega), ?_, ?_, ?_⟩ <;> simp only <;> omega
  · cases hsome
    refine ⟨hcompressed hmore.2 (by omega), ?_, ?_, ?_⟩ <;> simp only <;> omega

theorem SaverPage.suits_reuse (hsuits : Suits compressed page.old) (hpos : page.filePos = 0)
    (hsize : 0 < page.sizeOnDisk) (hwhole : compressed = false → page.sizeOnDisk = kDefaultPageSize)
    (mGaps : GapTracker) : Suits compressed (page.moveTo (page.reuse mGaps).1).placed := by
  unfold placed moveTo
  rw [reuse_fst]
  simp only
  split_ifs with hzero
  · exact suits_none compressed
  · cases hloader : page.loaderPage with
    | none =>
      rw [hloader] at hzero
      exact absurd hpos hzero
    | some loaderPage =>
      rw [hloader, elim_some] at hzero
      split_ifs at hzero with hfits
      · simp only [SaverPage.old, hloader, elim_some] at hsuits
        obtain ⟨_, hle, hfull⟩ := hsuits
        simp only at hle hfull
        refine ⟨Int.natCast_nonneg _, by simp only; omega, fun hnot _ ↦ ⟨?_, ?_⟩⟩
        · exact congrArg Nat.cast (hwhole hnot)
        · rw [elim_some, if_pos hfits]
          exact (hfull hnot (by omega)).2
      · exact absurd hpos hzero

/-- A page is written over its old place, or gives it up. -/
theorem Ledger.reuse (h : Ledger exact compressed owners own mGaps last) (hid : id ∈ owners)
    (hown : own id = page.old) (hpos : page.filePos = 0) (hsize : 0 < page.sizeOnDisk)
    (hwhole : compressed = false → page.sizeOnDisk = kDefaultPageSize)
    (hfits : exact → page.ReleaseFits mGaps) :
    Ledger exact compressed owners
      (Function.update own id (page.moveTo (page.reuse mGaps).1).placed) (page.reuse mGaps).2 last := by
  have hsuits := hown ▸ h.suits id hid
  have hbetween (hold : 0 < page.old.size) : 8 ≤ page.old.start ∧ (page.old.start : ℤ) + page.old.size ≤ last := by
    rw [← hown] at hold ⊢
    exact h.divides.own_between hid hold
  have hstart (hold : 0 < page.old.size) : page.old.start ≠ 0 := by
    have hfirst := (hbetween hold).1
    omega
  have hcovers := covers_old hpos hstart hsize mGaps
  have hplaced := suits_reuse hsuits hpos hsize hwhole mGaps
  rw [reuse_snd]
  cases hreleased : page.released with
  | none =>
    simp only [hreleased, elim_none, Nat.add_zero] at hcovers ⊢
    refine h.exchange hid hplaced h.kept (fun point ↦ ?_) fun _ point ↦ ?_ <;>
      rw [hown, hcovers point]
  | some range =>
    simp only [hreleased, elim_some] at hcovers ⊢
    obtain ⟨hcompressed, hpositive, hle, hend⟩ := released_spec hsuits hreleased hwhole
    obtain ⟨_, hpage, _⟩ := hsuits
    have hlast := hbetween (by omega)
    have hint : range.size < 2 ^ 31 := by
      have hsmall : (kDefaultPageSize : ℤ) < 2 ^ 31 := by decide
      omega
    obtain ⟨hkept, hbelow, habove⟩ := h.kept.add hcompressed hint (by omega) fun hexact ↦ hfits hexact range hreleased
    refine h.exchange hid hplaced hkept (fun point ↦ ?_) fun hexact point ↦ ?_
    · have hbelow := hbelow point
      rw [hown, hcovers point]
      omega
    · have habove := habove hexact point
      rw [hown, hcovers point]
      omega

/-! ### Taking a gap -/

theorem GapTracker.Kept.mono (h : mGaps.Kept exact compressed last) {last' : ℕ} (hle : last ≤ last') :
    mGaps.Kept exact compressed last' := by
  cases mGaps with
  | generic gaps =>
    obtain ⟨hcompressed, hints, hstarts, hpositive⟩ := h
    exact ⟨hcompressed, hints, fun gap hgap ↦ (hstarts gap hgap).trans hle, hpositive⟩
  | oneSize mGapStarts mSize => exact h

/-- What is allocated was in the gaps. -/
theorem GapTracker.Kept.allocate (h : mGaps.Kept exact compressed last)
    (hends : ∀ gap ∈ mGaps.gaps, 0 < gap.size → (gap.start : ℤ) + gap.size ≤ last) (size : ℕ) :
    (mGaps.allocate size).2.Kept exact compressed last ∧ ∀ point, cover (mGaps.allocate size).2.gaps point +
        (mGaps.allocate size).1.elim 0 (fun pos ↦ (Range.mk pos size).covers point) = cover mGaps.gaps point := by
  cases mGaps with
  | oneSize mGapStarts mSize =>
    obtain ⟨hcompressed, rfl⟩ := h
    exact ⟨⟨hcompressed, rfl⟩, fun point ↦ rfl⟩
  | generic gaps =>
    obtain ⟨hcompressed, hints, hstarts, hpositive⟩ := h
    simp only [GapTracker.allocate, GapTracker.gaps] at hends ⊢
    rcases hallocate : GenericGapTracker.allocate size gaps with ⟨pos, rest⟩
    cases pos with
    | none =>
      rw [allocate_none hallocate]
      exact ⟨⟨hcompressed, hints, hstarts, hpositive⟩, fun point ↦ rfl⟩
    | some pos =>
      refine ⟨⟨hcompressed, ?_, ?_, fun hexact ↦ ?_⟩, fun point ↦ cover_allocate hallocate point⟩
      · refine forall_allocate hallocate hints fun gap hgap hmore ↦ ?_
        obtain ⟨hlow, hhigh⟩ := hints gap hgap
        exact ⟨by simp only; omega, by simp only; omega⟩
      · refine forall_allocate hallocate hstarts fun gap hgap hmore ↦ ?_
        have hend := hends gap hgap (by omega)
        simp only
        omega
      · refine forall_allocate hallocate (hpositive hexact) fun gap hgap hmore ↦ ?_
        simp only
        omega

section

variable (h : Ledger exact compressed owners own mGaps last) (hid : id ∈ owners) (hown : own id = page.placed)
include h hid hown

/-- A page without a place takes a gap, if there is one. -/
theorem Ledger.allocate (hsize : 0 < page.sizeOnDisk) (hle : page.sizeOnDisk ≤ kDefaultPageSize) :
    Ledger exact compressed owners
      (Function.update own id (page.moveTo (page.allocate mGaps).1).placed) (page.allocate mGaps).2 last := by
  unfold SaverPage.allocate
  by_cases hpos : page.filePos = 0
  · rw [if_pos hpos]
    have hends : ∀ gap ∈ mGaps.gaps, 0 < gap.size → (gap.start : ℤ) + gap.size ≤ last :=
      fun gap hgap hpositive ↦ (h.divides.free_between hgap hpositive).2
    obtain ⟨hkept, hcover⟩ := h.kept.allocate hends page.sizeOnDisk
    rcases hallocate : mGaps.allocate page.sizeOnDisk with ⟨gapPos, rest⟩
    rw [hallocate] at hkept hcover
    have hnone (point : ℕ) : (own id).covers point = 0 := by
      rw [hown, placed, if_pos hpos]
      exact Range.covers_of_size_nonpos le_rfl point
    cases gapPos with
    | none =>
      have hplaced : (page.moveTo page.filePos).placed = ⟨0, 0⟩ := if_pos hpos
      simp only [Option.getD_none, elim_none, Nat.add_zero] at hcover ⊢
      rw [hplaced]
      refine h.exchange hid (suits_none compressed) hkept (fun point ↦ ?_) fun _ point ↦ ?_ <;>
        rw [hcover point, hnone point, Range.covers_of_size_nonpos le_rfl]
    | some pos =>
      simp only [Option.getD_some, elim_some] at hcover ⊢
      have hne : pos ≠ 0 := by
        -- the byte at the beginning of the gap is behind the header
        rintro rfl
        have hbyte := (h.divides 0).1
        have hcovered := hcover 0
        rw [Range.covers_eq_one (le_refl 0) (by simpa using hsize)] at hcovered
        rw [between, if_neg (by omega)] at hbyte
        omega
      have hcompressed : compressed = true := by
        cases mGaps with
        | generic gaps => exact h.kept.1
        | oneSize mGapStarts mSize =>
          obtain ⟨_, rfl⟩ := h.kept
          cases hallocate
      have hplaced : (page.moveTo pos).placed = ⟨pos, page.sizeOnDisk⟩ := if_neg hne
      rw [hplaced]
      refine h.exchange hid ⟨Int.natCast_nonneg _, by simpa using hle, ?_⟩ hkept (fun point ↦ ?_) fun _ point ↦ ?_
      · rw [hcompressed]
        exact fun hnot ↦ Bool.noConfusion hnot
      · have hcovered := hcover point
        have hnone := hnone point
        omega
      · have hcovered := hcover point
        have hnone := hnone point
        omega
  · rw [if_neg hpos]
    have hsame : (page.moveTo page.filePos).placed = own id := hown.symm
    simp only [hsame, Function.update_eq_self]
    exact h

/-! ### Going to the end -/

/-- A page without a place gets one behind all others. -/
theorem Ledger.append (hle : page.sizeOnDisk ≤ kDefaultPageSize)
    (hwhole : compressed = false → page.sizeOnDisk = kDefaultPageSize) :
    (page.append last).1 ≠ 0 ∧ Ledger exact compressed owners
      (Function.update own id (page.moveTo (page.append last).1).placed) mGaps (page.append last).2 := by
  have hfirst := h.le_last
  unfold SaverPage.append
  by_cases hpos : page.filePos = 0
  · rw [if_pos hpos]
    have hnone (point : ℕ) : (own id).covers point = 0 := by
      rw [hown, placed, if_pos hpos]
      exact Range.covers_of_size_nonpos le_rfl point
    have hplaced : (page.moveTo last).placed = ⟨last, page.sizeOnDisk⟩ := if_neg (show last ≠ 0 by omega)
    rw [hplaced]
    refine ⟨by simp only; omega, h.divides.append hfirst hid hnone page.sizeOnDisk, ?_, ?_, ?_, ?_⟩
    · intro other hother
      by_cases heq : other = id
      · rw [heq, update_self]
        refine ⟨Int.natCast_nonneg _, by simpa using hle, fun hnot _ ↦ ⟨?_, h.aligned hnot⟩⟩
        exact congrArg Nat.cast (hwhole hnot)
      · rw [update_of_ne heq]
        exact h.suits other hother
    · exact h.kept.mono (Nat.le_add_right _ _)
    · simp only
      omega
    · intro hnot
      rw [hwhole hnot, Nat.cast_add, add_sub_right_comm]
      exact Int.dvd_add (h.aligned hnot) (Int.dvd_refl _)
  · rw [if_neg hpos]
    have hsame : (page.moveTo page.filePos).placed = own id := hown.symm
    simp only [hsame, Function.update_eq_self]
    exact ⟨hpos, h⟩

end

end Steps

/-! ## The loops over a batch -/

section Loops

variable {Rest : Type} {place : SaverPage → Rest → ℕ × Rest}

/-- Only the places of the pages of the batch change. -/
theorem placeEach_fst (place : SaverPage → Rest → ℕ × Rest) (batch : List PageId)
    (pages : PageId → SaverPage) (rest : Rest) (id : PageId) :
    (id ∉ batch → (placeEach place batch pages rest).1 id = pages id) ∧
      ∃ filePos, (placeEach place batch pages rest).1 id = (pages id).moveTo filePos := by
  induction batch generalizing pages rest with
  | nil => exact ⟨fun _ ↦ rfl, (pages id).filePos, rfl⟩
  | cons first batch ih =>
    obtain ⟨hothers, filePos, hmoved⟩ := ih
      (Function.update pages first ((pages first).moveTo (place (pages first) rest).1))
      (place (pages first) rest).2
    refine ⟨fun hnot ↦ ?_, filePos, ?_⟩
    · rw [List.mem_cons, not_or] at hnot
      exact (hothers hnot.2).trans (update_of_ne hnot.1 _ _)
    · refine hmoved.trans ?_
      by_cases heq : id = first
      · rw [heq, update_self]
        rfl
      · rw [update_of_ne heq]

/-- Every page of the batch meets a condition when its turn comes. -/
def EachMeets (place : SaverPage → Rest → ℕ × Rest) (meets : SaverPage → Rest → Prop) :
    List PageId → (PageId → SaverPage) → Rest → Prop
  | [], _, _ => True
  | id :: batch, pages, rest => meets (pages id) rest ∧
      EachMeets place meets batch (Function.update pages id ((pages id).moveTo (place (pages id) rest).1))
        (place (pages id) rest).2

instance decidableEachMeets (place : SaverPage → Rest → ℕ × Rest) (meets : SaverPage → Rest → Prop)
    [∀ page rest, Decidable (meets page rest)] :
    ∀ batch pages rest, Decidable (EachMeets place meets batch pages rest)
  | [], _, _ => isTrue trivial
  | _ :: batch, _, _ =>
    have := decidableEachMeets place meets batch
    inferInstanceAs (Decidable (_ ∧ _))

theorem eachMeets_of_forall {meets : SaverPage → Rest → Prop} (h : ∀ page rest, meets page rest)
    (batch : List PageId) (pages : PageId → SaverPage) (rest : Rest) :
    EachMeets place meets batch pages rest := by
  induction batch generalizing pages rest with
  | nil => trivial
  | cons id batch ih => exact ⟨h _ _, ih _ _⟩

section

variable {batch : List PageId} {pages : PageId → SaverPage} {rest : Rest}

theorem eachMeets_imp {meets : SaverPage → Rest → Prop} {condition : Prop}
    (h : condition → EachMeets place meets batch pages rest) :
    EachMeets place (fun page rest ↦ condition → meets page rest) batch pages rest := by
  induction batch generalizing pages rest with
  | nil => trivial
  | cons id batch ih => exact ⟨fun hcondition ↦ (h hcondition).1, ih fun hcondition ↦ (h hcondition).2⟩

/-- What holds of ownership after each turn holds after the loop. `before` and `after` say what a page
owns. -/
theorem placeEach_invariant {owners : Finset PageId} (invariant : (PageId → Range) → Rest → Prop)
    (before after : SaverPage → Range → Prop) (meets : SaverPage → Rest → Prop)
    (hstep : ∀ own rest page id, id ∈ owners → invariant own rest → before page (own id) → meets page rest → ∃ range, after (page.moveTo (place page rest).1) range ∧ invariant (Function.update own id range) (place page rest).2)
    (hnodup : batch.Nodup) (howners : ∀ id ∈ batch, id ∈ owners) {own : PageId → Range}
    (hinvariant : invariant own rest) (hbefore : ∀ id ∈ batch, before (pages id) (own id))
    (hmeets : EachMeets place meets batch pages rest) :
    ∃ own', invariant own' (placeEach place batch pages rest).2 ∧ (∀ id ∉ batch, own' id = own id) ∧
      ∀ id ∈ batch, after ((placeEach place batch pages rest).1 id) (own' id) := by
  induction batch generalizing pages rest own with
  | nil => exact ⟨own, hinvariant, fun _ _ ↦ rfl, List.forall_mem_nil _⟩
  | cons first batch ih =>
    obtain ⟨hfresh, hnodup⟩ := List.nodup_cons.mp hnodup
    obtain ⟨range, hafter, hinvariant⟩ := hstep own rest (pages first) first
      (howners first List.mem_cons_self) hinvariant (hbefore first List.mem_cons_self) hmeets.1
    have hne : ∀ id ∈ batch, id ≠ first := fun id hid heq ↦ hfresh (heq ▸ hid)
    obtain ⟨own', hinvariant', hothers, hplaced⟩ := ih hnodup
      (fun id hid ↦ howners id (List.mem_cons_of_mem _ hid)) hinvariant
      (fun id hid ↦ by
        rw [update_of_ne (hne id hid), update_of_ne (hne id hid)]
        exact hbefore id (List.mem_cons_of_mem _ hid))
      hmeets.2
    refine ⟨own', hinvariant', fun id hid ↦ ?_, fun id hid ↦ ?_⟩
    · rw [List.mem_cons, not_or] at hid
      rw [hothers id hid.2, update_of_ne hid.1]
    · obtain rfl | hid := List.mem_cons.mp hid
      · have hlast := (placeEach_fst place batch
          (Function.update pages id ((pages id).moveTo (place (pages id) rest).1))
          (place (pages id) rest).2 id).1 hfresh
        rw [placeEach, hothers id hfresh, update_self]
        simp only [hlast, update_self]
        exact hafter
      · exact hplaced id hid

end

/-! ### The three loops -/

/-- The sizes that a worker gives to the pages of a batch. -/
def SaverPage.Sized (compressed : Bool) (page : SaverPage) : Prop :=
  0 < page.sizeOnDisk ∧ page.sizeOnDisk ≤ kDefaultPageSize ∧ (compressed = false → page.sizeOnDisk = kDefaultPageSize)

/-- A full save keeps no gaps. -/
def trackerOf (compressed : Bool) (mGaps : Option GapTracker) : GapTracker :=
  mGaps.getD (if compressed then .generic [] else .oneSize [] 0)

variable {exact : Prop} {compressed : Bool} {owners : Finset PageId} {own : PageId → Range}
  {last : ℕ} {batch : List PageId} {pages : PageId → SaverPage}

/-- The first two loops. A full save does not have them. -/
theorem Ledger.placeInGaps {mGaps : Option GapTracker}
    (h : Ledger exact compressed owners own (trackerOf compressed mGaps) last)
    (hnodup : batch.Nodup) (howners : ∀ id ∈ batch, id ∈ owners)
    (hready : ∀ id ∈ batch, (pages id).Sized compressed ∧ (pages id).filePos = 0 ∧ own id = (pages id).old)
    (hfull : mGaps = none → ∀ id ∈ batch, (pages id).loaderPage = none)
    (hfits : exact → ∀ tracker ∈ mGaps, EachMeets SaverPage.reuse SaverPage.ReleaseFits batch pages tracker) :
    ∃ own', Ledger exact compressed owners own' (trackerOf compressed (Saver.placeInGaps batch pages mGaps).2) last ∧
      (∀ id ∉ batch, own' id = own id) ∧
      ∀ id ∈ batch, ((Saver.placeInGaps batch pages mGaps).1 id).Sized compressed ∧
        own' id = ((Saver.placeInGaps batch pages mGaps).1 id).placed := by
  cases mGaps with
  | none =>
    refine ⟨own, h, fun _ _ ↦ rfl, fun id hid ↦ ?_⟩
    obtain ⟨hsized, hpos, hown⟩ := hready id hid
    refine ⟨hsized, hown.trans ?_⟩
    rw [SaverPage.old, hfull rfl id hid, Saver.placeInGaps, placed, if_pos hpos]
    rfl
  | some tracker =>
    obtain ⟨own₁, hledger₁, hothers₁, hplaced₁⟩ := placeEach_invariant
      (fun own tracker ↦ Ledger exact compressed owners own tracker last)
      (fun page range ↦ page.Sized compressed ∧ page.filePos = 0 ∧ range = page.old)
      (fun page range ↦ page.Sized compressed ∧ range = page.placed)
      (fun page tracker ↦ exact → page.ReleaseFits tracker)
      (fun _ _ page _ hid hledger ⟨hsized, hpos, hown⟩ hmeets ↦
        ⟨_, ⟨hsized, rfl⟩, hledger.reuse hid hown hpos hsized.1 hsized.2.2 hmeets⟩)
      hnodup howners h hready (eachMeets_imp fun hexact ↦ hfits hexact tracker rfl)
    obtain ⟨own₂, hledger₂, hothers₂, hplaced₂⟩ := placeEach_invariant
      (fun own tracker ↦ Ledger exact compressed owners own tracker last)
      (fun page range ↦ page.Sized compressed ∧ range = page.placed)
      (fun page range ↦ page.Sized compressed ∧ range = page.placed) (fun _ _ ↦ True)
      (fun _ _ page _ hid hledger ⟨hsized, hown⟩ _ ↦
        ⟨_, ⟨hsized, rfl⟩, hledger.allocate hid hown hsized.1 hsized.2.1⟩)
      hnodup howners hledger₁ hplaced₁ (eachMeets_of_forall (fun _ _ ↦ trivial) _ _ _)
    exact ⟨own₂, hledger₂, fun id hid ↦ (hothers₂ id hid).trans (hothers₁ id hid), hplaced₂⟩

/-- The third loop. After it every page has a place. -/
theorem Ledger.appendEach {mGaps : GapTracker} (h : Ledger exact compressed owners own mGaps last)
    (hnodup : batch.Nodup) (howners : ∀ id ∈ batch, id ∈ owners)
    (hready : ∀ id ∈ batch, (pages id).Sized compressed ∧ own id = (pages id).placed) :
    ∃ own', Ledger exact compressed owners own' mGaps (placeEach SaverPage.append batch pages last).2 ∧
      (∀ id ∉ batch, own' id = own id) ∧
      ∀ id ∈ batch, own' id = ⟨((placeEach SaverPage.append batch pages last).1 id).filePos,
        ((placeEach SaverPage.append batch pages last).1 id).sizeOnDisk⟩ := by
  obtain ⟨own', hledger, hothers, hplaced⟩ := placeEach_invariant
    (fun own last ↦ Ledger exact compressed owners own mGaps last)
    (fun page range ↦ page.Sized compressed ∧ range = page.placed)
    (fun page range ↦ range = ⟨page.filePos, page.sizeOnDisk⟩) (fun _ _ ↦ True)
    (fun own last page id hid hledger ⟨hsized, hown⟩ _ ↦ by
      obtain ⟨hne, hnext⟩ := hledger.append hid hown hsized.2.1 hsized.2.2
      have hplaced : (page.moveTo (page.append last).1).placed = ⟨(page.append last).1, page.sizeOnDisk⟩ := if_neg hne
      exact ⟨_, hplaced, hnext⟩)
    hnodup howners h hready (eachMeets_of_forall (fun _ _ ↦ trivial) _ _ _)
  exact ⟨own', hledger, hothers, hplaced⟩

end Loops

end FdeEmugl.Snapshot
