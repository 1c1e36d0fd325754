import FdeEmugl.Snapshot.SaverLedger

/-!
# What is in a snapshot file

A page that is not zero is in the file as it was given to the writer: compressed if that made it
smaller. Since no byte belongs to two pages, what is written for one page leaves the others alone, also
when it is written over what a page had before. The index that follows says where to find them.
-/

namespace FdeEmugl.Snapshot

open Coverage Cyclic Files FdeEmugl.Stream
open SaverPage
open Saver
open List (length_map map_map mem_filter mem_map mem_toFinset)

/-! ## Pages and their bytes -/

/-- The assumptions on the libraries. `seen` are the contents that pages ever have. -/
structure Codec.Faithful (codec : Codec) (seen : Set Contents) : Prop where
  decompress_compress : ∀ contents ∈ seen, codec.decompress (codec.compress contents) = some contents
  compress_ne_nil : ∀ contents ∈ seen, codec.compress contents ≠ []
  hash_injOn : Set.InjOn codec.hash seen
  hash_ne_zero : ∀ contents ∈ seen, codec.hash contents ≠ .zero

/-- The bytes of a page that is not zero. -/
def encode (codec : Codec) (compressed : Bool) (contents : Contents) : List UInt8 :=
  if compressed ∧ (codec.compress contents).length < kDefaultPageSize then codec.compress contents
  else contents.1

section Pages

variable {codec : Codec} {seen : Set Contents} {contents : Contents}

theorem SaverPage.handle_eq (codec : Codec) (compressed : Bool) (contents : Contents) (page : SaverPage) :
    page.handle codec compressed contents = { page with
        sizeOnDisk := (encode codec compressed contents).length
        writePtr := encode codec compressed contents } := by
  unfold handle encode
  split_ifs
  · rfl
  · rw [contents.2]

theorem sized_encode (hcodec : codec.Faithful seen) (hcontents : contents ∈ seen) (compressed : Bool) :
    0 < (encode codec compressed contents).length ∧ (encode codec compressed contents).length ≤ kDefaultPageSize ∧
      (compressed = false → (encode codec compressed contents).length = kDefaultPageSize) := by
  unfold encode
  split_ifs with hsmaller
  · refine ⟨List.length_pos_iff.mpr (hcodec.compress_ne_nil contents hcontents), hsmaller.2.le, ?_⟩
    rw [hsmaller.1]
    nofun
  · rw [contents.2]
    exact ⟨by decide, le_rfl, fun _ ↦ rfl⟩

/-- A page of the file holds what is in memory. -/
structure SaverPage.Stored (codec : Codec) (compressed : Bool) (contents : Contents) (file : File)
    (page : SaverPage) : Prop where
  zero_iff : page.sizeOnDisk = 0 ↔ contents = .zero
  bytes_eq : page.sizeOnDisk ≠ 0 → segment file.bytes page.filePos page.sizeOnDisk = encode codec compressed contents
  hash_eq : page.sizeOnDisk ≠ 0 → page.hash = codec.hash contents

/-- Bytes that nobody writes to keep what is stored in them. -/
theorem SaverPage.Stored.of_segment {compressed : Bool} {file file' : File} {page : SaverPage}
    (h : page.Stored codec compressed contents file)
    (hsame : page.sizeOnDisk ≠ 0 → segment file'.bytes page.filePos page.sizeOnDisk =
      segment file.bytes page.filePos page.sizeOnDisk) : page.Stored codec compressed contents file' :=
  ⟨h.zero_iff, fun hne ↦ (hsame hne).trans (h.bytes_eq hne), h.hash_eq⟩

end Pages

/-! ## Combined writes -/

namespace WriteCombine

/-- The range of the file is as long as the buffer is filled. -/
def Filled (combine : WriteCombine) : Prop :=
  ∀ bounds ∈ combine.curr, bounds.2 = bounds.1 + combine.mWriteCombineBuffer.length

variable {combine : WriteCombine} {page : SaverPage}

theorem Filled.add (h : combine.Filled) (hsize : page.writePtr.length = page.sizeOnDisk) :
    (combine.add page).Filled := by
  unfold WriteCombine.add
  split
  · intro bounds hbounds
    cases hbounds
    simp only [hsize]
  · rename_i currStart currEnd hcurr
    have hlength := h (currStart, currEnd) hcurr
    split_ifs with hnext
    · intro bounds hbounds
      cases hbounds
      simp only [List.length_append, hsize] at hlength ⊢
      omega
    · intro bounds hbounds
      cases hbounds
      simp only [hsize]

/-- A page that follows the buffer is written with it, any other page after it. -/
theorem finish_add (h : combine.Filled) :
    (combine.add page).finish = combine.finish.pwrite page.writePtr page.filePos := by
  obtain ⟨file, buffer, curr⟩ := combine
  cases curr with
  | none => rfl
  | some bounds =>
    obtain ⟨currStart, currEnd⟩ := bounds
    have hlength : currEnd = currStart + buffer.length := h (currStart, currEnd) rfl
    simp only [WriteCombine.add, WriteCombine.finish]
    split_ifs with hnext
    · simp only [File.pwrite_append, ← hlength, hnext]
    · rfl

theorem finish_foldl (h : combine.Filled) {pages : List SaverPage}
    (hsizes : ∀ page ∈ pages, page.writePtr.length = page.sizeOnDisk) :
    (pages.foldl WriteCombine.add combine).finish =
      combine.finish.pwriteAll (pages.map fun page ↦ (page.filePos, page.writePtr)) := by
  induction pages generalizing combine with
  | nil => rfl
  | cons page pages ih =>
    obtain ⟨hsize, hsizes⟩ := List.forall_mem_cons.mp hsizes
    rw [List.foldl_cons, ih (h.add hsize) hsizes, finish_add h]
    rfl

end WriteCombine

/-! ## The invariant of a save -/

/-- A page that has not been written yet still occupies what it had in the save before. -/
def Saver.own (saver : Saver) (id : PageId) : Range :=
  if id ∈ saver.waiting then (saver.pages id).old
  else ⟨(saver.pages id).filePos, (saver.pages id).sizeOnDisk⟩

/-- A page that is still to be written. -/
structure Saver.Awaits (codec : Codec) (layout : Layout) (saver : Saver) (id : PageId) : Prop where
  mem_owners : id ∈ layout.owners
  filePos_eq : (saver.pages id).filePos = 0
  ne_zero : saver.memory id ≠ .zero
  hash_eq : (saver.pages id).hash = codec.hash (saver.memory id)
  full : saver.mGaps = none → (saver.pages id).loaderPage = none

structure Saver.Sound (exact : Prop) (codec : Codec) (layout : Layout) (saver : Saver) : Prop where
  ledger : Ledger exact saver.compressed layout.owners saver.own (trackerOf saver.compressed saver.mGaps)
    saver.mCurrentStreamPos
  awaits : ∀ id ∈ saver.waiting, saver.Awaits codec layout id
  stored : ∀ id ∈ layout.owners, id ∉ saver.waiting →
    (saver.pages id).Stored codec saver.compressed (saver.memory id) saver.file

section WritePage

variable {exact : Prop} {codec : Codec} {layout : Layout} {seen : Set Contents} {saver : Saver}
  {batch : List PageId}

/-- What the pages are after all loops. -/
theorem Saver.writePage_pages (codec : Codec) (batch : List PageId) (saver : Saver) (id : PageId) :
    (id ∉ batch → (saver.writePage codec batch).pages id = saver.pages id) ∧
      (id ∈ batch → ∃ filePos, (saver.writePage codec batch).pages id =
        ((saver.pages id).handle codec saver.compressed (saver.memory id)).moveTo filePos) := by
  have hgaps : (id ∉ batch → (placeInGaps batch (saver.handlePageSave codec batch) saver.mGaps).1 id =
      saver.handlePageSave codec batch id) ∧
      ∃ filePos, (placeInGaps batch (saver.handlePageSave codec batch) saver.mGaps).1 id =
        (saver.handlePageSave codec batch id).moveTo filePos := by
    cases saver.mGaps with
    | none => exact ⟨fun _ ↦ rfl, (saver.handlePageSave codec batch id).filePos, rfl⟩
    | some mGaps =>
      obtain ⟨hfirst, _, hreused⟩ := placeEach_fst reuse batch (saver.handlePageSave codec batch) mGaps id
      obtain ⟨hsecond, filePos, hallocated⟩ := placeEach_fst allocate batch
        (placeEach reuse batch (saver.handlePageSave codec batch) mGaps).1
        (placeEach reuse batch (saver.handlePageSave codec batch) mGaps).2 id
      refine ⟨fun hnot ↦ (hsecond hnot).trans (hfirst hnot), filePos, hallocated.trans ?_⟩
      rw [hreused]
      rfl
  obtain ⟨hlast, filePos, happended⟩ := placeEach_fst append batch
    (placeInGaps batch (saver.handlePageSave codec batch) saver.mGaps).1 saver.mCurrentStreamPos id
  refine ⟨fun hnot ↦ ?_, fun hin ↦ ⟨filePos, happended.trans ?_⟩⟩
  · exact ((hlast hnot).trans (hgaps.1 hnot)).trans (if_neg hnot)
  · obtain ⟨_, hplaced⟩ := hgaps.2
    rw [hplaced, handlePageSave, if_pos hin]
    rfl

theorem Saver.mGaps_of_writePage (h : (saver.writePage codec batch).mGaps = none) : saver.mGaps = none := by
  cases hgaps : saver.mGaps with
  | none => rfl
  | some mGaps =>
    simp only [Saver.writePage, hgaps] at h
    cases h

/-- The condition under which the batch loses no byte. -/
def Saver.BatchFits (codec : Codec) (batch : List PageId) (saver : Saver) : Prop :=
  ∀ mGaps ∈ saver.mGaps,
    EachMeets reuse ReleaseFits batch (saver.handlePageSave codec batch) mGaps

instance (codec : Codec) (batch : List PageId) (saver : Saver) : Decidable (saver.BatchFits codec batch) :=
  inferInstanceAs (Decidable (∀ _ ∈ _, _))

/-- The batch gets its places, and everybody else keeps theirs. -/
theorem Saver.Sound.writePage_ledger (h : saver.Sound exact codec layout) (hcodec : codec.Faithful seen)
    (hseen : ∀ id ∈ layout.owners, saver.memory id ∈ seen) (hnodup : batch.Nodup)
    (hbatch : ∀ id ∈ batch, id ∈ saver.waiting) (hfits : exact → saver.BatchFits codec batch) :
    Ledger exact saver.compressed layout.owners (saver.writePage codec batch).own
      (trackerOf saver.compressed (saver.writePage codec batch).mGaps)
      (saver.writePage codec batch).mCurrentStreamPos := by
  have howners : ∀ id ∈ batch, id ∈ layout.owners := fun id hid ↦ (h.awaits id (hbatch id hid)).mem_owners
  have hhandled (id : PageId) (hid : id ∈ batch) : saver.handlePageSave codec batch id =
      { saver.pages id with
        sizeOnDisk := (encode codec saver.compressed (saver.memory id)).length
        writePtr := encode codec saver.compressed (saver.memory id) } := by
    rw [handlePageSave, if_pos hid, handle_eq]
  have hready : ∀ id ∈ batch, (saver.handlePageSave codec batch id).Sized saver.compressed ∧
      (saver.handlePageSave codec batch id).filePos = 0 ∧
      saver.own id = (saver.handlePageSave codec batch id).old := by
    intro id hid
    have hawaits := h.awaits id (hbatch id hid)
    rw [hhandled id hid]
    refine ⟨sized_encode hcodec (hseen id (howners id hid)) saver.compressed, hawaits.filePos_eq, ?_⟩
    rw [Saver.own, if_pos (hbatch id hid)]
    rfl
  obtain ⟨own₁, hledger₁, hothers₁, hplaced₁⟩ := h.ledger.placeInGaps hnodup howners hready
    (fun hnone id hid ↦ by
      rw [hhandled id hid]
      exact (h.awaits id (hbatch id hid)).full hnone)
    hfits
  obtain ⟨own₂, hledger₂, hothers₂, hplaced₂⟩ := hledger₁.appendEach hnodup howners hplaced₁
  have hown : (saver.writePage codec batch).own = own₂ := by
    funext id
    by_cases hid : id ∈ batch
    · have hdone : id ∉ (saver.writePage codec batch).waiting := fun hmem ↦
        absurd hid (of_decide_eq_true (mem_filter.mp hmem).2)
      rw [Saver.own, if_neg hdone, hplaced₂ id hid]
      rfl
    · have hsame : id ∈ (saver.writePage codec batch).waiting ↔ id ∈ saver.waiting := by
        simp [Saver.writePage, hid]
      rw [hothers₂ id hid, hothers₁ id hid, Saver.own, Saver.own, (writePage_pages codec batch saver id).1 hid]
      simp only [hsame]
  rw [hown]
  exact hledger₂

/-- The writes of a batch, page by page. -/
theorem Saver.writePage_file (codec : Codec) (batch : List PageId) (saver : Saver) :
    (saver.writePage codec batch).file = saver.file.pwriteAll (batch.map fun id ↦
      (((saver.writePage codec batch).pages id).filePos, encode codec saver.compressed (saver.memory id))) := by
  have hpages (id : PageId) (hid : id ∈ batch) :
      ((saver.writePage codec batch).pages id).writePtr = encode codec saver.compressed (saver.memory id) ∧
        ((saver.writePage codec batch).pages id).sizeOnDisk =
          (encode codec saver.compressed (saver.memory id)).length := by
    obtain ⟨filePos, hpage⟩ := (writePage_pages codec batch saver id).2 hid
    rw [hpage, handle_eq]
    exact ⟨rfl, rfl⟩
  have hfilled : (WriteCombine.mk saver.file [] none).Filled := nofun
  have hsizes : ∀ page ∈ batch.map (saver.writePage codec batch).pages,
      page.writePtr.length = page.sizeOnDisk := by
    intro page hpage
    obtain ⟨id, hid, rfl⟩ := mem_map.mp hpage
    rw [(hpages id hid).1, (hpages id hid).2]
  have hfile := WriteCombine.finish_foldl hfilled hsizes
  rw [map_map] at hfile
  refine hfile.trans (congrArg saver.file.pwriteAll (List.map_congr_left fun id hid ↦ ?_))
  exact Prod.ext rfl (hpages id hid).1

/-- A batch is written. -/
theorem Saver.Sound.writePage (h : saver.Sound exact codec layout) (hcodec : codec.Faithful seen)
    (hseen : ∀ id ∈ layout.owners, saver.memory id ∈ seen) (hnodup : batch.Nodup)
    (hbatch : ∀ id ∈ batch, id ∈ saver.waiting) (hfits : exact → saver.BatchFits codec batch) :
    (saver.writePage codec batch).Sound exact codec layout := by
  have hledger := h.writePage_ledger hcodec hseen hnodup hbatch hfits
  set next := saver.writePage codec batch with hnext
  have howners : ∀ id ∈ batch, id ∈ layout.owners := fun id hid ↦ (h.awaits id (hbatch id hid)).mem_owners
  have hmem (id : PageId) : id ∈ next.waiting ↔ id ∈ saver.waiting ∧ id ∉ batch := by
    simp [hnext, Saver.writePage]
  have hwritten (id : PageId) (hid : id ∈ batch) :
      (next.pages id).sizeOnDisk = (encode codec saver.compressed (saver.memory id)).length ∧
        (next.pages id).hash = codec.hash (saver.memory id) := by
    obtain ⟨filePos, hpage⟩ := (writePage_pages codec batch saver id).2 hid
    rw [hnext, hpage, handle_eq]
    exact ⟨rfl, (h.awaits id (hbatch id hid)).hash_eq⟩
  have hpositive (id : PageId) (hid : id ∈ batch) :
      0 < (encode codec saver.compressed (saver.memory id)).length :=
    (sized_encode hcodec (hseen id (howners id hid)) saver.compressed).1
  have hsettled (id : PageId) (hid : id ∉ next.waiting) :
      next.own id = ⟨(next.pages id).filePos, (next.pages id).sizeOnDisk⟩ := if_neg hid
  -- two pages that have been written do not overlap
  have hapart (id other : PageId) (hid : id ∈ layout.owners) (hother : other ∈ batch) (hne : id ≠ other)
      (hdone : id ∉ next.waiting) (hsize : (next.pages id).sizeOnDisk ≠ 0) :
      (next.pages id).filePos + (next.pages id).sizeOnDisk ≤ (next.pages other).filePos ∨
        (next.pages other).filePos + (encode codec saver.compressed (saver.memory other)).length ≤
          (next.pages id).filePos := by
    have hotherDone : other ∉ next.waiting := fun hwaits ↦ ((hmem other).mp hwaits).2 hother
    have hown := hledger.divides.apart hid (howners other hother) hne
    rw [hsettled id hdone, hsettled other hotherDone, (hwritten other hother).1] at hown
    simp only at hown
    have hpositive := hpositive other hother
    have happart := hown (by omega) (by omega)
    omega
  refine ⟨hledger, fun id hid ↦ ?_, fun id hid hdone ↦ ?_⟩
  · obtain ⟨hwaits, hnot⟩ := (hmem id).mp hid
    obtain ⟨howner, hpos, hzero, hhash, hfull⟩ := h.awaits id hwaits
    have hsame := (writePage_pages codec batch saver id).1 hnot
    refine ⟨howner, ?_, hzero, ?_, fun hnone ↦ ?_⟩
    · rw [hsame, hpos]
    · rw [hsame, hhash]
      rfl
    · rw [hsame]
      exact hfull (mGaps_of_writePage hnone)
  · have hfile := writePage_file codec batch saver
    by_cases hin : id ∈ batch
    · obtain ⟨hsize, hhash⟩ := hwritten id hin
      have hne := (hpositive id hin).ne'
      refine ⟨iff_of_false (by omega) (h.awaits id (hbatch id hin)).ne_zero, fun _ ↦ ?_, fun _ ↦ hhash⟩
      have happart : (batch.map fun other ↦ ((next.pages other).filePos,
          encode codec saver.compressed (saver.memory other))).Pairwise fun first second ↦
            first.1 + first.2.length ≤ second.1 ∨ second.1 + second.2.length ≤ first.1 := by
        refine List.pairwise_map.mpr (hnodup.pairwise_of_forall_ne fun first hfirst second hsecond hne ↦ ?_)
        have hsizes := hwritten first hfirst
        have hone := hapart first second (howners first hfirst) hsecond hne
          (fun hwaits ↦ ((hmem first).mp hwaits).2 hfirst) (by rw [hsizes.1]; exact (hpositive first hfirst).ne')
        rwa [hsizes.1] at hone
      rw [hfile, hsize]
      exact File.segment_pwriteAll happart (List.mem_map_of_mem hin)
    · have hwaits : id ∉ saver.waiting := fun hwaits ↦ hdone ((hmem id).mpr ⟨hwaits, hin⟩)
      have hsame := (writePage_pages codec batch saver id).1 hin
      rw [← hnext] at hsame
      have hstored := h.stored id hid hwaits
      rw [← hsame] at hstored
      refine hstored.of_segment fun hsize ↦ ?_
      rw [hfile]
      refine File.segment_pwriteAll_outside fun piece hpiece ↦ ?_
      obtain ⟨other, hother, rfl⟩ := mem_map.mp hpiece
      exact hapart id other hid hother (fun heq ↦ hin (heq ▸ hother)) hdone hsize

end WritePage

/-! ## A full save -/

theorem SaverPage.save_cases (codec : Codec) (contents : Contents) :
    (save codec contents).filePos = 0 ∧ (save codec contents).loaderPage = none ∧
      (save codec contents).same = false ∧
      ((save codec contents).sizeOnDisk = 0 ↔ contents = .zero) ∧
      (contents ≠ .zero → (save codec contents).hash = codec.hash contents) := by
  rw [← isBufferZeroed_iff]
  cases hzero : isBufferZeroed contents with
  | true => simp [save, SaverPage.new, calcHash, hzero, ← isBufferZeroed_iff]
  | false => simp [save, SaverPage.new, calcHash, hzero, kDefaultPageSize]

section Full

variable {codec : Codec} {layout : Layout}

theorem Saver.mem_waiting_full {compressed : Bool} {memory : Memory} {id : PageId} :
    id ∈ (Saver.full codec layout compressed memory).waiting ↔ id ∈ layout.owners ∧ memory id ≠ .zero := by
  obtain ⟨_, _, hsame, hzero, _⟩ := save_cases codec (memory id)
  simp [Saver.full, Layout.owners, changed, hsame, hzero]

/-- At the beginning of a full save nothing is in the file. -/
theorem Saver.sound_full (exact : Prop) (codec : Codec) (layout : Layout) (compressed : Bool) (memory : Memory) :
    (Saver.full codec layout compressed memory).Sound exact codec layout := by
  set saver := Saver.full codec layout compressed memory with hsaver
  have hpage (id : PageId) : saver.pages id = .save codec (memory id) := rfl
  have hnone : ∀ id ∈ layout.owners, saver.own id = ⟨0, 0⟩ := by
    intro id hid
    obtain ⟨hpos, hloader, hsame, hzero, _⟩ := save_cases codec (memory id)
    by_cases hwaits : id ∈ saver.waiting
    · rw [Saver.own, if_pos hwaits, SaverPage.old, hpage, hloader]
      rfl
    · have hsize : (save codec (memory id)).sizeOnDisk = 0 := by
        by_contra hne
        exact hwaits (mem_waiting_full.mpr ⟨hid, fun heq ↦ hne (hzero.mpr heq)⟩)
      rw [Saver.own, if_neg hwaits, hpage, hpos, hsize]
      rfl
  have hgaps : (trackerOf compressed none).gaps = [] := by
    cases compressed <;> rfl
  refine ⟨⟨fun point ↦ ?_, fun id hid ↦ ?_, ?_, le_rfl, fun _ ↦ by simp [hsaver, Saver.full]⟩,
    fun id hid ↦ ?_, fun id hid hdone ↦ ?_⟩
  · have howned : owned layout.owners saver.own point = 0 := by
      refine Finset.sum_eq_zero fun id hid ↦ ?_
      rw [hnone id hid]
      exact Range.covers_of_size_nonpos le_rfl point
    have hcover : cover (trackerOf compressed none).gaps point = 0 := by
      rw [hgaps]
      rfl
    have hbetween : between 8 8 point = 0 := if_neg (by omega)
    rw [howned, Nat.zero_add]
    exact ⟨hcover.le.trans (Nat.zero_le _), fun _ ↦ hbetween.le.trans (Nat.zero_le _)⟩
  · rw [hnone id hid]
    exact suits_none compressed
  · cases compressed
    · exact ⟨rfl, rfl⟩
    · exact ⟨rfl, List.forall_mem_nil _, List.forall_mem_nil _, fun _ ↦ List.forall_mem_nil _⟩
  · obtain ⟨hpos, hloader, _, hzero, hhash⟩ := save_cases codec (memory id)
    obtain ⟨howner, hne⟩ := mem_waiting_full.mp hid
    exact ⟨howner, hpos, hne, hhash hne, fun _ ↦ hloader⟩
  · obtain ⟨_, _, _, hzero, _⟩ := save_cases codec (memory id)
    have hcontents : memory id = .zero := by
      by_contra hne
      exact hdone (mem_waiting_full.mpr ⟨hid, hne⟩)
    have hsize := hzero.mpr hcontents
    exact ⟨hzero, fun hne ↦ absurd hsize hne, fun hne ↦ absurd hsize hne⟩

end Full

/-! ## The file of a finished save -/

section Finished

variable {exact : Prop} {codec : Codec} {layout : Layout} {saver : Saver} {file : File}

variable {id : PageId} {compressed : Bool} {loader : Loader}

theorem Saver.writeIndex_eq_some (hfile : saver.writeIndex layout = some file) :
    saver.waiting = [] ∧ saver.mCurrentStreamPos + (saver.indexBytes layout).length < 2 ^ 63 ∧
      file = ((saver.file.pwrite (saver.indexBytes layout) saver.mCurrentStreamPos).setFileSize
        (saver.mCurrentStreamPos + (saver.indexBytes layout).length)).pwrite
          (putBe64 (UInt64.ofNat saver.mCurrentStreamPos)) 0 := by
  obtain ⟨⟨hwaiting, hsize⟩, hsome⟩ := Option.ite_none_right_eq_some.mp hfile
  exact ⟨hwaiting, hsize, (Option.some.inj hsome).symm⟩

theorem Saver.indexBytes_ne_nil (layout : Layout) (saver : Saver) : saver.indexBytes layout ≠ [] := by
  rw [← List.length_pos_iff, indexBytes, Snapshot.writeIndex, List.length_append, length_putBe32]
  omega

/-- The bytes between the header and the index are those of the pages. -/
theorem Saver.segment_writeIndex (hfile : saver.writeIndex layout = some file) {start count : ℕ}
    (hstart : 8 ≤ start) (hend : start + count ≤ saver.mCurrentStreamPos) :
    segment file.bytes start count = segment saver.file.bytes start count := by
  obtain ⟨_, _, rfl⟩ := writeIndex_eq_some hfile
  rw [File.segment_pwrite_outside (Or.inr (by rw [length_putBe64]; omega))]
  have hsize : saver.mCurrentStreamPos + (saver.indexBytes layout).length ≤
      (saver.file.pwrite (saver.indexBytes layout) saver.mCurrentStreamPos).size :=
    File.le_size_pwrite (indexBytes_ne_nil layout saver)
  rw [File.segment_setFileSize (by omega) (by omega), File.segment_pwrite_outside (Or.inl hend)]

/-- The loader finds the index. -/
theorem Saver.pread_writeIndex (hfile : saver.writeIndex layout = some file) (hpos : 8 ≤ saver.mCurrentStreamPos) :
    (getBe64 (file.pread 8 0)).1.toNat = saver.mCurrentStreamPos ∧ saver.mCurrentStreamPos ≤ file.size ∧
      file.pread (file.size - saver.mCurrentStreamPos) saver.mCurrentStreamPos = saver.indexBytes layout := by
  obtain ⟨_, hlimit, hbytes⟩ := writeIndex_eq_some hfile
  have hne := indexBytes_ne_nil layout saver
  have hheader : (putBe64 (UInt64.ofNat saver.mCurrentStreamPos)).length = 8 := length_putBe64 _
  have hsize : file.size = saver.mCurrentStreamPos + (saver.indexBytes layout).length := by
    rw [hbytes, File.pwrite]
    simp only [File.setFileSize, ← List.length_eq_zero_iff, hheader]
    rw [if_neg (by decide)]
    omega
  have hfirst : file.pread 8 0 = putBe64 (UInt64.ofNat saver.mCurrentStreamPos) := by
    rw [File.pread_eq (by omega), hbytes, ← hheader]
    exact File.segment_pwrite
  refine ⟨?_, by omega, ?_⟩
  · have hback := getBe64_putBe64 (UInt64.ofNat saver.mCurrentStreamPos) []
    rw [List.append_nil] at hback
    rw [hfirst, hback, UInt64.toNat_ofNat_of_lt' (by rw [UInt64.size]; omega)]
  · have hgrown : saver.mCurrentStreamPos + (saver.indexBytes layout).length ≤
        (saver.file.pwrite (saver.indexBytes layout) saver.mCurrentStreamPos).size :=
      File.le_size_pwrite hne
    rw [File.pread_eq (by omega), hsize, Nat.add_sub_cancel_left, hbytes,
      File.segment_pwrite_outside (Or.inr (by rw [hheader]; omega)),
      File.segment_setFileSize le_rfl (by omega)]
    exact File.segment_pwrite

/-- What is stored when the index is written stays stored. -/
theorem Saver.Sound.stored_file (h : saver.Sound exact codec layout)
    (hfile : saver.writeIndex layout = some file) (hid : id ∈ layout.owners) :
    (saver.pages id).Stored codec saver.compressed (saver.memory id) file := by
  obtain ⟨hwaiting, _, _⟩ := writeIndex_eq_some hfile
  have hdone : id ∉ saver.waiting := by simp [hwaiting]
  refine (h.stored id hid hdone).of_segment fun hsize ↦ ?_
  have hown : saver.own id = ⟨(saver.pages id).filePos, (saver.pages id).sizeOnDisk⟩ := if_neg hdone
  have hbetween := h.ledger.divides.own_between hid (by rw [hown]; simp only; omega)
  rw [hown] at hbetween
  simp only at hbetween
  exact segment_writeIndex hfile hbetween.1 (by omega)

/-! ### The index -/

theorem Layout.mem_owners :
    id ∈ layout.owners ↔ ∃ block, layout.blocks[id.1]? = some block ∧ id.2 < layout.numPages block := by
  rw [Layout.owners, mem_toFinset, Layout.ids, List.mem_flatMap]
  constructor
  · rintro ⟨⟨block, position⟩, hblock, hid⟩
    obtain ⟨page, hpage, rfl⟩ := mem_map.mp hid
    exact ⟨block, List.mem_zipIdx_iff_getElem?.mp hblock, List.mem_range.mp hpage⟩
  · rintro ⟨block, hblock, hpage⟩
    exact ⟨(block, id.1), List.mem_zipIdx_iff_getElem?.mpr hblock,
      mem_map.mpr ⟨id.2, List.mem_range.mpr hpage, rfl⟩⟩

theorem Layout.mem_index {pages : PageId → Page} {block : SavedBlock}
    (hblock : block ∈ (layout.index compressed pages).blocks) :
    ∃ (position : ℕ) (own : RamBlock × ℕ), layout.blocks[position]? = some own ∧ block.ramBlock = own.1 ∧
      block.pages = (List.range (layout.numPages own)).map fun page ↦ pages (position, page) := by
  obtain ⟨⟨own, position⟩, hown, rfl⟩ := mem_map.mp hblock
  exact ⟨position, own, List.mem_zipIdx_iff_getElem?.mp hown, rfl, rfl⟩

theorem Layout.index_ramBlocks (layout : Layout) (compressed : Bool) (pages : PageId → Page) :
    (layout.index compressed pages).blocks.map SavedBlock.ramBlock = layout.blocks.map Prod.fst := by
  rw [Layout.index, map_map]
  conv_rhs => rw [← List.zipIdx_map_fst 0 layout.blocks, map_map]
  rfl

/-- What the index says about a page that has been saved. -/
theorem Saver.Sound.entry_toPage (h : saver.Sound exact codec layout)
    (hfile : saver.writeIndex layout = some file) (hid : id ∈ layout.owners) :
    (saver.pages id).toPage.entry = (if (saver.pages id).sizeOnDisk = 0 then (0, 0, .zero)
        else ((saver.pages id).sizeOnDisk, (saver.pages id).filePos, (saver.pages id).hash)) ∧
      (saver.pages id).toPage.Allowed saver.compressed [kDefaultPageSize] kDefaultPageSize := by
  obtain ⟨hwaiting, hlimit, _⟩ := writeIndex_eq_some hfile
  have hown : saver.own id = ⟨(saver.pages id).filePos, (saver.pages id).sizeOnDisk⟩ := if_neg (by simp [hwaiting])
  have hsuits := h.ledger.suits id hid
  have hbetween := h.ledger.divides.own_between hid
  rw [hown] at hsuits hbetween
  obtain ⟨_, hle, hfull⟩ := hsuits
  simp only at hle hfull hbetween
  by_cases hsize : (saver.pages id).sizeOnDisk = 0
  · have hzero : (saver.pages id).toPage.sizeOnDisk = 0 := by
      unfold toPage
      split_ifs
      · exact hsize
      · rfl
    refine ⟨?_, ?_⟩
    · rw [Page.entry, Page.zeroed, hzero, if_pos hsize]
      rfl
    · unfold Page.Allowed
      split_ifs
      · omega
      · exact Or.inl hzero
  · have hend := hbetween (by omega)
    have hpage : (saver.pages id).toPage = ⟨(saver.pages id).sizeOnDisk, (saver.pages id).filePos,
        (saver.pages id).hash, by omega⟩ := dif_pos (by omega)
    refine ⟨?_, ?_⟩
    · rw [hpage, if_neg hsize]
      exact if_neg (by simpa [Page.zeroed] using hsize)
    · rw [hpage]
      unfold Page.Allowed
      split_ifs with hcompressed
      · simp only
        omega
      · obtain ⟨hwhole, haligned⟩ := hfull (by simpa using hcompressed) (by omega)
        refine Or.inr ⟨by simp only; omega, fun size hmem ↦ ?_⟩
        rw [List.mem_singleton.mp hmem]
        exact haligned

theorem Page.Allowed.of_sizes {sizes sizes' : List ℕ} {pageSize : ℕ} {page : Page}
    (h : page.Allowed compressed sizes pageSize) (hsizes : ∀ size ∈ sizes', size ∈ sizes) :
    page.Allowed compressed sizes' pageSize := by
  cases compressed with
  | true => exact h
  | false => exact Or.imp_right (fun hwhole ↦ ⟨hwhole.1, fun size hsize ↦ hwhole.2 size (hsizes size hsize)⟩) h

theorem Saver.Sound.index_allowed (h : saver.Sound exact codec layout) (hfile : saver.writeIndex layout = some file) :
    (layout.index saver.compressed fun id ↦ (saver.pages id).toPage).Allowed := by
  have hsizes : ∀ block ∈ (layout.index saver.compressed fun id ↦ (saver.pages id).toPage).blocks,
      block.ramBlock.pageSize = kDefaultPageSize := by
    intro block hblock
    obtain ⟨position, own, hown, hram, _⟩ := Layout.mem_index hblock
    rw [hram]
    exact layout.pageSize_eq own (List.mem_of_getElem? hown)
  intro block hblock _
  obtain ⟨position, own, hown, _, hpages⟩ := Layout.mem_index hblock
  rw [hsizes block hblock]
  refine ⟨by decide, by decide, fun page hpage ↦ ?_⟩
  rw [hpages] at hpage
  obtain ⟨number, hnumber, rfl⟩ := mem_map.mp hpage
  have hid : (position, number) ∈ layout.owners := Layout.mem_owners.mpr ⟨own, hown, List.mem_range.mp hnumber⟩
  refine (h.entry_toPage hfile hid).2.of_sizes fun size hsize ↦ ?_
  obtain ⟨other, hother, rfl⟩ := mem_map.mp hsize
  exact List.mem_singleton.mpr (hsizes other (mem_filter.mp hother).1)

/-! ### What the loader gets -/

/-- A loader that has read the index of the file. -/
structure Loader.Mirrors (layout : Layout) (mIndexOnly : Bool) (saver : Saver) (loader : Loader) : Prop where
  compressed_eq : loader.compressed = saver.compressed
  version_eq : loader.mVersion = 2
  gaps_eq : loader.mGaps = some (GapTracker.load saver.compressed (saver.mGaps.getD (.oneSize [] 0)).save)
  pages : ∀ id ∈ layout.owners, ∃ own page, loader.blocks[id.1]? = some own ∧
    own.pagesBegin + id.2 < own.pagesEnd ∧ loader.pages[own.pagesBegin + id.2]? = some page ∧
    page.entry = (saver.pages id).toPage.entry ∧ page.Fresh mIndexOnly id.1
  bounded : ∀ (position : ℕ) page, loader.pages[position]? = some page →
    ∃ id ∈ layout.owners, ∃ own, loader.blocks[id.1]? = some own ∧ position = own.pagesBegin + id.2

section

variable {own : LoaderBlock} {pages : List Page} (h : loader.Holds own pages)
include h

theorem Loader.Holds.getElem {number : ℕ} {page : Page} (hpage : pages[number]? = some page) :
    ∃ loaded ∈ loader.pagesOf own, own.pagesBegin + number < own.pagesEnd ∧
      loader.pages[own.pagesBegin + number]? = some loaded ∧ loaded.entry = page.entry := by
  have hentry := congrArg (fun entries ↦ entries[number]?) h.entries_eq
  simp only [List.getElem?_map, hpage, Option.map_some] at hentry
  obtain ⟨loaded, hloaded, heq⟩ := Option.map_eq_some_iff.mp hentry
  have hmem := List.mem_of_getElem? hloaded
  rw [Loader.pagesOf, List.getElem?_drop, List.getElem?_take] at hloaded
  obtain ⟨hlt, hsome⟩ := Option.ite_none_right_eq_some.mp hloaded
  exact ⟨loaded, hmem, hlt, hsome, heq⟩

theorem Loader.Holds.length_eq : own.pagesEnd - own.pagesBegin = pages.length := by
  have hlength := congrArg List.length h.entries_eq
  have hend := h.end_le
  rw [length_map, length_map, Loader.pagesOf, List.length_drop, List.length_take,
    Nat.min_eq_left hend] at hlength
  exact hlength

end

/-- The loader has the block of the layout at the same index. -/
theorem Loader.TookAll.getElem {start : Loader} {pages : PageId → Page}
    (h : start.TookAll (layout.index compressed pages).blocks loader)
    (hids : (start.blocks.map fun block ↦ block.ramBlock.id) = layout.blocks.map fun block ↦ block.1.id)
    {position : ℕ} {block : RamBlock × ℕ} (hblock : layout.blocks[position]? = some block) :
    ∃ own, loader.blocks[position]? = some own ∧
      loader.Holds own ((List.range (layout.numPages block)).map fun page ↦ pages (position, page)) ∧
      ∀ page ∈ loader.pagesOf own, page.Fresh start.mIndexOnly position := by
  have hmem : ⟨block.1, (List.range (layout.numPages block)).map fun page ↦ pages (position, page)⟩ ∈
      (layout.index compressed pages).blocks :=
    mem_map.mpr ⟨(block, position), List.mem_zipIdx_iff_getElem?.mpr hblock, rfl⟩
  obtain ⟨blockIndex, own, hown, hsame, hholds, hfresh⟩ := h.held _ hmem
  have hplace : position = blockIndex := by
    have hlt := (List.getElem?_eq_some_iff.mp hblock).1
    have hfound : (loader.blocks.map fun block ↦ block.ramBlock.id)[blockIndex]? = some own.ramBlock.id := by
      rw [List.getElem?_map, hown]
      rfl
    refine (List.getElem?_inj (by rwa [length_map]) layout.nodup_ids).mp ?_
    rw [List.getElem?_map, hblock, ← hids, ← h.ids_eq, hfound, hsame]
    rfl
  subst hplace
  exact ⟨own, hown, hholds, hfresh⟩

theorem Saver.Sound.ofFile (h : saver.Sound exact codec layout)
    (hfile : saver.writeIndex layout = some file) (hasRamFile : List UInt8 → Bool) (mIndexOnly : Bool) :
    ∃ loader, Loader.ofFile hasRamFile layout mIndexOnly file = some (loader, saver.mCurrentStreamPos) ∧
      loader.Mirrors layout mIndexOnly saver := by
  set index := layout.index saver.compressed fun id ↦ (saver.pages id).toPage with hindex
  have hram : index.blocks.map SavedBlock.ramBlock = layout.blocks.map Prod.fst :=
    layout.index_ramBlocks saver.compressed _
  have hnames : (index.blocks.map fun block ↦ block.ramBlock.id) = layout.blocks.map fun block ↦ block.1.id := by
    have hboth := congrArg (List.map RamBlock.id) hram
    rwa [map_map, map_map] at hboth
  have hlengths : ∀ block ∈ index.blocks, block.ramBlock.id.length ≤ 255 := by
    intro block hblock
    obtain ⟨position, own, hown, hsame, _⟩ := Layout.mem_index hblock
    rw [hsame]
    exact layout.id_le own (List.mem_of_getElem? hown)
  obtain ⟨loader, hread, htook⟩ := Loader.readIndex_blocks hasRamFile mIndexOnly saver.mGaps
    (hnames ▸ layout.nodup_ids) hlengths (List.Perm.of_eq hram.symm) (h.index_allowed hfile)
  obtain ⟨hheader, _, hbuffer⟩ := pread_writeIndex hfile h.ledger.le_last
  have hstart : ((Loader.atBlocks mIndexOnly (layout.blocks.map Prod.fst) index).blocks.map fun block ↦
      block.ramBlock.id) = layout.blocks.map fun block ↦ block.1.id := by
    rw [Loader.atBlocks_ids, map_map]
    rfl
  set tracker := GapTracker.load saver.compressed (saver.mGaps.getD (.oneSize [] 0)).save with htracker
  refine ⟨{ loader with mGaps := some tracker }, ?_, ?_⟩
  · simp only [Loader.ofFile, Loader.readIndexOf, hheader, hbuffer]
    rw [indexBytes, ← hindex, hread, GapTracker.get_fst]
    rfl
  · refine ⟨?_, htook.version_eq, rfl, fun id hid ↦ ?_, fun position page hpage ↦ ?_⟩
    · exact (congrArg (fun flags : UInt32 ↦ flags &&& 1 != 0) htook.flags_eq).trans index.flags_compressed
    · obtain ⟨block, hblock, hnumber⟩ := Layout.mem_owners.mp hid
      obtain ⟨own, hown, hholds, hfresh⟩ := htook.getElem hstart hblock
      have hget : ((List.range (layout.numPages block)).map fun page ↦
          (saver.pages (id.1, page)).toPage)[id.2]? = some (saver.pages id).toPage := by
        simp [hnumber]
      obtain ⟨page, hmem, hlt, hpage, hentry⟩ := hholds.getElem hget
      have hnew := hfresh page hmem
      rw [Loader.atBlocks_indexOnly] at hnew
      exact ⟨own, page, hown, hlt, hpage, hentry, hnew⟩
    · obtain ⟨blockIndex, own, hown, hbegin, hend, _⟩ := htook.bounded position page
        (by rw [Loader.atBlocks_pages]; exact Nat.zero_le _) hpage
      have hsame : (loader.blocks.map fun block ↦ block.ramBlock.id).length =
          (layout.blocks.map fun block ↦ block.1.id).length := by
        rw [htook.ids_eq, hstart]
      rw [length_map, length_map] at hsame
      have hlt : blockIndex < layout.blocks.length := hsame ▸ (List.getElem?_eq_some_iff.mp hown).1
      obtain ⟨own', hown', hholds, _⟩ := htook.getElem hstart (List.getElem?_eq_getElem hlt)
      cases hown.symm.trans hown'
      have hlength := hholds.length_eq
      rw [length_map, List.length_range] at hlength
      refine ⟨(blockIndex, position - own.pagesBegin), ?_, own, hown, by simp only; omega⟩
      exact Layout.mem_owners.mpr ⟨_, List.getElem?_eq_getElem hlt, by simp only; omega⟩

end Finished

/-! ## An incremental save -/

section Again

variable {codec : Codec} {seen : Set Contents}

/-- What the index of the save before says about a page. -/
structure LoaderPage.Describes (codec : Codec) (last : Contents) (page : LoaderPage) : Prop where
  zero_iff : page.sizeOnDisk = 0 ↔ last = .zero
  empty : page.sizeOnDisk = 0 → page.filePos = 0 ∧ page.hash = .zero
  hash_eq : page.sizeOnDisk ≠ 0 → page.hash = codec.hash last

/-- A page is changed, or the same as before, or has become zero. -/
theorem SaverPage.saveAgain_cases (hcodec : codec.Faithful seen) {loaderPage : LoaderPage} {unloaded : Bool}
    {contents last : Contents} (hcontents : contents ∈ seen) (hlast : last ∈ seen)
    (h : loaderPage.Describes codec last) (hunloaded : unloaded = true → contents = last) :
    (saveAgain codec loaderPage unloaded contents).loaderPage = some loaderPage ∧
      ((saveAgain codec loaderPage unloaded contents).changed = true ∧ contents ≠ .zero ∧
          (saveAgain codec loaderPage unloaded contents).filePos = 0 ∧
          (saveAgain codec loaderPage unloaded contents).hash = codec.hash contents ∨
        (saveAgain codec loaderPage unloaded contents).changed = false ∧ contents = last ∧
          (saveAgain codec loaderPage unloaded contents).filePos = loaderPage.filePos ∧
          (saveAgain codec loaderPage unloaded contents).sizeOnDisk = loaderPage.sizeOnDisk ∧
          (loaderPage.sizeOnDisk ≠ 0 →
            (saveAgain codec loaderPage unloaded contents).hash = codec.hash contents) ∨
        (saveAgain codec loaderPage unloaded contents).changed = false ∧ contents = .zero ∧
          last ≠ .zero ∧ (saveAgain codec loaderPage unloaded contents).sizeOnDisk = 0) := by
  have hne := hcodec.hash_ne_zero
  unfold saveAgain setLoaderPage
  cases unloaded with
  | true =>
    obtain rfl := hunloaded rfl
    by_cases hsize : loaderPage.sizeOnDisk = 0
    · simp [calcHash, compare, changed, hsize]
    · have hhash := h.hash_eq hsize
      simp [calcHash, compare, changed, hsize, hhash]
  | false =>
    by_cases hzero : contents = .zero
    · subst hzero
      have hzeroed : isBufferZeroed .zero = true := isBufferZeroed_iff.mpr rfl
      by_cases hsize : loaderPage.sizeOnDisk = 0
      · have hempty := h.empty hsize
        simp [SaverPage.new, calcHash, compare, changed, hsize, hzeroed, hempty,
          h.zero_iff.mp hsize]
      · have hdifferent : Hash.zero ≠ loaderPage.hash := by
          rw [h.hash_eq hsize]
          exact (hne last hlast).symm
        simp [SaverPage.new, calcHash, compare, changed, hsize, hzeroed,
          hdifferent, h.zero_iff.not.mp hsize]
    · have hzeroed : isBufferZeroed contents = false := by
        rw [← Bool.not_eq_true, isBufferZeroed_iff]
        exact hzero
      by_cases hsame : codec.hash contents = loaderPage.hash
      · have hsize : loaderPage.sizeOnDisk ≠ 0 := fun hsize ↦
          hne contents hcontents (hsame.trans (h.empty hsize).2)
        obtain rfl : contents = last := hcodec.hash_injOn hcontents hlast (hsame.trans (h.hash_eq hsize))
        simp [SaverPage.new, calcHash, compare, changed, hzeroed, hsame,
          kDefaultPageSize]
      · simp [SaverPage.new, calcHash, compare, changed, hzeroed, hsame, hzero,
          kDefaultPageSize]

/-- The loader has at most the gaps that were saved, and all of them if their sizes are positive. -/
theorem GapTracker.Kept.load {exact : Prop} {compressed : Bool} {last : ℕ} {mGaps : Option GapTracker}
    (h : (trackerOf compressed mGaps).Kept exact compressed last) (hlast : last < 2 ^ 63)
    (hlength : ((mGaps.getD (.oneSize [] 0)).save).length < 2 ^ 63) :
    (GapTracker.load compressed (mGaps.getD (.oneSize [] 0)).save).Kept exact compressed last ∧
      (∀ point, cover (GapTracker.load compressed (mGaps.getD (.oneSize [] 0)).save).gaps point ≤
        cover (trackerOf compressed mGaps).gaps point) ∧
      (exact → ∀ point, cover (trackerOf compressed mGaps).gaps point ≤
        cover (GapTracker.load compressed (mGaps.getD (.oneSize [] 0)).save).gaps point) := by
  cases mGaps with
  | none =>
    cases compressed with
    | true => exact ⟨h, fun _ ↦ le_rfl, fun _ _ ↦ le_rfl⟩
    | false => exact ⟨h, fun _ ↦ le_rfl, fun _ _ ↦ le_rfl⟩
  | some tracker =>
    cases tracker with
    | oneSize mGapStarts mSize =>
      obtain ⟨rfl, rfl⟩ := h
      have hsave : (GapTracker.oneSize [] mSize).save = putBe32 0 := by rw [GapTracker.save]
      have hload : GapTracker.load false (putBe32 0) = .oneSize [] 0 := rfl
      simp only [Option.getD_some, hsave, hload]
      exact ⟨⟨rfl, rfl⟩, fun _ ↦ le_rfl, fun _ _ ↦ le_rfl⟩
    | generic gaps =>
      obtain ⟨rfl, hints, hstarts, hpositive⟩ := h
      have hbelow : ∀ gap ∈ gaps, gap.start < 2 ^ 63 := fun gap hgap ↦ (hstarts gap hgap).trans_lt hlast
      have hmem {gap : Range} (hgap : gap ∈ GenericGapTracker.load (GenericGapTracker.save gaps)) :
          gap ∈ gaps := GenericGapTracker.mem_of_mem_load_save hints hbelow hlength hgap
      refine ⟨⟨rfl, fun gap hgap ↦ hints gap (hmem hgap), fun gap hgap ↦ hstarts gap (hmem hgap),
        fun hexact gap hgap ↦ hpositive hexact gap (hmem hgap)⟩, fun point ↦ ?_, fun hexact point ↦ ?_⟩
      · exact GenericGapTracker.cover_load_save_le hints hbelow hlength point
      · exact (cover_perm (GenericGapTracker.load_save_perm hints (hpositive hexact) hbelow hlength) point).ge

variable {exact : Prop} {layout : Layout} {before saver : Saver} {file : File} {mIndexOnly : Bool} {loader : Loader}

section

variable (h : before.Sound exact codec layout) (hfile : before.writeIndex layout = some file)
include h hfile

/-- What the loader knows about a page. -/
theorem Saver.Sound.findPage (hmirrors : loader.Mirrors layout mIndexOnly before) {id : PageId}
    (hid : id ∈ layout.owners) :
    ∃ page, loader.findPage id = some page ∧ page.sizeOnDisk = (before.pages id).sizeOnDisk ∧
      (page.sizeOnDisk ≠ 0 → page.filePos = (before.pages id).filePos) ∧
      page.Describes codec (before.memory id) := by
  obtain ⟨own, page, hown, hlt, hpage, hentry, _⟩ := hmirrors.pages id hid
  rw [(h.entry_toPage hfile hid).1] at hentry
  have hstored := h.stored_file hfile hid
  have hfound : loader.findPage id = some page := by
    rw [Loader.findPage, hown, Option.bind_some, if_neg (by omega), hpage]
  refine ⟨page, hfound, ?_⟩
  simp only [LoaderPage.entry] at hentry
  split_ifs at hentry with hsize
  · obtain ⟨hzero, hrest⟩ := Prod.mk.inj hentry
    obtain ⟨hpos, hhash⟩ := Prod.mk.inj hrest
    refine ⟨hzero.trans hsize.symm, fun hne ↦ absurd hzero hne, ?_, fun _ ↦ ⟨hpos, hhash⟩, fun hne ↦ absurd hzero hne⟩
    exact iff_of_true hzero (hstored.zero_iff.mp hsize)
  · obtain ⟨hequal, hrest⟩ := Prod.mk.inj hentry
    obtain ⟨hpos, hhash⟩ := Prod.mk.inj hrest
    refine ⟨hequal, fun _ ↦ hpos, ?_, fun hzero ↦ absurd (hequal.symm.trans hzero) hsize,
      fun _ ↦ hhash.trans (hstored.hash_eq hsize)⟩
    rw [hequal]
    exact hstored.zero_iff

/-- An incremental save begins with what the save before has left. Nothing is lost if no page has
become zero. -/
theorem Saver.Sound.incremental (hcodec : codec.Faithful seen)
    (hbefore : ∀ id ∈ layout.owners, before.memory id ∈ seen) {memory : Memory}
    (hseen : ∀ id ∈ layout.owners, memory id ∈ seen) {unloaded : PageId → Bool}
    (hunloaded : ∀ id ∈ layout.owners, unloaded id = true → memory id = before.memory id)
    (hzero : exact → ∀ id ∈ layout.owners, memory id = .zero → before.memory id = .zero)
    (hasRamFile : List UInt8 → Bool) (mIndexOnly : Bool) :
    ∃ saver, Saver.incremental codec hasRamFile layout mIndexOnly unloaded memory file = some saver ∧
      saver.memory = memory ∧ saver.compressed = before.compressed ∧ saver.Sound exact codec layout := by
  obtain ⟨loader, hloader, hmirrors⟩ := h.ofFile hfile hasRamFile mIndexOnly
  obtain ⟨hwaiting, hlimit, _⟩ := writeIndex_eq_some hfile
  have hfound : layout.ids.all (fun id ↦ (loader.findPage id).isSome) = true := by
    refine List.all_eq_true.mpr fun id hid ↦ ?_
    obtain ⟨page, hpage, _⟩ := h.findPage hfile hmirrors (mem_toFinset.mpr hid)
    rw [hpage]
    rfl
  set pages : PageId → SaverPage := fun id ↦ (loader.findPage id).elim (.new (memory id))
    fun loaderPage ↦ .saveAgain codec loaderPage (unloaded id) (memory id) with hpages
  set tracker := GapTracker.load before.compressed (before.mGaps.getD (.oneSize [] 0)).save with htracker
  set saver : Saver :=
    { compressed := before.compressed
      memory := memory
      mGaps := some tracker
      mCurrentStreamPos := before.mCurrentStreamPos
      pages := pages
      waiting := layout.ids.filter fun id ↦ (pages id).changed
      file := file } with hsaver
  have hlength : ((before.mGaps.getD (.oneSize [] 0)).save).length < 2 ^ 63 := by
    rw [indexBytes, Snapshot.writeIndex] at hlimit
    simp only [List.length_append] at hlimit
    omega
  obtain ⟨hkept, hless, hmore⟩ := h.ledger.kept.load (by omega) hlength
  have hmem (id : PageId) (hid : id ∈ layout.owners) : id ∈ saver.waiting ↔ (pages id).changed = true := by
    rw [mem_filter, and_iff_right (mem_toFinset.mp hid)]
  refine ⟨saver, ?_, rfl, rfl, ?_⟩
  · rw [Saver.incremental, hloader, Option.bind_some, if_pos hfound, hmirrors.gaps_eq, Option.map_some,
      hmirrors.compressed_eq]
  have hcases (id : PageId) (hid : id ∈ layout.owners) :
      ∃ loaderPage, loaderPage.sizeOnDisk = (before.pages id).sizeOnDisk ∧
        (loaderPage.sizeOnDisk ≠ 0 → loaderPage.filePos = (before.pages id).filePos) ∧
        (pages id).loaderPage = some loaderPage ∧
        ((pages id).changed = true ∧ memory id ≠ .zero ∧ (pages id).filePos = 0 ∧
            (pages id).hash = codec.hash (memory id) ∨
          (pages id).changed = false ∧ memory id = before.memory id ∧
            (pages id).filePos = loaderPage.filePos ∧ (pages id).sizeOnDisk = loaderPage.sizeOnDisk ∧
            (loaderPage.sizeOnDisk ≠ 0 → (pages id).hash = codec.hash (memory id)) ∨
          (pages id).changed = false ∧ memory id = .zero ∧ before.memory id ≠ .zero ∧ (pages id).sizeOnDisk = 0) := by
    obtain ⟨loaderPage, hpage, hsize, hpos, hdescribes⟩ := h.findPage hfile hmirrors hid
    have hsaved : pages id = .saveAgain codec loaderPage (unloaded id) (memory id) := by
      rw [hpages]
      simp only [hpage, Option.elim_some]
    obtain ⟨hsame, hcase⟩ := saveAgain_cases hcodec (hseen id hid) (hbefore id hid) hdescribes
      (hunloaded id hid)
    rw [hsaved]
    exact ⟨loaderPage, hsize, hpos, hsame, hcase⟩
  -- a page occupies what it did before, or nothing
  have hown (id : PageId) (hid : id ∈ layout.owners) :
      (saver.own id).size = (before.own id).size ∧
          ((saver.own id).size ≠ 0 → (saver.own id).start = (before.own id).start) ∨
        (saver.own id).size = 0 ∧ ¬exact := by
    obtain ⟨loaderPage, hsize, hpos, hsame, hcase⟩ := hcases id hid
    have hpast : before.own id = ⟨(before.pages id).filePos, (before.pages id).sizeOnDisk⟩ :=
      if_neg (by simp [hwaiting])
    rw [hpast]
    obtain ⟨hchanged, _⟩ | ⟨hchanged, _, hplace, hequal, _⟩ | ⟨hchanged, hnow, hthen, hnone⟩ := hcase
    · have hrange : saver.own id = ⟨loaderPage.filePos, loaderPage.sizeOnDisk⟩ := by
        rw [Saver.own, if_pos ((hmem id hid).mpr hchanged), SaverPage.old]
        simp only [hsaver, hsame, Option.elim_some]
      rw [hrange]
      refine Or.inl ⟨by simp only [hsize], fun hne ↦ hpos fun hzero ↦ hne ?_⟩
      simp only [hzero, Nat.cast_zero]
    · have hrange : saver.own id = ⟨loaderPage.filePos, loaderPage.sizeOnDisk⟩ := by
        rw [Saver.own, if_neg (by rw [hmem id hid, hchanged]; exact Bool.false_ne_true)]
        simp only [hsaver, hplace, hequal]
      rw [hrange]
      refine Or.inl ⟨by simp only [hsize], fun hne ↦ hpos fun hzero ↦ hne ?_⟩
      simp only [hzero, Nat.cast_zero]
    · refine Or.inr ⟨?_, fun hexact ↦ hthen (hzero hexact id hid hnow)⟩
      rw [Saver.own, if_neg (by rw [hmem id hid, hchanged]; exact Bool.false_ne_true)]
      simp only [hsaver, hnone, Nat.cast_zero]
  have hcovers (id : PageId) (hid : id ∈ layout.owners) (point : ℕ) :
      (saver.own id).covers point ≤ (before.own id).covers point ∧
        (exact → (before.own id).covers point ≤ (saver.own id).covers point) := by
    obtain ⟨hsize, hstart⟩ | ⟨hnone, hnot⟩ := hown id hid
    · by_cases hempty : (saver.own id).size = 0
      · rw [Range.covers_of_size_nonpos hempty.le, Range.covers_of_size_nonpos (hsize ▸ hempty.le)]
        exact ⟨le_rfl, fun _ ↦ le_rfl⟩
      · have hequal : saver.own id = before.own id := by
          rw [Range.mk.injEq]
          exact ⟨hstart hempty, hsize⟩
        rw [hequal]
        exact ⟨le_rfl, fun _ ↦ le_rfl⟩
    · rw [Range.covers_of_size_nonpos hnone.le]
      exact ⟨Nat.zero_le _, fun hexact ↦ absurd hexact hnot⟩
  refine ⟨⟨?_, fun id hid ↦ ?_, hkept, h.ledger.le_last, h.ledger.aligned⟩, fun id hid ↦ ?_, fun id hid hdone ↦ ?_⟩
  · exact h.ledger.divides.of_le (fun id hid point ↦ (hcovers id hid point).1) hless
      fun hexact ↦ ⟨fun id hid point ↦ (hcovers id hid point).2 hexact, hmore hexact⟩
  · obtain ⟨hnonneg, hle, hfull⟩ := h.ledger.suits id hid
    obtain ⟨hsize, hstart⟩ | ⟨hnone, _⟩ := hown id hid
    · refine ⟨by omega, by omega, fun hnot hne ↦ ?_⟩
      obtain ⟨hwhole, haligned⟩ := hfull hnot (by omega)
      rw [hstart hne]
      exact ⟨by omega, haligned⟩
    · exact ⟨hnone.ge, by rw [hnone]; decide, fun _ hne ↦ absurd hnone hne⟩
  · have hid' : id ∈ layout.owners := mem_toFinset.mpr (mem_filter.mp hid).1
    have hchanged := (hmem id hid').mp hid
    obtain ⟨loaderPage, _, _, _, hcase⟩ := hcases id hid'
    obtain ⟨_, hne, hplace, hhash⟩ | ⟨hnot, _⟩ | ⟨hnot, _⟩ := hcase
    · exact ⟨hid', hplace, hne, hhash, fun hnot ↦ by cases hnot⟩
    · rw [hnot] at hchanged
      cases hchanged
    · rw [hnot] at hchanged
      cases hchanged
  · obtain ⟨loaderPage, hsize, hpos, _, hcase⟩ := hcases id hid
    have hstored := h.stored_file hfile hid
    obtain ⟨hchanged, _⟩ | ⟨_, hcontents, hplace, hequal, hhash⟩ | ⟨_, hnow, _, hnone⟩ := hcase
    · exact absurd ((hmem id hid).mpr hchanged) hdone
    · refine ⟨?_, fun hne ↦ ?_, fun hne ↦ hhash (hequal ▸ hne)⟩
      · simp only [hsaver, hequal, hsize, hcontents]
        exact hstored.zero_iff
      · have hbytes := hstored.bytes_eq (hsize ▸ hequal ▸ hne)
        simp only [hsaver, hequal, hplace, hsize, hpos (hequal ▸ hne), hcontents]
        exact hbytes
    · exact ⟨iff_of_true hnone hnow, fun hne ↦ absurd hnone hne, fun hne ↦ absurd hnone hne⟩

end

end Again

end FdeEmugl.Snapshot
