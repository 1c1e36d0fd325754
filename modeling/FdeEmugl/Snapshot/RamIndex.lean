import FdeEmugl.Snapshot.GapTracker
import Mathlib.Data.List.TakeWhile

/-!
# The index of a RAM snapshot

The saver writes, for each registered block, a header and then an entry for each
of its pages: the size on disk and, unless the page is all zeros, the distance
from the page before it and the hash. The loader reads the blocks in that order
and finds each by its id among those that were registered with it. Blocks whose
contents are kept elsewhere have a header only; the saver and the loader decide
this by different tests.
-/

namespace FdeEmugl.Snapshot

open Coverage FdeEmugl.Stream
open List (append_assoc append_nil length_append length_map map_cons mem_map_of_mem)

/-! ## Blocks and pages -/

def snapshotRamMappedShared : UInt32 := 2

def snapshotRamMapped : UInt32 := 8

def snapshotRamUserBacked : UInt32 := 16

/-- The id is a C string; a path is far shorter than what its 32-bit length can say. -/
structure RamBlock where
  id : List UInt8
  pageSize : ℕ
  flags : UInt32
  path : List UInt8
  readonly : Bool
  id_nul : 0 ∉ id
  path_lt : path.length < 2 ^ 32

def RamBlock.hasFlag (flag : UInt32) (block : RamBlock) : Bool := block.flags &&& flag != 0

abbrev Hash := { bytes : List UInt8 // bytes.length = 16 }

/-- The value of a hash that was never filled. -/
def Hash.zero : Hash := ⟨List.replicate 16 0, List.length_replicate⟩

/-- What the index says about a page. Positions and ends are offsets in a file. -/
structure Page where
  sizeOnDisk : ℕ
  filePos : ℕ
  hash : Hash
  end_lt : filePos + sizeOnDisk < 2 ^ 63
deriving DecidableEq

/-- A page without bytes. -/
def Page.zero : Page := ⟨0, 0, .zero, by decide⟩

def Page.zeroed (page : Page) : Bool := page.sizeOnDisk = 0

/-! ## `RamSaver` -/

structure SavedBlock where
  ramBlock : RamBlock
  pages : List Page

def kDefaultPageSize : ℕ := 4096

/-- The test that `savePage` and `writeIndex` make: other blocks are not in the file. -/
def RamBlock.saved (async : Bool) (block : RamBlock) : Bool :=
  !block.readonly && !block.hasFlag snapshotRamUserBacked &&
    !(block.hasFlag snapshotRamMappedShared && async)

/-- Only blocks that are saved have pages. -/
structure FileIndex where
  async : Bool
  compressed : Bool
  totalPages : ℕ
  blocks : List SavedBlock
  pages_eq_nil : ∀ block ∈ blocks, block.ramBlock.saved async = false → block.pages = []
  totalPages_eq : totalPages = (blocks.map fun block ↦ block.pages.length).sum
  totalPages_lt : totalPages < 2 ^ 31

namespace FileIndex

def new (async compressed : Bool) : FileIndex where
  async := async
  compressed := compressed
  totalPages := 0
  blocks := []
  pages_eq_nil := by simp
  totalPages_eq := rfl
  totalPages_lt := by decide

def registerBlock (ramBlock : RamBlock) (index : FileIndex) : FileIndex where
  async := index.async
  compressed := index.compressed
  totalPages := index.totalPages
  blocks := index.blocks ++ [⟨ramBlock, []⟩]
  pages_eq_nil := by
    intro block hblock hsaved
    rcases List.mem_append.mp hblock with hold | hnew
    · exact index.pages_eq_nil block hold hsaved
    · obtain rfl := List.mem_singleton.mp hnew
      rfl
  totalPages_eq := by simp [index.totalPages_eq]
  totalPages_lt := index.totalPages_lt

/-- `savePage` makes the pages of a block when it sees it for the first time. -/
def savePage (front : List SavedBlock) (block : SavedBlock) (back : List SavedBlock) (pages : List Page)
    (index : FileIndex) (hblocks : index.blocks = front ++ block :: back)
    (hroom : index.totalPages + pages.length < 2 ^ 31) : FileIndex :=
  if h : block.ramBlock.saved index.async = true ∧ block.pages = [] then
    { async := index.async
      compressed := index.compressed
      totalPages := index.totalPages + pages.length
      blocks := front ++ ⟨{ block.ramBlock with pageSize := kDefaultPageSize }, pages⟩ :: back
      pages_eq_nil := by
        intro other hother hsaved
        rcases List.mem_append.mp hother with hfront | hback
        · exact index.pages_eq_nil other (hblocks ▸ List.mem_append_left _ hfront) hsaved
        · rcases List.mem_cons.mp hback with rfl | hback
          · have hsame : block.ramBlock.saved index.async = false := hsaved
            rw [h.1] at hsame
            cases hsame
          · have hmem : other ∈ front ++ block :: back := by simp [hback]
            exact index.pages_eq_nil other (hblocks ▸ hmem) hsaved
      totalPages_eq := by
        rw [index.totalPages_eq, hblocks]
        simp only [List.map_append, map_cons, List.sum_append, List.sum_cons, h.2, List.length_nil]
        omega
      totalPages_lt := hroom }
  else index

end FileIndex

/-- The position and the size of the page before. -/
structure Cursor where
  filePos : ℤ
  sizeOnDisk : ℤ

def Cursor.start : Cursor := ⟨8, 0⟩

def Cursor.next (prev : Cursor) (page : Page) : Cursor :=
  if page.zeroed then prev else ⟨page.filePos, page.sizeOnDisk⟩

def deltaPos (compressed : Bool) (pageSize : ℕ) (prev : Cursor) (page : Page) : ℤ :=
  if compressed then page.filePos - prev.filePos - prev.sizeOnDisk
  else (page.filePos - prev.filePos).tdiv pageSize

def putPage (compressed : Bool) (pageSize : ℕ) (prev : Cursor) (page : Page) : List UInt8 :=
  putPackedNum (UInt64.ofNat (if compressed then page.sizeOnDisk else page.sizeOnDisk / pageSize)) ++
    if page.zeroed then []
    else putPackedSignedNum (deltaPos compressed pageSize prev page) ++ page.hash.1

def putPages (compressed : Bool) (pageSize : ℕ) : Cursor → List Page → List UInt8 × Cursor
  | prev, [] => ([], prev)
  | prev, page :: pages =>
    let (bytes, last) := putPages compressed pageSize (prev.next page) pages
    (putPage compressed pageSize prev page ++ bytes, last)

def putName (block : RamBlock) : List UInt8 := putByte (UInt8.ofNat block.id.length) ++ block.id

def putHeader (async : Bool) (block : SavedBlock) : List UInt8 :=
  putBe32 (UInt32.ofNat block.pages.length) ++ (putBe32 (UInt32.ofNat block.ramBlock.pageSize) ++
    if async then putBe32 block.ramBlock.flags ++ putString block.ramBlock.path
    else putBe32 0 ++ putString [])

def putBody (async compressed : Bool) (prev : Cursor) (block : SavedBlock) : List UInt8 × Cursor :=
  if block.ramBlock.saved async then putPages compressed block.ramBlock.pageSize prev block.pages
  else ([], prev)

def putBlocks (async compressed : Bool) : Cursor → List SavedBlock → List UInt8
  | _, [] => []
  | prev, block :: blocks =>
    let (bytes, last) := putBody async compressed prev block
    putName block.ramBlock ++ (putHeader async block ++ (bytes ++ putBlocks async compressed last blocks))

def FileIndex.flags (index : FileIndex) : UInt32 :=
  (if index.async then 2 else 0) ||| (if index.compressed then 1 else 0)

/-- `mGaps` is there if the save is incremental. -/
def writeIndex (index : FileIndex) (mGaps : Option GapTracker) : List UInt8 :=
  putBe32 2 ++ (putBe32 index.flags ++ (putBe32 (UInt32.ofNat index.totalPages) ++
    (putBlocks index.async index.compressed .start index.blocks ++ (mGaps.getD (.oneSize [] 0)).save)))

/-! ## `RamLoader` -/

inductive PageState where
  | Empty | Reading | Read | Filling | Filled | Error
deriving DecidableEq

structure LoaderPage where
  state : PageState
  blockIndex : ℕ
  sizeOnDisk : ℕ
  filePos : ℕ
  hash : Hash
deriving DecidableEq

/-- The pages of a block are those of the index from `pagesBegin` to `pagesEnd`. -/
structure LoaderBlock where
  ramBlock : RamBlock
  pagesBegin : ℕ
  pagesEnd : ℕ

structure Loader where
  blocks : List LoaderBlock
  pages : List LoaderPage
  flags : UInt32
  mVersion : ℕ
  mPageSize : ℕ
  mIndexOnly : Bool
  mHasError : Bool
  mLoadedFromFileBacking : Bool
  mLoadedToFileBacking : Bool
  mLazyLoadingFromFileBacking : Bool
  mGaps : Option GapTracker

def Loader.new (mIndexOnly : Bool) : Loader := ⟨[], [], 0, 0, 4096, mIndexOnly, false, false, false, false, none⟩

def Loader.registerBlock (loader : Loader) (block : RamBlock) : Loader :=
  { loader with mPageSize := block.pageSize, blocks := loader.blocks ++ [⟨block, 0, 0⟩] }

/-- Missing bytes stay zero. -/
def getHash (stream : List UInt8) : Hash × List UInt8 :=
  let (bytes, rest) := read 16 stream
  (⟨(bytes ++ List.replicate 16 0).take 16, by simp⟩, rest)

/-- One turn of the loop over the pages of a block. -/
def getPage (mVersion : ℕ) (mIndexOnly compressed : Bool) (pageSize blockIndex : ℕ) (running : Cursor)
    (stream : List UInt8) : LoaderPage × Cursor × List UInt8 :=
  let (size, afterSize) := getPackedNum stream
  if size = 0 then (⟨.Read, blockIndex % 2 ^ 16, 0, 0, .zero⟩, running, afterSize)
  else
    let state := if mIndexOnly then PageState.Filled else .Empty
    let (posDelta, afterDelta) := getPackedSignedNum afterSize
    let (hash, rest) := if mVersion = 2 then getHash afterDelta else (.zero, afterDelta)
    let sizeOnDisk := if compressed then size.toNat % 2 ^ 32 else size.toNat * pageSize % 2 ^ 32
    let runningFilePos :=
      running.filePos + if compressed then posDelta + running.sizeOnDisk else posDelta * pageSize
    let running := ⟨runningFilePos, if compressed then toInt sizeOnDisk else running.sizeOnDisk⟩
    (⟨state, blockIndex % 2 ^ 16, sizeOnDisk, (runningFilePos % 2 ^ 64).toNat, hash⟩, running, rest)

def getPages (mVersion : ℕ) (mIndexOnly compressed : Bool) (pageSize blockIndex : ℕ) :
    ℕ → Cursor → List UInt8 → List LoaderPage × Cursor × List UInt8
  | 0, running, stream => ([], running, stream)
  | count + 1, running, stream =>
    let (page, running, stream) :=
      getPage mVersion mIndexOnly compressed pageSize blockIndex running stream
    let (pages, running, stream) :=
      getPages mVersion mIndexOnly compressed pageSize blockIndex count running stream
    (page :: pages, running, stream)

/-- The header of a block after its name. -/
structure Header where
  blockPagesCount : ℕ
  blockPageSizeFromSave : ℕ
  savedFlags : UInt32
  savedMemPath : List UInt8

def getHeader (stream : List UInt8) : Header × List UInt8 :=
  let (blockPagesCount, stream) := getBe32 stream
  let (blockPageSizeFromSave, stream) := getBe32 stream
  let (savedFlags, stream) := getBe32 stream
  let (savedMemPath, stream) := getString stream
  (⟨blockPagesCount.toNat, blockPageSizeFromSave.toNat, savedFlags, savedMemPath⟩, stream)

/-- A block that was not mapped when it was saved and is mapped now takes over the page size. -/
def Loader.toFileBacking (blockIndex : ℕ) (header : Header) (loader : Loader) : Loader :=
  { loader with
    mLoadedToFileBacking := true
    mPageSize := header.blockPageSizeFromSave
    blocks := loader.blocks.modify blockIndex fun block ↦
      { block with ramBlock := { block.ramBlock with pageSize := header.blockPageSizeFromSave } } }

/-- `pageCount` pages have been reserved. Without a result more pages come, and the vector has to move:
the iterators of the blocks dangle and the move constructor does not take the hash along. -/
def Loader.appendPages (pageCount blockIndex : ℕ) (pages : List LoaderPage) (loader : Loader) :
    Option Loader :=
  if pageCount < loader.pages.length + pages.length then none
  else some { loader with
    pages := loader.pages ++ pages
    blocks := loader.blocks.modify blockIndex fun block ↦
      { block with
        pagesBegin := loader.pages.length, pagesEnd := loader.pages.length + pages.length } }

/-- `hasRamFile` says whether the file of a mapped block can be opened. -/
def Loader.readBlockPages (hasRamFile : List UInt8 → Bool) (compressed : Bool) (pageCount blockIndex : ℕ)
    (block : RamBlock) (running : Cursor) (stream : List UInt8) (loader : Loader) :
    Option (Loader × Cursor × List UInt8) :=
  let (header, stream) := getHeader stream
  if block.readonly then some (loader, running, stream)
  else if header.savedFlags &&& snapshotRamUserBacked ≠ 0 then some (loader, running, stream)
  else if header.savedFlags &&& snapshotRamMappedShared ≠ 0 then
    if block.hasFlag snapshotRamMapped ∧ header.savedMemPath = block.path then
      some ({ loader with mLazyLoadingFromFileBacking := true }, running, stream)
    else if hasRamFile header.savedMemPath then
      some ({ loader with mLoadedFromFileBacking := true }, running, stream)
    else some ({ loader with mHasError := true }, running, stream)
  else
    let mapped := block.hasFlag snapshotRamMapped
    let (pages, running, stream) := getPages loader.mVersion loader.mIndexOnly compressed
      (if mapped then header.blockPageSizeFromSave else block.pageSize) blockIndex
      header.blockPagesCount running stream
    (Loader.appendPages pageCount blockIndex pages
      (if mapped then loader.toFileBacking blockIndex header else loader)).map fun loader ↦
        (loader, running, stream)

/-- The name ends at its first zero. -/
def getName (stream : List UInt8) : List UInt8 × List UInt8 :=
  let (nameLength, stream) := getByte stream
  let (name, stream) := read nameLength.toNat stream
  (name.takeWhile (· ≠ 0), stream)

def Loader.readBlocks (hasRamFile : List UInt8 → Bool) (compressed : Bool) (pageCount : ℕ) :
    ℕ → Cursor → List UInt8 → Loader → Option (Loader × List UInt8)
  | 0, _, stream, loader => some (loader, stream)
  | count + 1, running, stream, loader =>
    let (name, stream) := getName stream
    (loader.blocks.findIdx? fun block ↦ block.ramBlock.id = name).bind fun blockIndex ↦
      loader.blocks[blockIndex]?.bind fun block ↦
        (loader.readBlockPages hasRamFile compressed pageCount blockIndex block.ramBlock running
          stream).bind fun (loader, running, stream) ↦
            loader.readBlocks hasRamFile compressed pageCount count running stream

/-- The tracker that is loaded, and what follows it. -/
def GapTracker.get (compressed : Bool) (stream : List UInt8) : GapTracker × List UInt8 :=
  let (gapsCount, stream) := getBe32 stream
  if compressed then
    let (gaps, stream) := GenericGapTracker.loadGroups gapsCount.toNat stream
    (generic gaps, stream)
  else if gapsCount.toNat > 0 then
    let (group, stream) := GenericGapTracker.loadGroup stream
    (oneSize (group.map Range.start) ((group.head?.map Range.size).getD 0), stream)
  else (oneSize [] 0, stream)

/-- The loader, and what is left of the index. Without a result `readIndex` returns false, or the
vector of the pages has to move. -/
def Loader.readIndex (hasRamFile : List UInt8 → Bool) (stream : List UInt8) (loader : Loader) :
    Option (Loader × List UInt8) :=
  let (mVersion, stream) := getBe32 stream
  if mVersion.toNat < 1 ∨ mVersion.toNat > 2 then none
  else
    let (flags, stream) := getBe32 stream
    let compressed := flags &&& 1 != 0
    let (pageCount, stream) := getBe32 stream
    (Loader.readBlocks hasRamFile compressed pageCount.toNat loader.blocks.length .start stream
      { loader with flags, mVersion := mVersion.toNat }).map fun (loader, stream) ↦
        if mVersion.toNat > 1 then
          let (gaps, stream) := GapTracker.get compressed stream
          ({ loader with mGaps := some gaps }, stream)
        else (loader, stream)

/-! ## Gaps -/

namespace GapTracker

theorem get_fst (compressed : Bool) (stream : List UInt8) :
    (GapTracker.get compressed stream).1 = GapTracker.load compressed stream := by
  unfold GapTracker.get GapTracker.load GenericGapTracker.load
  cases compressed with
  | true => rfl
  | false =>
    simp only [Bool.false_eq_true, if_false]
    split_ifs <;> rfl

/-- The tracker is of the kind that the mode asks for; sizes are ints other than 0 and starts are
offsets in a file. -/
def Fits (compressed : Bool) : GapTracker → Prop
  | generic gaps => compressed = true ∧ SizesAreInts gaps ∧ ∀ gap ∈ gaps, gap.size ≠ 0 ∧ gap.start < 2 ^ 63
  | oneSize mGapStarts mSize => compressed = false ∧ IsInt mSize ∧ ∀ start ∈ mGapStarts, start < 2 ^ 63

theorem get_save_generic {gaps : List Range} (hints : SizesAreInts gaps)
    (hgaps : ∀ gap ∈ gaps, gap.size ≠ 0 ∧ gap.start < 2 ^ 63)
    (hlength : (GenericGapTracker.save gaps).length < 2 ^ 63) :
    ∃ loaded, GapTracker.get true (GenericGapTracker.save gaps) = (loaded, []) ∧ loaded.gaps.Perm gaps := by
  have hfew := GenericGapTracker.length_sizes_lt hints fun gap hgap ↦ (hgaps gap hgap).1
  have hcount : (UInt32.ofNat (GenericGapTracker.sizes gaps).length).toNat =
      (GenericGapTracker.sizes gaps).length := UInt32.toNat_ofNat_of_lt' hfew
  rw [GenericGapTracker.save, length_append] at hlength
  have hgroups := GenericGapTracker.loadGroups_saveGroups hints (fun gap hgap ↦ (hgaps gap hgap).2) []
    (fun _ hsize ↦ hsize) (by omega) le_rfl
  rw [append_nil, List.take_length, List.drop_length, List.flatMap_nil, append_nil] at hgroups
  refine ⟨generic (GenericGapTracker.ofSizes gaps (GenericGapTracker.sizes gaps)), ?_,
    GenericGapTracker.ofSizes_sizes_perm gaps⟩
  simp only [GapTracker.get, GenericGapTracker.save, getBe32_putBe32, hcount, hgroups, if_true]

theorem get_save_oneSize {mGapStarts : List ℕ} {mSize : ℤ} (hint : IsInt mSize)
    (hstarts : ∀ start ∈ mGapStarts, start < 2 ^ 63)
    (hlength : (save (oneSize mGapStarts mSize)).length < 2 ^ 63) :
    ∃ loaded, GapTracker.get false (save (oneSize mGapStarts mSize)) = (loaded, []) ∧
      loaded.gaps.Perm (gaps (oneSize mGapStarts mSize)) := by
  cases mGapStarts with
  | nil =>
    have hsave : save (oneSize [] mSize) = putBe32 0 := by rw [save]
    rw [hsave]
    exact ⟨oneSize [] 0, rfl, .refl _⟩
  | cons start rest =>
    have hsave : save (oneSize (start :: rest) mSize) =
        putBe32 1 ++ GenericGapTracker.saveGroup mSize (start :: rest) := by
      rw [save]
      nofun
    rw [hsave, length_append] at hlength
    have hgroup := GenericGapTracker.loadGroup_saveGroup hint hstarts (List.cons_ne_nil start rest)
      (by omega) []
    rw [append_nil] at hgroup
    refine ⟨oneSize (start :: rest) mSize, ?_, .refl _⟩
    rw [hsave]
    simp only [GapTracker.get, getBe32_putBe32, hgroup, Bool.false_eq_true, if_false]
    simp [Function.comp_def]

/-- The gaps of a saved tracker come back, and a full save has none. -/
theorem get_save {compressed : Bool} {mGaps : Option GapTracker} (hfits : ∀ tracker ∈ mGaps, tracker.Fits compressed)
    (hlength : ((mGaps.getD (oneSize [] 0)).save).length < 2 ^ 63) :
    ∃ loaded, GapTracker.get compressed (mGaps.getD (oneSize [] 0)).save = (loaded, []) ∧
      loaded.gaps.Perm (mGaps.elim [] gaps) := by
  cases mGaps with
  | none =>
    cases compressed with
    | true => exact ⟨generic [], rfl, .refl _⟩
    | false => exact ⟨oneSize [] 0, rfl, .refl _⟩
  | some tracker =>
    have hfits := hfits tracker rfl
    cases tracker with
    | generic gaps =>
      obtain ⟨rfl, hints, hgaps⟩ := hfits
      exact get_save_generic hints hgaps hlength
    | oneSize mGapStarts mSize =>
      obtain ⟨rfl, hint, hstarts⟩ := hfits
      exact get_save_oneSize hint hstarts hlength

end GapTracker

/-! ## Pages -/

/-- A page of zeros has no position and no hash. -/
def Page.entry (page : Page) : ℕ × ℕ × Hash :=
  if page.zeroed then (0, 0, .zero) else (page.sizeOnDisk, page.filePos, page.hash)

def LoaderPage.entry (page : LoaderPage) : ℕ × ℕ × Hash := (page.sizeOnDisk, page.filePos, page.hash)

/-- The sizes and positions of the two modes. `sizes` are the page sizes of the blocks in the file. -/
def Page.Allowed (compressed : Bool) (sizes : List ℕ) (pageSize : ℕ) (page : Page) : Prop :=
  if compressed then page.sizeOnDisk ≤ pageSize
  else page.sizeOnDisk = 0 ∨ page.sizeOnDisk = pageSize ∧ ∀ size ∈ sizes, (size : ℤ) ∣ page.filePos - 8

/-- The saver and the loader stand behind the same page. An uncompressed file needs no sizes, but the
positions have to be whole numbers of pages apart. -/
structure Cursor.Agrees (compressed : Bool) (sizes : List ℕ) (prev running : Cursor) : Prop where
  filePos_eq : running.filePos = prev.filePos
  filePos_nonneg : 0 ≤ prev.filePos
  sizeOnDisk_eq : compressed = true → running.sizeOnDisk = prev.sizeOnDisk
  sizeOnDisk_nonneg : 0 ≤ prev.sizeOnDisk
  end_lt : prev.filePos + prev.sizeOnDisk < 2 ^ 63
  aligned : compressed = false → ∀ size ∈ sizes, (size : ℤ) ∣ prev.filePos - 8

theorem Cursor.agrees_start (compressed : Bool) (sizes : List ℕ) : Cursor.Agrees compressed sizes .start .start := by
  refine ⟨rfl, by decide, fun _ ↦ rfl, by decide, by decide, fun _ size _ ↦ ?_⟩
  exact Int.dvd_zero _

@[simp] theorem getHash_append (hash : Hash) (rest : List UInt8) : getHash (hash.1 ++ rest) = (hash, rest) := by
  obtain ⟨bytes, hlength⟩ := hash
  have htake : (bytes ++ rest).take 16 = bytes := List.take_left' hlength
  have hdrop : (bytes ++ rest).drop 16 = rest := List.drop_left' hlength
  simp only [getHash, Stream.read, htake, hdrop]
  exact Prod.ext (Subtype.ext (List.take_left' hlength)) rfl

section Pages

variable {compressed : Bool} {sizes : List ℕ} {pageSize : ℕ} {prev running : Cursor} {page : Page}

/-- The distance fits a signed packed number, and the loader gets the position back from it. -/
theorem deltaPos_spec (h : Cursor.Agrees compressed sizes prev running) (hsize : pageSize ∈ sizes)
    (hallowed : page.Allowed compressed sizes pageSize) (hzeroed : page.zeroed = false) :
    (deltaPos compressed pageSize prev page).natAbs < 2 ^ 63 ∧
      (running.filePos + if compressed then deltaPos compressed pageSize prev page + running.sizeOnDisk
        else deltaPos compressed pageSize prev page * pageSize) = page.filePos := by
  have hend := page.end_lt
  have hprev := h.end_lt
  have hpos := h.filePos_nonneg
  have hnonneg := h.sizeOnDisk_nonneg
  rw [h.filePos_eq]
  cases compressed with
  | true =>
    simp only [deltaPos, if_true, h.sizeOnDisk_eq rfl]
    omega
  | false =>
    have hne : page.sizeOnDisk ≠ 0 := by simpa [Page.zeroed] using hzeroed
    obtain ⟨_, haligned⟩ := Or.resolve_left hallowed hne
    have hdvd : (pageSize : ℤ) ∣ page.filePos - prev.filePos := by
      have hboth := Int.dvd_sub (haligned pageSize hsize) (h.aligned rfl pageSize hsize)
      have hsub : (page.filePos - 8 : ℤ) - (prev.filePos - 8) = page.filePos - prev.filePos := by omega
      rwa [hsub] at hboth
    simp only [deltaPos, Bool.false_eq_true, if_false]
    constructor
    · have hle := Int.natAbs_tdiv_le_natAbs ((page.filePos : ℤ) - prev.filePos) pageSize
      omega
    · rw [Int.tdiv_mul_cancel hdvd]
      omega

/-- The number that stands for the size of a page. -/
theorem sizeField_spec (hpos : 0 < pageSize) (hlt : pageSize < 2 ^ 31)
    (hallowed : page.Allowed compressed sizes pageSize) (hzeroed : page.zeroed = false) :
    ∃ size : UInt64,
      UInt64.ofNat (if compressed then page.sizeOnDisk else page.sizeOnDisk / pageSize) = size ∧ size ≠ 0 ∧
      (if compressed then size.toNat % 2 ^ 32 else size.toNat * pageSize % 2 ^ 32) = page.sizeOnDisk ∧
      page.sizeOnDisk < 2 ^ 31 := by
  have hne : page.sizeOnDisk ≠ 0 := by simpa [Page.zeroed] using hzeroed
  refine ⟨_, rfl, ?_⟩
  cases compressed with
  | true =>
    have hle : page.sizeOnDisk ≤ pageSize := hallowed
    have hnat : (UInt64.ofNat page.sizeOnDisk).toNat = page.sizeOnDisk :=
      UInt64.toNat_ofNat_of_lt' (by rw [UInt64.size]; omega)
    simp only [if_true]
    refine ⟨fun hzero ↦ hne ?_, ?_, by omega⟩
    · rw [← hnat, hzero]
      rfl
    · rw [hnat]
      exact Nat.mod_eq_of_lt (by omega)
  | false =>
    obtain ⟨hsize, _⟩ := Or.resolve_left hallowed hne
    simp only [Bool.false_eq_true, if_false, hsize, Nat.div_self hpos]
    refine ⟨by decide, ?_, hlt⟩
    have hone : (UInt64.ofNat 1).toNat = 1 := rfl
    rw [hone, Nat.one_mul]
    exact Nat.mod_eq_of_lt (by omega)

/-- One entry comes back, and both sides move to the page it is about. -/
theorem getPage_putPage (h : Cursor.Agrees compressed sizes prev running) (hsize : pageSize ∈ sizes)
    (hpos : 0 < pageSize) (hlt : pageSize < 2 ^ 31) (hallowed : page.Allowed compressed sizes pageSize)
    (mIndexOnly : Bool) (blockIndex : ℕ) (rest : List UInt8) :
    ∃ loaded running', getPage 2 mIndexOnly compressed pageSize blockIndex running
        (putPage compressed pageSize prev page ++ rest) = (loaded, running', rest) ∧
      loaded.entry = page.entry ∧ Cursor.Agrees compressed sizes (prev.next page) running' := by
  cases hzeroed : page.zeroed with
  | true =>
    have hzero : page.sizeOnDisk = 0 := by simpa [Page.zeroed] using hzeroed
    have hfield : UInt64.ofNat (if compressed then page.sizeOnDisk else page.sizeOnDisk / pageSize) = 0 := by
      simp [hzero]
    refine ⟨⟨.Read, blockIndex % 2 ^ 16, 0, 0, .zero⟩, running, ?_, ?_, ?_⟩
    · simp only [putPage, getPage, hfield, hzeroed, if_true, append_nil, getPackedNum_putPackedNum]
    · simp [LoaderPage.entry, Page.entry, hzeroed]
    · rw [Cursor.next, hzeroed, if_pos rfl]
      exact h
  | false =>
    obtain ⟨size, hfield, hne, hback, hint⟩ := sizeField_spec hpos hlt hallowed hzeroed
    obtain ⟨hfits, hfilePos⟩ := deltaPos_spec h hsize hallowed hzeroed
    have hend := page.end_lt
    have hmod : ((page.filePos : ℤ) % 2 ^ 64).toNat = page.filePos := by omega
    refine ⟨⟨if mIndexOnly then .Filled else .Empty, blockIndex % 2 ^ 16, page.sizeOnDisk, page.filePos,
      page.hash⟩, ⟨page.filePos, if compressed then toInt page.sizeOnDisk else running.sizeOnDisk⟩, ?_, ?_, ?_⟩
    · simp only [putPage, getPage, hfield, hzeroed, Bool.false_eq_true, if_false, append_assoc,
        getPackedNum_putPackedNum, hne, getPackedSignedNum_putPackedSignedNum hfits, if_true, getHash_append,
        hback, hfilePos, hmod]
    · simp [LoaderPage.entry, Page.entry, hzeroed]
    · rw [Cursor.next, hzeroed, if_neg (by decide)]
      refine ⟨rfl, Int.natCast_nonneg _, ?_, Int.natCast_nonneg _, by simp only; omega, ?_⟩
      · rintro rfl
        have hsame : toInt (page.sizeOnDisk : ℤ) = page.sizeOnDisk := toInt_eq (by omega) (by omega)
        simp only [if_true, hsame]
      · rintro rfl
        have hnonzero : page.sizeOnDisk ≠ 0 := by simpa [Page.zeroed] using hzeroed
        exact (Or.resolve_left hallowed hnonzero).2

theorem getPages_putPages (hsize : pageSize ∈ sizes) (hpos : 0 < pageSize) (hlt : pageSize < 2 ^ 31)
    {pages : List Page} (hallowed : ∀ page ∈ pages, page.Allowed compressed sizes pageSize)
    (h : Cursor.Agrees compressed sizes prev running) (mIndexOnly : Bool) (blockIndex : ℕ)
    (rest : List UInt8) :
    ∃ loaded running', getPages 2 mIndexOnly compressed pageSize blockIndex pages.length running
        ((putPages compressed pageSize prev pages).1 ++ rest) = (loaded, running', rest) ∧
      loaded.map LoaderPage.entry = pages.map Page.entry ∧
      Cursor.Agrees compressed sizes (putPages compressed pageSize prev pages).2 running' := by
  induction pages generalizing prev running with
  | nil => exact ⟨[], running, rfl, rfl, h⟩
  | cons page pages ih =>
    obtain ⟨first, middle, hfirst, hentry, hmiddle⟩ := getPage_putPage h hsize hpos hlt
      (hallowed page List.mem_cons_self) mIndexOnly blockIndex
      ((putPages compressed pageSize (prev.next page) pages).1 ++ rest)
    obtain ⟨loaded, last, hloaded, hentries, hlast⟩ :=
      ih (fun other hother ↦ hallowed other (List.mem_cons_of_mem _ hother)) hmiddle
    refine ⟨first :: loaded, last, ?_, ?_, ?_⟩
    · simp only [List.length_cons, getPages, putPages, append_assoc, hfirst, hloaded]
    · rw [map_cons, map_cons, hentry, hentries]
    · exact hlast

end Pages

/-! ## Blocks -/

/-- What a block of the index brings along. -/
structure SavedBlock.Ok (async compressed : Bool) (sizes : List ℕ) (block : SavedBlock) : Prop where
  id_le : block.ramBlock.id.length ≤ 255
  count_lt : block.pages.length < 2 ^ 32
  pages_eq_nil : block.ramBlock.saved async = false → block.pages = []
  allowed : block.ramBlock.saved async = true → block.ramBlock.pageSize ∈ sizes ∧
    0 < block.ramBlock.pageSize ∧ block.ramBlock.pageSize < 2 ^ 31 ∧
    ∀ page ∈ block.pages, page.Allowed compressed sizes block.ramBlock.pageSize

def SavedBlock.header (async : Bool) (block : SavedBlock) : Header where
  blockPagesCount := block.pages.length
  blockPageSizeFromSave := block.ramBlock.pageSize % 2 ^ 32
  savedFlags := if async then block.ramBlock.flags else 0
  savedMemPath := if async then block.ramBlock.path else []

theorem getName_putName {block : RamBlock} (h : block.id.length ≤ 255) (rest : List UInt8) :
    getName (putName block ++ rest) = (block.id, rest) := by
  have hlength : (UInt8.ofNat block.id.length).toNat = block.id.length :=
    UInt8.toNat_ofNat_of_lt' (by rw [UInt8.size]; omega)
  have hwhole : block.id.takeWhile (· ≠ 0) = block.id := by
    refine List.takeWhile_eq_self_iff.mpr fun byte hbyte ↦ decide_eq_true ?_
    rintro rfl
    exact block.id_nul hbyte
  simp only [getName, putName, append_assoc, getByte_putByte, hlength, Stream.read, List.take_left,
    List.drop_left, hwhole]

theorem getHeader_putHeader {block : SavedBlock} (h : block.pages.length < 2 ^ 32) (async : Bool)
    (rest : List UInt8) : getHeader (putHeader async block ++ rest) = (block.header async, rest) := by
  have hlength : (UInt32.ofNat block.pages.length).toNat = block.pages.length := UInt32.toNat_ofNat_of_lt' h
  have hsize : (UInt32.ofNat block.ramBlock.pageSize).toNat = block.ramBlock.pageSize % 2 ^ 32 := rfl
  cases async with
  | true =>
    simp only [getHeader, putHeader, SavedBlock.header, if_true, append_assoc, getBe32_putBe32,
      getString_putString block.ramBlock.path_lt, hlength, hsize]
  | false =>
    simp only [getHeader, putHeader, SavedBlock.header, Bool.false_eq_true, if_false, append_assoc,
      getBe32_putBe32, getString_putString_nil, hlength, hsize]

def Loader.pagesOf (loader : Loader) (block : LoaderBlock) : List LoaderPage :=
  (loader.pages.take block.pagesEnd).drop block.pagesBegin

/-- The pages of the block are those that were saved. -/
structure Loader.Holds (loader : Loader) (block : LoaderBlock) (pages : List Page) : Prop where
  end_le : block.pagesEnd ≤ loader.pages.length
  entries_eq : (loader.pagesOf block).map LoaderPage.entry = pages.map Page.entry

section

variable {loader next : Loader} {block : LoaderBlock} {pages : List Page} (h : loader.Holds block pages)
  (hgrown : loader.pages <+: next.pages)
include h hgrown

/-- The pages of a block stay where they are when more pages follow. -/
theorem Loader.Holds.pagesOf_grown : next.pagesOf block = loader.pagesOf block := by
  obtain ⟨more, hmore⟩ := hgrown
  rw [Loader.pagesOf, Loader.pagesOf, ← hmore, List.take_append_of_le_length h.end_le]

theorem Loader.Holds.of_grown : next.Holds block pages :=
  ⟨h.end_le.trans hgrown.length_le, h.pagesOf_grown hgrown ▸ h.entries_eq⟩

end

/-- A page that was just read says which block it belongs to, and nobody has touched its contents. -/
def LoaderPage.Fresh (mIndexOnly : Bool) (blockIndex : ℕ) (page : LoaderPage) : Prop :=
  page.blockIndex = blockIndex % 2 ^ 16 ∧ (mIndexOnly = false → page.sizeOnDisk ≠ 0 → page.state = .Empty)

section

variable (mVersion : ℕ) (mIndexOnly compressed : Bool) (pageSize blockIndex : ℕ)

theorem getPage_fresh (running : Cursor) (stream : List UInt8) :
    (getPage mVersion mIndexOnly compressed pageSize blockIndex running stream).1.Fresh mIndexOnly blockIndex := by
  by_cases hsize : (getPackedNum stream).1 = 0
  · simp only [getPage, if_pos hsize]
    exact ⟨rfl, fun _ hne ↦ absurd rfl hne⟩
  · simp only [getPage, if_neg hsize]
    exact ⟨rfl, fun hall _ ↦ if_neg (by simp [hall])⟩

theorem getPages_fresh (count : ℕ) (running : Cursor) (stream : List UInt8) :
    ∀ page ∈ (getPages mVersion mIndexOnly compressed pageSize blockIndex count running stream).1,
      page.Fresh mIndexOnly blockIndex := by
  induction count generalizing running stream with
  | zero => exact List.forall_mem_nil _
  | succ count ih =>
    rw [getPages]
    exact List.forall_mem_cons.mpr ⟨getPage_fresh _ _ _ _ _ _ _, ih _ _⟩

end

/-- The pages of a block have been read. -/
structure Loader.Took (blockIndex : ℕ) (pages : List Page) (loader next : Loader) : Prop where
  version_eq : next.mVersion = loader.mVersion
  flags_eq : next.flags = loader.flags
  indexOnly_eq : next.mIndexOnly = loader.mIndexOnly
  pages_grown : loader.pages <+: next.pages
  length_eq : next.pages.length = loader.pages.length + pages.length
  fresh : ∀ page ∈ next.pages.drop loader.pages.length, page.Fresh loader.mIndexOnly blockIndex
  blocks_eq : ∃ change : LoaderBlock → LoaderBlock,
    next.blocks = loader.blocks.modify blockIndex change ∧
    (∀ block, (change block).ramBlock.id = block.ramBlock.id) ∧
    (∀ block, block.pagesBegin = 0 → block.pagesEnd = 0 → next.Holds (change block) pages) ∧
    (pages ≠ [] → ∀ block, (change block).pagesBegin = loader.pages.length ∧
      (change block).pagesEnd = next.pages.length)

section Blocks

variable (hasRamFile : List UInt8 → Bool) {async compressed : Bool} {sizes : List ℕ}
  {pageCount blockIndex : ℕ} {block : SavedBlock} {prev running : Cursor} {loader : Loader}

variable {own : LoaderBlock}

/-- A loader that has only noted something has read a block without pages. -/
theorem Loader.took_nil {next : Loader} (hversion : next.mVersion = loader.mVersion)
    (hflags : next.flags = loader.flags) (honly : next.mIndexOnly = loader.mIndexOnly)
    (hpages : next.pages = loader.pages) (hblocks : next.blocks = loader.blocks) :
    loader.Took blockIndex [] next := by
  refine ⟨hversion, hflags, honly, hpages ▸ List.prefix_refl _, by rw [hpages]; rfl, by simp [hpages], id,
    ?_, fun _ ↦ rfl, ?_, fun hne ↦ absurd rfl hne⟩
  · rw [hblocks, List.modify_id]
  · intro block hbegin hend
    refine ⟨by rw [id, hend]; exact Nat.zero_le _, ?_⟩
    simp [Loader.pagesOf, hend]

theorem Loader.took_appendPages {pages : List Page} {loaded : List LoaderPage}
    (hentries : loaded.map LoaderPage.entry = pages.map Page.entry)
    (hfresh : ∀ page ∈ loaded, page.Fresh loader.mIndexOnly blockIndex)
    (hroom : loader.pages.length + pages.length ≤ pageCount) (mapped : Bool) (header : Header) :
    ∃ next, Loader.appendPages pageCount blockIndex loaded
        (if mapped then loader.toFileBacking blockIndex header else loader) = some next ∧
      loader.Took blockIndex pages next := by
  have hlength : loaded.length = pages.length := by simpa using congrArg List.length hentries
  have hholds {next : Loader} (hpages : next.pages = loader.pages ++ loaded) (ramBlock : RamBlock) :
      next.Holds ⟨ramBlock, loader.pages.length, loader.pages.length + loaded.length⟩ pages := by
    refine ⟨by rw [hpages, length_append], ?_⟩
    rw [Loader.pagesOf, hpages, ← length_append, List.take_length, List.drop_left, hentries]
  cases mapped with
  | true =>
    refine ⟨_, if_neg (by simp only [if_true, Loader.toFileBacking]; omega), rfl, rfl, rfl, ⟨loaded, rfl⟩,
      by simp [Loader.toFileBacking, hlength], ?_, _, List.modify_modify_eq _ _ _ _, fun _ ↦ rfl, ?_, ?_⟩
    · simpa [Loader.toFileBacking] using hfresh
    · exact fun block _ _ ↦ hholds rfl _
    · exact fun _ block ↦ ⟨rfl, (length_append).symm⟩
  | false =>
    refine ⟨_, if_neg (by simp only [Bool.false_eq_true, if_false]; omega), rfl, rfl, rfl, ⟨loaded, rfl⟩,
      by simp [hlength], ?_, _, rfl, fun _ ↦ rfl, ?_, ?_⟩
    · simpa using hfresh
    · exact fun block _ _ ↦ hholds rfl _
    · exact fun _ block ↦ ⟨rfl, (length_append).symm⟩

/-- The pages of a block that the loader does not skip. -/
theorem Loader.readBlockPages_load {bytes rest : List UInt8} {loaded : List LoaderPage} {running' : Cursor}
    (hcount : block.pages.length < 2 ^ 32) (hreadonly : block.ramBlock.readonly = false)
    (huser : (block.header async).savedFlags &&& snapshotRamUserBacked = 0)
    (hshared : (block.header async).savedFlags &&& snapshotRamMappedShared = 0)
    (hpages : getPages loader.mVersion loader.mIndexOnly compressed
      (if block.ramBlock.hasFlag snapshotRamMapped then block.ramBlock.pageSize % 2 ^ 32
        else block.ramBlock.pageSize) blockIndex block.pages.length running (bytes ++ rest) =
          (loaded, running', rest))
    (hentries : loaded.map LoaderPage.entry = block.pages.map Page.entry)
    (hroom : loader.pages.length + block.pages.length ≤ pageCount) :
    ∃ next, loader.readBlockPages hasRamFile compressed pageCount blockIndex block.ramBlock running
        (putHeader async block ++ (bytes ++ rest)) = some (next, running', rest) ∧
      loader.Took blockIndex block.pages next := by
  have hfresh := getPages_fresh loader.mVersion loader.mIndexOnly compressed
    (if block.ramBlock.hasFlag snapshotRamMapped then block.ramBlock.pageSize % 2 ^ 32
      else block.ramBlock.pageSize) blockIndex block.pages.length running (bytes ++ rest)
  rw [hpages] at hfresh
  obtain ⟨next, hnext, htook⟩ := Loader.took_appendPages hentries hfresh hroom
    (block.ramBlock.hasFlag snapshotRamMapped) (block.header async)
  refine ⟨next, ?_, htook⟩
  have hheader : (block.header async).blockPageSizeFromSave = block.ramBlock.pageSize % 2 ^ 32 := rfl
  have hnumber : (block.header async).blockPagesCount = block.pages.length := rfl
  simp only [Loader.readBlockPages, getHeader_putHeader hcount, hreadonly, huser, hshared, hheader, hnumber,
    hpages, hnext, Bool.false_eq_true, if_false, ne_eq, not_true_eq_false, Option.map_some]

/-- A block without pages, whether the loader skips it or not. -/
theorem Loader.readBlockPages_nil (hblock : block.pages = [])
    (hroom : loader.pages.length ≤ pageCount) (rest : List UInt8) :
    ∃ next, loader.readBlockPages hasRamFile compressed pageCount blockIndex block.ramBlock running
        (putHeader async block ++ rest) = some (next, running, rest) ∧ loader.Took blockIndex [] next := by
  have hcount : block.pages.length < 2 ^ 32 := by simp [hblock]
  by_cases hreadonly : block.ramBlock.readonly = true
  · refine ⟨loader, ?_, Loader.took_nil rfl rfl rfl rfl rfl⟩
    simp only [Loader.readBlockPages, getHeader_putHeader hcount, hreadonly, if_true]
  rw [Bool.not_eq_true] at hreadonly
  by_cases huser : (block.header async).savedFlags &&& snapshotRamUserBacked = 0
  · by_cases hshared : (block.header async).savedFlags &&& snapshotRamMappedShared = 0
    · have hpages : getPages loader.mVersion loader.mIndexOnly compressed
          (if block.ramBlock.hasFlag snapshotRamMapped then block.ramBlock.pageSize % 2 ^ 32
            else block.ramBlock.pageSize) blockIndex block.pages.length running ([] ++ rest) =
          ([], running, rest) := by
        rw [hblock]
        rfl
      have hroom' : loader.pages.length + block.pages.length ≤ pageCount := by
        rw [hblock]
        exact hroom
      have hentries : ([] : List LoaderPage).map LoaderPage.entry = block.pages.map Page.entry := by
        rw [hblock]
        rfl
      obtain ⟨next, hnext, htook⟩ :=
        Loader.readBlockPages_load hasRamFile hcount hreadonly huser hshared hpages hentries hroom'
      rw [hblock] at htook
      exact ⟨next, hnext, htook⟩
    · simp only [Loader.readBlockPages, getHeader_putHeader hcount, hreadonly, huser, hshared, Bool.false_eq_true,
        if_false, ne_eq, not_true_eq_false, not_false_eq_true, if_true]
      split_ifs
      · exact ⟨_, rfl, Loader.took_nil rfl rfl rfl rfl rfl⟩
      · exact ⟨_, rfl, Loader.took_nil rfl rfl rfl rfl rfl⟩
      · exact ⟨_, rfl, Loader.took_nil rfl rfl rfl rfl rfl⟩
  · refine ⟨loader, ?_, Loader.took_nil rfl rfl rfl rfl rfl⟩
    simp only [Loader.readBlockPages, getHeader_putHeader hcount, hreadonly, huser, Bool.false_eq_true, if_false,
      ne_eq, not_false_eq_true, if_true]

theorem RamBlock.flags_of_saved (h : block.ramBlock.saved async = true) : block.ramBlock.readonly = false ∧
      (block.header async).savedFlags &&& snapshotRamUserBacked = 0 ∧
      (block.header async).savedFlags &&& snapshotRamMappedShared = 0 := by
  simp only [RamBlock.saved, Bool.and_eq_true, Bool.not_eq_true', RamBlock.hasFlag, bne_eq_false_iff_eq] at h
  obtain ⟨⟨hreadonly, huser⟩, hshared⟩ := h
  refine ⟨hreadonly, ?_⟩
  cases async with
  | true =>
    rw [Bool.and_true, bne_eq_false_iff_eq] at hshared
    exact ⟨huser, hshared⟩
  | false => exact ⟨UInt32.zero_and, UInt32.zero_and⟩

/-- The saver and the loader skip the same blocks, or the block has no pages. -/
theorem Loader.readBlockPages_putBody (hblock : block.Ok async compressed sizes)
    (hversion : loader.mVersion = 2) (hroom : loader.pages.length + block.pages.length ≤ pageCount)
    (h : Cursor.Agrees compressed sizes prev running) (blockIndex : ℕ) (rest : List UInt8) :
    ∃ next running', loader.readBlockPages hasRamFile compressed pageCount blockIndex block.ramBlock running
        (putHeader async block ++ ((putBody async compressed prev block).1 ++ rest)) = some (next, running', rest) ∧
      loader.Took blockIndex block.pages next ∧
      Cursor.Agrees compressed sizes (putBody async compressed prev block).2 running' := by
  cases hsaved : block.ramBlock.saved async with
  | false =>
    have hnil := hblock.pages_eq_nil hsaved
    have hroom' : loader.pages.length ≤ pageCount := by omega
    obtain ⟨next, hnext, htook⟩ := Loader.readBlockPages_nil hasRamFile hnil hroom' rest
    refine ⟨next, running, ?_, hnil ▸ htook, ?_⟩
    · rw [putBody, hsaved, if_neg (by decide), List.nil_append, hnext]
    · rw [putBody, hsaved, if_neg (by decide)]
      exact h
  | true =>
    obtain ⟨hsize, hpos, hlt, hpages⟩ := hblock.allowed hsaved
    obtain ⟨hreadonly, huser, hshared⟩ := RamBlock.flags_of_saved hsaved
    obtain ⟨loaded, running', hloaded, hentries, hagrees⟩ :=
      getPages_putPages hsize hpos hlt hpages h loader.mIndexOnly blockIndex rest
    have hbody : putBody async compressed prev block =
        putPages compressed block.ramBlock.pageSize prev block.pages := by rw [putBody, if_pos hsaved]
    have hmod : (if block.ramBlock.hasFlag snapshotRamMapped then block.ramBlock.pageSize % 2 ^ 32
        else block.ramBlock.pageSize) = block.ramBlock.pageSize := by
      rw [Nat.mod_eq_of_lt (by omega), ite_self]
    rw [← hbody, ← hversion, ← hmod] at hloaded
    obtain ⟨next, hnext, htook⟩ :=
      Loader.readBlockPages_load hasRamFile hblock.count_lt hreadonly huser hshared hloaded hentries hroom
    exact ⟨next, running', hnext, htook, hbody ▸ hagrees⟩

theorem findIdx?_of_nodup {blocks : List LoaderBlock}
    (hnodup : (blocks.map fun block ↦ block.ramBlock.id).Nodup) (hget : blocks[blockIndex]? = some own) :
    (blocks.findIdx? fun block ↦ block.ramBlock.id = own.ramBlock.id) = some blockIndex := by
  obtain ⟨hlt, hown⟩ := List.getElem?_eq_some_iff.mp hget
  refine List.findIdx?_eq_some_iff_getElem.mpr ⟨hlt, by simp [hown], fun other hother ↦ ?_⟩
  simp only [decide_eq_true_eq, ← hown]
  intro hsame
  have hfirst : other < (blocks.map fun block ↦ block.ramBlock.id).length := by
    rw [length_map]
    omega
  have hsecond : blockIndex < (blocks.map fun block ↦ block.ramBlock.id).length := by
    rw [length_map]
    exact hlt
  have hids : (blocks.map fun block ↦ block.ramBlock.id)[other] =
      (blocks.map fun block ↦ block.ramBlock.id)[blockIndex] := by simpa using hsame
  have hinj := hnodup.getElem_inj_iff.mp hids
  omega

theorem map_id_modify {change : LoaderBlock → LoaderBlock}
    (hchange : ∀ block, (change block).ramBlock.id = block.ramBlock.id) (blocks : List LoaderBlock) :
    (blocks.modify blockIndex change).map (fun block ↦ block.ramBlock.id) =
      blocks.map fun block ↦ block.ramBlock.id := by
  apply List.ext_getElem?
  intro other
  rw [List.getElem?_map, List.getElem?_map, List.getElem?_modify]
  cases blocks[other]? with
  | none => rfl
  | some block =>
    simp only [Option.map_eq_map, Option.map_some]
    split_ifs
    · rw [hchange]
    · rfl

theorem getElem_modify_of_id_ne {change : LoaderBlock → LoaderBlock} {blocks : List LoaderBlock}
    {other : LoaderBlock} {position : ℕ} (hget : blocks[blockIndex]? = some own)
    (hother : blocks[position]? = some other) (hne : other.ramBlock.id ≠ own.ramBlock.id) :
    (blocks.modify blockIndex change)[position]? = some other := by
  have hdifferent : blockIndex ≠ position := by
    rintro rfl
    rw [hget] at hother
    exact hne (Option.some.inj hother ▸ rfl)
  rw [List.getElem?_modify_ne _ _ hdifferent, hother]

/-- The blocks have been read. Blocks that are not among those in the file stay as they are, and every
page that is new lies between the bounds of its block. -/
structure Loader.TookAll (blocks : List SavedBlock) (loader next : Loader) : Prop where
  version_eq : next.mVersion = loader.mVersion
  flags_eq : next.flags = loader.flags
  indexOnly_eq : next.mIndexOnly = loader.mIndexOnly
  ids_eq : (next.blocks.map fun block ↦ block.ramBlock.id) = loader.blocks.map fun block ↦ block.ramBlock.id
  pages_grown : loader.pages <+: next.pages
  kept : ∀ (position : ℕ) other, loader.blocks[position]? = some other →
    other.ramBlock.id ∉ blocks.map (fun block ↦ block.ramBlock.id) → next.blocks[position]? = some other
  held : ∀ block ∈ blocks, ∃ (blockIndex : ℕ) (own : LoaderBlock), next.blocks[blockIndex]? = some own ∧
    own.ramBlock.id = block.ramBlock.id ∧ next.Holds own block.pages ∧
    ∀ page ∈ next.pagesOf own, page.Fresh loader.mIndexOnly blockIndex
  bounded : ∀ position page, loader.pages.length ≤ position → next.pages[position]? = some page →
    ∃ (blockIndex : ℕ) (own : LoaderBlock), next.blocks[blockIndex]? = some own ∧
      own.pagesBegin ≤ position ∧ position < own.pagesEnd ∧ page.Fresh loader.mIndexOnly blockIndex

theorem Loader.tookAll_nil (loader : Loader) : loader.TookAll [] loader where
  version_eq := rfl
  flags_eq := rfl
  indexOnly_eq := rfl
  ids_eq := rfl
  pages_grown := List.prefix_refl _
  kept _ _ hother _ := hother
  held := by simp
  bounded position page hposition hpage := by
    rw [List.getElem?_eq_none hposition] at hpage
    cases hpage

theorem Loader.Took.tookAll {middle next : Loader} {blocks : List SavedBlock}
    (htook : loader.Took blockIndex block.pages middle) (hall : middle.TookAll blocks next)
    (hget : loader.blocks[blockIndex]? = some own) (hid : own.ramBlock.id = block.ramBlock.id)
    (hempty : own.pagesBegin = 0 ∧ own.pagesEnd = 0)
    (hnot : block.ramBlock.id ∉ blocks.map fun block ↦ block.ramBlock.id) :
    loader.TookAll (block :: blocks) next := by
  obtain ⟨change, hchanged, hsame, hholds, hbounds⟩ := htook.blocks_eq
  have hmiddle : middle.blocks[blockIndex]? = some (change own) := by
    rw [hchanged, List.getElem?_modify_eq, hget]
    rfl
  have hnext : next.blocks[blockIndex]? = some (change own) := by
    refine hall.kept _ _ hmiddle ?_
    rw [hsame, hid]
    exact hnot
  refine ⟨hall.version_eq.trans htook.version_eq, hall.flags_eq.trans htook.flags_eq,
    hall.indexOnly_eq.trans htook.indexOnly_eq, ?_, htook.pages_grown.trans hall.pages_grown, ?_, ?_, ?_⟩
  · rw [hall.ids_eq, hchanged, map_id_modify hsame]
  · intro position other hother hothers
    rw [map_cons, List.mem_cons, not_or] at hothers
    refine hall.kept position other ?_ hothers.2
    rw [hchanged]
    exact getElem_modify_of_id_ne hget hother (hid ▸ hothers.1)
  · intro other hother
    obtain rfl | hother := List.mem_cons.mp hother
    · have hheld := hholds own hempty.1 hempty.2
      refine ⟨blockIndex, change own, hnext, (hsame own).trans hid, hheld.of_grown hall.pages_grown,
        fun page hpage ↦ ?_⟩
      rw [hheld.pagesOf_grown hall.pages_grown] at hpage
      by_cases hnil : other.pages = []
      · have hnone := hheld.entries_eq
        rw [hnil, List.map_nil, List.map_eq_nil_iff] at hnone
        rw [hnone] at hpage
        cases hpage
      · obtain ⟨hbegin, hend⟩ := hbounds hnil own
        rw [Loader.pagesOf, hbegin, hend, List.take_length] at hpage
        exact htook.fresh page hpage
    · rw [← htook.indexOnly_eq]
      exact hall.held other hother
  · intro position page hposition hpage
    by_cases hlater : middle.pages.length ≤ position
    · rw [← htook.indexOnly_eq]
      exact hall.bounded position page hlater hpage
    · -- the page is one of this block
      have hlength := htook.length_eq
      obtain ⟨more, hmore⟩ := hall.pages_grown
      rw [← hmore, List.getElem?_append_left (by omega)] at hpage
      have hne : block.pages ≠ [] := by
        rintro hnil
        rw [hnil] at hlength
        exact hlater (by simpa using hlength.le.trans hposition)
      obtain ⟨hbegin, hend⟩ := hbounds hne own
      refine ⟨blockIndex, change own, hnext, by omega, by omega, htook.fresh page ?_⟩
      refine List.mem_of_getElem? (i := position - loader.pages.length) ?_
      rw [List.getElem?_drop, Nat.add_sub_cancel' hposition, hpage]

/-- The loop over the blocks. -/
theorem Loader.readBlocks_putBlocks {blocks : List SavedBlock}
    (hblocks : ∀ block ∈ blocks, block.Ok async compressed sizes)
    (hnodup : (blocks.map fun block ↦ block.ramBlock.id).Nodup)
    (hids : (loader.blocks.map fun block ↦ block.ramBlock.id).Nodup)
    (hregistered : ∀ block ∈ blocks, ⟨block.ramBlock, 0, 0⟩ ∈ loader.blocks)
    (hversion : loader.mVersion = 2)
    (hroom : loader.pages.length + (blocks.map fun block ↦ block.pages.length).sum ≤ pageCount)
    (h : Cursor.Agrees compressed sizes prev running) (rest : List UInt8) :
    ∃ next, loader.readBlocks hasRamFile compressed pageCount blocks.length running
        (putBlocks async compressed prev blocks ++ rest) = some (next, rest) ∧
      loader.TookAll blocks next := by
  induction blocks generalizing loader prev running with
  | nil => exact ⟨loader, rfl, Loader.tookAll_nil loader⟩
  | cons block blocks ih =>
    rw [map_cons, List.nodup_cons] at hnodup
    rw [map_cons, List.sum_cons] at hroom
    have hblock := hblocks block List.mem_cons_self
    obtain ⟨blockIndex, hget⟩ := List.mem_iff_getElem?.mp (hregistered block List.mem_cons_self)
    have hfirst : loader.pages.length + block.pages.length ≤ pageCount := by omega
    obtain ⟨middle, running', hmiddle, htook, hagrees⟩ := Loader.readBlockPages_putBody hasRamFile
      hblock hversion hfirst h blockIndex
      (putBlocks async compressed (putBody async compressed prev block).2 blocks ++ rest)
    obtain ⟨change, hchanged, hid, _⟩ := htook.blocks_eq
    have hothers : ∀ other ∈ blocks, other.ramBlock.id ≠ block.ramBlock.id := by
      intro other hother hsame
      exact hnodup.1 (hsame ▸ mem_map_of_mem hother)
    have hsameIds : (middle.blocks.map fun block ↦ block.ramBlock.id) =
        loader.blocks.map fun block ↦ block.ramBlock.id := by
      rw [hchanged, map_id_modify hid]
    have hstill : ∀ other ∈ blocks, ⟨other.ramBlock, 0, 0⟩ ∈ middle.blocks := by
      intro other hother
      obtain ⟨position, hposition⟩ :=
        List.mem_iff_getElem?.mp (hregistered other (List.mem_cons_of_mem _ hother))
      rw [hchanged]
      exact List.mem_of_getElem? (getElem_modify_of_id_ne hget hposition (hothers other hother))
    obtain ⟨next, hnext, hall⟩ := ih
      (fun other hother ↦ hblocks other (List.mem_cons_of_mem _ hother)) hnodup.2 (hsameIds ▸ hids) hstill
      (htook.version_eq.trans hversion) (by rw [htook.length_eq]; omega) hagrees
    refine ⟨next, ?_, htook.tookAll hall hget rfl ⟨rfl, rfl⟩ hnodup.1⟩
    have hfound := findIdx?_of_nodup hids hget
    simp only [List.length_cons, Loader.readBlocks, putBlocks, append_assoc, getName_putName hblock.id_le,
      hfound, Option.bind_some, hget, hmiddle, hnext]

end Blocks

/-! ## The whole index -/

/-- The page sizes of the blocks in the file. -/
def FileIndex.pageSizes (index : FileIndex) : List ℕ :=
  (index.blocks.filter fun block ↦ block.ramBlock.saved index.async).map fun block ↦ block.ramBlock.pageSize

/-- The entries are allowed by the mode of the file. -/
def FileIndex.Allowed (index : FileIndex) : Prop :=
  ∀ block ∈ index.blocks, block.ramBlock.saved index.async = true →
    0 < block.ramBlock.pageSize ∧ block.ramBlock.pageSize < 2 ^ 31 ∧
    ∀ page ∈ block.pages, page.Allowed index.compressed index.pageSizes block.ramBlock.pageSize

section Index

variable {index : FileIndex} {registered : List RamBlock}

variable (mIndexOnly : Bool)

theorem FileIndex.flags_compressed (index : FileIndex) : (index.flags &&& 1 != 0) = index.compressed := by
  unfold FileIndex.flags
  cases index.async <;> cases index.compressed <;> decide

theorem FileIndex.length_pages_le {block : SavedBlock} (hblock : block ∈ index.blocks) :
    block.pages.length ≤ index.totalPages := by
  rw [index.totalPages_eq]
  exact List.le_sum_of_mem (mem_map_of_mem hblock)

theorem FileIndex.ok_of_mem (hallowed : index.Allowed)
    (hlengths : ∀ block ∈ index.blocks, block.ramBlock.id.length ≤ 255) :
    ∀ block ∈ index.blocks, block.Ok index.async index.compressed index.pageSizes := by
  intro block hblock
  have htotal := index.totalPages_lt
  have hle := FileIndex.length_pages_le hblock
  refine ⟨hlengths block hblock, by omega, index.pages_eq_nil block hblock, fun hsaved ↦ ?_⟩
  refine ⟨mem_map_of_mem ?_, hallowed block hblock hsaved⟩
  exact List.mem_filter.mpr ⟨hblock, hsaved⟩

theorem Loader.foldl_registerBlock (loader : Loader) (registered : List RamBlock) :
    (registered.foldl Loader.registerBlock loader).blocks =
        loader.blocks ++ registered.map (fun block ↦ ⟨block, 0, 0⟩) ∧
      (registered.foldl Loader.registerBlock loader).pages = loader.pages ∧
      (registered.foldl Loader.registerBlock loader).mIndexOnly = loader.mIndexOnly := by
  induction registered generalizing loader with
  | nil => simp
  | cons block registered ih =>
    obtain ⟨hblocks, hpages, honly⟩ := ih (loader.registerBlock block)
    rw [List.foldl_cons, hblocks, hpages, honly]
    simp [Loader.registerBlock]

/-- The loader before it reads the blocks of an index. -/
def Loader.atBlocks (mIndexOnly : Bool) (registered : List RamBlock) (index : FileIndex) : Loader :=
  { registered.foldl Loader.registerBlock (Loader.new mIndexOnly) with flags := index.flags, mVersion := 2 }

section

variable (registered : List RamBlock) (index : FileIndex)

theorem Loader.atBlocks_blocks :
    (Loader.atBlocks mIndexOnly registered index).blocks = registered.map fun block ↦ ⟨block, 0, 0⟩ :=
  (Loader.foldl_registerBlock (.new mIndexOnly) registered).1

theorem Loader.atBlocks_pages : (Loader.atBlocks mIndexOnly registered index).pages = [] :=
  (Loader.foldl_registerBlock (.new mIndexOnly) registered).2.1

theorem Loader.atBlocks_indexOnly : (Loader.atBlocks mIndexOnly registered index).mIndexOnly = mIndexOnly :=
  (Loader.foldl_registerBlock (.new mIndexOnly) registered).2.2

theorem Loader.atBlocks_ids :
    ((Loader.atBlocks mIndexOnly registered index).blocks.map fun block ↦ block.ramBlock.id) =
      registered.map RamBlock.id := by
  rw [Loader.atBlocks_blocks, List.map_map]
  rfl

end

/-- The blocks of an index are read, and the gaps are taken from what follows them. -/
theorem Loader.readIndex_blocks (hasRamFile : List UInt8 → Bool) (mIndexOnly : Bool) (mGaps : Option GapTracker)
    (hids : (index.blocks.map fun block ↦ block.ramBlock.id).Nodup)
    (hlengths : ∀ block ∈ index.blocks, block.ramBlock.id.length ≤ 255)
    (hregistered : registered.Perm (index.blocks.map SavedBlock.ramBlock)) (hallowed : index.Allowed) :
    ∃ loader : Loader, Loader.readIndex hasRamFile (writeIndex index mGaps)
        (registered.foldl Loader.registerBlock (Loader.new mIndexOnly)) = some ({ loader with
              mGaps := some (GapTracker.get index.compressed (mGaps.getD (.oneSize [] 0)).save).1 },
            (GapTracker.get index.compressed (mGaps.getD (.oneSize [] 0)).save).2) ∧
      (Loader.atBlocks mIndexOnly registered index).TookAll index.blocks loader := by
  have hstart := Loader.atBlocks_blocks mIndexOnly registered index
  have hpermIds : (registered.map RamBlock.id).Perm (index.blocks.map fun block ↦ block.ramBlock.id) := by
    have hmapped := hregistered.map RamBlock.id
    rwa [List.map_map] at hmapped
  have hcount : (registered.foldl Loader.registerBlock (Loader.new mIndexOnly)).blocks.length =
      index.blocks.length := by
    have hlength := hregistered.length_eq
    rw [length_map] at hlength
    rw [(Loader.foldl_registerBlock (.new mIndexOnly) registered).1, Loader.new, List.nil_append,
      length_map, hlength]
  have htotal : (UInt32.ofNat index.totalPages).toNat = index.totalPages :=
    UInt32.toNat_ofNat_of_lt' (Nat.lt_trans index.totalPages_lt (by decide))
  have hmem : ∀ block ∈ index.blocks,
      ⟨block.ramBlock, 0, 0⟩ ∈ (Loader.atBlocks mIndexOnly registered index).blocks := by
    intro block hblock
    rw [hstart]
    exact mem_map_of_mem (hregistered.mem_iff.mpr (mem_map_of_mem hblock))
  have hnodup : ((Loader.atBlocks mIndexOnly registered index).blocks.map fun block ↦
      block.ramBlock.id).Nodup := by
    rw [Loader.atBlocks_ids]
    exact hpermIds.nodup_iff.mpr hids
  have hroom : (Loader.atBlocks mIndexOnly registered index).pages.length +
      (index.blocks.map fun block ↦ block.pages.length).sum ≤ index.totalPages := by
    rw [Loader.atBlocks_pages, ← index.totalPages_eq, List.length_nil, Nat.zero_add]
  obtain ⟨loader, hread, htook⟩ :=
    Loader.readBlocks_putBlocks hasRamFile (FileIndex.ok_of_mem hallowed hlengths) hids hnodup hmem rfl hroom
      (Cursor.agrees_start index.compressed index.pageSizes) (mGaps.getD (.oneSize [] 0)).save
  refine ⟨loader, ?_, htook⟩
  rw [Loader.atBlocks] at hread
  simp only [Loader.readIndex, writeIndex, getBe32_putBe32, index.flags_compressed, htotal, hcount]
  rw [if_neg (by decide)]
  have htwo : (2 : UInt32).toNat = 2 := rfl
  simp only [htwo, hread, Option.map_some]
  rfl

/-- The blocks may be registered in any order. The loader reads all of the index, and finds for each
block the entries of its pages and the gaps. -/
theorem readIndex_writeIndex (hasRamFile : List UInt8 → Bool) (mIndexOnly : Bool) (mGaps : Option GapTracker)
    (hids : (index.blocks.map fun block ↦ block.ramBlock.id).Nodup)
    (hlengths : ∀ block ∈ index.blocks, block.ramBlock.id.length ≤ 255)
    (hregistered : registered.Perm (index.blocks.map SavedBlock.ramBlock)) (hallowed : index.Allowed)
    (hgaps : ∀ tracker ∈ mGaps, tracker.Fits index.compressed)
    (hlength : (writeIndex index mGaps).length < 2 ^ 63) :
    ∃ loader tracker, Loader.readIndex hasRamFile (writeIndex index mGaps)
        (registered.foldl Loader.registerBlock (Loader.new mIndexOnly)) = some (loader, []) ∧
      loader.mGaps = some tracker ∧ tracker.gaps.Perm (mGaps.elim [] GapTracker.gaps) ∧
      (loader.blocks.map fun block ↦ block.ramBlock.id) = registered.map RamBlock.id ∧
      ∀ block ∈ index.blocks, ∃ own ∈ loader.blocks, own.ramBlock.id = block.ramBlock.id ∧
        (loader.pagesOf own).map LoaderPage.entry = block.pages.map Page.entry := by
  obtain ⟨loader, hread, htook⟩ :=
    Loader.readIndex_blocks hasRamFile mIndexOnly mGaps hids hlengths hregistered hallowed
  obtain ⟨tracker, htracker, hperm⟩ := GapTracker.get_save hgaps (by
    simp only [writeIndex, length_append] at hlength
    omega)
  rw [htracker] at hread
  refine ⟨{ loader with mGaps := some tracker }, tracker, hread, rfl, hperm, ?_, ?_⟩
  · exact htook.ids_eq.trans (Loader.atBlocks_ids mIndexOnly registered index)
  · intro block hblock
    obtain ⟨blockIndex, own, hown, hid, hholds, _⟩ := htook.held block hblock
    exact ⟨own, List.mem_of_getElem? hown, hid, hholds.entries_eq⟩

end Index

instance (compressed : Bool) (sizes : List ℕ) (pageSize : ℕ) (page : Page) :
    Decidable (page.Allowed compressed sizes pageSize) :=
  inferInstanceAs (Decidable (if compressed then page.sizeOnDisk ≤ pageSize
    else page.sizeOnDisk = 0 ∨ page.sizeOnDisk = pageSize ∧ ∀ size ∈ sizes, (size : ℤ) ∣ page.filePos - 8))

instance (index : FileIndex) : Decidable index.Allowed :=
  inferInstanceAs (Decidable (∀ block ∈ index.blocks, block.ramBlock.saved index.async = true →
    0 < block.ramBlock.pageSize ∧ block.ramBlock.pageSize < 2 ^ 31 ∧
    ∀ page ∈ block.pages, page.Allowed index.compressed index.pageSizes block.ramBlock.pageSize))

def ramBlock : RamBlock := ⟨[0x72], 4096, 0, [], false, by decide, by decide⟩

def otherBlock : RamBlock := ⟨[0x73], 4096, 0, [], false, by decide, by decide⟩

/-- A block of the guest's memory and one that is mapped as shared. -/
def ramAndShared : FileIndex where
  async := true
  compressed := true
  totalPages := 3
  blocks :=
    [⟨ramBlock,
      [⟨100, 5000, ⟨List.replicate 16 1, rfl⟩, by decide⟩, Page.zero,
        ⟨4096, 8, ⟨List.replicate 16 2, rfl⟩, by decide⟩]⟩,
      ⟨{ otherBlock with flags := 10, path := [0x69], path_lt := by decide }, []⟩]
  pages_eq_nil := by decide
  totalPages_eq := rfl
  totalPages_lt := by decide

theorem readIndex_writeIndex_ramAndShared :
    ∃ loader tracker, Loader.readIndex (fun _ ↦ false)
        (writeIndex ramAndShared (some (.generic [⟨4104, 896⟩])))
        ((ramAndShared.blocks.reverse.map SavedBlock.ramBlock).foldl Loader.registerBlock (Loader.new false)) =
          some (loader, []) ∧
      loader.mGaps = some tracker ∧ tracker.gaps = [⟨4104, 896⟩] ∧
      ∃ own ∈ loader.blocks, own.ramBlock.id = [0x72] ∧ (loader.pagesOf own).map LoaderPage.entry =
        [(100, 5000, ⟨List.replicate 16 1, rfl⟩), (0, 0, .zero), (4096, 8, ⟨List.replicate 16 2, rfl⟩)] := by
  have hgaps : ∀ tracker ∈ some (GapTracker.generic [⟨4104, 896⟩]), tracker.Fits true := by
    intro tracker htracker
    obtain rfl := Option.mem_some_iff.mp htracker
    refine ⟨rfl, ?_, ?_⟩
    · intro gap hgap
      obtain rfl := List.mem_singleton.mp hgap
      exact ⟨by decide, by decide⟩
    · intro gap hgap
      obtain rfl := List.mem_singleton.mp hgap
      exact ⟨by decide, by decide⟩
  obtain ⟨loader, tracker, hread, htracker, hperm, _, hblocks⟩ := readIndex_writeIndex
    (fun _ ↦ false) false (some (.generic [⟨4104, 896⟩])) (by decide) (by decide)
    ((List.reverse_perm ramAndShared.blocks).map SavedBlock.ramBlock) (by decide +kernel) hgaps (by decide +kernel)
  obtain ⟨own, hown, hid, hentries⟩ := hblocks _ List.mem_cons_self
  exact ⟨loader, tracker, hread, htracker, List.perm_singleton.mp hperm, own, hown, hid, hentries⟩

/-- Two blocks of one id. -/
def twins : FileIndex where
  async := false
  compressed := false
  totalPages := 2
  blocks :=
    [⟨⟨[0x72], 4096, 0, [], false, by decide, by decide⟩, [⟨4096, 8, ⟨List.replicate 16 1, rfl⟩, by decide⟩]⟩,
      ⟨⟨[0x72], 4096, 0, [], false, by decide, by decide⟩, [⟨4096, 4104, ⟨List.replicate 16 2, rfl⟩, by decide⟩]⟩]
  pages_eq_nil := by decide
  totalPages_eq := rfl
  totalPages_lt := by decide

/-- Both are loaded into the first block that has the id, so that the pages of the first are lost. -/
theorem twins_lost :
    twins.Allowed ∧ ∃ loader, Loader.readIndex (fun _ ↦ false) (writeIndex twins none)
        ((twins.blocks.map SavedBlock.ramBlock).foldl Loader.registerBlock (Loader.new false)) =
          some (loader, []) ∧
      ∀ own ∈ loader.blocks,
        (4096, 8, ⟨List.replicate 16 1, rfl⟩) ∉ (loader.pagesOf own).map LoaderPage.entry := by
  refine ⟨by decide +kernel, ?_⟩
  have hread : (Loader.readIndex (fun _ ↦ false) (writeIndex twins none)
      ((twins.blocks.map SavedBlock.ramBlock).foldl Loader.registerBlock (Loader.new false))).map
        (fun result ↦ (result.2, decide (∀ own ∈ result.1.blocks,
          (4096, 8, ⟨List.replicate 16 1, rfl⟩) ∉ (result.1.pagesOf own).map LoaderPage.entry))) =
      some ([], true) := by decide +kernel
  obtain ⟨⟨loader, rest⟩, hread, hresult⟩ := Option.map_eq_some_iff.mp hread
  obtain ⟨hrest, hlost⟩ := Prod.mk.inj hresult
  exact ⟨loader, hrest ▸ hread, of_decide_eq_true hlost⟩

end FdeEmugl.Snapshot
