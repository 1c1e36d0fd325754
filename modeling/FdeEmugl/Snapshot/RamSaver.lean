import FdeEmugl.Library.Files
import FdeEmugl.Snapshot.RamIndex

/-!
# Saving and loading the pages of RAM

A full save writes all pages that are not zero, one behind the other. An incremental save goes on from
the file of the save before: pages whose hash is the same stay where they are, others are written over
their old place if they still fit, into a gap, or behind all pages. Workers compress batches of pages
and one thread writes them; pages of a batch that follow each other in the file are written in one
go. The index goes behind the pages, and its position to the first eight bytes.
-/

namespace FdeEmugl.Snapshot

open Coverage Files FdeEmugl.Stream

/-! ## Pages of memory -/

abbrev Contents := { bytes : List UInt8 // bytes.length = kDefaultPageSize }

def Contents.zero : Contents := ⟨List.replicate kDefaultPageSize 0, List.length_replicate⟩

def isBufferZeroed (contents : Contents) : Bool := contents.1.all (· = 0)

theorem isBufferZeroed_iff {contents : Contents} : isBufferZeroed contents = true ↔ contents = .zero := by
  obtain ⟨bytes, hlength⟩ := contents
  rw [Contents.zero, Subtype.mk.injEq, List.eq_replicate_iff]
  simp [isBufferZeroed, hlength]

/-- The index of a block and of a page in it. -/
abbrev PageId := ℕ × ℕ

scoped instance decidableMemPages (id : PageId) (ids : List PageId) : Decidable (id ∈ ids) := inferInstance

abbrev Memory := PageId → Contents

/-- The compression and the hash, which are libraries. -/
structure Codec where
  compress : Contents → List UInt8
  decompress : List UInt8 → Option Contents
  hash : Contents → Hash

/-- The blocks of the machine, each with the number of its pages. -/
structure Layout where
  async : Bool
  blocks : List (RamBlock × ℕ)
  nodup_ids : (blocks.map fun block ↦ block.1.id).Nodup
  id_le : ∀ block ∈ blocks, block.1.id.length ≤ 255
  pageSize_eq : ∀ block ∈ blocks, block.1.pageSize = kDefaultPageSize
  length_le : blocks.length ≤ 2 ^ 16
  sum_lt : (blocks.map Prod.snd).sum < 2 ^ 31

namespace Layout

variable (layout : Layout)

/-- The number of pages of a block that go to the file. -/
def numPages (block : RamBlock × ℕ) : ℕ := if block.1.saved layout.async then block.2 else 0

def ids : List PageId :=
  layout.blocks.zipIdx.flatMap fun block ↦ (List.range (layout.numPages block.1)).map (block.2, ·)

def owners : Finset PageId := layout.ids.toFinset

/-- The index of a save in which the pages are as given. -/
def index (compressed : Bool) (pages : PageId → Page) : FileIndex where
  async := layout.async
  compressed := compressed
  totalPages := (layout.blocks.map layout.numPages).sum
  blocks := layout.blocks.zipIdx.map fun block ↦
    ⟨block.1.1, (List.range (layout.numPages block.1)).map fun page ↦ pages (block.2, page)⟩
  pages_eq_nil := by
    intro block hblock hsaved
    obtain ⟨⟨⟨ramBlock, count⟩, position⟩, _, rfl⟩ := List.mem_map.mp hblock
    have hnone : layout.numPages (ramBlock, count) = 0 := if_neg (by simp only [hsaved]; decide)
    simp only [hnone, List.range_zero, List.map_nil]
  totalPages_eq := by
    have hfirst : layout.blocks.map layout.numPages =
        layout.blocks.zipIdx.map fun block ↦ layout.numPages block.1 := by
      conv_lhs => rw [← List.zipIdx_map_fst 0 layout.blocks, List.map_map]
      rfl
    rw [hfirst, List.map_map]
    simp [Function.comp_def]
  totalPages_lt := by
    refine lt_of_le_of_lt (List.sum_le_sum fun block _ ↦ ?_) layout.sum_lt
    unfold numPages
    split_ifs
    · exact le_rfl
    · exact Nat.zero_le _

end Layout

/-! ## `RamSaver` -/

structure SaverPage where
  sizeOnDisk : ℕ
  same : Bool
  hashFilled : Bool
  filePos : ℕ
  hash : Hash
  loaderPage : Option LoaderPage
  writePtr : List UInt8

namespace SaverPage

/-- The check for zeros. -/
def new (contents : Contents) : SaverPage where
  sizeOnDisk := if isBufferZeroed contents then 0 else kDefaultPageSize
  same := false
  hashFilled := false
  filePos := 0
  hash := .zero
  loaderPage := none
  writePtr := []

/-- A page that has not been loaded yet has not changed. -/
def setLoaderPage (loaderPage : LoaderPage) (unloaded : Bool) (page : SaverPage) : SaverPage :=
  if unloaded then
    { page with
      loaderPage := some loaderPage
      same := true
      filePos := loaderPage.filePos
      sizeOnDisk := loaderPage.sizeOnDisk
      hash := if loaderPage.sizeOnDisk ≠ 0 then loaderPage.hash else page.hash
      hashFilled := if loaderPage.sizeOnDisk ≠ 0 then true else page.hashFilled }
  else { page with loaderPage := some loaderPage }

def calcHash (codec : Codec) (contents : Contents) (page : SaverPage) : SaverPage :=
  if page.sizeOnDisk ≠ 0 ∧ page.hashFilled = false then
    { page with hash := codec.hash contents, hashFilled := true }
  else page

/-- The comparison with the previous snapshot. -/
def compare (loaderPage : LoaderPage) (page : SaverPage) : SaverPage :=
  if loaderPage.sizeOnDisk = 0 ∧ page.sizeOnDisk = 0 then { page with same := true, sizeOnDisk := 0 }
  else if page.hash = loaderPage.hash then
    { page with same := true, filePos := loaderPage.filePos, sizeOnDisk := loaderPage.sizeOnDisk }
  else page

def save (codec : Codec) (contents : Contents) : SaverPage := (new contents).calcHash codec contents

def saveAgain (codec : Codec) (loaderPage : LoaderPage) (unloaded : Bool) (contents : Contents) : SaverPage :=
  (((new contents).setLoaderPage loaderPage unloaded).calcHash codec contents).compare loaderPage

/-- Whether the page goes to `nonzeroChangedPages`. -/
def changed (page : SaverPage) : Bool := !page.same && page.sizeOnDisk ≠ 0

/-- What `handlePageSave` does with a page. It is compressed only if that makes it smaller. -/
def handle (codec : Codec) (compressed : Bool) (contents : Contents) (page : SaverPage) : SaverPage :=
  if compressed ∧ (codec.compress contents).length < kDefaultPageSize then
    { page with sizeOnDisk := (codec.compress contents).length, writePtr := codec.compress contents }
  else { page with sizeOnDisk := kDefaultPageSize, writePtr := contents.1 }

/-- The old place of a page, if the page fits; what is left of it becomes a gap. -/
def reuse (page : SaverPage) (mGaps : GapTracker) : ℕ × GapTracker :=
  match page.loaderPage with
  | none => (page.filePos, mGaps)
  | some loaderPage =>
    if page.sizeOnDisk ≤ loaderPage.sizeOnDisk then
      (loaderPage.filePos,
        if page.sizeOnDisk < loaderPage.sizeOnDisk then
          mGaps.add (loaderPage.filePos + page.sizeOnDisk) (loaderPage.sizeOnDisk - page.sizeOnDisk : ℕ)
        else mGaps)
    else if loaderPage.sizeOnDisk ≠ 0 then
      (page.filePos, mGaps.add loaderPage.filePos loaderPage.sizeOnDisk)
    else (page.filePos, mGaps)

/-- A gap for a page that has no place yet. -/
def allocate (page : SaverPage) (mGaps : GapTracker) : ℕ × GapTracker :=
  if page.filePos = 0 then
    let (gapPos, mGaps) := mGaps.allocate page.sizeOnDisk
    (gapPos.getD page.filePos, mGaps)
  else (page.filePos, mGaps)

/-- The end of the pages for a page that has no place yet. -/
def append (page : SaverPage) (nextStreamPos : ℕ) : ℕ × ℕ :=
  if page.filePos = 0 then (nextStreamPos, nextStreamPos + page.sizeOnDisk)
  else (page.filePos, nextStreamPos)

def moveTo (page : SaverPage) (filePos : ℕ) : SaverPage := { page with filePos }

end SaverPage

/-- One of the loops of `writePage` that give the pages of a batch their places. -/
def placeEach {Rest : Type} (place : SaverPage → Rest → ℕ × Rest) :
    List PageId → (PageId → SaverPage) → Rest → (PageId → SaverPage) × Rest
  | [], pages, rest => (pages, rest)
  | id :: batch, pages, rest =>
    let (filePos, rest) := place (pages id) rest
    placeEach place batch (Function.update pages id ((pages id).moveTo filePos)) rest

/-- The buffer, as far as it is filled, and the range of the file it belongs to. -/
structure WriteCombine where
  file : File
  mWriteCombineBuffer : List UInt8
  curr : Option (ℕ × ℕ)

def WriteCombine.add (combine : WriteCombine) (page : SaverPage) : WriteCombine :=
  match combine.curr with
  | none => ⟨combine.file, page.writePtr, some (page.filePos, page.filePos + page.sizeOnDisk)⟩
  | some (currStart, currEnd) =>
    if currEnd = page.filePos then
      ⟨combine.file, combine.mWriteCombineBuffer ++ page.writePtr, some (currStart, currEnd + page.sizeOnDisk)⟩
    else
      ⟨combine.file.pwrite combine.mWriteCombineBuffer currStart, page.writePtr,
        some (page.filePos, page.filePos + page.sizeOnDisk)⟩

def WriteCombine.finish (combine : WriteCombine) : File :=
  match combine.curr with
  | none => combine.file
  | some (currStart, _) => combine.file.pwrite combine.mWriteCombineBuffer currStart

/-- `waiting` are the changed pages that have not been written. `mGaps` is there if the save is
incremental. -/
structure Saver where
  compressed : Bool
  memory : Memory
  mGaps : Option GapTracker
  mCurrentStreamPos : ℕ
  pages : PageId → SaverPage
  waiting : List PageId
  file : File

def kCompressBufferBatchSize : ℕ := 1024

/-- What the index says about a page. The writer does not get beyond the offsets that a file can have. -/
def SaverPage.toPage (page : SaverPage) : Page :=
  if h : page.filePos + page.sizeOnDisk < 2 ^ 63 then ⟨page.sizeOnDisk, page.filePos, page.hash, h⟩
  else .zero

namespace Saver

/-- A saver without a loader has written the placeholder for the position of the index. -/
def full (codec : Codec) (layout : Layout) (compressed : Bool) (memory : Memory) : Saver where
  compressed := compressed
  memory := memory
  mGaps := none
  mCurrentStreamPos := 8
  pages id := .save codec (memory id)
  waiting := layout.ids.filter fun id ↦ (SaverPage.save codec (memory id)).changed
  file := File.empty.pwrite (putBe64 0) 0

/-- A worker compresses the pages of a batch. -/
def handlePageSave (codec : Codec) (batch : List PageId) (saver : Saver) (id : PageId) : SaverPage :=
  if id ∈ batch then (saver.pages id).handle codec saver.compressed (saver.memory id) else saver.pages id

/-- First all gaps of the batch are added, then gaps are taken. -/
def placeInGaps (batch : List PageId) (pages : PageId → SaverPage) :
    Option GapTracker → (PageId → SaverPage) × Option GapTracker
  | none => (pages, none)
  | some mGaps =>
    let (pages, mGaps) := placeEach SaverPage.reuse batch pages mGaps
    let (pages, mGaps) := placeEach SaverPage.allocate batch pages mGaps
    (pages, some mGaps)

/-- A batch goes through a worker and then to the writer. -/
def writePage (codec : Codec) (batch : List PageId) (saver : Saver) : Saver :=
  let (pages, mGaps) := placeInGaps batch (saver.handlePageSave codec batch) saver.mGaps
  let (pages, nextStreamPos) := placeEach SaverPage.append batch pages saver.mCurrentStreamPos
  { saver with
    pages, mGaps
    mCurrentStreamPos := nextStreamPos
    waiting := saver.waiting.filter (· ∉ batch)
    file := ((batch.map pages).foldl WriteCombine.add ⟨saver.file, [], none⟩).finish }

def indexBytes (layout : Layout) (saver : Saver) : List UInt8 :=
  Snapshot.writeIndex (layout.index saver.compressed fun id ↦ (saver.pages id).toPage) saver.mGaps

/-- The file is not longer than an offset can say. -/
def writeIndex (layout : Layout) (saver : Saver) : Option File :=
  let startPosInFile := saver.mCurrentStreamPos
  let mDiskSize := startPosInFile + (saver.indexBytes layout).length
  if saver.waiting = [] ∧ mDiskSize < 2 ^ 63 then
    some (((saver.file.pwrite (saver.indexBytes layout) startPosInFile).setFileSize mDiskSize).pwrite
      (putBe64 (UInt64.ofNat startPosInFile)) 0)
  else none

end Saver

/-! ## `RamLoader` -/

namespace Loader

/-- The loader and `mIndexPos`, if the index can be read. -/
def readIndexOf (hasRamFile : List UInt8 → Bool) (file : File) (loader : Loader) : Option (Loader × ℕ) :=
  let mIndexPos := (getBe64 (file.pread 8 0)).1.toNat
  let buffer := file.pread (file.size - mIndexPos) mIndexPos
  (loader.readIndex hasRamFile buffer).map fun result ↦ (result.1, mIndexPos)

/-- The blocks of the machine are registered in their order. -/
def ofFile (hasRamFile : List UInt8 → Bool) (layout : Layout) (mIndexOnly : Bool) (file : File) :
    Option (Loader × ℕ) :=
  ((layout.blocks.map Prod.fst).foldl Loader.registerBlock (Loader.new mIndexOnly)).readIndexOf hasRamFile file

def compressed (loader : Loader) : Bool := loader.flags &&& 1 != 0

def findPage (loader : Loader) (id : PageId) : Option LoaderPage :=
  loader.blocks[id.1]?.bind fun block ↦
    if id.2 > block.pagesEnd - block.pagesBegin then none else loader.pages[block.pagesBegin + id.2]?

/-- The page of memory that the page at a position of the index belongs to. -/
def pagePtr (loader : Loader) (page : LoaderPage) (position : ℕ) : PageId :=
  (page.blockIndex, position - (loader.blocks[page.blockIndex]?.map LoaderBlock.pagesBegin).getD 0)

/-- What `readDataFromDisk` leads to when no page is watched. In the second version of the format a page
of full size is not compressed. -/
def readDataFromDisk (codec : Codec) (file : File) (loader : Loader) (page : LoaderPage) : Option Contents :=
  let buf := file.pread page.sizeOnDisk page.filePos
  if page.state ≠ .Empty ∨ buf.length ≠ page.sizeOnDisk then none
  else if loader.compressed ∧ (loader.mVersion = 1 ∨ page.sizeOnDisk < kDefaultPageSize) then
    codec.decompress buf
  else if h : buf.length = kDefaultPageSize then some ⟨buf, h⟩ else none

/-- In a quick boot the memory is known to be zero. -/
def zeroOutPages (mIsQuickboot : Bool) (loader : Loader) (memory : Memory) : Memory :=
  (loader.pages.zipIdx.filter fun page ↦ page.1.sizeOnDisk = 0).foldl
    (fun memory page ↦
      if mIsQuickboot then memory else Function.update memory (loader.pagePtr page.1 page.2) .zero)
    memory

def readAllPages (codec : Codec) (file : File) (mIsQuickboot : Bool) (loader : Loader) (memory : Memory) :
    Option Memory :=
  let sortedPages := (loader.pages.zipIdx.filter fun page ↦ page.1.sizeOnDisk ≠ 0).mergeSort
    fun l r ↦ l.1.filePos ≤ r.1.filePos
  sortedPages.foldlM
    (fun memory page ↦ (loader.readDataFromDisk codec file page.1).map fun contents ↦
      Function.update memory (loader.pagePtr page.1 page.2) contents)
    (loader.zeroOutPages mIsQuickboot memory)

end Loader

/-- An eager load, into a memory that may hold anything unless it is a quick boot. -/
def loadRam (codec : Codec) (hasRamFile : List UInt8 → Bool) (layout : Layout) (mIsQuickboot : Bool)
    (file : File) (memory : Memory) : Option Memory :=
  (Loader.ofFile hasRamFile layout false file).bind fun loaded ↦
    loaded.1.readAllPages codec file mIsQuickboot memory

/-- A saver with a loader writes over the old index. `unloaded` are the pages that have not been
loaded from the old file on demand. A page that the loader does not have is a null pointer. -/
def Saver.incremental (codec : Codec) (hasRamFile : List UInt8 → Bool) (layout : Layout) (mIndexOnly : Bool)
    (unloaded : PageId → Bool) (memory : Memory) (file : File) : Option Saver :=
  (Loader.ofFile hasRamFile layout mIndexOnly file).bind fun loaded ↦
    if layout.ids.all fun id ↦ (loaded.1.findPage id).isSome then
      let pages id := (loaded.1.findPage id).elim (.new (memory id))
        fun loaderPage ↦ .saveAgain codec loaderPage (unloaded id) (memory id)
      loaded.1.mGaps.map fun mGaps ↦
        { compressed := loaded.1.compressed
          memory := memory
          mGaps := some mGaps
          mCurrentStreamPos := loaded.2
          pages := pages
          waiting := layout.ids.filter fun id ↦ (pages id).changed
          file := file }
    else none

end FdeEmugl.Snapshot
