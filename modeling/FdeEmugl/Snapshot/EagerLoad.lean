import FdeEmugl.Library.ByteMemory
import FdeEmugl.Snapshot.PageFill
import FdeEmugl.Snapshot.FindPage

/-!
# Loading all pages at once

Without access watches `start` reads all pages in the order of the file. If they are compressed and there
is a pool of threads, a page is handed to the pool and marked as read behind it; the pool writes the page
to the guest, and marks it if it cannot be decompressed. The steps of the reader and of the pool are
interleaved in any order.
-/

namespace FdeEmugl.Snapshot

open Files Runs
open List (mem_cons not_mem_nil)
open Function (update_of_ne update_self)

/-- A library: the number of bytes that have been decompressed, and the bytes that have been written. -/
structure Lz4 where
  decompress_safe : List UInt8 → ℤ → ℤ × List UInt8
  length_le : ∀ data outSize, (decompress_safe data outSize).2.length ≤ outSize.toNat

/-- What the file and the machine are when `readIndex` has returned. The bytes of a page may fail to be
read; `order` is what `std::sort` makes of the pages that have any. -/
structure EagerLoad where
  registered : List RamBlock
  hasRamFile : List UInt8 → Bool
  file : File
  loader : Loader
  mIndexPos : ℕ
  readIndex_eq :
    (registered.foldl Loader.registerBlock (.new false)).readIndexOf hasRamFile file = some (loader, mIndexPos)
  hostPtr : ℕ → ℤ
  mIsQuickboot : Bool
  poolStarts : Bool
  readOk : ℕ → Bool
  lz4 : Lz4
  order : List ℕ
  order_perm : order.Perm ((List.range loader.pages.length).filter fun position ↦
    (loader.pages[position]?.map LoaderPage.sizeOnDisk).getD 0 ≠ 0)
  order_sorted : order.Pairwise fun first second ↦
    (loader.pages[first]?.map LoaderPage.filePos).getD 0 ≤ (loader.pages[second]?.map LoaderPage.filePos).getD 0

namespace EagerLoad

variable (load : EagerLoad)

def sizeOnDisk (position : ℕ) : ℕ := (load.loader.pages[position]?.map LoaderPage.sizeOnDisk).getD 0

def filePos (position : ℕ) : ℕ := (load.loader.pages[position]?.map LoaderPage.filePos).getD 0

def block (position : ℕ) : Option LoaderBlock :=
  (load.loader.pages[position]?).bind fun page ↦ load.loader.blocks[page.blockIndex]?

def pageSize (position : ℕ) : ℕ := ((load.block position).map fun block ↦ block.ramBlock.pageSize).getD 0

def pagePtr (position : ℕ) : ℤ :=
  load.hostPtr ((load.loader.pages[position]?.map LoaderPage.blockIndex).getD 0) +
    ((position : ℤ) - ((load.block position).map LoaderBlock.pagesBegin).getD 0) * load.pageSize position

/-- What `pread` delivers. -/
def pread (position : ℕ) : List UInt8 :=
  if load.readOk position then load.file.pread (load.sizeOnDisk position) (load.filePos position) else []

def isCompressed (position : ℕ) : Bool :=
  load.loader.compressed && (load.loader.mVersion = 1 || load.sizeOnDisk position < kDefaultPageSize)

def mDecompressor : Bool := load.loader.compressed && load.poolStarts

/-- `Decompressor::decompress` of what has been read of a page: the result and the bytes that it writes. -/
def decompress (position : ℕ) : Bool × List UInt8 :=
  let outSize := toInt (load.pageSize position)
  let (res, written) := load.lz4.decompress_safe (load.pread position) outSize
  (res = outSize, written)

/-- A thread of the pool decompresses a page, then sets `mHasError`, and then the state. -/
inductive ReaderAt where
  | read (todo : List ℕ)
  | store (position : ℕ) (todo : List ℕ)
  | join
  | returned (res : Bool)
deriving DecidableEq

/-- The pages that the reader has not taken yet. -/
def ReaderAt.ahead : ReaderAt → List ℕ
  | .read todo => todo
  | .store _ todo => todo
  | .join => []
  | .returned _ => []

/-- Pages that wait for the pool, and those that could not be decompressed: the thread has yet to set
`mHasError`, or the state. `failed` are all pages that could not be decompressed. -/
structure State where
  memory : ByteMemory
  state : ℕ → PageState
  mHasError : Bool
  reader : ReaderAt
  queued : List ℕ
  failing : List ℕ
  reporting : List ℕ
  failed : List ℕ

namespace State

def setState (position : ℕ) (value : PageState) (s : State) : State :=
  { s with state := Function.update s.state position value }

/-- An error of the reader ends `readAllPages`. -/
def fail (position : ℕ) (s : State) : State :=
  { s.setState position .Error with mHasError := true, reader := .returned false }

end State

/-- `readDataFromDisk` with the page of the guest as its buffer, up to the point where the pool gets the
page. A state other than `Empty` is waited for, and then the page counts as not read. -/
def readDataFromDisk (position : ℕ) (todo : List ℕ) (s : State) : Option State :=
  if s.state position ≠ .Empty then
    if PageFill.isBeforeRead (s.state position) then none
    else some { s with mHasError := true, reader := .returned false }
  else if load.isCompressed position then
    if (load.pread position).length ≠ load.sizeOnDisk position then some (s.fail position)
    else if load.mDecompressor then
      some { s.setState position .Reading with queued := s.queued ++ [position], reader := .store position todo }
    else
      let (res, written) := load.decompress position
      let s := { s with memory := s.memory.store (load.pagePtr position) written }
      if res then some { s.setState position .Read with reader := .read todo }
      else some ({ s with failed := position :: s.failed }.fail position)
  else
    let s := { s with memory := s.memory.store (load.pagePtr position) (load.pread position) }
    if (load.pread position).length ≠ load.sizeOnDisk position then some (s.fail position)
    else some { s.setState position .Read with reader := .read todo }

inductive Label where
  | reader
  | decompress (position : ℕ)
  | setError (position : ℕ)
  | storeError (position : ℕ)
deriving DecidableEq

/-- The reader waits for the pool only if it has come to the end. -/
def step : Label → State → Option State
  | .reader, s =>
    match s.reader with
    | .read [] => some { s with reader := .join }
    | .read (position :: todo) => load.readDataFromDisk position todo s
    | .store position todo => some { s.setState position .Read with reader := .read todo }
    | .join =>
      if s.queued = [] ∧ s.failing = [] ∧ s.reporting = [] then some { s with reader := .returned true } else none
    | .returned _ => none
  | .decompress position, s =>
    if position ∈ s.queued then
      let (res, written) := load.decompress position
      let s := { s with
        memory := s.memory.store (load.pagePtr position) written
        queued := s.queued.erase position }
      if res then some s
      else some { s with failing := position :: s.failing, failed := position :: s.failed }
    else none
  | .setError position, s =>
    if position ∈ s.failing then
      some { s with
        mHasError := true
        failing := s.failing.erase position
        reporting := position :: s.reporting }
    else none
  | .storeError position, s =>
    if position ∈ s.reporting then
      some { s.setState position .Error with reporting := s.reporting.erase position }
    else none

/-- The pages without bytes are zeroed; in a quick boot the memory is known to be zero. -/
def zeroOutPages (memory : ByteMemory) : ByteMemory :=
  if load.mIsQuickboot then memory
  else ((List.range load.loader.pages.length).filter fun position ↦ load.sizeOnDisk position = 0).foldl
    (fun memory position ↦ memory.store (load.pagePtr position) (List.replicate (load.pageSize position) 0)) memory

/-- The beginning of `readAllPages`. -/
def start (memory : ByteMemory) : State where
  memory := load.zeroOutPages memory
  state position := (load.loader.pages[position]?.map LoaderPage.state).getD .Empty
  mHasError := load.loader.mHasError
  reader := .read load.order
  queued := []
  failing := []
  reporting := []
  failed := []

/-! ## What a page should hold -/

/-- The contents of a page, if all of it is in the file and can be decompressed. -/
def contents (position : ℕ) : Option (List UInt8) :=
  if load.sizeOnDisk position = 0 then some (List.replicate (load.pageSize position) 0)
  else if (load.pread position).length ≠ load.sizeOnDisk position then none
  else if load.isCompressed position then
    if (load.decompress position).1 then some (load.decompress position).2 else none
  else some (load.pread position)

/-- The pages whose reading gets them to the pool: the reader comes as far as them. -/
def handed : List ℕ → List ℕ
  | [] => []
  | position :: todo =>
    if (load.pread position).length ≠ load.sizeOnDisk position then []
    else if load.isCompressed position then
      if load.mDecompressor then position :: handed todo
      else if (load.decompress position).1 then handed todo else []
    else handed todo

/-- What `start` promises when it returns. -/
structure Reported (s : State) : Prop where
  holds : s.reader = .returned true → ∀ position < load.loader.pages.length,
    ∃ bytes, load.contents position = some bytes ∧ s.memory.Holds (load.pagePtr position) bytes
  marked : ∀ res, s.reader = .returned res → ∀ position ∈ s.failed,
    s.state position ≠ .Read ∧ s.state position ≠ .Filled

/-- The bytes of the guest that are written for a page. -/
def span (position : ℕ) : ℕ :=
  if load.sizeOnDisk position = 0 ∨ load.isCompressed position then load.pageSize position
  else load.sizeOnDisk position

/-- No two pages share a byte. -/
def Separate : Prop :=
  ∀ first < load.loader.pages.length, ∀ second < load.loader.pages.length, first ≠ second →
    load.pagePtr first + load.span first ≤ load.pagePtr second ∨
      load.pagePtr second + load.span second ≤ load.pagePtr first

/-- In a quick boot the pages without bytes are zero already. -/
def ZeroBefore (memory : ByteMemory) : Prop :=
  load.mIsQuickboot = true → ∀ position < load.loader.pages.length, load.sizeOnDisk position = 0 →
    memory.Holds (load.pagePtr position) (List.replicate (load.pageSize position) 0)

end EagerLoad

/-! ## The states after `readIndex` -/

namespace Loader

/-- The pages that have bytes are still to be read. -/
def Fresh (loader : Loader) : Prop :=
  loader.mIndexOnly = false ∧ ∀ page ∈ loader.pages, page.sizeOnDisk ≠ 0 → page.state = .Empty

variable {loader next : Loader}

variable {blockIndex : ℕ} {compressed : Bool} {running : Cursor} {stream : List UInt8} {pageCount : ℕ}
  {hasRamFile : List UInt8 → Bool} {rest : List UInt8}

theorem fresh_getPages {mVersion pageSize count : ℕ} :
    ∀ page ∈ (getPages mVersion false compressed pageSize blockIndex count running stream).1,
      page.sizeOnDisk ≠ 0 → page.state = .Empty := by
  induction count generalizing running stream with
  | zero => exact fun page hpage ↦ absurd hpage not_mem_nil
  | succ count ih =>
    intro page hpage hsize
    simp only [getPages] at hpage
    rcases mem_cons.mp hpage with rfl | hrest
    · unfold getPage at hsize ⊢
      dsimp only at hsize ⊢
      by_cases hzero : (FdeEmugl.Stream.getPackedNum stream).1 = 0
      · rw [if_pos hzero] at hsize
        exact absurd rfl hsize
      · rw [if_neg hzero]
        rfl
    · exact ih page hrest hsize

theorem Fresh.appendPages {pages : List LoaderPage} (h : loader.Fresh)
    (hpages : ∀ page ∈ pages, page.sizeOnDisk ≠ 0 → page.state = .Empty)
    (happend : loader.appendPages pageCount blockIndex pages = some next) : next.Fresh := by
  unfold Loader.appendPages at happend
  split_ifs at happend
  cases happend
  exact ⟨h.1, List.forall_mem_append.mpr ⟨h.2, hpages⟩⟩

theorem Fresh.readBlockPages {block : RamBlock} {running' : Cursor} (h : loader.Fresh)
    (hread : loader.readBlockPages hasRamFile compressed pageCount blockIndex block running stream = some (next, running', rest)) :
    next.Fresh := by
  unfold Loader.readBlockPages at hread
  dsimp only at hread
  split at hread
  · obtain ⟨rfl, -⟩ := Prod.mk.inj (Option.some.inj hread)
    exact h
  split at hread
  · obtain ⟨rfl, -⟩ := Prod.mk.inj (Option.some.inj hread)
    exact h
  split at hread
  · split_ifs at hread <;> obtain ⟨rfl, -⟩ := Prod.mk.inj (Option.some.inj hread) <;> exact h
  · obtain ⟨appended, happended, hsame⟩ := Option.map_eq_some_iff.mp hread
    obtain ⟨rfl, -⟩ := Prod.mk.inj hsame
    rw [h.1] at happended
    refine Fresh.appendPages ?_ fresh_getPages happended
    split_ifs
    · exact h
    · exact h

theorem Fresh.readBlocks {count : ℕ} (h : loader.Fresh)
    (hread : loader.readBlocks hasRamFile compressed pageCount count running stream = some (next, rest)) :
    next.Fresh := by
  induction count generalizing loader running stream with
  | zero =>
    obtain ⟨rfl, -⟩ := Prod.mk.inj (Option.some.inj hread)
    exact h
  | succ count ih =>
    unfold Loader.readBlocks at hread
    obtain ⟨blockIndex, -, hread⟩ := Option.bind_eq_some_iff.mp hread
    obtain ⟨block, -, hread⟩ := Option.bind_eq_some_iff.mp hread
    obtain ⟨⟨middle, running', stream'⟩, hblock, hread⟩ := Option.bind_eq_some_iff.mp hread
    exact ih (h.readBlockPages hblock) hread

theorem Fresh.readIndex (h : loader.Fresh) (hread : loader.readIndex hasRamFile stream = some (next, rest)) :
    next.Fresh := by
  unfold Loader.readIndex at hread
  dsimp only at hread
  split at hread
  · cases hread
  obtain ⟨⟨middle, stream'⟩, hblocks, hnext⟩ := Option.map_eq_some_iff.mp hread
  have hstart : ({ loader with
      flags := (FdeEmugl.Stream.getBe32 (FdeEmugl.Stream.getBe32 stream).2).1
      mVersion := (FdeEmugl.Stream.getBe32 stream).1.toNat } : Loader).Fresh := h
  have hmiddle := hstart.readBlocks hblocks
  dsimp only at hnext
  split_ifs at hnext <;> obtain ⟨rfl, -⟩ := Prod.mk.inj hnext
  · exact hmiddle
  · exact hmiddle

theorem fresh_registered (registered : List RamBlock) : (registered.foldl registerBlock (new false)).Fresh := by
  have hfold : ∀ loader : Loader, loader.Fresh → (registered.foldl registerBlock loader).Fresh := by
    induction registered with
    | nil => exact fun _ ↦ id
    | cons block registered ih => exact fun loader h ↦ ih (loader.registerBlock block) h
  exact hfold _ ⟨rfl, fun page hpage ↦ absurd hpage not_mem_nil⟩

end Loader

namespace EagerLoad

variable {load : EagerLoad} {position other : ℕ} {todo : List ℕ} {memory : ByteMemory} {s next : State}

theorem fresh (load : EagerLoad) : load.loader.Fresh := by
  obtain ⟨⟨loader, rest⟩, hread, heq⟩ := Option.map_eq_some_iff.mp load.readIndex_eq
  have hfresh := (Loader.fresh_registered load.registered).readIndex hread
  rwa [← (Prod.mk.inj heq).1]

theorem state_start (hsize : load.sizeOnDisk position ≠ 0) : (load.start memory).state position = .Empty := by
  unfold sizeOnDisk at hsize
  simp only [start]
  cases hpage : load.loader.pages[position]? with
  | none => rfl
  | some page =>
    rw [hpage] at hsize
    exact load.fresh.2 page (List.mem_of_getElem? hpage) hsize

theorem mem_order : position ∈ load.order ↔ position < load.loader.pages.length ∧ load.sizeOnDisk position ≠ 0 := by
  rw [load.order_perm.mem_iff, List.mem_filter, List.mem_range, decide_eq_true_iff]
  rfl

theorem nodup_order (load : EagerLoad) : load.order.Nodup := load.order_perm.nodup_iff.mpr (List.nodup_range.filter _)

/-! ## What is written -/

theorem length_pread_le (load : EagerLoad) (position : ℕ) : (load.pread position).length ≤ load.sizeOnDisk position := by
  unfold pread
  split_ifs
  · rw [File.pread, Cyclic.length_segment]
    exact min_le_left _ _
  · exact Nat.zero_le _

theorem length_decompress_le (load : EagerLoad) (position : ℕ) : (load.decompress position).2.length ≤ load.pageSize position := by
  have hle := load.lz4.length_le (load.pread position) (toInt (load.pageSize position))
  have hint := toInt_le (show -2 ^ 31 ≤ (load.pageSize position : ℤ) by omega)
  have hsame : (load.decompress position).2 =
      (load.lz4.decompress_safe (load.pread position) (toInt (load.pageSize position))).2 := rfl
  rw [hsame]
  omega

theorem length_contents_le {bytes : List UInt8} (h : load.contents position = some bytes) :
    bytes.length ≤ load.span position := by
  unfold contents at h
  unfold span
  split_ifs at h with hzero hread hcompressed hok
  · cases h
    rw [if_pos (.inl hzero), List.length_replicate]
  · cases h
    rw [if_pos (.inr hcompressed)]
    exact load.length_decompress_le position
  · cases h
    rw [if_neg (not_or.mpr ⟨hzero, hcompressed⟩)]
    exact load.length_pread_le position

/-- The page holds what it should. -/
def HoldsContents (load : EagerLoad) (memory : ByteMemory) (position : ℕ) : Prop :=
  ∃ bytes, load.contents position = some bytes ∧ memory.Holds (load.pagePtr position) bytes

/-- Writing to a page leaves the others as they are. -/
theorem HoldsContents.store {written : List UInt8} (h : load.HoldsContents memory position) (hseparate : load.Separate)
    (hposition : position < load.loader.pages.length) (hother : other < load.loader.pages.length)
    (hne : position ≠ other) (hwritten : written.length ≤ load.span other) :
    load.HoldsContents (memory.store (load.pagePtr other) written) position := by
  obtain ⟨bytes, hcontents, hholds⟩ := h
  have hbytes := length_contents_le hcontents
  refine ⟨bytes, hcontents, hholds.store ?_⟩
  rcases hseparate position hposition other hother hne with hbefore | hafter <;> omega

theorem span_of_compressed (h : load.isCompressed position = true) : load.span position = load.pageSize position :=
  if_pos (.inr h)

theorem span_of_raw (hsize : load.sizeOnDisk position ≠ 0) (h : ¬ load.isCompressed position = true) :
    load.span position = load.sizeOnDisk position :=
  if_neg (not_or.mpr ⟨hsize, h⟩)

/-! ## Runs in which the pool decompresses all that it gets -/

/-- What holds between the steps, as long as the pool is never handed a page that it cannot decompress. -/
structure Held (load : EagerLoad) (s : State) : Prop where
  contents : s.reader ≠ .returned false → ∀ position < load.loader.pages.length,
    load.HoldsContents s.memory position ∨ position ∈ s.reader.ahead ∨ position ∈ s.queued
  todo_lt : ∀ position ∈ s.reader.ahead, position < load.loader.pages.length ∧ load.sizeOnDisk position ≠ 0
  handed : ∀ position ∈ load.handed s.reader.ahead, (load.decompress position).1 = true
  queued_lt : ∀ position ∈ s.queued, position < load.loader.pages.length
  queued : ∀ position ∈ s.queued, load.isCompressed position = true ∧ (load.decompress position).1 = true ∧
    load.contents position = some (load.decompress position).2
  failing : s.failing = []
  reporting : s.reporting = []
  failed : ∀ position ∈ s.failed, s.state position = .Error ∧ s.reader = .returned false

theorem Held.reported (h : Held load s) (hdone : s.reader = .returned true → s.queued = []) : load.Reported s where
  holds hreader position hposition := by
    have hcontents := h.contents (by rw [hreader]; decide) position hposition
    rw [hreader, hdone hreader] at hcontents
    rcases hcontents with hholds | hnone | hnone
    · exact hholds
    · cases hnone
    · cases hnone
  marked res _ position hfailed := by
    rw [(h.failed position hfailed).1]
    decide

/-- A page that has been read comes off the list, and the others keep what they hold. -/
theorem Held.advance {written : List UInt8} (h : Held load s) (hseparate : load.Separate)
    (hreader : s.reader = .read (position :: todo)) (hwritten : written.length ≤ load.span position)
    (hcontents : load.contents position = some written)
    (hhanded : ∀ other ∈ load.handed todo, (load.decompress other).1 = true) :
    Held load { s.setState position .Read with
      memory := s.memory.store (load.pagePtr position) written, reader := .read todo } := by
  have htodo : s.reader.ahead = position :: todo := by rw [hreader]; rfl
  have hlt := h.todo_lt
  rw [htodo] at hlt
  have hnone : ∀ other ∈ s.failed, False := fun other hother ↦ by
    have hreturned := (h.failed other hother).2
    rw [hreader] at hreturned
    cases hreturned
  refine ⟨fun _ other hother ↦ ?_, fun other hmem ↦ hlt other (.tail position hmem), hhanded, h.queued_lt, h.queued,
    h.failing, h.reporting, fun other hmem ↦ (hnone other hmem).elim⟩
  by_cases hsame : other = position
  · subst hsame
    exact .inl ⟨written, hcontents, ByteMemory.holds_store⟩
  · have hold := h.contents (by rw [hreader]; exact ReaderAt.noConfusion) other hother
    rw [htodo, mem_cons] at hold
    rcases hold with hholds | (heq | hmem) | hmem
    · exact .inl (hholds.store hseparate hother (hlt position (.head todo)).1 hsame hwritten)
    · exact absurd heq hsame
    · exact .inr (.inl hmem)
    · exact .inr (.inr hmem)

/-- The reader gives up. -/
theorem Held.fail (h : Held load s) (hreader : s.reader ≠ .returned false) (memory : ByteMemory)
    (hasError : Bool) (state : ℕ → PageState) (failed : List ℕ)
    (hfailed : ∀ other ∈ failed, other ∈ s.failed ∨ state other = .Error) :
    Held load { s with memory, state, mHasError := hasError, reader := .returned false, failed } where
  contents hreturned := absurd rfl hreturned
  todo_lt position hposition := absurd hposition not_mem_nil
  handed position hposition := absurd hposition not_mem_nil
  queued_lt := h.queued_lt
  queued := h.queued
  failing := h.failing
  reporting := h.reporting
  failed other hother := by
    refine ⟨?_, rfl⟩
    rcases hfailed other hother with hold | herror
    · exact absurd (h.failed other hold).2 hreader
    · exact herror

section

variable (h : Held load s) (hseparate : load.Separate)
include h hseparate

theorem held_readDataFromDisk (hreader : s.reader = .read (position :: todo))
    (hstep : load.readDataFromDisk position todo s = some next) : Held load next := by
  have htodo : s.reader.ahead = position :: todo := by rw [hreader]; rfl
  have hhanded := h.handed
  have hlt := h.todo_lt
  rw [htodo] at hhanded hlt
  obtain ⟨hposition, hsize⟩ := hlt position (.head todo)
  have hgoing : s.reader ≠ .returned false := by rw [hreader]; exact ReaderAt.noConfusion
  have hfail (s' : State) (hs' : s' = s.fail position) : Held load s' := by
    rw [hs']
    exact h.fail hgoing s.memory true _ s.failed fun other hother ↦ .inl hother
  unfold readDataFromDisk at hstep
  unfold EagerLoad.handed at hhanded
  split_ifs at hstep with hstate hbefore hcompressed hread hpool hread
  · cases hstep
    exact h.fail hgoing s.memory true s.state s.failed fun other hother ↦ .inl hother
  · exact hfail next (Option.some.inj hstep).symm
  · -- the pool gets the page
    cases hstep
    rw [if_neg hread, if_pos hcompressed, if_pos hpool] at hhanded
    have hok := hhanded position (.head _)
    have hcontents : load.contents position = some (load.decompress position).2 := by
      rw [contents, if_neg hsize, if_neg hread, if_pos hcompressed, if_pos hok]
    refine ⟨fun _ other hother ↦ ?_, fun other hmem ↦ hlt other (.tail position hmem),
      fun other hmem ↦ hhanded other (.tail position hmem),
      List.forall_mem_append.mpr ⟨h.queued_lt, List.forall_mem_singleton.mpr hposition⟩,
      List.forall_mem_append.mpr ⟨h.queued, List.forall_mem_singleton.mpr ⟨hcompressed, hok, hcontents⟩⟩,
      h.failing, h.reporting, fun other hmem ↦ absurd (h.failed other hmem).2 hgoing⟩
    have hold := h.contents hgoing other hother
    rw [htodo, mem_cons] at hold
    rcases hold with hholds | (rfl | hmem) | hmem
    · exact .inl hholds
    · exact .inr (.inr (List.mem_append_right _ (List.mem_singleton_self _)))
    · exact .inr (.inl hmem)
    · exact .inr (.inr (List.mem_append_left _ hmem))
  · rw [if_neg hread, if_pos hcompressed, if_neg hpool] at hhanded
    dsimp only at hstep
    split_ifs at hstep with hok
    · cases hstep
      rw [if_pos hok] at hhanded
      have hcontents : load.contents position = some (load.decompress position).2 := by
        rw [contents, if_neg hsize, if_neg hread, if_pos hcompressed, if_pos hok]
      have hwritten := load.length_decompress_le position
      rw [← span_of_compressed hcompressed] at hwritten
      exact h.advance hseparate hreader hwritten hcontents hhanded
    · cases hstep
      refine h.fail hgoing _ true _ _ fun other hother ↦ ?_
      rcases mem_cons.mp hother with rfl | hold
      · exact .inr (update_self _ _ _)
      · exact .inl hold
  · cases hstep
    exact h.fail hgoing _ true _ s.failed fun other hother ↦ .inl hother
  · cases hstep
    rw [if_neg hread, if_neg hcompressed] at hhanded
    have hcontents : load.contents position = some (load.pread position) := by
      rw [contents, if_neg hsize, if_neg hread, if_neg hcompressed]
    have hwritten := load.length_pread_le position
    rw [← span_of_raw hsize hcompressed] at hwritten
    exact h.advance hseparate hreader hwritten hcontents hhanded

/-- The pool writes a page. -/
theorem held_decompress (hstep : load.step (.decompress position) s = some next) : Held load next := by
  simp only [step] at hstep
  split_ifs at hstep with hqueued hok
  · cases hstep
    obtain ⟨hcompressed, -, hcontents⟩ := h.queued position hqueued
    have hposition := h.queued_lt position hqueued
    have hwritten := load.length_decompress_le position
    rw [← span_of_compressed hcompressed] at hwritten
    refine ⟨fun hgoing other hother ↦ ?_, h.todo_lt, h.handed,
      fun other hmem ↦ h.queued_lt other (List.mem_of_mem_erase hmem),
      fun other hmem ↦ h.queued other (List.mem_of_mem_erase hmem), h.failing, h.reporting, h.failed⟩
    by_cases hsame : other = position
    · subst hsame
      exact .inl ⟨_, hcontents, ByteMemory.holds_store⟩
    · rcases h.contents hgoing other hother with hholds | hmem | hmem
      · exact .inl (hholds.store hseparate hother hposition hsame hwritten)
      · exact .inr (.inl hmem)
      · exact .inr (.inr ((List.mem_erase_of_ne hsame).mpr hmem))
  · exact absurd (h.queued position hqueued).2.1 hok

theorem held_step {label : Label} (hstep : load.step label s = some next) : Held load next := by
  cases label with
  | decompress position => exact held_decompress h hseparate hstep
  | setError position =>
    simp only [step, h.failing, not_mem_nil, if_false] at hstep
    cases hstep
  | storeError position =>
    simp only [step, h.reporting, not_mem_nil, if_false] at hstep
    cases hstep
  | reader =>
    have hlt := h.todo_lt
    have hhanded := h.handed
    have hcontents := h.contents
    have hfailed := h.failed
    simp only [step] at hstep
    cases hreader : s.reader with
    | read todo =>
      cases todo with
      | nil =>
        rw [hreader] at hstep
        cases hstep
        rw [hreader] at hcontents hfailed hlt hhanded
        exact ⟨fun _ ↦ hcontents ReaderAt.noConfusion, hlt, hhanded, h.queued_lt, h.queued, h.failing, h.reporting,
          fun other hother ↦ ReaderAt.noConfusion (hfailed other hother).2⟩
      | cons position todo =>
        rw [hreader] at hstep
        exact held_readDataFromDisk h hseparate hreader hstep
    | store position todo =>
      rw [hreader] at hstep
      cases hstep
      rw [hreader] at hcontents hfailed hlt hhanded
      exact ⟨fun _ ↦ hcontents ReaderAt.noConfusion, hlt, hhanded, h.queued_lt, h.queued, h.failing, h.reporting,
        fun other hother ↦ ReaderAt.noConfusion (hfailed other hother).2⟩
    | join =>
      rw [hreader] at hstep
      dsimp only at hstep
      split_ifs at hstep
      cases hstep
      rw [hreader] at hcontents hfailed hlt hhanded
      exact ⟨fun _ ↦ hcontents ReaderAt.noConfusion, hlt, hhanded, h.queued_lt, h.queued, h.failing, h.reporting,
        fun other hother ↦ ReaderAt.noConfusion (hfailed other hother).2⟩
    | returned res =>
      rw [hreader] at hstep
      cases hstep

end

/-- Zeroing some pages. -/
theorem holdsContents_zeroed (hseparate : load.Separate) (positions : List ℕ)
    (hpositions : ∀ position ∈ positions, position < load.loader.pages.length ∧ load.sizeOnDisk position = 0)
    (hposition : position < load.loader.pages.length)
    (hholds : position ∈ positions ∨ load.HoldsContents memory position) :
    load.HoldsContents (positions.foldl (fun memory position ↦
      memory.store (load.pagePtr position) (List.replicate (load.pageSize position) 0)) memory) position := by
  induction positions generalizing memory with
  | nil => exact hholds.resolve_left not_mem_nil
  | cons first positions ih =>
    obtain ⟨hfirst, hzero⟩ := hpositions first (.head positions)
    have hcontents : load.contents first = some (List.replicate (load.pageSize first) 0) := if_pos hzero
    refine ih (fun other hother ↦ hpositions other (.tail first hother)) ?_
    by_cases hsame : position = first
    · subst hsame
      exact .inr ⟨_, hcontents, ByteMemory.holds_store⟩
    · refine hholds.imp (fun hmem ↦ (mem_cons.mp hmem).resolve_left hsame) fun hold ↦ ?_
      exact hold.store hseparate hposition hfirst hsame (length_contents_le hcontents)

theorem held_start (hseparate : load.Separate) (hzero : load.ZeroBefore memory)
    (hhanded : ∀ position ∈ load.handed load.order, (load.decompress position).1 = true) :
    Held load (load.start memory) where
  contents _ position hposition := by
    by_cases hsize : load.sizeOnDisk position = 0
    · left
      simp only [start, zeroOutPages]
      split_ifs with hquick
      · exact ⟨_, if_pos hsize, hzero hquick position hposition hsize⟩
      · refine holdsContents_zeroed hseparate _ (fun other hother ↦ ?_) hposition (.inl ?_)
        · obtain ⟨hrange, hother⟩ := List.mem_filter.mp hother
          exact ⟨List.mem_range.mp hrange, of_decide_eq_true hother⟩
        · exact List.mem_filter.mpr ⟨List.mem_range.mpr hposition, decide_eq_true hsize⟩
    · exact .inr (.inl (mem_order.mpr ⟨hposition, hsize⟩))
  todo_lt position hposition := mem_order.mp hposition
  handed := hhanded
  queued_lt position hposition := absurd hposition not_mem_nil
  queued position hposition := absurd hposition not_mem_nil
  failing := rfl
  reporting := rfl
  failed position hposition := absurd hposition not_mem_nil

/-- The reader comes to the end only when the pool has nothing left. -/
theorem joined_step {label : Label} (h : s.reader = .returned true → s.queued = [])
    (hstep : load.step label s = some next) (hreader : next.reader = .returned true) : next.queued = [] := by
  cases label with
  | decompress position =>
    simp only [step] at hstep
    split_ifs at hstep with hqueued hok <;> cases hstep
    · exact absurd hqueued (h hreader ▸ not_mem_nil)
    · exact absurd hqueued (h hreader ▸ not_mem_nil)
  | setError position =>
    simp only [step] at hstep
    split_ifs at hstep
    cases hstep
    exact h hreader
  | storeError position =>
    simp only [step] at hstep
    split_ifs at hstep
    cases hstep
    exact h hreader
  | reader =>
    simp only [step] at hstep
    cases hold : s.reader with
    | read todo =>
      rw [hold] at hstep
      cases todo with
      | nil =>
        cases hstep
        cases hreader
      | cons position todo =>
        dsimp only [readDataFromDisk] at hstep
        split_ifs at hstep <;> obtain rfl := Option.some.inj hstep <;> cases hreader
    | store position todo =>
      rw [hold] at hstep
      cases hstep
      cases hreader
    | join =>
      rw [hold] at hstep
      dsimp only at hstep
      split_ifs at hstep with hidle
      cases hstep
      exact hidle.1
    | returned res =>
      rw [hold] at hstep
      cases hstep

/-! ## A page that the pool cannot decompress -/

/-- The pool has nothing to do. -/
def Idle (s : State) : Prop := s.queued = [] ∧ s.failing = [] ∧ s.reporting = []

section

variable (hreader : s.reader = .read (position :: todo)) (hidle : Idle s) (hstate : s.state position = .Empty)
include hreader hidle hstate

/-- The pool may be done with a page before the reader marks it as read. -/
theorem exists_pool_turn (hcompressed : load.isCompressed position = true)
    (hread : ¬ (load.pread position).length ≠ load.sizeOnDisk position) (hpool : load.mDecompressor = true) :
    ∃ labels next, run load.step s labels = some next ∧ Idle next ∧ next.reader = .read todo ∧
      next.state position = .Read ∧ ((load.decompress position).1 = false → position ∈ next.failed) ∧
      (∀ other, other ≠ position → next.state other = s.state other) ∧ ∀ other ∈ s.failed, other ∈ next.failed := by
  obtain ⟨hqueued, hfailing, hreporting⟩ := hidle
  have hnot : ¬ s.state position ≠ .Empty := not_not.mpr hstate
  by_cases hok : (load.decompress position).1 = true
  · have hrun : run load.step s [.reader, .decompress position, .reader] = some {
        memory := s.memory.store (load.pagePtr position) (load.decompress position).2
        state := Function.update (Function.update s.state position .Reading) position .Read
        mHasError := s.mHasError, reader := .read todo, queued := [], failing := [], reporting := []
        failed := s.failed } := by
      simp [step, hreader, readDataFromDisk, hstate, hcompressed, hpool, not_not.mp hread, hqueued, hfailing,
        hreporting, hok, State.setState]
    refine ⟨_, _, hrun, ⟨rfl, rfl, rfl⟩, rfl, update_self _ _ _, fun hbad ↦ absurd hok (by simp [hbad]),
      fun other hne ↦ ?_, fun _ ↦ id⟩
    simp [update_of_ne hne]
  · have hrun : run load.step s [.reader, .decompress position, .setError position, .storeError position, .reader] =
        some {
          memory := s.memory.store (load.pagePtr position) (load.decompress position).2
          state := Function.update (Function.update (Function.update s.state position .Reading) position .Error)
            position .Read
          mHasError := true, reader := .read todo, queued := [], failing := [], reporting := []
          failed := position :: s.failed } := by
      simp [step, hreader, readDataFromDisk, hstate, hcompressed, hpool, not_not.mp hread, hqueued, hfailing,
        hreporting, hok, State.setState]
    refine ⟨_, _, hrun, ⟨rfl, rfl, rfl⟩, rfl, update_self _ _ _, fun _ ↦ .head _,
      fun other hne ↦ ?_, fun _ ↦ .tail _⟩
    simp [update_of_ne hne]

/-- A turn of the loop of `readAllPages` with a pool that is fast. -/
theorem exists_turn : ∃ labels next, run load.step s labels = some next ∧ Idle next ∧
      (next.reader = .read todo ∨ next.reader = .returned false ∧ load.handed (position :: todo) = []) ∧
      (∀ other, other ≠ position → next.state other = s.state other) ∧ ∀ other ∈ s.failed, other ∈ next.failed := by
  have hnot : ¬ s.state position ≠ .Empty := not_not.mpr hstate
  have hone (next : State) (hstep : load.step .reader s = some next) : run load.step s [.reader] = some next := by
    rw [run_cons, hstep]
    rfl
  have hstep : load.step .reader s = load.readDataFromDisk position todo s := by
    simp only [step, hreader]
  unfold readDataFromDisk at hstep
  rw [if_neg hnot] at hstep
  unfold handed
  by_cases hcompressed : load.isCompressed position = true
  · rw [if_pos hcompressed] at hstep
    by_cases hread : (load.pread position).length ≠ load.sizeOnDisk position
    · rw [if_pos hread] at hstep
      rw [if_pos hread]
      exact ⟨_, _, hone _ hstep, hidle, .inr ⟨rfl, rfl⟩, fun other hne ↦ update_of_ne hne _ _, fun _ ↦ id⟩
    rw [if_neg hread] at hstep
    rw [if_neg hread, if_pos hcompressed]
    by_cases hpool : load.mDecompressor = true
    · obtain ⟨labels, next, hrun, hidle', hreader', -, -, hothers, hfailed⟩ :=
        exists_pool_turn hreader hidle hstate hcompressed hread hpool
      exact ⟨labels, next, hrun, hidle', .inl hreader', hothers, hfailed⟩
    · rw [if_neg hpool] at hstep
      rw [if_neg hpool]
      dsimp only at hstep
      by_cases hok : (load.decompress position).1 = true
      · rw [if_pos hok] at hstep
        exact ⟨_, _, hone _ hstep, hidle, .inl rfl, fun other hne ↦ update_of_ne hne _ _, fun _ ↦ id⟩
      · rw [if_neg hok] at hstep
        rw [if_neg hok]
        exact ⟨_, _, hone _ hstep, hidle, .inr ⟨rfl, rfl⟩, fun other hne ↦ update_of_ne hne _ _,
          fun _ ↦ .tail _⟩
  · rw [if_neg hcompressed] at hstep
    dsimp only at hstep
    by_cases hread : (load.pread position).length ≠ load.sizeOnDisk position
    · rw [if_pos hread] at hstep
      rw [if_pos hread]
      exact ⟨_, _, hone _ hstep, hidle, .inr ⟨rfl, rfl⟩, fun other hne ↦ update_of_ne hne _ _, fun _ ↦ id⟩
    · rw [if_neg hread] at hstep
      exact ⟨_, _, hone _ hstep, hidle, .inl rfl, fun other hne ↦ update_of_ne hne _ _, fun _ ↦ id⟩

end

/-- `start` returns, and pages that have been dealt with keep their states. -/
theorem exists_return (hreader : s.reader = .read todo) (hidle : Idle s) (hnodup : todo.Nodup)
    (hstates : ∀ position ∈ todo, s.state position = .Empty) :
    ∃ labels last res, run load.step s labels = some last ∧ last.reader = .returned res ∧
      (∀ other ∉ todo, last.state other = s.state other) ∧ ∀ other ∈ s.failed, other ∈ last.failed := by
  induction todo generalizing s with
  | nil =>
    have hrun : run load.step s [.reader, .reader] = some { s with reader := .returned true } := by
      simp [step, hreader, hidle.1, hidle.2.1, hidle.2.2]
    exact ⟨_, _, true, hrun, rfl, fun _ _ ↦ rfl, fun _ ↦ id⟩
  | cons position todo ih =>
    obtain ⟨hnew, hnodup⟩ := List.nodup_cons.mp hnodup
    obtain ⟨labels, next, hrun, hidle', hreader', hothers, hfailed⟩ :=
      exists_turn hreader hidle (hstates position (.head todo))
    rcases hreader' with hreader' | ⟨hreader', -⟩
    · obtain ⟨labels', last, res, hrun', hreturned, hothers', hfailed'⟩ := ih hreader' hidle' hnodup fun other hother ↦ by
        rw [hothers other fun heq ↦ hnew (heq ▸ hother)]
        exact hstates other (.tail position hother)
      refine ⟨labels ++ labels', last, res, ?_, hreturned, fun other hother ↦ ?_, fun other hother ↦
        hfailed' other (hfailed other hother)⟩
      · rw [run_append, hrun, Option.bind_some, hrun']
      · rw [hothers' other fun hmem ↦ hother (.tail position hmem), hothers other fun heq ↦ hother (heq ▸ .head todo)]
    · exact ⟨labels, next, false, hrun, hreader', fun other hother ↦ hothers other fun heq ↦ hother (heq ▸ .head todo),
        hfailed⟩

/-- The first page is handed to the pool, or a later one is. -/
theorem handed_cons {first : ℕ} (h : position ∈ load.handed (first :: todo)) :
    position = first ∧ load.isCompressed first = true ∧ load.mDecompressor = true ∧
        ¬ (load.pread first).length ≠ load.sizeOnDisk first ∨ position ∈ load.handed todo := by
  unfold handed at h
  split_ifs at h with hread hcompressed hpool
  · cases h
  · exact (mem_cons.mp h).imp_left fun heq ↦ ⟨heq, hcompressed, hpool, hread⟩
  · exact .inr h
  · cases h
  · exact .inr h

/-- A page that the pool gets and cannot decompress may be marked as read in the end. -/
theorem exists_left_read (hreader : s.reader = .read todo) (hidle : Idle s) (hnodup : todo.Nodup)
    (hstates : ∀ position ∈ todo, s.state position = .Empty) (hhanded : position ∈ load.handed todo)
    (hbad : (load.decompress position).1 = false) :
    ∃ labels last res, run load.step s labels = some last ∧ last.reader = .returned res ∧ position ∈ last.failed ∧
      last.state position = .Read := by
  induction todo generalizing s with
  | nil => cases hhanded
  | cons first todo ih =>
    obtain ⟨hnew, hrest⟩ := List.nodup_cons.mp hnodup
    rcases handed_cons hhanded with ⟨rfl, hcompressed, hpool, hread⟩ | hlater
    · obtain ⟨labels, next, hrun, hidle', hreader', hread', hfailed, hothers, -⟩ :=
        exists_pool_turn hreader hidle (hstates position (.head todo)) hcompressed hread hpool
      obtain ⟨labels', last, res, hrun', hreturned, hothers', hfailed'⟩ :=
        exists_return hreader' hidle' hrest fun other hother ↦ by
          rw [hothers other fun heq ↦ hnew (heq ▸ hother)]
          exact hstates other (.tail position hother)
      refine ⟨labels ++ labels', last, res, ?_, hreturned, hfailed' position (hfailed hbad), ?_⟩
      · rw [run_append, hrun, Option.bind_some, hrun']
      · rw [hothers' position hnew, hread']
    · obtain ⟨labels, next, hrun, hidle', hreader', hothers, -⟩ :=
        exists_turn hreader hidle (hstates first (.head todo))
      have hgoing : next.reader = .read todo := by
        refine hreader'.resolve_right fun hnone ↦ ?_
        rw [hnone.2] at hhanded
        cases hhanded
      obtain ⟨labels', last, res, hrun', hlast⟩ := ih hgoing hidle' hrest (fun other hother ↦ by
        rw [hothers other fun heq ↦ hnew (heq ▸ hother)]
        exact hstates other (.tail first hother)) hlater
      exact ⟨labels ++ labels', last, res, by rw [run_append, hrun, Option.bind_some, hrun'], hlast⟩

/-- `start` keeps its promises under every schedule exactly if the pool can decompress all that it gets. -/
theorem reported_iff (load : EagerLoad) (memory : ByteMemory) (hseparate : load.Separate)
    (hzero : load.ZeroBefore memory) :
    (∀ labels last, run load.step (load.start memory) labels = some last → load.Reported last) ↔
      ∀ position ∈ load.handed load.order, (load.decompress position).1 = true := by
  constructor
  · intro hreported position hhanded
    by_contra hbad
    obtain ⟨labels, last, res, hrun, hreturned, hfailed, hread⟩ := exists_left_read (s := load.start memory) rfl
      ⟨rfl, rfl, rfl⟩ load.nodup_order (fun other hother ↦ state_start (mem_order.mp hother).2) hhanded
      (Bool.eq_false_iff.mpr hbad)
    exact ((hreported labels last hrun).marked res hreturned position hfailed).1 hread
  · intro hhanded labels last hrun
    have hheld : Held load last := invariant_of_run (fun _ _ _ h hstep ↦ held_step h hseparate hstep)
      (held_start hseparate hzero hhanded) hrun
    have hjoined : last.reader = .returned true → last.queued = [] :=
      invariant_of_run (fun _ _ _ h hstep ↦ joined_step h hstep) (fun _ ↦ rfl) hrun
    exact hheld.reported hjoined

/-! ## A file of one page -/

/-- Of the format of the library only a block of four bytes that are not compressed. -/
def fourLiterals : Lz4 where
  decompress_safe data outSize := if data.head? = some 0x40 ∧ data.length = 5 ∧ 4 ≤ outSize then (4, data.tail) else (-1, [])
  length_le data outSize := by
    split_ifs with h
    · rw [List.length_tail, h.2.1]
      omega
    · exact Nat.zero_le _

def oneBlock : List RamBlock := [{ ramBlock with pageSize := 4 }]

/-- The file has the bytes of a page of four bytes, and then the index. -/
def onePageFile (bytes : List UInt8) : File :=
  File.empty.pwrite ([0, 0, 0, 0, 0, 0, 0, UInt8.ofNat (8 + bytes.length)] ++ bytes ++
    [0, 0, 0, 2, 0, 0, 0, 1, 0, 0, 0, 1, 1, 0x72, 0, 0, 0, 1, 0, 0, 0, 4, 0, 0, 0, 0, 0, 0, 0, 0] ++
    [UInt8.ofNat bytes.length, 0] ++ List.replicate 16 0 ++ [0, 0, 0, 0]) 0

def readOnePage (bytes : List UInt8) : Option (Loader × ℕ) :=
  (oneBlock.foldl Loader.registerBlock (.new false)).readIndexOf (fun _ ↦ false) (onePageFile bytes)

/-- The load of such a file with a pool. -/
def onePage (bytes : List UInt8) (hread : (readOnePage bytes).isSome)
    (hpages : [0].Perm ((List.range ((readOnePage bytes).get hread).1.pages.length).filter fun position ↦
      ((((readOnePage bytes).get hread).1.pages[position]?).map LoaderPage.sizeOnDisk).getD 0 ≠ 0)) : EagerLoad where
  registered := oneBlock
  hasRamFile _ := false
  file := onePageFile bytes
  loader := ((readOnePage bytes).get hread).1
  mIndexPos := ((readOnePage bytes).get hread).2
  readIndex_eq := (Option.some_get hread).symm
  hostPtr _ := 0
  mIsQuickboot := false
  poolStarts := true
  readOk _ := true
  lz4 := fourLiterals
  order := [0]
  order_perm := hpages
  order_sorted := List.pairwise_singleton _ _

def brokenPage : EagerLoad := onePage [0xf0] (by decide +kernel) (by decide +kernel)

def goodPage : EagerLoad := onePage [0x40, 1, 2, 3, 4] (by decide +kernel) (by decide +kernel)

/-- `start` returns true, and a page without contents is marked as read. -/
theorem broken_page_read :
    ∃ last, run brokenPage.step (brokenPage.start fun _ ↦ 0)
        [.reader, .decompress 0, .setError 0, .storeError 0, .reader, .reader, .reader] = some last ∧
      last.reader = .returned true ∧ brokenPage.contents 0 = none ∧ last.failed = [0] ∧ last.state 0 = .Read ∧
      ¬ brokenPage.Reported last := by
  have hrun : (run brokenPage.step (brokenPage.start fun _ ↦ 0)
      [.reader, .decompress 0, .setError 0, .storeError 0, .reader, .reader, .reader]).map
        (fun last ↦ (last.reader, last.failed, last.state 0)) = some (.returned true, [0], .Read) := by
    decide +kernel
  obtain ⟨last, hlast, heq⟩ := Option.map_eq_some_iff.mp hrun
  obtain ⟨hreader, hrest⟩ := Prod.mk.inj heq
  obtain ⟨hfailed, hstate⟩ := Prod.mk.inj hrest
  refine ⟨last, hlast, hreader, by decide +kernel, hfailed, hstate, fun hreported ↦ ?_⟩
  exact (hreported.marked true hreader 0 (hfailed ▸ .head _)).1 hstate

theorem reported_goodPage :
    goodPage.handed goodPage.order = [0] ∧
      ∀ labels last, run goodPage.step (goodPage.start fun _ ↦ 0) labels = some last → goodPage.Reported last := by
  refine ⟨by decide +kernel, (reported_iff goodPage _ ?_ fun hquick ↦ Bool.noConfusion hquick).mpr ?_⟩
  · have hone : goodPage.loader.pages.length = 1 := by decide +kernel
    intro first hfirst second hsecond hne
    omega
  · decide +kernel

end EagerLoad

end FdeEmugl.Snapshot
