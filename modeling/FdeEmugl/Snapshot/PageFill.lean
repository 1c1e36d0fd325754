import FdeEmugl.Base.MessageChannel
import FdeEmugl.Library.Exclusive
import FdeEmugl.Library.Runs
import FdeEmugl.Snapshot.RamIndex

/-!
# Loading pages on demand

A page is read from the file and copied to the guest when the guest touches it, or
when the background thread comes to it. The threads of the virtual machine do both
themselves; the background thread hands pages to the reader through one queue and
takes them back through another. The state of a page, changed by compare-and-swap,
says which thread may read it and which may fill it. Every access to a state or to
a pointer is one step, and the steps of all threads are interleaved in any order.
-/

namespace FdeEmugl.PageFill

open Channel Snapshot Runs

/-! ## What is on disk -/

/-- A loader that has read its index, and the file. -/
structure Image where
  file : List UInt8
  pages : List LoaderPage
  flags : UInt32
  mVersion : ℕ
  mIsQuickboot : Bool
  decompress : List UInt8 → Option (List UInt8)

namespace Image

abbrev Page (image : Image) := Fin image.pages.length

variable (image : Image)

def sizeOnDisk (page : image.Page) : ℕ := (image.pages.get page).sizeOnDisk

/-- What `pread` delivers if nothing goes wrong. -/
def stored (page : image.Page) : List UInt8 :=
  (image.file.drop (image.pages.get page).filePos).take (image.sizeOnDisk page)

def isCompressed (page : image.Page) : Bool :=
  image.flags &&& 1 != 0 && (image.mVersion = 1 || image.sizeOnDisk page < kDefaultPageSize)

/-- The contents of a page, if the file has all of it and it can be decompressed. -/
def contents (page : image.Page) : Option (List UInt8) :=
  if (image.stored page).length ≠ image.sizeOnDisk page then none
  else if image.isCompressed page then image.decompress (image.stored page)
  else some (image.stored page)

/-- Pages on separate storage are left to the operating system. -/
def loadsNothing : Bool := image.mIsQuickboot && image.flags &&& 2 != 0

end Image

/-! ## Threads -/

/-- The virtual machine has any number of threads. -/
inductive Thread (Vm : Type) where
  | vm (thread : Vm)
  | reader
  | background
deriving DecidableEq

/-- Where a thread is in `readDataFromDisk`. -/
inductive ReadAt where
  | enter
  | spin
  | pread
  | publish (data : List UInt8)
  | store

/-- Where a thread is in `fillPageData`. -/
inductive FillAt where
  | enter
  | spin
  | fill
  | free (res : Bool)
  | store (res : Bool)

/-- The number of a turn of the loop in `backgroundPageLoad` is `i`. -/
inductive Pc (image : Image) where
  | idle
  | read (page : image.Page) (place : ReadAt)
  | fill (page : image.Page) (place : FillAt)
  | returned (page : image.Page)
  | send (page : image.Page)
  | sendEnd
  | stopReading
  | poll
  | scan (i : ℕ)
  | look (i : ℕ)
  | chosen (i : ℕ)
  | finished

/-- `fills` are the pointers that `fillPage` was called with, and `frees` is how often `data` was
deleted. -/
structure Cell where
  state : PageState
  data : Option (List UInt8)
  fills : List (Option (List UInt8))
  frees : ℕ

structure State (image : Image) (Vm : Type) where
  cell : image.Page → Cell
  pc : Thread Vm → Pc image
  mReadingQueue : MessageChannel (Option image.Page)
  mReadDataQueue : MessageChannel (Option image.Page)
  mBackgroundPageIt : ℕ
  mSentEndOfPagesMarker : Bool
  mHasError : Bool

/-- `state < State::Read`. -/
def isBeforeRead : PageState → Bool
  | .Empty | .Reading => true
  | _ => false

/-- `state >= State::Filled`. -/
def isFinal : PageState → Bool
  | .Filled | .Error => true
  | _ => false

section Steps

variable {image : Image} {Vm : Type} [DecidableEq Vm]

/-- Zero pages have nothing to be read. -/
def State.new : State image Vm where
  cell page := ⟨if image.sizeOnDisk page = 0 then .Read else .Empty, none, [], 0⟩
  pc _ := .idle
  mReadingQueue := .new _ 32
  mReadDataQueue := .new _ 32
  mBackgroundPageIt := 0
  mSentEndOfPagesMarker := false
  mHasError := false

namespace State

def goto (thread : Thread Vm) (pc : Pc image) (state : State image Vm) : State image Vm :=
  { state with pc := Function.update state.pc thread pc }

def put (page : image.Page) (cell : Cell) (state : State image Vm) : State image Vm :=
  { state with cell := Function.update state.cell page cell }

/-- Where a thread goes on when `readDataFromDisk` returns. The background thread does not call it. -/
def afterRead (thread : Thread Vm) (page : image.Page) (result : Bool) : Pc image :=
  match thread with
  | .vm _ => .fill page .enter
  | .reader => if result then .send page else .idle
  | .background => .idle

/-- `loadRamPage` returns; the background thread waits or runs again. -/
def afterFill (thread : Thread Vm) (page : image.Page) : Pc image :=
  match thread with
  | .vm _ => .returned page
  | _ => .idle

/-- `ok` says whether the file can be read. -/
def readDataFromDisk (thread : Thread Vm) (page : image.Page) (ok : Bool) (state : State image Vm) :
    ReadAt → State image Vm
  | .enter =>
    if image.sizeOnDisk page = 0 then
      (state.put page { state.cell page with data := none }).goto thread (afterRead thread page true)
    else if (state.cell page).state = .Empty then
      (state.put page { state.cell page with state := .Reading }).goto thread (.read page .pread)
    else if isBeforeRead (state.cell page).state then state.goto thread (.read page .spin)
    else state.goto thread (afterRead thread page false)
  | .spin =>
    if isBeforeRead (state.cell page).state then state
    else state.goto thread (afterRead thread page false)
  | .pread =>
    match if ok then image.contents page else none with
    | none =>
      goto thread (afterRead thread page false)
        (put page { state.cell page with state := .Error } { state with mHasError := true })
    | some data => state.goto thread (.read page (.publish data))
  | .publish data =>
    (state.put page { state.cell page with data := some data }).goto thread (.read page .store)
  | .store =>
    (state.put page { state.cell page with state := .Read }).goto thread (afterRead thread page true)

/-- `ok` is what `fillPage` returns. -/
def fillPageData (thread : Thread Vm) (page : image.Page) (ok : Bool) (state : State image Vm) :
    FillAt → State image Vm
  | .enter =>
    if (state.cell page).state = .Read then
      (state.put page { state.cell page with state := .Filling }).goto thread (.fill page .fill)
    else if isFinal (state.cell page).state then state.goto thread (afterFill thread page)
    else state.goto thread (.fill page .spin)
  | .spin =>
    if isFinal (state.cell page).state then state.goto thread (afterFill thread page)
    else state
  | .fill =>
    goto thread (.fill page (.free ok)) (put page
        { state.cell page with fills := (state.cell page).fills ++ [(state.cell page).data] }
        { state with mHasError := state.mHasError || !ok })
  | .free res =>
    goto thread (.fill page (.store res)) (put page (if (state.cell page).data.isSome then
          { state.cell page with data := none, frees := (state.cell page).frees + 1 }
        else state.cell page) state)
  | .store res =>
    (state.put page { state.cell page with state := if res then .Filled else .Error }).goto thread
      (afterFill thread page)

/-- The thread waits for a message, or for room to send one, if there is no next state. -/
def readerWorker (state : State image Vm) : Pc image → Option (State image Vm)
  | .idle => state.mReadingQueue.receive.map fun (msg, mReadingQueue) ↦
    goto .reader (match msg with
      | none => .finished
      | some none => .sendEnd
      | some (some page) => .read page .enter) { state with mReadingQueue }
  | .send page => (state.mReadDataQueue.send (some page)).map fun (_, mReadDataQueue) ↦
    goto .reader .idle { state with mReadDataQueue }
  | .sendEnd => (state.mReadDataQueue.send none).map fun (_, mReadDataQueue) ↦
    goto .reader .stopReading { state with mReadDataQueue }
  | .stopReading =>
    some (goto .reader .finished { state with mReadingQueue := state.mReadingQueue.stop })
  | _ => none

/-- The pages from `mBackgroundPageIt` on are looked at one after the other. -/
def backgroundPageLoad (state : State image Vm) : Pc image → Option (State image Vm)
  | .idle =>
    some (state.goto .background
      (if state.mReadingQueue.mStopped && state.mReadDataQueue.mStopped then .finished else .poll))
  | .poll =>
    match state.mReadDataQueue.tryReceive with
    | (some (some page), mReadDataQueue) =>
      some (goto .background (.fill page .enter) { state with mReadDataQueue })
    | (some none, mReadDataQueue) =>
      some (goto .background .stopReading { state with mReadDataQueue := mReadDataQueue.stop })
    | (none, _) => some (state.goto .background (.scan 0))
  | .stopReading =>
    some (goto .background .finished { state with mReadingQueue := state.mReadingQueue.stop })
  | .scan i =>
    if i ≥ state.mReadingQueue.mCapacity then some (state.goto .background .idle)
    else if h : state.mBackgroundPageIt < image.pages.length then
      match (state.cell ⟨state.mBackgroundPageIt, h⟩).state with
      | .Empty => some (state.goto .background (.chosen i))
      | .Read => some (state.goto .background (.look i))
      | _ =>
        some (goto .background (.scan i) { state with mBackgroundPageIt := state.mBackgroundPageIt + 1 })
    else if state.mSentEndOfPagesMarker then some (state.goto .background .idle)
    else
      let (sent, mReadingQueue) := state.mReadingQueue.trySend none
      some (goto .background .idle { state with mReadingQueue, mSentEndOfPagesMarker := sent })
  | .look i =>
    if h : state.mBackgroundPageIt < image.pages.length then
      if (state.cell ⟨state.mBackgroundPageIt, h⟩).data.isNone then some (state.goto .background (.chosen i))
      else
        some (goto .background (.scan i) { state with mBackgroundPageIt := state.mBackgroundPageIt + 1 })
    else none
  | .chosen i =>
    if h : state.mBackgroundPageIt < image.pages.length then
      if (state.cell ⟨state.mBackgroundPageIt, h⟩).state = .Read then
        some (goto .background (.fill ⟨state.mBackgroundPageIt, h⟩ .enter)
          { state with mBackgroundPageIt := state.mBackgroundPageIt + 1 })
      else
        let (sent, mReadingQueue) := state.mReadingQueue.trySend (some ⟨state.mBackgroundPageIt, h⟩)
        if sent then
          some (goto .background (.scan (i + 1))
            { state with mReadingQueue, mBackgroundPageIt := state.mBackgroundPageIt + 1 })
        else some (goto .background .idle { state with mReadingQueue })
    else none
  | _ => none

/-- A thread of the virtual machine touches a page. -/
def loadRamPage (vm : Vm) (page : image.Page) (state : State image Vm) : Option (State image Vm) :=
  match state.pc (.vm vm) with
  | .idle =>
    some (state.goto (.vm vm) (if image.loadsNothing then .returned page else .read page .enter))
  | _ => none

end State

/-- `ok` is the outcome of the call outside that the step makes, if it makes one. -/
inductive Label (image : Image) (Vm : Type) where
  | loadRamPage (vm : Vm) (page : image.Page)
  | advance (thread : Thread Vm) (ok : Bool)
  | interrupt

def step : Label image Vm → State image Vm → Option (State image Vm)
  | .loadRamPage vm page, state => state.loadRamPage vm page
  | .advance thread ok, state =>
    match state.pc thread with
    | .read page place => some (state.readDataFromDisk thread page ok place)
    | .fill page place => some (state.fillPageData thread page ok place)
    | .returned _ => some (state.goto thread .idle)
    | pc =>
      match thread with
      | .vm _ => none
      | .reader => state.readerWorker pc
      | .background => state.backgroundPageLoad pc
  | .interrupt, state =>
    some { state with
      mReadDataQueue := state.mReadDataQueue.stop, mReadingQueue := state.mReadingQueue.stop }

end Steps

/-! ## What one step does -/

/-- How far the thread has got that reads or fills a page. -/
inductive Stage where
  | pread
  | publish (data : List UInt8)
  | storeRead
  | fill
  | free (res : Bool)
  | storeFill (res : Bool)

def ReadAt.stage : ReadAt → Option Stage
  | .enter | .spin => none
  | .pread => some .pread
  | .publish data => some (.publish data)
  | .store => some .storeRead

def FillAt.stage : FillAt → Option Stage
  | .enter | .spin => none
  | .fill => some .fill
  | .free res => some (.free res)
  | .store res => some (.storeFill res)

def Pc.stage {image : Image} : Pc image → image.Page → Option Stage
  | .read page place, other => if other = page then place.stage else none
  | .fill page place, other => if other = page then place.stage else none
  | _, _ => none

namespace Image

variable (image : Image)

/-- What `fillPage` is to be called with. -/
def expected (page : image.Page) : Option (List UInt8) :=
  if image.sizeOnDisk page = 0 then none else image.contents page

/-- The page can be loaded. -/
def Loadable (page : image.Page) : Prop := image.sizeOnDisk page ≠ 0 → (image.contents page).isSome

/-- How many buffers a page that is filled has used. -/
def buffers (page : image.Page) : ℕ := if image.sizeOnDisk page = 0 then 0 else 1

/-- What is true of a page while a thread works on it, or none does. -/
def Holds (page : image.Page) : Option Stage → Cell → Prop
  | some .pread, cell => image.sizeOnDisk page ≠ 0 ∧ cell = ⟨.Reading, none, [], 0⟩
  | some (.publish data), cell =>
    image.sizeOnDisk page ≠ 0 ∧ image.contents page = some data ∧ cell = ⟨.Reading, none, [], 0⟩
  | some .storeRead, cell =>
    image.sizeOnDisk page ≠ 0 ∧ (image.contents page).isSome ∧ cell = ⟨.Reading, image.contents page, [], 0⟩
  | some .fill, cell => image.Loadable page ∧ cell = ⟨.Filling, image.expected page, [], 0⟩
  | some (.free _), cell =>
    image.Loadable page ∧ cell = ⟨.Filling, image.expected page, [image.expected page], 0⟩
  | some (.storeFill _), cell =>
    image.Loadable page ∧ cell = ⟨.Filling, none, [image.expected page], image.buffers page⟩
  | none, cell =>
    image.sizeOnDisk page ≠ 0 ∧ cell = ⟨.Empty, none, [], 0⟩ ∨
    image.Loadable page ∧ cell = ⟨.Read, image.expected page, [], 0⟩ ∨
    image.Loadable page ∧ cell = ⟨.Filled, none, [image.expected page], image.buffers page⟩ ∨
    image.Loadable page ∧ cell = ⟨.Error, none, [image.expected page], image.buffers page⟩ ∨
    cell = ⟨.Error, none, [], 0⟩

/-- The work on a page, step by step. -/
inductive Works (page : image.Page) : Option Stage → Cell → Option Stage → Cell → Prop
  | startRead {cell : Cell} : image.sizeOnDisk page ≠ 0 → cell.state = .Empty →
      Works page none cell (some .pread) { cell with state := .Reading }
  | readFails {cell : Cell} : Works page (some .pread) cell none { cell with state := .Error }
  | readDone {cell : Cell} {data : List UInt8} : image.contents page = some data →
      Works page (some .pread) cell (some (.publish data)) cell
  | publish {cell : Cell} {data : List UInt8} :
      Works page (some (.publish data)) cell (some .storeRead) { cell with data := some data }
  | storeRead {cell : Cell} : Works page (some .storeRead) cell none { cell with state := .Read }
  | startFill {cell : Cell} : cell.state = .Read → Works page none cell (some .fill) { cell with state := .Filling }
  | fill {cell : Cell} {res : Bool} :
      Works page (some .fill) cell (some (.free res)) { cell with fills := cell.fills ++ [cell.data] }
  | free {cell : Cell} {res : Bool} : Works page (some (.free res)) cell (some (.storeFill res))
        (if cell.data.isSome then { cell with data := none, frees := cell.frees + 1 } else cell)
  | storeFill {cell : Cell} {res : Bool} : Works page (some (.storeFill res)) cell none
      { cell with state := if res then .Filled else .Error }

end Image

/-- The transitions of the state of a page. -/
inductive Edge : PageState → PageState → Prop
  | reading : Edge .Empty .Reading
  | read : Edge .Reading .Read
  | filling : Edge .Read .Filling
  | filled : Edge .Filling .Filled
  | readError : Edge .Reading .Error
  | fillError : Edge .Filling .Error

section Work

variable {image : Image} {page : image.Page} {stage next : Option Stage} {cell result : Cell}

theorem Image.expected_of_ne (h : image.sizeOnDisk page ≠ 0) : image.expected page = image.contents page := if_neg h

/-- A page that is being worked on is being read or filled. -/
theorem Image.Holds.state_of_some {stage : Stage} (h : image.Holds page (some stage) cell) :
    cell.state = .Reading ∨ cell.state = .Filling := by
  cases stage with
  | pread => exact .inl (h.2 ▸ rfl)
  | publish => exact .inl (h.2.2 ▸ rfl)
  | storeRead => exact .inl (h.2.2 ▸ rfl)
  | fill => exact .inr (h.2 ▸ rfl)
  | free => exact .inr (h.2 ▸ rfl)
  | storeFill => exact .inr (h.2 ▸ rfl)

/-- A zero page never has data. -/
theorem Image.Holds.data_eq_none (h : image.Holds page stage cell) (hzero : image.sizeOnDisk page = 0) :
    cell.data = none := by
  have hexpected : image.expected page = none := if_pos hzero
  rcases stage with - | stage
  · obtain ⟨-, rfl⟩ | ⟨-, rfl⟩ | ⟨-, rfl⟩ | ⟨-, rfl⟩ | rfl := h
    · rfl
    · exact hexpected
    · rfl
    · rfl
    · rfl
  · cases stage with
    | pread => exact absurd hzero h.1
    | publish => exact absurd hzero h.1
    | storeRead => exact absurd hzero h.1
    | fill =>
      obtain ⟨-, rfl⟩ := h
      exact hexpected
    | free =>
      obtain ⟨-, rfl⟩ := h
      exact hexpected
    | storeFill =>
      obtain ⟨-, rfl⟩ := h
      rfl

section

variable (h : image.Works page stage cell next result) (hholds : image.Holds page stage cell)
include h hholds

/-- The work on a page keeps what is true of it. -/
theorem Image.Works.holds : image.Holds page next result := by
  cases h with
  | startRead hsize hempty =>
    obtain ⟨-, rfl⟩ | ⟨-, rfl⟩ | ⟨-, rfl⟩ | ⟨-, rfl⟩ | rfl := hholds <;> first | exact ⟨hsize, rfl⟩ | cases hempty
  | readFails =>
    obtain ⟨-, rfl⟩ := hholds
    exact .inr (.inr (.inr (.inr rfl)))
  | readDone hcontents =>
    obtain ⟨hsize, rfl⟩ := hholds
    exact ⟨hsize, hcontents, rfl⟩
  | publish =>
    obtain ⟨hsize, hcontents, rfl⟩ := hholds
    exact ⟨hsize, by rw [hcontents]; rfl, by rw [hcontents]⟩
  | storeRead =>
    obtain ⟨hsize, hcontents, rfl⟩ := hholds
    exact .inr (.inl ⟨fun _ ↦ hcontents, by rw [image.expected_of_ne hsize]⟩)
  | startFill hread =>
    obtain ⟨-, rfl⟩ | ⟨hloadable, rfl⟩ | ⟨-, rfl⟩ | ⟨-, rfl⟩ | rfl := hholds <;>
      first | exact ⟨hloadable, rfl⟩ | cases hread
  | fill =>
    obtain ⟨hloadable, rfl⟩ := hholds
    exact ⟨hloadable, rfl⟩
  | free =>
    obtain ⟨hloadable, rfl⟩ := hholds
    refine ⟨hloadable, ?_⟩
    by_cases hzero : image.sizeOnDisk page = 0
    · simp [Image.expected, Image.buffers, hzero]
    · have hsome := hloadable hzero
      simp [Image.expected, Image.buffers, hzero, hsome]
  | storeFill =>
    rename_i res
    obtain ⟨hloadable, rfl⟩ := hholds
    cases res with
    | true => exact .inr (.inr (.inl ⟨hloadable, rfl⟩))
    | false => exact .inr (.inr (.inr (.inl ⟨hloadable, rfl⟩)))

/-- The work on a page takes its state along the transitions. -/
theorem Image.Works.edge : result.state = cell.state ∨ Edge cell.state result.state := by
  cases h with
  | startRead _ hempty => exact .inr (hempty ▸ .reading)
  | readFails =>
    obtain ⟨-, rfl⟩ := hholds
    exact .inr .readError
  | readDone => exact .inl rfl
  | publish => exact .inl rfl
  | storeRead =>
    obtain ⟨-, -, rfl⟩ := hholds
    exact .inr .read
  | startFill hread => exact .inr (hread ▸ .filling)
  | fill => exact .inl rfl
  | free =>
    left
    split_ifs <;> rfl
  | storeFill =>
    rename_i res
    obtain ⟨-, rfl⟩ := hholds
    cases res with
    | true => exact .inr .filled
    | false => exact .inr .fillError

end

end Work

section Invariant

variable {image : Image} {Vm : Type} {state next : State image Vm} {thread : Thread Vm} {page : image.Page}

structure State.Sound (state : State image Vm) : Prop where
  exclusive : Exclusive Pc.stage image.Holds state.pc state.cell
  returned : ∀ thread page, state.pc thread = .returned page →
    isFinal (state.cell page).state = true ∨ image.loadsNothing = true

variable {stage : Option Stage} {cell : Cell} {pc : Pc image}

section

variable (thread : Thread Vm) (page other : image.Page)

@[simp] theorem stage_afterRead (result : Bool) : (State.afterRead thread page result).stage other = none := by
  cases thread with
  | vm => simp [State.afterRead, Pc.stage, FillAt.stage]
  | reader => cases result <;> rfl
  | background => rfl

@[simp] theorem stage_afterFill : (State.afterFill thread page).stage other = none := by
  cases thread <;> rfl

theorem afterRead_ne_returned (result : Bool) : State.afterRead thread page result ≠ .returned other := by
  cases thread with
  | vm => nofun
  | reader => cases result <;> nofun
  | background => nofun

end

theorem eq_of_afterFill {other : image.Page} (h : State.afterFill thread page = .returned other) : other = page := by
  cases thread with
  | vm => exact (Pc.returned.inj h).symm
  | reader => cases h
  | background => cases h

theorem stage_read_self (place : ReadAt) : (Pc.read page place).stage page = place.stage := if_pos rfl

theorem stage_read_of_ne {other : image.Page} (place : ReadAt) (h : other ≠ page) :
    (Pc.read page place).stage other = none := if_neg h

theorem stage_fill_self (place : FillAt) : (Pc.fill page place).stage page = place.stage := if_pos rfl

theorem stage_fill_of_ne {other : image.Page} (place : FillAt) (h : other ≠ page) :
    (Pc.fill page place).stage other = none := if_neg h

theorem State.Sound.exists_holds (h : state.Sound) (page : image.Page) :
    ∃ stage, image.Holds page stage (state.cell page) := by
  by_cases hfree : ∀ thread, (state.pc thread).stage page = none
  · exact ⟨none, h.exclusive.free page hfree⟩
  · rw [not_forall] at hfree
    obtain ⟨thread, hheld⟩ := hfree
    exact ⟨_, h.exclusive.held thread page hheld⟩

theorem State.sound_new : (State.new : State image Vm).Sound := by
  refine ⟨⟨fun _ _ _ hheld ↦ absurd rfl hheld, fun _ _ hheld ↦ absurd rfl hheld, fun page _ ↦ ?_⟩, nofun⟩
  by_cases hzero : image.sizeOnDisk page = 0
  · refine .inr (.inl ⟨fun hne ↦ absurd hzero hne, ?_⟩)
    simp [State.new, Image.expected, hzero]
  · refine .inl ⟨hzero, ?_⟩
    simp [State.new, hzero]

section

variable (h : state.Sound)
  (hworks : image.Works page ((state.pc thread).stage page) (state.cell page) stage cell)
include h hworks

/-- The thread that works on a page holds it, or nobody does and it takes it. -/
theorem State.Sound.own : (state.pc thread).stage page ≠ none ∨ ∀ other, (state.pc other).stage page = none := by
  by_cases hheld : (state.pc thread).stage page = none
  · right
    rw [hheld] at hworks
    intro other
    by_contra hother
    obtain ⟨held, hstage⟩ := Option.ne_none_iff_exists'.mp hother
    have hholds := h.exclusive.held other page hother
    rw [hstage] at hholds
    cases hworks with
    | startRead _ hempty =>
      rcases hholds.state_of_some with hstate | hstate <;> rw [hempty] at hstate <;> cases hstate
    | startFill hread =>
      rcases hholds.state_of_some with hstate | hstate <;> rw [hread] at hstate <;> cases hstate
  · exact .inl hheld

theorem State.Sound.holds_of_works : image.Holds page ((state.pc thread).stage page) (state.cell page) := by
  by_cases hheld : (state.pc thread).stage page = none
  · rw [hheld]
    exact h.exclusive.free page ((h.own hworks).resolve_left (not_not_intro hheld))
  · exact h.exclusive.held thread page hheld

end

variable [DecidableEq Vm]

/-- A thread moves on, or works on a page. -/
inductive Effect (state next : State image Vm) : Prop
  | quiet (thread : Thread Vm) (pc : Pc image) : next.cell = state.cell →
      next.pc = Function.update state.pc thread pc →
      (∀ page, pc.stage page = (state.pc thread).stage page) →
      (∀ page, pc = .returned page →
        isFinal (state.cell page).state = true ∨ image.loadsNothing = true) → Effect state next
  | still : next.cell = state.cell → next.pc = state.pc → Effect state next
  | work (thread : Thread Vm) (page : image.Page) (pc : Pc image) (cell : Cell) :
      next.cell = Function.update state.cell page cell →
      next.pc = Function.update state.pc thread pc →
      (∀ other, other ≠ page → pc.stage other = (state.pc thread).stage other) →
      image.Works page ((state.pc thread).stage page) (state.cell page) (pc.stage page) cell →
      (∀ other, pc = .returned other → other = page ∧ isFinal cell.state = true) → Effect state next

/-- A thread that does not work on a page goes on to a place where it does not either. -/
theorem Effect.of_goto (hcell : next.cell = state.cell) (hpc : next.pc = Function.update state.pc thread pc)
    (hbefore : ∀ page, (state.pc thread).stage page = none) (hafter : ∀ page, pc.stage page = none)
    (hreturned : ∀ page, pc = .returned page → isFinal (state.cell page).state = true ∨ image.loadsNothing = true) :
    Effect state next :=
  .quiet thread pc hcell hpc (fun page ↦ by rw [hbefore, hafter]) hreturned

theorem effect_readDataFromDisk {place : ReadAt} (h : state.Sound) (hpc : state.pc thread = .read page place)
    (ok : Bool) : Effect state (state.readDataFromDisk thread page ok place) := by
  have hothers (other : image.Page) (hne : other ≠ page) : (state.pc thread).stage other = none := by
    rw [hpc, stage_read_of_ne place hne]
  have hself : (state.pc thread).stage page = place.stage := by rw [hpc, stage_read_self]
  have hquiet (hplace : place.stage = none) (other : image.Page) : (state.pc thread).stage other = none := by
    by_cases heq : other = page
    · rw [heq, hself, hplace]
    · exact hothers other heq
  have hleave (result : Bool) (other : image.Page) (heq : State.afterRead thread page result = .returned other) :
      isFinal (state.cell other).state = true ∨ image.loadsNothing = true :=
    absurd heq (afterRead_ne_returned thread page other result)
  cases place with
  | enter =>
    rw [State.readDataFromDisk]
    split_ifs with hzero hempty hbefore
    · obtain ⟨stage, hholds⟩ := h.exists_holds page
      have hsame : { state.cell page with data := none } = state.cell page := by
        rw [← hholds.data_eq_none hzero]
      refine .of_goto ?_ rfl (hquiet rfl) (fun _ ↦ stage_afterRead ..) (hleave true)
      simp only [State.goto, State.put, hsame, Function.update_eq_self]
    · refine .work thread page _ _ rfl rfl (fun other hne ↦ ?_) ?_ nofun
      · rw [hothers other hne, stage_read_of_ne _ hne]
      · rw [hself, stage_read_self]
        exact .startRead hzero hempty
    · refine .of_goto rfl rfl (hquiet rfl) (fun other ↦ ?_) nofun
      simp [Pc.stage, ReadAt.stage]
    · exact .of_goto rfl rfl (hquiet rfl) (fun _ ↦ stage_afterRead ..) (hleave false)
  | spin =>
    rw [State.readDataFromDisk]
    split_ifs with hbefore
    · exact .still rfl rfl
    · exact .of_goto rfl rfl (hquiet rfl) (fun _ ↦ stage_afterRead ..) (hleave false)
  | pread =>
    simp only [State.readDataFromDisk]
    split
    · refine .work thread page _ _ rfl rfl (fun other hne ↦ ?_) ?_ ?_
      · rw [hothers other hne, stage_afterRead]
      · rw [hself, stage_afterRead]
        exact .readFails
      · intro other heq
        exact absurd heq (afterRead_ne_returned thread page other false)
    · rename_i data hdata
      have hcontents : image.contents page = some data := by
        split_ifs at hdata
        exact hdata
      refine .work thread page _ (state.cell page) ?_ rfl (fun other hne ↦ ?_) ?_ nofun
      · simp only [State.goto, Function.update_eq_self]
      · rw [hothers other hne, stage_read_of_ne _ hne]
      · rw [hself, stage_read_self]
        exact .readDone hcontents
  | publish data =>
    refine .work thread page _ _ rfl rfl (fun other hne ↦ ?_) ?_ nofun
    · rw [hothers other hne, stage_read_of_ne _ hne]
    · rw [hself, stage_read_self]
      exact .publish
  | store =>
    refine .work thread page _ _ rfl rfl (fun other hne ↦ ?_) ?_ ?_
    · rw [hothers other hne, stage_afterRead]
    · rw [hself, stage_afterRead]
      exact .storeRead
    · intro other heq
      exact absurd heq (afterRead_ne_returned thread page other true)

theorem effect_fillPageData {place : FillAt} (hpc : state.pc thread = .fill page place) (ok : Bool) :
    Effect state (state.fillPageData thread page ok place) := by
  have hothers (other : image.Page) (hne : other ≠ page) : (state.pc thread).stage other = none := by
    rw [hpc, stage_fill_of_ne place hne]
  have hself : (state.pc thread).stage page = place.stage := by rw [hpc, stage_fill_self]
  have hquiet (hplace : place.stage = none) (other : image.Page) : (state.pc thread).stage other = none := by
    by_cases heq : other = page
    · rw [heq, hself, hplace]
    · exact hothers other heq
  have hleave (hfinal : isFinal (state.cell page).state = true) (other : image.Page)
      (heq : State.afterFill thread page = .returned other) :
      isFinal (state.cell other).state = true ∨ image.loadsNothing = true := by
    rw [eq_of_afterFill heq]
    exact .inl hfinal
  cases place with
  | enter =>
    rw [State.fillPageData]
    split_ifs with hread hfinal
    · refine .work thread page _ _ rfl rfl (fun other hne ↦ ?_) ?_ nofun
      · rw [hothers other hne, stage_fill_of_ne _ hne]
      · rw [hself, stage_fill_self]
        exact .startFill hread
    · exact .of_goto rfl rfl (hquiet rfl) (fun _ ↦ stage_afterFill ..) (hleave hfinal)
    · refine .of_goto rfl rfl (hquiet rfl) (fun other ↦ ?_) nofun
      simp [Pc.stage, FillAt.stage]
  | spin =>
    rw [State.fillPageData]
    split_ifs with hfinal
    · exact .of_goto rfl rfl (hquiet rfl) (fun _ ↦ stage_afterFill ..) (hleave hfinal)
    · exact .still rfl rfl
  | fill =>
    refine .work thread page _ _ rfl rfl (fun other hne ↦ ?_) ?_ nofun
    · rw [hothers other hne, stage_fill_of_ne _ hne]
    · rw [hself, stage_fill_self]
      exact .fill
  | free res =>
    refine .work thread page _ _ rfl rfl (fun other hne ↦ ?_) ?_ nofun
    · rw [hothers other hne, stage_fill_of_ne _ hne]
    · rw [hself, stage_fill_self]
      exact .free
  | store res =>
    refine .work thread page _ _ rfl rfl (fun other hne ↦ ?_) ?_ ?_
    · rw [hothers other hne, stage_afterFill]
    · rw [hself, stage_afterFill]
      exact .storeFill
    · intro other heq
      refine ⟨eq_of_afterFill heq, ?_⟩
      cases res <;> rfl

/-- A place where a thread works on no page and does not return from `loadRamPage`. -/
def Pc.Passive (pc : Pc image) : Prop := (∀ page, pc.stage page = none) ∧ ∀ page, pc ≠ .returned page

theorem passive_read (page : image.Page) : (Pc.read page .enter).Passive := by
  refine ⟨fun other ↦ ?_, nofun⟩
  simp [Pc.stage, ReadAt.stage]

theorem passive_fill (page : image.Page) : (Pc.fill page .enter).Passive := by
  refine ⟨fun other ↦ ?_, nofun⟩
  simp [Pc.stage, FillAt.stage]

theorem Effect.of_passive (hcell : next.cell = state.cell) (hpc : next.pc = Function.update state.pc thread pc)
    (hbefore : ∀ page, (state.pc thread).stage page = none) (hpassive : pc.Passive) : Effect state next :=
  .of_goto hcell hpc hbefore hpassive.1 fun page heq ↦ absurd heq (hpassive.2 page)

theorem effect_readerWorker (hbefore : ∀ page, (state.pc .reader).stage page = none)
    (hstep : state.readerWorker pc = some next) : Effect state next := by
  cases pc with
  | idle =>
    obtain ⟨⟨msg, queue⟩, _, rfl⟩ := Option.map_eq_some_iff.mp hstep
    refine .of_passive rfl rfl hbefore ?_
    rcases msg with - | - | page
    · exact ⟨fun _ ↦ rfl, nofun⟩
    · exact ⟨fun _ ↦ rfl, nofun⟩
    · exact passive_read page
  | send page =>
    obtain ⟨_, _, rfl⟩ := Option.map_eq_some_iff.mp hstep
    exact .of_passive rfl rfl hbefore ⟨fun _ ↦ rfl, nofun⟩
  | sendEnd =>
    obtain ⟨_, _, rfl⟩ := Option.map_eq_some_iff.mp hstep
    exact .of_passive rfl rfl hbefore ⟨fun _ ↦ rfl, nofun⟩
  | stopReading =>
    cases hstep
    exact .of_passive rfl rfl hbefore ⟨fun _ ↦ rfl, nofun⟩
  | _ => cases hstep

theorem effect_backgroundPageLoad (hbefore : ∀ page, (state.pc .background).stage page = none)
    (hstep : state.backgroundPageLoad pc = some next) : Effect state next := by
  cases pc with
  | idle =>
    cases hstep
    refine .of_passive rfl rfl hbefore ?_
    split_ifs <;> exact ⟨fun _ ↦ rfl, nofun⟩
  | poll =>
    rw [State.backgroundPageLoad] at hstep
    split at hstep
    · cases hstep
      exact .of_passive rfl rfl hbefore (passive_fill _)
    · cases hstep
      exact .of_passive rfl rfl hbefore ⟨fun _ ↦ rfl, nofun⟩
    · cases hstep
      exact .of_passive rfl rfl hbefore ⟨fun _ ↦ rfl, nofun⟩
  | stopReading =>
    cases hstep
    exact .of_passive rfl rfl hbefore ⟨fun _ ↦ rfl, nofun⟩
  | scan i =>
    rw [State.backgroundPageLoad] at hstep
    split_ifs at hstep
    · cases hstep
      exact .of_passive rfl rfl hbefore ⟨fun _ ↦ rfl, nofun⟩
    · split at hstep <;> cases hstep
      · exact .of_passive rfl rfl hbefore ⟨fun _ ↦ rfl, nofun⟩
      · exact .of_passive rfl rfl hbefore ⟨fun _ ↦ rfl, nofun⟩
      · exact .of_passive rfl rfl hbefore ⟨fun _ ↦ rfl, nofun⟩
    · cases hstep
      exact .of_passive rfl rfl hbefore ⟨fun _ ↦ rfl, nofun⟩
    · cases hstep
      exact .of_passive rfl rfl hbefore ⟨fun _ ↦ rfl, nofun⟩
  | look i =>
    rw [State.backgroundPageLoad] at hstep
    split_ifs at hstep
    · cases hstep
      exact .of_passive rfl rfl hbefore ⟨fun _ ↦ rfl, nofun⟩
    · cases hstep
      exact .of_passive rfl rfl hbefore ⟨fun _ ↦ rfl, nofun⟩
  | chosen i =>
    simp only [State.backgroundPageLoad] at hstep
    split_ifs at hstep
    · cases hstep
      exact .of_passive rfl rfl hbefore (passive_fill _)
    · cases hstep
      exact .of_passive rfl rfl hbefore ⟨fun _ ↦ rfl, nofun⟩
    · cases hstep
      exact .of_passive rfl rfl hbefore ⟨fun _ ↦ rfl, nofun⟩
  | _ => cases hstep

theorem effect_loadRamPage {vm : Vm} (hstep : state.loadRamPage vm page = some next) : Effect state next := by
  unfold State.loadRamPage at hstep
  split at hstep
  · rename_i hidle
    cases hstep
    have hbefore (other : image.Page) : (state.pc (.vm vm)).stage other = none := by rw [hidle]; rfl
    refine .of_goto rfl rfl hbefore (fun other ↦ ?_) fun other heq ↦ ?_
    · split_ifs
      · rfl
      · exact (passive_read page).1 other
    · split_ifs at heq with hnothing
      exact .inr hnothing
  · cases hstep

theorem step_effect {label : Label image Vm} (h : state.Sound) (hstep : step label state = some next) :
    Effect state next := by
  cases label with
  | loadRamPage vm page => exact effect_loadRamPage hstep
  | interrupt =>
    cases hstep
    exact .still rfl rfl
  | advance thread ok =>
    simp only [step] at hstep
    split at hstep
    · rename_i page place hpc
      cases hstep
      exact effect_readDataFromDisk h hpc ok
    · rename_i page place hpc
      cases hstep
      exact effect_fillPageData hpc ok
    · rename_i page hpc
      cases hstep
      refine .of_passive rfl rfl (fun other ↦ ?_) ⟨fun _ ↦ rfl, nofun⟩
      rw [hpc]
      rfl
    · rename_i hnotRead hnotFill hnotReturned
      have hbefore (page : image.Page) : (state.pc thread).stage page = none := by
        cases hpc : state.pc thread with
        | read page place => exact absurd hpc (hnotRead page place)
        | fill page place => exact absurd hpc (hnotFill page place)
        | _ => rfl
      cases thread with
      | vm vm => cases hstep
      | reader => exact effect_readerWorker hbefore hstep
      | background => exact effect_backgroundPageLoad hbefore hstep

/-- No transition leaves `Filled` or `Error`. -/
theorem Edge.not_final {first second : PageState} (h : Edge first second) : isFinal first = false := by
  cases h <;> rfl

section

variable (h : state.Sound) (heffect : Effect state next)
include h heffect

/-- A step takes the states of the pages along the transitions. -/
theorem Effect.edge (page : image.Page) :
    (next.cell page).state = (state.cell page).state ∨ Edge (state.cell page).state (next.cell page).state := by
  cases heffect with
  | quiet thread pc hcell => exact .inl (by rw [hcell])
  | still hcell => exact .inl (by rw [hcell])
  | work thread worked pc cell hcell _ _ hworks =>
    rw [hcell]
    by_cases heq : page = worked
    · subst heq
      rw [Function.update_self]
      exact hworks.edge (h.holds_of_works hworks)
    · rw [Function.update_of_ne heq]
      exact .inl rfl

theorem Effect.final (hfinal : isFinal (state.cell page).state = true) : isFinal (next.cell page).state = true := by
  rcases heffect.edge h page with hsame | hedge
  · rw [hsame]
    exact hfinal
  · rw [hedge.not_final] at hfinal
    cases hfinal

theorem Effect.exclusive : Exclusive Pc.stage image.Holds next.pc next.cell := by
  cases heffect with
  | quiet thread pc hcell hpc hsame =>
    rw [hcell, hpc]
    exact h.exclusive.move hsame
  | still hcell hpc =>
    rw [hcell, hpc]
    exact h.exclusive
  | work thread page pc cell hcell hpc hsame hworks =>
    rw [hcell, hpc]
    exact h.exclusive.work hsame (h.own hworks) (hworks.holds (h.holds_of_works hworks))

theorem Effect.sound : next.Sound := by
  have hfinal (page : image.Page) (hbefore : isFinal (state.cell page).state = true) :
      isFinal (next.cell page).state = true := heffect.final h hbefore
  refine ⟨heffect.exclusive h, fun other page hother ↦ ?_⟩
  have hold (hreturned : state.pc other = .returned page) :
      isFinal (next.cell page).state = true ∨ image.loadsNothing = true :=
    (h.returned other page hreturned).imp_left (hfinal page)
  cases heffect with
  | quiet thread pc hcell hpc _ hreturned =>
    rw [hpc] at hother
    by_cases heq : other = thread
    · rw [heq, Function.update_self] at hother
      rw [hcell]
      exact hreturned page hother
    · rw [Function.update_of_ne heq] at hother
      exact hold hother
  | still hcell hpc =>
    rw [hpc] at hother
    exact hold hother
  | work thread worked pc cell hcell hpc _ _ hreturned =>
    rw [hpc] at hother
    by_cases heq : other = thread
    · rw [heq, Function.update_self] at hother
      obtain ⟨rfl, hcellFinal⟩ := hreturned page hother
      rw [hcell, Function.update_self]
      exact .inl hcellFinal
    · rw [Function.update_of_ne heq] at hother
      exact hold hother

end

/-- What holds of a page in every state. -/
theorem Image.Holds.spec (h : image.Holds page stage cell) :
    (cell.fills = [] ∨ image.Loadable page ∧ cell.fills = [image.expected page]) ∧
    (cell.frees = 0 ∨ cell.data = none ∧ cell.fills ≠ [] ∧ cell.frees = image.buffers page) ∧
    (isFinal cell.state = true → cell.data = none ∧ (cell.fills ≠ [] → cell.frees = image.buffers page)) ∧
    (cell.state = .Filled → cell.fills ≠ []) := by
  rcases stage with - | stage
  · obtain ⟨-, rfl⟩ | ⟨-, rfl⟩ | ⟨hloadable, rfl⟩ | ⟨hloadable, rfl⟩ | rfl := h
    · simp [isFinal]
    · simp [isFinal]
    · simp [hloadable]
    · simp [hloadable]
    · simp
  · cases stage with
    | pread =>
      obtain ⟨-, rfl⟩ := h
      simp [isFinal]
    | publish =>
      obtain ⟨-, -, rfl⟩ := h
      simp [isFinal]
    | storeRead =>
      obtain ⟨-, -, rfl⟩ := h
      simp [isFinal]
    | fill =>
      obtain ⟨-, rfl⟩ := h
      simp [isFinal]
    | free =>
      obtain ⟨hloadable, rfl⟩ := h
      simp [isFinal, hloadable]
    | storeFill =>
      obtain ⟨hloadable, rfl⟩ := h
      simp [isFinal, hloadable]

/-- In every interleaving: `fillPage` is called once at most for a page, and with its contents, or with
null for a page of zeros; a buffer is freed once at most, not while `data` points to it, and exactly once
when the page has been filled; states only go along the transitions; and unless nothing is to be loaded,
`loadRamPage` returns when its page is filled or has failed. -/
theorem pages_filled_once (labels : List (Label image Vm)) (state : State image Vm)
    (hrun : run step State.new labels = some state) :
    (∀ page, (state.cell page).fills.length ≤ 1 ∧
      (∀ data ∈ (state.cell page).fills,
        if image.sizeOnDisk page = 0 then data = none else data.isSome ∧ data = image.contents page) ∧
      (state.cell page).frees ≤ 1 ∧ ((state.cell page).data.isSome → (state.cell page).frees = 0) ∧
      (isFinal (state.cell page).state = true → (state.cell page).data = none ∧
        ((state.cell page).fills ≠ [] → image.sizeOnDisk page ≠ 0 → (state.cell page).frees = 1)) ∧
      ((state.cell page).state = .Filled → (state.cell page).fills ≠ [])) ∧
    (∀ label next, step label state = some next → ∀ page,
      (next.cell page).state = (state.cell page).state ∨
        Edge (state.cell page).state (next.cell page).state) ∧
    (image.loadsNothing = false → ∀ vm page, state.pc (.vm vm) = .returned page →
      (state.cell page).state = .Filled ∨ (state.cell page).state = .Error) := by
  have h : state.Sound := invariant_of_run
    (fun _ _ _ hsound hstep ↦ (step_effect hsound hstep).sound hsound) State.sound_new hrun
  refine ⟨fun page ↦ ?_, fun label next hstep page ↦ (step_effect h hstep).edge h page, ?_⟩
  · obtain ⟨stage, hholds⟩ := h.exists_holds page
    obtain ⟨hfills, hfrees, hfinal, hfilled⟩ := hholds.spec
    have hone : image.buffers page ≤ 1 := by
      unfold Image.buffers
      split_ifs <;> decide
    refine ⟨?_, ?_, ?_, ?_, fun hdone ↦ ⟨(hfinal hdone).1, fun hcalled hsize ↦ ?_⟩, hfilled⟩
    · rcases hfills with hnone | ⟨_, hcalled⟩
      · simp [hnone]
      · simp [hcalled]
    · intro data hdata
      rcases hfills with hnone | ⟨hloadable, hcalled⟩
      · simp [hnone] at hdata
      · rw [hcalled, List.mem_singleton] at hdata
        subst hdata
        split_ifs with hzero
        · exact if_pos hzero
        · rw [image.expected_of_ne hzero]
          exact ⟨hloadable hzero, rfl⟩
    · rcases hfrees with hnone | ⟨_, _, hfreed⟩ <;> omega
    · intro hsome
      rcases hfrees with hnone | ⟨hnull, _⟩
      · exact hnone
      · rw [hnull] at hsome
        cases hsome
    · rw [(hfinal hdone).2 hcalled]
      exact if_neg hsize
  · intro hloads vm page hreturned
    rcases h.returned (.vm vm) page hreturned with hdone | hnothing
    · cases hstate : (state.cell page).state <;> rw [hstate] at hdone <;> simp_all [isFinal]
    · rw [hloads] at hnothing
      cases hnothing

end Invariant

/-- A page of zeros and one of two bytes. -/
def twoPages (flags : UInt32) (mIsQuickboot : Bool) : Image where
  file := [0, 0, 0, 0, 0, 0, 0, 0, 7, 9]
  pages := [⟨.Read, 0, 0, 0, .zero⟩, ⟨.Empty, 0, 2, 8, .zero⟩]
  flags := flags
  mVersion := 2
  mIsQuickboot := mIsQuickboot
  decompress _ := none

def second {flags : UInt32} {mIsQuickboot : Bool} : (twoPages flags mIsQuickboot).Page := ⟨1, Nat.one_lt_two⟩

/-- Two threads touch the second page at once: the first reads and fills it while the other waits. -/
def bothTouch : List (Label (twoPages 0 false) Bool) :=
  [.loadRamPage true second, .loadRamPage false second, .advance (.vm true) true, .advance (.vm false) true,
    .advance (.vm true) true, .advance (.vm true) true, .advance (.vm true) true,
    .advance (.vm false) true, .advance (.vm true) true, .advance (.vm false) true,
    .advance (.vm true) true, .advance (.vm true) true, .advance (.vm true) true,
    .advance (.vm false) true]

/-- The page that `loadRamPage` is about to return for. -/
def Pc.returnedPage {image : Image} : Pc image → Option image.Page
  | .returned page => some page
  | _ => none

theorem Pc.eq_of_returnedPage {image : Image} {pc : Pc image} {page : image.Page}
    (h : pc.returnedPage = some page) : pc = .returned page := by
  cases pc <;> simp_all [Pc.returnedPage]

theorem pages_filled_once_bothTouch :
    ∃ state, run step State.new bothTouch = some state ∧ (state.cell second).fills = [some [7, 9]] ∧
      (state.cell second).frees = 1 ∧ state.pc (.vm false) = .returned second ∧
      ((state.cell second).state = .Filled ∨ (state.cell second).state = .Error) := by
  have hfields : (run step State.new bothTouch).map (fun state ↦
      ((state.cell second).fills, (state.cell second).frees, (state.pc (.vm false)).returnedPage)) =
      some ([some [7, 9]], 1, some second) := by decide +kernel
  obtain ⟨state, hrun, hvalues⟩ := Option.map_eq_some_iff.mp hfields
  obtain ⟨hfills, hrest⟩ := Prod.mk.inj hvalues
  obtain ⟨hfrees, hreturned⟩ := Prod.mk.inj hrest
  have hpc := Pc.eq_of_returnedPage hreturned
  obtain ⟨_, _, hdone⟩ := pages_filled_once bothTouch state hrun
  exact ⟨state, hrun, hfills, hfrees, hpc, hdone (by decide) false second hpc⟩

/-- From separate storage nothing is loaded: `loadRamPage` returns and the page is still empty. -/
theorem returned_empty :
    ∃ state, run step State.new [(.loadRamPage () second : Label (twoPages 2 true) Unit)] = some state ∧
      state.pc (.vm ()) = .returned second ∧ (state.cell second).state = .Empty := by
  have hfields : (run step State.new [(.loadRamPage () second : Label (twoPages 2 true) Unit)]).map (fun state ↦
      ((state.pc (.vm ())).returnedPage, (state.cell second).state)) = some (some second, .Empty) := by decide +kernel
  obtain ⟨state, hrun, hvalues⟩ := Option.map_eq_some_iff.mp hfields
  obtain ⟨hreturned, hstate⟩ := Prod.mk.inj hvalues
  exact ⟨state, hrun, Pc.eq_of_returnedPage hreturned, hstate⟩

end FdeEmugl.PageFill
