import FdeEmugl.Library.Cyclic
import FdeEmugl.Library.Runs
import FdeEmugl.Render.ReadBuffer

/-!
# The write path of an IOStream

`alloc` hands out regions of one buffer, one behind the other. When the buffer is full it is given to
`commitBuffer`, and a buffer that is too small is replaced by a larger one. The channel keeps the
memory of its buffer and uses it again. The length of the new buffer goes through an `int`.
-/

namespace FdeEmugl.Render

open Cyclic Runs

/-! ## `ChannelStream` -/

structure HeapBlock where
  size : ℕ
  cells : ℕ → UInt8

structure ChannelStream where
  m_bufsize : ℕ
  m_buf : Option HeapBlock

/-- `malloc` says which sizes the allocator can serve. The result is null if there is no buffer. -/
def ChannelStream.allocBuffer (malloc : ℕ → Bool) (minSize : ℕ) (channel : ChannelStream) : ChannelStream :=
  let allocSize := if channel.m_bufsize < minSize then minSize else channel.m_bufsize
  match channel.m_buf with
  | none => { channel with m_buf := if malloc allocSize then some ⟨allocSize, fun _ ↦ 0⟩ else none }
  | some block =>
    if channel.m_bufsize < allocSize then
      if malloc allocSize then ⟨allocSize, some ⟨allocSize, block.cells⟩⟩ else ⟨0, none⟩
    else channel

/-! ## `IOStream` -/

/-- `m_buf` is null or the buffer of the channel. -/
structure IOStream where
  m_buf : Bool
  m_bufsize : ℕ
  m_free : ℕ
  channel : ChannelStream

namespace IOStream

def new (bufSize : ℕ) : IOStream where
  m_buf := false
  m_bufsize := bufSize
  m_free := 0
  channel := ⟨bufSize, none⟩

/-- The bytes of the buffer that a commit is told of. -/
def front (size : ℕ) (stream : IOStream) : List UInt8 :=
  stream.channel.m_buf.elim [] fun block ↦ segment block.cells 0 size

/-- Whether the flush succeeds, which depends on `commitBuffer`, and the bytes that this gets. -/
def flush (commits : Bool) (stream : IOStream) : Bool × IOStream × List UInt8 :=
  if stream.m_buf = false ∨ stream.m_free = stream.m_bufsize then (true, stream, [])
  else (commits, { stream with m_buf := false, m_free := 0 },
    stream.front (toSize (stream.m_bufsize - stream.m_free)))

/-- The length asked of `allocBuffer`. -/
def allocLen (len : ℕ) (stream : IOStream) : ℤ := toInt (if stream.m_bufsize < len then len else stream.m_bufsize : ℕ)

/-- The second step of `alloc`: whether there is a buffer that is large enough. -/
def ensure (malloc : ℕ → Bool) (len : ℕ) (stream : IOStream) : Bool × IOStream :=
  if stream.m_buf = false ∨ len > stream.m_bufsize then
    let channel := stream.channel.allocBuffer malloc (toSize (stream.allocLen len))
    if channel.m_buf.isNone then (false, { stream with m_buf := false, channel })
    else (true, ⟨true, toSize (stream.allocLen len), toSize (stream.allocLen len), channel⟩)
  else (true, stream)

/-- The place of the region in the buffer, or null, and the bytes that are committed before. -/
def alloc (malloc : ℕ → Bool) (commits : Bool) (len : ℕ) (stream : IOStream) :
    Option ℕ × IOStream × List UInt8 :=
  let (flushed, stream, passed) :=
    if stream.m_buf = true ∧ len > stream.m_free then stream.flush commits else (true, stream, [])
  if flushed = false then (none, stream, passed)
  else
    let (ready, stream) := stream.ensure malloc len
    if ready = false then (none, stream, passed)
    else (some (toSize (stream.m_bufsize - stream.m_free)),
      { stream with m_free := toSize (stream.m_free - len) }, passed)

/-- The caller fills its region. -/
def write (start : ℕ) (content : List UInt8) (stream : IOStream) : IOStream :=
  { stream with
    channel := { stream.channel with
      m_buf := stream.channel.m_buf.map fun block ↦
        { block with cells := copy block.cells start (fun index ↦ content.getD index 0) content.length } } }

end IOStream

open IOStream

/-! ## Runs -/

inductive StreamCall where
  /-- A region, the bytes that the caller writes into it, what `malloc` serves, and whether a commit
  succeeds. -/
  | alloc (content : List UInt8) (malloc : ℕ → Bool) (commits : Bool)
  | flush (commits : Bool)

structure Region where
  start : ℕ
  content : List UInt8

/-- A stream with what has happened to it: the regions handed out since the last flush, the contents of
all regions, and the bytes that `commitBuffer` has got. -/
structure StreamSession where
  stream : IOStream
  pending : List Region
  allocated : List (List UInt8)
  committed : List UInt8

namespace StreamSession

open IOStream

def start (bufSize : ℕ) : StreamSession := ⟨.new bufSize, [], [], []⟩

/-- The regions that are left when `alloc` has or has not flushed. -/
def pendingAt (len : ℕ) (s : StreamSession) : List Region :=
  if s.stream.m_buf = true ∧ len > s.stream.m_free then [] else s.pending

/-- Lengths are `size_t`s. -/
def step : StreamCall → StreamSession → Option StreamSession
  | .alloc content malloc commits, s =>
    if content.length < 2 ^ 64 then
      let (place, stream, passed) := s.stream.alloc malloc commits content.length
      match place with
      | none => some ⟨stream, s.pendingAt content.length, s.allocated, s.committed ++ passed⟩
      | some start => some ⟨stream.write start content, s.pendingAt content.length ++ [⟨start, content⟩],
          s.allocated ++ [content], s.committed ++ passed⟩
    else none
  | .flush commits, s =>
    let (_, stream, passed) := s.stream.flush commits
    some ⟨stream, [], s.allocated, s.committed ++ passed⟩

/-- The regions of the buffer are inside it, apart from each other and hold what their callers wrote; and
the commits have got all regions but those. -/
structure Correct (s : StreamSession) : Prop where
  inside : ∀ region ∈ s.pending, ∃ block ∈ s.stream.channel.m_buf,
    region.start + region.content.length ≤ block.size
  disjoint : s.pending.Pairwise fun region later ↦
    region.start + region.content.length ≤ later.start ∨ later.start + later.content.length ≤ region.start
  kept : ∀ region ∈ s.pending, ∀ block ∈ s.stream.channel.m_buf,
    segment block.cells region.start region.content.length = region.content
  passed : s.committed ++ s.pending.flatMap Region.content = s.allocated.flatten

/-- The condition on a call: a region that does not fit needs a buffer of less than 2^31 bytes, unless the
call fails before it or at getting it. -/
def Short : StreamCall → StreamSession → Prop
  | .alloc content malloc commits, s =>
    s.stream.m_buf = true ∧ content.length ≤ s.stream.m_free ∨
    max s.stream.m_bufsize content.length < 2 ^ 31 ∨
    s.stream.m_buf = true ∧ s.stream.m_free ≠ s.stream.m_bufsize ∧ commits = false ∨
    (s.stream.channel.allocBuffer malloc (toSize (s.stream.allocLen content.length))).m_buf = none
  | .flush _, _ => True

instance : ∀ call s, Decidable (Short call s)
  | .alloc content malloc commits, s => inferInstanceAs (Decidable
      (s.stream.m_buf = true ∧ content.length ≤ s.stream.m_free ∨ max s.stream.m_bufsize content.length < 2 ^ 31 ∨
        s.stream.m_buf = true ∧ s.stream.m_free ≠ s.stream.m_bufsize ∧ commits = false ∨
        (s.stream.channel.allocBuffer malloc (toSize (s.stream.allocLen content.length))).m_buf = none))
  | .flush _, _ => isTrue trivial

/-! ## Regions one behind the other -/

def regionsFrom (first : ℕ) : List (List UInt8) → List Region
  | [] => []
  | content :: contents => ⟨first, content⟩ :: regionsFrom (first + content.length) contents

variable {first : ℕ} {contents : List (List UInt8)} {region : Region}

variable {len : ℕ}

theorem regionsFrom_append (first : ℕ) (contents : List (List UInt8)) (content : List UInt8) :
    regionsFrom first (contents ++ [content]) =
      regionsFrom first contents ++ [⟨first + contents.flatten.length, content⟩] := by
  induction contents generalizing first with
  | nil => rfl
  | cons head contents ih => simp [regionsFrom, ih, Nat.add_assoc]

theorem flatMap_regionsFrom (first : ℕ) (contents : List (List UInt8)) :
    (regionsFrom first contents).flatMap Region.content = contents.flatten := by
  induction contents generalizing first with
  | nil => rfl
  | cons head contents ih => simp [regionsFrom, ih]

theorem bounds_of_mem (h : region ∈ regionsFrom first contents) :
    first ≤ region.start ∧ region.start + region.content.length ≤ first + contents.flatten.length := by
  induction contents generalizing first with
  | nil => cases h
  | cons head contents ih =>
    rw [List.flatten_cons, List.length_append]
    rcases List.mem_cons.mp h with rfl | h
    · dsimp only
      omega
    · have hlater := ih h
      omega

theorem pairwise_regionsFrom (first : ℕ) (contents : List (List UInt8)) :
    (regionsFrom first contents).Pairwise fun region later ↦
      region.start + region.content.length ≤ later.start ∨ later.start + later.content.length ≤ region.start := by
  induction contents generalizing first with
  | nil => exact .nil
  | cons head contents ih => exact .cons (fun later hlater ↦ .inl (bounds_of_mem hlater).1) (ih _)

/-- If the cells hold the contents in a row, each region holds its own. -/
theorem kept_of_mem {cells : ℕ → UInt8} (h : region ∈ regionsFrom first contents)
    (hcells : segment cells first contents.flatten.length = contents.flatten) :
    segment cells region.start region.content.length = region.content := by
  induction contents generalizing first with
  | nil => cases h
  | cons head contents ih =>
    rw [List.flatten_cons, List.length_append, segment_add] at hcells
    obtain ⟨hhead, hrest⟩ := List.append_inj hcells (length_segment _ _ _)
    rcases List.mem_cons.mp h with rfl | h
    · exact hhead
    · exact ih h hrest

/-! ## The steps of a call -/

/-- The pending regions fill the front of the buffer. -/
structure Fills (stream : IOStream) (pending : List Region) (block : HeapBlock)
    (contents : List (List UInt8)) : Prop where
  block_eq : stream.channel.m_buf = some block
  size_le : stream.m_bufsize ≤ block.size
  size_lt : stream.m_bufsize < 2 ^ 31
  used : contents.flatten.length + stream.m_free = stream.m_bufsize
  pending_eq : pending = regionsFrom 0 contents
  cells_eq : segment block.cells 0 contents.flatten.length = contents.flatten

structure Held (s : StreamSession) : Prop where
  passed : s.committed ++ s.pending.flatMap Region.content = s.allocated.flatten
  channel_le : ∀ block ∈ s.stream.channel.m_buf, s.stream.channel.m_bufsize ≤ block.size
  without : s.stream.m_buf = false → s.pending = []
  fills : s.stream.m_buf = true → ∃ block contents, Fills s.stream s.pending block contents

variable {s next : StreamSession} {stream : IOStream} {pending : List Region} {block : HeapBlock}
variable {content : List UInt8} {malloc : ℕ → Bool} {commits : Bool}

theorem Held.correct (h : s.Held) : s.Correct := by
  cases hbuf : s.stream.m_buf with
  | false =>
    have hnone := h.without hbuf
    exact ⟨by simp [hnone], by simp [hnone], by simp [hnone], h.passed⟩
  | true =>
    obtain ⟨block, contents, hfills⟩ := h.fills hbuf
    have hused := hfills.used
    have hsize := hfills.size_le
    refine ⟨fun region hregion ↦ ⟨block, hfills.block_eq, ?_⟩, ?_, fun region hregion other hother ↦ ?_, h.passed⟩
    · rw [hfills.pending_eq] at hregion
      have hbounds := bounds_of_mem hregion
      omega
    · rw [hfills.pending_eq]
      exact pairwise_regionsFrom 0 contents
    · rw [hfills.block_eq] at hother
      obtain rfl := Option.mem_some_iff.mp hother
      rw [hfills.pending_eq] at hregion
      exact kept_of_mem hregion hfills.cells_eq

theorem held_start (bufSize : ℕ) : (start bufSize).Held where
  passed := rfl
  channel_le := by simp [start, IOStream.new]
  without _ := rfl
  fills := by simp [start, IOStream.new]

/-- The state after a flush. -/
def flushed (commits : Bool) (s : StreamSession) : StreamSession :=
  ⟨(s.stream.flush commits).2.1, [], s.allocated, s.committed ++ (s.stream.flush commits).2.2⟩

theorem held_flushed (h : s.Held) (commits : Bool) : (s.flushed commits).Held := by
  unfold flushed IOStream.flush
  by_cases hnothing : s.stream.m_buf = false ∨ s.stream.m_free = s.stream.m_bufsize
  · rw [if_pos hnothing]
    have hempty : s.pending.flatMap Region.content = [] := by
      rcases hnothing with hbuf | hfree
      · rw [h.without hbuf, List.flatMap_nil]
      · cases hbuf : s.stream.m_buf with
        | false => rw [h.without hbuf, List.flatMap_nil]
        | true =>
          obtain ⟨block, contents, hfills⟩ := h.fills hbuf
          have hused := hfills.used
          rw [hfills.pending_eq, flatMap_regionsFrom, ← List.length_eq_zero_iff]
          omega
    refine ⟨?_, h.channel_le, fun _ ↦ rfl, fun hbuf ↦ ?_⟩
    · have hpassed := h.passed
      rw [hempty] at hpassed
      simpa using hpassed
    · obtain ⟨block, contents, hfills⟩ := h.fills hbuf
      have hfree := hnothing.resolve_left (by rw [hbuf]; decide)
      exact ⟨block, [], hfills.block_eq, hfills.size_le, hfills.size_lt, by simpa using hfree, rfl, rfl⟩
  · rw [if_neg hnothing]
    obtain ⟨hbuf, hfree⟩ := not_or.mp hnothing
    obtain ⟨block, contents, hfills⟩ := h.fills (by simpa using hbuf)
    have hused := hfills.used
    have hsmall := hfills.size_lt
    have hsize : toSize (s.stream.m_bufsize - s.stream.m_free) = contents.flatten.length := by
      have hsize := toSize_of_nonneg (s.stream.m_bufsize - s.stream.m_free) (by omega) (by omega)
      omega
    refine ⟨?_, h.channel_le, fun _ ↦ rfl, fun hbuf ↦ nomatch hbuf⟩
    have hpassed := h.passed
    rw [hfills.pending_eq, flatMap_regionsFrom] at hpassed
    simp only [front, hfills.block_eq, Option.elim_some, hsize, hfills.cells_eq,
      List.flatMap_nil, List.append_nil, hpassed]

/-- After a flush the buffer, if it is still there, is all free. -/
theorem free_of_flushed (commits : Bool) (s : StreamSession) (h : (s.flushed commits).stream.m_buf = true) :
    (s.flushed commits).stream.m_free = (s.flushed commits).stream.m_bufsize ∧
      (s.flushed commits).stream = s.stream := by
  unfold flushed IOStream.flush at h ⊢
  split_ifs at h ⊢ with hnothing
  exact ⟨hnothing.resolve_left (by dsimp only at h; rw [h]; decide), rfl⟩

/-- A region behind those that are pending. -/
theorem fills_write (hfills : Fills stream pending block contents) (hroom : content.length ≤ stream.m_free) :
    ∃ block', Fills (write (toSize (stream.m_bufsize - stream.m_free)) content
        { stream with m_free := toSize (stream.m_free - content.length) })
      (pending ++ [⟨toSize (stream.m_bufsize - stream.m_free), content⟩]) block' (contents ++ [content]) := by
  have hused := hfills.used
  have hsmall := hfills.size_lt
  have hstart := toSize_of_nonneg (stream.m_bufsize - stream.m_free) (by omega) (by omega)
  have hplace : toSize (stream.m_bufsize - stream.m_free) = contents.flatten.length := by omega
  have hfree := toSize_of_nonneg (stream.m_free - content.length) (by omega) (by omega)
  refine ⟨⟨block.size, copy block.cells contents.flatten.length (fun index ↦ content.getD index 0) content.length⟩,
    ?_, hfills.size_le, hsmall, ?_, ?_, ?_⟩
  · simp only [write, hfills.block_eq, hplace, Option.map_some]
  · simp only [write, List.flatten_append, List.length_append, List.flatten_cons, List.flatten_nil,
      List.append_nil]
    omega
  · rw [hfills.pending_eq, regionsFrom_append, hplace, Nat.zero_add]
  · have hcells := segment_copy_behind block.cells 0 contents.flatten.length content 0
    rw [Nat.zero_add, hfills.cells_eq] at hcells
    simpa using hcells

/-- A buffer from the channel is at least as large as asked for. -/
theorem size_of_allocBuffer {channel : ChannelStream} {minSize : ℕ}
    (hold : ∀ block ∈ channel.m_buf, channel.m_bufsize ≤ block.size)
    (h : (channel.allocBuffer malloc minSize).m_buf = some block) :
    minSize ≤ block.size ∧ (channel.allocBuffer malloc minSize).m_bufsize ≤ block.size := by
  unfold ChannelStream.allocBuffer at h ⊢
  cases hbuf : channel.m_buf with
  | none =>
    simp only [hbuf] at h ⊢
    split_ifs at h <;> obtain rfl := Option.some.inj h <;> dsimp only <;> omega
  | some old =>
    have hsize := hold old hbuf
    simp only [hbuf] at h ⊢
    split_ifs at h ⊢
    · cases h
      exact ⟨le_rfl, le_rfl⟩
    · omega
    · rw [hbuf] at h
      cases h
      omega

/-- The second half of `alloc`: a region of the buffer, which the caller fills. -/
def handOut (malloc : ℕ → Bool) (content : List UInt8) (s : StreamSession) : StreamSession :=
  let (ready, stream) := s.stream.ensure malloc content.length
  if ready = false then { s with stream }
  else
    ⟨write (toSize (stream.m_bufsize - stream.m_free)) content
        { stream with m_free := toSize (stream.m_free - content.length) },
      s.pending ++ [⟨toSize (stream.m_bufsize - stream.m_free), content⟩], s.allocated ++ [content], s.committed⟩

theorem step_alloc (h : step (.alloc content malloc commits) s = some next) : next =
      if s.stream.m_buf = true ∧ content.length > s.stream.m_free then
        if (s.stream.flush commits).1 = false then s.flushed commits
        else (s.flushed commits).handOut malloc content
      else s.handOut malloc content := by
  simp only [step] at h
  split_ifs at h
  simp only [IOStream.alloc, pendingAt] at h
  unfold handOut flushed
  split_ifs at h ⊢ <;> simp_all

/-- The buffer is filled from the front. -/
theorem held_write {stream : IOStream} {contents : List (List UInt8)} (h : s.Held)
    (hbuf : stream.m_buf = true) (hchannel : stream.channel.m_bufsize ≤ block.size)
    (hfills : Fills stream s.pending block contents) (hroom : content.length ≤ stream.m_free) :
    Held ⟨write (toSize (stream.m_bufsize - stream.m_free)) content
        { stream with m_free := toSize (stream.m_free - content.length) },
      s.pending ++ [⟨toSize (stream.m_bufsize - stream.m_free), content⟩], s.allocated ++ [content],
      s.committed⟩ where
  passed := by
    have hpassed := h.passed
    simp only [List.flatMap_append, List.flatMap_cons, List.flatMap_nil, List.append_nil,
      List.flatten_append, List.flatten_cons, List.flatten_nil]
    rw [← List.append_assoc, hpassed]
  channel_le := by
    simpa [write, hfills.block_eq] using hchannel
  without hnone := by
    rw [write, hbuf] at hnone
    cases hnone
  fills _ := by
    obtain ⟨block', hfills'⟩ := fills_write hfills hroom
    exact ⟨block', _, hfills'⟩

theorem handOut_of_ready (h : s.stream.ensure malloc content.length = (true, stream)) : s.handOut malloc content =
      ⟨write (toSize (stream.m_bufsize - stream.m_free)) content
          { stream with m_free := toSize (stream.m_free - content.length) },
        s.pending ++ [⟨toSize (stream.m_bufsize - stream.m_free), content⟩], s.allocated ++ [content],
        s.committed⟩ := by
  simp only [handOut, h]
  rfl

theorem handOut_of_not_ready (h : s.stream.ensure malloc content.length = (false, stream)) :
    s.handOut malloc content = { s with stream } := by
  simp only [handOut, h]
  rfl

theorem ensure_of_got (hnew : stream.m_buf = false ∨ len > stream.m_bufsize)
    (hgot : (stream.channel.allocBuffer malloc (toSize (stream.allocLen len))).m_buf = some block) :
    stream.ensure malloc len = (true, ⟨true, toSize (stream.allocLen len), toSize (stream.allocLen len),
      stream.channel.allocBuffer malloc (toSize (stream.allocLen len))⟩) := by
  simp [ensure, if_pos hnew, hgot]

theorem ensure_of_none (hnew : stream.m_buf = false ∨ len > stream.m_bufsize)
    (hgot : (stream.channel.allocBuffer malloc (toSize (stream.allocLen len))).m_buf = none) :
    stream.ensure malloc len = (false, { stream with
      m_buf := false
      channel := stream.channel.allocBuffer malloc (toSize (stream.allocLen len)) }) := by
  simp [ensure, if_pos hnew, hgot]

/-- Small lengths are not changed on their way to `allocBuffer`. -/
theorem toSize_allocLen (h : max stream.m_bufsize len < 2 ^ 31) :
    toSize (stream.allocLen len) = max stream.m_bufsize len := by
  have hlen : (if stream.m_bufsize < len then len else stream.m_bufsize) = max stream.m_bufsize len := by
    split_ifs <;> omega
  have hint := toInt_of_small (max stream.m_bufsize len : ℕ) (by omega) (by omega)
  have hsize := toSize_of_nonneg (max stream.m_bufsize len : ℕ) (by omega) (by omega)
  unfold allocLen
  rw [hlen, hint]
  omega

/-- A region in a new buffer. -/
theorem held_handOut_new (h : s.Held) (hpending : s.pending = [])
    (hnew : s.stream.m_buf = false ∨ content.length > s.stream.m_bufsize)
    (hshort : max s.stream.m_bufsize content.length < 2 ^ 31 ∨
      (s.stream.channel.allocBuffer malloc (toSize (s.stream.allocLen content.length))).m_buf = none) :
    (s.handOut malloc content).Held := by
  cases hgot : (s.stream.channel.allocBuffer malloc (toSize (s.stream.allocLen content.length))).m_buf with
  | none =>
    rw [handOut_of_not_ready (ensure_of_none hnew hgot)]
    exact ⟨h.passed, by simp [hgot], fun _ ↦ hpending, fun hbuf ↦ nomatch hbuf⟩
  | some block =>
    have hsmall := hshort.resolve_right (by rw [hgot]; nofun)
    have hlen := toSize_allocLen hsmall
    obtain ⟨hsize, hchannel⟩ := size_of_allocBuffer h.channel_le hgot
    rw [handOut_of_ready (ensure_of_got hnew hgot)]
    have hfills : Fills ⟨true, toSize (s.stream.allocLen content.length), toSize (s.stream.allocLen content.length),
        s.stream.channel.allocBuffer malloc (toSize (s.stream.allocLen content.length))⟩ s.pending block [] :=
      ⟨hgot, hsize, by dsimp only; omega, Nat.zero_add _, hpending, rfl⟩
    exact held_write h rfl hchannel hfills (by dsimp only; omega)

theorem held_handOut (h : s.Held) (hroom : s.stream.m_buf = true →
      content.length ≤ s.stream.m_free ∨ s.pending = [] ∧ s.stream.m_free = s.stream.m_bufsize)
    (hshort : s.stream.m_buf = true ∧ content.length ≤ s.stream.m_bufsize ∨
      max s.stream.m_bufsize content.length < 2 ^ 31 ∨
      (s.stream.channel.allocBuffer malloc (toSize (s.stream.allocLen content.length))).m_buf = none) :
    (s.handOut malloc content).Held := by
  cases hbuf : s.stream.m_buf with
  | false =>
    exact held_handOut_new h (h.without hbuf) (.inl hbuf) (hshort.resolve_left fun hfits ↦ by simp [hbuf] at hfits)
  | true =>
    obtain ⟨block, contents, hfills⟩ := h.fills hbuf
    have hused := hfills.used
    by_cases hfits : content.length ≤ s.stream.m_bufsize
    · have hkeep : s.stream.ensure malloc content.length = (true, s.stream) := by
        simp [ensure, hbuf, hfits]
      rw [handOut_of_ready hkeep]
      refine held_write h hbuf (h.channel_le block hfills.block_eq) hfills ?_
      rcases hroom hbuf with hle | ⟨-, hfree⟩
      · exact hle
      · omega
    · refine held_handOut_new h ?_ (.inr (by omega)) (hshort.resolve_left fun hall ↦ hfits hall.2)
      exact ((hroom hbuf).resolve_left (by omega)).1

theorem flush_frame (commits : Bool) (stream : IOStream) : (stream.flush commits).2.1.m_bufsize = stream.m_bufsize ∧
      (stream.flush commits).2.1.channel = stream.channel := by
  unfold IOStream.flush
  split_ifs <;> exact ⟨rfl, rfl⟩

theorem held_step {call : StreamCall} (h : s.Held) (hshort : Short call s) (hstep : step call s = some next) :
    next.Held := by
  cases call with
  | flush commits =>
    cases hstep
    exact held_flushed h commits
  | alloc content malloc commits =>
    rw [step_alloc hstep]
    have hflushed := held_flushed h commits
    obtain ⟨hbufsize, hchannel⟩ := flush_frame commits s.stream
    by_cases hfull : s.stream.m_buf = true ∧ content.length > s.stream.m_free
    · rw [if_pos hfull]
      split_ifs with hfailed
      · exact hflushed
      refine held_handOut hflushed (fun hbuf ↦ .inr ⟨rfl, (free_of_flushed commits s hbuf).1⟩) (.inr ?_)
      rcases hshort with ⟨-, hle⟩ | hsmall | ⟨hbuf, hfree, rfl⟩ | hnone
      · omega
      · exact .inl (by simpa [flushed, hbufsize] using hsmall)
      · exact absurd (by simp [IOStream.flush, hbuf, hfree]) hfailed
      · exact .inr (by simpa [flushed, hchannel, allocLen, hbufsize] using hnone)
    · rw [if_neg hfull]
      have hfits (hbuf : s.stream.m_buf = true) : content.length ≤ s.stream.m_free := by
        have hle := not_and.mp hfull hbuf
        omega
      refine held_handOut h (fun hbuf ↦ .inl (hfits hbuf)) ?_
      cases hbuf : s.stream.m_buf with
      | false =>
        simp only [Short, hbuf, Bool.false_eq_true, false_and, false_or] at hshort
        exact .inr hshort
      | true =>
        obtain ⟨block, contents, hfills⟩ := h.fills hbuf
        have hused := hfills.used
        have hle := hfits hbuf
        exact .inl ⟨rfl, by omega⟩

/-- Whatever the allocator and the commits do, the write path keeps its promises as long as every buffer
that is needed is shorter than 2^31 bytes. -/
theorem correct_of_short (bufSize : ℕ) {calls : List StreamCall} {last : StreamSession}
    (hshort : Guarded step Short (start bufSize) calls) (hrun : run step (start bufSize) calls = some last) :
    last.Correct :=
  (invariant_of_guarded Held (fun _ _ _ h hcall hstep ↦ held_step h hcall hstep) (held_start bufSize) hshort
    hrun).correct

theorem alloc_truncated : (IOStream.new 16).alloc (fun _ ↦ true) true (2 ^ 32 + 8) =
      (some 0, ⟨true, 8, 2 ^ 64 - 2 ^ 32, ⟨16, some ⟨16, fun _ ↦ 0⟩⟩⟩, []) := by
  rfl

/-- The length 2^32 + 8 becomes 8, and the region goes on behind the end of a buffer of 16 bytes. -/
theorem truncated_alloc :
    ∃ last, run step (start 16) [.alloc (List.replicate (2 ^ 32 + 8) 0) (fun _ ↦ true) true] = some last ∧
      (last.pending.map fun region ↦ (region.start, region.content.length)) = [(0, 2 ^ 32 + 8)] ∧
      (last.stream.channel.m_buf.map HeapBlock.size) = some 16 ∧ ¬ last.Correct := by
  have hlength : (List.replicate (2 ^ 32 + 8) (0 : UInt8)).length = 2 ^ 32 + 8 := List.length_replicate
  generalize List.replicate (2 ^ 32 + 8) (0 : UInt8) = content at hlength ⊢
  have hstream : (start 16).stream = .new 16 := rfl
  have hstep : step (.alloc content (fun _ ↦ true) true) (start 16) =
      some ⟨IOStream.write 0 content ⟨true, 8, 2 ^ 64 - 2 ^ 32, ⟨16, some ⟨16, fun _ ↦ 0⟩⟩⟩,
        [⟨0, content⟩], [content], []⟩ := by
    simp only [step, hlength, hstream, alloc_truncated]
    rfl
  refine ⟨_, by rw [run_cons, hstep, Option.bind_some, run_nil], by simp [hlength], rfl, fun hcorrect ↦ ?_⟩
  obtain ⟨block, hblock, hinside⟩ := hcorrect.inside _ (.head _)
  obtain rfl := Option.mem_some_iff.mp hblock
  simp only [hlength] at hinside
  omega

/-- Two regions that fit, one that does not, one that needs a larger buffer, and a flush. -/
def mixedCalls : List StreamCall :=
  [.alloc [1, 2, 3] (fun _ ↦ true) true, .alloc [4, 5] (fun _ ↦ true) true, .alloc [6, 7, 8, 9] (fun _ ↦ true) true,
    .alloc (List.replicate 20 10) (fun _ ↦ true) true, .flush true]

theorem correct_mixedCalls :
    ∃ last, run step (start 8) mixedCalls = some last ∧
      last.committed = [1, 2, 3, 4, 5, 6, 7, 8, 9] ++ List.replicate 20 10 ∧ last.Correct := by
  have hrun : (run step (start 8) mixedCalls).map StreamSession.committed =
      some ([1, 2, 3, 4, 5, 6, 7, 8, 9] ++ List.replicate 20 10) := by
    decide +kernel
  obtain ⟨last, hlast, hcommitted⟩ := Option.map_eq_some_iff.mp hrun
  exact ⟨last, hlast, hcommitted, correct_of_short 8 (by decide +kernel) hlast⟩

end StreamSession

end FdeEmugl.Render
