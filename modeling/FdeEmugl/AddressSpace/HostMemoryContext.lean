import FdeEmugl.AddressSpace.MemoryMappings
import FdeEmugl.Base.Stream

/-!
# The life of a host memory allocator context

A context remembers the buffers it has allocated and mapped for the guest. A request can be refused by the
device, and the buffer is given back then; everything that was accepted is taken back by `unallocate` or by
`clear`, which `load` and the destructor call.

`clear` takes everything back and leaves it in the map. The destructor drops the map afterwards, but `load` goes
on with it, and whatever was in it is taken back a second time.
-/

namespace FdeEmugl.HostMemory

open Runs Mappings FdeEmugl.Stream
open Option (bind_eq_some_iff bind_some map_eq_some_iff map_some some_ne_none)
open Function (update_apply update_of_ne update_self)
open List (forall_mem_cons mem_map)

/-- What the heap and the device answer. Buffers are numbered in the order of the requests for them. -/
structure Host where
  /-- whether a request gets a buffer -/
  gives : ℕ → Bool
  /-- whether the mapping of a buffer is accepted -/
  accepts : ℕ → Bool
  /-- whether removing a mapping that is not there succeeds -/
  missing : UInt64 → Bool
  /-- the bytes of a buffer nobody has written to -/
  fresh : ℕ → ℕ → UInt8

inductive Call where
  | allocated (ptr : ℕ)
  | added (phys_addr : UInt64) (ptr : ℕ) (size : UInt64)
  | removed (phys_addr : UInt64) (ptr : ℕ) (size : UInt64)
  | freed (ptr : ℕ)
  deriving DecidableEq

def Call.buffer : Call → ℕ
  | .allocated ptr | .added _ ptr _ | .removed _ ptr _ | .freed ptr => ptr

/-- The map of the context, what is mapped on the device, the heap, and the calls that were made so far. -/
structure Context where
  m_paddr2ptr : UInt64 → Option (ℕ × UInt64)
  mapped : UInt64 → Bool
  memory : ℕ → ℕ → UInt8
  buffers : ℕ
  log : List Call

/-- The entries of the map in the order in which its iterators go through them. -/
abbrev Order := List (UInt64 × ℕ × UInt64)

namespace Context

def new : Context := ⟨fun _ ↦ none, fun _ ↦ false, fun _ _ ↦ 0, 0, []⟩

def aligned_buf_alloc (host : Host) (context : Context) : Option ℕ × Context :=
  let ptr := context.buffers
  if host.gives ptr then
    (some ptr, { context with
      memory := Function.update context.memory ptr (host.fresh ptr)
      buffers := ptr + 1
      log := context.log ++ [.allocated ptr] })
  else (none, { context with buffers := ptr + 1 })

def aligned_buf_free (ptr : ℕ) (context : Context) : Context := { context with log := context.log ++ [.freed ptr] }

def add_memory_mapping (host : Host) (phys_addr : UInt64) (ptr : ℕ) (size : UInt64) (context : Context) :
    Bool × Context :=
  if host.accepts ptr then
    (true, { context with
      mapped := Function.update context.mapped phys_addr true
      log := context.log ++ [.added phys_addr ptr size] })
  else (false, context)

/-- Without a result, the device has not removed the mapping and `crashhandler_die` is called. -/
def remove_memory_mapping (host : Host) (phys_addr : UInt64) (ptr : ℕ) (size : UInt64) (context : Context) :
    Option Context :=
  if context.mapped phys_addr || host.missing phys_addr then
    some { context with
      mapped := Function.update context.mapped phys_addr false
      log := context.log ++ [.removed phys_addr ptr size] }
  else none

def allocate_impl (host : Host) (phys_addr size : UInt64) (context : Context) : Option ℕ × Context :=
  let aligned_size := alignedSize size
  match context.aligned_buf_alloc host with
  | (none, context) => (none, context)
  | (some host_ptr, context) =>
    if (context.m_paddr2ptr phys_addr).isSome then (none, context.aligned_buf_free host_ptr)
    else
      match context.add_memory_mapping host phys_addr host_ptr aligned_size with
      | (true, context) =>
        (some host_ptr, { context with
          m_paddr2ptr := Function.update context.m_paddr2ptr phys_addr (some (host_ptr, aligned_size)) })
      -- the entry was there during the call only
      | (false, context) => (none, context.aligned_buf_free host_ptr)

def allocate (host : Host) (phys_addr size : UInt64) (context : Context) : UInt64 × Context :=
  let (host_ptr, context) := context.allocate_impl host phys_addr size
  (if host_ptr.isSome then 0 else -1, context)

def unallocate (host : Host) (phys_addr : UInt64) (context : Context) : Option (UInt64 × Context) :=
  match context.m_paddr2ptr phys_addr with
  | some (host_ptr, size) =>
    (context.remove_memory_mapping host phys_addr host_ptr size).map fun context ↦
      (0, { context.aligned_buf_free host_ptr with
        m_paddr2ptr := Function.update context.m_paddr2ptr phys_addr none })
  | none => some (-1, context)

/-- The map stays as it is. -/
def clear (host : Host) : Order → Context → Option Context
  | [], context => some context
  | (phys_addr, host_ptr, size) :: order, context =>
    (context.remove_memory_mapping host phys_addr host_ptr size).bind fun context ↦
      clear host order (context.aligned_buf_free host_ptr)

/-- The bytes of a buffer. -/
def bytes (context : Context) (ptr : ℕ) (size : UInt64) : List UInt8 :=
  (List.range size.toNat).map (context.memory ptr)

def putEntry (phys_addr size : UInt64) (mem : List UInt8) : List UInt8 := putBe64 phys_addr ++ putBe64 size ++ mem

def save (order : Order) (context : Context) : List UInt8 :=
  putBe32 (.ofNat order.length) ++ order.flatMap fun entry ↦
    putEntry entry.1 entry.2.2 (context.bytes entry.2.1 entry.2.2)

def store (ptr : ℕ) (mem : List UInt8) (context : Context) : Context :=
  { context with
    memory := Function.update context.memory ptr fun index ↦ mem.getD index (context.memory ptr index) }

/-- The loop of `load`. Without a result, more bytes were read than the buffer has room for. -/
def loadEntries (host : Host) : ℕ → List UInt8 → Context → Option (Bool × Context)
  | 0, _, context => some (true, context)
  | count + 1, stream, context =>
    let (phys_addr, stream) := getBe64 stream
    let (size, stream) := getBe64 stream
    match context.allocate_impl host phys_addr size with
    | (none, context) => some (false, context)
    | (some ptr, context) =>
      let (mem, stream) := read size.toNat stream
      if (alignedSize size).toNat < mem.length then none
      else if mem.length = size.toNat then loadEntries host count stream (context.store ptr mem)
      else some (false, context.store ptr mem)

def load (host : Host) (order : Order) (stream : List UInt8) (context : Context) : Option (Bool × Context) :=
  (context.clear host order).bind fun context ↦
    let (size, stream) := getBe32 stream
    context.loadEntries host size.toNat stream

/-- The destructor, and a new context on the same device. -/
def reopen (host : Host) (order : Order) (context : Context) : Option Context :=
  (context.clear host order).map fun context ↦ { context with m_paddr2ptr := fun _ ↦ none }

/-- What users of a context see: the size and the bytes at an address. -/
def contents (context : Context) (phys_addr : UInt64) : Option (UInt64 × List UInt8) :=
  (context.m_paddr2ptr phys_addr).map fun entry ↦ (entry.2, context.bytes entry.1 entry.2)

end Context

/-- A file with what it was saved from. -/
structure Snapshot where
  file : List UInt8
  order : Order
  saved : Context

structure Machine where
  now : Context
  snapshots : List Snapshot

inductive Event where
  | allocate (phys_addr size : UInt64)
  | unallocate (phys_addr : UInt64)
  /-- the guest, or the host, writes to a buffer -/
  | write (ptr : ℕ) (values : ℕ → UInt8)
  | save (order : Order)
  | load (order : Order) (snapshot : ℕ)
  | reopen (order : Order)

namespace Machine

def new : Machine := ⟨.new, []⟩

def step (host : Host) : Event → Machine → Option Machine
  | .allocate phys_addr size, machine =>
    some { machine with now := (machine.now.allocate host phys_addr size).2 }
  | .unallocate phys_addr, machine =>
    (machine.now.unallocate host phys_addr).map fun result ↦ { machine with now := result.2 }
  | .write ptr values, machine =>
    some { machine with now := { machine.now with memory := Function.update machine.now.memory ptr values } }
  | .save order, machine =>
    some { machine with snapshots := machine.snapshots ++ [⟨machine.now.save order, order, machine.now⟩] }
  | .load order index, machine =>
    machine.snapshots[index]?.bind fun snapshot ↦
      (machine.now.load host order snapshot.file).map fun result ↦ { machine with now := result.2 }
  | .reopen order, machine =>
    (machine.now.reopen host order).map fun now ↦ { machine with now := now }

end Machine

/-- Everything was taken back once, as it was given. -/
structure Balanced (log : List Call) : Prop where
  freed : ∀ ptr, log.count (.freed ptr) = log.count (.allocated ptr)
  removed : ∀ phys_addr ptr size, log.count (.removed phys_addr ptr size) = log.count (.added phys_addr ptr size)
  once : ∀ call, log.count call ≤ 1

/-! ## The calls for one buffer -/

def history (ptr : ℕ) (log : List Call) : List Call := log.filter fun call ↦ call.buffer = ptr

section History

variable {ptr : ℕ} {log calls : List Call}

theorem history_append_self (h : ∀ call ∈ calls, call.buffer = ptr) :
    history ptr (log ++ calls) = history ptr log ++ calls := by
  rw [history, List.filter_append, List.filter_eq_self.mpr fun call hcall ↦ decide_eq_true (h call hcall)]
  rfl

theorem history_append_other (h : ∀ call ∈ calls, call.buffer ≠ ptr) :
    history ptr (log ++ calls) = history ptr log := by
  have hnone : calls.filter (fun call ↦ call.buffer = ptr) = [] :=
    List.filter_eq_nil_iff.mpr fun call hcall ↦ by simpa using h call hcall
  rw [history, List.filter_append, hnone, List.append_nil]
  rfl

theorem count_history (call : Call) : (history call.buffer log).count call = log.count call :=
  List.count_filter (decide_eq_true rfl)

/-- The calls for a buffer that nobody holds: none at all, a mapping that was refused, or one that was taken
back. -/
inductive Settled (ptr : ℕ) : List Call → Prop
  | untouched : Settled ptr []
  | refused : Settled ptr [.allocated ptr, .freed ptr]
  | takenBack (phys_addr size : UInt64) :
    Settled ptr [.allocated ptr, .added phys_addr ptr size, .removed phys_addr ptr size, .freed ptr]

theorem Settled.count_freed (h : Settled ptr calls) : calls.count (.freed ptr) = calls.count (.allocated ptr) := by
  cases h <;> simp

theorem Settled.count_removed (h : Settled ptr calls) (phys_addr size : UInt64) :
    calls.count (.removed phys_addr ptr size) = calls.count (.added phys_addr ptr size) := by
  cases h <;> simp [List.count_cons]

theorem Settled.nodup (h : Settled ptr calls) : calls.Nodup := by
  cases h <;> simp

theorem balanced_of_settled (h : ∀ ptr, Settled ptr (history ptr log)) : Balanced log := by
  refine ⟨fun ptr ↦ ?_, fun phys_addr ptr size ↦ ?_, fun call ↦ ?_⟩
  · have hcount := (h ptr).count_freed
    rwa [← count_history (.freed ptr), ← count_history (.allocated ptr)]
  · have hcount := (h ptr).count_removed phys_addr size
    rwa [← count_history (.removed phys_addr ptr size), ← count_history (.added phys_addr ptr size)]
  · rw [← count_history call]
    exact List.nodup_iff_count_le_one.mp (h call.buffer).nodup call

end History

/-! ## What the operations do -/

namespace Context

variable {host : Host} {context next : Context} {phys_addr size : UInt64} {ptr : ℕ} {order : Order}

/-- A buffer was asked for in vain. -/
def passed (context : Context) : Context := { context with buffers := context.buffers + 1 }

/-- A buffer was allocated and freed again. -/
def refused (host : Host) (context : Context) : Context :=
  { context with
    memory := Function.update context.memory context.buffers (host.fresh context.buffers)
    buffers := context.buffers + 1
    log := context.log ++ [.allocated context.buffers, .freed context.buffers] }

/-- A buffer was allocated and mapped. -/
def accepted (host : Host) (phys_addr size : UInt64) (context : Context) : Context :=
  { m_paddr2ptr := Function.update context.m_paddr2ptr phys_addr (some (context.buffers, size))
    mapped := Function.update context.mapped phys_addr true
    memory := Function.update context.memory context.buffers (host.fresh context.buffers)
    buffers := context.buffers + 1
    log := context.log ++ [.allocated context.buffers, .added phys_addr context.buffers size] }

/-- A mapping was removed and its buffer was freed. -/
def takenBack (phys_addr : UInt64) (ptr : ℕ) (size : UInt64) (context : Context) : Context :=
  { context with
    mapped := Function.update context.mapped phys_addr false
    log := context.log ++ [.removed phys_addr ptr size, .freed ptr] }

theorem allocate_impl_cases (host : Host) (phys_addr size : UInt64) (context : Context) :
    context.allocate_impl host phys_addr size = (none, context.passed) ∨
    context.allocate_impl host phys_addr size = (none, context.refused host) ∨
    context.m_paddr2ptr phys_addr = none ∧ context.allocate_impl host phys_addr size =
      (some context.buffers, context.accepted host phys_addr (alignedSize size)) := by
  rw [allocate_impl, aligned_buf_alloc]
  by_cases hgives : host.gives context.buffers
  · rw [if_pos hgives]
    refine .inr ?_
    cases hentry : context.m_paddr2ptr phys_addr with
    | some entry =>
      refine .inl ?_
      simp [hentry, aligned_buf_free, refused]
    | none =>
      by_cases haccepts : host.accepts context.buffers
      · refine .inr ⟨rfl, ?_⟩
        simp [hentry, add_memory_mapping, haccepts, accepted]
      · refine .inl ?_
        simp [hentry, add_memory_mapping, haccepts, aligned_buf_free, refused]
  · rw [if_neg hgives]
    exact .inl rfl

theorem unallocate_of_mem (hentry : context.m_paddr2ptr phys_addr = some (ptr, size)) :
    context.unallocate host phys_addr =
      if context.mapped phys_addr || host.missing phys_addr then
        some (0, { context.takenBack phys_addr ptr size with
          m_paddr2ptr := Function.update context.m_paddr2ptr phys_addr none })
      else none := by
  rw [unallocate, hentry]
  dsimp only
  rw [remove_memory_mapping]
  split_ifs
  · simp [aligned_buf_free, takenBack]
  · rfl

theorem clear_cons (entry : UInt64 × ℕ × UInt64) (order : Order) (context : Context) :
    clear host (entry :: order) context =
      if context.mapped entry.1 || host.missing entry.1 then
        clear host order (context.takenBack entry.1 entry.2.1 entry.2.2)
      else none := by
  rw [clear, remove_memory_mapping]
  split_ifs
  · simp [aligned_buf_free, takenBack]
  · rfl

/-- The calls of a `clear` that comes back. -/
def takings (order : Order) : List Call :=
  order.flatMap fun entry ↦ [.removed entry.1 entry.2.1 entry.2.2, .freed entry.2.1]

/-- Nothing but the device's mappings changes, and the map stays. -/
theorem eq_of_clear (h : context.clear host order = some next) :
    next = { context with mapped := next.mapped, log := context.log ++ takings order } := by
  induction order generalizing context with
  | nil =>
    cases h
    simp [takings]
  | cons entry order ih =>
    rw [clear_cons] at h
    obtain ⟨_, h⟩ := Option.ite_none_right_eq_some.mp h
    have hnext := ih h
    rw [hnext]
    simp [takings, takenBack]

/-- What is mapped can be taken back. -/
theorem exists_clear (host : Host) (hnodup : (order.map Prod.fst).Nodup)
    (hmapped : ∀ entry ∈ order, context.mapped entry.1 = true) :
    ∃ next, context.clear host order = some next := by
  induction order generalizing context with
  | nil => exact ⟨context, rfl⟩
  | cons entry order ih =>
    obtain ⟨hnot, hnodup⟩ := List.nodup_cons.mp hnodup
    obtain ⟨hfirst, hrest⟩ := forall_mem_cons.mp hmapped
    rw [clear_cons, hfirst, Bool.true_or, if_pos rfl]
    refine ih hnodup fun other hother ↦ ?_
    have hne : other.1 ≠ entry.1 := fun heq ↦ hnot (heq ▸ List.mem_map_of_mem hother)
    exact (update_of_ne hne false context.mapped).trans (hrest other hother)

theorem history_takings_of_not_mem (h : ∀ entry ∈ order, entry.2.1 ≠ ptr) (log : List Call) :
    history ptr (log ++ takings order) = history ptr log := by
  refine history_append_other fun call hcall ↦ ?_
  obtain ⟨entry, hentry, hcall⟩ := List.mem_flatMap.mp hcall
  rcases List.mem_pair.mp hcall with rfl | rfl
  · exact h entry hentry
  · exact h entry hentry

theorem history_takings_of_mem {entry : UInt64 × ℕ × UInt64} (hnodup : (order.map fun entry ↦ entry.2.1).Nodup)
    (hmem : entry ∈ order) (log : List Call) :
    history entry.2.1 (log ++ takings order) =
      history entry.2.1 log ++ [.removed entry.1 entry.2.1 entry.2.2, .freed entry.2.1] := by
  induction order generalizing log with
  | nil => cases hmem
  | cons first order ih =>
    obtain ⟨hnot, hnodup⟩ := List.nodup_cons.mp hnodup
    have hfirst : takings (first :: order) =
        [.removed first.1 first.2.1 first.2.2, .freed first.2.1] ++ takings order := List.flatMap_cons
    rw [hfirst, ← List.append_assoc]
    rcases List.mem_cons.mp hmem with rfl | hmem
    · rw [history_takings_of_not_mem fun other hother heq ↦ hnot (mem_map.mpr ⟨other, hother, heq⟩)]
      exact history_append_self (by simp [Call.buffer])
    · have hne : first.2.1 ≠ entry.2.1 := fun heq ↦ hnot (mem_map.mpr ⟨entry, hmem, heq.symm⟩)
      rw [ih hnodup hmem, history_append_other (by simpa [Call.buffer] using hne)]

/-! ## What every context keeps -/

theorem alignedSize_alignedSize (size : UInt64) : alignedSize (alignedSize size) = alignedSize size := by
  apply UInt64.toNat_inj.mp
  have halignment : alignment.toNat = 4096 := rfl
  have hlt := size.toNat_lt
  simp only [alignedSize, UInt64.toNat_mul, UInt64.toNat_div, UInt64.toNat_sub, UInt64.toNat_add, halignment,
    UInt64.reduceToNat]
  omega

/-- The entries are those of buffers that were asked for, and their sizes are aligned. -/
structure Regular (context : Context) : Prop where
  below : ∀ phys_addr ptr size, context.m_paddr2ptr phys_addr = some (ptr, size) → ptr < context.buffers
  aligned : ∀ phys_addr ptr size, context.m_paddr2ptr phys_addr = some (ptr, size) → alignedSize size = size

theorem regular_new : new.Regular := ⟨fun _ _ _ h ↦ absurd h.symm (some_ne_none _),
  fun _ _ _ h ↦ absurd h.symm (some_ne_none _)⟩

namespace Regular

theorem more (h : context.Regular) (hmap : next.m_paddr2ptr = context.m_paddr2ptr)
    (hbuffers : context.buffers ≤ next.buffers) : next.Regular := by
  refine ⟨fun phys_addr ptr size hentry ↦ ?_, fun phys_addr ptr size hentry ↦ ?_⟩
  · exact (h.below phys_addr ptr size (hmap ▸ hentry)).trans_le hbuffers
  · exact h.aligned phys_addr ptr size (hmap ▸ hentry)

theorem accepted (h : context.Regular) (host : Host) (phys_addr size : UInt64) :
    (context.accepted host phys_addr (alignedSize size)).Regular := by
  refine ⟨fun other ptr size' hentry ↦ ?_, fun other ptr size' hentry ↦ ?_⟩
  · simp only [Context.accepted, update_apply] at hentry ⊢
    split_ifs at hentry with heq
    · obtain ⟨rfl, _⟩ := Prod.mk.inj (Option.some.inj hentry)
      exact Nat.lt_succ_self _
    · exact (h.below other ptr size' hentry).trans (Nat.lt_succ_self _)
  · simp only [Context.accepted, update_apply] at hentry
    split_ifs at hentry with heq
    · obtain ⟨_, rfl⟩ := Prod.mk.inj (Option.some.inj hentry)
      exact alignedSize_alignedSize size
    · exact h.aligned other ptr size' hentry

theorem allocate_impl (h : context.Regular) (host : Host) (phys_addr size : UInt64) :
    (context.allocate_impl host phys_addr size).2.Regular := by
  obtain heq | heq | ⟨_, heq⟩ := allocate_impl_cases host phys_addr size context
  · rw [heq]
    exact h.more rfl (Nat.le_succ _)
  · rw [heq]
    exact h.more rfl (Nat.le_succ _)
  · rw [heq]
    exact h.accepted host phys_addr size

theorem forget (h : context.Regular) (hbuffers : context.buffers ≤ next.buffers)
    (hmap : ∀ phys_addr entry, next.m_paddr2ptr phys_addr = some entry →
      context.m_paddr2ptr phys_addr = some entry) : next.Regular :=
  ⟨fun phys_addr _ _ hentry ↦ (h.below phys_addr _ _ (hmap phys_addr _ hentry)).trans_le hbuffers,
    fun phys_addr _ _ hentry ↦ h.aligned phys_addr _ _ (hmap phys_addr _ hentry)⟩

end Regular

/-- Each buffer in the map was allocated and mapped and nothing else, and all others are settled. -/
structure Sound (context : Context) : Prop where
  regular : context.Regular
  mapped : ∀ phys_addr ptr size, context.m_paddr2ptr phys_addr = some (ptr, size) → context.mapped phys_addr = true
  held : ∀ phys_addr ptr size, context.m_paddr2ptr phys_addr = some (ptr, size) →
    history ptr context.log = [.allocated ptr, .added phys_addr ptr size]
  settled : ∀ ptr, (∀ phys_addr size, context.m_paddr2ptr phys_addr ≠ some (ptr, size)) →
    Settled ptr (history ptr context.log)
  untouched : ∀ ptr, context.buffers ≤ ptr → history ptr context.log = []

theorem sound_new : new.Sound :=
  ⟨regular_new, fun _ _ _ h ↦ absurd h.symm (some_ne_none _),
    fun _ _ _ h ↦ absurd h.symm (some_ne_none _), fun _ _ ↦ .untouched, fun _ _ ↦ rfl⟩

namespace Sound

section

variable (h : context.Sound)
include h

/-- A buffer is in the map once. -/
theorem inj {other size' : UInt64} (hentry : context.m_paddr2ptr phys_addr = some (ptr, size))
    (hother : context.m_paddr2ptr other = some (ptr, size')) : phys_addr = other := by
  have heq := (h.held phys_addr ptr size hentry).symm.trans (h.held other ptr size' hother)
  obtain ⟨_, hadded⟩ := List.cons.inj heq
  exact (Call.added.inj (List.cons.inj hadded).1).1

theorem passed : context.passed.Sound :=
  ⟨h.regular.more rfl (Nat.le_succ _), h.mapped, h.held, h.settled,
    fun ptr hptr ↦ h.untouched ptr ((Nat.le_succ _).trans hptr)⟩

theorem refused (host : Host) : (context.refused host).Sound := by
  have hother : ∀ ptr, ptr ≠ context.buffers →
      history ptr (context.refused host).log = history ptr context.log := fun ptr hne ↦
    history_append_other (by simpa [Call.buffer] using hne.symm)
  have hself : history context.buffers (context.refused host).log =
      [.allocated context.buffers, .freed context.buffers] := by
    refine (history_append_self (by simp [Call.buffer])).trans ?_
    rw [h.untouched _ le_rfl, List.nil_append]
  refine ⟨h.regular.more rfl (Nat.le_succ _), h.mapped, fun phys_addr ptr size hentry ↦ ?_, fun ptr hfree ↦ ?_,
    fun ptr hptr ↦ ?_⟩
  · rw [hother ptr (h.regular.below _ _ _ hentry).ne]
    exact h.held phys_addr ptr size hentry
  · by_cases heq : ptr = context.buffers
    · rw [heq, hself]
      exact .refused
    · rw [hother ptr heq]
      exact h.settled ptr hfree
  · rw [hother ptr (Nat.lt_of_succ_le hptr).ne']
    exact h.untouched ptr ((Nat.le_succ _).trans hptr)

theorem accepted (host : Host) (hnone : context.m_paddr2ptr phys_addr = none) (size : UInt64) :
    (context.accepted host phys_addr (alignedSize size)).Sound := by
  have hother : ∀ ptr, ptr ≠ context.buffers →
      history ptr (context.accepted host phys_addr (alignedSize size)).log = history ptr context.log :=
    fun ptr hne ↦ history_append_other (by simpa [Call.buffer] using hne.symm)
  have hself : history context.buffers (context.accepted host phys_addr (alignedSize size)).log =
      [.allocated context.buffers, .added phys_addr context.buffers (alignedSize size)] := by
    refine (history_append_self (by simp [Call.buffer])).trans ?_
    rw [h.untouched _ le_rfl, List.nil_append]
  have hmap : ∀ other ptr size', (context.accepted host phys_addr (alignedSize size)).m_paddr2ptr other =
      some (ptr, size') ↔ other = phys_addr ∧ ptr = context.buffers ∧ size' = alignedSize size ∨
        context.m_paddr2ptr other = some (ptr, size') := by
    intro other ptr size'
    simp only [Context.accepted, update_apply]
    split_ifs with heq
    · subst heq
      simp [hnone, eq_comm]
    · simp [heq]
  refine ⟨h.regular.accepted host phys_addr size, fun other ptr size' hentry ↦ ?_,
    fun other ptr size' hentry ↦ ?_, fun ptr hfree ↦ ?_, fun ptr hptr ↦ ?_⟩
  · simp only [Context.accepted, update_apply]
    split_ifs with heq
    · rfl
    · exact h.mapped other ptr size' (((hmap other ptr size').mp hentry).resolve_left fun hnew ↦ heq hnew.1)
  · obtain ⟨rfl, rfl, rfl⟩ | hold := (hmap other ptr size').mp hentry
    · exact hself
    · rw [hother ptr (h.regular.below _ _ _ hold).ne]
      exact h.held other ptr size' hold
  · have hne : ptr ≠ context.buffers := fun heq ↦
      hfree phys_addr (alignedSize size) ((hmap _ _ _).mpr (.inl ⟨rfl, heq, rfl⟩))
    rw [hother ptr hne]
    exact h.settled ptr fun other size' hold ↦ hfree other size' ((hmap _ _ _).mpr (.inr hold))
  · rw [hother ptr (Nat.lt_of_succ_le hptr).ne']
    exact h.untouched ptr ((Nat.le_succ _).trans hptr)

theorem allocate_impl (host : Host) (phys_addr size : UInt64) :
    (context.allocate_impl host phys_addr size).2.Sound := by
  obtain heq | heq | ⟨hnone, heq⟩ := allocate_impl_cases host phys_addr size context
  · rw [heq]
    exact h.passed
  · rw [heq]
    exact h.refused host
  · rw [heq]
    exact h.accepted host hnone size

/-- Only the bytes change. -/
theorem write (memory : ℕ → ℕ → UInt8) : Sound { context with memory := memory } :=
  ⟨h.regular.more rfl le_rfl, h.mapped, h.held, h.settled, h.untouched⟩

/-- Entries are taken back and forgotten. -/
theorem forget (hnodup : (order.map Prod.fst).Nodup)
    (hlisted : ∀ entry ∈ order, context.m_paddr2ptr entry.1 = some entry.2)
    (hmap : ∀ phys_addr entry, next.m_paddr2ptr phys_addr = some entry ↔ context.m_paddr2ptr phys_addr = some entry ∧ phys_addr ∉ order.map Prod.fst)
    (hmapped : ∀ phys_addr entry, next.m_paddr2ptr phys_addr = some entry → next.mapped phys_addr = true)
    (hbuffers : next.buffers = context.buffers) (hlog : next.log = context.log ++ takings order) :
    next.Sound := by
  have hptrs : (order.map fun entry ↦ entry.2.1).Nodup := by
    refine List.Nodup.map_on (fun entry hentry other hother heq ↦ ?_) (.of_map _ hnodup)
    have hsame : context.m_paddr2ptr other.1 = some (entry.2.1, other.2.2) := heq ▸ hlisted other hother
    have hkey : entry.1 = other.1 := h.inj (hlisted entry hentry) hsame
    have hrest := (hlisted entry hentry).symm.trans (hkey ▸ hlisted other hother)
    exact Prod.ext hkey (Option.some.inj hrest)
  have hkept : ∀ ptr, (∀ entry ∈ order, entry.2.1 ≠ ptr) → history ptr next.log = history ptr context.log :=
    fun ptr hptr ↦ hlog ▸ history_takings_of_not_mem hptr context.log
  have hbelow : ∀ entry ∈ order, entry.2.1 < context.buffers :=
    fun entry hentry ↦ h.regular.below entry.1 entry.2.1 entry.2.2 (hlisted entry hentry)
  refine ⟨h.regular.forget hbuffers.ge fun phys_addr entry hentry ↦ ((hmap phys_addr entry).mp hentry).1,
    fun phys_addr _ _ hentry ↦ hmapped phys_addr _ hentry, fun phys_addr ptr size hentry ↦ ?_, fun ptr hfree ↦ ?_,
    fun ptr hptr ↦ ?_⟩
  · obtain ⟨hold, hnot⟩ := (hmap _ _).mp hentry
    rw [hkept ptr]
    · exact h.held phys_addr ptr size hold
    · rintro ⟨other, ptr', size'⟩ hother rfl
      exact hnot (mem_map.mpr ⟨_, hother, (h.inj hold (hlisted _ hother)).symm⟩)
  · by_cases htaken : ∃ entry ∈ order, entry.2.1 = ptr
    · obtain ⟨entry, hentry, rfl⟩ := htaken
      rw [hlog, history_takings_of_mem hptrs hentry, h.held entry.1 entry.2.1 entry.2.2 (hlisted entry hentry)]
      exact .takenBack entry.1 entry.2.2
    · have hnot : ∀ entry ∈ order, entry.2.1 ≠ ptr := fun entry hentry heq ↦ htaken ⟨entry, hentry, heq⟩
      rw [hkept ptr hnot]
      refine h.settled ptr fun phys_addr size hold ↦ hfree phys_addr size ((hmap _ _).mpr ⟨hold, fun hkey ↦ ?_⟩)
      obtain ⟨entry, hentry, rfl⟩ := mem_map.mp hkey
      exact hnot entry hentry (congrArg Prod.fst (Option.some.inj ((hlisted entry hentry).symm.trans hold)))
  · rw [hbuffers] at hptr
    rw [hkept ptr fun entry hentry ↦ ((hbelow entry hentry).trans_le hptr).ne]
    exact h.untouched ptr hptr

theorem unallocate (host : Host) (phys_addr : UInt64) :
    ∃ result, context.unallocate host phys_addr = some result ∧ result.2.Sound := by
  cases hentry : context.m_paddr2ptr phys_addr with
  | none =>
    refine ⟨(-1, context), ?_, h⟩
    rw [Context.unallocate, hentry]
  | some entry =>
    obtain ⟨ptr, size⟩ := entry
    rw [unallocate_of_mem hentry, h.mapped phys_addr ptr size hentry, Bool.true_or, if_pos rfl]
    have hnodup : (List.map Prod.fst [(phys_addr, ptr, size)]).Nodup := List.nodup_singleton _
    refine ⟨_, rfl, h.forget hnodup (List.forall_mem_singleton.mpr hentry) (fun other entry ↦ ?_)
      (fun other entry hother ↦ ?_) rfl rfl⟩
    · simp only [update_apply, List.map_singleton, List.mem_singleton]
      split_ifs with heq
      · simp [heq]
      · simp [heq]
    · simp only [takenBack, update_apply] at hother ⊢
      split_ifs at hother ⊢ with heq
      exact h.mapped other entry.1 entry.2 hother

end

end Sound

/-- Iterators go through the whole map, once. -/
structure Lists (order : Order) (context : Context) : Prop where
  nodup : (order.map Prod.fst).Nodup
  mem_iff : ∀ phys_addr ptr size,
    (phys_addr, ptr, size) ∈ order ↔ context.m_paddr2ptr phys_addr = some (ptr, size)

theorem Sound.clear (h : context.Sound) (host : Host) (hlists : Lists order context) :
    ∃ next, context.clear host order = some next ∧ Sound { next with m_paddr2ptr := fun _ ↦ none } := by
  have hlisted : ∀ entry ∈ order, context.m_paddr2ptr entry.1 = some entry.2 :=
    fun entry hentry ↦ (hlists.mem_iff entry.1 entry.2.1 entry.2.2).mp hentry
  obtain ⟨next, hnext⟩ := exists_clear host hlists.nodup
    fun entry hentry ↦ h.mapped entry.1 entry.2.1 entry.2.2 (hlisted entry hentry)
  have heq := eq_of_clear hnext
  refine ⟨next, hnext, h.forget hlists.nodup hlisted (fun phys_addr entry ↦ ?_)
    (fun _ _ hnone ↦ absurd hnone.symm (some_ne_none _)) ?_ ?_⟩
  · refine ⟨fun hnone ↦ absurd hnone.symm (some_ne_none _), fun ⟨hold, hnot⟩ ↦ absurd ?_ hnot⟩
    exact mem_map.mpr ⟨_, (hlists.mem_iff phys_addr entry.1 entry.2).mpr hold, rfl⟩
  · rw [heq]
  · rw [heq]

def Empty (context : Context) : Prop := ∀ phys_addr, context.m_paddr2ptr phys_addr = none

theorem Lists.eq_nil (h : Lists order context) (hempty : context.Empty) : order = [] := by
  refine List.eq_nil_iff_forall_not_mem.mpr fun entry hentry ↦ ?_
  have hlive := (h.mem_iff entry.1 entry.2.1 entry.2.2).mp hentry
  rw [hempty entry.1] at hlive
  cases hlive

theorem Lists.exists_mem (h : Lists order context) (hempty : ¬ context.Empty) : ∃ entry, entry ∈ order := by
  obtain ⟨phys_addr, hsome⟩ := not_forall.mp hempty
  obtain ⟨⟨ptr, size⟩, hentry⟩ := Option.ne_none_iff_exists'.mp hsome
  exact ⟨_, (h.mem_iff phys_addr ptr size).mpr hentry⟩

/-! ## Loading -/

/-- Entries of a file: an address, a size and the bytes. -/
abbrev Entries := List (UInt64 × UInt64 × List UInt8)

def encode (entries : Entries) : List UInt8 := entries.flatMap fun entry ↦ putEntry entry.1 entry.2.1 entry.2.2

theorem encode_cons (entry : UInt64 × UInt64 × List UInt8) (entries : Entries) (rest : List UInt8) :
    encode (entry :: entries) ++ rest = putEntry entry.1 entry.2.1 entry.2.2 ++ (encode entries ++ rest) := by
  rw [encode, List.flatMap_cons, List.append_assoc]
  rfl

/-- An entry as it is saved. -/
structure EntryFits (entry : UInt64 × UInt64 × List UInt8) : Prop where
  aligned : alignedSize entry.2.1 = entry.2.1
  length_eq : entry.2.2.length = entry.2.1.toNat

theorem loadEntries_cons {entry : UInt64 × UInt64 × List UInt8} (h : EntryFits entry) (host : Host) (count : ℕ)
    (stream : List UInt8) (context : Context) :
    loadEntries host (count + 1) (putEntry entry.1 entry.2.1 entry.2.2 ++ stream) context =
      match context.allocate_impl host entry.1 entry.2.1 with
      | (none, context) => some (false, context)
      | (some ptr, context) => loadEntries host count stream (context.store ptr entry.2.2) := by
  have hread : read entry.2.1.toNat (entry.2.2 ++ stream) = (entry.2.2, stream) := by
    rw [Stream.read, ← h.length_eq, List.take_left, List.drop_left]
  rw [loadEntries, putEntry]
  simp only [List.append_assoc, getBe64_putBe64, hread, h.aligned, h.length_eq, lt_irrefl, if_false, if_true]

/-- What one allocation and one read keep, the loop keeps; with entries as they are saved it comes back. -/
theorem exists_loadEntries (kept : Context → Prop) (host : Host)
    (hallocate : ∀ phys_addr size context, kept context → kept (context.allocate_impl host phys_addr size).2)
    (hstore : ∀ ptr mem context, kept context → kept (context.store ptr mem)) {entries : Entries}
    (hfits : ∀ entry ∈ entries, EntryFits entry) (rest : List UInt8) (hkept : kept context) :
    ∃ result next, loadEntries host entries.length (encode entries ++ rest) context = some (result, next) ∧
      kept next := by
  induction entries generalizing context with
  | nil => exact ⟨true, context, rfl, hkept⟩
  | cons entry entries ih =>
    obtain ⟨hfirst, hrest⟩ := forall_mem_cons.mp hfits
    have hnext := hallocate entry.1 entry.2.1 context hkept
    rw [List.length_cons, encode_cons, loadEntries_cons hfirst]
    cases hresult : context.allocate_impl host entry.1 entry.2.1 with
    | mk result allocated =>
      rw [hresult] at hnext
      cases result with
      | none => exact ⟨false, allocated, rfl, hnext⟩
      | some ptr => exact ih hrest (hstore ptr entry.2.2 allocated hnext)

/-- The bytes that were read are the contents of the new buffer, and nothing else changes. -/
theorem contents_store (h : context.Regular) (host : Host) (phys_addr : UInt64) {mem : List UInt8}
    (hlength : mem.length = size.toNat) :
    ((context.accepted host phys_addr size).store context.buffers mem).contents =
      Function.update context.contents phys_addr (some (size, mem)) := by
  funext other
  by_cases heq : other = phys_addr
  · subst heq
    have hbytes :
        ((context.accepted host other size).store context.buffers mem).bytes context.buffers size = mem := by
      refine List.ext_getElem (by simp [bytes, hlength]) fun index _ hindex ↦ ?_
      simp [bytes, store, hindex]
    have hentry : ((context.accepted host other size).store context.buffers mem).m_paddr2ptr other =
        some (context.buffers, size) := update_self _ _ _
    rw [update_self, contents, hentry, map_some, hbytes]
  · rw [update_of_ne heq, contents, contents]
    simp only [store, accepted, update_of_ne heq]
    cases hentry : context.m_paddr2ptr other with
    | none => rfl
    | some entry =>
      have hne : entry.1 ≠ context.buffers := (h.below other entry.1 entry.2 hentry).ne
      simp only [map_some, bytes, update_of_ne hne]

theorem Regular.store (h : context.Regular) (ptr : ℕ) (mem : List UInt8) : (context.store ptr mem).Regular :=
  h.more rfl le_rfl

/-- Entries are loaded to addresses that were free, and nothing else changes. -/
theorem contents_of_loadEntries (h : context.Regular) {entries : Entries}
    (hfits : ∀ entry ∈ entries, EntryFits entry) {rest : List UInt8}
    (hload : loadEntries host entries.length (encode entries ++ rest) context = some (true, next)) :
    (∀ entry ∈ entries, context.m_paddr2ptr entry.1 = none) ∧
      (∀ entry ∈ entries, next.contents entry.1 = some entry.2) ∧
      ∀ phys_addr ∉ entries.map Prod.fst, next.contents phys_addr = context.contents phys_addr := by
  induction entries generalizing context with
  | nil =>
    obtain rfl := (Prod.mk.inj (Option.some.inj hload)).2
    exact ⟨fun _ hmem ↦ absurd hmem List.not_mem_nil, fun _ hmem ↦ absurd hmem List.not_mem_nil, fun _ _ ↦ rfl⟩
  | cons entry entries ih =>
    obtain ⟨hfirst, hrest⟩ := forall_mem_cons.mp hfits
    rw [List.length_cons, encode_cons, loadEntries_cons hfirst] at hload
    obtain heq | heq | ⟨hnone, heq⟩ := allocate_impl_cases host entry.1 entry.2.1 context
    · rw [heq] at hload
      cases hload
    · rw [heq] at hload
      cases hload
    rw [heq] at hload
    obtain ⟨hfree, hloaded, hothers⟩ := ih ((h.accepted host _ _).store _ _) hrest hload
    rw [hfirst.aligned] at hfree hothers
    rw [contents_store h host entry.1 hfirst.length_eq] at hothers
    have hmap : ((context.accepted host entry.1 entry.2.1).store context.buffers entry.2.2).m_paddr2ptr =
        Function.update context.m_paddr2ptr entry.1 (some (context.buffers, entry.2.1)) := rfl
    have hne : ∀ other ∈ entries, other.1 ≠ entry.1 := fun other hother hkey ↦ by
      have hother := hfree other hother
      rw [hmap, hkey, update_self] at hother
      cases hother
    have hnot : entry.1 ∉ entries.map Prod.fst := fun hmem ↦ by
      obtain ⟨other, hother, hkey⟩ := mem_map.mp hmem
      exact hne other hother hkey
    refine ⟨forall_mem_cons.mpr ⟨hnone, fun other hother ↦ ?_⟩,
      forall_mem_cons.mpr ⟨(hothers entry.1 hnot).trans (update_self _ _ _), hloaded⟩,
      fun phys_addr hphys ↦ ?_⟩
    · have hother' := hfree other hother
      rwa [hmap, update_of_ne (hne other hother)] at hother'
    · rw [List.map_cons, List.mem_cons, not_or] at hphys
      exact (hothers phys_addr hphys.2).trans (update_of_ne hphys.1 _ _)

/-- What `save` writes for the entries of a context. -/
def entries (order : Order) (context : Context) : Entries :=
  order.map fun entry ↦ (entry.1, entry.2.2, context.bytes entry.2.1 entry.2.2)

theorem fits_entries (h : context.Regular) (hlists : Lists order context) :
    ∀ entry ∈ context.entries order, EntryFits entry := by
  refine List.forall_mem_map.mpr fun entry hentry ↦ ⟨?_, ?_⟩
  · exact h.aligned entry.1 entry.2.1 entry.2.2 ((hlists.mem_iff entry.1 entry.2.1 entry.2.2).mp hentry)
  · simp [bytes]

theorem contents_eq_some_iff (hlists : Lists order context) (phys_addr : UInt64) (found : UInt64 × List UInt8) :
    context.contents phys_addr = some found ↔ (phys_addr, found) ∈ context.entries order := by
  rw [contents, map_eq_some_iff, entries, mem_map]
  constructor
  · rintro ⟨entry, hentry, rfl⟩
    exact ⟨(phys_addr, entry), (hlists.mem_iff phys_addr entry.1 entry.2).mpr hentry, rfl⟩
  · rintro ⟨entry, hentry, heq⟩
    cases heq
    exact ⟨entry.2, (hlists.mem_iff entry.1 entry.2.1 entry.2.2).mp hentry, rfl⟩

/-- As many entries are loaded as the 32-bit number in front says. -/
theorem load_save (host : Host) (listed order : Order) (saved context : Context) :
    ∃ rest, context.load host listed (saved.save order) = (context.clear host listed).bind
      (loadEntries host ((saved.entries order).take (order.length % 2 ^ 32)).length
        (encode ((saved.entries order).take (order.length % 2 ^ 32)) ++ rest)) := by
  refine ⟨encode ((saved.entries order).drop (order.length % 2 ^ 32)), ?_⟩
  have hlength : ((saved.entries order).take (order.length % 2 ^ 32)).length = order.length % 2 ^ 32 := by
    rw [List.length_take, entries, List.length_map, min_eq_left (Nat.mod_le _ _)]
  have hencode : encode ((saved.entries order).take (order.length % 2 ^ 32)) ++
      encode ((saved.entries order).drop (order.length % 2 ^ 32)) =
      order.flatMap fun entry ↦ putEntry entry.1 entry.2.2 (saved.bytes entry.2.1 entry.2.2) := by
    rw [encode, encode, ← List.flatMap_append, List.take_append_drop, entries, List.flatMap_map]
  rw [load, save, hlength, hencode]
  simp only [getBe32_putBe32, UInt32.toNat_ofNat']

/-! ## What was taken back and is still in the map -/

/-- Calls are added, and no entry goes. -/
structure Grows (context next : Context) : Prop where
  log : context.log <+: next.log
  map : ∀ phys_addr entry, context.m_paddr2ptr phys_addr = some entry → next.m_paddr2ptr phys_addr = some entry

namespace Grows

theorem refl (context : Context) : Grows context context := ⟨List.prefix_refl _, fun _ _ h ↦ h⟩

theorem trans {last : Context} (h : Grows context next) (h' : Grows next last) : Grows context last :=
  ⟨h.log.trans h'.log, fun phys_addr entry hentry ↦ h'.map phys_addr entry (h.map phys_addr entry hentry)⟩

theorem allocate_impl (host : Host) (phys_addr size : UInt64) (context : Context) :
    Grows context (context.allocate_impl host phys_addr size).2 := by
  obtain heq | heq | ⟨hnone, heq⟩ := allocate_impl_cases host phys_addr size context
  · rw [heq]
    exact ⟨List.prefix_refl _, fun _ _ h ↦ h⟩
  · rw [heq]
    exact ⟨List.prefix_append _ _, fun _ _ h ↦ h⟩
  · rw [heq]
    refine ⟨List.prefix_append _ _, fun other entry hentry ↦ ?_⟩
    have hne : other ≠ phys_addr := fun h ↦ by
      rw [h, hnone] at hentry
      cases hentry
    exact (update_of_ne hne _ _).trans hentry

theorem store (ptr : ℕ) (mem : List UInt8) (context : Context) : Grows context (context.store ptr mem) :=
  ⟨List.prefix_refl _, fun _ _ h ↦ h⟩

theorem clear (h : context.clear host order = some next) : Grows context next := by
  rw [eq_of_clear h]
  exact ⟨List.prefix_append _ _, fun _ _ h ↦ h⟩

end Grows

/-- The buffer was freed twice, or it was freed and is in the map. -/
def Spoiled (ptr : ℕ) (context : Context) : Prop :=
  2 ≤ context.log.count (.freed ptr) ∨
    1 ≤ context.log.count (.freed ptr) ∧ ∃ phys_addr size, context.m_paddr2ptr phys_addr = some (ptr, size)

namespace Spoiled

theorem grows (h : Spoiled ptr context) (hgrows : Grows context next) : Spoiled ptr next := by
  have hle := hgrows.log.sublist.count_le (.freed ptr)
  obtain htwice | ⟨honce, phys_addr, size, hentry⟩ := h
  · exact .inl (htwice.trans hle)
  · exact .inr ⟨honce.trans hle, phys_addr, size, hgrows.map phys_addr _ hentry⟩

theorem unallocate {result : UInt64 × Context} (h : Spoiled ptr context)
    (hresult : context.unallocate host phys_addr = some result) : Spoiled ptr result.2 := by
  cases hentry : context.m_paddr2ptr phys_addr with
  | none =>
    rw [Context.unallocate, hentry] at hresult
    cases hresult
    exact h
  | some entry =>
    rw [unallocate_of_mem hentry] at hresult
    obtain ⟨_, heq⟩ := Option.ite_none_right_eq_some.mp hresult
    cases heq
    have hcount : (context.takenBack phys_addr entry.1 entry.2).log.count (.freed ptr) =
        context.log.count (.freed ptr) + if entry.1 = ptr then 1 else 0 := by
      simp [takenBack, List.count_cons]
    refine (Nat.lt_or_ge _ 2).elim (fun hlt ↦ .inr ?_) .inl
    change (context.takenBack phys_addr entry.1 entry.2).log.count (.freed ptr) < 2 at hlt
    obtain htwice | ⟨honce, other, size, hother⟩ := h
    · omega
    · refine ⟨hcount.ge.trans' (honce.trans (Nat.le_add_right _ _)), other, size, ?_⟩
      have hne : other ≠ phys_addr := by
        rintro rfl
        cases hentry.symm.trans hother
        rw [hcount, if_pos rfl] at hlt
        omega
      exact (update_of_ne hne _ _).trans hother

/-- Taking everything back frees what is in the map. -/
theorem count_of_clear (h : Spoiled ptr context) (hlists : Lists order context)
    (hclear : context.clear host order = some next) : 2 ≤ next.log.count (.freed ptr) := by
  obtain htwice | ⟨honce, phys_addr, size, hentry⟩ := h
  · exact htwice.trans ((Grows.clear hclear).log.sublist.count_le _)
  · have hmem : Call.freed ptr ∈ takings order :=
      List.mem_flatMap.mpr ⟨_, (hlists.mem_iff phys_addr ptr size).mpr hentry, by simp⟩
    rw [eq_of_clear hclear, List.count_append]
    have hpos := List.count_pos_iff.mpr hmem
    omega

end Spoiled

/-- `clear` leaves what it has taken back in the map. -/
theorem exists_spoiled (hlists : Lists order context) (hempty : ¬ context.Empty)
    (hclear : context.clear host order = some next) : ∃ ptr, Spoiled ptr next := by
  obtain ⟨⟨phys_addr, ptr, size⟩, hmem⟩ := hlists.exists_mem hempty
  have hfreed : Call.freed ptr ∈ takings order := List.mem_flatMap.mpr ⟨_, hmem, by simp⟩
  refine ⟨ptr, .inr ?_⟩
  rw [eq_of_clear hclear, List.count_append]
  refine ⟨?_, phys_addr, size, (hlists.mem_iff phys_addr ptr size).mp hmem⟩
  have hpos := List.count_pos_iff.mpr hfreed
  omega

/-- What one allocation and one read keep of what `clear` leaves, a load keeps. -/
theorem exists_load (kept : Context → Prop) (host : Host)
    (hallocate : ∀ phys_addr size context, kept context → kept (context.allocate_impl host phys_addr size).2)
    (hstore : ∀ ptr mem context, kept context → kept (context.store ptr mem)) {saved cleared : Context}
    {listed : Order} (hsaved : saved.Regular) (hlists : Lists order saved)
    (hclear : context.clear host listed = some cleared) (hkept : kept cleared) :
    ∃ result next, context.load host listed (saved.save order) = some (result, next) ∧ kept next := by
  obtain ⟨rest, hload⟩ := load_save host listed order saved context
  rw [hload, hclear, bind_some]
  exact exists_loadEntries kept host hallocate hstore
    (fun entry hentry ↦ fits_entries hsaved hlists entry (List.mem_of_mem_take hentry)) rest hkept

theorem Regular.unallocate {result : UInt64 × Context} (h : context.Regular)
    (hresult : context.unallocate host phys_addr = some result) : result.2.Regular := by
  cases hentry : context.m_paddr2ptr phys_addr with
  | none =>
    rw [Context.unallocate, hentry] at hresult
    cases hresult
    exact h
  | some entry =>
    rw [unallocate_of_mem hentry] at hresult
    obtain ⟨_, heq⟩ := Option.ite_none_right_eq_some.mp hresult
    cases heq
    refine h.forget le_rfl fun other entry' hother ↦ ?_
    simp only [update_apply] at hother
    split_ifs at hother
    exact hother

theorem Regular.clear (h : context.Regular) (hclear : context.clear host order = some next) : next.Regular := by
  rw [eq_of_clear hclear]
  exact h.more rfl le_rfl

end Context

/-! ## Runs -/

namespace Machine

open Context

variable {host : Host} {machine next last : Machine} {event : Event} {events : List Event}

/-- Iterations are complete, and files are loaded that were saved. -/
def Environment : Event → Machine → Prop
  | .save order, machine | .reopen order, machine => Lists order machine.now
  | .load order index, machine => Lists order machine.now ∧ index < machine.snapshots.length
  | _, _ => True

def LoadsOnEmpty : Event → Machine → Prop
  | .load _ _, machine => machine.now.Empty
  | _, _ => True

/-- A snapshot is the file of a context. -/
structure Faithful (snapshot : Snapshot) : Prop where
  regular : snapshot.saved.Regular
  lists : Lists snapshot.order snapshot.saved
  file_eq : snapshot.file = snapshot.saved.save snapshot.order

structure Regular (machine : Machine) : Prop where
  now : machine.now.Regular
  snapshots : ∀ snapshot ∈ machine.snapshots, Faithful snapshot

variable {order : Order} {index : ℕ}

theorem regular_new : new.Regular := ⟨Context.regular_new, fun _ hmem ↦ absurd hmem List.not_mem_nil⟩

/-- What allocations and reads keep of what `clear` leaves, the step of a load keeps. -/
theorem exists_step_load (kept : Context → Prop)
    (hallocate : ∀ phys_addr size context, kept context → kept (context.allocate_impl host phys_addr size).2)
    (hstore : ∀ ptr mem context, kept context → kept (context.store ptr mem)) (h : machine.Regular)
    (hindex : index < machine.snapshots.length) {cleared : Context}
    (hclear : machine.now.clear host order = some cleared) (hkept : kept cleared) :
    ∃ now, step host (.load order index) machine = some { machine with now := now } ∧ kept now := by
  have hsnapshot := h.snapshots _ (List.getElem_mem hindex)
  obtain ⟨result, now, hload, hnow⟩ :=
    exists_load kept host hallocate hstore hsnapshot.regular hsnapshot.lists hclear hkept
  refine ⟨now, ?_, hnow⟩
  rw [step, List.getElem?_eq_getElem hindex, bind_some, hsnapshot.file_eq, hload, map_some]

/-- The context that a load starts with. -/
theorem exists_clear_of_load (hstep : step host (.load order index) machine = some next) :
    ∃ cleared, machine.now.clear host order = some cleared := by
  obtain ⟨snapshot, _, hload⟩ := bind_eq_some_iff.mp hstep
  obtain ⟨result, hresult, _⟩ := map_eq_some_iff.mp hload
  obtain ⟨cleared, hcleared, _⟩ := bind_eq_some_iff.mp hresult
  exact ⟨cleared, hcleared⟩

section

variable (h : machine.Regular)
include h

theorem Regular.step (henvironment : Environment event machine) (hstep : step host event machine = some next) :
    next.Regular := by
  cases event with
  | allocate phys_addr size =>
    cases hstep
    exact ⟨h.now.allocate_impl host phys_addr size, h.snapshots⟩
  | unallocate phys_addr =>
    obtain ⟨result, hresult, rfl⟩ := map_eq_some_iff.mp hstep
    exact ⟨h.now.unallocate hresult, h.snapshots⟩
  | write ptr values =>
    cases hstep
    exact ⟨h.now.more rfl le_rfl, h.snapshots⟩
  | save order =>
    cases hstep
    refine ⟨h.now, fun snapshot hsnapshot ↦ ?_⟩
    rcases List.mem_append.mp hsnapshot with hold | hnew
    · exact h.snapshots snapshot hold
    · rw [List.mem_singleton.mp hnew]
      exact ⟨h.now, henvironment, rfl⟩
  | load order index =>
    obtain ⟨cleared, hcleared⟩ := exists_clear_of_load hstep
    obtain ⟨now, hnow, hregular⟩ := exists_step_load Context.Regular
      (fun phys_addr size _ hkept ↦ hkept.allocate_impl host phys_addr size)
      (fun ptr mem _ hkept ↦ hkept.store ptr mem) h henvironment.2 hcleared (h.now.clear hcleared)
    cases hstep.symm.trans hnow
    exact ⟨hregular, h.snapshots⟩
  | reopen order =>
    obtain ⟨now, hnow, rfl⟩ := map_eq_some_iff.mp hstep
    obtain ⟨cleared, hcleared, rfl⟩ := map_eq_some_iff.mp hnow
    exact ⟨(h.now.clear hcleared).forget le_rfl fun _ _ hnone ↦ absurd hnone.symm (some_ne_none _), h.snapshots⟩

/-- As long as loads find the context empty, every call succeeds and everything stays sound. -/
theorem exists_step (hsound : machine.now.Sound) (henvironment : Environment event machine)
    (hloads : LoadsOnEmpty event machine) :
    ∃ next, Machine.step host event machine = some next ∧ next.now.Sound := by
  cases event with
  | allocate phys_addr size => exact ⟨_, rfl, hsound.allocate_impl host phys_addr size⟩
  | unallocate phys_addr =>
    obtain ⟨result, hresult, hnext⟩ := hsound.unallocate host phys_addr
    refine ⟨{ machine with now := result.2 }, ?_, hnext⟩
    rw [step, hresult, map_some]
  | write ptr values => exact ⟨_, rfl, hsound.write _⟩
  | save order => exact ⟨_, rfl, hsound⟩
  | load order index =>
    obtain rfl := henvironment.1.eq_nil hloads
    have hclear : machine.now.clear host [] = some machine.now := rfl
    obtain ⟨now, hnow, hnext⟩ := exists_step_load Context.Sound
      (fun phys_addr size _ hkept ↦ hkept.allocate_impl host phys_addr size) (fun _ _ _ hkept ↦ hkept.write _)
      h henvironment.2 hclear hsound
    exact ⟨_, hnow, hnext⟩
  | reopen order =>
    obtain ⟨cleared, hcleared, hnext⟩ := hsound.clear host henvironment
    refine ⟨{ machine with now := { cleared with m_paddr2ptr := fun _ ↦ none } }, ?_, hnext⟩
    rw [step, reopen, hcleared, map_some, map_some]

theorem spoiled_step {ptr : ℕ} (hspoiled : Spoiled ptr machine.now) (henvironment : Environment event machine)
    (hstep : step host event machine = some next) : Spoiled ptr next.now := by
  cases event with
  | allocate phys_addr size =>
    cases hstep
    exact hspoiled.grows (.allocate_impl host phys_addr size machine.now)
  | unallocate phys_addr =>
    obtain ⟨result, hresult, rfl⟩ := map_eq_some_iff.mp hstep
    exact hspoiled.unallocate hresult
  | write ptr values =>
    cases hstep
    exact hspoiled
  | save order =>
    cases hstep
    exact hspoiled
  | load order index =>
    obtain ⟨cleared, hcleared⟩ := exists_clear_of_load hstep
    obtain ⟨now, hnow, hgrows⟩ := exists_step_load (Grows machine.now)
      (fun phys_addr size context hkept ↦ hkept.trans (.allocate_impl host phys_addr size context))
      (fun ptr mem context hkept ↦ hkept.trans (.store ptr mem context)) h henvironment.2 hcleared (.clear hcleared)
    cases hstep.symm.trans hnow
    exact hspoiled.grows hgrows
  | reopen order =>
    obtain ⟨now, hnow, rfl⟩ := map_eq_some_iff.mp hstep
    obtain ⟨cleared, hcleared, rfl⟩ := map_eq_some_iff.mp hnow
    have hcount := hspoiled.count_of_clear henvironment hcleared
    exact .inl hcount

/-- A load on a context that is not empty spoils it. -/
theorem exists_spoiled_of_load (henvironment : Environment (.load order index) machine)
    (hempty : ¬ machine.now.Empty) (hstep : step host (.load order index) machine = some next) :
    ∃ ptr, Spoiled ptr next.now := by
  obtain ⟨cleared, hcleared⟩ := exists_clear_of_load hstep
  obtain ⟨ptr, hspoiled⟩ := exists_spoiled henvironment.1 hempty hcleared
  obtain ⟨now, hnow, hgrows⟩ := exists_step_load (Grows cleared)
    (fun phys_addr size context hkept ↦ hkept.trans (.allocate_impl host phys_addr size context))
    (fun ptr mem context hkept ↦ hkept.trans (.store ptr mem context)) h henvironment.2 hcleared (.refl cleared)
  cases hstep.symm.trans hnow
  exact ⟨ptr, hspoiled.grows hgrows⟩

/-- A run with a load on a context that is not empty ends with a buffer that was freed too often, or will be. -/
theorem exists_spoiled_of_run (henvironment : Guarded (step host) Environment machine events)
    (hrun : run (step host) machine events = some last)
    (hloads : (∃ ptr, Spoiled ptr machine.now) ∨ ¬ Guarded (step host) LoadsOnEmpty machine events) :
    ∃ ptr, Spoiled ptr last.now := by
  induction events generalizing machine with
  | nil =>
    cases hrun
    exact hloads.resolve_right fun hnot ↦ hnot trivial
  | cons event events ih =>
    obtain ⟨next, hnext, hrest⟩ := bind_eq_some_iff.mp hrun
    obtain ⟨hfirst, hothers⟩ := (guarded_cons_of_step hnext).mp henvironment
    refine ih (h.step hfirst hnext) hothers hrest ?_
    obtain ⟨ptr, hspoiled⟩ | hnot := hloads
    · exact .inl ⟨ptr, spoiled_step h hspoiled hfirst hnext⟩
    · rw [guarded_cons_of_step hnext, not_and_or] at hnot
      refine hnot.imp (fun hload ↦ ?_) id
      cases event with
      | load order index => exact exists_spoiled_of_load h hfirst hload hnext
      | allocate | unallocate | write | save | reopen => exact absurd trivial hload

end

section Contents

variable {snapshot : Snapshot} {listed : Order} {now : Context}

/-- A successful load has loaded the first entries to addresses that were free; nothing is seen elsewhere unless
it was in the map. -/
theorem loaded_spec (h : machine.Regular) (hfaithful : Faithful snapshot)
    (hload : machine.now.load host listed snapshot.file = some (true, now)) {loaded : Entries}
    (hloaded : loaded = (snapshot.saved.entries snapshot.order).take (snapshot.order.length % 2 ^ 32)) :
    (∀ entry ∈ loaded, machine.now.m_paddr2ptr entry.1 = none) ∧
      (∀ entry ∈ loaded, now.contents entry.1 = some entry.2) ∧
      ∀ phys_addr ∉ loaded.map Prod.fst,
        now.contents phys_addr = none ↔ machine.now.m_paddr2ptr phys_addr = none := by
  obtain ⟨rest, hfile⟩ := load_save host listed snapshot.order snapshot.saved machine.now
  rw [hfaithful.file_eq, hfile, ← hloaded] at hload
  obtain ⟨cleared, hcleared, hload⟩ := bind_eq_some_iff.mp hload
  have hmap : cleared.m_paddr2ptr = machine.now.m_paddr2ptr := by rw [eq_of_clear hcleared]
  have hfits : ∀ entry ∈ loaded, EntryFits entry := fun entry hentry ↦
    fits_entries hfaithful.regular hfaithful.lists entry (List.mem_of_mem_take (hloaded ▸ hentry))
  obtain ⟨hfree, hcontents, hothers⟩ := contents_of_loadEntries (h.now.clear hcleared) hfits hload
  refine ⟨fun entry hentry ↦ hmap ▸ hfree entry hentry, hcontents, fun phys_addr hnot ↦ ?_⟩
  rw [hothers phys_addr hnot, contents, Option.map_eq_none_iff, hmap]

theorem mem_keys_iff (hfaithful : Faithful snapshot) (phys_addr : UInt64) :
    phys_addr ∈ (snapshot.saved.entries snapshot.order).map Prod.fst ↔ snapshot.saved.contents phys_addr ≠ none := by
  rw [Option.ne_none_iff_exists', mem_map]
  constructor
  · rintro ⟨entry, hentry, rfl⟩
    exact ⟨entry.2, (contents_eq_some_iff hfaithful.lists entry.1 entry.2).mpr hentry⟩
  · rintro ⟨found, hfound⟩
    exact ⟨_, (contents_eq_some_iff hfaithful.lists phys_addr found).mp hfound, rfl⟩

theorem length_entries (snapshot : Snapshot) :
    (snapshot.saved.entries snapshot.order).length = snapshot.order.length := List.length_map _

theorem take_entries (snapshot : Snapshot) (hlt : snapshot.order.length < 2 ^ 32) :
    snapshot.saved.entries snapshot.order =
      (snapshot.saved.entries snapshot.order).take (snapshot.order.length % 2 ^ 32) := by
  rw [Nat.mod_eq_of_lt hlt, ← length_entries, List.take_length]

section

variable (h : machine.Regular) (hfaithful : Faithful snapshot)
  (hload : machine.now.load host listed snapshot.file = some (true, now))
include h hfaithful hload

theorem contents_eq_of_lt (hlt : snapshot.order.length < 2 ^ 32) (hempty : machine.now.Empty) :
    now.contents = snapshot.saved.contents := by
  obtain ⟨_, hcontents, hothers⟩ := loaded_spec h hfaithful hload (take_entries snapshot hlt)
  funext phys_addr
  cases hfound : snapshot.saved.contents phys_addr with
  | some found =>
    exact hcontents (phys_addr, found) ((contents_eq_some_iff hfaithful.lists phys_addr found).mp hfound)
  | none =>
    have hnot := mt (mem_keys_iff hfaithful phys_addr).mp (not_not_intro hfound)
    exact (hothers phys_addr hnot).mpr (hempty phys_addr)

/-- With as many entries as the number in front cannot tell, some entry is not loaded. -/
theorem lt_of_contents_eq (hempty : machine.now.Empty) (heq : now.contents = snapshot.saved.contents) :
    snapshot.order.length < 2 ^ 32 := by
  by_contra hge
  obtain ⟨_, _, hothers⟩ := loaded_spec h hfaithful hload rfl
  set count := snapshot.order.length % 2 ^ 32
  have hlt : count < (snapshot.saved.entries snapshot.order).length := by
    have hmod : count < 2 ^ 32 := Nat.mod_lt _ (by decide)
    rw [length_entries]
    omega
  have hkeys : ((snapshot.saved.entries snapshot.order).map Prod.fst).Nodup := by
    rw [entries, List.map_map]
    exact hfaithful.lists.nodup
  rw [← List.take_append_drop count (snapshot.saved.entries snapshot.order), List.map_append] at hkeys
  -- the first entry behind those that are counted
  have hdrop :
      (snapshot.saved.entries snapshot.order)[count] ∈ (snapshot.saved.entries snapshot.order).drop count :=
    List.mem_drop_iff_getElem.mpr ⟨0, by simpa using hlt, by simp⟩
  have hnot := fun hmem ↦ (List.nodup_append.mp hkeys).2.2 _ hmem _ (List.mem_map_of_mem hdrop) rfl
  have hnone := (hothers _ hnot).mpr (hempty _)
  rw [heq] at hnone
  exact (mem_keys_iff hfaithful _).mp (List.mem_map_of_mem (List.getElem_mem hlt)) hnone

/-- What was in the map is seen at addresses that were not saved. -/
theorem empty_of_contents_eq (hlt : snapshot.order.length < 2 ^ 32)
    (heq : now.contents = snapshot.saved.contents) : machine.now.Empty := by
  obtain ⟨hfree, _, hothers⟩ := loaded_spec h hfaithful hload (take_entries snapshot hlt)
  intro phys_addr
  by_cases hmem : phys_addr ∈ (snapshot.saved.entries snapshot.order).map Prod.fst
  · obtain ⟨entry, hentry, rfl⟩ := mem_map.mp hmem
    exact hfree entry hentry
  · have hnone := not_not.mp (mt (mem_keys_iff hfaithful phys_addr).mpr hmem)
    exact (hothers phys_addr hmem).mp (heq ▸ hnone)

end

end Contents

/-- In the lives of contexts, everything is taken back once if and only if every load finds its context empty;
and after a load that succeeds, users see what was saved. -/
theorem balanced_iff_loadsOnEmpty (host : Host) (events : List Event) (order : Order)
    (henvironment : Guarded (step host) Environment new events)
    (hlast : ∀ machine, run (step host) new events = some machine → Lists order machine.now) :
    ((∃ machine destroyed, run (step host) new events = some machine ∧
        machine.now.clear host order = some destroyed ∧ Balanced destroyed.log) ↔
      Guarded (step host) LoadsOnEmpty new events) ∧
    ∀ machine snapshot listed now, run (step host) new events = some machine → snapshot ∈ machine.snapshots →
      machine.now.load host listed snapshot.file = some (true, now) →
      (machine.now.Empty → (now.contents = snapshot.saved.contents ↔ snapshot.order.length < 2 ^ 32)) ∧
        (snapshot.order.length < 2 ^ 32 → (now.contents = snapshot.saved.contents ↔ machine.now.Empty)) := by
  refine ⟨⟨?_, fun hloads ↦ ?_⟩, fun machine snapshot listed now hrun hsnapshot hload ↦ ?_⟩
  · rintro ⟨machine, destroyed, hrun, hclear, hbalanced⟩
    by_contra hnot
    obtain ⟨ptr, hspoiled⟩ := exists_spoiled_of_run regular_new henvironment hrun (.inr hnot)
    have htwice := hspoiled.count_of_clear (hlast machine hrun) hclear
    have honce := hbalanced.once (.freed ptr)
    omega
  · obtain ⟨machine, hrun, _, hsound⟩ := exists_run_of_guarded (fun machine ↦ machine.Regular ∧ machine.now.Sound)
      (fun event machine hinv hguard ↦ (exists_step hinv.1 hinv.2 hguard.1 hguard.2).imp fun next hnext ↦
        ⟨hnext.1, hinv.1.step hguard.1 hnext.1, hnext.2⟩)
      ⟨regular_new, sound_new⟩ (guarded_and henvironment hloads)
    obtain ⟨destroyed, hclear, hdestroyed⟩ := hsound.clear host (hlast machine hrun)
    refine ⟨machine, destroyed, hrun, hclear, balanced_of_settled fun ptr ↦ ?_⟩
    exact hdestroyed.settled ptr fun _ _ hnone ↦ absurd hnone.symm (some_ne_none _)
  · have hregular : machine.Regular := invariant_of_guarded Regular
      (fun _ _ _ hinv hguard hstep ↦ hinv.step hguard hstep) regular_new henvironment hrun
    have hfaithful := hregular.snapshots snapshot hsnapshot
    exact ⟨fun hempty ↦ ⟨lt_of_contents_eq hregular hfaithful hload hempty,
        fun hlt ↦ contents_eq_of_lt hregular hfaithful hload hlt hempty⟩,
      fun hlt ↦ ⟨empty_of_contents_eq hregular hfaithful hload hlt,
        contents_eq_of_lt hregular hfaithful hload hlt⟩⟩

/-! ## One page -/

section Page

/-- A device that accepts everything. -/
def device (missing : Bool) : Host := ⟨fun _ ↦ true, fun _ ↦ true, fun _ ↦ missing, fun _ _ ↦ 0⟩

/-- The map with one page in it. -/
def page (ptr : ℕ) : Order := [(0x1000, ptr, 4096)]

/-- A context that has allocated one page. -/
def holding (missing : Bool) : Context := Context.new.accepted (device missing) 0x1000 4096

def pageFile (missing : Bool) : List UInt8 := (holding missing).save (page 0)

def pageSnapshot (missing : Bool) : Snapshot := ⟨pageFile missing, page 0, holding missing⟩

variable {context : Context} {missing : Bool}

theorem lists_page {ptr : ℕ}
    (h : context.m_paddr2ptr = Function.update Context.new.m_paddr2ptr 0x1000 (some (ptr, 4096))) :
    Lists (page ptr) context := by
  refine ⟨List.nodup_singleton _, fun phys_addr ptr' size ↦ ?_⟩
  rw [h, update_apply, page, List.mem_singleton, Prod.mk.injEq]
  split_ifs with heq
  · simp [heq, eq_comm]
  · simp [heq, Context.new]

theorem regular_holding (missing : Bool) : (holding missing).Regular :=
  Context.regular_new.accepted (device missing) 0x1000 1

/-- Loading comes to a page of zeros. -/
theorem load_pageFile {listed : Order} {cleared : Context}
    (hclear : context.clear (device missing) listed = some cleared) :
    context.load (device missing) listed (pageFile missing) =
      match cleared.allocate_impl (device missing) 0x1000 4096 with
      | (none, next) => some (false, next)
      | (some ptr, next) => some (true, next.store ptr ((holding missing).bytes 0 4096)) := by
  obtain ⟨rest, hload⟩ := load_save (device missing) listed (page 0) (holding missing) context
  have hentries : (holding missing).entries (page 0) = [(0x1000, 4096, (holding missing).bytes 0 4096)] := rfl
  have hlength : (pageSnapshot missing).order.length < 2 ^ 32 := Nat.one_lt_pow (by decide) (by decide)
  have htake := take_entries (pageSnapshot missing) hlength
  simp only [pageSnapshot, hentries] at htake
  have hfits := fits_entries (regular_holding missing) (lists_page rfl) _ (hentries ▸ List.mem_singleton_self _)
  rw [pageFile, hload, hclear, bind_some, hentries, ← htake, encode_cons, List.length_singleton,
    loadEntries_cons hfits]
  generalize cleared.allocate_impl (device missing) 0x1000 4096 = result
  obtain ⟨_ | ptr, next⟩ := result
  · rfl
  · dsimp only
    rw [loadEntries]

theorem allocate_impl_of_none {phys_addr size : UInt64} (h : context.m_paddr2ptr phys_addr = none) :
    context.allocate_impl (device missing) phys_addr size =
      (some context.buffers, context.accepted (device missing) phys_addr (alignedSize size)) := by
  simp [allocate_impl, aligned_buf_alloc, device, h, add_memory_mapping, accepted]

theorem allocate_impl_of_some {phys_addr size : UInt64} (h : (context.m_paddr2ptr phys_addr).isSome = true) :
    context.allocate_impl (device missing) phys_addr size = (none, context.refused (device missing)) := by
  simp [allocate_impl, aligned_buf_alloc, device, h, aligned_buf_free, refused]

/-- The page is allocated and saved. -/
def saved : List Event := [.allocate 0x1000 1, .save (page 0)]

theorem run_saved (missing : Bool) :
    run (step (device missing)) new saved = some ⟨holding missing, [pageSnapshot missing]⟩ := rfl

/-- What a load on the context leaves that the file was saved from. -/
def reloaded (missing : Bool) : Context := ((holding missing).takenBack 0x1000 0 4096).refused (device missing)

theorem step_load_holding (missing : Bool) :
    step (device missing) (.load (page 0) 0) ⟨holding missing, [pageSnapshot missing]⟩ =
      some ⟨reloaded missing, [pageSnapshot missing]⟩ := by
  have hclear : (holding missing).clear (device missing) (page 0) =
      some ((holding missing).takenBack 0x1000 0 4096) := by
    rw [page, clear_cons, if_pos (by rfl)]
    rfl
  have hload := load_pageFile hclear
  rw [allocate_impl_of_some rfl] at hload
  change ((holding missing).load (device missing) (page 0) (pageFile missing)).map _ = _
  rw [hload, map_some]
  rfl

/-- A load on the context that was saved gives its page back, and destroying the context does so again; on a device
that refuses to remove what is not there the emulator ends. -/
theorem load_gives_back_again : ∃ machine destroyed,
    Guarded (step (device true)) Environment new (saved ++ [.load (page 0) 0]) ∧
    run (step (device true)) new (saved ++ [.load (page 0) 0]) = some machine ∧ Lists (page 0) machine.now ∧
    machine.now.clear (device true) (page 0) = some destroyed ∧ destroyed.log.count (.freed 0) = 2 ∧
    ¬ Balanced destroyed.log ∧
    ∃ refusing, run (step (device false)) new (saved ++ [.load (page 0) 0]) = some refusing ∧
      Lists (page 0) refusing.now ∧ refusing.now.clear (device false) (page 0) = none := by
  have hrun : ∀ missing, run (step (device missing)) new (saved ++ [.load (page 0) 0]) =
      some ⟨reloaded missing, [pageSnapshot missing]⟩ := by
    intro missing
    rw [run_append, run_saved, bind_some, run_cons, step_load_holding]
    rfl
  have hlists : ∀ missing, Lists (page 0) (reloaded missing) := fun missing ↦ lists_page rfl
  have hclear : ∀ missing, (reloaded missing).clear (device missing) (page 0) =
      if missing then some ((reloaded missing).takenBack 0x1000 0 4096) else none := by
    intro missing
    rw [page, clear_cons]
    cases missing with
    | true => rfl
    | false => rfl
  have hcount : ((reloaded true).takenBack 0x1000 0 4096).log.count (.freed 0) = 2 := by decide
  have henvironment : Guarded (step (device true)) Environment new (saved ++ [.load (page 0) 0]) := by
    refine ⟨trivial, fun first hfirst ↦ ⟨?_, fun second hsecond ↦ ⟨⟨?_, ?_⟩, fun _ _ ↦ trivial⟩⟩⟩
    · cases hfirst
      exact lists_page rfl
    · cases hfirst
      cases hsecond
      exact lists_page rfl
    · cases hsecond
      simp
  refine ⟨_, _, henvironment, hrun true, hlists true, hclear true, hcount, fun hbalanced ↦ ?_, _, hrun false,
    hlists false, hclear false⟩
  have honce := hbalanced.once (.freed 0)
  omega

/-- A context whose page was given back. -/
def closed (ptr : ℕ) (context : Context) : Context :=
  { context.takenBack 0x1000 ptr 4096 with m_paddr2ptr := fun _ ↦ none }

theorem reopen_page {ptr : ℕ} (hmapped : context.mapped 0x1000 = true) :
    context.reopen (device missing) (page ptr) = some (closed ptr context) := by
  rw [reopen, page, clear_cons]
  simp only [hmapped, Bool.true_or, if_true]
  rfl

/-- An empty context that has loaded the page. -/
def withPage (context : Context) : Context :=
  (context.accepted (device false) 0x1000 4096).store context.buffers ((holding false).bytes 0 4096)

theorem load_empty (hempty : context.Empty) :
    context.load (device false) [] (pageFile false) = some (true, withPage context) := by
  have hclear : context.clear (device false) [] = some context := rfl
  have hload := load_pageFile hclear
  have haligned : alignedSize 4096 = 4096 := by decide
  rwa [allocate_impl_of_none (hempty 0x1000), haligned] at hload

/-- The page is loaded into a new context, and by the next one again. -/
theorem balanced_iff_loadsOnEmpty_page : ∃ machine destroyed now,
    run (step (device false)) new (saved ++ [.reopen (page 0), .load [] 0, .reopen (page 1)]) = some machine ∧
    machine.now.clear (device false) [] = some destroyed ∧ Balanced destroyed.log ∧
    machine.now.load (device false) [] (pageFile false) = some (true, now) ∧
    now.contents = (holding false).contents := by
  set first := closed 0 (holding false) with hfirst
  set second := withPage first with hsecond
  set third := closed 1 second with hthird
  have hempty : first.Empty := fun _ ↦ rfl
  have hsaved : step (device false) (.reopen (page 0)) ⟨holding false, [pageSnapshot false]⟩ =
      some ⟨first, [pageSnapshot false]⟩ := by
    rw [step, reopen_page rfl, map_some]
  have hload : step (device false) (.load [] 0) ⟨first, [pageSnapshot false]⟩ =
      some ⟨second, [pageSnapshot false]⟩ := by
    have hfile : (pageSnapshot false).file = pageFile false := rfl
    rw [step, List.getElem?_cons_zero, bind_some, hfile, load_empty hempty, map_some]
  have hreopen : step (device false) (.reopen (page 1)) ⟨second, [pageSnapshot false]⟩ =
      some ⟨third, [pageSnapshot false]⟩ := by
    rw [step, reopen_page rfl, map_some]
  have hrun : run (step (device false)) new (saved ++ [.reopen (page 0), .load [] 0, .reopen (page 1)]) =
      some ⟨third, [pageSnapshot false]⟩ := by
    rw [run_append, run_saved, bind_some, run_cons, hsaved, bind_some, run_cons, hload,
      bind_some, run_cons, hreopen]
    rfl
  have hnone : ∀ context : Context, context.Empty → Lists [] context := fun context h ↦
    ⟨List.nodup_nil, fun phys_addr ptr size ↦ by simp [h phys_addr]⟩
  have hguard : ∀ guard : Event → Machine → Prop, guard (.allocate 0x1000 1) new →
      guard (.save (page 0)) ⟨holding false, []⟩ → guard (.reopen (page 0)) ⟨holding false, [pageSnapshot false]⟩ →
      guard (.load [] 0) ⟨first, [pageSnapshot false]⟩ → guard (.reopen (page 1)) ⟨second, [pageSnapshot false]⟩ →
      Guarded (step (device false)) guard new (saved ++ [.reopen (page 0), .load [] 0, .reopen (page 1)]) := by
    intro guard h1 h2 h3 h4 h5
    refine (guarded_cons_of_step rfl).mpr ⟨h1, (guarded_cons_of_step rfl).mpr ⟨h2, ?_⟩⟩
    refine (guarded_cons_of_step hsaved).mpr ⟨h3, (guarded_cons_of_step hload).mpr ⟨h4, ?_⟩⟩
    exact (guarded_cons_of_step hreopen).mpr ⟨h5, trivial⟩
  have henvironment := hguard Environment trivial (lists_page rfl) (lists_page rfl)
    ⟨hnone first hempty, by simp⟩ (lists_page rfl)
  have hloads := hguard LoadsOnEmpty trivial trivial trivial hempty trivial
  obtain ⟨hbalanced, hcontents⟩ := balanced_iff_loadsOnEmpty (device false) _ [] henvironment fun machine h ↦ by
    cases hrun.symm.trans h
    exact hnone third fun _ ↦ rfl
  obtain ⟨machine, destroyed, hmachine, hdestroyed, hlog⟩ := hbalanced.mpr hloads
  cases hrun.symm.trans hmachine
  have hnow : third.load (device false) [] (pageFile false) = some (true, withPage third) := load_empty fun _ ↦ rfl
  refine ⟨_, destroyed, _, hrun, hdestroyed, hlog, hnow, ?_⟩
  have hlength : (pageSnapshot false).order.length < 2 ^ 32 := Nat.one_lt_pow (by decide) (by decide)
  exact ((hcontents _ (pageSnapshot false) [] _ hrun (List.mem_singleton_self _) hnow).1 fun _ ↦ rfl).mpr hlength

end Page

end Machine

end FdeEmugl.HostMemory
