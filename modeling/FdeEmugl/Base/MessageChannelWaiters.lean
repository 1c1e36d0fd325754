import FdeEmugl.Base.MessageChannel
import FdeEmugl.Library.CondVar
import FdeEmugl.Library.Runs

/-!
# The threads of a MessageChannel

A thread is shown by the call it is in. A call takes `mLock` and goes as far as it can: to its
end, or to a wait on one of the two condition variables. Senders and `waitForEmpty` wait on
`mCanWrite`, receivers on `mCanRead`. A signal wakes an arbitrary waiter, which takes `mLock`
again later; until then its wake-up is not delivered. A waiter may also wake up by itself.
-/

namespace FdeEmugl.Channel

open CondVar Runs
open MessageChannel
open List (append_nil countP_append countP_cons_of_neg eraseIdx_subset sublist_cons_self subset_nil)

variable {T : Type*}

inductive Call (T : Type*) where
  | send (msg : T)
  | trySend (msg : T)
  | receive
  | tryReceive
  | timedReceive
  | waitForEmpty
  | stop
deriving Repr, DecidableEq

namespace Call

def isSender : Call T → Bool
  | send _ => true
  | _ => false

/-- The calls that wait for a message. -/
def isReceiver : Call T → Bool
  | receive | timedReceive => true
  | _ => false

/-- The calls that take a message. -/
def isRead : Call T → Bool
  | receive | timedReceive | tryReceive => true
  | _ => false

end Call

open Call

structure System (T : Type*) where
  channel : MessageChannel T
  /-- The waiters of `mCanRead`. -/
  canRead : List (Call T)
  /-- The waiters of `mCanWrite`. -/
  canWrite : List (Call T)
  /-- The threads whose wake-up is not delivered. -/
  woken : List (Call T)
  /-- The timed receivers whose time has passed. -/
  expired : ℕ
  sent : List T
  received : List T

namespace System

/-- `mCanRead.signalAndUnlock`. -/
def signalRead (pick : ℕ) (s : System T) : Option (System T) := (signal pick s.canRead).map fun (woken, rest) ↦
    { s with canRead := rest, woken := woken ++ s.woken }

/-- `mCanWrite.signalAndUnlock`. -/
def signalWrite (pick : ℕ) (s : System T) : Option (System T) := (signal pick s.canWrite).map fun (woken, rest) ↦
    { s with canWrite := rest, woken := woken ++ s.woken }

variable [Inhabited T]

def new (T : Type*) [Inhabited T] (capacity : ℕ) : System T where
  channel := .new T capacity
  canRead := []
  canWrite := []
  woken := []
  expired := 0
  sent := []
  received := []

/-- A call that holds `mLock`. The loop of `beforeTimedRead` leaves the same way as that of
`beforeRead`, unless its time has passed. -/
def perform (pick : ℕ) (s : System T) : Call T → Option (System T)
  | .send msg =>
    match s.channel.send msg with
    | none => some { s with canWrite := .send msg :: s.canWrite }
    | some (res, channel) =>
      signalRead pick { s with channel := channel, sent := s.sent ++ if res then [msg] else [] }
  | .trySend msg =>
    let (res, channel) := s.channel.trySend msg
    signalRead pick { s with channel := channel, sent := s.sent ++ if res then [msg] else [] }
  | .receive =>
    match s.channel.receive with
    | none => some { s with canRead := .receive :: s.canRead }
    | some (res, channel) =>
      signalWrite pick { s with channel := channel, received := s.received ++ res.toList }
  | .timedReceive =>
    match s.channel.receive with
    | none => some { s with canRead := .timedReceive :: s.canRead }
    | some (res, channel) =>
      signalWrite pick { s with channel := channel, received := s.received ++ res.toList }
  | .tryReceive =>
    let (res, channel) := s.channel.tryReceive
    signalWrite pick { s with channel := channel, received := s.received ++ res.toList }
  | .waitForEmpty =>
    if s.channel.mCount > 0 then some { s with canWrite := .waitForEmpty :: s.canWrite } else some s
  | .stop =>
    some { s with
      channel := s.channel.stop
      canRead := []
      canWrite := []
      woken := s.canRead ++ s.canWrite ++ s.woken }

end System

/-- A signal is given with the number of the waiter that it picks. -/
inductive Event (T : Type*) where
  | call (call : Call T) (pick : ℕ)
  /-- A thread that was woken has taken `mLock` again. -/
  | retry (index pick : ℕ)
  /-- The time of a timed receiver has passed. -/
  | expire (index : ℕ)
  /-- It takes `mLock` and gives up. -/
  | giveUp (pick : ℕ)
  | wakeReader (index : ℕ)
  | wakeWriter (index : ℕ)
deriving Repr, DecidableEq

def step [Inhabited T] : Event T → System T → Option (System T)
  | .call call pick, s => s.perform pick call
  | .retry index pick, s =>
    s.woken[index]?.bind fun call ↦
      { s with woken := s.woken.eraseIdx index }.perform pick call
  | .expire index, s =>
    match s.canRead[index]? with
    | some .timedReceive =>
      some { s with canRead := s.canRead.eraseIdx index, expired := s.expired + 1 }
    | _ => none
  | .giveUp pick, s =>
    if 0 < s.expired then
      System.signalWrite pick { s with channel := s.channel.afterRead false, expired := s.expired - 1 }
    else none
  | .wakeReader index, s =>
    s.canRead[index]?.map fun call ↦
      { s with canRead := s.canRead.eraseIdx index, woken := call :: s.woken }
  | .wakeWriter index, s =>
    s.canWrite[index]?.map fun call ↦
      { s with canWrite := s.canWrite.eraseIdx index, woken := call :: s.woken }

/-- The call that an event performs, with the waiter its signal picks. -/
def Event.performs : Event T → System T → Option (Call T × ℕ)
  | .call made pick, _ => some (made, pick)
  | .retry index pick, s => s.woken[index]?.map fun made ↦ (made, pick)
  | _, _ => none

/-- The senders whose wake-up is not delivered. -/
def System.wokenSenders (s : System T) : ℕ := s.woken.countP isSender

/-- The signal wakes a sender. -/
def System.PicksSender (s : System T) (pick : ℕ) : Prop :=
  ∃ call, s.canWrite[pick]? = some call ∧ call.isSender = true

/-- A message is taken. If senders wait, the signal wakes one of them, or enough senders for the
free slots are on their way. If it was the last message and a `waitForEmpty` goes on waiting, the
signal wakes a sender or one is on its way. -/
def System.ReadKeeps (s : System T) (pick : ℕ) : Prop := ((∃ waiter ∈ s.canWrite, waiter.isSender = true) →
    s.PicksSender pick ∨ s.channel.mCapacity < s.channel.mCount + s.wokenSenders) ∧
  (s.channel.mCount = 1 → .waitForEmpty ∈ s.canWrite.eraseIdx pick → s.PicksSender pick ∨ 0 < s.wokenSenders)

/-- Every call that takes a message wakes the right thread. -/
def KeepsAwake (event : Event T) (s : System T) : Prop :=
  ∀ call pick, event.performs s = some (call, pick) → call.isRead = true → s.channel.mCount ≠ 0 → s.ReadKeeps pick

instance (s : System T) (pick : ℕ) : Decidable (s.PicksSender pick) :=
  decidable_of_iff (s.canWrite[pick]?.any isSender = true) (Option.any_eq_true ..)

instance [DecidableEq T] (s : System T) (pick : ℕ) : Decidable (s.ReadKeeps pick) :=
  inferInstanceAs (Decidable (_ ∧ _))

instance decidableKeepsAwake [DecidableEq T] (event : Event T) (s : System T) : Decidable (KeepsAwake event s) :=
  match h : event.performs s with
  | none => isTrue fun call pick hsome ↦ by rw [h] at hsome; cases hsome
  | some (call, pick) =>
    decidable_of_iff (call.isRead = true → s.channel.mCount ≠ 0 → s.ReadKeeps pick) <| by
      constructor
      · intro hkeeps call' pick' hsome
        rw [h] at hsome
        cases hsome
        exact hkeeps
      · exact fun hkeeps ↦ hkeeps call pick h

/-! ## What a call does to the channel -/

section Channel

variable [Inhabited T] {s next : System T} {pick : ℕ}

/-- The channel runs, or it was stopped and no one waits. What was sent was received or is in the
channel. -/
structure Sound (s : System T) : Prop where
  running : s.channel.mStopped = false → s.channel.Running
  delivered : s.channel.mStopped = false → s.sent = s.received ++ s.channel.content
  capacity : 0 < s.channel.mCapacity
  stopped : s.channel.mStopped = true → s.channel.mCount = 0 ∧ s.canRead = [] ∧ s.canWrite = []
  readers : ∀ call ∈ s.canRead, call.isReceiver = true
  writers : ∀ call ∈ s.canWrite, call.isSender = true ∨ call = .waitForEmpty

theorem sound_new {capacity : ℕ} (h : 0 < capacity) : Sound (System.new T capacity) where
  running _ := .new h
  delivered _ := (content_new capacity).symm
  capacity := h
  stopped := nofun
  readers := nofun
  writers := nofun

/-- What a call that holds `mLock` can do. -/
inductive Performed (pick : ℕ) (s : System T) : Call T → System T → Prop
  | waitToSend (msg : T) (hfull : s.channel.mCount = s.channel.mCapacity) (hopen : s.channel.mStopped = false) :
      Performed pick s (.send msg) { s with canWrite := .send msg :: s.canWrite }
  | write {call : Call T} {next : System T} (msg : T) {channel : MessageChannel T}
      (hcall : call.isReceiver = false) (hopen : s.channel.mStopped = false)
      (hrunning : channel.Running)
      (hcapacity : channel.mCapacity = s.channel.mCapacity)
      (hcontent : channel.content = s.channel.content ++ [msg])
      (hsignal : { s with channel := channel, sent := s.sent ++ [msg] }.signalRead pick = some next) :
      Performed pick s call next
  | noWrite {call : Call T} {next : System T} (hcall : call.isReceiver = false)
      (hsignal : s.signalRead pick = some next)
      (hfull : s.channel.mStopped = false → call.isSender = false) :
      Performed pick s call next
  | waitToReceive {call : Call T} (hcall : call.isReceiver = true) (hempty : s.channel.mCount = 0)
      (hopen : s.channel.mStopped = false) :
      Performed pick s call { s with canRead := call :: s.canRead }
  | read {call : Call T} {next : System T} (msg : T) {channel : MessageChannel T}
      (hcall : call.isRead = true) (hopen : s.channel.mStopped = false) (hrunning : channel.Running)
      (hcapacity : channel.mCapacity = s.channel.mCapacity)
      (hcontent : s.channel.content = msg :: channel.content)
      (hsignal : { s with channel := channel, received := s.received ++ [msg] }.signalWrite pick = some next) :
      Performed pick s call next
  | noRead {call : Call T} {next : System T} (hcall : call.isRead = true)
      (hempty : s.channel.mCount = 0) (hsignal : s.signalWrite pick = some next) :
      Performed pick s call next
  | waitForEmpty (hcount : 0 < s.channel.mCount) :
      Performed pick s .waitForEmpty { s with canWrite := .waitForEmpty :: s.canWrite }
  | isEmpty : Performed pick s .waitForEmpty s
  | stop : Performed pick s .stop { s with
          channel := s.channel.stop
          canRead := []
          canWrite := []
          woken := s.canRead ++ s.canWrite ++ s.woken }

theorem performed_send (h : Sound s) {msg : T} (hperform : s.perform pick (.send msg) = some next) :
    Performed pick s (.send msg) next := by
  simp only [System.perform] at hperform
  cases hstopped : s.channel.mStopped with
  | true =>
    rw [send_stopped hstopped] at hperform
    simp only [Bool.false_eq_true, if_false, append_nil] at hperform
    exact .noWrite rfl hperform fun hopen ↦ absurd hstopped (by rw [hopen]; decide)
  | false =>
    obtain ⟨hnone, hfull⟩ | ⟨channel, hsome, hrunning, hcontent, -⟩ := send_eq (h.running hstopped) msg
    · rw [hnone] at hperform
      cases hperform
      exact .waitToSend msg ((length_content _).symm.trans hfull) hstopped
    · rw [hsome] at hperform
      exact .write msg rfl hstopped hrunning (mCapacity_send hsome) hcontent hperform

theorem performed_trySend (h : Sound s) {msg : T} (hperform : s.perform pick (.trySend msg) = some next) :
    Performed pick s (.trySend msg) next := by
  simp only [System.perform] at hperform
  cases hstopped : s.channel.mStopped with
  | true =>
    rw [trySend_stopped hstopped] at hperform
    simp only [Bool.false_eq_true, if_false, append_nil] at hperform
    exact .noWrite rfl hperform fun _ ↦ rfl
  | false =>
    obtain ⟨hsame, -⟩ | ⟨channel, hsome, hrunning, hcontent, -⟩ := trySend_eq (h.running hstopped) msg
    · rw [hsame] at hperform
      simp only [Bool.false_eq_true, if_false, append_nil] at hperform
      exact .noWrite rfl hperform fun _ ↦ rfl
    · have hcapacity := mCapacity_trySend s.channel msg
      rw [hsome] at hperform hcapacity
      exact .write msg rfl hstopped hrunning hcapacity hcontent hperform

/-- The end of a blocking receive, after a wait or not. -/
theorem performed_receive (h : Sound s) {call : Call T} (hcall : call.isReceiver = true) (hread : call.isRead = true)
    (hperform : (match s.channel.receive with
      | none => some { s with canRead := call :: s.canRead }
      | some (res, channel) =>
        { s with channel := channel, received := s.received ++ res.toList }.signalWrite pick) = some next) :
    Performed pick s call next := by
  cases hstopped : s.channel.mStopped with
  | true =>
    rw [receive_stopped hstopped] at hperform
    simp only [Option.toList_none, append_nil] at hperform
    exact .noRead hread (h.stopped hstopped).1 hperform
  | false =>
    obtain ⟨hnone, hempty⟩ | ⟨msg, channel, hsome, hrunning, hcontent⟩ :=
      receive_eq (h.running hstopped)
    · rw [hnone] at hperform
      cases hperform
      have hcount := length_content s.channel
      rw [hempty] at hcount
      exact .waitToReceive hcall hcount.symm hstopped
    · rw [hsome] at hperform
      exact .read msg hread hstopped hrunning (mCapacity_receive hsome) hcontent hperform

theorem performed_tryReceive (h : Sound s) (hperform : s.perform pick .tryReceive = some next) :
    Performed pick s .tryReceive next := by
  simp only [System.perform] at hperform
  cases hstopped : s.channel.mStopped with
  | true =>
    rw [tryReceive_stopped hstopped] at hperform
    simp only [Option.toList_none, append_nil] at hperform
    exact .noRead rfl (h.stopped hstopped).1 hperform
  | false =>
    obtain ⟨hsame, hempty⟩ | ⟨msg, channel, hsome, hrunning, hcontent⟩ :=
      tryReceive_eq (h.running hstopped)
    · have hcount := length_content s.channel
      rw [hempty] at hcount
      rw [hsame] at hperform
      simp only [Option.toList_none, append_nil] at hperform
      exact .noRead rfl hcount.symm hperform
    · have hcapacity := mCapacity_tryReceive s.channel
      rw [hsome] at hperform hcapacity
      exact .read msg rfl hstopped hrunning hcapacity hcontent hperform

theorem performed_of_perform (h : Sound s) {call : Call T}
    (hperform : s.perform pick call = some next) : Performed pick s call next := by
  cases call with
  | send msg => exact performed_send h hperform
  | trySend msg => exact performed_trySend h hperform
  | receive => exact performed_receive h rfl rfl hperform
  | timedReceive => exact performed_receive h rfl rfl hperform
  | tryReceive => exact performed_tryReceive h hperform
  | waitForEmpty =>
    simp only [System.perform] at hperform
    split at hperform
    · cases hperform
      exact .waitForEmpty ‹_›
    · cases hperform
      exact .isEmpty
  | stop =>
    cases hperform
    exact .stop

/-! ## Soundness -/

omit [Inhabited T] in
theorem signalRead_eq (h : s.signalRead pick = some next) : ∃ woken rest, signal pick s.canRead = some (woken, rest) ∧
      next = { s with canRead := rest, woken := woken ++ s.woken } := by
  obtain ⟨⟨woken, rest⟩, hsignal, hnext⟩ := Option.map_eq_some_iff.mp h
  exact ⟨woken, rest, hsignal, hnext.symm⟩

omit [Inhabited T] in
theorem signalWrite_eq (h : s.signalWrite pick = some next) :
    ∃ woken rest, signal pick s.canWrite = some (woken, rest) ∧
      next = { s with canWrite := rest, woken := woken ++ s.woken } := by
  obtain ⟨⟨woken, rest⟩, hsignal, hnext⟩ := Option.map_eq_some_iff.mp h
  exact ⟨woken, rest, hsignal, hnext.symm⟩

/-- Waiters may leave at any time. -/
theorem Sound.leave (h : Sound s) {canRead canWrite woken : List (Call T)} {expired : ℕ}
    (hread : canRead ⊆ s.canRead) (hwrite : canWrite ⊆ s.canWrite) :
    Sound { s with
      canRead := canRead, canWrite := canWrite, woken := woken, expired := expired } := by
  refine ⟨h.running, h.delivered, h.capacity, ?_, fun call hcall ↦ h.readers call (hread hcall),
    fun call hcall ↦ h.writers call (hwrite hcall)⟩
  intro hstopped
  obtain ⟨hcount, hreaders, hwriters⟩ := h.stopped hstopped
  rw [hreaders] at hread
  rw [hwriters] at hwrite
  exact ⟨hcount, subset_nil.mp hread, subset_nil.mp hwrite⟩

omit [Inhabited T] in
theorem rest_subset {waiters woken rest : List (Call T)} (h : signal pick waiters = some (woken, rest)) :
    rest ⊆ waiters :=
  fun _ hcall ↦ (signal_perm h).subset (List.mem_append_right _ hcall)

theorem Sound.signalRead (h : Sound s) (hsignal : s.signalRead pick = some next) : Sound next := by
  obtain ⟨woken, rest, hpick, rfl⟩ := signalRead_eq hsignal
  exact h.leave (rest_subset hpick) (List.Subset.refl _)

theorem Sound.signalWrite (h : Sound s) (hsignal : s.signalWrite pick = some next) : Sound next := by
  obtain ⟨woken, rest, hpick, rfl⟩ := signalWrite_eq hsignal
  exact h.leave (List.Subset.refl _) (rest_subset hpick)

theorem sound_performed (h : Sound s) {call : Call T} (hperformed : Performed pick s call next) : Sound next := by
  cases hperformed with
  | waitToSend msg hfull hopen =>
    refine { h with stopped := fun hstopped ↦ ?_, writers := ?_ }
    · rw [hopen] at hstopped; cases hstopped
    · rintro call (_ | ⟨_, hcall⟩)
      · exact .inl rfl
      · exact h.writers call hcall
  | write msg _ hopen hrunning hcapacity hcontent hsignal =>
    refine Sound.signalRead ?_ hsignal
    refine ⟨fun _ ↦ hrunning, fun _ ↦ ?_, hcapacity ▸ h.capacity, fun hstopped ↦ ?_, h.readers, h.writers⟩
    · rw [hcontent, h.delivered hopen, List.append_assoc]
    · rw [hrunning.not_stopped] at hstopped; cases hstopped
  | noWrite _ hsignal => exact h.signalRead hsignal
  | waitToReceive hcall hempty hopen =>
    refine { h with stopped := fun hstopped ↦ ?_, readers := ?_ }
    · rw [hopen] at hstopped; cases hstopped
    · rintro other (_ | ⟨_, hother⟩)
      · exact hcall
      · exact h.readers other hother
  | read msg hcall hopen hrunning hcapacity hcontent hsignal =>
    refine Sound.signalWrite ?_ hsignal
    refine ⟨fun _ ↦ hrunning, fun _ ↦ ?_, hcapacity ▸ h.capacity, fun hstopped ↦ ?_, h.readers, h.writers⟩
    · rw [h.delivered hopen, hcontent, List.append_assoc]
      rfl
    · rw [hrunning.not_stopped] at hstopped; cases hstopped
  | noRead _ _ hsignal => exact h.signalWrite hsignal
  | waitForEmpty hcount =>
    refine { h with stopped := fun hstopped ↦ ?_, writers := ?_ }
    · have hzero := (h.stopped hstopped).1
      omega
    · rintro call (_ | ⟨_, hcall⟩)
      · exact .inr rfl
      · exact h.writers call hcall
  | isEmpty => exact h
  | stop => exact ⟨nofun, nofun, h.capacity, fun _ ↦ ⟨rfl, rfl, rfl⟩, nofun, nofun⟩

theorem sound_step {event : Event T} (h : Sound s) (hstep : step event s = some next) : Sound next := by
  cases event with
  | call call pick => exact sound_performed h (performed_of_perform h hstep)
  | retry index pick =>
    obtain ⟨call, _, hperform⟩ := Option.bind_eq_some_iff.mp hstep
    have hleft : Sound { s with woken := s.woken.eraseIdx index } := h.leave (List.Subset.refl _) (List.Subset.refl _)
    exact sound_performed hleft (performed_of_perform hleft hperform)
  | expire index =>
    simp only [step] at hstep
    split at hstep
    · cases hstep
      exact h.leave eraseIdx_subset (List.Subset.refl _)
    · cases hstep
  | giveUp pick =>
    obtain ⟨-, hsignal⟩ := Option.ite_none_right_eq_some.mp hstep
    exact Sound.signalWrite (h.leave (List.Subset.refl _) (List.Subset.refl _)) hsignal
  | wakeReader index =>
    obtain ⟨call, -, rfl⟩ := Option.map_eq_some_iff.mp hstep
    exact h.leave eraseIdx_subset (List.Subset.refl _)
  | wakeWriter index =>
    obtain ⟨call, -, rfl⟩ := Option.map_eq_some_iff.mp hstep
    exact h.leave (List.Subset.refl _) eraseIdx_subset

/-! ## No one is forgotten -/

/-- Enough of the threads on their way are of use to those that wait. -/
structure Awake (woken : List (Call T)) (s : System T) : Prop where
  receivers : s.canRead ≠ [] → s.channel.mCount ≤ woken.countP isReceiver
  senders : (∃ waiter ∈ s.canWrite, waiter.isSender = true) →
    s.channel.mCapacity ≤ s.channel.mCount + woken.countP isSender
  empties : .waitForEmpty ∈ s.canWrite → s.channel.mCount = 0 → 0 < woken.countP isSender

omit [Inhabited T] in
/-- Waiters leave, and no thread that is on its way gets lost. -/
theorem Awake.leave {woken : List (Call T)} (h : Awake woken s) {canRead canWrite woken' : List (Call T)}
    {expired : ℕ} (hread : canRead ⊆ s.canRead) (hwrite : canWrite ⊆ s.canWrite)
    (hreceivers : woken.countP isReceiver ≤ woken'.countP isReceiver)
    (hsenders : woken.countP isSender ≤ woken'.countP isSender) :
    Awake woken' { s with
      canRead := canRead, canWrite := canWrite, woken := woken', expired := expired } := by
  refine ⟨?_, ?_, ?_⟩
  · intro hsome
    have hcount := h.receivers fun hnil ↦ hsome (subset_nil.mp (hnil ▸ hread))
    exact hcount.trans hreceivers
  · rintro ⟨waiter, hwaiter, hsender⟩
    have hcount := h.senders ⟨waiter, hwrite hwaiter, hsender⟩
    exact hcount.trans (Nat.add_le_add_left hsenders _)
  · intro hwaiter hzero
    exact (h.empties (hwrite hwaiter) hzero).trans_le hsenders

omit [Inhabited T] in
theorem isSender_of_isRead {call : Call T} (h : call.isRead = true) : call.isSender = false := by
  cases call with
  | send msg => cases h
  | _ => rfl

/-- A signal that leaves receivers waiting has woken one. -/
theorem countP_woken_readers (h : Sound s) {woken rest : List (Call T)}
    (hsignal : signal pick s.canRead = some (woken, rest)) (hrest : rest ≠ []) :
    woken.countP isReceiver = 1 := by
  rw [← length_woken hsignal hrest, List.countP_eq_length]
  exact fun call hcall ↦ h.readers call ((signal_perm hsignal).subset (List.mem_append_left _ hcall))

omit [Inhabited T] in
theorem countP_woken_picked {woken rest : List (Call T)} (hpicks : s.PicksSender pick)
    (hsignal : signal pick s.canWrite = some (woken, rest)) : woken.countP isSender = 1 := by
  obtain ⟨call, hcall, hsender⟩ := hpicks
  rcases signal_cases hsignal with ⟨hnil, -, -⟩ | ⟨waiter, hwaiter, rfl, -⟩
  · rw [hnil] at hcall
    cases hcall
  · rw [hcall, Option.some.injEq] at hwaiter
    rw [← hwaiter, List.countP_singleton, if_pos hsender]

omit [Inhabited T] in
variable {woken rest : List (Call T)} {call : Call T}

theorem eraseIdx_of_signal {waiters : List (Call T)} (h : signal pick waiters = some (woken, rest)) :
    rest = waiters.eraseIdx pick := by
  rcases signal_cases h with ⟨rfl, -, rfl⟩ | ⟨_, _, -, rfl⟩
  · rfl
  · rfl

theorem mCount_of_content {channel channel' : MessageChannel T} {msg : T}
    (h : channel'.content = channel.content ++ [msg]) : channel'.mCount = channel.mCount + 1 := by
  rw [← length_content, h, List.length_append, length_content]
  rfl

theorem awake_write {msg : T} {channel : MessageChannel T} (h : Sound s) (hawake : Awake (call :: s.woken) s)
    (hcall : call.isReceiver = false) (hcapacity : channel.mCapacity = s.channel.mCapacity)
    (hcontent : channel.content = s.channel.content ++ [msg])
    (hsignal : signal pick s.canRead = some (woken, rest)) :
    Awake (woken ++ s.woken) { s with
        channel := channel
        canRead := rest
        woken := woken ++ s.woken
        sent := s.sent ++ [msg] } := by
  have hcount := mCount_of_content hcontent
  refine ⟨?_, ?_, ?_⟩
  · intro hrest
    have hone := countP_woken_readers h hsignal hrest
    have hle := hawake.receivers fun hnil ↦ hrest (subset_nil.mp (hnil ▸ rest_subset hsignal))
    rw [countP_cons_of_neg (by simp [hcall])] at hle
    simp only [countP_append]
    omega
  · intro hsender
    have hle := hawake.senders hsender
    have hhand := List.countP_cons (p := isSender) (a := call) (l := s.woken)
    simp only [countP_append]
    split at hhand <;> omega
  · intro _ hzero
    have : channel.mCount = 0 := hzero
    omega

theorem awake_noWrite (h : Sound s) (hawake : Awake (call :: s.woken) s) (hcall : call.isReceiver = false)
    (hfull : s.channel.mStopped = false → call.isSender = false)
    (hsignal : signal pick s.canRead = some (woken, rest)) :
    Awake (woken ++ s.woken) { s with canRead := rest, woken := woken ++ s.woken } := by
  cases hstopped : s.channel.mStopped with
  | true =>
    obtain ⟨hcount, hreaders, hwriters⟩ := h.stopped hstopped
    have hrest := subset_nil.mp (hreaders ▸ rest_subset hsignal)
    refine ⟨fun hne ↦ absurd hrest hne, ?_, ?_⟩
    · rintro ⟨waiter, hwaiter, -⟩
      rw [hwriters] at hwaiter
      cases hwaiter
    · intro hwaiter
      rw [hwriters] at hwaiter
      cases hwaiter
  | false =>
    have hsender := hfull hstopped
    refine hawake.leave (rest_subset hsignal) (List.Subset.refl _) ?_ ?_
    · rw [countP_cons_of_neg (by simp [hcall]), countP_append]
      omega
    · rw [countP_cons_of_neg (by simp [hsender]), countP_append]
      omega

theorem awake_read {msg : T} {channel : MessageChannel T} (hawake : Awake (call :: s.woken) s)
    (hcall : call.isRead = true) (hcapacity : channel.mCapacity = s.channel.mCapacity)
    (hcontent : s.channel.content = msg :: channel.content)
    (hsignal : signal pick s.canWrite = some (woken, rest)) (hkeeps : s.ReadKeeps pick) :
    Awake (woken ++ s.woken) { s with
        channel := channel
        canWrite := rest
        woken := woken ++ s.woken
        received := s.received ++ [msg] } := by
  have hcount : s.channel.mCount = channel.mCount + 1 := by
    rw [← length_content, hcontent, List.length_cons, length_content]
  have hhand : (call :: s.woken).countP isSender = s.wokenSenders :=
    countP_cons_of_neg (by simp [isSender_of_isRead hcall])
  refine ⟨?_, ?_, ?_⟩
  · intro hrest
    have hle := hawake.receivers hrest
    have hhand := List.countP_cons (p := isReceiver) (a := call) (l := s.woken)
    simp only [countP_append]
    split at hhand <;> omega
  · rintro ⟨waiter, hwaiter, hsender⟩
    have hwaits : ∃ waiter ∈ s.canWrite, waiter.isSender = true := ⟨waiter, rest_subset hsignal hwaiter, hsender⟩
    have hle := hawake.senders hwaits
    simp only [countP_append]
    rcases hkeeps.1 hwaits with hpicks | henough
    · have hone := countP_woken_picked hpicks hsignal
      rw [hhand, System.wokenSenders] at hle
      omega
    · rw [System.wokenSenders] at henough
      omega
  · intro hwaiter hzero
    have hlast : s.channel.mCount = 1 := by
      rw [hcount]
      exact congrArg (· + 1) hzero
    simp only [countP_append]
    rcases hkeeps.2 hlast (eraseIdx_of_signal hsignal ▸ hwaiter) with hpicks | henough
    · have hone := countP_woken_picked hpicks hsignal
      omega
    · rw [System.wokenSenders] at henough
      omega

omit [Inhabited T] in
theorem Awake.signalWrite {woken woken' rest : List (Call T)} (h : Awake woken s)
    (hsignal : signal pick s.canWrite = some (woken', rest))
    (hreceivers : s.canRead ≠ [] → s.channel.mCount ≤ s.woken.countP isReceiver)
    (hsenders : woken.countP isSender = s.woken.countP isSender) :
    Awake (woken' ++ s.woken) { s with canWrite := rest, woken := woken' ++ s.woken } := by
  refine ⟨?_, ?_, ?_⟩
  · intro hsome
    have hle := hreceivers hsome
    simp only [countP_append]
    omega
  · rintro ⟨waiter, hwaiter, hsender⟩
    have hle := h.senders ⟨waiter, rest_subset hsignal hwaiter, hsender⟩
    simp only [countP_append]
    omega
  · intro hwaiter hzero
    have hlt := h.empties (rest_subset hsignal hwaiter) hzero
    simp only [countP_append]
    omega

/-- A call in hand counts as being on its way until it has done what it does. -/
theorem awake_performed {call : Call T} (h : Sound s) (hawake : Awake (call :: s.woken) s)
    (hkeeps : call.isRead = true → s.channel.mCount ≠ 0 → s.ReadKeeps pick)
    (hperformed : Performed pick s call next) : Awake next.woken next := by
  cases hperformed with
  | waitToSend msg hfull hopen =>
    have hcapacity := h.capacity
    refine ⟨hawake.receivers, fun _ ↦ ?_, fun _ hzero ↦ ?_⟩
    · exact hfull.ge.trans (Nat.le_add_right _ _)
    · have : s.channel.mCount = 0 := hzero
      omega
  | write msg hcall hopen hrunning hcapacity hcontent hsignal =>
    obtain ⟨woken, rest, hpick, rfl⟩ := signalRead_eq hsignal
    exact awake_write h hawake hcall hcapacity hcontent hpick
  | noWrite hcall hsignal hfull =>
    obtain ⟨woken, rest, hpick, rfl⟩ := signalRead_eq hsignal
    exact awake_noWrite h hawake hcall hfull hpick
  | waitToReceive hcall hempty hopen =>
    have hsender : call.isSender = false := by
      cases call with
      | send msg => cases hcall
      | _ => rfl
    have hhand : (call :: s.woken).countP isSender = s.woken.countP isSender :=
      countP_cons_of_neg (by simp [hsender])
    exact ⟨fun _ ↦ hempty.le.trans (Nat.zero_le _), hhand ▸ hawake.senders, hhand ▸ hawake.empties⟩
  | read msg hcall hopen hrunning hcapacity hcontent hsignal =>
    obtain ⟨woken, rest, hpick, rfl⟩ := signalWrite_eq hsignal
    have hcount : s.channel.mCount ≠ 0 := by
      rw [← length_content, hcontent]
      exact Nat.succ_ne_zero _
    exact awake_read hawake hcall hcapacity hcontent hpick (hkeeps hcall hcount)
  | noRead hcall hempty hsignal =>
    obtain ⟨woken, rest, hpick, rfl⟩ := signalWrite_eq hsignal
    apply hawake.signalWrite hpick
    · exact fun _ ↦ hempty.le.trans (Nat.zero_le _)
    · exact countP_cons_of_neg (by simp [isSender_of_isRead hcall])
  | waitForEmpty hcount =>
    refine ⟨hawake.receivers, ?_, fun _ hzero ↦ absurd hzero hcount.ne'⟩
    rintro ⟨waiter, _ | ⟨_, hwaiter⟩, hsender⟩
    · cases hsender
    · exact hawake.senders ⟨waiter, hwaiter, hsender⟩
  | isEmpty => exact ⟨hawake.receivers, hawake.senders, hawake.empties⟩
  | stop => exact ⟨fun hne ↦ absurd rfl hne, nofun, nofun⟩

omit [Inhabited T] in
/-- It does not matter in which order the threads are on their way. -/
theorem Awake.perm {woken woken' : List (Call T)} (h : Awake woken s) (hperm : woken'.Perm woken) :
    Awake woken' s := by
  refine ⟨?_, ?_, ?_⟩
  · rw [hperm.countP_eq]
    exact h.receivers
  · rw [hperm.countP_eq]
    exact h.senders
  · rw [hperm.countP_eq]
    exact h.empties

theorem awake_step {event : Event T} (h : Sound s) (hawake : Awake s.woken s)
    (hkeeps : KeepsAwake event s) (hstep : step event s = some next) : Awake next.woken next := by
  cases event with
  | call call pick =>
    have hhand : Awake (call :: s.woken) s :=
      ⟨fun hsome ↦ (hawake.receivers hsome).trans (sublist_cons_self ..).countP_le,
        fun hsender ↦ (hawake.senders hsender).trans (Nat.add_le_add_left (sublist_cons_self ..).countP_le _),
        fun hwaiter hzero ↦ (hawake.empties hwaiter hzero).trans_le (sublist_cons_self ..).countP_le⟩
    exact awake_performed h hhand (hkeeps call pick rfl) (performed_of_perform h hstep)
  | retry index pick =>
    obtain ⟨call, hcall, hperform⟩ := Option.bind_eq_some_iff.mp hstep
    have hperm := perm_of_getElem? hcall
    have hleft : Sound { s with woken := s.woken.eraseIdx index } := h.leave (List.Subset.refl _) (List.Subset.refl _)
    have hhand := hawake.perm hperm
    refine awake_performed hleft ⟨hhand.receivers, hhand.senders, hhand.empties⟩ ?_
      (performed_of_perform hleft hperform)
    intro hread hcount
    have hperforms : (Event.retry index pick).performs s = some (call, pick) := by
      rw [Event.performs, hcall]
      rfl
    have hsenders : s.wokenSenders = (s.woken.eraseIdx index).countP isSender := by
      rw [System.wokenSenders, ← hperm.countP_eq, countP_cons_of_neg (by simp [isSender_of_isRead hread])]
    have hguard := hkeeps call pick hperforms hread hcount
    rw [System.ReadKeeps, hsenders] at hguard
    exact hguard
  | expire index =>
    simp only [step] at hstep
    split at hstep
    · cases hstep
      exact hawake.leave eraseIdx_subset (List.Subset.refl _) le_rfl le_rfl
    · cases hstep
  | giveUp pick =>
    obtain ⟨-, hsignal⟩ := Option.ite_none_right_eq_some.mp hstep
    obtain ⟨woken, rest, hpick, rfl⟩ := signalWrite_eq hsignal
    have hleft : Awake s.woken { s with expired := s.expired - 1 } :=
      ⟨hawake.receivers, hawake.senders, hawake.empties⟩
    exact hleft.signalWrite hpick hawake.receivers rfl
  | wakeReader index =>
    obtain ⟨call, -, rfl⟩ := Option.map_eq_some_iff.mp hstep
    exact hawake.leave eraseIdx_subset (List.Subset.refl _) (sublist_cons_self ..).countP_le
      (sublist_cons_self ..).countP_le
  | wakeWriter index =>
    obtain ⟨call, -, rfl⟩ := Option.map_eq_some_iff.mp hstep
    exact hawake.leave (List.Subset.refl _) eraseIdx_subset (sublist_cons_self ..).countP_le
      (sublist_cons_self ..).countP_le

end Channel

/-- In every state before `stop` the received messages and those in the channel are the ones sent,
in order, and the positions are in range. In every state in which no wake-up is outstanding no one
waits for what is there already. -/
theorem no_stuck_waiter [Inhabited T] {capacity : ℕ} (hcapacity : 0 < capacity)
    {events : List (Event T)} {s : System T}
    (hkeeps : Guarded step KeepsAwake (System.new T capacity) events)
    (hrun : run step (System.new T capacity) events = some s) :
    (s.channel.mStopped = false →
      s.sent = s.received ++ s.channel.content ∧ s.channel.mPos < s.channel.mCapacity ∧
        s.channel.mCount ≤ s.channel.mCapacity) ∧
    (s.woken = [] →
      (∀ msg, .send msg ∈ s.canWrite → ¬ s.channel.mCount < s.channel.mCapacity) ∧
      (∀ call ∈ s.canRead, ¬ 0 < s.channel.mCount) ∧
      (.waitForEmpty ∈ s.canWrite → s.channel.mCount ≠ 0)) := by
  have hstep : ∀ event (s next : System T), Sound s ∧ Awake s.woken s → KeepsAwake event s →
      step event s = some next → Sound next ∧ Awake next.woken next :=
    fun event s next h hguard hnext ↦ ⟨sound_step h.1 hnext, awake_step h.1 h.2 hguard hnext⟩
  have hnew : Awake (System.new T capacity).woken (System.new T capacity) :=
    ⟨fun hne ↦ absurd rfl hne, nofun, nofun⟩
  obtain ⟨hsound, hawake⟩ := invariant_of_guarded _ hstep ⟨sound_new hcapacity, hnew⟩ hkeeps hrun
  constructor
  · intro hopen
    have hrunning := hsound.running hopen
    exact ⟨hsound.delivered hopen, hrunning.pos_lt, hrunning.count_le⟩
  · intro hnone
    rw [hnone] at hawake
    refine ⟨?_, ?_, ?_⟩
    · intro msg hwaits hroom
      have hle := hawake.senders ⟨_, hwaits, rfl⟩
      rw [List.countP_nil] at hle
      omega
    · intro call hwaits hsome
      have hle := hawake.receivers (List.ne_nil_of_mem hwaits)
      rw [List.countP_nil] at hle
      omega
    · intro hwaits hzero
      exact absurd (hawake.empties hwaits hzero) (Nat.lt_irrefl 0)

/-- A channel of one slot: a second sender and a `waitForEmpty` wait. -/
def crowded : List (Event Bool) := [.call (.send true) 0, .call (.send false) 0, .call .waitForEmpty 0]

/-- The receiver wakes the sender. -/
theorem no_stuck_waiter_crowded :
    Guarded step KeepsAwake (System.new Bool 1) (crowded ++ [.call .receive 1, .retry 0 0]) ∧
      ∃ s, run step (System.new Bool 1) (crowded ++ [.call .receive 1, .retry 0 0]) = some s ∧
        .waitForEmpty ∈ s.canWrite ∧ s.channel.mCount ≠ 0 := by
  have hkeeps : Guarded step KeepsAwake (System.new Bool 1)
      (crowded ++ [.call .receive 1, .retry 0 0]) := by decide
  have hwaits : Call.waitForEmpty ∈ [(Call.waitForEmpty : Call Bool)] := by decide
  refine ⟨hkeeps, _, rfl, hwaits, ?_⟩
  exact ((no_stuck_waiter Nat.one_pos hkeeps rfl).2 rfl).2.2 hwaits

/-- The receiver wakes the `waitForEmpty`, which returns, and the sender goes on waiting beside a
free slot. -/
theorem sender_stuck :
    ∃ s, run step (System.new Bool 1) (crowded ++ [.call .receive 0, .retry 0 0]) = some s ∧
      s.woken = [] ∧ .send false ∈ s.canWrite ∧ s.channel.mCount < s.channel.mCapacity := by
  refine ⟨_, rfl, rfl, ?_, ?_⟩
  · decide
  · decide

end FdeEmugl.Channel
