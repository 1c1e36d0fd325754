import FdeEmugl.Base.MessageChannel
import FdeEmugl.Library.Runs

/-!
# SyncThread: requests and replies

Any threads call the sync thread. A call puts its command into `mInput`; a blocking
one then takes the next result out of `mOutput`. The sync thread takes commands out
of `mInput`, executes them one after the other and puts a result into `mOutput` when
one is needed. Every send and every receive is one step, and the steps of all the
threads interleave freely.

The results carry nothing that says which command they answer. To speak about the
command a caller waits for, each call gets a number, its ticket, which travels with the
command; no step of the program looks at it. What the EGL calls and the timelines do
while a command executes is left out.
-/

namespace FdeEmugl.Sync

open Channel Runs

inductive SyncThreadOpCode where
  | init
  | wait
  | exit
  | blockedWaitNoTimeline
deriving Repr, DecidableEq, Inhabited

structure SyncThreadCmd where
  opCode : SyncThreadOpCode := .init
  needReply : Bool := false
  /-- The pointer; zero is null. -/
  fenceSync : UInt64 := 0
  timeline : UInt64 := 0
deriving Repr, DecidableEq, Inhabited

/-- A command on its way, with the ticket of the call that sent it. -/
structure Request where
  cmd : SyncThreadCmd
  ticket : ℕ
deriving Repr, DecidableEq, Inhabited

/-- The methods of `SyncThread` that other threads call. -/
inductive Method where
  | triggerWait (fenceSync timeline : UInt64)
  | triggerBlockedWaitNoTimeline (fenceSync : UInt64)
  | cleanup
  | initSyncContext
deriving Repr, DecidableEq

/-- The command a method sends: `sendAsync` clears `needReply`, `sendAndWaitForResult` sets it. -/
def Method.toSend : Method → SyncThreadCmd
  | .triggerWait fenceSync timeline =>
    { opCode := .wait, fenceSync := fenceSync, timeline := timeline, needReply := false }
  | .triggerBlockedWaitNoTimeline fenceSync =>
    { opCode := .blockedWaitNoTimeline, fenceSync := fenceSync, needReply := true }
  | .cleanup => { opCode := .exit, needReply := true }
  | .initSyncContext => { opCode := .init, needReply := true }

/-- The result of a command: 0 for every op code. -/
def doSyncThreadCmd (cmd : SyncThreadCmd) : Int32 :=
  let result := 0
  match cmd.opCode with
  | .init => result
  | .wait => result
  | .exit => result
  | .blockedWaitNoTimeline => result

/-- Where the sync thread is in its loop. -/
inductive Worker where
  | receiving
  | executing (request : Request)
  | replying (request : Request) (result : Int32)
  | exited
deriving Repr, DecidableEq

/-- Where another thread is: outside, before `mInput.send`, or in `mOutput.receive`. -/
inductive Caller where
  | idle
  | sending (request : Request)
  | waiting (ticket : ℕ)
deriving Repr, DecidableEq

def Caller.isWaiting : Caller → Bool
  | .waiting _ => true
  | _ => false

/-- The thread is about to put a command into `mInput` whose result it will wait for. -/
def Caller.sendsBlocking : Caller → Bool
  | .sending request => request.cmd.needReply
  | _ => false

structure System (Thread : Type*) where
  mInput : MessageChannel Request
  mOutput : MessageChannel Int32
  worker : Worker
  callers : Thread → Caller
  nextTicket : ℕ
  /-- The tickets of the commands that have been executed. -/
  finished : List ℕ
  /-- The tickets of the calls of `sendAndWaitForResult` that have returned. -/
  returned : List ℕ

def kSyncThreadChannelCapacity : ℕ := 256

/-- A sync thread that has started, and no calls yet. -/
def System.new (Thread : Type*) : System Thread where
  mInput := .new Request kSyncThreadChannelCapacity
  mOutput := .new Int32 kSyncThreadChannelCapacity
  worker := .receiving
  callers := fun _ ↦ .idle
  nextTicket := 0
  finished := []
  returned := []

inductive Event (Thread : Type*) where
  | call (thread : Thread) (method : Method)
  | send (thread : Thread)
  | takeResult (thread : Thread)
  | receive
  | execute
  | reply

/-- The loop goes round unless the command was the last one. -/
def Worker.next (cmd : SyncThreadCmd) : Worker := if cmd.opCode = .exit then .exited else .receiving

section Steps

variable {Thread : Type*} [DecidableEq Thread]

def step : Event Thread → System Thread → Option (System Thread)
  | .call thread method, s =>
    match s.callers thread with
    | .idle =>
      some { s with
        callers := Function.update s.callers thread (.sending ⟨method.toSend, s.nextTicket⟩)
        nextTicket := s.nextTicket + 1 }
    | _ => none
  | .send thread, s =>
    match s.callers thread with
    | .sending request =>
      (s.mInput.send request).map fun (_, mInput) ↦
        let caller := if request.cmd.needReply then .waiting request.ticket else .idle
        { s with mInput := mInput, callers := Function.update s.callers thread caller }
    | _ => none
  | .takeResult thread, s =>
    match s.callers thread with
    | .waiting ticket =>
      s.mOutput.receive.map fun (_, mOutput) ↦
        { s with
          mOutput := mOutput
          callers := Function.update s.callers thread .idle
          returned := ticket :: s.returned }
    | _ => none
  | .receive, s =>
    match s.worker with
    | .receiving =>
      s.mInput.receive.map fun (cmd, mInput) ↦
        { s with mInput := mInput, worker := .executing (cmd.getD default) }
    | _ => none
  | .execute, s =>
    match s.worker with
    | .executing request =>
      some { s with
        finished := request.ticket :: s.finished
        worker :=
          if request.cmd.needReply then .replying request (doSyncThreadCmd request.cmd)
          else .next request.cmd }
    | _ => none
  | .reply, s =>
    match s.worker with
    | .replying request result =>
      (s.mOutput.send result).map fun (_, mOutput) ↦
        { s with mOutput := mOutput, worker := .next request.cmd }
    | _ => none

/-! ## One blocking call at a time -/

/-- The blocking commands the sync thread holds and has not replied to. -/
def Worker.unanswered : Worker → List ℕ
  | .executing request => if request.cmd.needReply then [request.ticket] else []
  | .replying request _ => [request.ticket]
  | _ => []

/-- All blocking commands that have been sent and not replied to. -/
def System.unanswered (s : System Thread) : List ℕ :=
  s.worker.unanswered ++ (s.mInput.content.filter fun request ↦ request.cmd.needReply).map Request.ticket

/-- A thread puts a blocking command into `mInput` only while no thread waits for a result. -/
def NoOverlap : Event Thread → System Thread → Prop
  | .send thread, s =>
    (s.callers thread).sendsBlocking = true → ∀ other, (s.callers other).isWaiting = false
  | _, _ => True

/-- What holds while blocking calls do not overlap. The one that is waiting, if any, finds its
command unanswered and no result, or its command executed and exactly one result. -/
structure Serial (s : System Thread) : Prop where
  input_running : s.mInput.Running
  output_running : s.mOutput.Running
  returned_finished : ∀ ticket ∈ s.returned, ticket ∈ s.finished
  replying_finished : ∀ request result, s.worker = .replying request result → request.ticket ∈ s.finished
  alone : ∀ thread other, (s.callers thread).isWaiting = true → (s.callers other).isWaiting = true → thread = other
  nobody : (∀ thread, (s.callers thread).isWaiting = false) → s.unanswered = [] ∧ s.mOutput.content = []
  somebody : ∀ thread ticket, s.callers thread = .waiting ticket →
    (s.unanswered = [ticket] ∧ s.mOutput.content = []) ∨
      (s.unanswered = [] ∧ ticket ∈ s.finished ∧ ∃ result, s.mOutput.content = [result])

omit [DecidableEq Thread] in
variable {thread : Thread} {caller : Caller}

theorem Serial.new : Serial (System.new Thread) where
  input_running := .new (by decide)
  output_running := .new (by decide)
  returned_finished := by simp [System.new]
  replying_finished := by simp [System.new]
  alone := by simp [System.new, Caller.isWaiting]
  nobody := by simp [System.new, System.unanswered, Worker.unanswered]
  somebody := by simp [System.new]

/-- A step of a caller that neither starts nor ends waiting. -/
theorem isWaiting_update_of_not {callers : Thread → Caller} (hbefore : (callers thread).isWaiting = false)
    (hafter : caller.isWaiting = false) (other : Thread) :
    (Function.update callers thread caller other).isWaiting = (callers other).isWaiting := by
  by_cases hother : other = thread
  · subst hother
    simp [hbefore, hafter]
  · simp [Function.update_of_ne hother]

theorem waiting_update_of_not {callers : Thread → Caller} {other : Thread} {ticket : ℕ}
    (hafter : caller.isWaiting = false) (h : Function.update callers thread caller other = .waiting ticket) :
    callers other = .waiting ticket := by
  by_cases hother : other = thread
  · subst hother
    rw [Function.update_self] at h
    simp [h, Caller.isWaiting] at hafter
  · rwa [Function.update_of_ne hother] at h

/-- Changing one caller between states in which it does not wait, with the same unanswered
commands, keeps everything. -/
theorem Serial.update_caller {s : System Thread} (h : Serial s)
    (hbefore : (s.callers thread).isWaiting = false) (hafter : caller.isWaiting = false) (ticket : ℕ) :
    Serial { s with callers := Function.update s.callers thread caller, nextTicket := ticket } where
  input_running := h.input_running
  output_running := h.output_running
  returned_finished := h.returned_finished
  replying_finished := h.replying_finished
  alone := by
    simp only [isWaiting_update_of_not hbefore hafter]
    exact h.alone
  nobody := by
    simp only [isWaiting_update_of_not hbefore hafter]
    exact h.nobody
  somebody := fun other waited hother ↦ h.somebody other waited (waiting_update_of_not hafter hother)

omit [DecidableEq Thread] in
/-- The channels and the sync thread may change as long as the unanswered commands, the results
and the finished ones stay. -/
theorem Serial.of_unanswered_eq {s next : System Thread} (h : Serial s)
    (hinput : next.mInput.Running) (houtput : next.mOutput.Running)
    (hcallers : next.callers = s.callers) (hreturned : next.returned = s.returned)
    (hfinished : s.finished ⊆ next.finished)
    (hreplying : ∀ request result, next.worker = .replying request result → request.ticket ∈ next.finished)
    (hunanswered : next.unanswered = s.unanswered)
    (hcontent : next.mOutput.content = s.mOutput.content) : Serial next where
  input_running := hinput
  output_running := houtput
  returned_finished := fun ticket hticket ↦
    hfinished (h.returned_finished ticket (hreturned ▸ hticket))
  replying_finished := hreplying
  alone := by
    rw [hcallers]
    exact h.alone
  nobody := by
    rw [hcallers, hunanswered, hcontent]
    exact h.nobody
  somebody := fun thread ticket hthread ↦ by
    rw [hunanswered, hcontent]
    rw [hcallers] at hthread
    exact (h.somebody thread ticket hthread).imp_right fun ⟨hnone, hdone, hresult⟩ ↦
      ⟨hnone, hfinished hdone, hresult⟩

section

variable {s next : System Thread} {thread : Thread} (h : Serial s)
include h

theorem serial_call {method : Method} (hstep : step (.call thread method) s = some next) : Serial next := by
  simp only [step] at hstep
  split at hstep
  · next hidle =>
    cases hstep
    exact h.update_caller (by rw [hidle]; rfl) rfl _
  · cases hstep

theorem serial_send (hguard : NoOverlap (.send thread) s) (hstep : step (.send thread) s = some next) :
    Serial next := by
  simp only [step] at hstep
  split at hstep
  case h_2 => cases hstep
  next request hsending =>
  simp only [NoOverlap, hsending, Caller.sendsBlocking] at hguard
  obtain ⟨hfull, _⟩ | ⟨mInput, hsend, hrunning, hcontent, _⟩ :=
    MessageChannel.send_eq h.input_running request
  · simp [hfull] at hstep
  simp only [hsend, Option.map_some, Option.some.injEq] at hstep
  cases hreply : request.cmd.needReply with
  | false =>
    have hsame : Serial { s with mInput := mInput } :=
      h.of_unanswered_eq hrunning h.output_running rfl rfl (List.Subset.refl _)
        h.replying_finished (by simp [System.unanswered, hcontent, hreply]) rfl
    rw [← hstep, hreply]
    exact hsame.update_caller (by simp [hsending, Caller.isWaiting]) rfl s.nextTicket
  | true =>
    obtain ⟨hnone, hempty⟩ := h.nobody (hguard hreply)
    have hother : ∀ other, other ≠ thread →
        (Function.update s.callers thread (.waiting request.ticket) other).isWaiting = false := by
      intro other hne
      rw [Function.update_of_ne hne]
      exact hguard hreply other
    have hticket : next.unanswered = [request.ticket] := by
      simp only [System.unanswered, List.append_eq_nil_iff, List.map_eq_nil_iff] at hnone
      simp [← hstep, System.unanswered, hcontent, hreply, hnone.1, hnone.2]
    rw [hreply] at hstep
    subst hstep
    exact {
      input_running := hrunning
      output_running := h.output_running
      returned_finished := h.returned_finished
      replying_finished := h.replying_finished
      alone := by
        intro first second hfirst hsecond
        by_contra hne
        by_cases heq : first = thread
        · exact Bool.false_ne_true ((hother second (by rintro rfl; exact hne heq)).symm.trans hsecond)
        · exact Bool.false_ne_true ((hother first heq).symm.trans hfirst)
      nobody := by
        intro hnobody
        simpa [Caller.isWaiting] using hnobody thread
      somebody := by
        intro other ticket hwaits
        by_cases heq : other = thread
        · subst heq
          simp only [if_true, Function.update_self, Caller.waiting.injEq] at hwaits
          exact .inl ⟨by rw [hticket, hwaits], hempty⟩
        · have hfalse := hother other heq
          simp only [if_true] at hwaits
          rw [hwaits] at hfalse
          cases hfalse }

theorem serial_takeResult (hstep : step (.takeResult thread) s = some next) : Serial next := by
  simp only [step] at hstep
  split at hstep
  case h_2 => cases hstep
  next ticket hwaits =>
  obtain ⟨hnone, _⟩ | ⟨result, mOutput, hreceive, hrunning, hcontent⟩ :=
    MessageChannel.receive_eq h.output_running
  · simp [hnone] at hstep
  simp only [hreceive, Option.map_some, Option.some.injEq] at hstep
  obtain ⟨_, hempty⟩ | ⟨hanswered, hdone, other, hone⟩ := h.somebody thread ticket hwaits
  · rw [hempty] at hcontent
    cases hcontent
  rw [hone, List.cons.injEq] at hcontent
  -- the thread was the only one waiting, and it took the only result
  have hnobody : ∀ other, (Function.update s.callers thread .idle other).isWaiting = false := by
    intro other
    by_cases heq : other = thread
    · subst heq
      simp [Caller.isWaiting]
    · rw [Function.update_of_ne heq]
      by_contra hother
      exact heq (h.alone other thread (by simpa using hother) (by rw [hwaits]; rfl))
  subst hstep
  exact {
    input_running := h.input_running
    output_running := hrunning
    returned_finished := by
      intro done hmem
      obtain rfl | hmem := List.mem_cons.mp hmem
      · exact hdone
      · exact h.returned_finished done hmem
    replying_finished := h.replying_finished
    alone := by
      intro first second hfirst
      exact absurd ((hnobody first).symm.trans hfirst) Bool.false_ne_true
    nobody := fun _ ↦ ⟨hanswered, hcontent.2.symm⟩
    somebody := by
      intro other waited hother
      have hfalse := hnobody other
      simp only at hother
      rw [hother] at hfalse
      cases hfalse }

end

theorem serial_receive {s next : System Thread} (h : Serial s)
    (hstep : step .receive s = some next) : Serial next := by
  simp only [step] at hstep
  split at hstep
  case h_2 => cases hstep
  next hworker =>
  obtain ⟨hnone, _⟩ | ⟨request, mInput, hreceive, hrunning, hcontent⟩ :=
    MessageChannel.receive_eq h.input_running
  · simp [hnone] at hstep
  simp only [hreceive, Option.map_some, Option.getD_some, Option.some.injEq] at hstep
  subst hstep
  refine h.of_unanswered_eq hrunning h.output_running rfl rfl (List.Subset.refl _) (by simp) ?_ rfl
  cases hreply : request.cmd.needReply <;>
    simp [System.unanswered, Worker.unanswered, hworker, hcontent, hreply]

@[simp] theorem unanswered_next (cmd : SyncThreadCmd) : (Worker.next cmd).unanswered = [] := by
  unfold Worker.next
  split_ifs <;> rfl

theorem next_ne_replying (cmd : SyncThreadCmd) (request : Request) (result : Int32) :
    Worker.next cmd ≠ .replying request result := by
  unfold Worker.next
  split_ifs <;> simp

theorem serial_execute {s next : System Thread} (h : Serial s)
    (hstep : step .execute s = some next) : Serial next := by
  simp only [step] at hstep
  split at hstep
  case h_2 => cases hstep
  next request hworker =>
  cases hstep
  refine h.of_unanswered_eq h.input_running h.output_running rfl rfl
    (List.subset_cons_self _ _) ?_ ?_ rfl
  · intro other result hreplying
    cases hreply : request.cmd.needReply with
    | false =>
      simp only [hreply] at hreplying
      exact absurd hreplying (next_ne_replying _ _ _)
    | true =>
      simp only [hreply, if_true, Worker.replying.injEq] at hreplying
      simp [← hreplying.1]
  · cases hreply : request.cmd.needReply with
    | false =>
      have hnone : (Worker.executing request).unanswered = [] := by
        simp [Worker.unanswered, hreply]
      simp [System.unanswered, hworker, hnone]
    | true => simp [System.unanswered, hworker, hreply, Worker.unanswered]

theorem serial_reply {s next : System Thread} (h : Serial s) (hstep : step .reply s = some next) : Serial next := by
  simp only [step] at hstep
  split at hstep
  case h_2 => cases hstep
  next request result hworker =>
  obtain ⟨hfull, _⟩ | ⟨mOutput, hsend, hrunning, hcontent, _⟩ :=
    MessageChannel.send_eq h.output_running result
  · simp [hfull] at hstep
  simp only [hsend, Option.map_some, Option.some.injEq] at hstep
  subst hstep
  have hhead : s.unanswered = request.ticket ::
      (s.mInput.content.filter fun request ↦ request.cmd.needReply).map Request.ticket := by
    simp [System.unanswered, hworker, Worker.unanswered]
  exact {
    input_running := h.input_running
    output_running := hrunning
    returned_finished := h.returned_finished
    replying_finished := fun other result hreplying ↦
      absurd hreplying (next_ne_replying _ _ _)
    alone := h.alone
    nobody := by
      -- somebody waits: the command being answered is unanswered
      intro hnobody
      have hnone := (h.nobody hnobody).1
      rw [hhead] at hnone
      cases hnone
    somebody := by
      intro thread ticket hwaits
      obtain ⟨hone, hempty⟩ | ⟨hnone, _⟩ := h.somebody thread ticket hwaits
      · rw [hhead, List.cons.injEq] at hone
        refine .inr ⟨?_, ?_, result, by rw [hcontent, hempty]; rfl⟩
        · simp [System.unanswered, hone.2]
        · exact hone.1 ▸ h.replying_finished request result hworker
      · rw [hhead] at hnone
        cases hnone }

/-- Every step that does not overlap blocking calls preserves `Serial`. -/
theorem serial_step (event : Event Thread) (s next : System Thread) (h : Serial s)
    (hguard : NoOverlap event s) (hstep : step event s = some next) : Serial next := by
  cases event with
  | call thread method => exact serial_call h hstep
  | send thread => exact serial_send h hguard hstep
  | takeResult thread => exact serial_takeResult h hstep
  | receive => exact serial_receive h hstep
  | execute => exact serial_execute h hstep
  | reply => exact serial_reply h hstep

/-- In every interleaving in which blocking calls do not overlap, a call of `sendAndWaitForResult`
has returned only if its own command has been executed. -/
theorem returned_finished_of_noOverlap (events : List (Event Thread)) (last : System Thread)
    (hguard : Guarded step NoOverlap (System.new Thread) events)
    (hrun : run step (System.new Thread) events = some last) :
    ∀ ticket ∈ last.returned, ticket ∈ last.finished :=
  (invariant_of_guarded Serial serial_step Serial.new hguard hrun).returned_finished

end Steps

instance decidableNoOverlap : ∀ (event : Event Bool) (s : System Bool), Decidable (NoOverlap event s)
  | .send thread, s => inferInstanceAs (Decidable ((s.callers thread).sendsBlocking = true →
      ∀ other, (s.callers other).isWaiting = false))
  | .call _ _, _ | .takeResult _, _ | .receive, _ | .execute, _ | .reply, _ => isTrue trivial

/-- One thread waits for a fence, the other has sent an asynchronous command in between. -/
def interleavedEvents : List (Event Bool) :=
  [.call true (.triggerBlockedWaitNoTimeline 8), .call false (.triggerWait 16 1), .send false,
    .send true, .receive, .execute, .receive, .execute, .reply, .takeResult true]

theorem returned_finished_interleaved :
    ∃ last, Guarded step NoOverlap (System.new Bool) interleavedEvents ∧
      run step (System.new Bool) interleavedEvents = some last ∧
      ∀ ticket ∈ last.returned, ticket ∈ last.finished := by
  have hguard : Guarded step NoOverlap (System.new Bool) interleavedEvents := by decide +kernel
  exact ⟨_, hguard, rfl, returned_finished_of_noOverlap interleavedEvents _ hguard rfl⟩

/-- Two blocking calls: the second thread sends its command while the result of the first one is
in `mOutput`, and takes it. Its own command has not even been received. -/
theorem second_caller_takes_first_result :
    ∃ last : System Bool, run step (System.new Bool)
        [.call true (.triggerBlockedWaitNoTimeline 8), .send true, .receive, .execute, .reply,
          .call false (.triggerBlockedWaitNoTimeline 16), .send false, .takeResult false] =
          some last ∧
      last.returned = [1] ∧ last.finished = [0] ∧ last.worker = .receiving ∧
      ¬ ∀ ticket ∈ last.returned, ticket ∈ last.finished := by
  refine ⟨_, rfl, rfl, rfl, rfl, ?_⟩
  intro hall
  exact absurd (hall 1 (List.mem_singleton.mpr rfl)) (by decide)

end FdeEmugl.Sync
