import Mathlib.Order.Nat
import FdeEmugl.Library.Runs

/-!
# Waking the consumer of the graphics rings

The guest publishes transfers in two rings that the host consumer polls. After
thirty empty polls the consumer calls `onUnavailableRead`, and every eighth such
call it stores `NEED_NOTIFY` in the shared `host_state` and waits for a message.
The guest looks at `host_state` after each publication and sends a wake-up unless
it reads `CAN_CONSUME`.

Between its last poll and the store the consumer does not look at the rings again.
A publication whose look at `host_state` falls into that window goes unnoticed
unless a message happens to be queued, and the result below is about the runs
without such a look. All loads and stores are sequentially consistent.
-/

namespace FdeEmugl.Graphics

open Runs

/-! ## The shared state and the two parties -/

/-- `asg_host_state`. -/
inductive HostState where
  | NEED_NOTIFY
  | CAN_CONSUME
  | EXIT
  | ERROR
  deriving DecidableEq

inductive ConsumerCommand where
  | Wakeup
  | Sleep
  | Exit
  deriving DecidableEq

/-- The rings `to_host` and `to_host_large_xfer`. -/
inductive Ring where
  | toHost
  | largeXfer
  deriving DecidableEq

/-- Where the consumer is in `readRaw` and `onUnavailableRead`. -/
inductive Consumer where
  | pollToHost
  | pollLargeXfer (ringAvailable : ℕ)
  | reading (ring : Ring) (available : ℕ)
  | unavailable
  | sleep
  | receive
  | wake
  | exit
  | gone
  deriving DecidableEq

/-- The guest publishes, looks at `host_state`, and notifies if it has to. -/
inductive Guest where
  | idle
  | published (ring : Ring)
  | notifying
  deriving DecidableEq

/-- The steps of `~AddressSpaceGraphicsContext`. -/
inductive Destructor where
  | notCalled
  | storeState
  | sendExit
  | sent
  deriving DecidableEq

structure State where
  /-- The bytes that are published and not consumed. -/
  unread : Ring → ℕ
  host_state : HostState
  mConsumerMessages : List ConsumerCommand
  mUnavailableReadCount : ℕ
  spins : ℕ
  mExiting : Bool
  consumer : Consumer
  guest : Guest
  destructor : Destructor

def maxSpins : ℕ := 30

def kMaxUnavailableReads : ℕ := 8

/-- The capacity of `mConsumerMessages`. -/
def capacity : ℕ := 4

/-- `ring_buffer_init` leaves 0 in the word that is `host_state`. -/
def initial : State where
  unread := fun _ ↦ 0
  host_state := .NEED_NOTIFY
  mConsumerMessages := []
  mUnavailableReadCount := 0
  spins := 0
  mExiting := false
  consumer := .pollToHost
  guest := .idle
  destructor := .notCalled

namespace State

/-- A message is dropped when the channel is full. -/
def trySend (command : ConsumerCommand) (state : State) : State :=
  if state.mConsumerMessages.length < capacity then
    { state with mConsumerMessages := state.mConsumerMessages ++ [command] }
  else state

/-- What `readRaw` does with the two amounts that it has read. -/
def poll (ringAvailable ringLargeXferAvailable : ℕ) (state : State) : State :=
  if 0 < ringAvailable then { state with consumer := .reading .toHost ringAvailable }
  else if 0 < ringLargeXferAvailable then
    { state with consumer := .reading .largeXfer ringLargeXferAvailable }
  else if state.spins + 1 < maxSpins then
    { state with spins := state.spins + 1, consumer := .pollToHost }
  else { state with spins := 0, consumer := .unavailable }

/-- `onUnavailableRead` up to the label `sleep`. -/
def onUnavailableRead (state : State) : State :=
  let count := if state.mExiting then kMaxUnavailableReads else state.mUnavailableReadCount + 1
  if kMaxUnavailableReads ≤ count then
    { state with mUnavailableReadCount := 0, consumer := .sleep }
  else { state with mUnavailableReadCount := count, consumer := .pollToHost }

/-- `onUnavailableRead` from the label `sleep` on: a command that was received. -/
def received (command : ConsumerCommand) (state : State) : State :=
  match command with
  | .Wakeup => { state with consumer := .wake }
  | .Exit => { state with consumer := .exit }
  | .Sleep => { state with consumer := .sleep }

/-- One step of the consumer. `amount` is how much a read takes from the ring; `returns` tells whether
`readRaw` returns after it, and its next call starts to count spins anew. -/
def consume (amount : ℕ) (returns : Bool) (state : State) : Option State :=
  match state.consumer with
  | .pollToHost => some { state with consumer := .pollLargeXfer (state.unread .toHost) }
  | .pollLargeXfer ringAvailable => some (state.poll ringAvailable (state.unread .largeXfer))
  | .reading ring available =>
    if amount ≤ available then
      some { state with
        unread := Function.update state.unread ring (state.unread ring - amount)
        spins := if returns then 0 else state.spins
        consumer := .pollToHost }
    else none
  | .unavailable => some state.onUnavailableRead
  | .sleep => some { state with host_state := .NEED_NOTIFY, consumer := .receive }
  | .receive =>
    match state.mConsumerMessages with
    | [] => none
    | command :: rest => some ({ state with mConsumerMessages := rest }.received command)
  | .wake => some { state with host_state := .CAN_CONSUME, consumer := .pollToHost }
  | .exit => some { state with host_state := .EXIT, consumer := .gone }
  | .gone => none

/-- The guest writes to a ring; a full ring takes 0 bytes. -/
def publish (ring : Ring) (bytes : ℕ) (state : State) : Option State :=
  if state.guest = .idle then
    some { state with
      unread := Function.update state.unread ring (state.unread ring + bytes)
      guest := .published ring }
  else none

/-- The guest looks at `host_state`. -/
def check (state : State) : Option State :=
  match state.guest with
  | .published _ =>
    some { state with guest := if state.host_state ≠ .CAN_CONSUME then .notifying else .idle }
  | _ => none

/-- `ASG_NOTIFY_AVAILABLE`. -/
def notify (state : State) : Option State :=
  if state.guest = .notifying then some { state.trySend .Wakeup with guest := .idle } else none

/-- One step of the destructor; `send` waits for room in the channel. -/
def destroy (state : State) : Option State :=
  match state.destructor with
  | .notCalled => some { state with mExiting := true, destructor := .storeState }
  | .storeState => some { state with host_state := .EXIT, destructor := .sendExit }
  | .sendExit =>
    if state.mConsumerMessages.length < capacity then
      some { state with
        mConsumerMessages := state.mConsumerMessages ++ [.Exit]
        destructor := .sent }
    else none
  | .sent => none

end State

inductive Label where
  | consume (amount : ℕ) (returns : Bool)
  | publish (ring : Ring) (bytes : ℕ)
  | check
  | notify
  | destroy

def step : Label → State → Option State
  | .consume amount returns, state => state.consume amount returns
  | .publish ring bytes, state => state.publish ring bytes
  | .check, state => state.check
  | .notify, state => state.notify
  | .destroy, state => state.destroy

/-! ## The window -/

/-- The consumer has found the ring empty and goes to sleep without another poll of it. -/
def GoesToSleep (ring : Ring) (state : State) : Prop :=
  match state.consumer with
  | .pollLargeXfer ringAvailable =>
    ring = .toHost ∧ ringAvailable = 0 ∧ maxSpins ≤ state.spins + 1 ∧
      kMaxUnavailableReads ≤ state.mUnavailableReadCount + 1
  | .unavailable => kMaxUnavailableReads ≤ state.mUnavailableReadCount + 1
  | .sleep | .receive => True
  | _ => False

/-- When the guest finds that the host can consume, the consumer will poll the ring again or has a
message to receive. -/
def LooksInTime : Label → State → Prop
  | .check, state => ∀ ring, state.guest = .published ring → state.host_state = .CAN_CONSUME →
    GoesToSleep ring state → state.mConsumerMessages ≠ []
  | _, _ => True

/-- A message is queued, or the guest is about to look or to send one. -/
def Noticed (ring : Ring) (state : State) : Prop :=
  state.mConsumerMessages ≠ [] ∨ state.guest = .published ring ∨ state.guest = .notifying

/-- What is published in the window is noticed, and a consumer that waits has said so. -/
structure Sound (state : State) : Prop where
  noticed : state.mExiting = false → ∀ ring, GoesToSleep ring state → 0 < state.unread ring → Noticed ring state
  asleep : state.consumer = .receive → state.host_state ≠ .CAN_CONSUME
  noSleep : ConsumerCommand.Sleep ∉ state.mConsumerMessages

variable {state next : State}

theorem sound_initial : Sound initial where
  noticed := by
    intro _ ring hsleep
    cases hsleep
  asleep := by
    intro hreceive
    cases hreceive
  noSleep := List.not_mem_nil

/-- A consumer that is not in the window. -/
theorem sound_of_awake (hawake : ∀ ring, ¬ GoesToSleep ring next) (hreceive : next.consumer ≠ .receive)
    (hno : ConsumerCommand.Sleep ∉ next.mConsumerMessages) : Sound next :=
  ⟨fun _ ring hsleep ↦ absurd hsleep (hawake ring), fun h ↦ absurd h hreceive, hno⟩

section

variable (h : Sound state)
include h

theorem Sound.poll {ringAvailable : ℕ} (hconsumer : state.consumer = .pollLargeXfer ringAvailable) :
    Sound (state.poll ringAvailable (state.unread .largeXfer)) := by
  unfold State.poll
  split_ifs with hring hlarge hspins
  · exact sound_of_awake (fun _ hsleep ↦ hsleep) nofun h.noSleep
  · exact sound_of_awake (fun _ hsleep ↦ hsleep) nofun h.noSleep
  · exact sound_of_awake (fun _ hsleep ↦ hsleep) nofun h.noSleep
  · refine ⟨fun hexiting ring hsleep hunread ↦ ?_, nofun, h.noSleep⟩
    cases ring with
    | toHost =>
      -- the first ring was found empty before, and the window has already begun for it
      have hbefore : GoesToSleep .toHost state := by
        rw [GoesToSleep, hconsumer]
        exact ⟨rfl, by omega, not_lt.mp hspins, hsleep⟩
      exact h.noticed hexiting .toHost hbefore hunread
    | largeXfer => exact absurd hunread hlarge

theorem Sound.onUnavailableRead (hconsumer : state.consumer = .unavailable) : Sound state.onUnavailableRead := by
  unfold State.onUnavailableRead
  simp only
  split_ifs with hexit hmax hmax
  · refine ⟨fun hexiting ↦ ?_, nofun, h.noSleep⟩
    have hexiting : state.mExiting = false := hexiting
    rw [hexit] at hexiting
    cases hexiting
  · exact sound_of_awake (fun _ hsleep ↦ hsleep) nofun h.noSleep
  · refine ⟨fun hexiting ring _ hunread ↦ ?_, nofun, h.noSleep⟩
    have hbefore : GoesToSleep ring state := by
      rw [GoesToSleep, hconsumer]
      exact hmax
    exact h.noticed hexiting ring hbefore hunread
  · exact sound_of_awake (fun _ hsleep ↦ hsleep) nofun h.noSleep

theorem Sound.consume {amount : ℕ} {returns : Bool} (hconsume : state.consume amount returns = some next) :
    Sound next := by
  unfold State.consume at hconsume
  cases hconsumer : state.consumer with
  | pollToHost =>
    simp only [hconsumer, Option.some.injEq] at hconsume
    subst hconsume
    refine ⟨fun _ ring hsleep hunread ↦ ?_, nofun, h.noSleep⟩
    obtain ⟨rfl, hempty, _⟩ := hsleep
    exact absurd hempty hunread.ne'
  | pollLargeXfer ringAvailable =>
    simp only [hconsumer, Option.some.injEq] at hconsume
    subst hconsume
    exact h.poll hconsumer
  | reading ring available =>
    simp only [hconsumer, Option.ite_none_right_eq_some] at hconsume
    obtain ⟨_, hnext⟩ := hconsume
    cases hnext
    exact sound_of_awake (fun _ hsleep ↦ hsleep) nofun h.noSleep
  | unavailable =>
    simp only [hconsumer, Option.some.injEq] at hconsume
    subst hconsume
    exact h.onUnavailableRead hconsumer
  | sleep =>
    simp only [hconsumer, Option.some.injEq] at hconsume
    subst hconsume
    refine ⟨fun hexiting ring _ hunread ↦ ?_, fun _ ↦ nofun, h.noSleep⟩
    have hbefore : GoesToSleep ring state := by
      rw [GoesToSleep, hconsumer]
      trivial
    exact h.noticed hexiting ring hbefore hunread
  | receive =>
    simp only [hconsumer] at hconsume
    cases hmessages : state.mConsumerMessages with
    | nil =>
      simp only [hmessages] at hconsume
      cases hconsume
    | cons command rest =>
      simp only [hmessages, Option.some.injEq] at hconsume
      subst hconsume
      have hno := h.noSleep
      rw [hmessages, List.mem_cons, not_or] at hno
      cases command with
      | Wakeup | Exit =>
        exact sound_of_awake (fun _ hsleep ↦ hsleep) nofun hno.2
      | Sleep => exact absurd rfl hno.1
  | wake =>
    simp only [hconsumer, Option.some.injEq] at hconsume
    subst hconsume
    exact sound_of_awake (fun _ hsleep ↦ hsleep) nofun h.noSleep
  | exit =>
    simp only [hconsumer, Option.some.injEq] at hconsume
    subst hconsume
    exact sound_of_awake (fun _ hsleep ↦ hsleep) nofun h.noSleep
  | gone =>
    simp only [hconsumer] at hconsume
    cases hconsume

theorem Sound.publish {ring : Ring} {bytes : ℕ} (hpublish : state.publish ring bytes = some next) : Sound next := by
  rw [State.publish, Option.ite_none_right_eq_some] at hpublish
  obtain ⟨hidle, hnext⟩ := hpublish
  cases hnext
  refine ⟨fun hexiting other hsleep hunread ↦ ?_, h.asleep, h.noSleep⟩
  by_cases heq : other = ring
  · exact .inr (.inl (heq ▸ rfl))
  · simp only [Function.update_of_ne heq] at hunread
    have hbefore := h.noticed hexiting other hsleep hunread
    rw [Noticed, hidle] at hbefore
    exact .inl (hbefore.resolve_right (by simp))

theorem Sound.check (hguard : LooksInTime .check state) (hcheck : state.check = some next) : Sound next := by
  unfold State.check at hcheck
  cases hguest : state.guest with
  | idle | notifying =>
    simp only [hguest] at hcheck
    cases hcheck
  | published ring =>
    simp only [hguest, Option.some.injEq] at hcheck
    subst hcheck
    refine ⟨fun hexiting other hsleep hunread ↦ ?_, h.asleep, h.noSleep⟩
    by_cases hstate : state.host_state = .CAN_CONSUME
    · left
      obtain hqueued | hsame | hnotifying := h.noticed hexiting other hsleep hunread
      · exact hqueued
      · exact hguard other hsame hstate hsleep
      · rw [hguest] at hnotifying
        cases hnotifying
    · right
      right
      simp only [hstate, ne_eq, not_false_eq_true, if_true]

theorem Sound.notify (hnotify : state.notify = some next) : Sound next := by
  rw [State.notify, Option.ite_none_right_eq_some] at hnotify
  obtain ⟨_, hnext⟩ := hnotify
  cases hnext
  unfold State.trySend
  split_ifs with hroom
  · refine ⟨fun _ _ _ _ ↦ .inl (List.append_ne_nil_of_right_ne_nil _ (List.cons_ne_nil _ _)), h.asleep, ?_⟩
    simpa using h.noSleep
  · refine ⟨fun _ _ _ _ ↦ .inl fun hnone ↦ ?_, h.asleep, h.noSleep⟩
    have hnone : state.mConsumerMessages = [] := hnone
    rw [hnone] at hroom
    exact hroom (by decide)

theorem Sound.destroy (hdestroy : state.destroy = some next) : Sound next := by
  unfold State.destroy at hdestroy
  split at hdestroy
  · cases hdestroy
    exact ⟨nofun, h.asleep, h.noSleep⟩
  · cases hdestroy
    exact ⟨h.noticed, fun _ ↦ nofun, h.noSleep⟩
  · rw [Option.ite_none_right_eq_some] at hdestroy
    obtain ⟨_, hnext⟩ := hdestroy
    cases hnext
    refine ⟨fun _ _ _ _ ↦ .inl (List.append_ne_nil_of_right_ne_nil _ (List.cons_ne_nil _ _)), h.asleep, ?_⟩
    simpa using h.noSleep
  · cases hdestroy

theorem Sound.step {label : Label} (hguard : LooksInTime label state) (hstep : step label state = some next) :
    Sound next := by
  cases label with
  | consume amount returns => exact h.consume hstep
  | publish ring bytes => exact h.publish hstep
  | check => exact h.check hguard hstep
  | notify => exact h.notify hstep
  | destroy => exact h.destroy hstep

end

/-- As long as the guest looks in time, and the context is not being destroyed, a consumer that waits
without a message finds both rings empty once the guest has looked. -/
theorem no_lost_wakeup_of_looksInTime (labels : List Label) (state : State)
    (hguard : Guarded step LooksInTime initial labels) (hrun : run step initial labels = some state)
    (hexiting : state.mExiting = false) :
    ¬ (state.consumer = .receive ∧ state.mConsumerMessages = [] ∧ state.guest = .idle ∧
      ∃ ring, 0 < state.unread ring) := by
  have h : Sound state := invariant_of_guarded Sound
    (fun _ _ _ h hguard hstep ↦ h.step hguard hstep) sound_initial hguard hrun
  rintro ⟨hreceive, hnone, hidle, ring, hunread⟩
  have hsleep : GoesToSleep ring state := by
    rw [GoesToSleep, hreceive]
    trivial
  have hnoticed := h.noticed hexiting ring hsleep hunread
  rw [Noticed, hnone, hidle] at hnoticed
  simp at hnoticed

instance decidableGoesToSleep (ring : Ring) (state : State) : Decidable (GoesToSleep ring state) :=
  match h : state.consumer with
  | .pollLargeXfer ringAvailable => decidable_of_iff (ring = .toHost ∧ ringAvailable = 0 ∧
      maxSpins ≤ state.spins + 1 ∧ kMaxUnavailableReads ≤ state.mUnavailableReadCount + 1) (by
        rw [GoesToSleep, h])
  | .unavailable => decidable_of_iff (kMaxUnavailableReads ≤ state.mUnavailableReadCount + 1) (by
      rw [GoesToSleep, h])
  | .sleep | .receive => isTrue (by rw [GoesToSleep, h]; trivial)
  | .pollToHost | .reading _ _ | .wake | .exit | .gone => isFalse (by rw [GoesToSleep, h]; exact id)

instance decidableLooksInTime : ∀ label state, Decidable (LooksInTime label state)
  | .check, state =>
    match h : state.guest with
    | .published ring => decidable_of_iff (state.host_state = .CAN_CONSUME → GoesToSleep ring state →
        state.mConsumerMessages ≠ []) (by simp [LooksInTime, h])
    | .idle | .notifying => isTrue (by simp [LooksInTime, h])
  | .consume _ _, _ | .publish _ _, _ | .notify, _ | .destroy, _ => isTrue trivial

/-- Both rings are polled. -/
def polls : List Label := [.consume 0 false, .consume 0 false]

/-- Eight rounds of empty polls, up to the store of `NEED_NOTIFY`. -/
def emptyRounds : List Label := (List.replicate kMaxUnavailableReads
    ((List.replicate maxSpins polls).flatten ++ [.consume 0 false])).flatten

/-- A transfer wakes the consumer and is read; at the end the consumer can consume without a wake-up. -/
def wokenOnce : List Label :=
  emptyRounds ++ [.consume 0 false, .publish .toHost 8, .check, .notify, .consume 0 false, .consume 0 false] ++
    polls ++ [.consume 8 true]

/-- A later transfer is published while the consumer polls, and is found without a wake-up. -/
theorem no_lost_wakeup_woken :
    ∃ state, Guarded step LooksInTime initial (wokenOnce ++ [.publish .largeXfer 16, .check] ++ polls) ∧
      run step initial (wokenOnce ++ [.publish .largeXfer 16, .check] ++ polls) = some state ∧
      state.consumer = .reading .largeXfer 16 ∧
      ¬ (state.consumer = .receive ∧ state.mConsumerMessages = [] ∧ state.guest = .idle ∧
        ∃ ring, 0 < state.unread ring) := by
  have hguard : Guarded step LooksInTime initial
      (wokenOnce ++ [.publish .largeXfer 16, .check] ++ polls) := by decide +kernel
  have hfields : (run step initial (wokenOnce ++ [.publish .largeXfer 16, .check] ++ polls)).map
      (fun state ↦ (state.consumer, state.mExiting)) = some (.reading .largeXfer 16, false) := by
    decide +kernel
  obtain ⟨state, hrun, hstate⟩ := Option.map_eq_some_iff.mp hfields
  obtain ⟨hconsumer, hexiting⟩ := Prod.mk.inj hstate
  exact ⟨state, hguard, hrun, hconsumer, no_lost_wakeup_of_looksInTime _ state hguard hrun hexiting⟩

/-- A transfer that is published after the last poll, while `host_state` still says that the host can
consume, is left in the ring. -/
theorem wakeup_lost :
    ∃ state, run step initial
        (wokenOnce ++ emptyRounds ++ [.publish .toHost 8, .check, .consume 0 false]) = some state ∧
      state.mExiting = false ∧ state.consumer = .receive ∧ state.mConsumerMessages = [] ∧
      state.guest = .idle ∧ ∃ ring, 0 < state.unread ring := by
  have hfields : (run step initial
      (wokenOnce ++ emptyRounds ++ [.publish .toHost 8, .check, .consume 0 false])).map (fun state ↦
        (state.mExiting, state.consumer, state.mConsumerMessages, state.guest, state.unread .toHost)) =
        some (false, .receive, [], .idle, 8) := by decide +kernel
  obtain ⟨state, hrun, hstate⟩ := Option.map_eq_some_iff.mp hfields
  simp only [Prod.mk.injEq] at hstate
  obtain ⟨hexiting, hconsumer, hmessages, hguest, hunread⟩ := hstate
  refine ⟨state, hrun, hexiting, hconsumer, hmessages, hguest, .toHost, ?_⟩
  rw [hunread]
  decide

end FdeEmugl.Graphics
