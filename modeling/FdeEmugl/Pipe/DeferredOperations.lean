import FdeEmugl.Pipe.DeviceContextRunner

/-!
# Operations that are put off

A thread that performs the pending operations holds `mLock`, so that none of them may close a pipe that is
open. In a run where that is so when a timer event begins, and where nothing is queued for a pipe whose
operations have been aborted, the pending operations are a queue with cancelling.
-/

namespace FdeEmugl.DeviceContextRunner

open CancelQueue Runs

namespace Code

def holds : Code → Bool
  | .push _ | .timerLoop _ | .timerClear | .modeSet _ | .unlock | .abortErase _ _ | .abortUnlock _ _ => true
  | .perform _ caller => caller.isSome
  | _ => false

/-- An abort that was called by the loop of a timer event. -/
def nested : Code → Bool
  | .abortLock _ caller | .abortErase _ caller | .abortUnlock _ caller | .abortReturn _ caller => caller.isSome
  | _ => false

def inTimer : Code → Bool
  | .timerLoop _ => true
  | .perform _ caller => caller.isSome
  | _ => false

/-- The operation that the thread has queued and that has been neither put off nor performed. -/
def carried : Code → Option PipeWakeCommand
  | .test op | .pushLock op | .push op => some op
  | .perform op none => some op
  | _ => none

/-- The pipe whose operations the thread has taken out. -/
def erased : Code → Option ℕ
  | .abortUnlock hwPipe _ | .abortReturn hwPipe _ => some hwPipe
  | _ => none

/-- What is left to be performed of the pending operations. -/
def left (code : Code) (mPending : List PipeWakeCommand) : List PipeWakeCommand :=
  match code with
  | .timerLoop index => mPending.drop index
  | .perform _ (some index) => mPending.drop index
  | .timerClear => []
  | _ => mPending

theorem holds_of_inTimer {code : Code} (h : code.inTimer) : code.holds := by
  cases code <;> first | exact h | cases h

theorem holds_of_waits {code : Code} (h : code.waits) : code.holds = false := by
  cases code <;> first | rfl | cases h

end Code

namespace Runner

variable {s : Runner} {t : ℕ}

def waiting (s : Runner) : List PipeWakeCommand :=
  match s.mLock with
  | none => s.mPending
  | some t => (s.code t).left s.mPending

/-- What holds of a thread that is at some place. -/
structure At (s : Runner) (t : ℕ) (code : Code) : Prop where
  lock_iff : s.mLock = some t ↔ code.holds
  not_nested : code.nested = false
  current : ∀ op index, code = .perform op (some index) → s.mPending[index]? = some op
  calm : code.inTimer → ∀ op ∈ s.mPending, op.closes → op.hwPipe ∈ s.closed
  carried_new : ∀ op, code.carried = some op → op ∉ seen s.events ∧ op.serial < s.queued
  erased : ∀ hwPipe, code.erased = some hwPipe → .cancelled hwPipe ∈ s.events

/-- The invariant. -/
structure Sound (s : Runner) : Prop where
  threads : ∀ t, s.At t (s.code t)
  alone : ∀ t other op, (s.code t).carried = some op → (s.code other).carried = some op → t = other
  serial : ∀ op ∈ seen s.events, op.serial < s.queued
  kept : Kept PipeWakeCommand.hwPipe s.events s.waiting

variable {code : Code}

theorem sound_init : init.Sound where
  threads _ := ⟨iff_of_false nofun nofun, rfl, nofun, nofun, nofun, nofun⟩
  alone _ _ _ hop := nomatch hop
  serial _ hop := nomatch hop
  kept := kept_nil _

/-- What a turn of one thread may do to what the others rely on. -/
structure Turn (s after : Runner) (t : ℕ) (code : Code) : Prop where
  code_eq : after.code = Function.update s.code t code
  lock : ∀ other, other ≠ t → (after.mLock = some other ↔ s.mLock = some other)
  pending : after.mPending = s.mPending ∨ s.mLock = some t
  closed : ∀ hwPipe ∈ s.closed, hwPipe ∈ after.closed
  events : ∃ new, after.events = s.events ++ new ∧ ∀ op ∈ seen new, op ∈ seen s.events ∨ (s.code t).carried = some op
  queued : s.queued ≤ after.queued
  carried : ∀ op, code.carried = some op → (s.code t).carried = some op ∨ op.serial = s.queued

theorem seen_append (first second : List (Event PipeWakeCommand ℕ)) :
    seen (first ++ second) = seen first ++ seen second :=
  List.filterMap_append

theorem Turn.seen {after : Runner} (h : s.Turn after t code) {op : PipeWakeCommand}
    (hop : op ∈ seen after.events) : op ∈ seen s.events ∨ (s.code t).carried = some op := by
  obtain ⟨new, hnew, hseen⟩ := h.events
  rw [hnew, seen_append] at hop
  exact (List.mem_append.mp hop).elim .inl (hseen op)

/-- The other threads keep what they rely on. -/
theorem Sound.of_turn (h : s.Sound) {after : Runner} {code : Code} (hturn : s.Turn after t code)
    (hat : after.At t code) (hkept : Kept PipeWakeCommand.hwPipe after.events after.waiting) : after.Sound := by
  have hother (other : ℕ) (hne : other ≠ t) : after.code other = s.code other := by
    rw [hturn.code_eq, Function.update_of_ne hne]
  have hown : after.code t = code := by rw [hturn.code_eq, Function.update_self]
  refine ⟨fun other ↦ ?_, fun first second op hfirst hsecond ↦ ?_, fun op hop ↦ ?_, hkept⟩
  · by_cases heq : other = t
    · rw [heq, hown]
      exact hat
    · have hold := h.threads other
      have hpending : (s.code other).holds → after.mPending = s.mPending := by
        intro hholds
        refine hturn.pending.resolve_right fun hlock ↦ heq ?_
        exact Option.some.inj ((hold.lock_iff.mpr hholds).symm.trans hlock)
      rw [hother other heq]
      refine ⟨(hturn.lock other heq).trans hold.lock_iff, hold.not_nested, fun op index hcode ↦ ?_,
        fun htimer op hop hcloses ↦ ?_, fun op hcarried ↦ ⟨fun hseen ↦ ?_, ?_⟩, fun hwPipe herased ↦ ?_⟩
      · rw [hpending (by rw [hcode]; rfl)]
        exact hold.current op index hcode
      · rw [hpending (Code.holds_of_inTimer htimer)] at hop
        exact hturn.closed op.hwPipe (hold.calm htimer op hop hcloses)
      · obtain hseen | hown := hturn.seen hseen
        · exact (hold.carried_new op hcarried).1 hseen
        · exact heq (h.alone other t op hcarried hown)
      · exact (hold.carried_new op hcarried).2.trans_le hturn.queued
      · obtain ⟨new, hnew, -⟩ := hturn.events
        rw [hnew]
        exact List.mem_append_left new (hold.erased hwPipe herased)
  · have hothers (thread : ℕ) (hne : thread ≠ t) (hmine : code.carried = some op)
        (htheirs : (s.code thread).carried = some op) : False := by
      obtain hold | hnew := hturn.carried op hmine
      · exact hne (h.alone thread t op htheirs hold)
      · exact absurd ((h.threads thread).carried_new op htheirs).2 (hnew ▸ Nat.lt_irrefl op.serial)
    by_cases hfirst' : first = t
    · by_cases hsecond' : second = t
      · rw [hfirst', hsecond']
      · rw [hfirst', hown] at hfirst
        rw [hother second hsecond'] at hsecond
        exact (hothers second hsecond' hfirst hsecond).elim
    · rw [hother first hfirst'] at hfirst
      by_cases hsecond' : second = t
      · rw [hsecond', hown] at hsecond
        exact (hothers first hfirst' hsecond hfirst).elim
      · rw [hother second hsecond'] at hsecond
        exact h.alone first second op hfirst hsecond
  · obtain hseen | hcarried := hturn.seen hop
    · exact (h.serial op hseen).trans_le hturn.queued
    · exact ((h.threads t).carried_new op hcarried).2.trans_le hturn.queued

/-! ## What is left to be performed -/

theorem waiting_of_lock (hlock : s.mLock = some t) (hcode : s.code t = code) : s.waiting = code.left s.mPending := by
  unfold waiting
  rw [hlock, ← hcode]

theorem waiting_of_none (hlock : s.mLock = none) : s.waiting = s.mPending := by
  unfold waiting
  rw [hlock]

/-- A thread without `mLock` goes on. -/
theorem waiting_of_other {after : Runner} (hcode : after.code = Function.update s.code t code)
    (hlock : s.mLock ≠ some t) (hlock' : after.mLock = s.mLock) (hpending : after.mPending = s.mPending) :
    after.waiting = s.waiting := by
  unfold waiting
  rw [hlock', hpending]
  cases howner : s.mLock with
  | none => rfl
  | some owner =>
    have hne : owner ≠ t := by
      rintro rfl
      exact hlock howner
    dsimp only
    rw [hcode, Function.update_of_ne hne]

theorem code_goto (s : Runner) (t : ℕ) (code : Code) : (s.goto t code).code t = code := by
  change Function.update s.code t code t = code
  exact Function.update_self t code s.code

/-- A thread goes on without changing anything else. -/
theorem Turn.goto (s : Runner) {t : ℕ} (hcarried : ∀ op, code.carried = some op → (s.code t).carried = some op) :
    s.Turn (s.goto t code) t code where
  code_eq := rfl
  lock _ _ := Iff.rfl
  pending := .inl rfl
  closed _ hclosed := hclosed
  events := ⟨[], (List.append_nil _).symm, nofun⟩
  queued := le_rfl
  carried op hop := .inl (hcarried op hop)

/-- It neither takes nor drops `mLock`. -/
theorem Sound.goto (h : s.Sound) {code : Code} (hat : s.At t code)
    (hcarried : ∀ op, code.carried = some op → (s.code t).carried = some op)
    (hleft : code.holds → code.left s.mPending = (s.code t).left s.mPending) : (s.goto t code).Sound := by
  refine h.of_turn (Turn.goto s hcarried) ⟨hat.lock_iff, hat.not_nested, hat.current, hat.calm, hat.carried_new,
    hat.erased⟩ ?_
  have hwaiting : (s.goto t code).waiting = s.waiting := by
    by_cases hlock : s.mLock = some t
    · have hnew : (s.goto t code).waiting = code.left s.mPending := waiting_of_lock hlock (code_goto s t code)
      rw [hnew, waiting_of_lock hlock rfl]
      exact hleft (hat.lock_iff.mp hlock)
    · exact waiting_of_other rfl hlock rfl rfl
  rw [hwaiting]
  exact h.kept

/-- A place where a thread neither performs pending operations nor has anything to remember. -/
theorem at_plain (hlock : s.mLock = some t ↔ code.holds) (hnested : code.nested = false)
    (htimer : code.inTimer = false) (hcarried : code.carried = none) (herased : code.erased = none) :
    s.At t code where
  lock_iff := hlock
  not_nested := hnested
  current op index hcode := by
    rw [hcode] at htimer
    cases htimer
  calm htimer' := by
    rw [htimer] at htimer'
    cases htimer'
  carried_new op hop := by
    rw [hcarried] at hop
    cases hop
  erased hwPipe hop := by
    rw [herased] at hop
    cases hop

theorem Sound.not_mine (h : s.Sound) (hcode : (s.code t).holds = false) : s.mLock ≠ some t := fun hlock ↦ by
  rw [(h.threads t).lock_iff, hcode] at hlock
  cases hlock

theorem Sound.mine (h : s.Sound) (hcode : (s.code t).holds) : s.mLock = some t := (h.threads t).lock_iff.mpr hcode

/-- A thread takes `mLock`. -/
theorem Sound.lock (h : s.Sound) {code : Code} {after : Runner} (hstep : s.lock t code = some after)
    (hat : ({ s with mLock := some t } : Runner).At t code)
    (hcarried : ∀ op, code.carried = some op → (s.code t).carried = some op)
    (hleft : code.left s.mPending = s.mPending) : after.Sound := by
  unfold Runner.lock at hstep
  split_ifs at hstep with hfree
  cases hstep
  refine h.of_turn ⟨rfl, fun other hne ↦ ?_, .inl rfl, fun _ hclosed ↦ hclosed,
    ⟨[], (List.append_nil _).symm, nofun⟩, le_rfl, fun op hop ↦ .inl (hcarried op hop)⟩
    ⟨hat.lock_iff, hat.not_nested, hat.current, hat.calm, hat.carried_new, hat.erased⟩ ?_
  · rw [hfree]
    exact iff_of_false (fun hlock ↦ hne (Option.some.inj hlock).symm) nofun
  · have hnew : ({ s with mLock := some t }.goto t code : Runner).waiting = code.left s.mPending :=
      waiting_of_lock rfl (code_goto _ t code)
    rw [hnew, hleft, ← waiting_of_none hfree]
    exact h.kept

/-- A thread drops `mLock`. -/
theorem Sound.unlock (h : s.Sound) {code : Code} (hlock : s.mLock = some t)
    (hat : ({ s with mLock := none } : Runner).At t code) (hcarried : code.carried = none)
    (hleft : (s.code t).left s.mPending = s.mPending) : ({ s with mLock := none }.goto t code : Runner).Sound := by
  refine h.of_turn ⟨rfl, fun other hne ↦ ?_, .inl rfl, fun _ hclosed ↦ hclosed,
    ⟨[], (List.append_nil _).symm, nofun⟩, le_rfl, fun op hop ↦ ?_⟩
    ⟨hat.lock_iff, hat.not_nested, hat.current, hat.calm, hat.carried_new, hat.erased⟩ ?_
  · rw [hlock]
    exact iff_of_false nofun fun heq ↦ hne (Option.some.inj heq).symm
  · rw [hcarried] at hop
    cases hop
  · have hold : s.waiting = s.mPending := (waiting_of_lock hlock rfl).trans hleft
    have hnew : ({ s with mLock := none }.goto t code : Runner).waiting = s.mPending := waiting_of_none rfl
    rw [hnew, ← hold]
    exact h.kept

/-- The holder of `mLock` changes the pending operations, the mode or the history. -/
theorem Sound.write (h : s.Sound) {code : Code} (hlock : s.mLock = some t) {after : Runner}
    (hcode : after.code = Function.update s.code t code) (hlock' : after.mLock = s.mLock)
    (hclosed : after.closed = s.closed) (hqueued : after.queued = s.queued)
    (hevents : ∃ new, after.events = s.events ++ new ∧
      ∀ op ∈ seen new, op ∈ seen s.events ∨ (s.code t).carried = some op)
    (hat : after.At t code) (hcarried : code.carried = none)
    (hkept : Kept PipeWakeCommand.hwPipe after.events (code.left after.mPending)) : after.Sound := by
  refine h.of_turn ⟨hcode, fun other _ ↦ by rw [hlock'], .inr hlock,
    fun hwPipe hmem ↦ hclosed ▸ hmem, hevents, hqueued.ge, fun op hop ↦ ?_⟩ hat ?_
  · rw [hcarried] at hop
    cases hop
  · rw [waiting_of_lock (hlock'.trans hlock) (by rw [hcode, Function.update_self])]
    exact hkept

/-! ## Turns -/

/-- The condition under which a turn keeps the order: no pending operation closes an open pipe when a timer event
begins, and nothing is queued for a pipe whose operations have been aborted. -/
def TurnKeepsOrder (s : Runner) : Code → Prop
  | .timerLock => ∀ op ∈ s.mPending, op.closes → op.hwPipe ∈ s.closed
  | .push op => .cancelled op.hwPipe ∉ s.events
  | .perform op none => .over op.hwPipe ∉ s.events
  | _ => True

def KeepsOrder : RunnerLabel → Runner → Prop
  | .resume t, s => s.TurnKeepsOrder (s.code t)
  | _, _ => True

/-- An operation is queued under a new number. -/
theorem Sound.queue (h : s.Sound) (hidle : s.code t = .idle) {hwPipe : ℕ} {wakeFlags : UInt32} :
    ({ s with queued := s.queued + 1 }.goto t (.test ⟨s.queued, hwPipe, wakeFlags⟩) : Runner).Sound := by
  have hnot : s.mLock ≠ some t := h.not_mine (by rw [hidle]; rfl)
  refine h.of_turn ⟨rfl, fun _ _ ↦ Iff.rfl, .inl rfl, fun _ hclosed ↦ hclosed, ⟨[], (List.append_nil _).symm, nofun⟩,
    Nat.le_succ s.queued, fun op hop ↦ .inr ?_⟩ ⟨iff_of_false hnot nofun, rfl, nofun, nofun, fun op hop ↦ ?_, nofun⟩ ?_
  · cases hop
    rfl
  · cases hop
    exact ⟨fun hseen ↦ Nat.lt_irrefl s.queued (h.serial _ hseen), Nat.lt_succ_self s.queued⟩
  · have hwaiting : ({ s with queued := s.queued + 1 }.goto t (.test ⟨s.queued, hwPipe, wakeFlags⟩) : Runner).waiting =
        s.waiting := waiting_of_other rfl hnot rfl rfl
    rw [hwaiting]
    exact h.kept

theorem Sound.begin (h : s.Sound) {call : Call} {next : Runner} (hstep : s.begin t call = some next) : next.Sound := by
  unfold Runner.begin at hstep
  split_ifs at hstep with hidle
  have hnot : s.mLock ≠ some t := h.not_mine (by rw [hidle]; rfl)
  have hplain {code : Code} (hholds : code.holds = false) : s.mLock = some t ↔ code.holds :=
    iff_of_false hnot (by rw [hholds]; exact Bool.false_ne_true)
  cases call with
  | queueDeviceOperation hwPipe wakeFlags =>
    exact Option.some.inj hstep ▸ h.queue hidle
  | onTimerEvent =>
    cases hstep
    exact h.goto (at_plain (hplain rfl) rfl rfl rfl rfl) nofun nofun
  | abortPending hwPipe =>
    cases hstep
    exact h.goto (at_plain (hplain rfl) rfl rfl rfl rfl) nofun nofun
  | close hwPipe =>
    cases hstep
    exact h.goto (at_plain (hplain rfl) rfl rfl rfl rfl) nofun nofun
  | setContextRunMode mode =>
    cases hstep
    exact h.goto (at_plain (hplain rfl) rfl rfl rfl rfl) nofun nofun

/-- A pipe is closed by a thread that does not hold `mLock`. -/
theorem Sound.eraseFdInfo (h : s.Sound) (hcode : (s.code t).holds = false) (hwPipe : ℕ) :
    (s.eraseFdInfo t hwPipe none).Sound := by
  have hnot := h.not_mine hcode
  unfold Runner.eraseFdInfo
  split_ifs with hclosed
  · exact h.goto (at_plain (iff_of_false hnot nofun) rfl rfl rfl rfl) nofun nofun
  · refine h.of_turn ⟨rfl, fun _ _ ↦ Iff.rfl, .inl rfl, fun _ hmem ↦ .tail hwPipe hmem,
      ⟨[], (List.append_nil _).symm, nofun⟩, le_rfl, nofun⟩ (at_plain (iff_of_false hnot nofun) rfl rfl rfl rfl) ?_
    have hwaiting : ({ s with closed := hwPipe :: s.closed }.goto t (.abortLock hwPipe none) : Runner).waiting =
        s.waiting := waiting_of_other rfl hnot rfl rfl
    rw [hwaiting]
    exact h.kept

theorem eraseFdInfo_goto (s : Runner) (t : ℕ) (code : Code) (hwPipe : ℕ) (caller : Option ℕ) :
    (s.goto t code).eraseFdInfo t hwPipe caller = s.eraseFdInfo t hwPipe caller := by
  unfold Runner.eraseFdInfo Runner.goto
  split_ifs <;> simp only [Function.update_idem]

section

variable (h : s.Sound)
include h

/-- An operation is performed by the thread that has queued it. -/
theorem Sound.direct {op : PipeWakeCommand} (hcode : s.code t = .perform op none)
    (hover : .over op.hwPipe ∉ s.events) : (s.performDeviceOperation t op none).Sound := by
  have hnot : s.mLock ≠ some t := h.not_mine (by rw [hcode]; rfl)
  have hcarried : (s.code t).carried = some op := by
    rw [hcode]
    rfl
  have hdone : ({ s with events := s.events ++ [Event.direct op] }.goto t .idle : Runner).Sound := by
    refine h.of_turn ⟨rfl, fun _ _ ↦ Iff.rfl, .inl rfl, fun _ hclosed ↦ hclosed, ⟨[.direct op], rfl, fun other hother ↦ ?_⟩,
      le_rfl, nofun⟩ (at_plain (iff_of_false hnot nofun) rfl rfl rfl rfl) ?_
    · obtain rfl := List.mem_singleton.mp hother
      exact .inr hcarried
    · have hwaiting : ({ s with events := s.events ++ [Event.direct op] }.goto t .idle : Runner).waiting = s.waiting :=
        waiting_of_other rfl hnot rfl rfl
      rw [hwaiting]
      exact h.kept.direct ((h.threads t).carried_new op hcarried).1 hover
  have hperform : s.performDeviceOperation t op none =
      if op.closes then ({ s with events := s.events ++ [Event.direct op] } : Runner).eraseFdInfo t op.hwPipe none
      else { s with events := s.events ++ [Event.direct op] }.goto t .idle := rfl
  rw [hperform]
  split_ifs
  · have herase := hdone.eraseFdInfo (t := t) (by rw [code_goto]; rfl) op.hwPipe
    rwa [eraseFdInfo_goto] at herase
  · exact hdone

/-- A pending operation is performed by a timer event. -/
theorem Sound.take {op : PipeWakeCommand} {index : ℕ} (hcode : s.code t = .perform op (some index)) :
    (s.performDeviceOperation t op (some index)).Sound := by
  have hat := h.threads t
  rw [hcode] at hat
  have hlock : s.mLock = some t := hat.lock_iff.mpr rfl
  have hop : s.mPending[index]? = some op := hat.current op index rfl
  have hwaiting : s.waiting = op :: s.mPending.drop (index + 1) := by
    obtain ⟨hlt, heq⟩ := List.getElem?_eq_some_iff.mp hop
    rw [waiting_of_lock hlock hcode, ← heq]
    exact List.drop_eq_getElem_cons hlt
  have hgoto : s.performDeviceOperation t op (some index) =
      { s with events := s.events ++ [Event.taken op] }.goto t (.timerLoop (index + 1)) := by
    unfold Runner.performDeviceOperation
    by_cases hcloses : op.closes
    · rw [if_pos hcloses]
      exact if_pos (hat.calm rfl op (List.mem_of_getElem? hop) hcloses)
    · rw [if_neg hcloses]
      rfl
  rw [hgoto]
  refine h.write hlock rfl rfl rfl rfl ⟨[.taken op], rfl, fun other hother ↦ .inl ?_⟩
    ⟨iff_of_true hlock rfl, rfl, nofun, fun _ ↦ hat.calm rfl, nofun, nofun⟩ rfl (hwaiting ▸ h.kept).take
  obtain rfl := List.mem_singleton.mp hother
  refine seen_of_entered (h.kept.entered_of_waiting ?_)
  rw [hwaiting]
  exact .head _

/-- An operation is put off. -/
theorem Sound.push {op : PipeWakeCommand} (hcode : s.code t = .push op) (hkeeps : .cancelled op.hwPipe ∉ s.events) :
    ({ s with mPending := s.mPending ++ [op], events := s.events ++ [Event.entered op] }.goto t .unlock : Runner).Sound := by
  have hlock : s.mLock = some t := h.mine (by rw [hcode]; rfl)
  have hcarried : (s.code t).carried = some op := by
    rw [hcode]
    rfl
  have hwaiting : s.waiting = s.mPending := waiting_of_lock hlock hcode
  refine h.write hlock rfl rfl rfl rfl ⟨[.entered op], rfl, fun other hother ↦ .inr ?_⟩
    (at_plain (iff_of_true hlock rfl) rfl rfl rfl rfl) rfl ?_
  · obtain rfl := List.mem_singleton.mp hother
    exact hcarried
  · exact (hwaiting ▸ h.kept).enter ((h.threads t).carried_new op hcarried).1 hkeeps

/-- The loop of a timer event goes to the next operation, or ends. -/
theorem Sound.timerLoop {index : ℕ} (hcode : s.code t = .timerLoop index) : (match s.mPending[index]? with
      | some op => s.goto t (.perform op (some index))
      | none => s.goto t .timerClear).Sound := by
  have hat := h.threads t
  rw [hcode] at hat
  have hlock : s.mLock = some t := hat.lock_iff.mpr rfl
  cases hop : s.mPending[index]? with
  | some op =>
    refine h.goto ⟨iff_of_true hlock rfl, rfl, fun other place heq ↦ ?_, fun _ ↦ hat.calm rfl, nofun, nofun⟩
      nofun fun _ ↦ by rw [hcode]; rfl
    cases heq
    exact hop
  | none =>
    refine h.goto (at_plain (iff_of_true hlock rfl) rfl rfl rfl rfl) nofun fun _ ↦ ?_
    rw [hcode]
    exact (List.drop_eq_nil_of_le (List.getElem?_eq_none_iff.mp hop)).symm

/-- The operations of a pipe are taken out. -/
theorem Sound.abortErase {hwPipe : ℕ} (hcode : s.code t = .abortErase hwPipe none) : ({ s with
      mPending := s.mPending.filter fun op ↦ op.hwPipe ≠ hwPipe
      events := s.events ++ [Event.cancelled hwPipe] }.goto t (.abortUnlock hwPipe none) : Runner).Sound := by
  have hlock : s.mLock = some t := h.mine (by rw [hcode]; rfl)
  have hwaiting : s.waiting = s.mPending := waiting_of_lock hlock hcode
  refine h.write hlock rfl rfl rfl rfl ⟨[.cancelled hwPipe], rfl, nofun⟩
    ⟨iff_of_true hlock rfl, rfl, nofun, nofun, nofun, fun other hother ↦ ?_⟩ rfl
    ((hwaiting ▸ h.kept).cancel hwPipe)
  cases hother
  exact List.mem_append_right s.events (.head [])

/-- An abort is over. -/
theorem Sound.abortReturn {hwPipe : ℕ} (hcode : s.code t = .abortReturn hwPipe none) :
    ({ s with events := s.events ++ [Event.over hwPipe] }.goto t .idle : Runner).Sound := by
  have hnot : s.mLock ≠ some t := h.not_mine (by rw [hcode]; rfl)
  refine h.of_turn ⟨rfl, fun _ _ ↦ Iff.rfl, .inl rfl, fun _ hclosed ↦ hclosed, ⟨[.over hwPipe], rfl, nofun⟩,
    le_rfl, nofun⟩ (at_plain (iff_of_false hnot nofun) rfl rfl rfl rfl) ?_
  have hwaiting : ({ s with events := s.events ++ [Event.over hwPipe] }.goto t .idle : Runner).waiting = s.waiting :=
    waiting_of_other rfl hnot rfl rfl
  rw [hwaiting]
  exact h.kept.end_cancel ((h.threads t).erased hwPipe (by rw [hcode]; rfl))

theorem Sound.resume (hkeeps : KeepsOrder (.resume t) s) {next : Runner} (hstep : s.resume t = some next) :
    next.Sound := by
  have hat := h.threads t
  have hkeeps : s.TurnKeepsOrder (s.code t) := hkeeps
  unfold Runner.resume at hstep
  cases hcode : s.code t with
  | idle =>
    rw [hcode] at hstep
    cases hstep
  | test op =>
    rw [hcode] at hstep hat
    have hnot : s.mLock ≠ some t := h.not_mine (by rw [hcode]; rfl)
    have hsame : ∀ other, some op = some other → (s.code t).carried = some other := by
      rw [hcode]
      exact fun _ ↦ id
    dsimp only at hstep
    split_ifs at hstep with hlocked
    · exact Option.some.inj hstep ▸ h.goto ⟨iff_of_false hnot nofun, rfl, nofun, nofun, hat.carried_new, nofun⟩ hsame nofun
    · exact Option.some.inj hstep ▸ h.goto ⟨iff_of_false hnot nofun, rfl, nofun, nofun, hat.carried_new, nofun⟩ hsame nofun
  | pushLock op =>
    rw [hcode] at hstep hat
    refine h.lock hstep ⟨iff_of_true rfl rfl, rfl, nofun, nofun, hat.carried_new, nofun⟩ (fun op hop ↦ ?_) rfl
    rw [hcode]
    exact hop
  | push op =>
    rw [hcode] at hstep hkeeps
    exact Option.some.inj hstep ▸ h.push hcode hkeeps
  | timerLock =>
    rw [hcode] at hstep hkeeps
    exact h.lock hstep ⟨iff_of_true rfl rfl, rfl, nofun, fun _ ↦ hkeeps, nofun, nofun⟩ nofun rfl
  | timerLoop index =>
    rw [hcode] at hstep
    have hloop := h.timerLoop hcode
    cases hop : s.mPending[index]? with
    | some op =>
      simp only [hop] at hstep hloop
      exact Option.some.inj hstep ▸ hloop
    | none =>
      simp only [hop] at hstep hloop
      exact Option.some.inj hstep ▸ hloop
  | timerClear =>
    rw [hcode] at hstep
    have hlock : s.mLock = some t := h.mine (by rw [hcode]; rfl)
    cases hstep
    have hwaiting : s.waiting = [] := waiting_of_lock hlock hcode
    exact h.write hlock rfl rfl rfl rfl ⟨[], (List.append_nil _).symm, nofun⟩
      (at_plain (iff_of_true hlock rfl) rfl rfl rfl rfl) rfl (hwaiting ▸ h.kept)
  | perform op caller =>
    rw [hcode] at hstep hkeeps
    cases hstep
    cases caller with
    | none => exact h.direct hcode hkeeps
    | some index => exact h.take hcode
  | abortLock hwPipe caller =>
    rw [hcode] at hstep hat
    obtain rfl := Option.not_isSome_iff_eq_none.mp (Bool.not_eq_true _ ▸ hat.not_nested)
    exact h.lock hstep (at_plain (iff_of_true rfl rfl) rfl rfl rfl rfl) nofun rfl
  | abortErase hwPipe caller =>
    rw [hcode] at hstep hat
    obtain rfl := Option.not_isSome_iff_eq_none.mp (Bool.not_eq_true _ ▸ hat.not_nested)
    exact Option.some.inj hstep ▸ h.abortErase hcode
  | abortUnlock hwPipe caller =>
    rw [hcode] at hstep hat
    obtain rfl := Option.not_isSome_iff_eq_none.mp (Bool.not_eq_true _ ▸ hat.not_nested)
    cases hstep
    exact h.unlock (hat.lock_iff.mpr rfl) ⟨iff_of_false nofun nofun, rfl, nofun, nofun, nofun, hat.erased⟩ rfl
      (by rw [hcode]; rfl)
  | abortReturn hwPipe caller =>
    rw [hcode] at hstep hat
    obtain rfl := Option.not_isSome_iff_eq_none.mp (Bool.not_eq_true _ ▸ hat.not_nested)
    exact Option.some.inj hstep ▸ h.abortReturn hcode
  | close hwPipe =>
    rw [hcode] at hstep
    exact Option.some.inj hstep ▸ h.eraseFdInfo (by rw [hcode]; rfl) hwPipe
  | modeLock mode =>
    rw [hcode] at hstep
    exact h.lock hstep (at_plain (iff_of_true rfl rfl) rfl rfl rfl rfl) nofun rfl
  | modeSet mode =>
    rw [hcode] at hstep
    have hlock : s.mLock = some t := h.mine (by rw [hcode]; rfl)
    cases hstep
    have hwaiting : s.waiting = s.mPending := waiting_of_lock hlock hcode
    exact h.write hlock rfl rfl rfl rfl ⟨[], (List.append_nil _).symm, nofun⟩
      (at_plain (iff_of_true hlock rfl) rfl rfl rfl rfl) rfl (hwaiting ▸ h.kept)
  | unlock =>
    rw [hcode] at hstep
    exact Option.some.inj hstep ▸ h.unlock (h.mine (by rw [hcode]; rfl))
      (at_plain (iff_of_false nofun nofun) rfl rfl rfl rfl) rfl (by rw [hcode]; rfl)

end

theorem At.of_vmLock (h : s.At t code) {vmLock : Option ℕ} : ({ s with vmLock } : Runner).At t code :=
  ⟨h.lock_iff, h.not_nested, h.current, h.calm, h.carried_new, h.erased⟩

theorem Sound.step (h : s.Sound) {label : RunnerLabel} (hkeeps : KeepsOrder label s) {next : Runner}
    (hstep : runnerStep label s = some next) : next.Sound := by
  unfold runnerStep at hstep
  cases label with
  | begin t call => exact h.begin hstep
  | resume t => exact h.resume hkeeps hstep
  | takeVmLock t =>
    dsimp only at hstep
    split_ifs at hstep
    exact Option.some.inj hstep ▸ ⟨fun t ↦ h.threads t |>.of_vmLock, h.alone, h.serial, h.kept⟩
  | dropVmLock t =>
    dsimp only at hstep
    split_ifs at hstep
    exact Option.some.inj hstep ▸ ⟨fun t ↦ h.threads t |>.of_vmLock, h.alone, h.serial, h.kept⟩

/-- What is to hold of the operations. -/
structure InOrder (s : Runner) : Prop where
  once : (ran s.events).Nodup
  order : (taken s.events).Sublist (entered s.events)
  quiet : Quiet PipeWakeCommand.hwPipe s.events
  no_self_wait : ∀ t, (s.code t).waits → s.mLock ≠ some t

theorem Sound.inOrder (h : s.Sound) : s.InOrder := by
  refine ⟨h.kept.ran_nodup, h.kept.taken_sublist, h.kept.quiet, fun t hwaits ↦ ?_⟩
  exact h.not_mine (Code.holds_of_waits hwaits)

/-- In a run of turns that keep the order, the operations are in order. -/
theorem inOrder_of_keepsOrder (labels : List RunnerLabel) {last : Runner}
    (hkeeps : Guarded runnerStep KeepsOrder init labels) (hrun : run runnerStep init labels = some last) :
    last.InOrder :=
  Sound.inOrder <| invariant_of_guarded Sound (fun _ _ _ hsound hkeeps hstep ↦ hsound.step hkeeps hstep)
    sound_init hkeeps hrun

instance decidableTurnKeepsOrder (s : Runner) : ∀ code, Decidable (s.TurnKeepsOrder code)
  | .timerLock => inferInstanceAs (Decidable (∀ _ ∈ _, _ → _))
  | .push _ | .perform _ none => inferInstanceAs (Decidable (¬ _))
  | .idle | .test _ | .pushLock _ | .timerLoop _ | .timerClear | .perform _ (some _) | .abortLock _ _
  | .abortErase _ _ | .abortUnlock _ _ | .abortReturn _ _ | .close _ | .modeLock _ | .modeSet _ | .unlock =>
    isTrue trivial

instance decidableKeepsOrder : ∀ label s, Decidable (KeepsOrder label s)
  | .resume t, s => s.decidableTurnKeepsOrder (s.code t)
  | .begin _ _, _ | .takeVmLock _, _ | .dropVmLock _, _ => isTrue trivial

/-- A call and all of its turns. -/
def whole (t : ℕ) (call : Call) (turns : ℕ) : List RunnerLabel := .begin t call :: List.replicate turns (.resume t)

/-- Two operations are put off and one is aborted before a timer event; with the VM lock one is performed at once,
and one that closes its pipe. -/
def busyRun : List RunnerLabel :=
  [.takeVmLock 0] ++ whole 0 (.queueDeviceOperation 7 2) 2 ++ whole 1 (.queueDeviceOperation 7 4) 4 ++
    whole 1 (.queueDeviceOperation 8 2) 4 ++ whole 0 (.abortPending 7) 4 ++ whole 2 .onTimerEvent 6 ++
      whole 0 (.queueDeviceOperation 8 PIPE_WAKE_CLOSED) 6 ++ [.dropVmLock 0] ++
        whole 0 (.setContextRunMode .DeferAlways) 3

theorem inOrder_busyRun :
    ∃ last, run runnerStep init busyRun = some last ∧
      ran last.events = [⟨0, 7, 2⟩, ⟨2, 8, 2⟩, ⟨3, 8, PIPE_WAKE_CLOSED⟩] ∧ last.InOrder :=
  ⟨_, rfl, by decide, inOrder_of_keepsOrder busyRun (by decide) rfl⟩

/-- A timer event performs an operation that closes its pipe, and waits for the lock that it holds. -/
theorem waits_for_itself :
    ∃ last, run runnerStep init (whole 1 (.queueDeviceOperation 7 PIPE_WAKE_CLOSED) 4 ++ whole 2 .onTimerEvent 3) =
        some last ∧
      (last.code 2).waits ∧ last.mLock = some 2 ∧ runnerStep (.resume 2) last = none ∧ ¬ last.InOrder :=
  ⟨_, rfl, by decide, rfl, rfl, fun h ↦ h.no_self_wait 2 (by decide) rfl⟩

end Runner

end FdeEmugl.DeviceContextRunner
