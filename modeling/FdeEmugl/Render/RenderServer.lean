import Mathlib.Data.List.Sort
import FdeEmugl.Library.Heap
import FdeEmugl.Library.Runs

/-!
# The thread set of the render server

`RenderServer::main` accepts connections, starts a `RenderThread` for each and
keeps pointers to the threads in an ordered set. Finished threads are deleted
when the next connection was served, the others when the server is asked to
exit. Render threads finish while the server is at any of its steps.

When `start` fails, the thread is deleted with its stream, the stream is deleted
again, and the pointer still goes into the set. The results below are about runs
in which `start` succeeds for every thread that is created.
-/

namespace FdeEmugl.Server

open Heap Runs
open Function (update_idem update_of_ne update_self)
open Option (bind_some ite_none_right_eq_some map_eq_some_iff ne_none_iff_exists')

/-! ## Threads and connections -/

structure RenderThread where
  m_stream : ℕ
  mStarted : Bool
  /-- `RenderThread::mFinished`, which `setFinished` sets at the end of `main`. -/
  mFinished : Bool
  /-- `Thread::mFinished`. -/
  returned : Bool
  mJoined : Bool
  /-- `pthread_create` made a thread. -/
  launched : Bool
  /-- The calls of `pthread_join` for it. -/
  joins : ℕ
  deriving DecidableEq

namespace RenderThread

def new (stream : ℕ) : RenderThread :=
  { m_stream := stream, mStarted := false, mFinished := false, returned := false, mJoined := false
    launched := false, joins := 0 }

/-- `created` tells whether `pthread_create` succeeds. -/
def start (created : Bool) (thread : RenderThread) : RenderThread :=
  if thread.mStarted then thread
  else if created then { thread with mStarted := true, launched := true }
  else { thread with mStarted := true, returned := true, mJoined := true }

/-- `pthread_join` waits until the thread has returned. -/
def wait (thread : RenderThread) : Option RenderThread :=
  if !thread.mStarted then some thread
  else if thread.mJoined then some thread
  else if thread.returned then some { thread with mJoined := true, joins := thread.joins + 1 }
  else none

/-- What `~Thread` does; it does not set `mJoined`. -/
def reclaim (thread : RenderThread) : Option RenderThread :=
  if thread.mStarted && !thread.mJoined then
    if thread.returned then some { thread with joins := thread.joins + 1 } else none
  else some thread

end RenderThread

/-- At most `n` characters are compared, and none after the end of the strings. -/
def strncmp : ℕ → List UInt8 → List UInt8 → ℤ
  | 0, _, _ => 0
  | n + 1, s1, s2 =>
    if s1.headD 0 ≠ s2.headD 0 then (s1.headD 0).toNat - (s2.headD 0).toNat
    else if s1.headD 0 = 0 then 0
    else strncmp n s1.tail s2.tail

def chars (text : String) : List UInt8 := text.toList.map fun char ↦ UInt8.ofNat char.toNat

def PIPE_OPENGLES : List UInt8 := chars "pipe:opengles"

def PIPE_TRANSFER : List UInt8 := chars "pipe:transfer"

def IOSTREAM_CLIENT_EXIT_SERVER : UInt32 := 1

/-- A stream that was accepted: where it was allocated, what can be read from it, and what creating
and starting its thread gives. -/
structure Connection where
  stream : ℕ
  header : Option (List UInt8)
  clientFlags : Option UInt32
  rt : Option ℕ
  starts : Bool

inductive Outcome where
  | shortHeader
  | unknownPipe
  | shortFlags
  | exitRequest
  | createFails
  | startFails (rt : ℕ)
  | running (rt : ℕ)
  deriving DecidableEq

namespace Connection

def isOpengles (temp : List UInt8) : Bool := strncmp PIPE_OPENGLES.length temp PIPE_OPENGLES = 0

def isTransfer (temp : List UInt8) : Bool := strncmp PIPE_TRANSFER.length temp PIPE_TRANSFER = 0

/-- The way one pass of the loop takes. -/
def outcome (connection : Connection) : Outcome :=
  match connection.header with
  | none => .shortHeader
  | some temp =>
    if !isOpengles temp && !isTransfer temp then .unknownPipe
    else match connection.clientFlags with
      | none => .shortFlags
      | some clientFlags =>
        if clientFlags &&& IOSTREAM_CLIENT_EXIT_SERVER ≠ 0 then .exitRequest
        else match connection.rt with
          | none => .createFails
          | some rt => if connection.starts then .running rt else .startFails rt

/-- The answer to a transfer handshake. -/
def reply (connection : Connection) : List UInt8 :=
  match connection.header with
  | none => []
  | some temp => if !isOpengles temp && isTransfer temp then chars "OK" ++ [0] else []

end Connection

/-! ## The server -/

/-- `rt` is the variable of that name, and the lists are the pointers that an iterator has still to
visit. -/
inductive Place where
  | accepting
  | sweeping (rt : Option ℕ) (rest : List ℕ)
  | stopping (rest : List ℕ)
  | done
  deriving DecidableEq

structure RenderServer where
  threads : List ℕ
  place : Place
  m_exiting : Bool
  objects : List (Cell RenderThread)
  /-- The streams, each with what was written to it. -/
  streams : List (Cell (List UInt8))

namespace RenderServer

def new : RenderServer := { threads := [], place := .accepting, m_exiting := false, objects := [], streams := [] }

def deleteStream (stream : ℕ) (server : RenderServer) : RenderServer :=
  { server with streams := delete stream server.streams }

/-- `~RenderThread` deletes the stream, and `~Thread` joins the thread. -/
def deleteThread (address : ℕ) (server : RenderServer) : Option RenderServer :=
  (find address server.objects).bind fun cell ↦ cell.object.reclaim.map fun thread ↦
    { server with
      objects := delete address (modify address (fun _ ↦ thread) server.objects)
      streams := delete cell.object.m_stream server.streams }

def waitThread (address : ℕ) (server : RenderServer) : Option RenderServer :=
  (find address server.objects).bind fun cell ↦ cell.object.wait.map fun thread ↦
    { server with objects := modify address (fun _ ↦ thread) server.objects }

/-- `new RenderThread` and `start`. -/
def createThread (rt : ℕ) (stream : ℕ) (starts : Bool) (server : RenderServer) : Option RenderServer :=
  if live server.objects rt = none then
    some { server with objects := create rt ((RenderThread.new stream).start starts) server.objects }
  else none

def insert (rt : ℕ) (threads : List ℕ) : List ℕ :=
  if rt ∈ threads then threads else threads.orderedInsert (· ≤ ·) rt

/-- The pass of the loop for a connection, up to the sweep. -/
def serve (connection : Connection) (server : RenderServer) : Option RenderServer :=
  if live server.streams connection.stream = none then
    let server := { server with streams := create connection.stream connection.reply server.streams }
    match connection.outcome with
    | .shortHeader | .unknownPipe | .shortFlags => some (server.deleteStream connection.stream)
    | .exitRequest =>
      some { server.deleteStream connection.stream with
        m_exiting := true, place := .stopping server.threads }
    | .createFails =>
      some { server.deleteStream connection.stream with place := .sweeping none server.threads }
    | .startFails rt => do
      let server ← server.createThread rt connection.stream false
      let server ← server.deleteThread rt
      return { server.deleteStream connection.stream with place := .sweeping (some rt) server.threads }
    | .running rt => do
      let server ← server.createThread rt connection.stream true
      return { server with place := .sweeping (some rt) server.threads }
  else none

/-- One pass of the loop that removes finished threads; after the last one `rt` is inserted. -/
def sweep (server : RenderServer) : Option RenderServer :=
  match server.place with
  | .sweeping rt [] =>
    some { server with
      threads := rt.elim server.threads fun rt ↦ insert rt server.threads
      place := .accepting }
  | .sweeping rt (t :: rest) =>
    (find t server.objects).bind fun cell ↦
      if cell.object.mFinished then
        (server.deleteThread t).map fun next ↦
          { next with threads := next.threads.erase t, place := .sweeping rt rest }
      else some { server with place := .sweeping rt rest }
  | _ => none

/-- One pass of the loop that waits for the threads; after the last one the set is cleared. -/
def stop (server : RenderServer) : Option RenderServer :=
  match server.place with
  | .stopping [] => some { server with threads := [], place := .done }
  | .stopping (t :: rest) => do
    let server ← server.waitThread t
    let server ← server.deleteThread t
    return { server with place := .stopping rest }
  | _ => none

/-- A thread that runs changes its own object. -/
def advance (address : ℕ) (enabled : RenderThread → Bool) (assign : RenderThread → RenderThread)
    (server : RenderServer) : Option RenderServer :=
  (live server.objects address).bind fun thread ↦
    if thread.launched && enabled thread then
      some { server with objects := modify address assign server.objects }
    else none

end RenderServer

inductive Event where
  | accept (connection : Option Connection)
  | sweep
  | stop
  | setFinished (address : ℕ)
  | returns (address : ℕ)

def step : Event → RenderServer → Option RenderServer
  | .accept connection, server =>
    if server.place = .accepting then
      match connection with
      | none => some server
      | some connection => server.serve connection
    else none
  | .sweep, server => server.sweep
  | .stop, server => server.stop
  | .setFinished address, server =>
    server.advance address (fun thread ↦ !thread.mFinished) fun thread ↦ { thread with mFinished := true }
  | .returns address, server =>
    server.advance address (fun thread ↦ thread.mFinished && !thread.returned) fun thread ↦
      { thread with returned := true }

/-- `start` does not fail. -/
def Starts : Event → RenderServer → Prop
  | .accept (some connection), _ => ∀ rt, connection.outcome ≠ .startFails rt
  | _, _ => True

/-! ## What the pointers lead to -/

/-- A thread that runs, or has run and was not joined. -/
structure RenderThread.Running (thread : RenderThread) : Prop where
  launched : thread.launched = true
  started : thread.mStarted = true
  notJoined : thread.mJoined = false
  joins : thread.joins = 0

/-- How a started thread must have ended. -/
def RenderThread.Joined (thread : RenderThread) : Prop := thread.launched = true → thread.joins = 1

theorem RenderThread.Running.joined_of_reclaim {thread last : RenderThread} (h : thread.Running)
    (hlast : thread.reclaim = some last) : last.Joined := by
  simp only [RenderThread.reclaim, h.started, h.notJoined, Bool.not_false, Bool.and_self, if_true,
    ite_none_right_eq_some, Option.some.injEq] at hlast
  obtain ⟨_, rfl⟩ := hlast
  intro _
  simp only [h.joins]

theorem RenderThread.Running.wait_eq {thread joined : RenderThread} (h : thread.Running)
    (hjoined : thread.wait = some joined) :
    joined.m_stream = thread.m_stream ∧ joined.mJoined = true ∧ joined.joins = 1 := by
  simp only [RenderThread.wait, h.started, h.notJoined, Bool.not_true, Bool.false_eq_true, if_false,
    ite_none_right_eq_some, Option.some.injEq] at hjoined
  obtain ⟨_, rfl⟩ := hjoined
  refine ⟨rfl, rfl, ?_⟩
  simp only [h.joins]

/-- Every thread that lives is running and has a living stream of its own. -/
structure Owners (objects : List (Cell RenderThread)) (streams : List (Cell (List UInt8))) : Prop where
  objects_kept : Kept RenderThread.Joined objects
  streams_kept : Kept (fun _ ↦ True) streams
  running : ∀ address thread, live objects address = some thread → thread.Running
  stream_live : ∀ address thread, live objects address = some thread → live streams thread.m_stream ≠ none
  stream_own : ∀ first second thread other, live objects first = some thread →
    live objects second = some other → thread.m_stream = other.m_stream → first = second

section Owners

variable {objects : List (Cell RenderThread)} {streams : List (Cell (List UInt8))}
variable {address stream : ℕ} {thread : RenderThread}

theorem owners_nil : Owners [] [] where
  objects_kept := trivial
  streams_kept := trivial
  running := by
    intro address thread h
    cases h
  stream_live := by
    intro address thread h
    cases h
  stream_own := by
    intro first second thread other h
    cases h

section

variable (h : Owners objects streams)
include h

/-- The stream of a connection that gets no thread. -/
theorem Owners.dropStream (hfree : live streams stream = none) (reply : List UInt8) :
    Owners objects (delete stream (create stream reply streams)) := by
  have hnew : live (create stream reply streams) stream = some reply := by
    rw [live_create, update_self]
  have hlive : live (delete stream (create stream reply streams)) = live streams := by
    rw [live_delete, live_create, update_idem, ← hfree, Function.update_eq_self]
  exact {
    objects_kept := h.objects_kept
    streams_kept := (h.streams_kept.create hfree reply).delete hnew trivial
    running := h.running
    stream_live := by
      rw [hlive]
      exact h.stream_live
    stream_own := h.stream_own }

theorem Owners.createThread (hfree : live objects address = none) (hstream : live streams stream = none)
    (reply : List UInt8) :
    Owners (create address ((RenderThread.new stream).start true) objects) (create stream reply streams) := by
  have hnew : ∀ other thread, live objects other = some thread → thread.m_stream ≠ stream := by
    intro other thread hother heq
    exact h.stream_live other thread hother (heq ▸ hstream)
  exact {
    objects_kept := h.objects_kept.create hfree _
    streams_kept := h.streams_kept.create hstream _
    running := by
      intro other thread hother
      rw [live_create] at hother
      by_cases heq : other = address
      · rw [heq, update_self] at hother
        cases hother
        exact ⟨rfl, rfl, rfl, rfl⟩
      · rw [update_of_ne heq] at hother
        exact h.running other thread hother
    stream_live := by
      intro other thread hother
      rw [live_create] at hother ⊢
      by_cases heq : other = address
      · rw [heq, update_self] at hother
        cases hother
        have hself : ((RenderThread.new stream).start true).m_stream = stream := rfl
        rw [hself, update_self]
        exact Option.some_ne_none _
      · rw [update_of_ne heq] at hother
        rw [update_of_ne (hnew other thread hother)]
        exact h.stream_live other thread hother
    stream_own := by
      intro first second thread other hfirst hsecond hsame
      rw [live_create] at hfirst hsecond
      by_cases hf : first = address <;> by_cases hs : second = address
      · rw [hf, hs]
      · rw [hf, update_self] at hfirst
        rw [update_of_ne hs] at hsecond
        cases hfirst
        exact absurd hsame.symm (hnew second other hsecond)
      · rw [hs, update_self] at hsecond
        rw [update_of_ne hf] at hfirst
        cases hsecond
        exact absurd hsame (hnew first thread hfirst)
      · rw [update_of_ne hf] at hfirst
        rw [update_of_ne hs] at hsecond
        exact h.stream_own first second thread other hfirst hsecond hsame }

/-- A thread changes its flags. -/
theorem Owners.modify (hlive : live objects address = some thread) {assign : RenderThread → RenderThread}
    (hrunning : (assign thread).Running) (hstream : (assign thread).m_stream = thread.m_stream) :
    Owners (modify address assign objects) streams := by
  -- the thread that is seen at an address afterwards has the stream of the one seen there before
  have hbefore : ∀ other now, live (Heap.modify address assign objects) other = some now →
      now.Running ∧ ∃ before, live objects other = some before ∧ now.m_stream = before.m_stream := by
    intro other now hnow
    rw [live_modify assign hlive] at hnow
    by_cases heq : other = address
    · rw [heq, update_self] at hnow
      cases hnow
      exact ⟨hrunning, thread, heq ▸ hlive, hstream⟩
    · rw [update_of_ne heq] at hnow
      exact ⟨h.running other now hnow, now, hnow, rfl⟩
  exact {
    objects_kept := h.objects_kept.modify hlive assign
    streams_kept := h.streams_kept
    running := fun other now hnow ↦ (hbefore other now hnow).1
    stream_live := by
      intro other now hnow
      obtain ⟨_, before, hother, hsame⟩ := hbefore other now hnow
      rw [hsame]
      exact h.stream_live other before hother
    stream_own := by
      intro first second now now' hfirst hsecond hsame
      obtain ⟨_, before, hfirst', hsame₁⟩ := hbefore first now hfirst
      obtain ⟨_, before', hsecond', hsame₂⟩ := hbefore second now' hsecond
      refine h.stream_own first second before before' hfirst' hsecond' ?_
      rw [← hsame₁, ← hsame₂, hsame] }

/-- A thread is deleted together with its stream. -/
theorem Owners.drop (hlive : live objects address = some thread) {rest : List (Cell RenderThread)}
    (hkept : Kept RenderThread.Joined rest) (hrest : live rest = Function.update (live objects) address none) :
    Owners rest (delete thread.m_stream streams) := by
  have hbefore : ∀ other now, live rest other = some now → other ≠ address ∧ live objects other = some now := by
    intro other now hnow
    rw [hrest] at hnow
    by_cases heq : other = address
    · rw [heq, update_self] at hnow
      cases hnow
    · rw [update_of_ne heq] at hnow
      exact ⟨heq, hnow⟩
  obtain ⟨reply, hreply⟩ := ne_none_iff_exists'.mp (h.stream_live address thread hlive)
  exact {
    objects_kept := hkept
    streams_kept := h.streams_kept.delete hreply trivial
    running := fun other now hnow ↦ h.running other now (hbefore other now hnow).2
    stream_live := by
      intro other now hnow
      obtain ⟨hne, hother⟩ := hbefore other now hnow
      have hstream : now.m_stream ≠ thread.m_stream := by
        intro hsame
        exact hne (h.stream_own other address now thread hother hlive hsame)
      rw [live_delete, update_of_ne hstream]
      exact h.stream_live other now hother
    stream_own := by
      intro first second now now' hfirst hsecond hsame
      exact h.stream_own first second now now' (hbefore first now hfirst).2
        (hbefore second now' hsecond).2 hsame }

end

end Owners

/-! ## Runs -/

namespace RenderServer

/-- The pointers that are still to be used. -/
def pointers (server : RenderServer) : List ℕ :=
  match server.place with
  | .sweeping rt _ => rt.toList ++ server.threads
  | .stopping rest => rest
  | _ => server.threads

def InOrder (threads : List ℕ) : Place → Prop
  | .accepting => True
  | .sweeping rt rest => rest.Nodup ∧ rest ⊆ threads ∧ ∀ address ∈ rt, address ∉ threads
  | .stopping rest => rest.Nodup
  | .done => threads = []

structure Sound (server : RenderServer) : Prop where
  owners : Owners server.objects server.streams
  nodup : server.threads.Nodup
  tracked : ∀ address, address ∈ server.pointers ↔ live server.objects address ≠ none
  inOrder : InOrder server.threads server.place

variable {server next : RenderServer}

variable {address : ℕ} {thread : RenderThread}

theorem sound_new : Sound new where
  owners := owners_nil
  nodup := List.nodup_nil
  tracked := by
    intro address
    simp [pointers, new, live, find]
  inOrder := trivial

theorem deleteThread_eq (hlive : live server.objects address = some thread)
    (h : server.deleteThread address = some next) :
    ∃ last, thread.reclaim = some last ∧ next = { server with
      objects := delete address (modify address (fun _ ↦ last) server.objects)
      streams := delete thread.m_stream server.streams } := by
  obtain ⟨cell, hfind, _, rfl⟩ := find_of_live hlive
  rw [deleteThread, hfind, bind_some, map_eq_some_iff] at h
  obtain ⟨last, hlast, rfl⟩ := h
  exact ⟨last, hlast, rfl⟩

theorem waitThread_eq (hlive : live server.objects address = some thread)
    (h : server.waitThread address = some next) :
    ∃ last, thread.wait = some last ∧
      next = { server with objects := modify address (fun _ ↦ last) server.objects } := by
  obtain ⟨cell, hfind, _, rfl⟩ := find_of_live hlive
  rw [waitThread, hfind, bind_some, map_eq_some_iff] at h
  obtain ⟨last, hlast, rfl⟩ := h
  exact ⟨last, hlast, rfl⟩

/-- Deleting a running thread joins it. -/
theorem Sound.deleteThread (h : Sound server) (hlive : live server.objects address = some thread)
    (hdelete : server.deleteThread address = some next) :
    Owners next.objects next.streams ∧ next.threads = server.threads ∧
      live next.objects = Function.update (live server.objects) address none := by
  obtain ⟨last, hlast, rfl⟩ := deleteThread_eq hlive hdelete
  have hseen : live (modify address (fun _ ↦ last) server.objects) address = some last := by
    rw [live_modify _ hlive, update_self]
  have hrest : live (delete address (modify address (fun _ ↦ last) server.objects)) =
      Function.update (live server.objects) address none := by
    rw [live_delete, live_modify _ hlive, update_idem]
  have hjoined := (h.owners.running address thread hlive).joined_of_reclaim hlast
  refine ⟨h.owners.drop hlive ?_ hrest, rfl, hrest⟩
  exact (h.owners.objects_kept.modify hlive _).delete hseen hjoined

/-- After waiting for a thread, deleting it does not join it again. -/
theorem Sound.waitThread {middle : RenderServer} (h : Sound server)
    (hlive : live server.objects address = some thread) (hwait : server.waitThread address = some middle)
    (hdelete : middle.deleteThread address = some next) :
    Owners next.objects next.streams ∧ next.threads = server.threads ∧
      live next.objects = Function.update (live server.objects) address none := by
  obtain ⟨joined, hjoined, rfl⟩ := waitThread_eq hlive hwait
  obtain ⟨hstream, hflag, hjoins⟩ := (h.owners.running address thread hlive).wait_eq hjoined
  have hmiddle : live (modify address (fun _ ↦ joined) server.objects) =
      Function.update (live server.objects) address (some joined) := live_modify _ hlive
  have hseen : live (modify address (fun _ ↦ joined) server.objects) address = some joined := by
    rw [hmiddle, update_self]
  obtain ⟨last, hlast, rfl⟩ := deleteThread_eq hseen hdelete
  simp only [RenderThread.reclaim, hflag, Bool.not_true, Bool.and_false, Bool.false_eq_true, if_false,
    Option.some.injEq] at hlast
  subst hlast
  have hagain : live (modify address (fun _ ↦ joined) (modify address (fun _ ↦ joined) server.objects))
      address = some joined := by
    rw [live_modify _ hseen, update_self]
  have hrest : live (delete address (modify address (fun _ ↦ joined)
      (modify address (fun _ ↦ joined) server.objects))) =
        Function.update (live server.objects) address none := by
    rw [live_delete, live_modify _ hseen, hmiddle, update_idem, update_idem]
  have hkept := (h.owners.objects_kept.modify hlive fun _ ↦ joined).modify hseen fun _ ↦ joined
  have howners := h.owners.drop hlive (hkept.delete hagain fun _ ↦ hjoins) hrest
  rw [← hstream] at howners
  exact ⟨howners, rfl, hrest⟩

theorem Sound.not_mem_of_dead (h : Sound server) (hplace : server.place = .accepting)
    (hdead : live server.objects address = none) : address ∉ server.threads := by
  have htracked := h.tracked address
  rw [pointers, hplace] at htracked
  exact fun hmem ↦ htracked.mp hmem hdead

theorem Sound.serve {connection : Connection} (h : Sound server) (hplace : server.place = .accepting)
    (hstarts : ∀ rt, connection.outcome ≠ .startFails rt)
    (hserve : server.serve connection = some next) : Sound next := by
  have htracked : ∀ address, address ∈ server.threads ↔ live server.objects address ≠ none := by
    have htracked := h.tracked
    rw [pointers, hplace] at htracked
    exact htracked
  rw [RenderServer.serve, ite_none_right_eq_some] at hserve
  obtain ⟨hfree, hserve⟩ := hserve
  have hdrop := h.owners.dropStream hfree connection.reply
  cases houtcome : connection.outcome with
  | shortHeader | unknownPipe | shortFlags =>
    simp only [houtcome, Option.some.injEq] at hserve
    subst hserve
    exact ⟨hdrop, h.nodup, h.tracked, h.inOrder⟩
  | exitRequest =>
    simp only [houtcome, Option.some.injEq] at hserve
    subst hserve
    exact ⟨hdrop, h.nodup, htracked, h.nodup⟩
  | createFails =>
    simp only [houtcome, Option.some.injEq] at hserve
    subst hserve
    refine ⟨hdrop, h.nodup, htracked, h.nodup, List.Subset.refl _, ?_⟩
    intro address hnone
    cases hnone
  | startFails rt => exact absurd houtcome (hstarts rt)
  | running rt =>
    simp only [houtcome, createThread] at hserve
    split_ifs at hserve with hdead
    · simp only [Option.pure_def, Option.bind_eq_bind, bind_some, Option.some.injEq] at hserve
      subst hserve
      refine ⟨h.owners.createThread hdead hfree connection.reply, h.nodup, ?_, h.nodup, List.Subset.refl _, ?_⟩
      · intro address
        simp only [pointers, Option.toList_some, List.singleton_append, List.mem_cons, live_create]
        by_cases heq : address = rt
        · rw [heq, update_self]
          simp
        · rw [update_of_ne heq, htracked]
          simp [heq]
      · intro address hrt
        cases hrt
        exact h.not_mem_of_dead hplace hdead
    · cases hserve

/-- What is seen through the pointers after the thread at `t` is deleted. -/
theorem tracked_erase {objects rest : List (Cell RenderThread)} {threads : List ℕ} {t : ℕ} (held : List ℕ)
    (hnodup : threads.Nodup) (hheld : t ∉ held)
    (htracked : ∀ address, address ∈ held ++ threads ↔ live objects address ≠ none)
    (hrest : live rest = Function.update (live objects) t none) (address : ℕ) :
    address ∈ held ++ threads.erase t ↔ live rest address ≠ none := by
  rw [hrest]
  by_cases heq : address = t
  · rw [heq, update_self, List.mem_append]
    simp [hheld, hnodup.not_mem_erase]
  · rw [update_of_ne heq, ← htracked, List.mem_append, List.mem_append, List.mem_erase_of_ne heq]

theorem Sound.sweep (h : Sound server) (hsweep : server.sweep = some next) : Sound next := by
  have htracked := h.tracked
  have horder := h.inOrder
  unfold RenderServer.sweep at hsweep
  cases hplace : server.place with
  | accepting | stopping _ | done =>
    simp only [hplace] at hsweep
    cases hsweep
  | sweeping rt rest =>
    rw [pointers, hplace] at htracked
    rw [hplace] at horder
    obtain ⟨hnodup, hsub, hrt⟩ := horder
    cases rest with
    | nil =>
      simp only [hplace, Option.some.injEq] at hsweep
      subst hsweep
      cases rt with
      | none => exact ⟨h.owners, h.nodup, htracked, trivial⟩
      | some rt =>
        have hperm : (insert rt server.threads).Perm (rt :: server.threads) := by
          rw [insert, if_neg (hrt rt rfl)]
          exact List.perm_orderedInsert _ _ _
        refine ⟨h.owners, hperm.nodup_iff.mpr (List.nodup_cons.mpr ⟨hrt rt rfl, h.nodup⟩), ?_, trivial⟩
        intro address
        exact hperm.mem_iff.trans (htracked address)
    | cons t rest =>
      have hmem : t ∈ server.threads := hsub (List.mem_cons_self)
      obtain ⟨hnot, hrest⟩ := List.nodup_cons.mp hnodup
      obtain ⟨_, hsub⟩ := List.cons_subset.mp hsub
      obtain ⟨thread, hlive⟩ := ne_none_iff_exists'.mp
        ((htracked t).mp (List.mem_append_right _ hmem))
      simp only [hplace, Option.bind_eq_some_iff] at hsweep
      obtain ⟨cell, _, hsweep⟩ := hsweep
      split_ifs at hsweep with hfinished
      · obtain ⟨last, hdelete, rfl⟩ := map_eq_some_iff.mp hsweep
        obtain ⟨howners, hthreads, hlast⟩ := h.deleteThread hlive hdelete
        have hheld : t ∉ rt.toList := by
          intro hheld
          exact hrt t (Option.mem_toList.mp hheld) hmem
        refine ⟨howners, ?_, ?_, hrest, ?_, ?_⟩
        · rw [hthreads]
          exact h.nodup.erase t
        · intro address
          rw [pointers, hthreads]
          exact tracked_erase rt.toList h.nodup hheld htracked hlast address
        · intro address haddress
          rw [hthreads]
          have hne : address ≠ t := fun heq ↦ hnot (heq ▸ haddress)
          exact (List.mem_erase_of_ne hne).mpr (hsub haddress)
        · intro address haddress hthread
          rw [hthreads] at hthread
          exact hrt address haddress (List.mem_of_mem_erase hthread)
      · cases hsweep
        exact ⟨h.owners, h.nodup, htracked, hrest, hsub, hrt⟩

theorem Sound.stop (h : Sound server) (hstop : server.stop = some next) : Sound next := by
  have htracked := h.tracked
  have horder := h.inOrder
  unfold RenderServer.stop at hstop
  cases hplace : server.place with
  | accepting | sweeping _ _ | done =>
    simp only [hplace] at hstop
    cases hstop
  | stopping rest =>
    rw [pointers, hplace] at htracked
    rw [hplace] at horder
    cases rest with
    | nil =>
      simp only [hplace, Option.some.injEq] at hstop
      subst hstop
      exact ⟨h.owners, List.nodup_nil, htracked, rfl⟩
    | cons t rest =>
      obtain ⟨hnot, hrest⟩ := List.nodup_cons.mp horder
      obtain ⟨thread, hlive⟩ := ne_none_iff_exists'.mp ((htracked t).mp List.mem_cons_self)
      simp only [hplace, Option.pure_def, Option.bind_eq_bind, Option.bind_eq_some_iff] at hstop
      obtain ⟨middle, hwait, last, hdelete, hnext⟩ := hstop
      cases hnext
      obtain ⟨howners, hthreads, hlast⟩ := h.waitThread hlive hwait hdelete
      refine ⟨howners, ?_, ?_, hrest⟩
      · rw [hthreads]
        exact h.nodup
      · intro address
        have herase := tracked_erase [] horder List.not_mem_nil htracked hlast address
        rw [List.erase_cons_head, List.nil_append] at herase
        exact herase

theorem Sound.advance {enabled : RenderThread → Bool} {assign : RenderThread → RenderThread}
    (h : Sound server) (hrunning : ∀ thread : RenderThread, thread.Running → (assign thread).Running)
    (hstream : ∀ thread : RenderThread, (assign thread).m_stream = thread.m_stream)
    (hadvance : server.advance address enabled assign = some next) : Sound next := by
  obtain ⟨thread, hlive, hadvance⟩ := Option.bind_eq_some_iff.mp hadvance
  rw [ite_none_right_eq_some] at hadvance
  obtain ⟨_, hnext⟩ := hadvance
  cases hnext
  have howners := h.owners.modify hlive (hrunning thread (h.owners.running address thread hlive))
    (hstream thread)
  refine ⟨howners, h.nodup, ?_, h.inOrder⟩
  intro other
  refine (h.tracked other).trans ?_
  simp only [live_modify assign hlive]
  by_cases heq : other = address
  · rw [heq, update_self, hlive]
    simp
  · rw [update_of_ne heq]

theorem Sound.step {event : Event} (h : Sound server) (hguard : Starts event server)
    (hstep : step event server = some next) : Sound next := by
  cases event with
  | accept connection =>
    simp only [Server.step, ite_none_right_eq_some] at hstep
    obtain ⟨hplace, hstep⟩ := hstep
    cases connection with
    | none =>
      cases hstep
      exact h
    | some connection => exact h.serve hplace hguard hstep
  | sweep => exact h.sweep hstep
  | stop => exact h.stop hstep
  | setFinished address =>
    rw [Server.step] at hstep
    refine h.advance (fun thread hthread ↦ ?_) (fun thread ↦ ?_) hstep
    · exact ⟨hthread.launched, hthread.started, hthread.notJoined, hthread.joins⟩
    · rfl
  | returns address =>
    rw [Server.step] at hstep
    refine h.advance (fun thread hthread ↦ ?_) (fun thread ↦ ?_) hstep
    · exact ⟨hthread.launched, hthread.started, hthread.notJoined, hthread.joins⟩
    · rfl

theorem sound_of_run {events : List Event} (hguard : Guarded step Starts new events)
    (hrun : run step new events = some server) : Sound server :=
  invariant_of_guarded Sound (fun _ _ _ h hguard hstep ↦ h.step hguard hstep) sound_new hguard hrun

end RenderServer

/-- The pointers in the set, without those that the last loop has already deleted. -/
def RenderServer.held (server : RenderServer) : List ℕ :=
  match server.place with
  | .stopping rest => rest
  | _ => server.threads

/-- As long as `start` does not fail: the pointers in the set lead to threads that were started and not
deleted, no thread and no stream is deleted twice, and at the end every started thread was joined
once and deleted. -/
theorem threads_sound_of_starts (events : List Event) (server : RenderServer)
    (hguard : Guarded step Starts RenderServer.new events)
    (hrun : run step RenderServer.new events = some server) :
    (∀ address ∈ server.held, ∃ thread, live server.objects address = some thread ∧
      thread.launched = true) ∧
    (∀ cell ∈ server.objects, cell.deletes ≤ 1) ∧ (∀ cell ∈ server.streams, cell.deletes ≤ 1) ∧
    (server.place = .done → ∀ cell ∈ server.objects, cell.object.launched = true →
      cell.object.joins = 1 ∧ cell.deletes = 1) := by
  have h := RenderServer.sound_of_run hguard hrun
  refine ⟨?_, fun _ ↦ h.owners.objects_kept.deletes_le_one,
    fun _ ↦ h.owners.streams_kept.deletes_le_one, ?_⟩
  · intro address hheld
    have hpointer : address ∈ server.pointers := by
      unfold RenderServer.held at hheld
      unfold RenderServer.pointers
      cases hplace : server.place <;> simp only [hplace] at hheld ⊢
      · exact hheld
      · exact List.mem_append_right _ hheld
      · exact hheld
      · exact hheld
    obtain ⟨thread, hlive⟩ := ne_none_iff_exists'.mp ((h.tracked address).mp hpointer)
    exact ⟨thread, hlive, (h.owners.running address thread hlive).launched⟩
  · intro hdone cell hcell hlaunched
    obtain ⟨_, hlive⟩ | ⟨hone, hjoined⟩ := h.owners.objects_kept.live_or_deleted hcell
    · have hempty : server.threads = [] := by
        have horder := h.inOrder
        rw [hdone] at horder
        exact horder
      have hpointer : cell.address ∈ server.pointers := by
        refine (h.tracked _).mpr ?_
        rw [hlive]
        exact Option.some_ne_none _
      rw [RenderServer.pointers, hdone] at hpointer
      simp only [hempty] at hpointer
      cases hpointer
    · exact ⟨hjoined hlaunched, hone⟩

/-- A connection whose header and flags arrive. -/
def connection (stream : ℕ) (pipe : String) (clientFlags : UInt32) (rt : ℕ) (starts : Bool) : Connection :=
  { stream, header := some (chars pipe ++ [0]), clientFlags := some clientFlags, rt := some rt, starts }

/-- The first thread is swept when the second connection was served, the second one is stopped. -/
def twoThreads : List Event :=
  [.accept (some (connection 10 "pipe:opengles" 0 1 true)), .sweep, .setFinished 1, .returns 1,
    .accept (some (connection 11 "pipe:transfer" 0 2 true)), .sweep, .sweep,
    .accept (some (connection 10 "pipe:opengles" 1 3 true)), .setFinished 2, .returns 2, .stop, .stop]

instance decidableNotStartFails : ∀ outcome : Outcome, Decidable (∀ rt, outcome ≠ .startFails rt)
  | .startFails rt => isFalse fun h ↦ h rt rfl
  | .shortHeader | .unknownPipe | .shortFlags | .exitRequest | .createFails | .running _ =>
    isTrue fun _ ↦ Outcome.noConfusion

instance decidableStarts : ∀ event server, Decidable (Starts event server)
  | .accept (some served), _ => decidableNotStartFails served.outcome
  | .accept none, _ | .sweep, _ | .stop, _ | .setFinished _, _ | .returns _, _ => isTrue trivial

theorem threads_sound_twoThreads :
    ∃ server, Guarded step Starts RenderServer.new twoThreads ∧
      run step RenderServer.new twoThreads = some server ∧
      (∃ cell ∈ server.objects, cell.object.launched = true) ∧
      ∀ cell ∈ server.objects, cell.object.launched = true → cell.object.joins = 1 ∧ cell.deletes = 1 := by
  have hguard : Guarded step Starts RenderServer.new twoThreads := by decide +kernel
  have hplace : (run step RenderServer.new twoThreads).map (fun server ↦
      (server.place, decide (∃ cell ∈ server.objects, cell.object.launched = true))) =
        some (.done, true) := by decide +kernel
  obtain ⟨server, hrun, hserver⟩ := map_eq_some_iff.mp hplace
  obtain ⟨hdone, hsome⟩ := Prod.mk.inj hserver
  obtain ⟨_, _, _, hjoined⟩ := threads_sound_of_starts twoThreads server hguard hrun
  exact ⟨server, hguard, hrun, of_decide_eq_true hsome, hjoined hdone⟩

/-- A thread that cannot be started is in the set after it was deleted, and its stream is deleted
twice. -/
theorem failed_start_kept :
    ∃ server, run step RenderServer.new
        [.accept (some (connection 10 "pipe:opengles" 0 1 false)), .sweep] = some server ∧
      server.threads = [1] ∧
      ¬ (∀ address ∈ server.held, ∃ thread, live server.objects address = some thread) ∧
      ¬ ∀ cell ∈ server.streams, cell.deletes ≤ 1 := by
  have hfields : (run step RenderServer.new
      [.accept (some (connection 10 "pipe:opengles" 0 1 false)), .sweep]).map (fun server ↦
        (server.threads, decide (1 ∈ server.held), live server.objects 1,
          decide (∀ cell ∈ server.streams, cell.deletes ≤ 1))) =
        some ([1], true, none, false) := by decide +kernel
  obtain ⟨server, hrun, hserver⟩ := map_eq_some_iff.mp hfields
  simp only [Prod.mk.injEq, decide_eq_true_eq, decide_eq_false_iff_not] at hserver
  obtain ⟨hthreads, hheld, hdead, hstreams⟩ := hserver
  refine ⟨server, hrun, hthreads, fun h ↦ ?_, hstreams⟩
  obtain ⟨thread, hlive⟩ := h 1 hheld
  rw [hdead] at hlive
  cases hlive

end FdeEmugl.Server
