import Mathlib.Data.List.Infix

/-!
# Framed streams

A stream is cut into frames. A frame is a header of a fixed size and as many symbols after it as the header
says; the header also says whether the frame is a message, and of which kind, or is to be dropped. A
receiver that gets the stream in pieces keeps the beginning of a frame until the rest of it comes.
-/

namespace FdeEmugl.Framing

variable {Symbol Kind : Type*}

/-- What a header says: the kind of the message, if there is one, and the length of the payload. -/
structure Format (Symbol Kind : Type*) where
  headerSize : ℕ
  headerSize_pos : 0 < headerSize
  kind : List Symbol → Option Kind
  length : List Symbol → ℕ

namespace Format

variable (format : Format Symbol Kind)

/-- The message of a frame. -/
def message (header payload : List Symbol) : Option (Kind × List Symbol) :=
  (format.kind header).map fun kind ↦ (kind, payload)

/-- The first frame of a stream, if all of it is there, and what follows it. -/
def next (stream : List Symbol) : Option (Option (Kind × List Symbol) × List Symbol) :=
  let header := stream.take format.headerSize
  let body := stream.drop format.headerSize
  if format.headerSize ≤ stream.length ∧ format.length header ≤ body.length then
    some (format.message header (body.take (format.length header)), body.drop (format.length header))
  else none

variable {format} {stream rest more : List Symbol} {found : Option (Kind × List Symbol)}

theorem length_of_next (h : format.next stream = some (found, rest)) : rest.length < stream.length := by
  obtain ⟨⟨hheader, _⟩, hsome⟩ := Option.ite_none_right_eq_some.mp h
  obtain ⟨_, rfl⟩ := Prod.mk.inj (Option.some.inj hsome)
  have hpos := format.headerSize_pos
  rw [List.length_drop, List.length_drop]
  omega

/-- More symbols do not change a frame that is complete. -/
theorem next_append (h : format.next stream = some (found, rest)) (more : List Symbol) :
    format.next (stream ++ more) = some (found, rest ++ more) := by
  obtain ⟨⟨hheader, hbody⟩, hsome⟩ := Option.ite_none_right_eq_some.mp h
  cases hsome
  have htake : (stream ++ more).take format.headerSize = stream.take format.headerSize :=
    List.take_append_of_le_length hheader
  have hdrop : (stream ++ more).drop format.headerSize = stream.drop format.headerSize ++ more :=
    List.drop_append_of_le_length hheader
  unfold next
  simp only [htake, hdrop]
  rw [if_pos ⟨by rw [List.length_append]; omega, by rw [List.length_append]; omega⟩,
    List.take_append_of_le_length hbody, List.drop_append_of_le_length hbody]

variable (format)

/-- The messages of the complete frames. -/
def messages (stream : List Symbol) : List (Kind × List Symbol) :=
  match _h : format.next stream with
  | none => []
  | some (found, rest) => found.toList ++ messages rest
termination_by stream.length
decreasing_by exact length_of_next ‹_›

/-- What comes after the complete frames. -/
def leftover (stream : List Symbol) : List Symbol :=
  match _h : format.next stream with
  | none => stream
  | some (_, rest) => leftover rest
termination_by stream.length
decreasing_by exact length_of_next ‹_›

variable {format}

theorem messages_of_next_none (h : format.next stream = none) : format.messages stream = [] := by
  rw [messages]
  split
  · rfl
  · rename_i hnext
    rw [h] at hnext
    cases hnext

theorem leftover_of_next_none (h : format.next stream = none) : format.leftover stream = stream := by
  rw [leftover]
  split
  · rfl
  · rename_i hnext
    rw [h] at hnext
    cases hnext

theorem messages_of_next (h : format.next stream = some (found, rest)) :
    format.messages stream = found.toList ++ format.messages rest := by
  rw [messages]
  split
  · rename_i hnext
    rw [h] at hnext
    cases hnext
  · rename_i hnext
    rw [h] at hnext
    cases hnext
    rfl

theorem leftover_of_next (h : format.next stream = some (found, rest)) :
    format.leftover stream = format.leftover rest := by
  rw [leftover]
  split
  · rename_i hnext
    rw [h] at hnext
    cases hnext
  · rename_i hnext
    rw [h] at hnext
    cases hnext
    rfl

/-- Induction over the frames of a stream. -/
theorem frames_induction {motive : List Symbol → Prop}
    (incomplete : ∀ stream, format.next stream = none → motive stream)
    (frame : ∀ stream found rest, format.next stream = some (found, rest) → motive rest → motive stream)
    (stream : List Symbol) : motive stream := by
  induction hlength : stream.length using Nat.strong_induction_on generalizing stream with
  | _ length ih =>
    cases hnext : format.next stream with
    | none => exact incomplete stream hnext
    | some result =>
      obtain ⟨found, rest⟩ := result
      exact frame stream found rest hnext (ih rest.length (hlength ▸ length_of_next hnext) rest rfl)

/-- A receiver that has got a part of the stream goes on from what is left over. -/
theorem messages_append (stream more : List Symbol) : format.messages (stream ++ more) =
      format.messages stream ++ format.messages (format.leftover stream ++ more) := by
  induction stream using frames_induction with
  | incomplete stream hnext => rw [messages_of_next_none hnext, leftover_of_next_none hnext, List.nil_append]
  | frame stream found rest hnext ih =>
    rw [messages_of_next (next_append hnext more), messages_of_next hnext, leftover_of_next hnext, ih,
      List.append_assoc]

theorem leftover_append (stream more : List Symbol) :
    format.leftover (stream ++ more) = format.leftover (format.leftover stream ++ more) := by
  induction stream using frames_induction with
  | incomplete stream hnext => rw [leftover_of_next_none hnext]
  | frame stream found rest hnext ih =>
    rw [leftover_of_next (next_append hnext more), leftover_of_next hnext, ih]

@[simp] theorem next_nil : format.next [] = none := by
  have hpos := format.headerSize_pos
  unfold next
  rw [if_neg]
  rintro ⟨hheader, _⟩
  rw [List.length_nil] at hheader
  omega

@[simp] theorem messages_nil : format.messages [] = [] := messages_of_next_none next_nil

@[simp] theorem leftover_nil : format.leftover [] = [] := leftover_of_next_none next_nil

/-! ## All frames -/

/-- Every frame is a message and its header is the kind. -/
def frames (format : Format Symbol Kind) : Format Symbol (List Symbol) where
  headerSize := format.headerSize
  headerSize_pos := format.headerSize_pos
  kind := some
  length := format.length

theorem next_frames (stream : List Symbol) : format.next stream = (format.frames.next stream).map fun found ↦
      (found.1.bind fun frame ↦ format.message frame.1 frame.2, found.2) := by
  unfold next
  change (if _ then _ else _) = Option.map _ (if format.headerSize ≤ stream.length ∧
    format.length (stream.take format.headerSize) ≤ (stream.drop format.headerSize).length then _ else _)
  split_ifs <;> rfl

/-- The messages are those frames that are not dropped. -/
theorem messages_eq_frames (stream : List Symbol) : format.messages stream =
      (format.frames.messages stream).filterMap fun frame ↦ format.message frame.1 frame.2 := by
  induction stream using @frames_induction _ _ format.frames with
  | incomplete stream hnext =>
    have hnone : format.next stream = none := by rw [next_frames, hnext, Option.map_none]
    rw [messages_of_next_none hnext, messages_of_next_none hnone, List.filterMap_nil]
  | frame stream found rest hnext ih =>
    have hsome : format.next stream = some (found.bind fun frame ↦ format.message frame.1 frame.2, rest) := by
      rw [next_frames, hnext, Option.map_some]
    rw [messages_of_next hnext, messages_of_next hsome, ih, List.filterMap_append]
    congr 1
    cases found with
    | none => rfl
    | some frame =>
      rw [Option.bind_some, Option.toList_some, List.filterMap_cons, List.filterMap_nil]
      cases format.message frame.1 frame.2 <;> rfl

theorem exists_frame_of_next {stream rest : List Symbol} {found : Option (List Symbol × List Symbol)}
    (h : format.frames.next stream = some (found, rest)) : ∃ frame, found = some frame := by
  obtain ⟨_, hsome⟩ := Option.ite_none_right_eq_some.mp h
  obtain ⟨rfl, _⟩ := Prod.mk.inj (Option.some.inj hsome)
  exact ⟨_, rfl⟩

/-- No symbol follows a frame that stops the receiver. Whether one stops it may depend on those before. -/
def NothingAfter (format : Format Symbol Kind)
    (stops : List (List Symbol × List Symbol) → List Symbol × List Symbol → Prop) (stream : List Symbol) : Prop :=
  ∀ first frame rest, format.frames.messages stream = first ++ frame :: rest → stops first frame →
    rest = [] ∧ format.frames.leftover stream = []

variable {stops : List (List Symbol × List Symbol) → List Symbol × List Symbol → Prop}

theorem nothingAfter_of_next_none (h : format.frames.next stream = none) : format.NothingAfter stops stream := by
  intro first frame rest hframes
  rw [messages_of_next_none h] at hframes
  exact absurd hframes.symm (List.append_ne_nil_of_right_ne_nil first (List.cons_ne_nil frame rest))

theorem eq_nil_of_frames (hmessages : format.frames.messages stream = [])
    (hleftover : format.frames.leftover stream = []) : stream = [] := by
  cases hnext : format.frames.next stream with
  | none => rwa [leftover_of_next_none hnext] at hleftover
  | some found =>
    obtain ⟨found, rest⟩ := found
    obtain ⟨frame, rfl⟩ := exists_frame_of_next hnext
    rw [messages_of_next hnext, Option.toList_some] at hmessages
    exact absurd hmessages (List.cons_ne_nil _ _)

/-- The first frame, and then the others. -/
theorem nothingAfter_frame {frame : List Symbol × List Symbol}
    (h : format.frames.next stream = some (some frame, rest)) :
    format.NothingAfter stops stream ↔
      (stops [] frame → rest = []) ∧ format.NothingAfter (fun first ↦ stops (frame :: first)) rest := by
  have hmessages := messages_of_next h
  have hleftover := leftover_of_next h
  rw [Option.toList_some, List.singleton_append] at hmessages
  unfold NothingAfter
  rw [hmessages, hleftover]
  constructor
  · intro hall
    refine ⟨fun hstops ↦ ?_, fun first other more hframes hstops ↦ ?_⟩
    · obtain ⟨hnone, hrest⟩ := hall [] frame _ rfl hstops
      exact eq_nil_of_frames hnone hrest
    · exact hall (frame :: first) other more (congrArg (frame :: ·) hframes) hstops
  · rintro ⟨hfirst, hall⟩ first other more hframes hstops
    cases first with
    | nil =>
      cases hframes
      rw [hfirst hstops, messages_nil, leftover_nil]
      exact ⟨rfl, rfl⟩
    | cons head first =>
      obtain ⟨hhead, htail⟩ := List.cons.inj hframes
      subst hhead
      exact hall first other more htail hstops

/-! ## Frames from their parts -/

/-- A header that is not complete. -/
theorem next_short (h : stream.length < format.headerSize) : format.next stream = none :=
  if_neg fun hcomplete ↦ by omega

/-- A header and as much of its payload as has come. -/
theorem next_frame {header : List Symbol} (hheader : header.length = format.headerSize) (body : List Symbol) :
    format.next (header ++ body) =
      if format.length header ≤ body.length then
        some (format.message header (body.take (format.length header)), body.drop (format.length header))
      else none := by
  have htake : (header ++ body).take format.headerSize = header := by rw [← hheader, List.take_left]
  have hdrop : (header ++ body).drop format.headerSize = body := by rw [← hheader, List.drop_left]
  have hle : format.headerSize ≤ (header ++ body).length := by
    rw [List.length_append, hheader]
    exact Nat.le_add_right _ _
  unfold next
  simp only [htake, hdrop, hle, true_and]

/-! ## Receivers -/

/-- A receiver that has taken `accepted` holds back the beginning of a frame and has found these
messages. -/
structure Received (format : Format Symbol Kind) (accepted pending : List Symbol)
    (found : List (Kind × List Symbol)) : Prop where
  messages_eq : found = format.messages accepted
  leftover_eq : pending = format.leftover accepted

variable {accepted pending : List Symbol} {log : List (Kind × List Symbol)}

theorem received_nil : format.Received [] [] [] := ⟨messages_nil.symm, leftover_nil.symm⟩

section

variable (h : format.Received accepted pending log)
include h

/-- A receiver takes any piece of the stream. -/
theorem Received.append (piece : List Symbol) :
    format.Received (accepted ++ piece) (format.leftover (pending ++ piece))
      (log ++ format.messages (pending ++ piece)) := by
  obtain ⟨rfl, rfl⟩ := h
  exact ⟨(messages_append accepted piece).symm, (leftover_append accepted piece).symm⟩

/-- The piece does not complete the frame. -/
theorem Received.part {piece : List Symbol} (hnext : format.next (pending ++ piece) = none) :
    format.Received (accepted ++ piece) (pending ++ piece) log := by
  have happend := h.append piece
  rwa [messages_of_next_none hnext, leftover_of_next_none hnext, List.append_nil] at happend

/-- The piece ends with the frame. -/
theorem Received.whole {piece : List Symbol} (hnext : format.next (pending ++ piece) = some (found, [])) :
    format.Received (accepted ++ piece) [] (log ++ found.toList) := by
  have happend := h.append piece
  rwa [messages_of_next hnext, leftover_of_next hnext, messages_nil, leftover_nil, List.append_nil] at happend

end

end Format

end FdeEmugl.Framing
