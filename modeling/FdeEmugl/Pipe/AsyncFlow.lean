import FdeEmugl.Pipe.AsyncMessagePipe

/-!
# What goes through an asynchronous message pipe

Whatever is split over buffers, calls and snapshots: the host receives the messages that the guest wrote,
the guest gets those that were sent, no call runs for ever, and a queued close takes place after the last
message. Only a snapshot that is taken while a close is queued forgets the close.
-/

namespace FdeEmugl.AsyncPipe

open Framing Pipe Runs FdeEmugl.Stream

namespace Session
open AndroidAsyncMessagePipe
open OutgoingPacket

/-- The invariant. `pending` are the bytes of the message that has not been received completely. -/
structure Holds (allowed : List UInt8 → Prop) (pending : List UInt8) (session : Session) : Prop where
  received : messageFormat.Received session.accepted pending (session.received.map fun data ↦ ((), data))
  incoming : (session.pipe.mIncomingPacket.getD .new).complete = false ∧
    ∃ header, (session.pipe.mIncomingPacket.getD .new).Holds header ∧
      pending = header ++ (session.pipe.mIncomingPacket.getD .new).data
  outgoing : ∀ packet ∈ session.pipe.mOutgoingPackets, packet.left ≠ [] ∧ packet.data ∈ session.sent
  flow : session.delivered ++ session.pipe.mOutgoingPackets.flatMap left =
    session.sent.flatMap putMessage
  close_eq : session.closeQueued = session.pipe.mCloseQueued
  allowed : ∀ data ∈ session.sent, allowed data

/-- A host call that sends only what is allowed. -/
def Allows (allowed : List UInt8 → Prop) : HostCall → Prop
  | .send data => allowed data
  | _ => True

variable {allowed : List UInt8 → Prop} {pending : List UInt8} {session : Session}

variable {reaction : List (List UInt8) → List HostCall}

theorem Holds.call (h : session.Holds allowed pending) {call : HostCall} (hcall : Allows allowed call) :
    (session.call call).Holds allowed pending := by
  cases call with
  | send data =>
    refine ⟨h.received, h.incoming, fun packet hpacket ↦ ?_, ?_, h.close_eq, fun other hother ↦ ?_⟩
    · obtain hpacket | hpacket := List.mem_append.mp hpacket
      · obtain ⟨hleft, hsent⟩ := h.outgoing packet hpacket
        exact ⟨hleft, List.mem_append_left [data] hsent⟩
      · obtain rfl := List.mem_singleton.mp hpacket
        exact ⟨List.cons_ne_nil _ _, List.mem_append_right session.sent (List.mem_singleton_self data)⟩
    · change session.delivered ++ (session.pipe.mOutgoingPackets ++ [OutgoingPacket.mk 0 data]).flatMap left =
        (session.sent ++ [data]).flatMap putMessage
      rw [List.flatMap_append, List.flatMap_append, ← List.append_assoc, h.flow, List.flatMap_singleton,
        List.flatMap_singleton]
      rfl
    · obtain hother | hother := List.mem_append.mp hother
      · exact h.allowed other hother
      · rw [List.mem_singleton.mp hother]
        exact hcall
  | queueCloseFromHost => exact ⟨h.received, h.incoming, h.outgoing, h.flow, rfl, h.allowed⟩
  | delete => exact ⟨h.received, h.incoming, h.outgoing, h.flow, h.close_eq, h.allowed⟩

theorem Holds.calls (h : session.Holds allowed pending) {calls : List HostCall}
    (hcalls : ∀ call ∈ calls, Allows allowed call) : (calls.foldl Session.call session).Holds allowed pending := by
  induction calls generalizing session with
  | nil => exact h
  | cons call calls ih =>
    obtain ⟨hfirst, hrest⟩ := List.forall_mem_cons.mp hcalls
    exact ih (h.call hfirst) hrest

section

variable (h : session.Holds allowed pending)
  (hreaction : ∀ received, ∀ call ∈ reaction received, Allows allowed call)
include h hreaction

/-- A buffer is read as far as reading is allowed. -/
theorem Holds.readBuffer {fuel : ℕ} {buffer : List UInt8} (hfuel : buffer.length < fuel) :
    ∃ after pending', Session.readBuffer reaction fuel buffer session = some after ∧
      after.Holds allowed pending' := by
  induction fuel generalizing session pending buffer with
  | zero => exact absurd hfuel (Nat.not_lt_zero _)
  | succ fuel ih =>
    rw [Session.readBuffer]
    split_ifs with hstop
    · exact ⟨session, pending, rfl, h⟩
    · have hbuffer : buffer ≠ [] := fun hnil ↦ hstop (Or.inl hnil)
      obtain ⟨hincomplete, header, hholds, rfl⟩ := h.incoming
      obtain ⟨packet, rest, consumed, header', hcopy, rfl, hconsumed, hafter, hbytes, hdone⟩ :=
        hholds.copyFromBuffer_eq hincomplete hbuffer
      have htake : (consumed ++ rest).take ((consumed ++ rest).length - rest.length) = consumed := by
        rw [List.length_append, Nat.add_sub_cancel, List.take_left]
      have hless : rest.length < fuel := by
        have hpos := List.length_pos_iff.mpr hconsumed
        rw [List.length_append] at hfuel
        omega
      have hnext := hafter.next_eq
      rw [hbytes] at hnext
      simp only [hcopy, htake]
      cases hcomplete : packet.complete with
      | true =>
        rw [hcomplete, if_pos rfl] at hnext
        have hreceived := h.received.whole hnext
        have hbase : Holds allowed [] { session with
              accepted := session.accepted ++ consumed
              pipe := { session.pipe with mIncomingPacket := none }
              received := session.received ++ [packet.data] } := by
          refine ⟨?_, ⟨rfl, [], IncomingPacket.holds_new, rfl⟩, h.outgoing, h.flow, h.close_eq, h.allowed⟩
          rw [List.map_append]
          exact hreceived
        have hcalls := hbase.calls (hreaction (session.received ++ [packet.data]))
        have hturn {handled : Session} (hhandled : handled.Holds allowed []) :
            ∃ after pending', (if handled.mDeleted then some handled
                else Session.readBuffer reaction fuel rest handled) = some after ∧
              after.Holds allowed pending' := by
          split_ifs
          · exact ⟨handled, [], rfl, hhandled⟩
          · exact ih hhandled hless
        exact hturn hcalls
      | false =>
        rw [hcomplete, if_neg Bool.false_ne_true] at hnext
        have hmore : Holds allowed (header ++ (session.pipe.mIncomingPacket.getD .new).data ++ consumed)
            { session with
              accepted := session.accepted ++ consumed
              pipe := { session.pipe with mIncomingPacket := some packet } } :=
          ⟨h.received.part hnext, ⟨hcomplete, header', hafter, hbytes.symm⟩, h.outgoing, h.flow, h.close_eq,
            h.allowed⟩
        rw [if_neg Bool.false_ne_true]
        exact ih hmore hless

theorem Holds.readEach (buffers : List (List UInt8)) :
    ∃ after pending', Session.readEach reaction buffers session = some after ∧ after.Holds allowed pending' := by
  induction buffers generalizing session pending with
  | nil => exact ⟨session, pending, rfl, h⟩
  | cons buffer buffers ih =>
    rw [Session.readEach]
    split_ifs
    · exact ⟨session, pending, rfl, h⟩
    · obtain ⟨after, pending', hread, hafter⟩ := h.readBuffer hreaction (Nat.lt_succ_self buffer.length)
      rw [hread, Option.bind_some]
      exact ih hafter

theorem Holds.readBuffers (buffers : List (List UInt8)) :
    ∃ result after pending', session.readBuffers reaction buffers = some (result, after) ∧
      after.Holds allowed pending' := by
  rw [Session.readBuffers]
  split_ifs
  · exact ⟨PIPE_ERROR_AGAIN, session, pending, rfl, h⟩
  · obtain ⟨after, pending', hread, hafter⟩ := h.readEach hreaction buffers
    rw [hread]
    exact ⟨_, after, pending', rfl, hafter⟩

end

/-! ### Writing to the guest -/

/-- What writing leaves as it is. -/
structure SameBut (session after : Session) : Prop where
  incoming_eq : after.pipe.mIncomingPacket = session.pipe.mIncomingPacket
  queued_eq : after.pipe.mCloseQueued = session.pipe.mCloseQueued
  closeQueued_eq : after.closeQueued = session.closeQueued
  closes_eq : after.closes = session.closes

/-- A buffer is filled as far as there is something to send. -/
theorem Holds.writeBuffer (h : session.Holds allowed pending) {fuel room : ℕ} (hfuel : room < fuel) :
    ∃ after, Session.writeBuffer fuel room session = some after ∧ after.Holds allowed pending ∧
      session.SameBut after := by
  induction fuel generalizing session room with
  | zero => exact absurd hfuel (Nat.not_lt_zero _)
  | succ fuel ih =>
    rw [Session.writeBuffer]
    cases hpackets : session.pipe.mOutgoingPackets with
    | nil => exact ⟨session, rfl, h, rfl, rfl, rfl, rfl⟩
    | cons packet packets =>
      simp only [packet.copyToBuffer_eq room]
      by_cases hroom : room = 0
      · rw [if_pos hroom]
        exact ⟨session, rfl, h, rfl, rfl, rfl, rfl⟩
      · rw [if_neg hroom]
        obtain ⟨hleft, hsent⟩ := h.outgoing packet (hpackets ▸ .head packets)
        have hrest : ∀ other ∈ packets, other.left ≠ [] ∧ other.data ∈ session.sent := fun other hother ↦
          h.outgoing other (hpackets ▸ .tail packet hother)
        have hbytes : 0 < (packet.left.take room).length := by
          have hpos := List.length_pos_iff.mpr hleft
          rw [List.length_take]
          omega
        have hless : room - (packet.left.take room).length < fuel := by omega
        have hflow := h.flow
        rw [hpackets, List.flatMap_cons, ← List.take_append_drop room packet.left] at hflow
        split_ifs with hcomplete
        · rw [complete_advance hleft] at hcomplete
          rw [hcomplete, List.append_nil, ← List.append_assoc] at hflow
          have hmore : Holds allowed pending { session with
                pipe := { session.pipe with mOutgoingPackets := packets }
                delivered := session.delivered ++ packet.left.take room } :=
            ⟨h.received, h.incoming, hrest, hflow, h.close_eq, h.allowed⟩
          obtain ⟨after, hwrite, hafter, hsame⟩ := ih hmore hless
          exact ⟨after, hwrite, hafter, hsame.incoming_eq, hsame.queued_eq, hsame.closeQueued_eq, hsame.closes_eq⟩
        · rw [complete_advance hleft] at hcomplete
          have hmore : Holds allowed pending { session with
                pipe := { session.pipe with
                  mOutgoingPackets :=
                    { packet with offset := packet.offset + min room packet.left.length } :: packets }
                delivered := session.delivered ++ packet.left.take room } := by
            refine ⟨h.received, h.incoming, fun other hother ↦ ?_, ?_, h.close_eq, h.allowed⟩
            · obtain rfl | hother := List.mem_cons.mp hother
              · exact ⟨by rwa [left_advance], hsent⟩
              · exact hrest other hother
            · simp only [List.flatMap_cons, left_advance]
              rw [List.append_assoc, ← List.append_assoc (packet.left.take room)]
              exact hflow
          obtain ⟨after, hwrite, hafter, hsame⟩ := ih hmore hless
          exact ⟨after, hwrite, hafter, hsame.incoming_eq, hsame.queued_eq, hsame.closeQueued_eq, hsame.closes_eq⟩

theorem SameBut.trans {middle after : Session} (h : session.SameBut middle) (h' : middle.SameBut after) :
    session.SameBut after :=
  ⟨h'.incoming_eq.trans h.incoming_eq, h'.queued_eq.trans h.queued_eq, h'.closeQueued_eq.trans h.closeQueued_eq,
    h'.closes_eq.trans h.closes_eq⟩

theorem Holds.writeEach (h : session.Holds allowed pending) (sizes : List ℕ) :
    ∃ after, Session.writeEach sizes session = some after ∧ after.Holds allowed pending ∧ session.SameBut after := by
  induction sizes generalizing session with
  | nil => exact ⟨session, rfl, h, rfl, rfl, rfl, rfl⟩
  | cons size sizes ih =>
    rw [Session.writeEach]
    split_ifs
    · exact ⟨session, rfl, h, rfl, rfl, rfl, rfl⟩
    · obtain ⟨middle, hwrite, hmiddle, hsame⟩ := h.writeBuffer (Nat.lt_succ_self size)
      obtain ⟨after, hrest, hafter, hsame'⟩ := ih hmiddle
      rw [hwrite, Option.bind_some]
      exact ⟨after, hrest, hafter, hsame.trans hsame'⟩

/-- The close is asked for when the last packet has gone out, if one was queued. -/
theorem Holds.writeBuffers (h : session.Holds allowed pending) (sizes : List ℕ) :
    ∃ result after, session.writeBuffers sizes = some (result, after) ∧ after.Holds allowed pending ∧
      (session.pipe.mOutgoingPackets ≠ [] → after.closes = session.closes +
        if session.closeQueued = true ∧ after.pipe.mOutgoingPackets = [] then 1 else 0) := by
  rw [Session.writeBuffers]
  split_ifs with hnone
  · exact ⟨PIPE_ERROR_AGAIN, session, rfl, h, fun hsome ↦ absurd hnone hsome⟩
  · obtain ⟨after, hwrite, hafter, hsame⟩ := h.writeEach sizes
    rw [hwrite, Option.map_some]
    have hqueued : after.pipe.mCloseQueued = session.closeQueued := hsame.queued_eq.trans h.close_eq.symm
    split_ifs with hclose
    · refine ⟨_, after.closeFromHost, rfl, ?_, fun _ ↦ ?_⟩
      · exact ⟨hafter.received, hafter.incoming, hafter.outgoing, hafter.flow, hafter.close_eq, hafter.allowed⟩
      · rw [hqueued] at hclose
        have hasked : session.closeQueued = true ∧ after.closeFromHost.pipe.mOutgoingPackets = [] := hclose
        rw [if_pos hasked]
        exact congrArg (· + 1) hsame.closes_eq
    · refine ⟨_, after, rfl, hafter, fun _ ↦ ?_⟩
      rw [hqueued] at hclose
      rw [if_neg hclose]
      exact hsame.closes_eq

/-! ### Snapshots -/

theorem loadPackets_serialize {packets : List OutgoingPacket}
    (hpackets : ∀ packet ∈ packets, packet.offset < 2 ^ 64 ∧ packet.data.length < 2 ^ 32) (stream : List UInt8) :
    loadPackets packets.length
      (packets.flatMap serialize ++ stream) = (packets, stream) := by
  induction packets with
  | nil => rfl
  | cons packet packets ih =>
    obtain ⟨hfirst, hrest⟩ := List.forall_mem_cons.mp hpackets
    rw [List.flatMap_cons, List.append_assoc, List.length_cons, loadPackets]
    simp only [ofStream_serialize hfirst.1 hfirst.2, ih hrest]

section

variable (h : session.Holds allowed pending) (hallowed : ∀ data, allowed data → data.length < 2 ^ 32)
include h hallowed

/-- Everything but a queued close is in the snapshot, and the snapshot is read to its end. -/
theorem Holds.onLoad_onSave (hcount : session.pipe.mOutgoingPackets.length < 2 ^ 64) :
    AndroidAsyncMessagePipe.new.onLoad session.pipe.onSave = ({ session.pipe with mCloseQueued := false }, []) := by
  have hlength : (UInt64.ofNat session.pipe.mOutgoingPackets.length).toNat =
      session.pipe.mOutgoingPackets.length := UInt64.toNat_ofNat_of_lt' hcount
  have hpackets : ∀ packet ∈ session.pipe.mOutgoingPackets, packet.offset < 2 ^ 64 ∧ packet.data.length < 2 ^ 32 := by
    intro packet hpacket
    obtain ⟨hleft, hsent⟩ := h.outgoing packet hpacket
    have hdata := hallowed packet.data (h.allowed packet.data hsent)
    have hpos := List.length_pos_iff.mpr hleft
    rw [length_left, length] at hpos
    exact ⟨by omega, hdata⟩
  have hload := loadPackets_serialize hpackets []
  rw [List.append_nil] at hload
  obtain ⟨_, header, hholds, _⟩ := h.incoming
  cases hpacket : session.pipe.mIncomingPacket with
  | none =>
    simp only [onLoad, onSave, hpacket, List.append_assoc,
      getByte_putByte, ne_eq, not_true, if_false, getBe64_putBe64, hlength, hload]
    rfl
  | some packet =>
    rw [hpacket, Option.getD_some] at hholds
    have hone : ¬(1 : UInt8) = 0 := by decide
    simp only [onLoad, onSave, hpacket, List.append_assoc,
      getByte_putByte, ne_eq, hone, not_false_eq_true, if_true, IncomingPacket.ofStream_serialize hholds,
      getBe64_putBe64, hlength, hload]
    rfl

theorem Holds.reload_eq (hqueued : session.pipe.mCloseQueued = false)
    (hcount : session.pipe.mOutgoingPackets.length < 2 ^ 64) : session.reload = session := by
  rw [Session.reload, h.onLoad_onSave hallowed hcount, ← hqueued]

end

end Session

/-! ## Runs -/

/-- Everything that is sent has a length that fits in four bytes. -/
def Label.Fits : Label → Prop
  | .host (.send data) => data.length < 2 ^ 32
  | .onGuestSend _ reaction => ∀ received data, HostCall.send data ∈ reaction received → data.length < 2 ^ 32
  | _ => True

/-- The condition under which a snapshot keeps what was promised. The number of packets is a `size_t`. -/
def KeepsClose : Label → Session → Prop
  | .reload, session => session.pipe.mCloseQueued = false ∧ session.pipe.mOutgoingPackets.length < 2 ^ 64
  | _, _ => True

instance (label : Label) (session : Session) : Decidable (KeepsClose label session) :=
  match label with
  | .reload => inferInstanceAs (Decidable (_ ∧ _))
  | .host _ | .onGuestSend _ _ | .onGuestRecv _ => isTrue trivial

theorem holds_step {session after : Session} {label : Label} {pending : List UInt8}
    (h : session.Holds (·.length < 2 ^ 32) pending) (hfits : label.Fits)
    (hkeeps : KeepsClose label session) (hstep : step label session = some after) : ∃ pending', after.Holds (·.length < 2 ^ 32) pending' := by
  obtain ⟨_, hsome⟩ := Option.ite_none_left_eq_some.mp hstep
  cases label with
  | host call =>
    cases hsome
    refine ⟨pending, h.call ?_⟩
    cases call with
    | send data => exact hfits
    | queueCloseFromHost => trivial
    | delete => trivial
  | onGuestSend buffers reaction =>
    have hreaction : ∀ received, ∀ call ∈ reaction received, Session.Allows (·.length < 2 ^ 32) call := by
      intro received call hcall
      cases call with
      | send data => exact hfits received data hcall
      | queueCloseFromHost => trivial
      | delete => trivial
    obtain ⟨result, last, pending', hread, hlast⟩ := h.readBuffers hreaction buffers
    simp only [hread, Option.map_some, Option.some.injEq] at hsome
    exact ⟨pending', hsome ▸ hlast⟩
  | onGuestRecv sizes =>
    obtain ⟨result, last, hwrite, hlast, _⟩ := h.writeBuffers sizes
    simp only [hwrite, Option.map_some, Option.some.injEq] at hsome
    exact ⟨pending, hsome ▸ hlast⟩
  | reload =>
    cases hsome
    rw [h.reload_eq (fun _ ↦ id) hkeeps.1 hkeeps.2]
    exact ⟨pending, h⟩

theorem holds_new (allowed : List UInt8 → Prop) : Session.new.Holds allowed [] :=
  ⟨Format.received_nil, ⟨rfl, [], IncomingPacket.holds_new, rfl⟩, nofun, rfl, rfl, nofun⟩

/-- What is promised about a pipe in some state. The last two say that a queued close takes place when the
last packet has gone out, and that a snapshot changes nothing. -/
structure Session.Correct (session : Session) : Prop where
  received_eq : session.received = (messageFormat.messages session.accepted).map Prod.snd
  delivered_prefix : session.delivered <+: session.sent.flatMap putMessage
  enabled : session.mDeleted = false → ∀ label, (step label session).isSome
  closes : ∀ sizes after, session.pipe.mOutgoingPackets ≠ [] → step (.onGuestRecv sizes) session = some after →
    after.closes = session.closes +
      if session.closeQueued = true ∧ after.pipe.mOutgoingPackets = [] then 1 else 0
  reload_eq : session.closeQueued = false → session.pipe.mOutgoingPackets.length < 2 ^ 64 → session.reload = session

theorem Session.Holds.correct {session : Session} {pending : List UInt8}
    (h : session.Holds (·.length < 2 ^ 32) pending) : session.Correct := by
  have hany : session.Holds (fun _ ↦ True) pending :=
    ⟨h.received, h.incoming, h.outgoing, h.flow, h.close_eq, fun _ _ ↦ trivial⟩
  refine ⟨?_, ⟨_, h.flow⟩, fun hdeleted label ↦ ?_, fun sizes after hsome hnext ↦ ?_, fun hqueued hcount ↦ ?_⟩
  · have hmessages := congrArg (List.map Prod.snd) h.received.messages_eq
    rw [List.map_map] at hmessages
    rw [← hmessages]
    exact (List.map_id _).symm
  · have halive : ¬session.mDeleted = true := by simp [hdeleted]
    unfold step
    rw [if_neg halive]
    cases label with
    | host call => rfl
    | onGuestSend buffers reaction =>
      have hreaction : ∀ received, ∀ call ∈ reaction received, Session.Allows (fun _ ↦ True) call := by
        intro received call _
        cases call <;> trivial
      obtain ⟨result, last, pending', hread, _⟩ := hany.readBuffers hreaction buffers
      simp only [hread, Option.map_some, Option.isSome_some]
    | onGuestRecv sizes =>
      obtain ⟨result, last, hwrite, _⟩ := hany.writeBuffers sizes
      simp only [hwrite, Option.map_some, Option.isSome_some]
    | reload => rfl
  · obtain ⟨_, hnext⟩ := Option.ite_none_left_eq_some.mp hnext
    obtain ⟨result, last, hwrite, _, hcloses⟩ := h.writeBuffers sizes
    simp only [hwrite, Option.map_some, Option.some.injEq] at hnext
    rw [← hnext]
    exact hcloses hsome
  · exact h.reload_eq (fun _ ↦ id) (h.close_eq ▸ hqueued) hcount

theorem correct_of_keepsClose {labels : List Label} {session : Session} (hfits : ∀ label ∈ labels, label.Fits)
    (hkeeps : Guarded step KeepsClose .new labels) (hrun : run step .new labels = some session) :
    session.Correct := by
  have hinit : ∃ pending, Session.new.Holds (·.length < 2 ^ 32) pending := ⟨[], holds_new _⟩
  have hstep (label : Label) (session after : Session)
      (hholds : ∃ pending, session.Holds (·.length < 2 ^ 32) pending)
      (hguard : label.Fits ∧ KeepsClose label session) (hnext : step label session = some after) :
      ∃ pending, after.Holds (·.length < 2 ^ 32) pending := by
    obtain ⟨pending, hpending⟩ := hholds
    exact holds_step hpending hguard.1 hguard.2 hnext
  obtain ⟨pending, hholds⟩ := invariant_of_guarded _ hstep hinit (guarded_and (guarded_of_mem _ hfits) hkeeps) hrun
  exact hholds.correct

/-- The guest writes two messages in three pieces, with a snapshot after each piece; the host answers the
second one and closes. -/
def answered : List Label :=
  [.onGuestSend [[1, 0], [0, 0, 7, 2]] fun _ ↦ [], .reload, .onGuestSend [[0, 0, 0, 8]] fun _ ↦ [], .reload,
    .onGuestSend [[9]] fun received ↦ if received.length = 2 then [.send [5], .send []] else [],
    .reload, .onGuestRecv [3, 0], .reload, .host .queueCloseFromHost, .onGuestRecv [4, 7]]

theorem correct_answered : ∃ session, run step .new answered = some session ∧ session.Correct ∧
    session.received = [[7], [8, 9]] ∧ session.delivered = [1, 0, 0, 0, 5, 0, 0, 0, 0] ∧ session.closes = 1 := by
  have hfits : ∀ label ∈ answered, label.Fits := by
    simp only [answered, List.forall_mem_cons, Label.Fits, List.not_mem_nil, false_imp_iff, implies_true, true_and,
      and_true]
    intro received data hsend
    split_ifs at hsend
    · simp only [List.mem_cons, HostCall.send.injEq, List.not_mem_nil, or_false] at hsend
      obtain rfl | rfl := hsend <;> decide
    · cases hsend
  have hkeeps : Guarded step KeepsClose .new answered := by decide +kernel
  have hlast : (run step .new answered).any (fun session ↦ session.received = [[7], [8, 9]] ∧
      session.delivered = [1, 0, 0, 0, 5, 0, 0, 0, 0] ∧ session.closes = 1) = true := by
    decide +kernel
  obtain ⟨session, hrun, hlast⟩ := (Option.any_eq_true _ _).mp hlast
  exact ⟨session, hrun, correct_of_keepsClose hfits hkeeps hrun, of_decide_eq_true hlast⟩

/-- The message goes out, and nobody closes the pipe, as is done when there is no snapshot. -/
theorem close_lost : ∃ session other,
    run step .new [.host (.send [5]), .host .queueCloseFromHost, .reload, .onGuestRecv [9]] = some session ∧
      run step .new [.host (.send [5]), .host .queueCloseFromHost, .onGuestRecv [9]] = some other ∧
      session.closeQueued = true ∧ session.delivered = session.sent.flatMap putMessage ∧
      session.closes = 0 ∧ other.closes = 1 := by
  refine ⟨_, _, rfl, rfl, ?_⟩
  decide +kernel

end FdeEmugl.AsyncPipe
