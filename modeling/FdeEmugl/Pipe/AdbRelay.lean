import FdeEmugl.Pipe.AdbHub

/-!
# Runs of the adb hub

What the guest has sent is what the host has got, what is in the queue for the host, and the beginning of a packet; so
it is the other way round. An `int` cursor is right as long as it can count the bytes of a packet.
-/

namespace FdeEmugl.Adb

open Framing Overwrite Pipe
open List (append_assoc append_nil length_append length_cons length_drop nil_append)

/-! ## What the calls keep -/

/-- The packets of the guest: in parts, in the queue, on the way to the host. -/
structure GuestSide (hub : AdbHub) (fromGuest toHost : List UInt8) : Prop where
  receives : apacket.Receives hub.mCurrentGuestSendPacket hub.mCurrentGuestSendPacketPst
    (adbFormat.leftover fromGuest)
  emits : Emits hub.mSendToHostQueue hub.mCurrentHostSendPacket hub.mCurrentHostSendPacketPst
    (adbFormat.messages fromGuest) toHost

/-- The packets of the host. -/
structure HostSide (hub : AdbHub) (fromHost toGuest : List UInt8) : Prop where
  receives : apacket.Receives hub.mCurrentHostRecvPacket hub.mCurrentHostRecvPacketPst
    (adbFormat.leftover fromHost)
  emits : Emits hub.mRecvFromHostQueue hub.mCurrentGuestRecvPacket hub.mCurrentGuestRecvPacketPst
    (adbFormat.messages fromHost) toGuest
  fresh : hub.mShouldReconnect = false

def KeepsGuest (hub hub' : AdbHub) : Prop :=
  ∀ fromGuest toHost, GuestSide hub fromGuest toHost → GuestSide hub' fromGuest toHost

def KeepsHost (hub hub' : AdbHub) : Prop :=
  ∀ fromHost toGuest, HostSide hub fromHost toGuest → HostSide hub' fromHost toGuest

/-- No call ends because of the size of a packet. -/
def Stop.Foreseen (stop : Stop) : Prop := stop ≠ .packetSize ∧ stop ≠ .outOfBounds ∧ stop ≠ .outOfFuel

def Ends {Value : Type*} (result : Except Stop Value) (post : Value → Prop) : Prop :=
  match result with
  | .ok value => post value
  | .error stop => stop.Foreseen

section Ends

variable {Value Other : Type*} {result : Except Stop Value} {post : Value → Prop} {after : Other → Prop}

theorem ends_error {stop : Stop} (h : stop ≠ .packetSize ∧ stop ≠ .outOfBounds ∧ stop ≠ .outOfFuel) :
    Ends (.error stop) post := h

theorem Ends.mono (h : Ends result post) {post' : Value → Prop} (hpost : ∀ value, post value → post' value) :
    Ends result post' := by
  cases result with
  | ok value => exact hpost value h
  | error stop => exact h

theorem Ends.map (h : Ends result post) {f : Value → Other} (hpost : ∀ value, post value → after (f value)) :
    Ends (result.map f) after := by
  cases result with
  | ok value => exact hpost value h
  | error stop => exact h

theorem Ends.bind (h : Ends result post) {f : Value → Except Stop Other}
    (hpost : ∀ value, post value → Ends (f value) after) : Ends (result.bind f) after := by
  cases result with
  | ok value => exact hpost value h
  | error stop => exact h

end Ends

section Streams

variable {stream chunk : List UInt8} {packet : apacket}

theorem stream_part (h : adbFormat.next (adbFormat.leftover stream ++ chunk) = none) :
    adbFormat.messages (stream ++ chunk) = adbFormat.messages stream ∧
      adbFormat.leftover (stream ++ chunk) = adbFormat.leftover stream ++ chunk := by
  have hreceived := (⟨rfl, rfl⟩ : adbFormat.Received stream _ _).part h
  exact ⟨hreceived.messages_eq.symm, hreceived.leftover_eq.symm⟩

theorem stream_whole (hconsistent : packet.Consistent) (h : packet.bytes = adbFormat.leftover stream ++ chunk) :
    adbFormat.messages (stream ++ chunk) = adbFormat.messages stream ++ [packet.frame] ∧
      adbFormat.leftover (stream ++ chunk) = [] := by
  have hnext := h ▸ apacket.next_bytes hconsistent
  have hreceived := (⟨rfl, rfl⟩ : adbFormat.Received stream _ _).whole hnext
  exact ⟨hreceived.messages_eq.symm, hreceived.leftover_eq.symm⟩

theorem receives_nothing (packet : apacket) : packet.Receives 0 [] := by
  have hheader : packet.Receives 0 _ := .header (by decide)
  rwa [List.take_zero] at hheader

theorem apacket.Receives.remaining_pos {position : ℕ} {pending : List UInt8} (h : packet.Receives position pending) :
    0 < packet.remaining position := by
  cases h with
  | header hposition =>
    rw [remaining_header hposition]
    omega
  | data hconsistent _ hposition => exact (apacket.remaining_pos hconsistent hposition).1

end Streams

namespace AdbHub

section GuestSends

variable {sscanf : List UInt8 → ℤ} {hub : AdbHub} {fromGuest toHost : List UInt8} {buffers : List (List UInt8)}
  {fuel : ℕ}

theorem onNewConnection_ends (requestPacket replyPacket : apacket) :
    Ends (onNewConnection sscanf requestPacket replyPacket) fun _ ↦ True := by
  unfold onNewConnection
  split_ifs
  · trivial
  · exact ends_error (by decide)
  · trivial
  · exact ends_error (by decide)

/-- The hub remembers a packet, and has one connection less that is pending. -/
theorem noteGuestPacket_ends (sscanf : List UInt8 → ℤ) (hub : AdbHub) :
    Ends (hub.noteGuestPacket sscanf) fun hub' ↦ ∃ pending cnxnPacket, hub' =
      { hub with mPendingConnections := pending, mCnxnPacket := cnxnPacket } := by
  unfold noteGuestPacket
  simp only
  by_cases hcommand : hub.mCurrentGuestSendPacket.mesg.command = ADB_CNXN
  · rw [if_pos hcommand]
    exact ⟨_, _, rfl⟩
  rw [if_neg hcommand]
  cases hub.mPendingConnections hub.mCurrentGuestSendPacket.mesg.arg1 with
  | none => exact ⟨_, _, rfl⟩
  | some requestPacket =>
    simp only
    split_ifs
    · exact ⟨_, _, rfl⟩
    · exact ends_error (by decide)
    · exact (onNewConnection_ends _ _).map fun _ _ ↦ ⟨_, _, rfl⟩

/-- The buffers without the first bytes. -/
theorem take_append_buffers (count : ℕ) (buffer : List UInt8) (buffers : List (List UInt8)) :
    buffer.take count ++ (if count = buffer.length then buffers else buffer.drop count :: buffers).flatten =
      (buffer :: buffers).flatten := by
  split_ifs with hall
  · rw [hall, List.take_length, List.flatten_cons]
  · rw [List.flatten_cons, List.flatten_cons, ← append_assoc, List.take_append_drop]

theorem measure_buffers {count : ℕ} {buffer : List UInt8} (hpos : count = buffer.length ∨ 0 < count)
    (hle : count ≤ buffer.length)
    (hfuel : (buffer :: buffers).flatten.length + (buffer :: buffers).length ≤ fuel + 1) :
    (if count = buffer.length then buffers else buffer.drop count :: buffers).flatten.length +
      (if count = buffer.length then buffers else buffer.drop count :: buffers).length ≤ fuel := by
  rw [List.flatten_cons, length_append, length_cons] at hfuel
  split_ifs with hall
  · omega
  · rw [List.flatten_cons, length_append, length_cons, length_drop]
    omega

section

variable (h : GuestSide hub fromGuest toHost)
include h

/-- The complete packet goes to the queue. -/
theorem guestSide_push {packet : apacket} {position : ℕ} {chunk : List UInt8}
    {pending : UInt32 → Option apacket} {cnxnPacket : apacket} (hconsistent : packet.Consistent)
    (hbytes : packet.bytes = adbFormat.leftover fromGuest ++ chunk) :
    GuestSide (pushGuestPacket { hub with
      mPendingConnections := pending
      mCnxnPacket := cnxnPacket
      mCurrentGuestSendPacket := packet
      mCurrentGuestSendPacketPst := position }) (fromGuest ++ chunk) toHost := by
  obtain ⟨hmessages, hleftover⟩ := stream_whole hconsistent hbytes
  refine ⟨?_, ?_⟩
  · rw [hleftover]
    exact receives_nothing _
  · rw [hmessages]
    exact h.emits.push hconsistent

theorem guestSendLoop_ends (hfuel : buffers.flatten.length + buffers.length ≤ fuel) (actualSendBytes : Int32) :
    Ends (guestSendLoop sscanf fuel buffers hub actualSendBytes) fun result ↦
      GuestSide result.1 (fromGuest ++ buffers.flatten) toHost ∧ KeepsHost hub result.1 := by
  induction fuel generalizing hub fromGuest buffers actualSendBytes with
  | zero =>
    obtain rfl : buffers = [] := List.eq_nil_of_length_eq_zero (by omega)
    rw [List.flatten_nil, append_nil]
    exact ⟨h, fun _ _ hkeeps ↦ hkeeps⟩
  | succ fuel ih =>
    cases buffers with
    | nil =>
      rw [List.flatten_nil, append_nil]
      exact ⟨h, fun _ _ hkeeps ↦ hkeeps⟩
    | cons buffer buffers =>
      have hpos := h.receives.remaining_pos
      let count := min (hub.mCurrentGuestSendPacket.remaining hub.mCurrentGuestSendPacketPst) buffer.length
      have hcount : count = buffer.length ∨ 0 < count := by
        rcases Nat.le_total buffer.length (hub.mCurrentGuestSendPacket.remaining hub.mCurrentGuestSendPacketPst) with
          hle | hge
        · exact .inl (Nat.min_eq_right hle)
        · exact .inr (hpos.trans_eq (Nat.min_eq_left hge).symm)
      have hle : count ≤ buffer.length := Nat.min_le_right _ _
      have hlength : (buffer.take count).length = count := List.length_take_of_le hle
      have haccepts := h.receives.accept (hlength.trans_le (Nat.min_le_left _ _))
      have hmeasure := measure_buffers hcount hle hfuel
      rw [← take_append_buffers count, ← append_assoc]
      rw [apacket.Accepts, hlength, apacket.length_bytes, Nat.add_comm kHeaderSize] at haccepts
      unfold guestSendLoop
      split_ifs at haccepts with hend
      · obtain ⟨hconsistent, hbytes⟩ := haccepts
        simp only
        rw [if_pos hend]
        have hnote := noteGuestPacket_ends sscanf { hub with
          mCurrentGuestSendPacket := hub.mCurrentGuestSendPacket.accept hub.mCurrentGuestSendPacketPst
            (buffer.take count)
          mCurrentGuestSendPacketPst := hub.mCurrentGuestSendPacketPst + count }
        split
        · rename_i stop hstop
          rw [hstop] at hnote
          exact hnote
        · rename_i hub' hnoted
          rw [hnoted] at hnote
          obtain ⟨pending, cnxnPacket, rfl⟩ := hnote
          exact (ih (guestSide_push h hconsistent hbytes) hmeasure _).mono fun _ hresult ↦
            ⟨hresult.1, fun _ _ hkeeps ↦ hresult.2 _ _ ⟨hkeeps.receives, hkeeps.emits, hkeeps.fresh⟩⟩
      · simp only
        rw [if_neg hend]
        obtain ⟨hmessages, hleftover⟩ := stream_part haccepts.next_eq_none
        exact (ih ⟨hleftover ▸ haccepts, hmessages ▸ h.emits⟩ hmeasure _).mono fun _ hresult ↦
          ⟨hresult.1, fun _ _ hkeeps ↦ hresult.2 _ _ ⟨hkeeps.receives, hkeeps.emits, hkeeps.fresh⟩⟩

theorem onGuestSendData_ends (buffers : List (List UInt8)) : Ends (hub.onGuestSendData sscanf buffers) fun result ↦
      GuestSide result.2 (fromGuest ++ buffers.flatten) toHost ∧ KeepsHost hub result.2 :=
  (guestSendLoop_ends h le_rfl 0).map fun _ hresult ↦ hresult

end

end GuestSends

section HostReceives

variable {hub : AdbHub} {fromHost toGuest : List UInt8} {packet : apacket} {position : ℕ} {pending chunk : List UInt8}

theorem bytesToRecv_eq (hub : AdbHub)
    (h : hub.mCurrentHostRecvPacket.Receives hub.mCurrentHostRecvPacketPst pending) :
    hub.bytesToRecv = .ok (hub.mCurrentHostRecvPacket.remaining hub.mCurrentHostRecvPacketPst) := by
  generalize hposition : hub.mCurrentHostRecvPacketPst = position at h
  generalize hpacket : hub.mCurrentHostRecvPacket = packet at h
  rw [bytesToRecv, hposition, hpacket]
  cases h with
  | header hheader => rw [if_pos hheader, apacket.remaining_header hheader]
  | data hconsistent hheader hinside =>
    have hlt := apacket.length_data_lt hconsistent
    have hlength := apacket.length_bytes packet
    rw [if_neg (Nat.not_lt.mpr hheader), apacket.packetSize_eq hconsistent,
      apacket.remaining_data hconsistent hheader hinside.le]
    exact congrArg Except.ok (apacket.sizeSub_eq hinside.le (by rw [hlength, kHeaderSize]; omega))

section

variable (h : packet.Receives position pending)
include h

/-- Fewer bytes than were asked for do not complete a packet. -/
theorem lt_length_accept (hlt : chunk.length < packet.remaining position) :
    position + chunk.length < (packet.accept position chunk).bytes.length := by
  cases h with
  | header hheader =>
    rw [apacket.remaining_header hheader] at hlt
    rw [apacket.length_bytes]
    omega
  | data hconsistent hheader hinside =>
    rw [apacket.remaining_data hconsistent hheader hinside.le] at hlt
    rw [apacket.length_bytes] at hlt hinside
    rw [apacket.accept_data hconsistent hheader, apacket.length_bytes, length_overwrite (by omega)]
    omega

/-- All of the bytes that were asked for complete the header at least. -/
theorem header_le (hall : chunk.length = packet.remaining position) : kHeaderSize ≤ position + chunk.length := by
  cases h with
  | header hheader =>
    rw [hall, apacket.remaining_header hheader]
    omega
  | data hconsistent hheader hinside => exact hheader.trans (Nat.le_add_right _ _)

theorem consistent_of_receives (hheader : kHeaderSize ≤ position) : packet.Consistent := by
  cases h with
  | header hposition => exact absurd hheader (Nat.not_le.mpr hposition)
  | data hconsistent _ _ => exact hconsistent

end

theorem takeHostPacket_ends (position : ℕ) (h : HostSide hub fromHost toGuest) (hconsistent : packet.Consistent)
    (hbytes : packet.bytes = adbFormat.leftover fromHost ++ chunk) :
    Ends (takeHostPacket { hub with mCurrentHostRecvPacket := packet, mCurrentHostRecvPacketPst := position })
      fun hub' ↦ HostSide hub' (fromHost ++ chunk) toGuest ∧ KeepsGuest hub hub' := by
  obtain ⟨hmessages, hleftover⟩ := stream_whole hconsistent hbytes
  have hpushed := h.emits.push hconsistent
  have hnone : ({ packet with data := [] } : apacket).Receives 0 (adbFormat.leftover (fromHost ++ chunk)) :=
    hleftover.symm ▸ receives_nothing _
  rw [← hmessages] at hpushed
  unfold takeHostPacket
  simp only
  rw [if_neg fun hreconnect ↦ Bool.false_ne_true (h.fresh.symm.trans hreconnect.2)]
  split_ifs with hopen
  · have htext : Ends (tryReuseConnection packet) fun _ ↦ True := by
      unfold tryReuseConnection
      split_ifs
      · exact ends_error (by decide)
      · trivial
    exact htext.map fun _ _ ↦ ⟨⟨hnone, hpushed, h.fresh⟩, fun _ _ hkeeps ↦ ⟨hkeeps.receives, hkeeps.emits⟩⟩
  · exact ⟨⟨hnone, hpushed, h.fresh⟩, fun _ _ hkeeps ↦ ⟨hkeeps.receives, hkeeps.emits⟩⟩

theorem readSocket_ends (h : HostSide hub fromHost toGuest) (results : List RecvResult) :
    Ends (hub.readSocket results) fun (_, hub', received) ↦
      HostSide hub' (fromHost ++ received) toGuest ∧ KeepsGuest hub hub' := by
  have hnothing (code : ℤ) {hub : AdbHub} {fromHost : List UInt8} (h : HostSide hub fromHost toGuest) :
      Ends (.ok (code, hub, [])) fun ((_, hub', received) : ℤ × AdbHub × List UInt8) ↦
        HostSide hub' (fromHost ++ received) toGuest ∧ KeepsGuest hub hub' :=
    ⟨(append_nil fromHost).symm ▸ h, fun _ _ hkeeps ↦ hkeeps⟩
  induction results generalizing hub fromHost with
  | nil =>
    unfold readSocket
    rw [bytesToRecv_eq hub h.receives]
    exact hnothing _ h
  | cons result results ih =>
    unfold readSocket
    rw [bytesToRecv_eq hub h.receives]
    cases result with
    | again => exact hnothing _ h
    | fails => exact hnothing _ h
    | gives chunk =>
      let packet := hub.mCurrentHostRecvPacket
      let position := hub.mCurrentHostRecvPacketPst
      let received := chunk.take (packet.remaining position)
      have hle : received.length ≤ packet.remaining position := List.length_take_le _ _
      have haccepts := h.receives.accept hle
      simp only
      by_cases hempty : received = []
      · rw [if_pos hempty]
        exact hnothing _ h
      rw [if_neg hempty]
      unfold apacket.Accepts at haccepts
      by_cases hpart : received.length < packet.remaining position
      · rw [if_pos hpart]
        rw [if_neg (lt_length_accept h.receives hpart).ne] at haccepts
        obtain ⟨hmessages, hleftover⟩ := stream_part haccepts.next_eq_none
        exact ⟨⟨hleftover ▸ haccepts, hmessages ▸ h.emits, h.fresh⟩, fun _ _ hkeeps ↦ ⟨hkeeps.receives, hkeeps.emits⟩⟩
      rw [if_neg hpart]
      have hmore {hub' : AdbHub} (hhost : HostSide hub' (fromHost ++ received) toGuest)
          (hguest : KeepsGuest hub hub') :
          Ends ((hub'.readSocket results).map fun (code, hub, more) ↦ (code, hub, received ++ more))
            fun ((_, hub', received) : ℤ × AdbHub × List UInt8) ↦
              HostSide hub' (fromHost ++ received) toGuest ∧ KeepsGuest hub hub' := by
        refine (ih hhost).map fun (code, last, more) hresult ↦ ?_
        have hside : HostSide last (fromHost ++ received ++ more) toGuest := hresult.1
        rw [append_assoc] at hside
        exact ⟨hside, fun _ _ hkeeps ↦ hresult.2 _ _ (hguest _ _ hkeeps)⟩
      split_ifs at haccepts with hend
      · obtain ⟨hconsistent, hbytes⟩ := haccepts
        have htake := takeHostPacket_ends (position + received.length) h hconsistent hbytes
        rw [apacket.packetSize_eq hconsistent]
        simp only
        rw [if_pos hend]
        split
        · rename_i stop hstop
          rw [hstop] at htake
          exact htake
        · rename_i hub' hok
          rw [hok] at htake
          exact hmore htake.1 htake.2
      · have hheader : kHeaderSize ≤ position + received.length :=
          header_le h.receives (Nat.le_antisymm hle (Nat.not_lt.mp hpart))
        obtain ⟨hmessages, hleftover⟩ := stream_part haccepts.next_eq_none
        rw [apacket.packetSize_eq (consistent_of_receives haccepts hheader)]
        simp only
        rw [if_neg hend]
        exact hmore ⟨hleftover ▸ haccepts, hmessages ▸ h.emits, h.fresh⟩
          fun _ _ hkeeps ↦ ⟨hkeeps.receives, hkeeps.emits⟩

end HostReceives

end AdbHub

section Cursor

variable {queue : List apacket} {packet : apacket} {position : Int32} {found : List (List UInt8 × List UInt8)}
  {sent : List UInt8} {offset : ℕ}

/-- There is no current packet, or the cursor is in it. -/
theorem Emits.cursor (h : Emits queue packet position found sent) : position = -1 ∧ packet.rest position = [] ∨
      ∃ offset ≤ packet.bytes.length, position.toInt = offset ∧ packet.rest position = packet.bytes.drop offset := by
  obtain rfl | ⟨offset, hoffset, hposition⟩ := h.inside
  · exact .inl ⟨rfl, rest_idle packet⟩
  · exact .inr ⟨offset, hoffset, hposition, rest_eq packet hposition⟩

theorem drop_eq_nil_iff (hoffset : offset ≤ packet.bytes.length) :
    packet.bytes.drop offset = [] ↔ offset = packet.bytes.length := by
  rw [List.drop_eq_nil_iff]
  omega

/-- The test of the cursor against the size. -/
theorem Emits.lt_size (h : Emits queue packet position found sent) : (if position < 0 then Except.ok false
      else packet.packetSize.map fun size ↦ decide (sizeOfInt position < size)) =
        Except.ok (decide (packet.rest position ≠ [])) := by
  obtain ⟨rfl, hrest⟩ | ⟨offset, hoffset, hposition, hrest⟩ := h.cursor
  · rw [if_pos (by decide), hrest]
    rfl
  · rw [if_neg (not_neg_of_offset hposition), apacket.packetSize_eq h.consistent, sizeOfInt_eq hposition, hrest]
    refine congrArg Except.ok (decide_eq_decide.mpr ?_)
    rw [Ne, drop_eq_nil_iff hoffset]
    omega

theorem ne_idle (hposition : position.toInt = offset) : position ≠ -1 := by
  rintro rfl
  exact not_neg_of_offset hposition (by decide)

/-- The cursor of a packet that has just become the current one. -/
theorem rest_zero_ne_nil (packet : apacket) : packet.rest 0 ≠ [] := by
  have hlength := apacket.length_bytes packet
  rw [rest_eq packet (by decide : (0 : Int32).toInt = (0 : ℕ)), List.drop_zero]
  refine List.ne_nil_of_length_pos ?_
  rw [hlength, kHeaderSize]
  omega

end Cursor

namespace AdbHub

section HostSends

variable {hub : AdbHub} {fromGuest toHost : List UInt8} {found : List (List UInt8 × List UInt8)} {sent : List UInt8}

theorem bytesToSend_eq (hub : AdbHub)
    (h : Emits hub.mSendToHostQueue hub.mCurrentHostSendPacket hub.mCurrentHostSendPacketPst found sent)
    (hrest : hub.mCurrentHostSendPacket.rest hub.mCurrentHostSendPacketPst ≠ []) :
    ∃ count, hub.bytesToSend = .ok ((hub.mCurrentHostSendPacket.rest hub.mCurrentHostSendPacketPst).take count) := by
  obtain ⟨-, hnone⟩ | ⟨offset, hoffset, hposition, hdrop⟩ := h.cursor
  · exact absurd hnone hrest
  rw [hdrop]
  refine ⟨hub.mCurrentHostSendPacket.remaining offset, ?_⟩
  unfold bytesToSend
  simp only [sizeOfInt_eq hposition]
  split_ifs with hheader
  · rw [apacket.remaining_header hheader]
    exact apacket.read_eq _ h.consistent hoffset (apacket.remaining_header hheader).ge
  · have hlt := apacket.length_data_lt h.consistent
    have hlength := apacket.length_bytes hub.mCurrentHostSendPacket
    have hremaining := apacket.remaining_data h.consistent (Nat.not_lt.mp hheader) hoffset
    rw [apacket.packetSize_eq h.consistent, hremaining]
    have hsub := apacket.sizeSub_eq hoffset (by rw [hlength, kHeaderSize]; omega)
    refine Eq.trans (congrArg (hub.mCurrentHostSendPacket.read offset) hsub) ?_
    exact apacket.read_eq _ h.consistent hoffset hremaining.ge

/-- The loop ends, or the bytes are some of the next ones to go out. -/
theorem writeHead_eq (h : Emits hub.mSendToHostQueue hub.mCurrentHostSendPacket hub.mCurrentHostSendPacketPst found
    sent) : hub.writeHead = .ok none ∨ ∃ packet position queue count, hub.writeHead = .ok (some ({ hub with
        mCurrentHostSendPacket := packet
        mCurrentHostSendPacketPst := position
        mSendToHostQueue := queue }, (packet.rest position).take count)) ∧
      Emits queue packet position found sent := by
  have hsending : hub.sending = _ := h.lt_size
  unfold writeHead
  rw [hsending]
  simp only [Except.bind, decide_eq_false_iff_not, not_not]
  by_cases hrest : hub.mCurrentHostSendPacket.rest hub.mCurrentHostSendPacketPst = []
  · cases hqueue : hub.mSendToHostQueue with
    | nil =>
      rw [if_pos ⟨hrest, rfl⟩]
      exact .inl rfl
    | cons packet queue =>
      rw [if_neg fun hnone ↦ List.cons_ne_nil packet queue hnone.2]
      have hnext : hub.nextForHost = .ok { hub with
          mCurrentHostSendPacketPst := 0
          mCurrentHostSendPacket := packet
          mSendToHostQueue := queue } := by
        unfold nextForHost
        simp only [hqueue]
        obtain ⟨hidle, -⟩ | ⟨offset, hoffset, hposition, hdrop⟩ := h.cursor
        · rw [hidle, if_pos (by decide)]
        · rw [if_neg (not_neg_of_offset hposition), apacket.packetSize_eq h.consistent, sizeOfInt_eq hposition,
            Except.map, if_pos ((drop_eq_nil_iff hoffset).mp (hdrop.symm.trans hrest))]
      rw [hqueue] at h
      have hemits := h.next hrest
      obtain ⟨count, hbytes⟩ := bytesToSend_eq { hub with
        mCurrentHostSendPacketPst := 0
        mCurrentHostSendPacket := packet
        mSendToHostQueue := queue } hemits (rest_zero_ne_nil packet)
      refine .inr ⟨packet, 0, queue, count, ?_, hemits⟩
      rw [hnext]
      simp only [hbytes]
      rfl
  · rw [if_neg fun hnone ↦ hrest hnone.1]
    have hnext : hub.nextForHost = .ok hub := by
      unfold nextForHost
      simp only
      obtain ⟨-, hnone⟩ | ⟨offset, hoffset, hposition, hdrop⟩ := h.cursor
      · exact absurd hnone hrest
      · rw [if_neg (not_neg_of_offset hposition), apacket.packetSize_eq h.consistent, sizeOfInt_eq hposition,
          Except.map, if_neg fun hend ↦ hrest (hdrop.trans ((drop_eq_nil_iff hoffset).mpr hend))]
    obtain ⟨count, hbytes⟩ := bytesToSend_eq hub h hrest
    refine .inr ⟨_, _, _, count, ?_, h⟩
    rw [hnext]
    simp only [hbytes]
    rfl

theorem writeSocket_ends (h : GuestSide hub fromGuest toHost) (hsmall : Small (adbFormat.messages fromGuest))
    (results : List SendResult) : Ends (hub.writeSocket results) fun (_, hub', sent) ↦
      GuestSide hub' fromGuest (toHost ++ sent) ∧ KeepsHost hub hub' := by
  have hnothing (code : ℤ) {hub hub' : AdbHub} {toHost : List UInt8} (h : GuestSide hub' fromGuest toHost)
      (hkeeps : KeepsHost hub hub') :
      Ends (.ok (code, hub', [])) fun ((_, hub', sent) : ℤ × AdbHub × List UInt8) ↦
        GuestSide hub' fromGuest (toHost ++ sent) ∧ KeepsHost hub hub' :=
    ⟨(append_nil toHost).symm ▸ h, hkeeps⟩
  have hreflexive (hub : AdbHub) : KeepsHost hub hub := fun _ _ hkeeps ↦ hkeeps
  induction results generalizing hub toHost with
  | nil =>
    unfold writeSocket
    obtain hend | ⟨packet, position, queue, count, hhead, hemits⟩ := writeHead_eq h.emits
    · rw [hend]
      exact hnothing _ h (hreflexive hub)
    · rw [hhead]
      exact hnothing _ ⟨h.receives, hemits⟩ fun _ _ hkeeps ↦ ⟨hkeeps.receives, hkeeps.emits, hkeeps.fresh⟩
  | cons result results ih =>
    unfold writeSocket
    obtain hend | ⟨packet, position, queue, count, hhead, hemits⟩ := writeHead_eq h.emits
    · rw [hend]
      exact hnothing _ h (hreflexive hub)
    rw [hhead]
    cases result with
    | again => exact hnothing _ ⟨h.receives, hemits⟩ fun _ _ hkeeps ↦ ⟨hkeeps.receives, hkeeps.emits, hkeeps.fresh⟩
    | fails => exact hnothing _ ⟨h.receives, hemits⟩ fun _ _ hkeeps ↦ ⟨hkeeps.receives, hkeeps.emits, hkeeps.fresh⟩
    | accepts taken =>
      have hadvance := hemits.advance hsmall (min taken count)
      rw [← List.take_take] at hadvance
      simp only
      split_ifs
      · exact hnothing _ ⟨h.receives, hemits⟩ fun _ _ hkeeps ↦ ⟨hkeeps.receives, hkeeps.emits, hkeeps.fresh⟩
      · exact ⟨⟨h.receives, hadvance⟩, fun _ _ hkeeps ↦ ⟨hkeeps.receives, hkeeps.emits, hkeeps.fresh⟩⟩
      · have hguest : GuestSide { hub with
            mCurrentHostSendPacket := packet
            mCurrentHostSendPacketPst :=
              position + Int32.ofNat (((packet.rest position).take count).take taken).length
            mSendToHostQueue := queue } fromGuest (toHost ++ ((packet.rest position).take count).take taken) :=
          ⟨h.receives, hadvance⟩
        refine (ih hguest).map fun (code, last, more) hresult ↦ ?_
        have hside : GuestSide last fromGuest (toHost ++ ((packet.rest position).take count).take taken ++ more) :=
          hresult.1
        rw [append_assoc] at hside
        exact ⟨hside, fun _ _ hkeeps ↦ hresult.2 _ _ ⟨hkeeps.receives, hkeeps.emits, hkeeps.fresh⟩⟩

end HostSends

section GuestReceives

variable {hub : AdbHub} {fromHost toGuest : List UInt8} {found : List (List UInt8 × List UInt8)} {sent : List UInt8}

/-- There is nothing for the guest, or the cursor is before the end of a packet. -/
theorem nextForGuest_eq (h : Emits hub.mRecvFromHostQueue hub.mCurrentGuestRecvPacket hub.mCurrentGuestRecvPacketPst
    found sent) : hub.nextForGuest = .ok none ∨ ∃ packet position queue, hub.nextForGuest = .ok (some { hub with
        mCurrentGuestRecvPacket := packet
        mCurrentGuestRecvPacketPst := position
        mRecvFromHostQueue := queue }) ∧ Emits queue packet position found sent ∧ packet.rest position ≠ [] := by
  unfold nextForGuest
  simp only
  by_cases hrest : hub.mCurrentGuestRecvPacket.rest hub.mCurrentGuestRecvPacketPst = []
  · have hnext (nextPacket : Option AdbHub) : (if hub.mCurrentGuestRecvPacketPst = -1 then .ok nextPacket
        else hub.mCurrentGuestRecvPacket.packetSize.map fun size ↦
          if sizeOfInt hub.mCurrentGuestRecvPacketPst = size then nextPacket else some hub) =
            Except.ok nextPacket := by
      obtain ⟨hidle, -⟩ | ⟨offset, hoffset, hposition, hdrop⟩ := h.cursor
      · rw [if_pos hidle]
      · rw [if_neg (ne_idle hposition), apacket.packetSize_eq h.consistent, sizeOfInt_eq hposition, Except.map,
          if_pos ((drop_eq_nil_iff hoffset).mp (hdrop.symm.trans hrest))]
    rw [hnext]
    cases hqueue : hub.mRecvFromHostQueue with
    | nil => exact .inl rfl
    | cons packet queue =>
      rw [hqueue] at h
      exact .inr ⟨packet, 0, queue, rfl, h.next hrest, rest_zero_ne_nil packet⟩
  · obtain ⟨-, hnone⟩ | ⟨offset, hoffset, hposition, hdrop⟩ := h.cursor
    · exact absurd hnone hrest
    · rw [if_neg (ne_idle hposition), apacket.packetSize_eq h.consistent, sizeOfInt_eq hposition, Except.map,
        if_neg fun hend ↦ hrest (hdrop.trans ((drop_eq_nil_iff hoffset).mpr hend))]
      exact .inr ⟨_, _, _, rfl, h, hrest⟩

/-- One pass of the loop with a packet. -/
theorem guestRecvLoop_turn {next : AdbHub} {offset count size : ℕ} (hnext : hub.nextForGuest = .ok (some next))
    (hconsistent : next.mCurrentGuestRecvPacket.Consistent)
    (hposition : next.mCurrentGuestRecvPacketPst.toInt = offset)
    (hoffset : offset ≤ next.mCurrentGuestRecvPacket.bytes.length)
    (hcount : min (next.mCurrentGuestRecvPacket.remaining offset) size = count) (fuel : ℕ) (sizes : List ℕ)
    (copied : List UInt8) :
    guestRecvLoop (fuel + 1) (size :: sizes) hub copied =
      guestRecvLoop fuel (if count = size then sizes else (size - count) :: sizes)
        { next with mCurrentGuestRecvPacketPst := next.mCurrentGuestRecvPacketPst + Int32.ofNat count }
        (copied ++ (next.mCurrentGuestRecvPacket.bytes.drop offset).take count) := by
  have hread := apacket.read_eq count hconsistent hoffset (hcount ▸ Nat.min_le_left _ _)
  rw [guestRecvLoop, hnext]
  simp only [sizeOfInt_eq hposition, hcount, hread]

section

variable (h : HostSide hub fromHost toGuest) (hsmall : Small (adbFormat.messages fromHost))
include h hsmall

theorem guestRecvLoop_ends {fuel : ℕ} {sizes : List ℕ} (hfuel : sizes.sum + sizes.length ≤ fuel)
    (copied : List UInt8) :
    Ends (guestRecvLoop fuel sizes hub copied) fun (hub', copied') ↦
      ∃ more, copied' = copied ++ more ∧ HostSide hub' fromHost (toGuest ++ more) ∧ KeepsGuest hub hub' := by
  have hnothing {hub : AdbHub} {toGuest copied : List UInt8} (h : HostSide hub fromHost toGuest) :
      Ends (.ok (hub, copied)) fun ((hub', copied') : AdbHub × List UInt8) ↦
        ∃ more, copied' = copied ++ more ∧ HostSide hub' fromHost (toGuest ++ more) ∧ KeepsGuest hub hub' :=
    ⟨[], (append_nil copied).symm, (append_nil toGuest).symm ▸ h, fun _ _ hkeeps ↦ hkeeps⟩
  induction fuel generalizing hub toGuest sizes copied with
  | zero =>
    obtain rfl : sizes = [] := List.eq_nil_of_length_eq_zero (by omega)
    exact hnothing h
  | succ fuel ih =>
    cases sizes with
    | nil => exact hnothing h
    | cons size sizes =>
      obtain hend | ⟨packet, position, queue, hnext, hemits, hrest⟩ := nextForGuest_eq h.emits
      · rw [guestRecvLoop, hend]
        exact hnothing h
      obtain ⟨-, hnone⟩ | ⟨offset, hoffset, hposition, hdrop⟩ := hemits.cursor
      · exact absurd hnone hrest
      have hinside : offset < packet.bytes.length :=
        Nat.lt_of_le_of_ne hoffset fun hend ↦ hrest (hdrop.trans ((drop_eq_nil_iff hoffset).mpr hend))
      obtain ⟨hpos, hremaining⟩ := apacket.remaining_pos hemits.consistent hinside
      let count := min (packet.remaining offset) size
      have hlength : ((packet.rest position).take count).length = count := by
        refine List.length_take_of_le ((Nat.min_le_left _ _).trans ?_)
        rwa [hdrop, length_drop]
      have hadvance := hemits.advance hsmall count
      rw [hlength] at hadvance
      have hmeasure : (if count = size then sizes else (size - count) :: sizes).sum +
          (if count = size then sizes else (size - count) :: sizes).length ≤ fuel := by
        rw [List.sum_cons, length_cons] at hfuel
        split_ifs with hall
        · omega
        · have hle : count ≤ size := Nat.min_le_right _ _
          have hfirst : 0 < count := by
            rcases Nat.le_total (packet.remaining offset) size with hsize | hsize
            · exact hpos.trans_eq (Nat.min_eq_left hsize).symm
            · exact absurd (Nat.min_eq_right hsize) hall
          rw [List.sum_cons, length_cons]
          omega
      rw [guestRecvLoop_turn hnext hemits.consistent hposition hoffset rfl, ← hdrop]
      have hside : HostSide { hub with
          mCurrentGuestRecvPacket := packet
          mCurrentGuestRecvPacketPst := position + Int32.ofNat count
          mRecvFromHostQueue := queue } fromHost (toGuest ++ (packet.rest position).take count) :=
        ⟨h.receives, hadvance, h.fresh⟩
      refine (ih hside hmeasure _).mono fun (last, copied') ⟨more, hcopied, hlast, hkeeps⟩ ↦ ?_
      refine ⟨(packet.rest position).take count ++ more, ?_, ?_, fun _ _ hguest ↦
        hkeeps _ _ ⟨hguest.receives, hguest.emits⟩⟩
      · rw [hcopied, append_assoc]
      · rwa [append_assoc] at hlast

theorem onGuestRecvData_ends (sizes : List ℕ) : Ends (hub.onGuestRecvData sizes) fun (_, hub', copied) ↦
      HostSide hub' fromHost (toGuest ++ copied) ∧ KeepsGuest hub hub' := by
  refine (guestRecvLoop_ends h hsmall le_rfl []).map fun (last, copied) ⟨more, hcopied, hlast, hkeeps⟩ ↦ ?_
  rw [nil_append] at hcopied
  subst hcopied
  simp only
  split_ifs
  · exact ⟨⟨hlast.receives, hlast.emits, hlast.fresh⟩, fun _ _ hguest ↦
      ⟨(hkeeps _ _ hguest).receives, (hkeeps _ _ hguest).emits⟩⟩
  · exact ⟨hlast, hkeeps⟩

end

/-- Something is in the queue or left of the current packet exactly if not all bytes have gone out. -/
theorem pending_iff {queue : List apacket} {packet : apacket} {position : Int32}
    (h : Emits queue packet position found sent) :
    (queue ≠ [] ∨ packet.rest position ≠ []) ↔ sent.length < (wire found).length := by
  obtain ⟨past, hfound, hwire, -⟩ := h.gone
  have hlength : (wire found).length =
      sent.length + (packet.rest position).length + (wire (queue.map apacket.frame)).length := by
    rw [hfound, wire_append, hwire, length_append, length_append]
  have hqueue : queue ≠ [] → 0 < (wire (queue.map apacket.frame)).length := by
    intro hne
    obtain ⟨packet, rest, rfl⟩ := List.exists_cons_of_ne_nil hne
    rw [List.map_cons, ← List.singleton_append, wire_append, wire_singleton, length_append,
      apacket.length_bytes, kHeaderSize]
    omega
  rw [hlength]
  constructor
  · rintro (hne | hne)
    · have hpos := hqueue hne
      omega
    · have hpos := List.length_pos_of_ne_nil hne
      omega
  · intro hlt
    by_contra hnone
    rw [not_or, not_not, not_not] at hnone
    obtain ⟨rfl, hrest⟩ := hnone
    rw [hrest] at hlt
    exact absurd hlt (lt_irrefl _)

theorem pipeWakeFlags_eq (h : HostSide hub fromHost toGuest) : ∃ flags, hub.pipeWakeFlags = .ok flags ∧
    (flags &&& PIPE_WAKE_READ ≠ 0 ↔ toGuest.length < (completePackets fromHost).length) := by
  rw [completePackets, ← pending_iff h.emits]
  unfold pipeWakeFlags
  simp only [h.emits.lt_size]
  by_cases hqueue : hub.mRecvFromHostQueue = []
  · rw [if_neg (not_not.mpr hqueue)]
    by_cases hrest : hub.mCurrentGuestRecvPacket.rest hub.mCurrentGuestRecvPacketPst = []
    · refine ⟨PIPE_WAKE_WRITE, ?_, ?_⟩
      · rw [decide_eq_false (not_not.mpr hrest)]
        rfl
      · exact ⟨fun hflag ↦ absurd (by decide) hflag, fun hsome ↦ absurd hsome (not_or.mpr
          ⟨not_not.mpr hqueue, not_not.mpr hrest⟩)⟩
    · refine ⟨PIPE_WAKE_WRITE ||| PIPE_WAKE_READ, ?_, ?_⟩
      · rw [decide_eq_true hrest]
        rfl
      · exact ⟨fun _ ↦ .inr hrest, fun _ ↦ by decide⟩
  · rw [if_pos hqueue]
    exact ⟨PIPE_WAKE_WRITE ||| PIPE_WAKE_READ, rfl, fun _ ↦ .inl hqueue, fun _ ↦ by decide⟩

end GuestReceives

end AdbHub

/-! ## Every run -/

/-- An `int` can count the bytes of every packet that has come. -/
def SmallPackets (relay : Relay) : Prop :=
  Small (adbFormat.messages relay.fromGuest) ∧ Small (adbFormat.messages relay.fromHost)

/-- The hub hands on complete packets in order, no check of a size fails, and the flags tell what there is for the
guest. -/
structure Relays (sscanf : List UInt8 → ℤ) (relay : Relay) : Prop where
  toHost : relay.toHost <+: completePackets relay.fromGuest
  toGuest : relay.toGuest <+: completePackets relay.fromHost
  checked : ∀ event, relay.perform sscanf event ≠ .error .packetSize
  wantWrite : ∃ wanted, relay.hub.socketWantWrite = .ok wanted
  wakes : ∃ flags, relay.hub.pipeWakeFlags = .ok flags ∧
    (flags &&& PIPE_WAKE_READ ≠ 0 ↔ relay.toGuest.length < (completePackets relay.fromHost).length)

section Runs

variable {sscanf : List UInt8 → ℤ} {relay relay' : Relay} {event : Event}

def Sound (relay : Relay) : Prop :=
  GuestSide relay.hub relay.fromGuest relay.toHost ∧ HostSide relay.hub relay.fromHost relay.toGuest

variable {stream : List UInt8}

theorem sound_new : Sound {} := by
  have hreceives : apacket.Receives {} 0 (adbFormat.leftover []) := by
    rw [Format.leftover_nil]
    exact receives_nothing _
  have hemits : Emits [] {} (-1) (adbFormat.messages []) [] := by
    rw [Format.messages_nil]
    exact emits_new
  exact ⟨⟨hreceives, hemits⟩, hreceives, hemits, rfl⟩

theorem perform_ends (sscanf : List UInt8 → ℤ) (h : Sound relay) (hsmall : SmallPackets relay) (event : Event) :
    Ends (relay.perform sscanf event) Sound := by
  obtain ⟨hguest, hhost⟩ := h
  cases event with
  | guestSend buffers =>
    exact (AdbHub.onGuestSendData_ends hguest buffers).map fun _ hresult ↦ ⟨hresult.1, hresult.2 _ _ hhost⟩
  | guestRecv sizes =>
    exact (AdbHub.onGuestRecvData_ends hhost hsmall.2 sizes).map fun _ hresult ↦ ⟨hresult.2 _ _ hguest, hresult.1⟩
  | hostSocket kEventRead kEventWrite recvs sends =>
    have hread : Ends (if kEventRead then relay.hub.readSocket recvs else .ok (0, relay.hub, [])) fun result ↦
        HostSide result.2.1 (relay.fromHost ++ result.2.2) relay.toGuest ∧ KeepsGuest relay.hub result.2.1 := by
      split_ifs
      · exact AdbHub.readSocket_ends hhost recvs
      · exact ⟨(append_nil relay.fromHost).symm ▸ hhost, fun _ _ hkeeps ↦ hkeeps⟩
    have hwrite : Ends (relay.hub.onHostSocketEvent kEventRead kEventWrite recvs sends) fun result ↦
        GuestSide result.1 relay.fromGuest (relay.toHost ++ result.2.2) ∧
          HostSide result.1 (relay.fromHost ++ result.2.1) relay.toGuest := by
      refine hread.bind fun result hresult ↦ ?_
      obtain ⟨code, hub', received⟩ := result
      obtain ⟨hhost', hkeeps⟩ := hresult
      have hguest' := hkeeps _ _ hguest
      simp only
      split_ifs
      · exact ⟨(append_nil relay.toHost).symm ▸ hguest', hhost'⟩
      · exact (AdbHub.writeSocket_ends hguest' hsmall.1 sends).map fun _ hresult ↦
          ⟨hresult.1, hresult.2 _ _ hhost'⟩
    exact hwrite.map fun _ hresult ↦ hresult

/-- The packets of the first part of a stream are among the packets of the stream. -/
theorem small_of_append {more : List UInt8} (h : Small (adbFormat.messages (stream ++ more))) :
    Small (adbFormat.messages stream) := fun frame hframe ↦
  h frame (Format.messages_append stream more ▸ List.mem_append_left _ hframe)

theorem exists_of_map_eq_ok {Value Other : Type*} {result : Except Stop Value} {f : Value → Other} {other : Other}
    (h : result.map f = .ok other) : ∃ value, f value = other := by
  cases result with
  | ok value => exact ⟨value, Except.ok.inj h⟩
  | error stop => cases h

theorem smallPackets_of_step (hstep : relay.perform sscanf event = .ok relay') (h : SmallPackets relay') :
    SmallPackets relay := by
  obtain ⟨hguest, hhost⟩ := h
  cases event with
  | guestSend buffers =>
    obtain ⟨_, rfl⟩ := exists_of_map_eq_ok hstep
    exact ⟨small_of_append hguest, hhost⟩
  | guestRecv sizes =>
    obtain ⟨_, rfl⟩ := exists_of_map_eq_ok hstep
    exact ⟨hguest, hhost⟩
  | hostSocket kEventRead kEventWrite recvs sends =>
    obtain ⟨_, rfl⟩ := exists_of_map_eq_ok hstep
    exact ⟨hguest, small_of_append hhost⟩

theorem Reaches.sound (h : Reaches sscanf relay) (hsmall : SmallPackets relay) : Sound relay := by
  induction h with
  | new => exact sound_new
  | step event hreaches hstep ih =>
    have hbefore := smallPackets_of_step hstep hsmall
    have hends := perform_ends sscanf (ih hbefore) hbefore event
    rw [hstep] at hends
    exact hends

theorem emits_prefix {queue : List apacket} {packet : apacket} {position : Int32}
    {found : List (List UInt8 × List UInt8)} {sent : List UInt8} (h : Emits queue packet position found sent) :
    sent <+: wire found := by
  obtain ⟨past, rfl, hwire, -⟩ := h.gone
  rw [wire_append, hwire, append_assoc]
  exact List.prefix_append _ _

theorem length_le_of_mem_messages {frame : List UInt8 × List UInt8} (h : frame ∈ adbFormat.messages stream) :
    frame.1.length + frame.2.length ≤ stream.length := by
  induction stream using @Format.frames_induction _ _ adbFormat with
  | incomplete stream hnext =>
    rw [Format.messages_of_next_none hnext] at h
    exact absurd h List.not_mem_nil
  | frame stream found rest hnext ih =>
    obtain ⟨⟨hheader, hbody⟩, hsome⟩ := Option.ite_none_right_eq_some.mp hnext
    obtain ⟨rfl, hrest⟩ := Prod.mk.inj (Option.some.inj hsome)
    rw [Format.messages_of_next hnext] at h
    rcases List.mem_append.mp h with hfirst | hlater
    · obtain rfl := Option.mem_some.mp (Option.mem_toList.mp hfirst)
      rw [List.length_take, List.length_take, length_drop]
      omega
    · have hlength := Format.length_of_next hnext
      have hle := ih hlater
      omega

theorem small_of_length (h : stream.length < 2 ^ 31) : Small (adbFormat.messages stream) :=
  fun _ hframe ↦ (length_le_of_mem_messages hframe).trans_lt h

/-- As long as an `int` can count the bytes of the packets, the hub relays them. -/
theorem relays_of_small (hreaches : Reaches sscanf relay) (hsmall : SmallPackets relay) : Relays sscanf relay := by
  have hsound := hreaches.sound hsmall
  obtain ⟨hguest, hhost⟩ := hsound
  refine ⟨ emits_prefix hguest.emits, emits_prefix hhost.emits, fun event hstop ↦ ?_, ?_,
    AdbHub.pipeWakeFlags_eq hhost⟩
  · have hends := perform_ends sscanf ⟨hguest, hhost⟩ hsmall event
    rw [hstop] at hends
    exact hends.1 rfl
  · have hsending : relay.hub.sending = _ := hguest.emits.lt_size
    rw [AdbHub.socketWantWrite, hsending]
    split_ifs
    · exact ⟨_, rfl⟩
    · exact ⟨_, rfl⟩

/-- The guest sends a packet without data and the start of another one, and the host takes ten bytes. -/
theorem relays_of_small_okay : ∃ relay, Reaches (fun _ ↦ 0) relay ∧
    relay.fromGuest = putLe32 ADB_OKAY ++ List.replicate 22 0 ∧ relay.toHost.length = 10 ∧
    Relays (fun _ ↦ 0) relay := by
  have hnew : Reaches (fun _ ↦ 0) {} := .new
  have hsent := hnew.step (.guestSend [putLe32 ADB_OKAY ++ [0], List.replicate 21 0]) rfl
  have htaken := hsent.step (.hostSocket false true [] [.accepts 10]) rfl
  exact ⟨_, htaken, rfl, rfl, relays_of_small htaken ⟨small_of_length (by decide), small_of_length (by decide)⟩⟩

end Runs

/-! ## A packet that is too large for an `int` -/

section Large

variable {mesg : amessage} {first second data : List UInt8} {size offset : ℕ}

/-- The header of a packet and a part of its data. -/
theorem readSocket_first (hsize : mesg.data_length.toNat = size) (hfirst : first ≠ []) (hpart : first.length < size) :
    AdbHub.readSocket [.gives mesg.bytes, .gives first] {} = .ok (0,
      { mCurrentHostRecvPacket := ⟨mesg, overwrite (resize [] size) 0 first⟩
        mCurrentHostRecvPacketPst := kHeaderSize + first.length }, mesg.bytes ++ first) := by
  have hconsistent : (⟨mesg, resize [] size⟩ : apacket).Consistent := (apacket.length_resize [] size).trans hsize.symm
  have hbytes : (⟨mesg, resize [] size⟩ : apacket).bytes.length = kHeaderSize + size := by
    rw [apacket.length_bytes, apacket.length_resize]
  have hstart : 0 + mesg.bytes.length = kHeaderSize := (Nat.zero_add _).trans mesg.length_bytes
  have haccept : ({} : apacket).accept 0 mesg.bytes = ⟨mesg, resize [] size⟩ := by
    have hwrite : ({} : amessage).write 0 mesg.bytes = mesg := by
      have hsame : (overwrite ({} : amessage).bytes 0 mesg.bytes).take kHeaderSize = mesg.bytes := by
        rw [overwrite_full (hstart.trans (amessage.length_bytes {}).symm), List.take_zero, nil_append,
          List.take_of_length_le mesg.length_bytes.le]
      exact amessage.ext hsame
    rw [apacket.accept_header_end (by decide) hstart, hwrite, hsize]
  have hreceives := apacket.Receives.data hconsistent le_rfl (by rw [hbytes]; omega)
  have hremaining : (⟨mesg, resize [] size⟩ : apacket).remaining kHeaderSize = size := by
    rw [apacket.remaining_data hconsistent le_rfl (by rw [hbytes]; omega), hbytes, Nat.add_sub_cancel_left]
  have htake : first.take size = first := List.take_of_length_le hpart.le
  have hsecond : AdbHub.readSocket [.gives first]
      { mCurrentHostRecvPacket := ⟨mesg, resize [] size⟩, mCurrentHostRecvPacketPst := kHeaderSize } =
        .ok (0, { mCurrentHostRecvPacket := ⟨mesg, overwrite (resize [] size) 0 first⟩
                  mCurrentHostRecvPacketPst := kHeaderSize + first.length }, first) := by
    unfold AdbHub.readSocket
    rw [AdbHub.bytesToRecv_eq { mCurrentHostRecvPacket := ⟨mesg, resize [] size⟩
                                mCurrentHostRecvPacketPst := kHeaderSize } hreceives]
    simp only [hremaining, htake]
    rw [if_neg hfirst, if_pos hpart, apacket.accept_data hconsistent le_rfl, Nat.sub_self]
  unfold AdbHub.readSocket
  rw [AdbHub.bytesToRecv_eq {} (receives_nothing {})]
  have hasked : ({} : apacket).remaining 0 = kHeaderSize := apacket.remaining_header (by decide)
  have hheader : mesg.bytes.take kHeaderSize = mesg.bytes := List.take_of_length_le mesg.length_bytes.le
  have hne : mesg.bytes ≠ [] := List.ne_nil_of_length_pos (by rw [mesg.length_bytes]; decide)
  simp only [hasked, hheader, haccept, apacket.packetSize_eq hconsistent, hbytes]
  rw [if_neg hne, if_neg mesg.length_bytes.not_lt, hstart, if_neg (by omega), hsecond]
  rfl

/-- The rest of the data. -/
theorem readSocket_last (hsize : mesg.data_length.toNat = size) (hopen : mesg.command ≠ ADB_OPEN)
    (hdata : data.length = size) (hsecond : second ≠ []) (hrest : offset + second.length = size) :
    ∃ data', data'.length = size ∧ AdbHub.readSocket [.gives second]
      { mCurrentHostRecvPacket := ⟨mesg, data⟩, mCurrentHostRecvPacketPst := kHeaderSize + offset } =
        .ok (PIPE_ERROR_AGAIN, { mRecvFromHostQueue := [⟨mesg, data'⟩]
                                 mWantRecv := true
                                 mCurrentHostRecvPacket := ⟨mesg, []⟩ }, second) := by
  have hpos := List.length_pos_of_ne_nil hsecond
  have hbytes (data : List UInt8) (hdata : data.length = size) :
      (⟨mesg, data⟩ : apacket).bytes.length = kHeaderSize + size := by rw [apacket.length_bytes, hdata]
  have hconsistent : (⟨mesg, data⟩ : apacket).Consistent := hdata.trans hsize.symm
  have hheader : kHeaderSize ≤ kHeaderSize + offset := Nat.le_add_right _ _
  have hinside : kHeaderSize + offset < (⟨mesg, data⟩ : apacket).bytes.length := by
    rw [hbytes data hdata]
    omega
  have hremaining : (⟨mesg, data⟩ : apacket).remaining (kHeaderSize + offset) = second.length := by
    rw [apacket.remaining_data hconsistent hheader hinside.le, hbytes data hdata]
    omega
  have hlength : (overwrite data offset second).length = size := (length_overwrite (by omega)).trans hdata
  have hwhole : (⟨mesg, overwrite data offset second⟩ : apacket).Consistent := hlength.trans hsize.symm
  refine ⟨overwrite data offset second, hlength, ?_⟩
  have haccept : (⟨mesg, data⟩ : apacket).accept (kHeaderSize + offset) second =
      ⟨mesg, overwrite data offset second⟩ := by
    rw [apacket.accept_data hconsistent hheader, Nat.add_sub_cancel_left]
  unfold AdbHub.readSocket
  rw [AdbHub.bytesToRecv_eq { mCurrentHostRecvPacket := ⟨mesg, data⟩
                              mCurrentHostRecvPacketPst := kHeaderSize + offset } (.data hconsistent hheader hinside)]
  simp only [hremaining, List.take_length, haccept, apacket.packetSize_eq hwhole, hbytes _ hlength]
  rw [if_neg hsecond, if_neg (lt_irrefl _), if_pos (by omega)]
  have htake : AdbHub.takeHostPacket
      { mCurrentHostRecvPacket := ⟨mesg, overwrite data offset second⟩
        mCurrentHostRecvPacketPst := kHeaderSize + offset + second.length } =
      .ok { mRecvFromHostQueue := [⟨mesg, overwrite data offset second⟩]
            mWantRecv := true
            mCurrentHostRecvPacket := ⟨mesg, []⟩ } := by
    unfold AdbHub.takeHostPacket
    simp only
    rw [if_neg fun hreconnect ↦ Bool.false_ne_true hreconnect.2, if_neg hopen]
    rfl
  rw [htake]
  simp only
  unfold AdbHub.readSocket
  rw [AdbHub.bytesToRecv_eq { mRecvFromHostQueue := [⟨mesg, overwrite data offset second⟩]
                              mWantRecv := true
                              mCurrentHostRecvPacket := ⟨mesg, []⟩ } (receives_nothing ⟨mesg, []⟩)]
  simp only [Except.map, append_nil]

/-- The cursor of the guest after `2 ^ 31` bytes of a packet. -/
theorem onGuestRecvData_large (hsize : mesg.data_length.toNat = 2 ^ 31) (hdata : data.length = 2 ^ 31) :
    ∃ code hub copied, AdbHub.onGuestRecvData [2 ^ 30, 2 ^ 30]
      { mRecvFromHostQueue := [⟨mesg, data⟩], mWantRecv := true, mCurrentHostRecvPacket := ⟨mesg, []⟩ } =
        .ok (code, hub, copied) ∧ hub.mRecvFromHostQueue = [] ∧ hub.mCurrentGuestRecvPacketPst = -2147483648 ∧
      copied.length = 2 ^ 31 := by
  have hconsistent : (⟨mesg, data⟩ : apacket).Consistent := hdata.trans hsize.symm
  have hbytes : (⟨mesg, data⟩ : apacket).bytes.length = kHeaderSize + 2 ^ 31 := by rw [apacket.length_bytes, hdata]
  let packet : apacket := ⟨mesg, data⟩
  let hub (position : Int32) : AdbHub :=
    { mWantRecv := true
      mCurrentGuestRecvPacket := packet
      mCurrentGuestRecvPacketPst := position
      mCurrentHostRecvPacket := ⟨mesg, []⟩ }
  have hsame {position : Int32} {offset : ℕ} (hposition : position.toInt = offset)
      (hinside : offset < kHeaderSize + 2 ^ 31) : (hub position).nextForGuest = .ok (some (hub position)) := by
    unfold AdbHub.nextForGuest
    simp only [hub]
    rw [if_neg (ne_idle hposition), apacket.packetSize_eq hconsistent, sizeOfInt_eq hposition]
    exact congrArg Except.ok (if_neg (hbytes ▸ hinside.ne))
  have hremaining {offset : ℕ} (hheader : kHeaderSize ≤ offset) (hinside : offset < kHeaderSize + 2 ^ 31) :
      packet.remaining offset = kHeaderSize + 2 ^ 31 - offset := by
    rw [apacket.remaining_data hconsistent hheader (hbytes ▸ hinside.le), hbytes]
  have hturn (start : AdbHub) (position : Int32) (offset count size : ℕ) (hposition : position.toInt = offset)
      (hinside : offset < kHeaderSize + 2 ^ 31) (hcount : min (packet.remaining offset) size = count)
      (hnext : start.nextForGuest = .ok (some (hub position))) (fuel : ℕ) (sizes : List ℕ) (copied : List UInt8) :
      AdbHub.guestRecvLoop (fuel + 1) (size :: sizes) start copied =
        AdbHub.guestRecvLoop fuel (if count = size then sizes else (size - count) :: sizes)
          (hub (position + Int32.ofNat count)) (copied ++ (packet.bytes.drop offset).take count) :=
    AdbHub.guestRecvLoop_turn hnext hconsistent hposition (hbytes ▸ hinside.le) hcount fuel sizes copied
  have hfirst := hturn
    { mRecvFromHostQueue := [packet], mWantRecv := true, mCurrentHostRecvPacket := ⟨mesg, []⟩ } 0 0 24 (2 ^ 30)
    (by decide) (by decide) (by rw [apacket.remaining_header (by decide)]; decide) rfl
  have hmiddle := hturn (hub 24) 24 24 (2 ^ 30 - 24) (2 ^ 30 - 24) (by decide) (by decide)
    (by rw [hremaining (by decide) (by decide)]; decide) (hsame (by decide : _ = ((24 : ℕ) : ℤ)) (by decide))
  have hlast := hturn (hub 1073741824) 1073741824 (2 ^ 30) (2 ^ 30) (2 ^ 30) (by decide) (by decide)
    (by rw [hremaining (by decide) (by decide)]; decide)
    (hsame (by decide : _ = ((2 ^ 30 : ℕ) : ℤ)) (by decide))
  obtain ⟨fuel, hfuel⟩ : ∃ fuel, [2 ^ 30, 2 ^ 30].sum + [2 ^ 30, 2 ^ 30].length = fuel + 1 + 1 + 1 :=
    ⟨2 ^ 31 - 1, by decide⟩
  have hrun := (hfirst (fuel + 1 + 1) [2 ^ 30] []).trans
    ((hmiddle (fuel + 1) [2 ^ 30] _).trans (hlast fuel [] _))
  let copied := [] ++ (packet.bytes.drop 0).take 24 ++ (packet.bytes.drop 24).take (2 ^ 30 - 24) ++
    (packet.bytes.drop (2 ^ 30)).take (2 ^ 30)
  have hcopied : copied.length = 2 ^ 31 := by
    simp only [copied, length_append, List.length_take, length_drop, hbytes, List.length_nil, packet]
    decide
  have hdone (last : AdbHub) : AdbHub.guestRecvLoop fuel [] last copied = .ok (last, copied) := by
    cases fuel <;> rfl
  have hall := hrun.trans (hdone (hub (-2147483648)))
  unfold AdbHub.onGuestRecvData
  rw [hfuel, hall]
  refine ⟨_, _, copied, rfl, ?_, ?_, hcopied⟩
  · split_ifs <;> rfl
  · split_ifs <;> rfl

end Large

theorem Reaches.read {sscanf : List UInt8 → ℤ} {relay : Relay} {recvs : List RecvResult} {code : ℤ} {hub : AdbHub}
    {received : List UInt8} (hreaches : Reaches sscanf relay)
    (h : relay.hub.readSocket recvs = .ok (code, hub, received)) :
    Reaches sscanf { relay with hub := hub, fromHost := relay.fromHost ++ received } := by
  have hevent : relay.hub.onHostSocketEvent true false recvs [] = .ok (hub, received, []) := by
    rw [AdbHub.onHostSocketEvent, if_pos rfl, h]
    exact if_pos (.inr rfl)
  refine .step (.hostSocket true false recvs []) hreaches ?_
  rw [Relay.perform, hevent, Except.map]
  simp only [append_nil]

/-- The guest has read `2 ^ 31` bytes of a packet, and the flags do not tell that there are more. -/
theorem large_packet_hidden : ¬ ∀ (sscanf : List UInt8 → ℤ) (relay : Relay), Reaches sscanf relay →
    Relays sscanf relay := by
  intro hall
  let mesg : amessage := ⟨[0, 0, 0, 0, 0, 0, 0, 0, 0, 0, 0, 0, 0, 0, 0, 128, 0, 0, 0, 0, 0, 0, 0, 0], rfl⟩
  obtain ⟨half, hhalf⟩ : ∃ half : List UInt8, half.length = 2 ^ 30 :=
    ⟨List.replicate (2 ^ 30) 0, List.length_replicate⟩
  have hsize : mesg.data_length.toNat = 2 ^ 31 := by decide
  have hne : half ≠ [] := List.ne_nil_of_length_pos (by rw [hhalf]; decide)
  have hsum : half.length + half.length = 2 ^ 31 := by omega
  have hfirst := readSocket_first hsize hne (by omega)
  have hpart : (overwrite (resize [] (2 ^ 31)) 0 half).length = 2 ^ 31 :=
    (length_overwrite (by rw [apacket.length_resize]; omega)).trans (apacket.length_resize [] (2 ^ 31))
  obtain ⟨data, hdata, hlast⟩ := readSocket_last hsize (by decide) hpart hne hsum
  obtain ⟨code, hub, copied, hrecv, hqueue, hposition, hcopied⟩ := onGuestRecvData_large hsize hdata
  have hreaches : Reaches (fun _ ↦ 0) { hub := hub, fromHost := mesg.bytes ++ half ++ half, toGuest := copied } := by
    refine .step (.guestRecv [2 ^ 30, 2 ^ 30]) ((Reaches.new.read hfirst).read hlast) ?_
    rw [Relay.perform, hrecv]
    rfl
  obtain ⟨flags, hflags, hwakes⟩ := (hall _ _ hreaches).wakes
  have hnone : hub.pipeWakeFlags = .ok PIPE_WAKE_WRITE := by
    rw [AdbHub.pipeWakeFlags, hqueue, if_neg (not_not.mpr rfl), hposition, if_pos (by decide)]
    rfl
  have hconsistent : (⟨mesg, half ++ half⟩ : apacket).Consistent := by
    rw [apacket.Consistent, length_append, hsum, hsize]
  have hstream : (⟨mesg, half ++ half⟩ : apacket).bytes = adbFormat.leftover [] ++ (mesg.bytes ++ half ++ half) := by
    rw [Format.leftover_nil, nil_append, apacket.bytes, append_assoc]
  have hpacket := stream_whole hconsistent hstream
  have hlength : (completePackets (mesg.bytes ++ half ++ half)).length = kHeaderSize + 2 ^ 31 := by
    rw [nil_append, Format.messages_nil, nil_append] at hpacket
    rw [completePackets, hpacket.1, wire_singleton, apacket.length_bytes, length_append, hsum]
  obtain rfl : PIPE_WAKE_WRITE = flags := Except.ok.inj (hnone.symm.trans hflags)
  exact absurd (hwakes.mpr (by simp only [hlength, hcopied]; decide)) (by decide)

end FdeEmugl.Adb
