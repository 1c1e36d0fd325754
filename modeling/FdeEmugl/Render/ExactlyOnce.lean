import FdeEmugl.Render.RenderThread

/-!
# When a render thread dispatches a packet twice

A buffer is cut into packets and a tail. During one pass the packets split into
those consumed and the rest, and either everything dispatched has been consumed or the
rest, all of one decoder, has been dispatched and kept because a malformed header follows
it. The second case comes with progress exactly when a decoder before that one
took packets in the same pass, and then the rest is dispatched again.
-/

namespace FdeEmugl.Render

open List (append_assoc append_nil eq_nil_or_concat' length_append mem_append mem_append_right mem_cons_self)

section Once

variable (owner : UInt32 → Option Decoder)

def Owned (packet : Packet) (decoder : Decoder) : Prop := owner (opcode packet.bytes) = some decoder

def Known (packet : Packet) : Prop := ∃ decoder, Owned owner packet decoder

/-- Known packets, then at the end packets of one decoder directly after one of a decoder that runs
before it, and then a malformed header. -/
def RepeatsPackets (packets : List Packet) (tail : List UInt8) : Prop :=
  Malformed tail ∧ ∃ front previous back earlier decoder,
    packets = front ++ previous :: back ∧ back ≠ [] ∧ (∀ packet ∈ front, Known owner packet) ∧
      Owned owner previous earlier ∧ (∀ packet ∈ back, Owned owner packet decoder) ∧
      earlier.rank < decoder.rank

/-- The buffers on which the decoders dispatch packets twice. -/
def Repeats (buf : List UInt8) : Prop :=
  ∃ packets tail, buf = bytesOf packets ++ tail ∧ RepeatsPackets owner packets tail

variable {owner}

variable {packet : Packet} {decoder : Decoder} {packets : List Packet}

theorem Owned.unique {first second : Decoder} (hfirst : Owned owner packet first)
    (hsecond : Owned owner packet second) : first = second :=
  Option.some.inj (hfirst.symm.trans hsecond)

theorem rank_injective {first second : Decoder} (h : first.rank = second.rank) : first = second := by
  cases first <;> cases second <;> simp_all [Decoder.rank]

theorem rank_lt (decoder : Decoder) : decoder.rank < 3 := by
  cases decoder <;> decide

theorem owns_eq_true : owns owner decoder (opcode packet.bytes) = true ↔ Owned owner packet decoder := by
  simp [owns, Owned]

theorem owned_of_mem_taken (h : packet ∈ taken (owns owner decoder) packets) : Owned owner packet decoder := by
  have hmem : packet ∈ packets.takeWhile fun packet ↦ owns owner decoder (opcode packet.bytes) := h
  have howned := List.mem_takeWhile_imp hmem
  simpa only [owns, decide_eq_true_eq, Owned] using howned

theorem not_owned_head_leftOver (h : packet ∈ (leftOver (owns owner decoder) packets).head?) :
    ¬ Owned owner packet decoder := by
  rw [← owns_eq_true]
  have hhead := List.head?_dropWhile_not (fun packet ↦ owns owner decoder (opcode packet.bytes)) packets
  rw [leftOver, Option.mem_def] at h
  simpa [h] using hhead

theorem taken_of_leftOver_nil (h : leftOver (owns owner decoder) packets = []) :
    taken (owns owner decoder) packets = packets := by
  have hsplit := taken_append_leftOver (owns owner decoder) packets
  rwa [h, append_nil] at hsplit

theorem leftOver_of_taken_nil (h : taken (owns owner decoder) packets = []) :
    leftOver (owns owner decoder) packets = packets := by
  have hsplit := taken_append_leftOver (owns owner decoder) packets
  rwa [h, List.nil_append] at hsplit

/-! ## One decoder's turn -/

section

variable {s : Decoding} {rest : List Packet} {tail : List UInt8}

/-- The decoder runs into a malformed header right after its packets. -/
theorem decodeWith_kept (hdata : s.readBuf.data = bytesOf rest ++ tail) (hstops : Stops tail)
    (hall : leftOver (owns owner decoder) rest = []) (hbad : Malformed tail) :
    decodeWith owner decoder s = { s with log := s.log ++ dispatches s.consumed rest, packetLen_error := true } := by
  have hnot : ¬ (-1 : Int32) > 0 := by decide
  have hneg : (-1 : Int32) < 0 := by decide
  rw [decodeWith, hdata, decode_packets _ hstops, if_pos ⟨hall, hbad⟩, taken_of_leftOver_nil hall]
  simp only [map_shift_dispatches, Nat.add_zero, if_neg hnot, if_pos hneg]

/-- The decoder consumes what it dispatches. -/
theorem decodeWith_consumed (decoder : Decoder) (hdata : s.readBuf.data = bytesOf rest ++ tail)
    (hstops : Stops tail) (hsize : s.readBuf.data.length < 2 ^ 31)
    (hgood : ¬ (leftOver (owns owner decoder) rest = [] ∧ Malformed tail)) :
    let run := taken (owns owner decoder) rest
    let s' := decodeWith owner decoder s
    s'.readBuf.data = bytesOf (leftOver (owns owner decoder) rest) ++ tail ∧
      s'.consumed = s.consumed + (bytesOf run).length ∧
      s'.log = s.log ++ dispatches s.consumed run ∧
      s'.progress = (s.progress || !run.isEmpty) ∧ s'.packetLen_error = s.packetLen_error := by
  intro run s'
  have hbytes : bytesOf rest = bytesOf run ++ bytesOf (leftOver (owns owner decoder) rest) := by
    rw [← bytesOf_append, taken_append_leftOver]
  have hlength : (bytesOf run).length < 2 ^ 31 := by
    rw [hdata, hbytes] at hsize
    simp only [length_append] at hsize
    omega
  have hint : (Int32.ofNat (bytesOf run).length).toInt = (bytesOf run).length := Int32.toInt_ofNat_of_lt hlength
  have hs' : s' = decodeWith owner decoder s := rfl
  rw [decodeWith, hdata, decode_packets _ hstops, if_neg hgood] at hs'
  simp only [map_shift_dispatches, Nat.add_zero] at hs'
  change s' = if Int32.ofNat (bytesOf run).length > 0 then _ else _ at hs'
  by_cases hnone : run = []
  · have hzero : (bytesOf run).length = 0 := by rw [hnone]; rfl
    have hpos : ¬ Int32.ofNat (bytesOf run).length > 0 := by rw [hzero]; decide
    have hneg : ¬ Int32.ofNat (bytesOf run).length < 0 := by rw [hzero]; decide
    rw [if_neg hpos, if_neg hneg] at hs'
    simp only [hs', hnone, leftOver_of_taken_nil hnone]
    refine ⟨hdata, by simp, ?_, by simp, trivial⟩
    change s.log ++ dispatches s.consumed run = _
    rw [hnone]
  · have hpos : Int32.ofNat (bytesOf run).length > 0 := by
      have hbytesPos := bytesOf_pos hnone
      rw [gt_iff_lt, Int32.lt_iff_toInt_lt, hint]
      simpa using hbytesPos
    rw [if_pos hpos, hint] at hs'
    simp only [hs', ReadBuffer.consume, Int.toNat_natCast, hdata]
    refine ⟨?_, trivial, rfl, by simp [hnone], trivial⟩
    rw [hbytes, append_assoc, List.drop_left]

end

/-! ## One pass -/

variable (owner) in
/-- Where a pass that began with `start` is: `done` is consumed, `rest` is ahead. -/
structure Front (packets : List Packet) (tail : List UInt8) (start s : Decoding)
    (done rest : List Packet) : Prop where
  split : packets = done ++ rest
  data : s.readBuf.data = bytesOf rest ++ tail
  consumed : s.consumed = start.consumed + (bytesOf done).length
  progress : s.progress = !done.isEmpty
  known : ∀ packet ∈ done, Known owner packet

variable (owner) in
/-- After the decoders of rank below `bound`, all that was dispatched has been consumed, and none
of them that had a chance at `rest` owns its first packet. -/
structure Clean (packets : List Packet) (tail : List UInt8) (start s : Decoding) (bound : ℕ)
    (done rest : List Packet) : Prop extends Front owner packets tail start s done rest where
  log : s.log = start.log ++ dispatches start.consumed done
  untouched : done = [] → ∀ decoder, decoder.rank < bound → ∀ packet ∈ rest.head?, ¬ Owned owner packet decoder
  last : ∀ front packet, done = front ++ [packet] → ∃ earlier, Owned owner packet earlier ∧
    earlier.rank < bound ∧ ¬ (rest = [] ∧ Malformed tail) ∧
    ∀ decoder, earlier.rank ≤ decoder.rank → decoder.rank < bound →
      ∀ packet ∈ rest.head?, ¬ Owned owner packet decoder

variable (owner) in
/-- `rest`, all of one decoder, has been dispatched and not consumed. -/
structure Kept (packets : List Packet) (tail : List UInt8) (start s : Decoding) (bound : ℕ)
    (done rest : List Packet) : Prop extends Front owner packets tail start s done rest where
  log : s.log = start.log ++ dispatches start.consumed packets
  error : s.packetLen_error = true
  malformed : Malformed tail
  nonempty : rest ≠ []
  keeper : ∃ decoder, decoder.rank < bound ∧ (∀ packet ∈ rest, Owned owner packet decoder) ∧
    ∀ front packet, done = front ++ [packet] → ∃ earlier, Owned owner packet earlier ∧ earlier.rank < decoder.rank

section Pass

variable {packets done rest : List Packet} {tail : List UInt8} {start s : Decoding}

variable {decoder : Decoder}

/-- The decoder's packets, all that is left, are kept. -/
theorem Clean.kept (h : Clean owner packets tail start s decoder.rank done rest) (hstops : Stops tail)
    (hall : leftOver (owns owner decoder) rest = []) (hbad : Malformed tail) (hrest : rest ≠ []) :
    Kept owner packets tail start (decodeWith owner decoder s) (decoder.rank + 1) done rest := by
  rw [decodeWith_kept h.data hstops hall hbad]
  refine ⟨⟨h.split, h.data, h.consumed, h.progress, h.known⟩, ?_, rfl, hbad, hrest,
    decoder, Nat.lt_succ_self _, ?_, ?_⟩
  · simp only [h.log, h.consumed, h.split, dispatches_append, append_assoc]
  · intro packet hmem
    rw [← taken_of_leftOver_nil hall] at hmem
    exact owned_of_mem_taken hmem
  · intro front packet hlast
    obtain ⟨earlier, howned, hrank, _⟩ := h.last front packet hlast
    exact ⟨earlier, howned, hrank⟩

/-- Nothing is left but a malformed header: the decoder only reports it. -/
theorem Clean.nothing_left (h : Clean owner packets tail start s decoder.rank done []) (hstops : Stops tail)
    (hbad : Malformed tail) :
    Clean owner packets tail start (decodeWith owner decoder s) (decoder.rank + 1) done [] := by
  rw [decodeWith_kept h.data hstops rfl hbad]
  refine ⟨⟨h.split, h.data, h.consumed, h.progress, h.known⟩, ?_, ?_, ?_⟩
  · simp only [dispatches_nil, append_nil, h.log]
  · simp
  · intro front packet hlast
    obtain ⟨_, _, _, hno, _⟩ := h.last front packet hlast
    exact absurd ⟨rfl, hbad⟩ hno

/-- The decoder consumes the packets it takes. -/
theorem Clean.takes (h : Clean owner packets tail start s decoder.rank done rest) (hstops : Stops tail)
    (hsize : s.readBuf.data.length < 2 ^ 31)
    (hgood : ¬ (leftOver (owns owner decoder) rest = [] ∧ Malformed tail)) :
    Clean owner packets tail start (decodeWith owner decoder s) (decoder.rank + 1)
      (done ++ taken (owns owner decoder) rest) (leftOver (owns owner decoder) rest) := by
  obtain ⟨hdata, hconsumed, hlog, hprogress, _⟩ := decodeWith_consumed decoder h.data hstops hsize hgood
  refine ⟨⟨?_, hdata, ?_, ?_, ?_⟩, ?_, ?_, ?_⟩
  · rw [append_assoc, taken_append_leftOver, h.split]
  · rw [hconsumed, h.consumed, bytesOf_append, length_append, Nat.add_assoc]
  · rw [hprogress, h.progress]
    cases done <;> simp
  · intro packet hmem
    obtain hdone | htaken := mem_append.mp hmem
    · exact h.known packet hdone
    · exact ⟨decoder, owned_of_mem_taken htaken⟩
  · rw [hlog, h.log, h.consumed, dispatches_append, append_assoc]
  · intro hnone other hrank
    obtain ⟨hdone, htaken⟩ := List.append_eq_nil_iff.mp hnone
    obtain hless | heq := Nat.lt_succ_iff_lt_or_eq.mp hrank
    · rw [leftOver_of_taken_nil htaken]
      exact h.untouched hdone other hless
    · rw [rank_injective heq]
      exact fun packet hhead ↦ not_owned_head_leftOver hhead
  · intro front packet hlast
    obtain htaken | ⟨init, final, htaken⟩ := eq_nil_or_concat' (taken (owns owner decoder) rest)
    · -- the decoder took nothing, so the last packet is one of before
      rw [htaken, append_nil] at hlast
      rw [leftOver_of_taken_nil htaken] at hgood ⊢
      obtain ⟨earlier, howned, hrank, hno, hhead⟩ := h.last front packet hlast
      refine ⟨earlier, howned, by omega, hno, fun other hle hlt ↦ ?_⟩
      obtain hless | heq := Nat.lt_succ_iff_lt_or_eq.mp hlt
      · exact hhead other hle hless
      · rw [rank_injective heq]
        intro packet hpacket
        rw [← leftOver_of_taken_nil htaken] at hpacket
        exact not_owned_head_leftOver hpacket
    · have hfinal : final = packet := by
        rw [htaken, ← append_assoc] at hlast
        exact List.singleton_inj.mp (List.append_inj_right' hlast rfl)
      have hmem : packet ∈ taken (owns owner decoder) rest := by
        rw [htaken, ← hfinal]
        simp
      refine ⟨decoder, owned_of_mem_taken hmem, Nat.lt_succ_self _, hgood, fun other hle hlt ↦ ?_⟩
      rw [rank_injective (Nat.le_antisymm (Nat.lt_succ_iff.mp hlt) hle)]
      exact fun packet hhead ↦ not_owned_head_leftOver hhead

/-- The later decoders do nothing about packets that were kept. -/
theorem Kept.stays (h : Kept owner packets tail start s decoder.rank done rest) (hstops : Stops tail)
    (hsize : s.readBuf.data.length < 2 ^ 31) :
    Kept owner packets tail start (decodeWith owner decoder s) (decoder.rank + 1) done rest := by
  obtain ⟨keeper, hrank, hall, hlast⟩ := h.keeper
  have htaken : taken (owns owner decoder) rest = [] := by
    by_contra hsome
    obtain ⟨packet, hpacket⟩ := List.exists_mem_of_ne_nil _ hsome
    have hmem : packet ∈ rest := by
      rw [← taken_append_leftOver (owns owner decoder) rest]
      exact List.mem_append_left _ hpacket
    have heq := (hall packet hmem).unique (owned_of_mem_taken hpacket)
    rw [heq] at hrank
    exact lt_irrefl _ hrank
  have hleft := leftOver_of_taken_nil htaken
  obtain ⟨hdata, hconsumed, hlog, hprogress, herror⟩ := decodeWith_consumed decoder
    h.data hstops hsize (by rw [hleft]; exact fun hnone ↦ h.nonempty hnone.1)
  rw [htaken, bytesOf_nil, List.length_nil, Nat.add_zero] at hconsumed
  rw [htaken, dispatches_nil, append_nil] at hlog
  rw [htaken, List.isEmpty_nil, Bool.not_true, Bool.or_false] at hprogress
  rw [hleft] at hdata
  exact ⟨⟨h.split, hdata, hconsumed.trans h.consumed, hprogress.trans h.progress, h.known⟩,
    hlog.trans h.log, herror.trans h.error, h.malformed, h.nonempty,
    keeper, by omega, hall, hlast⟩

theorem length_data (h : Front owner packets tail start s done rest)
    (hsize : (bytesOf packets ++ tail).length < 2 ^ 31) : s.readBuf.data.length < 2 ^ 31 := by
  rw [h.split, bytesOf_append, append_assoc, length_append] at hsize
  rw [h.data]
  omega

/-- What a decoder's turn makes of either case. -/
theorem decodeWith_cases (decoder : Decoder) (hstops : Stops tail) (hsize : (bytesOf packets ++ tail).length < 2 ^ 31)
    (h : (∃ done rest, Clean owner packets tail start s decoder.rank done rest) ∨
      ∃ done rest, Kept owner packets tail start s decoder.rank done rest) :
    (∃ done rest, Clean owner packets tail start (decodeWith owner decoder s) (decoder.rank + 1) done rest) ∨
      ∃ done rest, Kept owner packets tail start (decodeWith owner decoder s) (decoder.rank + 1) done rest := by
  obtain ⟨done, rest, hclean⟩ | ⟨done, rest, hkept⟩ := h
  · by_cases hbad : leftOver (owns owner decoder) rest = [] ∧ Malformed tail
    · by_cases hrest : rest = []
      · subst hrest
        exact .inl ⟨done, [], hclean.nothing_left hstops hbad.2⟩
      · exact .inr ⟨done, rest, hclean.kept hstops hbad.1 hbad.2 hrest⟩
    · exact .inl ⟨_, _, hclean.takes hstops (length_data hclean.toFront hsize) hbad⟩
  · exact .inr ⟨done, rest, hkept.stays hstops (length_data hkept.toFront hsize)⟩

variable (owner) in
/-- A pass ends clean or with kept packets. -/
theorem pass_cases (hdata : s.readBuf.data = bytesOf packets ++ tail) (hstops : Stops tail)
    (hsize : (bytesOf packets ++ tail).length < 2 ^ 31) :
    (∃ done rest, Clean owner packets tail s (pass owner s) 3 done rest) ∨
      ∃ done rest, Kept owner packets tail s (pass owner s) 3 done rest := by
  have hstart : Clean owner packets tail s { s with progress := false } 0 [] packets := by
    refine ⟨⟨rfl, hdata, rfl, rfl, by simp⟩, by simp, ?_, by simp⟩
    intro _ decoder hrank
    exact absurd hrank (Nat.not_lt_zero _)
  have hgles1 := decodeWith_cases .gles1 hstops hsize (.inl ⟨_, _, hstart⟩)
  have hgles2 := decodeWith_cases .gles2 hstops hsize hgles1
  unfold pass
  exact decodeWith_cases .renderControl hstops hsize hgles2

end Pass

theorem mem_of_append_concat {front middle init : List Packet} {first final : Packet}
    (h : front ++ first :: middle = init ++ [final]) : final ∈ first :: middle := by
  obtain hnone | ⟨before, last, hlast⟩ := eq_nil_or_concat' (first :: middle)
  · exact absurd hnone (List.cons_ne_nil _ _)
  rw [hlast, ← append_assoc] at h
  rw [hlast, List.singleton_inj.mp (List.append_inj_right' h rfl)]
  simp

/-! ## All passes -/

section Passes

variable {packets done rest : List Packet} {tail : List UInt8} {s : Decoding}

variable {fuel : ℕ}

theorem RepeatsPackets.prepend (h : RepeatsPackets owner rest tail)
    (hknown : ∀ packet ∈ done, Known owner packet) : RepeatsPackets owner (done ++ rest) tail := by
  obtain ⟨hbad, front, previous, back, earlier, decoder, hsplit, hback, hfront, hrest⟩ := h
  refine ⟨hbad, done ++ front, previous, back, earlier, decoder, by simp [hsplit], hback, ?_, hrest⟩
  intro packet hmem
  obtain hdone | hfrontMem := mem_append.mp hmem
  · exact hknown packet hdone
  · exact hfront packet hfrontMem

/-- Kept packets with progress are the ones to be repeated. -/
theorem Kept.repeats (h : Kept owner packets tail s (pass owner s) 3 done rest)
    (hdone : done ≠ []) : RepeatsPackets owner packets tail := by
  obtain ⟨decoder, _, hall, hlast⟩ := h.keeper
  obtain hnone | ⟨front, previous, hsplit⟩ := eq_nil_or_concat' done
  · exact absurd hnone hdone
  obtain ⟨earlier, howned, hrank⟩ := hlast front previous hsplit
  refine ⟨h.malformed, front, previous, rest, earlier, decoder, ?_, h.nonempty, ?_, howned, hall, hrank⟩
  · rw [h.split, hsplit, append_assoc, List.singleton_append]
  · intro packet hmem
    exact h.known packet (by rw [hsplit]; exact List.mem_append_left _ hmem)

/-- After a pass without kept packets the ones to be repeated are still ahead. -/
theorem Clean.repeats_rest (h : Clean owner packets tail s (pass owner s) 3 done rest)
    (hrepeats : RepeatsPackets owner packets tail) (hdone : done ≠ []) :
    RepeatsPackets owner rest tail := by
  obtain ⟨hbad, front, previous, back, earlier, decoder, hsplit, hback, hfront, hprevious, hall, hrank⟩ := hrepeats
  obtain hnone | ⟨init, final, hlast⟩ := eq_nil_or_concat' done
  · exact absurd hnone hdone
  obtain ⟨consumer, howned, _, hno, hhead⟩ := h.last init final hlast
  have hboth : done ++ rest = front ++ previous :: back := h.split.symm.trans hsplit
  obtain ⟨middle, hfrontEq, hrestEq⟩ | ⟨middle, hdoneEq, hbackEq⟩ := List.append_eq_append_iff.mp hboth
  · exact ⟨hbad, middle, previous, back, earlier, decoder, hrestEq, hback,
      fun packet hmem ↦ hfront packet (by rw [hfrontEq]; exact mem_append_right _ hmem),
      hprevious, hall, hrank⟩
  cases middle with
  | nil =>
    exact ⟨hbad, [], previous, back, earlier, decoder, hbackEq.symm, hback, by simp, hprevious, hall, hrank⟩
  | cons first middle =>
    -- consumed past `front`: the last consumer had its chance at the packets behind
    exfalso
    rw [List.cons_append, List.cons.injEq] at hbackEq
    obtain ⟨rfl, hbackEq⟩ := hbackEq
    have hfinal : final ∈ previous :: middle := mem_of_append_concat (hdoneEq.symm.trans hlast)
    have hle : consumer.rank ≤ decoder.rank := by
      obtain rfl | hmem := List.mem_cons.mp hfinal
      · rw [howned.unique hprevious]
        exact hrank.le
      · rw [howned.unique (hall final (by rw [hbackEq]; exact List.mem_append_left _ hmem))]
    cases rest with
    | nil => exact hno ⟨rfl, hbad⟩
    | cons packet rest =>
      exact hhead decoder hle (rank_lt decoder) packet rfl
        (hall packet (by rw [hbackEq]; exact mem_append_right _ mem_cons_self))

/-- A pass over known packets does something about them. -/
theorem Clean.done_ne_nil (h : Clean owner packets tail s (pass owner s) 3 done rest)
    (packet : Packet) (hhead : packet ∈ packets.head?) (hknown : Known owner packet) : done ≠ [] := by
  rintro rfl
  obtain ⟨decoder, howned⟩ := hknown
  have hrest : packets = rest := h.split
  exact h.untouched rfl decoder (rank_lt decoder) packet (hrest ▸ hhead) howned

/-- Packets of one decoder before a malformed header are dispatched, once, and kept. -/
theorem pass_same_owner {decoder : Decoder} (hdata : s.readBuf.data = bytesOf packets ++ tail)
    (hbad : Malformed tail) (hsize : (bytesOf packets ++ tail).length < 2 ^ 31)
    (hall : ∀ packet ∈ packets, Owned owner packet decoder) (hsome : packets ≠ []) :
    Kept owner packets tail s (pass owner s) 3 [] packets := by
  obtain ⟨done, rest, hclean⟩ | ⟨done, rest, hkept⟩ := pass_cases owner hdata (.inr (.inl hbad.2)) hsize
  · exfalso
    obtain ⟨first, others, hfirst⟩ := List.exists_cons_of_ne_nil hsome
    have hdone := hclean.done_ne_nil first (by rw [hfirst]; rfl)
      ⟨decoder, hall first (by rw [hfirst]; exact mem_cons_self)⟩
    obtain hnone | ⟨init, final, hlast⟩ := eq_nil_or_concat' done
    · exact hdone hnone
    obtain ⟨consumer, howned, _, hno, hhead⟩ := hclean.last init final hlast
    have hfinal : Owned owner final decoder := hall final (by rw [hclean.split, hlast]; simp)
    cases rest with
    | nil => exact hno ⟨rfl, hbad⟩
    | cons packet rest =>
      exact hhead decoder (by rw [howned.unique hfinal]) (rank_lt decoder) packet rfl
        (hall packet (by rw [hclean.split]; simp))
  · obtain hnone | ⟨init, final, hlast⟩ := eq_nil_or_concat' done
    · have hrest : packets = rest := by rw [hkept.split, hnone, List.nil_append]
      rw [hnone, ← hrest] at hkept
      exact hkept
    · exfalso
      obtain ⟨keeper, _, hkeeps, hbefore⟩ := hkept.keeper
      obtain ⟨earlier, howned, hrank⟩ := hbefore init final hlast
      obtain ⟨packet, hpacket⟩ := List.exists_mem_of_ne_nil _ hkept.nonempty
      have hfinal := howned.unique (hall final (by rw [hkept.split, hlast]; simp))
      have hkeeper := (hkeeps packet hpacket).unique
        (hall packet (by rw [hkept.split]; exact mem_append_right _ hpacket))
      rw [hfinal, hkeeper] at hrank
      exact lt_irrefl _ hrank

section

variable (h : Front owner packets tail s (pass owner s) done rest) (hdone : done ≠ [])
include h hdone

/-- A pass with progress shortens the buffer. -/
theorem length_rest_lt : (bytesOf rest ++ tail).length < (bytesOf packets ++ tail).length := by
  have hpos := bytesOf_pos hdone
  simp only [h.split, bytesOf_append, length_append]
  omega

theorem passes_succ_of_done (fuel : ℕ) : passes owner (fuel + 1) s = passes owner fuel (pass owner s) := by
  have hprogress : (pass owner s).progress = true := by simp [h.progress, hdone]
  rw [passes_succ, if_pos hprogress]

end

theorem passes_succ_of_not_done (h : Front owner packets tail s (pass owner s) [] rest) (fuel : ℕ) :
    passes owner (fuel + 1) s = pass owner s := by
  have hprogress : ¬ (pass owner s).progress = true := by simp [h.progress]
  rw [passes_succ, if_neg hprogress]

section

variable (hstops : Stops tail) (hdata : s.readBuf.data = bytesOf packets ++ tail)
  (hsize : (bytesOf packets ++ tail).length < 2 ^ 31) (hfuel : (bytesOf packets ++ tail).length < fuel)
include hstops hdata hsize hfuel

/-- With that much fuel the loop ends by its own condition. -/
theorem progress_passes : (passes owner fuel s).progress = false := by
  induction fuel generalizing s packets with
  | zero => exact absurd hfuel (Nat.not_lt_zero _)
  | succ fuel ih =>
    have hfront : ∃ done rest, Front owner packets tail s (pass owner s) done rest := by
      obtain ⟨done, rest, hclean⟩ | ⟨done, rest, hkept⟩ := pass_cases owner hdata hstops hsize
      · exact ⟨done, rest, hclean.toFront⟩
      · exact ⟨done, rest, hkept.toFront⟩
    obtain ⟨done, rest, hfront⟩ := hfront
    by_cases hdone : done = []
    · subst hdone
      rw [passes_succ_of_not_done hfront, hfront.progress]
      rfl
    · have hless := length_rest_lt hfront hdone
      rw [passes_succ_of_done hfront hdone]
      exact ih hfront.data (by omega) (by omega)

/-- Without packets to repeat, the loop dispatches the packets at the front, each once, and unless
it reports an error they are what has been consumed. -/
theorem passes_once (h : ¬ RepeatsPackets owner packets tail) : ∃ executed left, packets = executed ++ left ∧
      (passes owner fuel s).log = s.log ++ dispatches s.consumed executed ∧
      ((passes owner fuel s).packetLen_error = false → (passes owner fuel s).readBuf.data = bytesOf left ++ tail ∧
          (passes owner fuel s).consumed = s.consumed + (bytesOf executed).length) := by
  induction fuel generalizing s packets with
  | zero => exact absurd hfuel (Nat.not_lt_zero _)
  | succ fuel ih =>
    obtain ⟨done, rest, hclean⟩ | ⟨done, rest, hkept⟩ := pass_cases owner hdata hstops hsize
    · by_cases hdone : done = []
      · subst hdone
        rw [passes_succ_of_not_done hclean.toFront]
        exact ⟨[], rest, hclean.split, hclean.log, fun _ ↦ ⟨hclean.data, hclean.consumed⟩⟩
      · have hless := length_rest_lt hclean.toFront hdone
        rw [passes_succ_of_done hclean.toFront hdone]
        obtain ⟨executed, left, hsplit, hlog, hrest⟩ := ih hclean.data (by omega) (by omega)
          fun hrepeats ↦ h (by rw [hclean.split]; exact hrepeats.prepend hclean.known)
        refine ⟨done ++ executed, left, ?_, ?_, fun herror ↦ ?_⟩
        · rw [hclean.split, hsplit, append_assoc]
        · rw [hlog, hclean.log, hclean.consumed, dispatches_append, append_assoc]
        · obtain ⟨hleft, hconsumed⟩ := hrest herror
          refine ⟨hleft, ?_⟩
          rw [hconsumed, hclean.consumed, bytesOf_append, length_append, Nat.add_assoc]
    · by_cases hdone : done = []
      · subst hdone
        rw [passes_succ_of_not_done hkept.toFront]
        refine ⟨packets, [], by simp, hkept.log, fun herror ↦ ?_⟩
        rw [hkept.error] at herror
        cases herror
      · exact absurd (hkept.repeats hdone) h

end

/-- Packets to repeat are dispatched twice, at the same offsets, before the error is reported. -/
theorem passes_twice (hdata : s.readBuf.data = bytesOf packets ++ tail)
    (hsize : (bytesOf packets ++ tail).length < 2 ^ 31) (hfuel : (bytesOf packets ++ tail).length < fuel)
    (h : RepeatsPackets owner packets tail) :
    (passes owner fuel s).packetLen_error = true ∧ ∃ before offset repeated, repeated ≠ [] ∧
      (passes owner fuel s).log = before ++ dispatches offset repeated ++ dispatches offset repeated := by
  have hstops : Stops tail := .inr (.inl h.1.2)
  induction fuel generalizing s packets with
  | zero => exact absurd hfuel (Nat.not_lt_zero _)
  | succ fuel ih =>
    obtain ⟨done, rest, hclean⟩ | ⟨done, rest, hkept⟩ := pass_cases owner hdata hstops hsize
    · have hdone : done ≠ [] := by
        obtain ⟨_, front, previous, back, earlier, _, hsplit, _, hfront, hprevious, _⟩ := h
        cases front with
        | nil => exact hclean.done_ne_nil previous (by rw [hsplit]; rfl) ⟨earlier, hprevious⟩
        | cons first front =>
          exact hclean.done_ne_nil first (by rw [hsplit]; rfl) (hfront first mem_cons_self)
      have hless := length_rest_lt hclean.toFront hdone
      rw [passes_succ_of_done hclean.toFront hdone]
      exact ih hclean.data (by omega) (by omega) (hclean.repeats_rest h hdone)
    · obtain ⟨decoder, _, hall, _⟩ := hkept.keeper
      have hdone : done ≠ [] := by
        rintro rfl
        obtain ⟨_, front, previous, back, earlier, later, hsplit, hback, _, hprevious, hlater, hrank⟩ := h
        obtain ⟨packet, hpacket⟩ := List.exists_mem_of_ne_nil _ hback
        have hrest : rest = front ++ previous :: back := hkept.split.symm.trans hsplit
        have hfirst := hprevious.unique (hall previous (by rw [hrest]; simp))
        have hsecond := (hlater packet hpacket).unique (hall packet (by rw [hrest]; simp [hpacket]))
        rw [hfirst, hsecond] at hrank
        exact lt_irrefl _ hrank
      have hless := length_rest_lt hkept.toFront hdone
      obtain ⟨fuel, rfl⟩ : ∃ less, fuel = less + 1 := ⟨fuel - 1, by omega⟩
      have hagain := pass_same_owner hkept.data hkept.malformed (by omega) hall hkept.nonempty
      rw [passes_succ_of_done hkept.toFront hdone, passes_succ_of_not_done hagain.toFront]
      refine ⟨hagain.error, s.log ++ dispatches s.consumed done, (pass owner s).consumed, rest, hkept.nonempty, ?_⟩
      rw [hagain.log, hkept.log, hkept.split, dispatches_append, hkept.consumed]
      simp only [append_assoc]

/-- Whatever is dispatched is among the packets at the front of the buffer. -/
theorem mem_log_passes (hstops : Stops tail) (hdata : s.readBuf.data = bytesOf packets ++ tail)
    (hsize : (bytesOf packets ++ tail).length < 2 ^ 31) {dispatch : Dispatch}
    (h : dispatch ∈ (passes owner fuel s).log) :
    dispatch ∈ s.log ∨ dispatch ∈ dispatches s.consumed packets := by
  induction fuel generalizing s packets with
  | zero =>
    rw [passes_zero] at h
    exact .inl h
  | succ fuel ih =>
    have hpass : ∃ done rest, Front owner packets tail s (pass owner s) done rest ∧ ∀ dispatch ∈ (pass owner s).log,
          dispatch ∈ s.log ∨ dispatch ∈ dispatches s.consumed packets := by
      obtain ⟨done, rest, hclean⟩ | ⟨done, rest, hkept⟩ := pass_cases owner hdata hstops hsize
      · refine ⟨done, rest, hclean.toFront, fun dispatch hmem ↦ ?_⟩
        rw [hclean.log, mem_append] at hmem
        rw [hclean.split, dispatches_append]
        exact hmem.imp_right (List.mem_append_left _)
      · refine ⟨done, rest, hkept.toFront, fun dispatch hmem ↦ ?_⟩
        rwa [hkept.log, mem_append] at hmem
    obtain ⟨done, rest, hfront, hnew⟩ := hpass
    by_cases hdone : done = []
    · subst hdone
      rw [passes_succ_of_not_done hfront] at h
      exact hnew dispatch h
    · have hless := length_rest_lt hfront hdone
      rw [passes_succ_of_done hfront hdone] at h
      obtain hold | hrest := ih hfront.data (by omega) h
      · exact hnew dispatch hold
      · right
        rw [hfront.consumed] at hrest
        rw [hfront.split, dispatches_append]
        exact mem_append_right _ hrest

end Passes

/-! ## Whole runs -/

/-- A complete well-formed packet of the stream begins at the dispatched offset. -/
def IsPacketAt (stream : List UInt8) (dispatch : Dispatch) : Prop :=
  ∃ (before : List UInt8) (packet : Packet) (after : List UInt8),
    stream = before ++ packet.bytes ++ after ∧ before.length = dispatch.offset ∧ packet.bytes = dispatch.packet

/-- The buffer is the part of the stream from the consumed bytes on, and everything dispatched is a
packet of the stream. -/
structure Placed (stream : List UInt8) (t : Thread) : Prop where
  position : ∃ before, before.length = t.consumed ∧ stream = before ++ t.readBuf.data ++ t.stream.flatten
  packets : ∀ dispatch ∈ t.log, IsPacketAt stream dispatch

/-- Every packet has been dispatched at most once, in stream order. -/
def InOrder (log : List Dispatch) : Prop := log.Pairwise fun first second ↦ first.offset < second.offset

/-- Dispatched in order, and all of it consumed. -/
structure Settled (t : Thread) : Prop where
  inOrder : InOrder t.log
  consumed : ∀ dispatch ∈ t.log, dispatch.offset < t.consumed

theorem isPacketAt_dispatches {stream before after : List UInt8} {packets : List Packet}
    (h : stream = before ++ bytesOf packets ++ after) {dispatch : Dispatch}
    (hmem : dispatch ∈ dispatches before.length packets) : IsPacketAt stream dispatch := by
  induction packets generalizing before with
  | nil => simp at hmem
  | cons packet packets ih =>
    obtain rfl | hrest := List.mem_cons.mp hmem
    · exact ⟨before, packet, bytesOf packets ++ after, by simp [h], rfl, rfl⟩
    · rw [← length_append] at hrest
      exact ih (by simp [h]) hrest

variable {malloc : ℕ → Bool} {stream : List UInt8} {t filled : Thread}

theorem fill_receives (h : fill malloc t = some filled) :
    ReadBuffer.Receives t.readBuf.data t.stream filled.readBuf.data filled.stream ∧
      filled.consumed = t.consumed ∧ filled.log = t.log := by
  unfold fill at h
  simp only at h
  generalize (if t.readBuf.validData ≥ 8 then packetLen t.readBuf.data else 8) = packetSize at h
  split_ifs at h with hcrash hmore hend
  · cases h
    exact ⟨t.readBuf.receives_getData malloc packetSize t.stream, rfl, rfl⟩
  · cases h
    exact ⟨⟨[], by simp, by simp⟩, rfl, rfl⟩

theorem Placed.fill (h : Placed stream t) (hfill : fill malloc t = some filled) : Placed stream filled := by
  obtain ⟨⟨received, hdata, hchunks⟩, hconsumed, hlog⟩ := fill_receives hfill
  obtain ⟨before, hlength, hstream⟩ := h.position
  refine ⟨⟨before, hlength.trans hconsumed.symm, ?_⟩, fun dispatch hmem ↦ h.packets dispatch (hlog ▸ hmem)⟩
  rw [hstream, hchunks, hdata]
  simp only [append_assoc]

theorem Settled.fill (h : Settled t) (hfill : fill malloc t = some filled) : Settled filled := by
  obtain ⟨_, hconsumed, hlog⟩ := fill_receives hfill
  exact ⟨hlog ▸ h.inOrder, hlog ▸ hconsumed ▸ h.consumed⟩

theorem decoding_eq_passes (t : Thread) :
    t.decoding owner = passes owner (t.readBuf.data.length + 1) t.undecoded := rfl

/-- The decoders' loop has enough fuel in every turn. -/
theorem progress_decoding (hsize : t.readBuf.data.length < 2 ^ 31) : (t.decoding owner).progress = false := by
  obtain ⟨packets, tail, hdata, hstops⟩ := exists_packets t.readBuf.data
  rw [decoding_eq_passes]
  rw [hdata] at hsize ⊢
  exact progress_passes hstops hdata hsize (Nat.lt_succ_self _)

variable (owner) in
theorem mem_log_decoding (h : Placed stream t) (hsize : t.readBuf.data.length < 2 ^ 31) :
    ∀ dispatch ∈ (t.decoding owner).log, IsPacketAt stream dispatch := by
  intro dispatch hmem
  obtain ⟨packets, tail, hdata, hstops⟩ := exists_packets t.readBuf.data
  obtain ⟨before, hlength, hstream⟩ := h.position
  rw [decoding_eq_passes] at hmem
  rw [hdata] at hsize hstream
  obtain hold | hnew := mem_log_passes (s := t.undecoded) hstops hdata hsize hmem
  · exact h.packets dispatch hold
  · have hplace : stream = before ++ bytesOf packets ++ (tail ++ t.stream.flatten) := by
      rw [hstream]
      simp only [append_assoc]
    refine isPacketAt_dispatches hplace ?_
    rw [hlength]
    exact hnew

/-- A turn of the decoders over a buffer without packets to repeat. -/
theorem decoded_once (hplaced : Placed stream t) (hsettled : Settled t)
    (hsize : t.readBuf.data.length < 2 ^ 31) (h : ¬ Repeats owner t.readBuf.data) :
    InOrder (t.decoding owner).log ∧ ((t.decoding owner).packetLen_error = false →
      Placed stream ((t.decoding owner).toThread t.stream) ∧ Settled ((t.decoding owner).toThread t.stream)) := by
  obtain ⟨packets, tail, hdata, hstops⟩ := exists_packets t.readBuf.data
  have hsize' : (bytesOf packets ++ tail).length < 2 ^ 31 := by rwa [← hdata]
  obtain ⟨executed, left, hsplit, hlog, hrest⟩ := passes_once (s := t.undecoded)
    hstops hdata hsize' (Nat.lt_succ_self _) fun hrepeats ↦ h ⟨packets, tail, hdata, hrepeats⟩
  rw [← hdata, ← decoding_eq_passes] at hlog hrest
  change (t.decoding owner).log = t.log ++ dispatches t.consumed executed at hlog
  have hinOrder : InOrder (t.decoding owner).log := by
    rw [hlog, InOrder, List.pairwise_append]
    refine ⟨hsettled.inOrder, pairwise_dispatches _ _, fun first hfirst second hsecond ↦ ?_⟩
    exact Nat.lt_of_lt_of_le (hsettled.consumed first hfirst) (offset_dispatches hsecond).1
  refine ⟨hinOrder, fun herror ↦ ?_⟩
  obtain ⟨hleft, hconsumed⟩ := hrest herror
  change (t.decoding owner).consumed = t.consumed + _ at hconsumed
  refine ⟨⟨?_, ?_⟩, ?_, ?_⟩
  · obtain ⟨before, hlength, hstream⟩ := hplaced.position
    refine ⟨before ++ bytesOf executed, ?_, ?_⟩
    · rw [length_append, hlength, consumed_toThread, hconsumed]
    · rw [data_toThread, stream_toThread, hleft, hstream, hdata, hsplit, bytesOf_append]
      simp only [append_assoc]
  · rw [log_toThread]
    exact mem_log_decoding owner hplaced hsize
  · rw [log_toThread]
    exact hinOrder
  · intro dispatch hmem
    rw [log_toThread, hlog, mem_append] at hmem
    rw [consumed_toThread, hconsumed]
    obtain hold | hnew := hmem
    · exact Nat.lt_add_right _ (hsettled.consumed dispatch hold)
    · exact (offset_dispatches hnew).2

theorem decoded_twice (hsize : t.readBuf.data.length < 2 ^ 31) (h : Repeats owner t.readBuf.data) :
    ¬ InOrder (t.decoding owner).log ∧ (t.decoding owner).packetLen_error = true := by
  obtain ⟨packets, tail, hdata, hrepeats⟩ := h
  have hsize' : (bytesOf packets ++ tail).length < 2 ^ 31 := by rwa [← hdata]
  obtain ⟨herror, before, offset, repeated, hsome, hlog⟩ :=
    passes_twice (s := t.undecoded) hdata hsize' (Nat.lt_succ_self _) hrepeats
  rw [← hdata, ← decoding_eq_passes] at herror hlog
  refine ⟨fun hinOrder ↦ ?_, herror⟩
  rw [hlog, InOrder, List.pairwise_append] at hinOrder
  obtain ⟨packet, packets, rfl⟩ := List.exists_cons_of_ne_nil hsome
  have hless := hinOrder.2.2 ⟨offset, packet.bytes⟩ (mem_append_right _ mem_cons_self)
    ⟨offset, packet.bytes⟩ mem_cons_self
  exact lt_irrefl _ hless

/-- From a settled state: what a run dispatches, and when in order. -/
theorem mainLoop_inOrder_iff (turns : ℕ) (hplaced : Placed stream t) (hsettled : Settled t)
    (hsize : ∀ buf ∈ handed owner malloc turns t, buf.length < 2 ^ 31) :
    (∀ dispatch ∈ (mainLoop owner malloc turns t).log, IsPacketAt stream dispatch) ∧
      (InOrder (mainLoop owner malloc turns t).log ↔ ∀ buf ∈ handed owner malloc turns t, ¬ Repeats owner buf) := by
  induction turns generalizing t with
  | zero => exact ⟨hplaced.packets, by simpa [mainLoop, handed] using hsettled.inOrder⟩
  | succ turns ih =>
    unfold handed at hsize
    unfold mainLoop handed
    cases hfill : fill malloc t with
    | none => exact ⟨hplaced.packets, by simpa using hsettled.inOrder⟩
    | some filled =>
      simp only [hfill, List.forall_mem_cons] at hsize ⊢
      have hfilled := hplaced.fill hfill
      have hpackets := mem_log_decoding owner hfilled hsize.1
      by_cases hrepeats : Repeats owner filled.readBuf.data
      · obtain ⟨hnot, herror⟩ := decoded_twice hsize.1 hrepeats
        rw [if_pos herror, log_toThread]
        exact ⟨hpackets, fun hinOrder ↦ absurd hinOrder hnot, fun hall ↦ absurd hrepeats hall.1⟩
      · obtain ⟨hinOrder, hnext⟩ := decoded_once hfilled (hsettled.fill hfill) hsize.1 hrepeats
        cases herror : (filled.decoding owner).packetLen_error with
        | true =>
          rw [if_pos rfl, if_pos rfl, log_toThread]
          exact ⟨hpackets, fun _ ↦ ⟨hrepeats, by simp⟩, fun _ ↦ hinOrder⟩
        | false =>
          simp only [herror, Bool.false_eq_true, if_false] at hsize ⊢
          obtain ⟨hplacedNext, hsettledNext⟩ := hnext herror
          obtain ⟨hall, hiff⟩ := ih hplacedNext hsettledNext hsize.2
          exact ⟨hall, hiff.trans ⟨fun hrest ↦ ⟨hrepeats, hrest⟩, fun hrest ↦ hrest.2⟩⟩

theorem Placed.new (stream : List (List UInt8)) : Placed stream.flatten (Thread.new stream) :=
  ⟨⟨[], rfl, rfl⟩, by simp [Thread.new]⟩

theorem Settled.new (stream : List (List UInt8)) : Settled (Thread.new stream) :=
  ⟨List.Pairwise.nil, by simp [Thread.new]⟩

end Once

/-- Whatever the guest sends, in whatever chunks, and however the op codes are assigned: as long as
the buffers stay below 2^31 bytes the thread dispatches packets of the stream only, and it does so
at most once and in order exactly when no buffer ends in packets to repeat. -/
theorem dispatched_once_iff (owner : UInt32 → Option Decoder) (malloc : ℕ → Bool)
    (stream : List (List UInt8)) (turns : ℕ)
    (hsize : ∀ buf ∈ handed owner malloc turns (Thread.new stream), buf.length < 2 ^ 31) :
    (∀ dispatch ∈ (mainLoop owner malloc turns (Thread.new stream)).log,
        IsPacketAt stream.flatten dispatch) ∧
      (InOrder (mainLoop owner malloc turns (Thread.new stream)).log ↔
        ∀ buf ∈ handed owner malloc turns (Thread.new stream), ¬ Repeats owner buf) :=
  mainLoop_inOrder_iff turns (.new stream) (.new stream) hsize

instance (log : List Dispatch) : Decidable (InOrder log) := inferInstanceAs (Decidable (log.Pairwise _))

/-- `OP_glAlphaFunc`, `OP_glActiveTexture` and `OP_rcGetRendererVersion` with their decoders. -/
def sampleOwner (opcode : UInt32) : Option Decoder :=
  if opcode = 1024 then some .gles1
  else if opcode = 2048 then some .gles2
  else if opcode = 10000 then some .renderControl
  else none

/-- `glActiveTexture`, `glAlphaFunc` cut in two, and a header with length 4. -/
def gles2ThenGles1 : List (List UInt8) := [[0, 8, 0, 0, 12, 0, 0, 0, 192, 132, 0, 0, 0, 4, 0],
    [0, 16, 0, 0, 0, 0, 2, 0, 0, 0, 0, 0, 63, 0, 4, 0, 0, 4, 0, 0, 0]]

theorem dispatched_once_gles2_first :
    (∀ buf ∈ handed sampleOwner (fun _ ↦ true) 3 (Thread.new gles2ThenGles1), buf.length < 2 ^ 31) ∧
      ∀ buf ∈ handed sampleOwner (fun _ ↦ true) 3 (Thread.new gles2ThenGles1),
        ¬ Repeats sampleOwner buf := by
  have hsize : ∀ buf ∈ handed sampleOwner (fun _ ↦ true) 3 (Thread.new gles2ThenGles1),
      buf.length < 2 ^ 31 := by decide +kernel
  exact ⟨hsize, (dispatched_once_iff sampleOwner (fun _ ↦ true) gles2ThenGles1 3 hsize).2.mp
    (by decide +kernel)⟩

/-- `glAlphaFunc`, `glActiveTexture` and a header with length 4, in one chunk. -/
def gles1ThenGles2 : List (List UInt8) :=
  [[0, 4, 0, 0, 16, 0, 0, 0, 0, 2, 0, 0, 0, 0, 0, 63, 0, 8, 0, 0, 12, 0, 0, 0, 192, 132, 0, 0,
    0, 8, 0, 0, 4, 0, 0, 0]]

/-- The texture command at offset 16 is dispatched twice before the thread exits. -/
theorem dispatched_twice_gles1_first :
    ((mainLoop sampleOwner (fun _ ↦ true) 1 (Thread.new gles1ThenGles2)).log.map Dispatch.offset =
        [0, 16, 16]) ∧
      ¬ InOrder (mainLoop sampleOwner (fun _ ↦ true) 1 (Thread.new gles1ThenGles2)).log := by
  decide +kernel

end FdeEmugl.Render
