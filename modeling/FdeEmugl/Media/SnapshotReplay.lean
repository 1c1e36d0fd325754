import FdeEmugl.Library.ReplayLog
import FdeEmugl.Media.FrameParsers
import FdeEmugl.Media.VpxDecoder

/-!
# Replay after a snapshot

`MediaSnapshotHelper` keeps what a decoder needs to go on after a snapshot has been loaded:
for H.264 the parameter sets and the packets since the last IDR slice, for VP8 and VP9 the
packets since the last key frame. `replay` passes nothing on without an SPS, so nothing at
all for VP8 and VP9; any PPS drops the packets before it; and a load puts the pending frames
behind those that the helper has.
-/

namespace FdeEmugl.Media

open FdeEmugl.Stream ReplayLog H264NaluParser
open List (append_nil nil_append)

inductive CodecType where
  | H264
  | VP8
  | VP9
deriving Repr, DecidableEq

structure MediaSnapshotHelper where
  mType : CodecType
  mSnapshotState : MediaSnapshotState
deriving Repr, DecidableEq

namespace MediaSnapshotHelper

def new (type : CodecType) : MediaSnapshotHelper := ⟨type, .new⟩

def saveVPXPacket (data : List UInt8) (user_priv : UInt64) (helper : MediaSnapshotHelper) : MediaSnapshotHelper :=
  let fparser := VpxFrameParser.parse (if helper.mType = .VP8 then 8 else 9) data
  let state := helper.mSnapshotState
  let state := if fparser.isKeyFrame then { state with savedPackets := [] } else state
  { helper with mSnapshotState := state.savePacket data user_priv }

def saveH264Packet (frame : List UInt8) (inputPts : UInt64) (helper : MediaSnapshotHelper) : MediaSnapshotHelper :=
  let state := helper.mSnapshotState
  if checkSpsFrame frame then
    { helper with mSnapshotState := { MediaSnapshotState.new with savedFrames := state.savedFrames }.saveSps frame }
  else if checkPpsFrame frame then
    { helper with mSnapshotState := { state.savePps frame with
          savedPackets := []
          savedDecodedFrame := { state.savedDecodedFrame with data := [] } } }
  else
    let state := if checkIFrame frame then { state with savedPackets := [] } else state
    { helper with mSnapshotState := state.savePacket frame inputPts }

def savePacket (data : List UInt8) (pts : UInt64) (helper : MediaSnapshotHelper) : MediaSnapshotHelper :=
  if helper.mType = .H264 then helper.saveH264Packet data pts else helper.saveVPXPacket data pts

def save (helper : MediaSnapshotHelper) : List UInt8 := putBe32 (match helper.mType with
    | .H264 => 264
    | .VP8 => 8
    | .VP9 => 9) ++ helper.mSnapshotState.save

/-- The calls of `oneShotDecode`, in order. -/
def replay (helper : MediaSnapshotHelper) : List PacketInfo :=
  let state := helper.mSnapshotState
  if state.sps.length > 0 then
    ⟨state.sps, 0⟩ ::
      if state.pps.length > 0 then ⟨state.pps, 0⟩ :: state.savedPackets else []
  else []

/-- The helper after the load, with the calls of `oneShotDecode`. -/
def load (stream : List UInt8) (helper : MediaSnapshotHelper) :
    Option (MediaSnapshotHelper × List PacketInfo × List UInt8) := do
  let (type, stream) := getBe32 stream
  let mType :=
    if type = 264 then .H264
    else if type = 8 then .VP8
    else if type = 9 then .VP9
    else helper.mType
  let (state, stream) ← helper.mSnapshotState.load stream
  let helper : MediaSnapshotHelper := ⟨mType, state⟩
  some (helper, helper.replay, stream)

end MediaSnapshotHelper

open MediaSnapshotHelper

/-! ## Sessions -/

/-- What a decoder does with its helper between two snapshots. -/
inductive Event where
  | savePacket (pkt : PacketInfo)
  | saveDecodedFrame (frame : FrameInfo)
  | discardFrontFrame
deriving Repr, DecidableEq

def step (helper : MediaSnapshotHelper) : Event → MediaSnapshotHelper
  | .savePacket pkt => helper.savePacket pkt.data pkt.pts
  | .saveDecodedFrame frame => { helper with mSnapshotState := helper.mSnapshotState.saveDecodedFrame frame }
  | .discardFrontFrame => { helper with mSnapshotState := helper.mSnapshotState.discardFrontFrame }

def session (codec : CodecType) (events : List Event) : MediaSnapshotHelper := events.foldl step (.new codec)

def Event.packet : Event → Option PacketInfo
  | .savePacket pkt => some pkt
  | _ => none

/-- The packets given to `savePacket`. -/
def packetsOf (events : List Event) : List PacketInfo := events.filterMap Event.packet

/-! ## What a replay should pass on -/

def isSps (pkt : PacketInfo) : Bool := startsWithUnit SPS pkt.data

def isPps (pkt : PacketInfo) : Bool := startsWithUnit PPS pkt.data

def isIdr (pkt : PacketInfo) : Bool := startsWithUnit CodedSliceIDR pkt.data

/-- A packet with the same non-zero pts as the one before it. -/
def samePts (previous pkt : PacketInfo) : Bool := 0 < pkt.pts && pkt.pts = previous.pts

/-- Where decoding can begin, by the definition of each bitstream. -/
def CodecType.beginsDecoding : CodecType → PacketInfo → Bool
  | .H264, pkt => isIdr pkt
  | .VP8, pkt => vp8KeyFrame pkt.data
  | .VP9, pkt => vp9KeyFrame pkt.data

def CodecType.isParameterSet : CodecType → PacketInfo → Bool
  | .H264, pkt => isSps pkt || isPps pkt
  | _, _ => false

/-- An IDR slice is of no other type. -/
theorem idr_ne_set {type : H264NaluType} {pkt : PacketInfo} (hdefined : type ≠ Undefined)
    (hne : type ≠ CodedSliceIDR) (hidr : isIdr pkt = true) : startsWithUnit type pkt.data ≠ true := by
  intro hset
  have htype := (getFrameNaluType_eq_iff hdefined).mpr hset
  rw [(getFrameNaluType_eq_iff (by decide)).mpr hidr] at htype
  exact hne htype.symm

def CodecType.policy (codec : CodecType) : Policy PacketInfo where
  isMark := codec.isParameterSet
  isFresh := codec.beginsDecoding
  repeats := samePts
  fresh_not_mark pkt hfresh := by
    cases codec with
    | H264 =>
      by_contra hmark
      have hset : CodecType.H264.isParameterSet pkt = true := by simpa using hmark
      obtain hsps | hpps := Bool.or_eq_true_iff.mp hset
      · exact idr_ne_set (by decide) (by decide) hfresh hsps
      · exact idr_ne_set (by decide) (by decide) hfresh hpps
    | VP8 => rfl
    | VP9 => rfl
  repeats_trans first second hsame third := by
    have hpts : second.pts = first.pts := by
      simpa using (Bool.and_eq_true_iff.mp hsame).2
    simp only [samePts, hpts]

def lastSps (packets : List PacketInfo) : Option PacketInfo := (packets.filter isSps).getLast?

/-- The last PPS after the last SPS. -/
def lastPps (packets : List PacketInfo) : Option PacketInfo :=
  ((packets.rtakeWhile fun pkt ↦ !isSps pkt).filter isPps).getLast?

/-- The packets from the last IDR slice or key frame on, from the first one if there is none, without
parameter sets and without packets with the same non-zero pts as their predecessor. -/
def slices (codec : CodecType) (packets : List PacketInfo) : List PacketInfo :=
  codec.policy.kept none (codec.policy.sinceFresh packets)

def parameterSets (packets : List PacketInfo) : List PacketInfo :=
  match lastSps packets with
  | none => []
  | some sps => sps :: (lastPps packets).toList

def expected (codec : CodecType) (packets : List PacketInfo) : List PacketInfo :=
  match codec with
  | .H264 => parameterSets packets ++ slices .H264 packets
  | codec => slices codec packets

/-! ## What is kept -/

section Kept

variable {codec : CodecType} {packets : List PacketInfo} {pkt : PacketInfo} {helper : MediaSnapshotHelper}

theorem checkSpsFrame_eq (pkt : PacketInfo) : checkSpsFrame pkt.data = isSps pkt := by
  rw [Bool.eq_iff_iff, checkSpsFrame, decide_eq_true_eq]
  exact getFrameNaluType_eq_iff (by decide)

theorem checkPpsFrame_eq (pkt : PacketInfo) : checkPpsFrame pkt.data = isPps pkt := by
  rw [Bool.eq_iff_iff, checkPpsFrame, decide_eq_true_eq]
  exact getFrameNaluType_eq_iff (by decide)

theorem checkIFrame_eq (pkt : PacketInfo) : checkIFrame pkt.data = isIdr pkt := by
  rw [Bool.eq_iff_iff, checkIFrame, decide_eq_true_eq]
  exact getFrameNaluType_eq_iff (by decide)

theorem savedPackets_savePacket (state : MediaSnapshotState) (pkt : PacketInfo) :
    (state.savePacket pkt.data pkt.pts).savedPackets =
      if state.savedPackets.getLast?.any (samePts · pkt) then state.savedPackets
      else state.savedPackets ++ [pkt] := by
  have hsame : (decide (0 < pkt.pts) && state.savedPackets.getLast?.any (pkt.pts = ·.pts)) =
      state.savedPackets.getLast?.any (samePts · pkt) := by
    cases state.savedPackets.getLast? with
    | none => exact Bool.and_false _
    | some last => rfl
  unfold MediaSnapshotState.savePacket
  rw [hsame]
  split_ifs <;> rfl

/-- The log of a VP8 or VP9 helper, by what the parser takes for a key frame. -/
def vpxLog (codec : CodecType) : Policy PacketInfo where
  isMark := fun _ ↦ false
  isFresh := fun pkt ↦ (VpxFrameParser.parse (if codec = .VP8 then 8 else 9) pkt.data).isKeyFrame
  repeats := samePts
  fresh_not_mark := fun _ _ ↦ rfl
  repeats_trans := CodecType.VP8.policy.repeats_trans

theorem savedPackets_saveVPXPacket (helper : MediaSnapshotHelper) (pkt : PacketInfo) :
    (helper.saveVPXPacket pkt.data pkt.pts).mSnapshotState.savedPackets =
      (vpxLog helper.mType).record helper.mSnapshotState.savedPackets pkt := by
  unfold saveVPXPacket Policy.record
  simp only [savedPackets_savePacket, vpxLog]
  split_ifs <;> simp_all

theorem savedPackets_saveH264Packet (helper : MediaSnapshotHelper) (pkt : PacketInfo) :
    (helper.saveH264Packet pkt.data pkt.pts).mSnapshotState.savedPackets =
      CodecType.H264.policy.record helper.mSnapshotState.savedPackets pkt := by
  have hmark : CodecType.H264.policy.isMark pkt = (isSps pkt || isPps pkt) := rfl
  have hfresh : CodecType.H264.policy.isFresh pkt = isIdr pkt := rfl
  have hrepeats : CodecType.H264.policy.repeats = samePts := rfl
  unfold saveH264Packet Policy.record
  rw [checkSpsFrame_eq, checkPpsFrame_eq, checkIFrame_eq, hmark, hfresh, hrepeats]
  cases isSps pkt with
  | true => rfl
  | false =>
    cases isPps pkt with
    | true => rfl
    | false =>
      cases isIdr pkt with
      | true => exact savedPackets_savePacket { helper.mSnapshotState with savedPackets := [] } pkt
      | false => exact savedPackets_savePacket helper.mSnapshotState pkt

theorem savePacket_sps (state : MediaSnapshotState) (data : List UInt8) (pts : UInt64) :
    (state.savePacket data pts).sps = state.sps ∧ (state.savePacket data pts).pps = state.pps := by
  unfold MediaSnapshotState.savePacket
  split_ifs <;> exact ⟨rfl, rfl⟩

theorem sps_saveH264Packet (helper : MediaSnapshotHelper) (pkt : PacketInfo) :
    (helper.saveH264Packet pkt.data pkt.pts).mSnapshotState.sps =
        (if isSps pkt then pkt.data else helper.mSnapshotState.sps) ∧
      (helper.saveH264Packet pkt.data pkt.pts).mSnapshotState.pps =
        if isSps pkt then [] else if isPps pkt then pkt.data else helper.mSnapshotState.pps := by
  unfold saveH264Packet
  rw [checkSpsFrame_eq, checkPpsFrame_eq, checkIFrame_eq]
  cases isSps pkt with
  | true => exact ⟨rfl, rfl⟩
  | false =>
    cases isPps pkt with
    | true => exact ⟨rfl, rfl⟩
    | false =>
      cases isIdr pkt with
      | true => exact savePacket_sps { helper.mSnapshotState with savedPackets := [] } pkt.data pkt.pts
      | false => exact savePacket_sps helper.mSnapshotState pkt.data pkt.pts

theorem lastSps_concat (packets : List PacketInfo) (pkt : PacketInfo) :
    lastSps (packets ++ [pkt]) = if isSps pkt then some pkt else lastSps packets := by
  unfold lastSps
  rw [List.filter_append]
  cases hsps : isSps pkt with
  | true => simp [hsps]
  | false => simp [hsps]

theorem lastPps_concat (packets : List PacketInfo) (pkt : PacketInfo) : lastPps (packets ++ [pkt]) =
      if isSps pkt then none else if isPps pkt then some pkt else lastPps packets := by
  unfold lastPps
  cases hsps : isSps pkt with
  | true =>
    rw [List.rtakeWhile_concat_neg _ _ _ (by simp [hsps])]
    rfl
  | false =>
    rw [List.rtakeWhile_concat_pos _ _ _ (by simp [hsps]), List.filter_append]
    cases hpps : isPps pkt with
    | true => simp [hpps]
    | false => simp [hpps]

/-- What a helper holds after these packets. -/
structure Holds (codec : CodecType) (packets : List PacketInfo) (helper : MediaSnapshotHelper) : Prop where
  type : helper.mType = codec
  sps : helper.mSnapshotState.sps =
    if codec = .H264 then ((lastSps packets).map PacketInfo.data).getD [] else []
  pps : helper.mSnapshotState.pps =
    if codec = .H264 then ((lastPps packets).map PacketInfo.data).getD [] else []
  packets : helper.mSnapshotState.savedPackets =
    packets.foldl (if codec = .H264 then codec.policy else vpxLog codec).record []

theorem mType_savePacket (helper : MediaSnapshotHelper) (data : List UInt8) (pts : UInt64) :
    (helper.savePacket data pts).mType = helper.mType := by
  unfold MediaSnapshotHelper.savePacket saveH264Packet saveVPXPacket
  simp only
  split_ifs <;> rfl

theorem holds_savePacket_h264 (h : Holds .H264 packets helper) (pkt : PacketInfo) :
    Holds .H264 (packets ++ [pkt]) (helper.savePacket pkt.data pkt.pts) := by
  have hstep : helper.savePacket pkt.data pkt.pts = helper.saveH264Packet pkt.data pkt.pts := if_pos h.type
  obtain ⟨hsps, hpps⟩ := sps_saveH264Packet helper pkt
  refine ⟨(mType_savePacket ..).trans h.type, ?_, ?_, ?_⟩
  · rw [hstep, hsps, h.sps, lastSps_concat, if_pos rfl, if_pos rfl]
    cases isSps pkt <;> rfl
  · rw [hstep, hpps, h.pps, lastPps_concat, if_pos rfl, if_pos rfl]
    cases isSps pkt with
    | true => rfl
    | false => cases isPps pkt <;> rfl
  · rw [hstep, savedPackets_saveH264Packet, h.packets, List.foldl_concat]
    rfl

theorem holds_savePacket_vpx (hcodec : codec ≠ .H264) (h : Holds codec packets helper) (pkt : PacketInfo) :
    Holds codec (packets ++ [pkt]) (helper.savePacket pkt.data pkt.pts) := by
  have hstep : helper.savePacket pkt.data pkt.pts = helper.saveVPXPacket pkt.data pkt.pts := if_neg (h.type ▸ hcodec)
  have hsets := savePacket_sps (if (VpxFrameParser.parse (if helper.mType = .VP8 then 8 else 9)
    pkt.data).isKeyFrame then { helper.mSnapshotState with savedPackets := [] }
      else helper.mSnapshotState) pkt.data pkt.pts
  refine ⟨(mType_savePacket ..).trans h.type, ?_, ?_, ?_⟩
  · rw [hstep, if_neg hcodec]
    refine hsets.1.trans ?_
    have hempty := h.sps
    rw [if_neg hcodec] at hempty
    split_ifs <;> exact hempty
  · rw [hstep, if_neg hcodec]
    refine hsets.2.trans ?_
    have hempty := h.pps
    rw [if_neg hcodec] at hempty
    split_ifs <;> exact hempty
  · rw [hstep, savedPackets_saveVPXPacket, h.packets, List.foldl_concat, h.type, if_neg hcodec]

theorem holds_session (codec : CodecType) (events : List Event) :
    Holds codec (packetsOf events) (session codec events) := by
  induction events using List.reverseRecOn with
  | nil => exact ⟨rfl, by cases codec <;> rfl, by cases codec <;> rfl, rfl⟩
  | append_singleton events event ih =>
    have hstep : session codec (events ++ [event]) = step (session codec events) event := List.foldl_concat ..
    have hpackets : packetsOf (events ++ [event]) = packetsOf events ++ event.packet.toList := by
      rw [packetsOf, List.filterMap_append]
      cases event <;> rfl
    rw [hstep, hpackets]
    cases event with
    | savePacket pkt =>
      by_cases hcodec : codec = .H264
      · subst hcodec
        exact holds_savePacket_h264 ih pkt
      · exact holds_savePacket_vpx hcodec ih pkt
    | saveDecodedFrame frame =>
      rw [show Event.packet (.saveDecodedFrame frame) = none from rfl, Option.toList_none, append_nil]
      exact ⟨ih.type, ih.sps, ih.pps, ih.packets⟩
    | discardFrontFrame =>
      rw [show Event.packet .discardFrontFrame = none from rfl, Option.toList_none, append_nil]
      exact ⟨ih.type, ih.sps, ih.pps, ih.packets⟩

end Kept

/-! ## What comes back -/

/-- After the load of a saved helper: the replay passes on what it should, which a VP8 or VP9
decoder decodes once, and the pending frames are those of the saved helper. -/
structure Restored (codec : CodecType) (packets : List PacketInfo) (saved target : MediaSnapshotHelper) : Prop where
  replayed : ∃ loaded, target.load saved.save = some (loaded, expected codec packets, []) ∧
    loaded.mSnapshotState.savedFrames = saved.mSnapshotState.savedFrames.map FrameInfo.zeroTexture
  decoded : codec ≠ .H264 → ∀ good (decoder : MediaVpxDecoderGeneric), decoder.Initialised →
    ∃ decoder', (expected codec packets).foldlM (MediaVpxDecoderGeneric.oneShotDecode good) decoder = some decoder' ∧
      decoder'.decodes.map Prod.snd = decoder.decodes.map Prod.snd ++ expected codec packets

/-- The parameter sets have pts 0, and every slice to be passed on comes after the last parameter
set, which is a PPS behind an SPS. VP8 and VP9 packets are not replayed at all. -/
def Replayable (codec : CodecType) (packets : List PacketInfo) : Prop :=
  match codec with
  | .H264 =>
    (∀ sps ∈ lastSps packets, sps.pts = 0 ∧ ∀ pps ∈ lastPps packets, pps.pts = 0) ∧
    ((∃ pkt ∈ CodecType.H264.policy.sinceMark packets, isIdr pkt = true) ∨
      ∀ pkt ∈ CodecType.H264.policy.uptoMark packets, CodecType.H264.isParameterSet pkt = true) ∧
    (CodecType.H264.policy.sinceMark packets ≠ [] → (lastSps packets).isSome = true ∧ (lastPps packets).isSome = true)
  | _ => packets = []

section Restored

variable {codec : CodecType} {packets : List PacketInfo} {saved target : MediaSnapshotHelper}

variable {sps : PacketInfo}

theorem data_ne_nil_of_startsWithUnit {type : UInt8} {pkt : PacketInfo} (h : startsWithUnit type pkt.data = true) :
    0 < pkt.data.length := by
  apply List.length_pos_of_ne_nil
  intro hnil
  rw [hnil] at h
  cases h

theorem lastSps_data (h : lastSps packets = some sps) : 0 < sps.data.length := by
  have hunit : isSps sps = true := List.of_mem_filter (List.mem_of_getLast? h)
  exact data_ne_nil_of_startsWithUnit hunit

theorem lastPps_data {pps : PacketInfo} (h : lastPps packets = some pps) : 0 < pps.data.length := by
  have hunit : isPps pps = true := List.of_mem_filter (List.mem_of_getLast? h)
  exact data_ne_nil_of_startsWithUnit hunit

/-- What a replay passes on, by the packets that the helper was given. -/
theorem replay_eq (h : Holds .H264 packets saved) : saved.replay = match lastSps packets, lastPps packets with
      | none, _ => []
      | some sps, none => [⟨sps.data, 0⟩]
      | some sps, some pps => ⟨sps.data, 0⟩ :: ⟨pps.data, 0⟩ :: packets.foldl CodecType.H264.policy.record [] := by
  have hsps := h.sps
  have hpps := h.pps
  have hpackets := h.packets
  rw [if_pos rfl] at hsps hpps hpackets
  unfold replay
  cases hlastSps : lastSps packets with
  | none => simp [hsps, hlastSps]
  | some sps =>
    have hspsData := lastSps_data hlastSps
    cases hlastPps : lastPps packets with
    | none => simp [hsps, hlastSps, hpps, hlastPps, hspsData]
    | some pps =>
      have hppsData := lastPps_data hlastPps
      simp [hsps, hlastSps, hpps, hlastPps, hspsData, hppsData, hpackets]

theorem replay_eq_nil (hcodec : codec ≠ .H264) (h : Holds codec packets saved) : saved.replay = [] := by
  have hsps := h.sps
  rw [if_neg hcodec] at hsps
  simp [replay, hsps]

/-- Nothing but parameter sets: there is nothing to be passed on after them. -/
theorem slices_eq_nil_iff : slices .H264 packets = [] ↔
    ((∃ pkt ∈ CodecType.H264.policy.sinceMark packets, isIdr pkt = true) ∨
      ∀ pkt ∈ CodecType.H264.policy.uptoMark packets, CodecType.H264.isParameterSet pkt = true) ∧
      CodecType.H264.policy.sinceMark packets = [] := by
  have hsplit := uptoMark_append_sinceMark CodecType.H264.policy packets
  rw [slices, kept_sinceFresh_eq_nil]
  constructor
  · intro hmarks
    refine ⟨.inr fun pkt hmem ↦ hmarks pkt ?_, List.eq_nil_iff_forall_not_mem.mpr fun pkt hmem ↦ ?_⟩
    · rw [← hsplit]
      exact List.mem_append_left _ hmem
    · have hmark := hmarks pkt (hsplit ▸ List.mem_append_right _ hmem)
      rw [not_mark_of_mem_sinceMark hmem] at hmark
      cases hmark
  · rintro ⟨hbegin, hnone⟩
    rw [hnone] at hbegin hsplit
    rw [append_nil] at hsplit
    obtain ⟨pkt, hmem, _⟩ | hmarks := hbegin
    · cases hmem
    · rwa [hsplit] at hmarks

theorem packet_eq_iff {pkt : PacketInfo} : (⟨pkt.data, 0⟩ : PacketInfo) = pkt ↔ pkt.pts = 0 := by
  obtain ⟨data, pts⟩ := pkt
  simp [eq_comm]

/-- The replay passes on what it should exactly for these packets. -/
theorem replay_eq_expected_iff (h : Holds codec packets saved) :
    saved.replay = expected codec packets ↔ Replayable codec packets := by
  by_cases hcodec : codec = .H264
  · subst hcodec
    have hslices : slices .H264 packets = [] ↔ _ := slices_eq_nil_iff
    have hsame := kept_eq_foldl_record_iff CodecType.H264.policy packets
    rw [replay_eq h]
    unfold expected parameterSets Replayable
    cases hlastSps : lastSps packets with
    | none =>
      simp only [nil_append]
      rw [eq_comm, hslices]
      simp
    | some sps =>
      cases hlastPps : lastPps packets with
      | none =>
        simp only [Option.toList_none, List.cons_append, nil_append, List.cons.injEq, packet_eq_iff]
        rw [eq_comm (a := []), hslices]
        simp
      | some pps =>
        simp only [Option.toList_some, List.cons_append, nil_append, List.cons.injEq, packet_eq_iff]
        rw [eq_comm (b := slices .H264 packets)]
        unfold slices
        rw [hsame]
        simp [CodecType.policy, CodecType.beginsDecoding, and_assoc]
  · have hnone : slices codec packets = [] ↔ packets = [] := by
      rw [slices, kept_sinceFresh_eq_nil, List.eq_nil_iff_forall_not_mem]
      cases codec <;> simp_all [CodecType.policy, CodecType.isParameterSet]
    rw [replay_eq_nil hcodec h, eq_comm]
    cases codec with
    | H264 => exact absurd rfl hcodec
    | VP8 => exact hnone
    | VP9 => exact hnone

/-- The load of a saved helper is that of its state, with its type. -/
theorem load_save_helper (saved target : MediaSnapshotHelper) :
    target.load saved.save = (target.mSnapshotState.load saved.mSnapshotState.save).map fun result ↦
      (⟨saved.mType, result.1⟩, replay ⟨saved.mType, result.1⟩, result.2) := by
  unfold load save
  rw [getBe32_putBe32]
  cases hload : target.mSnapshotState.load saved.mSnapshotState.save with
  | none => simp [hload]
  | some result =>
    cases htype : saved.mType <;> simp [hload]

/-- A helper that fits comes back with what it would replay itself. -/
theorem load_saved (hfits : saved.mSnapshotState.Fits) (target : MediaSnapshotHelper) :
    ∃ loaded, target.load saved.save = some (loaded, saved.replay, []) ∧
      loaded.mSnapshotState.savedFrames = target.mSnapshotState.savedFrames ++
        saved.mSnapshotState.savedFrames.map FrameInfo.zeroTexture := by
  obtain ⟨savedDecodedFrame, hload⟩ := load_save hfits target.mSnapshotState []
  rw [append_nil] at hload
  rw [load_save_helper, hload]
  exact ⟨_, rfl, rfl⟩

/-- Enough for a restoration, whatever the target is but for its pending frames. -/
theorem restored_of_replayable (h : Holds codec packets saved) (hfits : saved.mSnapshotState.Fits)
    (hreplayable : Replayable codec packets) (hnone : target.mSnapshotState.savedFrames = []) :
    Restored codec packets saved target where
  replayed := by
    obtain ⟨loaded, hload, hframes⟩ := load_saved hfits target
    rw [(replay_eq_expected_iff h).mpr hreplayable] at hload
    rw [hnone, nil_append] at hframes
    exact ⟨loaded, hload, hframes⟩
  decoded hcodec good decoder _ := by
    have hexpected : expected codec packets = [] := by
      rw [← (replay_eq_expected_iff h).mpr hreplayable]
      exact replay_eq_nil hcodec h
    rw [hexpected]
    exact ⟨decoder, rfl, (append_nil _).symm⟩

theorem replay_eq_cons {helper : MediaSnapshotHelper} {rest : List PacketInfo}
    (h : helper.replay = sps :: rest) : helper.mSnapshotState.sps = sps.data ∧
      rest = if helper.mSnapshotState.pps.length > 0 then
        ⟨helper.mSnapshotState.pps, 0⟩ :: helper.mSnapshotState.savedPackets else [] := by
  unfold replay at h
  simp only at h
  split_ifs at h with hsps
  all_goals
    cases h
    simp_all

/-- With nothing to be passed on after the parameter sets no packet is saved. -/
theorem savedPackets_eq_nil (h : Holds .H264 packets saved) (hnone : slices .H264 packets = []) :
    saved.mSnapshotState.savedPackets = [] := by
  have hsaved := h.packets
  rw [if_pos rfl] at hsaved
  rw [hsaved, ← kept_eq_of_length_le]
  · exact hnone
  · rw [show CodecType.H264.policy.kept none (CodecType.H264.policy.sinceFresh packets) = [] from hnone]
    exact Nat.zero_le _

theorem expected_of_no_sps (h : lastSps packets = none) : expected .H264 packets = slices .H264 packets := by
  simp [expected, parameterSets, h]

theorem expected_of_sps (h : lastSps packets = some sps) :
    expected .H264 packets = sps :: ((lastPps packets).toList ++ slices .H264 packets) := by
  simp [expected, parameterSets, h]

section

variable {state target : MediaSnapshotState} (h : Holds .H264 packets saved)
  (hload : target.load saved.mSnapshotState.save = some (state, []))
  (hreplay : replay ⟨.H264, state⟩ = expected .H264 packets)
include h hload hreplay

/-- The parameter sets of an H.264 helper fit if its replay comes back. -/
theorem parameterSets_fit (hpps : lastSps packets = none → Fits saved.mSnapshotState.pps) :
    Fits saved.mSnapshotState.sps ∧ Fits saved.mSnapshotState.pps := by
  have hsavedSps := h.sps
  have hsavedPps := h.pps
  rw [if_pos rfl] at hsavedSps hsavedPps
  obtain ⟨hspsLoaded, hppsLoaded, -, -⟩ := fits_loaded hload
  have hempty : Fits ([] : List UInt8) := Nat.two_pow_pos 31
  cases hlastSps : lastSps packets with
  | none =>
    rw [hsavedSps, hlastSps]
    exact ⟨hempty, hpps hlastSps⟩
  | some sps =>
    rw [expected_of_sps hlastSps] at hreplay
    obtain ⟨hsameSps, hrest⟩ := replay_eq_cons hreplay
    have hspsFits : Fits saved.mSnapshotState.sps := by
      have hsame : saved.mSnapshotState.sps = state.sps := by
        rw [hsavedSps, hlastSps]
        exact hsameSps.symm
      exact hsame ▸ hspsLoaded
    refine ⟨hspsFits, ?_⟩
    cases hlastPps : lastPps packets with
    | none =>
      rw [hsavedPps, hlastPps]
      exact hempty
    | some pps =>
      rw [hlastPps, Option.toList_some, List.singleton_append] at hrest
      split_ifs at hrest
      have hsame : saved.mSnapshotState.pps = state.pps := by
        rw [hsavedPps, hlastPps]
        exact congrArg PacketInfo.data (List.cons.inj hrest).1
      exact hsame ▸ hppsLoaded

/-- The packets of an H.264 helper fit if its replay comes back. -/
theorem packets_fit (hsps : Fits saved.mSnapshotState.sps) (hpps : Fits saved.mSnapshotState.pps) :
    Fits saved.mSnapshotState.savedPackets ∧ ∀ pkt ∈ saved.mSnapshotState.savedPackets, Fits pkt.data := by
  have hsavedSps := h.sps
  have hsavedPps := h.pps
  have hsavedPackets := h.packets
  rw [if_pos rfl] at hsavedSps hsavedPps hsavedPackets
  obtain ⟨-, -, hcountLoaded, hdataLoaded⟩ := fits_loaded hload
  rw [← append_nil saved.mSnapshotState.save] at hload
  obtain ⟨hsameSps, hsamePps, hlength⟩ := length_savedPackets_le hsps hpps hload
  have hnothing : slices .H264 packets = [] →
      Fits saved.mSnapshotState.savedPackets ∧ ∀ pkt ∈ saved.mSnapshotState.savedPackets, Fits pkt.data := by
    intro hnone
    rw [savedPackets_eq_nil h hnone]
    exact ⟨Nat.two_pow_pos 31, fun pkt hmem ↦ by cases hmem⟩
  cases hlastSps : lastSps packets with
  | none =>
    have hnoSps : state.sps = [] := by
      rw [hsameSps, hsavedSps, hlastSps]
      rfl
    rw [expected_of_no_sps hlastSps] at hreplay
    apply hnothing
    rw [← hreplay]
    simp [replay, hnoSps]
  | some sps =>
    rw [expected_of_sps hlastSps] at hreplay
    obtain ⟨-, hrest⟩ := replay_eq_cons hreplay
    cases hlastPps : lastPps packets with
    | none =>
      have hnoPps : state.pps = [] := by
        rw [hsamePps, hsavedPps, hlastPps]
        rfl
      apply hnothing
      simpa [hlastPps, hnoPps] using hrest
    | some pps =>
      rw [hlastPps, Option.toList_some, List.singleton_append] at hrest
      split_ifs at hrest
      -- what has been loaded is never more than what was saved
      have hslices : slices .H264 packets = state.savedPackets := (List.cons.inj hrest).2
      have hsame : slices .H264 packets = saved.mSnapshotState.savedPackets := by
        rw [hsavedPackets]
        apply kept_eq_of_length_le
        rw [← hsavedPackets]
        exact (congrArg List.length hslices).le.trans hlength
      rw [← hsame, hslices]
      exact ⟨hcountLoaded, hdataLoaded⟩

end

/-- A VP8 or VP9 helper that is restored has got no packets. -/
theorem vpx_fits {state target : MediaSnapshotState} (hcodec : codec ≠ .H264) (h : Holds codec packets saved)
    (hload : target.load saved.mSnapshotState.save = some (state, []))
    (hreplay : replay ⟨saved.mType, state⟩ = expected codec packets) :
    Fits saved.mSnapshotState.sps ∧ Fits saved.mSnapshotState.pps ∧ Fits saved.mSnapshotState.savedPackets ∧
      ∀ pkt ∈ saved.mSnapshotState.savedPackets, Fits pkt.data := by
  have hsps := h.sps
  have hpps := h.pps
  have hpackets := h.packets
  rw [if_neg hcodec] at hsps hpps
  have hempty : Fits ([] : List UInt8) := Nat.two_pow_pos 31
  rw [← append_nil saved.mSnapshotState.save] at hload
  obtain ⟨hsameSps, -, -⟩ := length_savedPackets_le (hsps ▸ hempty) (hpps ▸ hempty) hload
  have hsilent : saved.replay = expected codec packets := by
    rw [replay_eq_nil hcodec h, ← hreplay]
    simp [replay, hsameSps, hsps]
  have hnone : packets = [] := by
    have hreplayable := (replay_eq_expected_iff h).mp hsilent
    cases codec with
    | H264 => exact absurd rfl hcodec
    | VP8 => exact hreplayable
    | VP9 => exact hreplayable
  rw [hnone] at hpackets
  rw [hsps, hpps, hpackets]
  exact ⟨hempty, hempty, Nat.two_pow_pos 31, fun pkt hmem ↦ by cases hmem⟩

/-- A helper that is restored fits, into a target without pending frames. -/
theorem fits_of_restored (h : Holds codec packets saved) (hrestored : Restored codec packets saved target)
    (hpending : Fits saved.mSnapshotState.savedFrames)
    (hpps : lastSps packets = none → Fits saved.mSnapshotState.pps) :
    saved.mSnapshotState.Fits ∧ target.mSnapshotState.savedFrames = [] := by
  obtain ⟨loaded, hload, hframes⟩ := hrestored.replayed
  rw [load_save_helper] at hload
  obtain ⟨⟨state, rest⟩, hstate, hresult⟩ := Option.map_eq_some_iff.mp hload
  obtain ⟨rfl, hreplay, rfl⟩ : (⟨saved.mType, state⟩ : MediaSnapshotHelper) = loaded ∧
      replay ⟨saved.mType, state⟩ = expected codec packets ∧ rest = [] := by
    simpa using hresult
  have hbefore : Fits saved.mSnapshotState.sps ∧ Fits saved.mSnapshotState.pps ∧
      Fits saved.mSnapshotState.savedPackets ∧ ∀ pkt ∈ saved.mSnapshotState.savedPackets, Fits pkt.data := by
    by_cases hcodec : codec = .H264
    · subst hcodec
      rw [h.type] at hreplay
      obtain ⟨hspsFits, hppsFits⟩ := parameterSets_fit h hstate hreplay hpps
      exact ⟨hspsFits, hppsFits, packets_fit h hstate hreplay hspsFits hppsFits⟩
    · exact vpx_fits hcodec h hstate hreplay
  obtain ⟨hspsFits, hppsFits, hcountFits, hdataFits⟩ := hbefore
  rw [← append_nil saved.mSnapshotState.save] at hstate
  obtain ⟨hnone, hframesFit⟩ := frames_of_load hspsFits hppsFits hcountFits hdataFits hpending hstate hframes
  exact ⟨⟨hspsFits, hppsFits, hcountFits, hdataFits, hpending, hframesFit⟩, hnone⟩

/-- What fits is replayed as it would be before the save. -/
theorem replay_of_restored (hfits : saved.mSnapshotState.Fits) (hrestored : Restored codec packets saved target) :
    saved.replay = expected codec packets := by
  obtain ⟨loaded, hload, -⟩ := hrestored.replayed
  obtain ⟨loaded', hload', -⟩ := load_saved hfits target
  have hboth := hload'.symm.trans hload
  simp only [Option.some.injEq, Prod.mk.injEq] at hboth
  exact hboth.2.1

end Restored

/-- For fewer than 2^31 pending frames (and a PPS of fewer than 2^31 bytes, where there is one
without an SPS): exactly which sessions are restored. -/
theorem restored_iff (codec : CodecType) (events : List Event) (target : MediaSnapshotHelper)
    (hpending : Fits (session codec events).mSnapshotState.savedFrames)
    (hpps : lastSps (packetsOf events) = none → Fits (session codec events).mSnapshotState.pps) :
    Restored codec (packetsOf events) (session codec events) target ↔
      (session codec events).mSnapshotState.Fits ∧ Replayable codec (packetsOf events) ∧
        target.mSnapshotState.savedFrames = [] := by
  have hholds := holds_session codec events
  constructor
  · intro hrestored
    obtain ⟨hfits, hnone⟩ := fits_of_restored hholds hrestored hpending hpps
    exact ⟨hfits, (replay_eq_expected_iff hholds).mp (replay_of_restored hfits hrestored), hnone⟩
  · rintro ⟨hfits, hreplayable, hnone⟩
    exact restored_of_replayable hholds hfits hreplayable hnone

/-- A decoder that got the parameter sets, an IDR slice, another slice twice and one frame. -/
def goodEvents : List Event := [.savePacket ⟨[0, 0, 0, 1, 0x67], 0⟩, .savePacket ⟨[0, 0, 1, 0x68], 0⟩,
    .savePacket ⟨[0, 0, 0, 1, 0x65], 1⟩, .savePacket ⟨[0, 0, 1, 0x41], 2⟩,
    .savePacket ⟨[0, 0, 1, 0x41], 2⟩, .saveDecodedFrame { FrameInfo.empty with texture := [7, 8] }]

theorem restored_goodEvents :
    Restored .H264 (packetsOf goodEvents) (session .H264 goodEvents) (session .VP8 goodEvents.dropLast) := by
  refine (restored_iff .H264 goodEvents _ (by decide) (fun _ ↦ by decide)).mpr ⟨?_, ?_, rfl⟩
  · exact ⟨by decide, by decide, by decide, by decide, by decide, by decide⟩
  · exact ⟨by decide, .inl ⟨⟨[0, 0, 0, 1, 0x65], 1⟩, by decide, by decide⟩, fun _ ↦ by decide⟩

/-- A PPS between an IDR slice and the next one. -/
def latePps : List Event := [.savePacket ⟨[0, 0, 0, 1, 0x67], 0⟩, .savePacket ⟨[0, 0, 1, 0x68], 0⟩,
    .savePacket ⟨[0, 0, 0, 1, 0x65], 1⟩, .savePacket ⟨[0, 0, 1, 0x68], 0⟩,
    .savePacket ⟨[0, 0, 1, 0x41], 2⟩]

/-- A VP8 key frame is not replayed, a late PPS loses an IDR slice, and pending frames of a used
helper stay; the parser passes over a VP8 key frame and takes a shown VP9 frame for one. -/
theorem replay_loses_packets :
    (vp8KeyFrame [0x10] = true ∧
      ¬ Restored .VP8 [⟨[0x10], 1⟩] (session .VP8 [.savePacket ⟨[0x10], 1⟩]) (.new .VP8)) ∧
    ¬ Restored .H264 (packetsOf latePps) (session .H264 latePps) (.new .H264) ∧
    ¬ Restored .H264 (packetsOf goodEvents) (session .H264 goodEvents) (session .H264 goodEvents) ∧
    (vp8KeyFrame [0x80] = true ∧ (VpxFrameParser.parse 8 [0x80]).isKeyFrame = false) ∧
    (vp9KeyFrame [0x88] = false ∧ (VpxFrameParser.parse 9 [0x88]).isKeyFrame = true) := by
  refine ⟨⟨by decide, fun hrestored ↦ ?_⟩, fun hrestored ↦ ?_, fun hrestored ↦ ?_,
    ⟨by decide, by decide⟩, ⟨by decide, by decide⟩⟩
  · have hsame := replay_of_restored ⟨by decide, by decide, by decide, by decide, by decide, by decide⟩ hrestored
    revert hsame
    decide
  · have hsame := replay_of_restored ⟨by decide, by decide, by decide, by decide, by decide, by decide⟩ hrestored
    revert hsame
    decide
  · have hnone := (fits_of_restored (holds_session .H264 goodEvents) hrestored (by decide) fun _ ↦ by decide).2
    revert hnone
    decide

end FdeEmugl.Media
