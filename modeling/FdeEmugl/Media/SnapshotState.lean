import FdeEmugl.Base.Stream

/-!
# The snapshot of a media decoder

`MediaSnapshotState` holds the packets to be decoded again after a snapshot has been loaded
and the decoded frames that the guest has not fetched. A stream is the list of its bytes; a
load is none where a vector would be resized to a negative number.
-/

namespace FdeEmugl.Media

open FdeEmugl.Stream
open List (append_assoc)
open Option (bind_eq_bind bind_eq_some_iff bind_some)

structure ColorAspects where
  primaries : UInt32
  range : UInt32
  transfer : UInt32
  space : UInt32
deriving Repr, DecidableEq

structure PacketInfo where
  data : List UInt8
  pts : UInt64
deriving Repr, DecidableEq

structure FrameInfo where
  data : List UInt8
  texture : List UInt32
  width : Int32
  height : Int32
  pts : UInt64
  color : ColorAspects
deriving Repr, DecidableEq

/-- `FrameInfo{}`. -/
def FrameInfo.empty : FrameInfo := ⟨[], [], 0, 0, 0, ⟨0, 0, 0, 0⟩⟩

/-- Without its texture ids, which mean nothing to the renderer after a load. -/
def FrameInfo.zeroTexture (frame : FrameInfo) : FrameInfo :=
  { frame with texture := List.replicate frame.texture.length 0 }

structure MediaSnapshotState where
  sps : List UInt8
  pps : List UInt8
  savedPackets : List PacketInfo
  savedDecodedFrame : FrameInfo
  savedFrames : List FrameInfo
deriving Repr, DecidableEq

/-! ## Vectors -/

def saveVec (vec : List UInt8) : List UInt8 := putBe32 (UInt32.ofNat vec.length) ++ vec

/-- The same for texture ids, which are written as they lie in the host's memory. -/
def saveTextures (vec : List UInt32) : List UInt8 :=
  putBe32 (UInt32.ofNat vec.length) ++ vec.flatMap fun id ↦ (putBe32 id).reverse

def resize (size : ℕ) (vec : List UInt8) : List UInt8 := vec.take size ++ List.replicate (size - vec.length) 0

/-- Into the vector `vec`, whose bytes stay where the stream ends early. -/
def loadVec (vec stream : List UInt8) : Option (List UInt8 × List UInt8) :=
  let (size, stream) := getBe32 stream
  if size.toNat < 2 ^ 31 then
    let (bytes, stream) := read size.toNat stream
    some (bytes ++ (resize size.toNat vec).drop bytes.length, stream)
  else none

/-- The load of texture ids with the fill by zeros after it. -/
def loadTextures (stream : List UInt8) : Option (List UInt32 × List UInt8) :=
  let (size, stream) := getBe32 stream
  if size.toNat < 2 ^ 31 then some (List.replicate size.toNat 0, (read (size.toNat * 4) stream).2)
  else none

/-! ## Packets and frames -/

def saveColor (color : ColorAspects) : List UInt8 :=
  putBe32 color.primaries ++ putBe32 color.range ++ putBe32 color.transfer ++ putBe32 color.space

def loadColor (stream : List UInt8) : ColorAspects × List UInt8 :=
  let (primaries, stream) := getBe32 stream
  let (range, stream) := getBe32 stream
  let (transfer, stream) := getBe32 stream
  let (space, stream) := getBe32 stream
  (⟨primaries, range, transfer, space⟩, stream)

def saveFrameInfo (frame : FrameInfo) : List UInt8 :=
  saveVec frame.data ++ saveTextures frame.texture ++ putBe32 frame.width.toUInt32 ++
    putBe32 frame.height.toUInt32 ++ saveColor frame.color ++ putBe64 frame.pts

def loadFrameInfo (frame : FrameInfo) (stream : List UInt8) : Option (FrameInfo × List UInt8) := do
  let (data, stream) ← loadVec frame.data stream
  let (texture, stream) ← loadTextures stream
  let (width, stream) := getBe32 stream
  let (height, stream) := getBe32 stream
  let (color, stream) := loadColor stream
  let (pts, stream) := getBe64 stream
  some (⟨data, texture, width.toInt32, height.toInt32, pts, color⟩, stream)

def savePacketInfo (pkt : PacketInfo) : List UInt8 := saveVec pkt.data ++ putBe64 pkt.pts

def loadPacketInfo (pkt : PacketInfo) (stream : List UInt8) : Option (PacketInfo × List UInt8) := do
  let (data, stream) ← loadVec pkt.data stream
  let (pts, stream) := getBe64 stream
  some (⟨data, pts⟩, stream)

/-- The loop over the resized `savedPackets`, whose old elements are given. -/
def loadPackets : ℕ → List PacketInfo → List UInt8 → Option (List PacketInfo × List UInt8)
  | 0, _, stream => some ([], stream)
  | count + 1, old, stream => do
    let (pkt, stream) ← loadPacketInfo (old.headD ⟨[], 0⟩) stream
    let (packets, stream) ← loadPackets count old.tail stream
    some (pkt :: packets, stream)

/-- The loop that loads each frame into `savedDecodedFrame` and moves it out again. -/
def loadFrames : ℕ → FrameInfo → List UInt8 → Option (List FrameInfo × FrameInfo × List UInt8)
  | 0, savedDecodedFrame, stream => some ([], savedDecodedFrame, stream)
  | fcount + 1, savedDecodedFrame, stream => do
    let (frame, stream) ← loadFrameInfo savedDecodedFrame stream
    let (frames, savedDecodedFrame, stream) ← loadFrames fcount { frame with data := [], texture := [] } stream
    some (frame :: frames, savedDecodedFrame, stream)

namespace MediaSnapshotState

/-! ## The state -/

def new : MediaSnapshotState := ⟨[], [], [], .empty, []⟩

def saveSps (xsps : List UInt8) (state : MediaSnapshotState) : MediaSnapshotState := { state with sps := xsps }

def savePps (xpps : List UInt8) (state : MediaSnapshotState) : MediaSnapshotState := { state with pps := xpps }

def savePacket (data : List UInt8) (pts : UInt64) (state : MediaSnapshotState) : MediaSnapshotState :=
  if 0 < pts && state.savedPackets.getLast?.any (pts = ·.pts) then state
  else { state with savedPackets := state.savedPackets ++ [⟨data, pts⟩] }

def saveDecodedFrame (frame : FrameInfo) (state : MediaSnapshotState) : MediaSnapshotState :=
  { state with savedFrames := state.savedFrames ++ [frame] }

def discardFrontFrame (state : MediaSnapshotState) : MediaSnapshotState :=
  { state with savedFrames := state.savedFrames.tail }

def save (state : MediaSnapshotState) : List UInt8 :=
  saveVec state.sps ++ saveVec state.pps ++ putBe32 (UInt32.ofNat state.savedPackets.length) ++
    state.savedPackets.flatMap savePacketInfo ++ putBe32 (UInt32.ofNat state.savedFrames.length) ++
    state.savedFrames.flatMap saveFrameInfo

/-- A negative number of frames is a loop that does not turn. -/
def load (stream : List UInt8) (state : MediaSnapshotState) : Option (MediaSnapshotState × List UInt8) := do
  let (sps, stream) ← loadVec state.sps stream
  let (pps, stream) ← loadVec state.pps stream
  let (count, stream) := getBe32 stream
  if count.toNat < 2 ^ 31 then
    let (packets, stream) ← loadPackets count.toNat state.savedPackets stream
    let (fcount, stream) := getBe32 stream
    let fcount := if fcount.toNat < 2 ^ 31 then fcount.toNat else 0
    let (frames, savedDecodedFrame, stream) ← loadFrames fcount state.savedDecodedFrame stream
    some (⟨sps, pps, packets, savedDecodedFrame, state.savedFrames ++ frames⟩, stream)
  else none

end MediaSnapshotState

/-! ## What fits -/

/-- A vector that fits has fewer than 2^31 elements, so that its size is an `int`. -/
def Fits {Element : Type*} (vec : List Element) : Prop := vec.length < 2 ^ 31

instance decidableFits {Element : Type*} (vec : List Element) : Decidable (Fits vec) :=
  inferInstanceAs (Decidable (vec.length < 2 ^ 31))

def FrameInfo.Fits (frame : FrameInfo) : Prop := Media.Fits frame.data ∧ Media.Fits frame.texture

instance FrameInfo.decidableFits (frame : FrameInfo) : Decidable frame.Fits :=
  inferInstanceAs (Decidable (Media.Fits frame.data ∧ Media.Fits frame.texture))

structure MediaSnapshotState.Fits (state : MediaSnapshotState) : Prop where
  sps : Media.Fits state.sps
  pps : Media.Fits state.pps
  count : Media.Fits state.savedPackets
  packets : ∀ pkt ∈ state.savedPackets, Media.Fits pkt.data
  fcount : Media.Fits state.savedFrames
  frames : ∀ frame ∈ state.savedFrames, frame.Fits

section RoundTrip

variable {Element : Type*} {vec rest : List UInt8}

theorem toNat_size {elements : List Element} (h : Fits elements) :
    (UInt32.ofNat elements.length).toNat = elements.length :=
  UInt32.toNat_ofNat_of_lt' (Nat.lt_trans h (by decide))

theorem loadVec_saveVec (h : Fits vec) (old rest : List UInt8) :
    loadVec old (saveVec vec ++ rest) = some (vec, rest) := by
  have hresized : (resize vec.length old).drop vec.length = [] := by
    apply List.drop_eq_nil_of_le
    simp only [resize, List.length_append, List.length_take, List.length_replicate]
    omega
  simp only [loadVec, saveVec, append_assoc, getBe32_putBe32, toNat_size h, Stream.read,
    List.take_left, List.drop_left, hresized, List.append_nil]
  exact if_pos (show vec.length < 2 ^ 31 from h)

theorem length_textures (vec : List UInt32) : (vec.flatMap fun id ↦ (putBe32 id).reverse).length = vec.length * 4 := by
  simp [List.length_flatMap, List.map_const']

theorem loadTextures_saveTextures {vec : List UInt32} (h : Fits vec) (rest : List UInt8) :
    loadTextures (saveTextures vec ++ rest) = some (List.replicate vec.length 0, rest) := by
  simp only [loadTextures, saveTextures, append_assoc, getBe32_putBe32, toNat_size h, Stream.read]
  rw [if_pos (show vec.length < 2 ^ 31 from h), ← length_textures, List.drop_left]

theorem loadColor_saveColor (color : ColorAspects) (rest : List UInt8) :
    loadColor (saveColor color ++ rest) = (color, rest) := by
  simp only [loadColor, saveColor, append_assoc, getBe32_putBe32]

theorem loadFrameInfo_saveFrameInfo {frame : FrameInfo} (h : frame.Fits) (old : FrameInfo) (rest : List UInt8) :
    loadFrameInfo old (saveFrameInfo frame ++ rest) = some (frame.zeroTexture, rest) := by
  simp only [loadFrameInfo, saveFrameInfo, append_assoc, loadVec_saveVec h.1,
    loadTextures_saveTextures h.2, bind_eq_bind, bind_some, getBe32_putBe32, loadColor_saveColor,
    getBe64_putBe64, Int32.toInt32_toUInt32]
  rfl

theorem loadPacketInfo_savePacketInfo {pkt : PacketInfo} (h : Fits pkt.data) (old : PacketInfo)
    (rest : List UInt8) : loadPacketInfo old (savePacketInfo pkt ++ rest) = some (pkt, rest) := by
  simp only [loadPacketInfo, savePacketInfo, append_assoc, loadVec_saveVec h, bind_eq_bind,
    bind_some, getBe64_putBe64]

theorem loadPackets_savePackets {packets : List PacketInfo} (h : ∀ pkt ∈ packets, Fits pkt.data)
    (old : List PacketInfo) (rest : List UInt8) :
    loadPackets packets.length old (packets.flatMap savePacketInfo ++ rest) = some (packets, rest) := by
  induction packets generalizing old with
  | nil => rfl
  | cons pkt packets ih =>
    have hpkt : Fits pkt.data := h pkt List.mem_cons_self
    have hrest := ih (fun other hmem ↦ h other (List.mem_cons_of_mem pkt hmem)) old.tail
    simp only [List.length_cons, loadPackets, List.flatMap_cons, append_assoc,
      loadPacketInfo_savePacketInfo hpkt, bind_eq_bind, bind_some, hrest]

theorem loadFrames_saveFrames {frames : List FrameInfo} (h : ∀ frame ∈ frames, frame.Fits)
    (old : FrameInfo) (rest : List UInt8) :
    ∃ savedDecodedFrame, loadFrames frames.length old (frames.flatMap saveFrameInfo ++ rest) =
      some (frames.map FrameInfo.zeroTexture, savedDecodedFrame, rest) := by
  induction frames generalizing old with
  | nil => exact ⟨old, rfl⟩
  | cons frame frames ih =>
    have hframe : frame.Fits := h frame List.mem_cons_self
    obtain ⟨savedDecodedFrame, hrest⟩ := ih (fun other hmem ↦ h other (List.mem_cons_of_mem frame hmem))
      { frame.zeroTexture with data := [], texture := [] }
    refine ⟨savedDecodedFrame, ?_⟩
    simp only [List.length_cons, loadFrames, List.flatMap_cons, append_assoc,
      loadFrameInfo_saveFrameInfo hframe, bind_eq_bind, bind_some, hrest, List.map_cons]

/-- A state that fits comes back; its frames come behind those there are. -/
theorem load_save {state : MediaSnapshotState} (h : state.Fits) (target : MediaSnapshotState) (rest : List UInt8) :
    ∃ savedDecodedFrame, target.load (state.save ++ rest) =
      some (⟨state.sps, state.pps, state.savedPackets, savedDecodedFrame,
        target.savedFrames ++ state.savedFrames.map FrameInfo.zeroTexture⟩, rest) := by
  obtain ⟨savedDecodedFrame, hframes⟩ := loadFrames_saveFrames h.frames target.savedDecodedFrame rest
  refine ⟨savedDecodedFrame, ?_⟩
  have hcount : (UInt32.ofNat state.savedPackets.length).toNat < 2 ^ 31 := (toNat_size h.count).trans_lt h.count
  have hfcount : (UInt32.ofNat state.savedFrames.length).toNat < 2 ^ 31 := (toNat_size h.fcount).trans_lt h.fcount
  simp only [MediaSnapshotState.load, MediaSnapshotState.save, append_assoc, loadVec_saveVec h.sps,
    loadVec_saveVec h.pps, bind_eq_bind, bind_some, getBe32_putBe32]
  rw [if_pos hcount, toNat_size h.count, loadPackets_savePackets h.packets]
  simp only [bind_some, getBe32_putBe32]
  rw [if_pos hfcount, toNat_size h.fcount, hframes]
  rfl

end RoundTrip

/-! ## What does not fit does not come back -/

section Converse

variable {vec loaded rest rest' : List UInt8}

variable {stream : List UInt8}

theorem length_loadVec {old : List UInt8} (h : loadVec old stream = some (loaded, rest)) :
    loaded.length = (getBe32 stream).1.toNat ∧ loaded.length < 2 ^ 31 := by
  unfold loadVec at h
  simp only at h
  split_ifs at h with hsize
  obtain ⟨rfl, -⟩ := Prod.mk.inj (Option.some.inj h)
  have hlength : ∀ size (bytes : List UInt8), bytes.length ≤ size →
      (bytes ++ (resize size old).drop bytes.length).length = size := by
    intro size bytes hbytes
    simp only [resize, List.length_append, List.length_drop, List.length_take, List.length_replicate]
    omega
  have hread : ∀ size bytes, (Stream.read size bytes).1.length ≤ size := fun _ _ ↦ List.length_take_le _ _
  rw [hlength _ _ (hread _ _)]
  exact ⟨rfl, hsize⟩

theorem fits_loadTextures {texture : List UInt32} (h : loadTextures stream = some (texture, rest)) :
    Fits texture := by
  unfold loadTextures at h
  simp only at h
  split_ifs at h with hsize
  obtain ⟨rfl, -⟩ := Prod.mk.inj (Option.some.inj h)
  exact (List.length_replicate ..).trans_lt hsize

theorem fits_loadPacketInfo {old pkt : PacketInfo} (h : loadPacketInfo old stream = some (pkt, rest)) :
    Fits pkt.data := by
  simp only [loadPacketInfo, bind_eq_bind, bind_eq_some_iff, Option.some.injEq, Prod.mk.injEq] at h
  obtain ⟨⟨data, stream'⟩, hdata, rfl, -⟩ := h
  exact (length_loadVec hdata).2

theorem loadPackets_spec {count : ℕ} {old packets : List PacketInfo}
    (h : loadPackets count old stream = some (packets, rest)) :
    packets.length = count ∧ ∀ pkt ∈ packets, Fits pkt.data := by
  induction count generalizing old packets stream with
  | zero =>
    obtain ⟨rfl, -⟩ := Prod.mk.inj (Option.some.inj h)
    exact ⟨rfl, fun pkt hmem ↦ by cases hmem⟩
  | succ count ih =>
    simp only [loadPackets, bind_eq_bind, bind_eq_some_iff, Option.some.injEq, Prod.mk.injEq] at h
    obtain ⟨⟨pkt, stream'⟩, hpkt, ⟨packets', stream''⟩, hpackets, rfl, rfl⟩ := h
    obtain ⟨hlength, hfits⟩ := ih hpackets
    refine ⟨congrArg Nat.succ hlength, fun other hmem ↦ ?_⟩
    obtain rfl | hmem := List.mem_cons.mp hmem
    · exact fits_loadPacketInfo hpkt
    · exact hfits other hmem

theorem fits_loadFrameInfo {old frame : FrameInfo} (h : loadFrameInfo old stream = some (frame, rest)) :
    frame.Fits := by
  simp only [loadFrameInfo, bind_eq_bind, bind_eq_some_iff, Option.some.injEq, Prod.mk.injEq] at h
  obtain ⟨⟨data, stream'⟩, hdata, ⟨texture, stream''⟩, htexture, rfl, -⟩ := h
  exact ⟨(length_loadVec hdata).2, fits_loadTextures htexture⟩

theorem loadFrames_spec {fcount : ℕ} {old decoded : FrameInfo} {frames : List FrameInfo}
    (h : loadFrames fcount old stream = some (frames, decoded, rest)) :
    frames.length = fcount ∧ ∀ frame ∈ frames, frame.Fits := by
  induction fcount generalizing old frames stream with
  | zero =>
    obtain ⟨rfl, -⟩ := Prod.mk.inj (Option.some.inj h)
    exact ⟨rfl, fun frame hmem ↦ by cases hmem⟩
  | succ fcount ih =>
    simp only [loadFrames, bind_eq_bind, bind_eq_some_iff, Option.some.injEq, Prod.mk.injEq] at h
    obtain ⟨⟨frame, stream'⟩, hframe, ⟨frames', decoded', stream''⟩, hframes, rfl, rfl, rfl⟩ := h
    obtain ⟨hlength, hfits⟩ := ih hframes
    refine ⟨congrArg Nat.succ hlength, fun other hmem ↦ ?_⟩
    obtain rfl | hmem := List.mem_cons.mp hmem
    · exact fits_loadFrameInfo hframe
    · exact hfits other hmem

section

variable {target loaded : MediaSnapshotState} (h : target.load stream = some (loaded, rest))
include h

/-- The parts of a load that returns. -/
theorem load_cases :
    ∃ afterSps afterPps afterPackets frames, loadVec target.sps stream = some (loaded.sps, afterSps) ∧
      loadVec target.pps afterSps = some (loaded.pps, afterPps) ∧
      (getBe32 afterPps).1.toNat < 2 ^ 31 ∧
      loadPackets (getBe32 afterPps).1.toNat target.savedPackets (getBe32 afterPps).2 =
        some (loaded.savedPackets, afterPackets) ∧
      loadFrames (if (getBe32 afterPackets).1.toNat < 2 ^ 31 then (getBe32 afterPackets).1.toNat else 0)
        target.savedDecodedFrame (getBe32 afterPackets).2 = some (frames, loaded.savedDecodedFrame, rest) ∧
      loaded.savedFrames = target.savedFrames ++ frames := by
  simp only [MediaSnapshotState.load, bind_eq_bind, bind_eq_some_iff] at h
  obtain ⟨⟨sps, afterSps⟩, hsps, ⟨pps, afterPps⟩, hpps, h⟩ := h
  simp only at h
  split_ifs at h with hcount
  simp only [bind_eq_some_iff, Option.some.injEq, Prod.mk.injEq] at h
  obtain ⟨⟨packets, afterPackets⟩, hpackets, ⟨frames, decoded, stream'⟩, hframes, rfl, rfl⟩ := h
  exact ⟨afterSps, afterPps, afterPackets, frames, hsps, hpps, hcount, hpackets, hframes, rfl⟩

/-- What has been loaded fits. -/
theorem fits_loaded :
    Fits loaded.sps ∧ Fits loaded.pps ∧ Fits loaded.savedPackets ∧ ∀ pkt ∈ loaded.savedPackets, Fits pkt.data := by
  obtain ⟨_, _, _, _, hsps, hpps, hcount, hpackets, -, -⟩ := load_cases h
  obtain ⟨hlength, hdata⟩ := loadPackets_spec hpackets
  exact ⟨(length_loadVec hsps).2, (length_loadVec hpps).2, hlength.trans_lt hcount, hdata⟩

end

/-- What was read behind a vector that fits is what was written behind it. -/
theorem after_loadVec {old : List UInt8} (hfits : Fits vec)
    (h : loadVec old (saveVec vec ++ rest) = some (loaded, rest')) : loaded = vec ∧ rest' = rest := by
  rw [loadVec_saveVec hfits] at h
  cases h
  exact ⟨rfl, rfl⟩

theorem length_mod_le {Element : Type*} (elements : List Element) :
    (UInt32.ofNat elements.length).toNat ≤ elements.length := by
  rw [UInt32.toNat_ofNat']
  exact Nat.mod_le _ _

section

variable {target state loaded : MediaSnapshotState} (hsps : Fits state.sps) (hpps : Fits state.pps)
include hsps hpps

/-- With the parameter sets read right, no packet is added. -/
theorem length_savedPackets_le (h : target.load (state.save ++ rest) = some (loaded, rest')) :
    loaded.sps = state.sps ∧ loaded.pps = state.pps ∧ loaded.savedPackets.length ≤ state.savedPackets.length := by
  obtain ⟨afterSps, afterPps, afterPackets, frames, hloadSps, hloadPps, -, hpackets, -, -⟩ := load_cases h
  simp only [MediaSnapshotState.save, append_assoc] at hloadSps
  obtain ⟨hsameSps, rfl⟩ := after_loadVec hsps hloadSps
  obtain ⟨hsamePps, rfl⟩ := after_loadVec hpps hloadPps
  rw [getBe32_putBe32] at hpackets
  refine ⟨hsameSps, hsamePps, ?_⟩
  rw [(loadPackets_spec hpackets).1]
  exact length_mod_le _

/-- With all before the frames read right, the frames come back only into a state without frames
and only if they fit. -/
theorem frames_of_load (hcount : Fits state.savedPackets) (hdata : ∀ pkt ∈ state.savedPackets, Fits pkt.data)
    (hfcount : Fits state.savedFrames) (h : target.load (state.save ++ rest) = some (loaded, rest'))
    (hframes : loaded.savedFrames = state.savedFrames.map FrameInfo.zeroTexture) :
    target.savedFrames = [] ∧ ∀ frame ∈ state.savedFrames, frame.Fits := by
  obtain ⟨afterSps, afterPps, afterPackets, frames, hloadSps, hloadPps, -, hpackets, hloadFrames, happend⟩ :=
    load_cases h
  simp only [MediaSnapshotState.save, append_assoc] at hloadSps
  obtain ⟨-, rfl⟩ := after_loadVec hsps hloadSps
  obtain ⟨-, rfl⟩ := after_loadVec hpps hloadPps
  rw [getBe32_putBe32, toNat_size hcount, loadPackets_savePackets hdata] at hpackets
  obtain ⟨-, rfl⟩ := Prod.mk.inj (Option.some.inj hpackets)
  rw [getBe32_putBe32, toNat_size hfcount, if_pos (show state.savedFrames.length < 2 ^ 31 from hfcount)]
    at hloadFrames
  obtain ⟨hlength, hfits⟩ := loadFrames_spec hloadFrames
  have hnone : target.savedFrames = [] := by
    have hlengths := congrArg List.length (happend.symm.trans hframes)
    rw [List.length_append, hlength, List.length_map] at hlengths
    exact List.eq_nil_of_length_eq_zero (by omega)
  refine ⟨hnone, fun frame hmem ↦ ?_⟩
  rw [hnone, List.nil_append, hframes] at happend
  have hframe := hfits frame.zeroTexture (happend ▸ List.mem_map_of_mem hmem)
  simpa [FrameInfo.Fits, FrameInfo.zeroTexture, Fits] using hframe

end

end Converse

end FdeEmugl.Media
