import FdeEmugl.Media.SnapshotState

/-!
# The VP8 and VP9 decoder

How `MediaVpxDecoderGeneric` hands packets to its video helpers. In the trial period the
hardware helper is tried first; `good` says after which packet it reports that it can go on.
`oneShotDecode`, which a replay calls, decodes each packet a second time.
-/

namespace FdeEmugl.Media

inductive VideoHelper where
  | hardware
  | software
deriving Repr, DecidableEq

structure MediaVpxDecoderGeneric where
  mTrialPeriod : Bool
  /-- Whether there is an `mHwVideoHelper`, and likewise for `mSwVideoHelper`. -/
  mHwVideoHelper : Bool
  mSwVideoHelper : Bool
  mVideoHelper : Option VideoHelper
  /-- The calls of `decode`, in order. -/
  decodes : List (VideoHelper × PacketInfo)
deriving Repr, DecidableEq

namespace MediaVpxDecoderGeneric

def decode (helper : VideoHelper) (pkt : PacketInfo) (decoder : MediaVpxDecoderGeneric) :
    MediaVpxDecoderGeneric := { decoder with decodes := decoder.decodes ++ [(helper, pkt)] }

/-- The part of `try_decode` with a new software helper. -/
def decodeBySoftware (pkt : PacketInfo) (decoder : MediaVpxDecoderGeneric) : MediaVpxDecoderGeneric := { decoder with
    mHwVideoHelper := false
    mSwVideoHelper := false
    mVideoHelper := some .software
    mTrialPeriod := false }.decode .software pkt

def try_decode (good : PacketInfo → Bool) (pkt : PacketInfo) (decoder : MediaVpxDecoderGeneric) :
    MediaVpxDecoderGeneric :=
  if decoder.mHwVideoHelper then
    let decoder := decoder.decode .hardware pkt
    if good pkt then
      { decoder with mVideoHelper := some .hardware, mHwVideoHelper := false, mTrialPeriod := false }
    else decoder.decodeBySoftware pkt
  else decoder.decodeBySoftware pkt

/-- None where `mVideoHelper` is null. -/
def decode_internal (good : PacketInfo → Bool) (pkt : PacketInfo) (decoder : MediaVpxDecoderGeneric) :
    Option MediaVpxDecoderGeneric :=
  if decoder.mTrialPeriod then some (decoder.try_decode good pkt)
  else decoder.mVideoHelper.map fun helper ↦ decoder.decode helper pkt

def oneShotDecode (good : PacketInfo → Bool) (decoder : MediaVpxDecoderGeneric) (pkt : PacketInfo) :
    Option MediaVpxDecoderGeneric :=
  if !decoder.mHwVideoHelper && !decoder.mSwVideoHelper && decoder.mVideoHelper.isNone then some decoder
  else do
    let decoder ← decoder.decode_internal good pkt
    let helper ← decoder.mVideoHelper
    some (decoder.decode helper pkt)

/-- A decoder whose context has been set up. -/
def Initialised (decoder : MediaVpxDecoderGeneric) : Prop :=
  if decoder.mTrialPeriod then decoder.mHwVideoHelper = true ∨ decoder.mSwVideoHelper = true
  else decoder.mVideoHelper.isSome = true

end MediaVpxDecoderGeneric

section Decode

open MediaVpxDecoderGeneric

variable {good : PacketInfo → Bool} {decoder : MediaVpxDecoderGeneric}

end Decode

end FdeEmugl.Media
