import Volley.Notice

/-!
# Clocks

The simulation runs in ticks of one fixed length; the render side runs in frames of any length.
-/

namespace Volley

/-- The tuning of the loop: the length of a tick, the most time a frame may feed in, and
whether ended bullets are removed. -/
structure Timing where
  fixedTimestep : Float32
  maxFrameDelta : Float32
  despawnEnded : Bool
  deriving DecidableEq, Repr

namespace Timing

/-- Thirty ticks a second. -/
def standard : Timing :=
  { fixedTimestep := 1 / 30, maxFrameDelta := 0.1, despawnEnded := true }

def decode {ν : Type} [Numeric ν] : Decoder ν Timing := fun room tree => do
  let fields ← Fields.of? [["fixedTimestep"], ["maxFrameDelta"], ["despawnEndedBullets"]] room tree
  let fixedTimestep ← fields.withDefault "fixedTimestep" Decoder.single standard.fixedTimestep
  let maxFrameDelta ← fields.withDefault "maxFrameDelta" Decoder.single standard.maxFrameDelta
  let despawnEnded ← fields.withDefault "despawnEndedBullets" Decoder.bool standard.despawnEnded
  return { fixedTimestep, maxFrameDelta, despawnEnded }

def encode (timing : Timing) : Json Numeral :=
  .record
    [("fixedTimestep", .ofSingle timing.fixedTimestep),
      ("maxFrameDelta", .ofSingle timing.maxFrameDelta),
      ("despawnEndedBullets", .bool timing.despawnEnded)]

instance : Stored Timing := ⟨decode, encode⟩

def isTimestep (x : Float32) : Bool :=
  x.isFinite && decide (0 < x)

def isFrameDelta (x : Float32) : Bool :=
  x.isFinite && decide (0 ≤ x)

/-- Replaces durations that cannot be used by the standard ones. -/
def sanitize (timing : Timing) : Timing × List Notice :=
  let (fixedTimestep, first) :=
    if isTimestep timing.fixedTimestep then (timing.fixedTimestep, [])
    else
      (standard.fixedTimestep,
        [Notice.timestepReplaced timing.fixedTimestep standard.fixedTimestep])
  let (maxFrameDelta, second) :=
    if isFrameDelta timing.maxFrameDelta then (timing.maxFrameDelta, [])
    else
      (standard.maxFrameDelta,
        [Notice.frameDeltaReplaced timing.maxFrameDelta standard.maxFrameDelta])
  ({ timing with fixedTimestep, maxFrameDelta }, first ++ second)

/-- The length of a tick, even where the tuning holds none that can be used. -/
def tickLength (timing : Option Timing) : Float32 :=
  match timing with
  | some timing =>
      if isTimestep timing.fixedTimestep then timing.fixedTimestep else standard.fixedTimestep
  | none => standard.fixedTimestep

end Timing

/-- Statistics of the frames so far; the rate is smoothed, in frames a second. -/
structure FrameClock where
  delta : Float32
  elapsed : Float32
  frames : UInt64
  rate : Float32
  deriving DecidableEq, Repr

namespace FrameClock

def zero : FrameClock :=
  { delta := 0, elapsed := 0, frames := 0, rate := 0 }

def advance (clock : FrameClock) (delta : Float32) : FrameClock :=
  { delta
    elapsed := clock.elapsed + delta
    frames := clock.frames + 1
    rate :=
      if 0 < delta then
        if clock.rate == 0 then 1 / delta else clock.rate * 0.9 + 1 / delta * 0.1
      else clock.rate }

end FrameClock

end Volley
