import Volley.Actor

/-!
# Parameters of conditions and actions
-/

namespace Volley

namespace Vec3

/-- A point in a config table: an object with named coordinates, of which the
depth may be missing. -/
def decodePoint {ν : Type} [Numeric ν] : Decoder ν Vec3 := fun room tree => do
  let fields ← Fields.of? [["x"], ["y"], ["z"]] room tree
  let x ← fields.required "x" Decoder.single
  let y ← fields.required "y" Decoder.single
  let z ← fields.withDefault "z" Decoder.single 0
  return { x, y, z }

def encodePoint (v : Vec3) : Json Numeral :=
  .record [("x", .ofSingle v.x), ("y", .ofSingle v.y), ("z", .ofSingle v.z)]

end Vec3

/-- How the vertical rate of an arc is sampled: over a fixed window, or over the tick itself. -/
inductive ArcSampling where
  | fixedWindow
  | tickDelta
  deriving DecidableEq, Repr

namespace ArcSampling

def name : ArcSampling → String
  | .fixedWindow => "fixedWindow"
  | .tickDelta => "tickDelta"

def words : List (String × ArcSampling) :=
  [("fixedWindow", .fixedWindow), ("tickDelta", .tickDelta)]

def decode {ν : Type} : Decoder ν ArcSampling :=
  Decoder.word words

def encode (sampling : ArcSampling) : Json Numeral :=
  .string sampling.name

instance : Stored ArcSampling := ⟨decode, encode⟩

end ArcSampling

/-- Holds once a bullet has lived for the given time. -/
structure Lifetime where
  seconds : Float32
  deriving DecidableEq, Repr

namespace Lifetime

def decode {ν : Type} [Numeric ν] : Decoder ν Lifetime := fun room tree => do
  let fields ← Fields.of? [["lifetimeSec"]] room tree
  let seconds ← fields.required "lifetimeSec" Decoder.single
  return { seconds }

def encode (params : Lifetime) : Json Numeral :=
  .record [("lifetimeSec", .ofSingle params.seconds)]

instance : Stored Lifetime := ⟨decode, encode⟩

end Lifetime

/-- Holds while the target is near: the given point, or else the given unit. -/
structure Proximity where
  unit : Option ActorId
  point : Option Vec3
  maxDistance : Float32
  deriving DecidableEq, Repr

namespace Proximity

def decode {ν : Type} [Numeric ν] : Decoder ν Proximity := fun room tree => do
  let fields ←
    Fields.of? [["targetUnit", "targetActorNo"], ["targetPosition"], ["maxDistance"]] room tree
  let unit ← fields.optional "targetUnit" ActorId.decode
  let point ← fields.optional "targetPosition" Vec3.decodePoint
  let maxDistance ← fields.required "maxDistance" Decoder.single
  return { unit, point, maxDistance }

def encode (params : Proximity) : Json Numeral :=
  .record
    [("targetUnit", .ofOption ActorId.encode params.unit),
      ("targetPosition", .ofOption Vec3.encodePoint params.point),
      ("maxDistance", .ofSingle params.maxDistance)]

instance : Stored Proximity := ⟨decode, encode⟩

end Proximity

/-- A condition or an action that the host defines under a name. -/
structure CustomCall where
  name : String
  params : FreeForm

namespace CustomCall

def decode {ν : Type} [Numeric ν] : Decoder ν CustomCall := fun room tree => do
  let fields ← Fields.of? [["name", "conditionName", "actionName"], ["params"]] room tree
  let name ← fields.required "name" Decoder.string
  let params ← fields.withDefault "params" Json.freeForm? .null
  return { name, params }

def encode (call : CustomCall) : Json Numeral :=
  .record [("name", .string call.name), ("params", call.params.written)]

instance : Stored CustomCall := ⟨decode, encode⟩

end CustomCall

/-- Orders a flight to a target; the turn rate is in degrees a second. -/
structure FlyOrder where
  unit : Option ActorId
  point : Option Vec3
  speed : Float32
  acceleration : Float32
  maxSpeed : Option Float32
  arc : Float32
  homing : Bool
  turnRate : Float32
  collisionRadius : Float32
  stopOnHit : Bool
  arcSampling : ArcSampling
  deriving DecidableEq, Repr

namespace FlyOrder

/-- The order that an empty record stands for. -/
def standard : FlyOrder :=
  { unit := none, point := none, speed := 5, acceleration := 0, maxSpeed := none, arc := 0,
    homing := false
    turnRate := 180, collisionRadius := 0.1, stopOnHit := true, arcSampling := .fixedWindow }

def schema : List (List String) :=
  [["targetUnit", "targetActorNo"], ["targetPosition"], ["speed"], ["acceleration"], ["maxSpeed"],
    ["arc"], ["homing"], ["homingRate"], ["collisionRadius"], ["stopOnHit"], ["arcSampling"]]

def decode {ν : Type} [Numeric ν] : Decoder ν FlyOrder := fun room tree => do
  let fields ← Fields.of? schema room tree
  let unit ← fields.optional "targetUnit" ActorId.decode
  let point ← fields.optional "targetPosition" Vec3.decodePoint
  let speed ← fields.withDefault "speed" Decoder.single standard.speed
  let acceleration ← fields.withDefault "acceleration" Decoder.single standard.acceleration
  let maxSpeed ← fields.optional "maxSpeed" Decoder.single
  let arc ← fields.withDefault "arc" Decoder.single standard.arc
  let homing ← fields.withDefault "homing" Decoder.bool standard.homing
  let turnRate ← fields.withDefault "homingRate" Decoder.single standard.turnRate
  let collisionRadius ← fields.withDefault "collisionRadius" Decoder.single standard.collisionRadius
  let stopOnHit ← fields.withDefault "stopOnHit" Decoder.bool standard.stopOnHit
  let arcSampling ← fields.withDefault "arcSampling" ArcSampling.decode standard.arcSampling
  return {
    unit, point, speed, acceleration, maxSpeed, arc, homing, turnRate, collisionRadius, stopOnHit,
    arcSampling }

def encode (order : FlyOrder) : Json Numeral :=
  .record
    [("targetUnit", .ofOption ActorId.encode order.unit),
      ("targetPosition", .ofOption Vec3.encodePoint order.point),
      ("speed", .ofSingle order.speed),
      ("acceleration", .ofSingle order.acceleration),
      ("maxSpeed", .ofOption Json.ofSingle order.maxSpeed),
      ("arc", .ofSingle order.arc),
      ("homing", .bool order.homing),
      ("homingRate", .ofSingle order.turnRate),
      ("collisionRadius", .ofSingle order.collisionRadius),
      ("stopOnHit", .bool order.stopOnHit),
      ("arcSampling", order.arcSampling.encode)]

instance : Stored FlyOrder := ⟨decode, encode⟩

end FlyOrder

/-- Whether damage goes to the target alone or to everything in range. -/
inductive DamageReach where
  | target
  | range
  deriving DecidableEq, Repr

namespace DamageReach

def name : DamageReach → String
  | .target => "target"
  | .range => "range"

def words : List (String × DamageReach) :=
  [("target", .target), ("range", .range)]

def decode {ν : Type} : Decoder ν DamageReach :=
  Decoder.word words

def encode (reach : DamageReach) : Json Numeral :=
  .string reach.name

instance : Stored DamageReach := ⟨decode, encode⟩

end DamageReach

structure DamageOrder where
  value : Option Float32
  key : Option String
  ratio : Option Float32
  ratioKey : Option String
  reach : Option DamageReach
  maxDistance : Option Float32
  radius : Option Float32
  deriving DecidableEq, Repr

namespace DamageOrder

def schema : List (List String) :=
  [["damageValue"], ["damageKey"], ["damageRatio"], ["damageRatioKey"], ["triggerType"],
    ["maxDistanceValue"], ["radius"]]

def decode {ν : Type} [Numeric ν] : Decoder ν DamageOrder := fun room tree => do
  let fields ← Fields.of? schema room tree
  let value ← fields.optional "damageValue" Decoder.single
  let key ← fields.optional "damageKey" Decoder.string
  let ratio ← fields.optional "damageRatio" Decoder.single
  let ratioKey ← fields.optional "damageRatioKey" Decoder.string
  let reach ← fields.optional "triggerType" DamageReach.decode
  let maxDistance ← fields.optional "maxDistanceValue" Decoder.single
  let radius ← fields.optional "radius" Decoder.single
  return { value, key, ratio, ratioKey, reach, maxDistance, radius }

def encode (order : DamageOrder) : Json Numeral :=
  .record
    [("damageValue", .ofOption Json.ofSingle order.value),
      ("damageKey", .ofOption Json.string order.key),
      ("damageRatio", .ofOption Json.ofSingle order.ratio),
      ("damageRatioKey", .ofOption Json.string order.ratioKey),
      ("triggerType", .ofOption DamageReach.encode order.reach),
      ("maxDistanceValue", .ofOption Json.ofSingle order.maxDistance),
      ("radius", .ofOption Json.ofSingle order.radius)]

instance : Stored DamageOrder := ⟨decode, encode⟩

end DamageOrder

end Volley
