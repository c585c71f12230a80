import Volley.Actor

/-!
# Snapshots

A snapshot is the read-only picture of a world that the render side works from, with the actors in
the order of their ids. An actor's snapshot is the actor itself.
-/

namespace Volley

namespace Vec3

/-- A point in a snapshot: an array of its three coordinates. -/
def decodeTriple {ν : Type} [Numeric ν] : Decoder ν Vec3
  | room, .array [x, y, z] => do
      let inner ← room.enter?
      let x ← Decoder.single inner x
      let y ← Decoder.single inner y
      let z ← Decoder.single inner z
      return { x, y, z }
  | _, _ => none

def encodeTriple (v : Vec3) : Json Numeral :=
  .array [.ofSingle v.x, .ofSingle v.y, .ofSingle v.z]

end Vec3

namespace Actor

def schema : List (List String) :=
  [["id"], ["kind"], ["modelId"], ["configId"], ["faction"], ["position"], ["rotation"], ["scale"],
    ["visible"], ["active"], ["visual"]]

/-- In the form of an array the visual must be written, in the form of an
object it may be missing. -/
def decode {ν : Type} [Numeric ν] : Decoder ν Actor := fun room tree => do
  let fields ← Fields.of? schema room tree
  let id ← fields.required "id" ActorId.decode
  let kind ← fields.required "kind" ActorKind.decode
  let modelId ← fields.required "modelId" Decoder.string
  let configId ← fields.required "configId" Decoder.word32
  let faction ← fields.required "faction" Decoder.word32
  let position ← fields.required "position" Vec3.decodeTriple
  let rotation ← fields.required "rotation" Decoder.single
  let scale ← fields.required "scale" Decoder.single
  let visible ← fields.required "visible" Decoder.bool
  let active ← fields.required "active" Decoder.bool
  let visual ← if fields.positional then fields.required "visual" (Decoder.optional VisualId.decode)
    else fields.optional "visual" VisualId.decode
  return {
    id, kind, modelId, configId, faction, position, rotation, scale, visible, active, visual }

def encode (actor : Actor) : Json Numeral :=
  .record
    [("id", actor.id.encode), ("kind", actor.kind.encode), ("modelId", .string actor.modelId),
      ("configId", .ofNat actor.configId.toNat), ("faction", .ofNat actor.faction.toNat),
      ("position", actor.position.encodeTriple), ("rotation", .ofSingle actor.rotation),
      ("scale", .ofSingle actor.scale), ("visible", .bool actor.visible),
      ("active", .bool actor.active), ("visual", .ofOption VisualId.encode actor.visual)]

instance : Stored Actor := ⟨decode, encode⟩

end Actor

structure Snapshot where
  tick : UInt64
  time : Float32
  actors : Array Actor
  deriving DecidableEq, Repr

namespace Snapshot

def take (tick : UInt64) (time : Float32) (actors : List Actor) : Snapshot :=
  { tick, time, actors := (actors.mergeSort fun a b => !decide (b.id < a.id)).toArray }

/-- The last of `size` positions from `base` on that holds no id above the
given one, if the ids ascend. -/
def locate (actors : Array Actor) (id : ActorId) (base size : Nat) : Nat :=
  if size ≤ 1 then base
  else
    let half := size / 2
    match actors[base + half]? with
    | some middle => locate actors id (if id < middle.id then base else base + half) (size - half)
    | none => base
termination_by size
decreasing_by omega

/-- The actor with an id, by binary search. -/
def actor? (snapshot : Snapshot) (id : ActorId) : Option Actor :=
  match snapshot.actors[locate snapshot.actors id 0 snapshot.actors.size]? with
  | some actor => if actor.id = id then some actor else none
  | none => none

def isActive (snapshot : Snapshot) (id : ActorId) : Bool :=
  match snapshot.actor? id with
  | some actor => actor.active
  | none => false

def countKind (snapshot : Snapshot) (kind : ActorKind) : Nat :=
  (snapshot.actors.toList.filter fun actor => actor.kind = kind).length

def decode {ν : Type} [Numeric ν] : Decoder ν Snapshot := fun room tree => do
  let fields ← Fields.of? [["tick"], ["time"], ["actors"]] room tree
  let tick ← fields.required "tick" Decoder.word64
  let time ← fields.required "time" Decoder.single
  let actors ← fields.required "actors" (Decoder.list Actor.decode)
  return { tick, time, actors := actors.toArray }

def encode (snapshot : Snapshot) : Json Numeral :=
  .record
    [("tick", .ofNat snapshot.tick.toNat), ("time", .ofSingle snapshot.time),
      ("actors", .ofList Actor.encode snapshot.actors.toList)]

instance : Stored Snapshot := ⟨decode, encode⟩

end Snapshot

end Volley
