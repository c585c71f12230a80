import Volley.Config.Params

/-!
# Levels and terrains

A level places actors on a terrain. The cells of a terrain are drawn by debug overlays only.
-/

namespace Volley

structure Placement where
  id : ActorId
  kind : ActorKind
  modelId : String
  configId : UInt32
  faction : UInt32
  position : Vec3
  rotation : Float32
  scale : Float32
  deriving DecidableEq, Repr

namespace Placement

def schema : List (List String) :=
  [["id"], ["kind"], ["modelId"], ["configId"], ["faction"], ["position"], ["rotation"], ["scale"]]

def decode {ν : Type} [Numeric ν] : Decoder ν Placement := fun room tree => do
  let fields ← Fields.of? schema room tree
  let id ← fields.required "id" ActorId.decode
  let kind ← fields.withDefault "kind" ActorKind.decode .unit
  let modelId ← fields.required "modelId" Decoder.string
  let configId ← fields.withDefault "configId" Decoder.word32 0
  let faction ← fields.withDefault "faction" Decoder.word32 0
  let position ← fields.withDefault "position" Vec3.decodePoint .zero
  let rotation ← fields.withDefault "rotation" Decoder.single 0
  let scale ← fields.withDefault "scale" Decoder.single 1
  return { id, kind, modelId, configId, faction, position, rotation, scale }

def encode (placement : Placement) : Json Numeral :=
  .record
    [("id", placement.id.encode), ("kind", placement.kind.encode),
      ("modelId", .string placement.modelId),
      ("configId", .ofNat placement.configId.toNat), ("faction", .ofNat placement.faction.toNat),
      ("position", placement.position.encodePoint), ("rotation", .ofSingle placement.rotation),
      ("scale", .ofSingle placement.scale)]

instance : Stored Placement := ⟨decode, encode⟩

def actor (placement : Placement) : Actor :=
  (Actor.create placement.id placement.kind placement.modelId placement.faction).editAll
    [.position placement.position, .configId placement.configId, .rotation placement.rotation,
      .scale placement.scale]

end Placement

structure Level where
  id : UInt32
  name : String
  terrainId : UInt32
  actors : List Placement
  deriving DecidableEq, Repr

namespace Level

def decode {ν : Type} [Numeric ν] : Decoder ν Level := fun room tree => do
  let fields ← Fields.of? [["id"], ["name"], ["mapId"], ["actors"]] room tree
  let id ← fields.required "id" Decoder.word32
  let name ← fields.withDefault "name" Decoder.string ""
  let terrainId ← fields.required "mapId" Decoder.word32
  let actors ← fields.withDefault "actors" (Decoder.list Placement.decode) []
  return { id, name, terrainId, actors }

def encode (level : Level) : Json Numeral :=
  .record
    [("id", .ofNat level.id.toNat), ("name", .string level.name),
      ("mapId", .ofNat level.terrainId.toNat),
      ("actors", .ofList Placement.encode level.actors)]

instance : Stored Level := ⟨decode, encode⟩

end Level

/-- The ground of a level: its size, the cells that block movement and the
cells that accept buildings. -/
structure Terrain where
  id : UInt32
  name : String
  width : Float32
  height : Float32
  blockedCells : List UInt32
  buildCells : List UInt32
  deriving DecidableEq, Repr

namespace Terrain

def schema : List (List String) :=
  [["id"], ["name"], ["width"], ["height"], ["blockedCells"], ["buildCells"]]

def decode {ν : Type} [Numeric ν] : Decoder ν Terrain := fun room tree => do
  let fields ← Fields.of? schema room tree
  let id ← fields.required "id" Decoder.word32
  let name ← fields.withDefault "name" Decoder.string ""
  let width ← fields.withDefault "width" Decoder.single 0
  let height ← fields.withDefault "height" Decoder.single 0
  let blockedCells ← fields.withDefault "blockedCells" (Decoder.list Decoder.word32) []
  let buildCells ← fields.withDefault "buildCells" (Decoder.list Decoder.word32) []
  return { id, name, width, height, blockedCells, buildCells }

def encode (terrain : Terrain) : Json Numeral :=
  .record
    [("id", .ofNat terrain.id.toNat), ("name", .string terrain.name),
      ("width", .ofSingle terrain.width),
      ("height", .ofSingle terrain.height),
      ("blockedCells", .ofList (fun cell => .ofNat cell.toNat) terrain.blockedCells),
      ("buildCells", .ofList (fun cell => .ofNat cell.toNat) terrain.buildCells)]

instance : Stored Terrain := ⟨decode, encode⟩

end Terrain

end Volley
