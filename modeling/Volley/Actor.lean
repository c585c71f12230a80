import Volley.Json.Stored
import Volley.Vec3

/-!
# Actors

An actor is anything the simulation places: a unit, a building or a bullet. Its
identity and its kind never change.
-/

namespace Volley

structure ActorId where
  number : UInt64
  deriving DecidableEq, Repr

namespace ActorId

instance : LT ActorId := ⟨fun a b => a.number < b.number⟩

instance : DecidableLT ActorId := fun a b => inferInstanceAs (Decidable (a.number < b.number))

def name (id : ActorId) : String :=
  "actor#" ++ toString id.number.toNat

def decode {ν : Type} [Numeric ν] : Decoder ν ActorId :=
  Decoder.map ActorId.mk Decoder.word64

def encode (id : ActorId) : Json Numeral :=
  .ofNat id.number.toNat

instance : Stored ActorId := ⟨decode, encode⟩

end ActorId

/-- The handle of a visual that the render side owns. -/
structure VisualId where
  name : String
  deriving DecidableEq, Repr

namespace VisualId

def ofActor (id : ActorId) : VisualId :=
  { name := "sprite_" ++ toString id.number.toNat }

def decode {ν : Type} : Decoder ν VisualId :=
  Decoder.map VisualId.mk Decoder.string

def encode (visual : VisualId) : Json Numeral :=
  .string visual.name

instance : Stored VisualId := ⟨decode, encode⟩

end VisualId

inductive ActorKind where
  | unit
  | building
  | bullet
  deriving DecidableEq, Repr

namespace ActorKind

def name : ActorKind → String
  | .unit => "unit"
  | .building => "building"
  | .bullet => "bullet"

def words : List (String × ActorKind) :=
  [("unit", .unit), ("building", .building), ("bullet", .bullet)]

def decode {ν : Type} : Decoder ν ActorKind :=
  Decoder.word words

def encode (kind : ActorKind) : Json Numeral :=
  .string kind.name

instance : Stored ActorKind := ⟨decode, encode⟩

end ActorKind

/-- The state of an actor; its rotation is in degrees. -/
structure Actor where
  id : ActorId
  kind : ActorKind
  modelId : String
  configId : UInt32
  faction : UInt32
  position : Vec3
  rotation : Float32
  scale : Float32
  visible : Bool
  active : Bool
  visual : Option VisualId
  deriving DecidableEq, Repr

namespace Actor

/-- A visible, active actor at the origin. -/
def create (id : ActorId) (kind : ActorKind) (modelId : String) (faction : UInt32) : Actor :=
  { id, kind, modelId, configId := 0, faction, position := .zero, rotation := 0, scale := 1
    visible := true, active := true, visual := none }

def leastScale : Float32 :=
  0.1

/-- A change that a host may make to an actor. -/
inductive Edit where
  | position (value : Vec3)
  | translate (delta : Vec3)
  | rotation (degrees : Float32)
  | scale (value : Float32)
  | visible (value : Bool)
  | active (value : Bool)
  | visual (value : Option VisualId)
  | modelId (value : String)
  | configId (value : UInt32)
  | faction (value : UInt32)
  deriving DecidableEq, Repr

def edit (actor : Actor) : Edit → Actor
  | .position value => { actor with position := value }
  | .translate delta => { actor with position := actor.position + delta }
  | .rotation degrees => { actor with rotation := degrees }
  | .scale value => { actor with scale := larger value leastScale }
  | .visible value => { actor with visible := value }
  | .active value => { actor with active := value }
  | .visual value => { actor with visual := value }
  | .modelId value => { actor with modelId := value }
  | .configId value => { actor with configId := value }
  | .faction value => { actor with faction := value }

def editAll (actor : Actor) (edits : List Edit) : Actor :=
  edits.foldl edit actor

@[simp]
theorem edit_id (actor : Actor) (change : Edit) : (actor.edit change).id = actor.id := by
  cases change <;> rfl

@[simp]
theorem edit_kind (actor : Actor) (change : Edit) : (actor.edit change).kind = actor.kind := by
  cases change <;> rfl

end Actor

end Volley
