import Volley.Config.Level
import Volley.Notice

/-!
# Visuals

What the simulation tells the render side: which visuals to load, where they
stand, and which overlays to draw.
-/

namespace Volley

structure VisualRequest where
  actor : ActorId
  kind : ActorKind
  modelId : String
  configId : UInt32
  faction : UInt32
  deriving DecidableEq, Repr

def VisualRequest.ofActor (actor : Actor) : VisualRequest :=
  { actor := actor.id, kind := actor.kind, modelId := actor.modelId, configId := actor.configId
    faction := actor.faction }

/-- Where a visual stands; its rotation is in degrees. -/
structure VisualTransform where
  position : Vec3
  rotation : Float32
  scale : Float32
  visible : Bool
  deriving DecidableEq, Repr

def VisualTransform.ofActor (actor : Actor) : VisualTransform :=
  { position := actor.position, rotation := actor.rotation, scale := actor.scale,
    visible := actor.visible }

/-- The debug layers that are drawn over a terrain. -/
structure Overlay where
  blockedCells : Bool
  buildCells : Bool
  deriving DecidableEq, Repr

structure LoadId where
  number : Nat
  deriving DecidableEq, Repr

inductive StageCall (V : Type) where
  | load (id : LoadId) (request : VisualRequest)
  | add (id : VisualId) (visual : V)
  | remove (id : VisualId)
  | apply (id : VisualId) (transform : VisualTransform)
  | overlay (overlay : Overlay) (terrain : Option Terrain)

end Volley
