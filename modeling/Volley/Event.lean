import Volley.Config.Blueprint

/-!
# Lifecycle events

A bullet is pending, then active, then ended. It publishes an event when it has started, when one of
its rules has fired and when it has ended.
-/

namespace Volley

inductive Phase where
  | pending
  | active
  | ended
  deriving DecidableEq, Repr

def Phase.name : Phase → String
  | .pending => "Pending"
  | .active => "Active"
  | .ended => "Ended"

inductive EndReason where
  | hit
  | targetLost
  | other (text : String)
  deriving DecidableEq, Repr

namespace EndReason

def text : EndReason → String
  | .hit => "hit"
  | .targetLost => "targetLost"
  | .other text => text

def ofText (text : String) : EndReason :=
  if text = "hit" then .hit else if text = "targetLost" then .targetLost else .other text

end EndReason

inductive EventKind where
  | started
  | ended
  | ruleFired
  deriving DecidableEq, Repr

namespace EventKind

def name : EventKind → String
  | .started => "Started"
  | .ended => "Ended"
  | .ruleFired => "TriggerFired"

def all : List EventKind :=
  [.started, .ended, .ruleFired]

end EventKind

inductive BulletEvent where
  | started (id : ActorId)
  | ended (id : ActorId) (reason : Option EndReason)
  | ruleFired (id : ActorId) (segment : UInt32) (cue : Cue)
  deriving DecidableEq, Repr

namespace BulletEvent

def kind : BulletEvent → EventKind
  | .started _ => .started
  | .ended _ _ => .ended
  | .ruleFired _ _ _ => .ruleFired

def bullet : BulletEvent → ActorId
  | .started id => id
  | .ended id _ => id
  | .ruleFired id _ _ => id

end BulletEvent

inductive Refusal where
  | levelNotFound (id : UInt32)
  | terrainNotFound (id : UInt32)
  | blueprintNotFound (id : UInt32)
  | actorNotFound (id : ActorId)
  | duplicateActor (id : ActorId)
  | invalidTransition (id : ActorId) (phase : Phase)
  deriving DecidableEq, Repr

def Refusal.message : Refusal → String
  | .levelNotFound id => "level config not found: " ++ toString id.toNat
  | .terrainNotFound id => "map config not found: " ++ toString id.toNat
  | .blueprintNotFound id => "bullet config not found: " ++ toString id.toNat
  | .actorNotFound id => "actor not found: " ++ id.name
  | .duplicateActor id => "actor id already in use: " ++ id.name
  | .invalidTransition id phase => "bullet " ++ id.name ++ " cannot start from " ++ phase.name

end Volley
