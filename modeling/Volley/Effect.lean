import Volley.Context
import Volley.Timing

/-!
# Effects

Everything an operation does to the outside is an effect; operations return their effects
in order. That an event was emitted and that a queue was unsubscribed are told as well,
though nobody outside has to notice.
-/

namespace Volley

inductive Effect where
  /-- A bullet emitted an event, whoever listens. -/
  | emitted (event : BulletEvent)
  /-- A listener was called for the given time. -/
  | heard (listener : ListenerId) (call : Nat) (event : BulletEvent)
  /-- An event entered the queue of the world. -/
  | queued (event : BulletEvent)
  /-- The queue of the world was unsubscribed from the events of a kind of a bullet. -/
  | unqueued (bullet : ActorId) (kind : EventKind)
  /-- A host was told that a bullet has ended. -/
  | endReported (host : HostId) (id : ActorId) (reason : Option EndReason)
  /-- A host was asked for damage and answered. -/
  | damageCaused (host : HostId) (request : DamageRequest) (applied : Option Bool)
  /-- A custom action signalled its host. -/
  | signalled (value : FreeForm)
  | noticed (notice : Notice)
  /-- A frame was counted. -/
  | framed (clock : FrameClock)

namespace Effect

def notice? : Effect → Option Notice
  | .noticed notice => some notice
  | _ => none

def emitted? : Effect → Option BulletEvent
  | .emitted event => some event
  | _ => none

def queued? : Effect → Option BulletEvent
  | .queued event => some event
  | _ => none

def unqueued? : Effect → Option (ActorId × EventKind)
  | .unqueued bullet kind => some (bullet, kind)
  | _ => none

end Effect

end Volley
