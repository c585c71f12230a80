import Volley.Effect

/-!
# Emitters

An emitter delivers the events of one bullet to the listeners of their kind, in the order of
subscription. A listener that fails is noticed and hinders no other.
-/

namespace Volley

/-- How a listener took an event. A listener that panics may leave a text. -/
inductive Response where
  | ok
  | failed (reason : String)
  | panicked (reason : Option String)
  deriving DecidableEq, Repr

/-- A host's listener decides by the events it has heard before, the last one first, and the present
one. The queue of a world takes every event. -/
inductive Ear where
  | host (respond : List BulletEvent → BulletEvent → Response)
  | queue

def Ear.isQueue : Ear → Bool
  | .queue => true
  | .host _ => false

structure Listener where
  id : ListenerId
  kind : EventKind
  ear : Ear
  heard : List BulletEvent

namespace Listener

def effects (listener : Listener) (event : BulletEvent) : List Effect :=
  match listener.ear with
  | .queue => [.queued event]
  | .host respond =>
      .heard listener.id (listener.heard.length + 1) event ::
        match respond listener.heard event with
        | .ok => []
        | .failed reason => [.noticed (.listenerFailed listener.id event.kind reason)]
        | .panicked reason => [.noticed (.listenerPanicked listener.id event.kind reason)]

def hear (listener : Listener) (event : BulletEvent) : Listener :=
  { listener with heard := event :: listener.heard }

/-- Whether the listener goes by the given kind and handle. -/
def answersTo (listener : Listener) (kind : EventKind) (id : ListenerId) : Bool :=
  decide (listener.kind = kind ∧ listener.id = id)

end Listener

/-- The listeners in the order of subscription, and how many handles have been given out. -/
structure Emitter where
  issued : Nat
  listeners : List Listener

namespace Emitter

def empty : Emitter :=
  { issued := 0, listeners := [] }

/-- Subscribes a listener under the next handle; the first handle has the number one. -/
def on (emitter : Emitter) (kind : EventKind) (ear : Ear) : Emitter × ListenerId :=
  let id : ListenerId := { number := emitter.issued + 1 }
  ({ issued := emitter.issued + 1
     listeners := emitter.listeners ++ [{ id, kind, ear, heard := [] }] },
    id)

/-- Whether it is the queue of a world that goes by a kind and a handle. -/
def queueAt (emitter : Emitter) (kind : EventKind) (id : ListenerId) : Bool :=
  emitter.listeners.any fun listener => listener.answersTo kind id && listener.ear.isQueue

/-- Unsubscribes a listener, a queue like any other, and tells whether it was
subscribed to that kind. -/
def off (emitter : Emitter) (kind : EventKind) (id : ListenerId) : Emitter × Bool :=
  ({ emitter with
      listeners := emitter.listeners.filter fun listener => !listener.answersTo kind id },
    emitter.listeners.any fun listener => listener.answersTo kind id)

def count (emitter : Emitter) (kind : EventKind) : Nat :=
  (emitter.listeners.filter fun listener => listener.kind = kind).length

def emit (emitter : Emitter) (event : BulletEvent) : Emitter × List Effect :=
  ({ emitter with
      listeners := emitter.listeners.map fun listener =>
        if listener.kind = event.kind then listener.hear event else listener },
    (emitter.listeners.filter fun listener => listener.kind = event.kind).flatMap fun listener =>
      listener.effects event)

end Emitter

end Volley
