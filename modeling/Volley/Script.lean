import Volley.Bullet

/-!
# Scripts

A custom action is a script: calls of the operations of the bullet it runs on, each chosen by
what the calls before it have brought about. Calls may start, update or end the bullet while its
rules run, and so run rules themselves.
-/

namespace Volley

inductive Call where
  | start (link : Option Link)
  | update (dt : Float32)
  | finish (reason : Option EndReason)
  | edit (change : Actor.Edit)
  | fly (order : FlyOrder)
  | damage (order : DamageOrder)
  | announce (segment : UInt32) (cue : Cue)
  | on (kind : EventKind) (respond : List BulletEvent → BulletEvent → Response)
  | off (kind : EventKind) (listener : ListenerId)
  | signal (value : FreeForm)

inductive Reply where
  | done
  | refused (refusal : Refusal)
  | subscribed (listener : ListenerId)
  | unsubscribed (found : Bool)
  deriving DecidableEq, Repr

def Call.perform (fire : Turn.Fire) (call : Call) (turn : Turn) : Reply × Turn :=
  match call with
  | .start link =>
      match turn.start fire link with
      | .ok started => (.done, started)
      | .error refusal => (.refused refusal, turn)
  | .update dt => (.done, turn.update fire dt)
  | .finish reason => (.done, turn.finish fire reason)
  | .edit change =>
      (.done, { turn with bullet := { turn.bullet with actor := turn.bullet.actor.edit change } })
  | .fly order => (.done, turn.fly order)
  | .damage order => (.done, turn.damage order)
  | .announce segment cue => (.done, turn.emit (.ruleFired turn.bullet.id segment cue))
  | .on kind respond =>
      let (emitter, listener) := turn.bullet.emitter.on kind (.host respond)
      (.subscribed listener, { turn with bullet := { turn.bullet with emitter } })
  | .off kind listener =>
      let (emitter, found) := turn.bullet.emitter.off kind listener
      let told :=
        if turn.bullet.emitter.queueAt kind listener then [Effect.unqueued turn.bullet.id kind]
        else []
      (.unsubscribed found,
        { turn with bullet := { turn.bullet with emitter }, effects := turn.effects ++ told })
  | .signal value => (.done, turn.record (.signalled value))

/-- A sequence of calls, each chosen by the reply to the one before and by the
bullet as it left it. -/
inductive Script where
  | done
  | call (first : Call) (next : Reply → Bullet → Script)

namespace Script

def one (call : Call) : Script :=
  .call call fun _ _ => .done

def perform (fire : Turn.Fire) : Script → Turn → Turn
  | .done, turn => turn
  | .call first next, turn =>
      let (reply, after) := first.perform fire turn
      perform fire (next reply after.bullet) after

end Script

/-- The custom conditions and actions of bullets, by name. -/
structure ScriptBook where
  conditions : Table String (Bullet → FreeForm → Bool)
  actions : Table String (FreeForm → Bullet → Script)

namespace ScriptBook

def empty : ScriptBook :=
  { conditions := .empty, actions := .empty }

def handlers (book : ScriptBook) (fire : Turn.Fire) : Handlers Turn :=
  { condition := fun name =>
      (book.conditions.find? name).map fun condition turn params => condition turn.bullet params
    action := fun name =>
      (book.actions.find? name).map fun action params turn =>
        (action params turn.bullet).perform fire turn }

end ScriptBook

structure Shot where
  bullet : Bullet
  program : Program
  book : ScriptBook

namespace Shot

def create (id : ActorId) (blueprint : Blueprint) (book : ScriptBook) (faction : UInt32)
    (position : Vec3) : Shot :=
  { bullet := .create id blueprint faction position, program := .compile blueprint.segments, book }

/-- Runs the rules that wait for a cue. Scripts may cause rules to run within rules; below the
given depth no further rules run. -/
def fire (program : Program) (book : ScriptBook) : (depth : Nat) → Turn.Fire
  | 0 => fun _ turn => turn
  | depth + 1 => fun cue turn => (program.run (book.handlers (fire program book depth)) cue turn).2

/-- How deep rules may run within rules: far deeper than a script goes that means to end. -/
def nesting : Nat :=
  1000000

/-- Performs an operation from outside and returns its effects. -/
def perform (shot : Shot) (around : Surroundings) (call : Call) : Reply × Shot × List Effect :=
  let (reply, turn) :=
    call.perform (fire shot.program shot.book nesting)
      { bullet := shot.bullet, around, effects := [] }
  (reply, { shot with bullet := turn.bullet }, turn.effects)

end Shot

end Volley
