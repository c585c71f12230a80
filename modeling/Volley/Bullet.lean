import Volley.Emitter
import Volley.Program

/-!
# Bullets

A bullet is an actor with a life of its own: it starts once, flies while a flight is attached, and
ends once. At each of these points the rules of its program run; `fire` stands for running them, so
every operation below says when the rules run and nothing about what they do.
-/

namespace Volley

/-- A bullet without its program. Its flight finds the target through the guide, which is the link
that the bullet had when the flight was ordered. -/
structure Bullet where
  actor : Actor
  phase : Phase
  elapsed : Float32
  flight : Option Flight
  guide : Option Link
  link : Option Link
  endReason : Option EndReason
  emitter : Emitter

namespace Bullet

def create (id : ActorId) (blueprint : Blueprint) (faction : UInt32) (position : Vec3) : Bullet :=
  { actor := (Actor.create id .bullet blueprint.modelId faction).editAll
      [.position position, .configId blueprint.id, .active false]
    phase := .pending, elapsed := 0, flight := none, guide := none, link := none, endReason := none
    emitter := .empty }

def id (bullet : Bullet) : ActorId :=
  bullet.actor.id

def isActive (bullet : Bullet) : Bool :=
  bullet.phase = .active

def isFlying (bullet : Bullet) : Bool :=
  match bullet.flight with
  | some flight => flight.active
  | none => false

def context? (bullet : Bullet) (around : Surroundings) : Option Context :=
  bullet.link.map fun link => link.context around

def locator (bullet : Bullet) (around : Surroundings) : Locator :=
  Link.locator bullet.link around

/-- What the flight of a bullet can locate. -/
def guidance (bullet : Bullet) (around : Surroundings) : Locator :=
  Link.locator bullet.guide around

def targetPosition (bullet : Bullet) (around : Surroundings) : Option Vec3 :=
  bullet.flight.bind fun flight => flight.plan.target.locate (bullet.guidance around)

/-- The target of a flight: the one that is ordered, or else the defaults of the context. -/
def flightTarget (bullet : Bullet) (around : Surroundings) (order : FlyOrder) : Target :=
  if order.unit.isSome || order.point.isSome then { unit := order.unit, point := order.point }
  else
    match bullet.context? around with
    | some context => { unit := context.defaultUnit, point := context.defaultPoint }
    | none => .nowhere

/-- Sideways moves at most this long do not turn the bullet. -/
def leastTurn : Float32 :=
  1e-4

def move (bullet : Bullet) (displacement : Vec3) : Bullet :=
  let actor :=
    if leastTurn < displacement.x.abs || leastTurn < displacement.z.abs then
      bullet.actor.edit (.rotation (degrees (arctan2 displacement.z (-displacement.x))))
    else bullet.actor
  { bullet with actor := actor.edit (.translate displacement) }

end Bullet

/-- A bullet in the middle of an operation, with the effects so far. -/
structure Turn where
  bullet : Bullet
  around : Surroundings
  effects : List Effect

namespace Turn

def record (turn : Turn) (effect : Effect) : Turn :=
  { turn with effects := turn.effects ++ [effect] }

def emit (turn : Turn) (event : BulletEvent) : Turn :=
  let (emitter, effects) := turn.bullet.emitter.emit event
  { turn with
    bullet := { turn.bullet with emitter }
    effects := turn.effects ++ .emitted event :: effects }

def note (turn : Turn) (notice : Notice) : Turn :=
  turn.record (.noticed notice)

/-- Attaches a fresh flight, if its target can be located. The flight keeps to
the context of this moment. -/
def fly (turn : Turn) (order : FlyOrder) : Turn :=
  let target := turn.bullet.flightTarget turn.around order
  let locator := turn.bullet.locator turn.around
  match target.locate locator with
  | none => turn.note (.noFlightTarget turn.bullet.id)
  | some _ =>
      let flight := Flight.launch (.ofOrder order target) turn.bullet.actor.position locator
      { turn with bullet := { turn.bullet with flight := some flight, guide := turn.bullet.link } }

/-- The damage that an order deals; a ratio of zero is left out of account. -/
def damageOf (order : DamageOrder) : Float32 :=
  let value := order.value.getD 0
  match order.ratio with
  | some ratio => if ratio == 0 then value else value * ratio
  | none => value

/-- Asks a context for damage to its default unit. -/
def strike (turn : Turn) (order : DamageOrder) (link : Link) (target : ActorId) : Turn :=
  let damage := damageOf order
  if damage ≤ 0 then turn.note (.damageNotPositive turn.bullet.id damage)
  else
    let request : DamageRequest := { attacker := turn.bullet.id, target, amount := damage.toUInt32 }
    let applied := (link.context turn.around).damage request
    let asked := match link.host? with
      | some host => turn.record (.damageCaused host request applied)
      | none => turn
    match applied with
    | some _ => asked
    | none => asked.note (.noDamageChannel turn.bullet.id)

def damage (turn : Turn) (order : DamageOrder) : Turn :=
  let id := turn.bullet.id
  match turn.bullet.link with
  | none => turn.note (.noContext id)
  | some link =>
      if order.reach = some .range then turn.note (.rangeDamage id)
      else
        match (link.context turn.around).defaultUnit with
        | none => turn.note (.noDamageTarget id)
        | some target =>
            let first := if order.key.isSome then turn.note (.damageKeyIgnored id) else turn
            let second :=
              if order.ratioKey.isSome then first.note (.damageRatioKeyIgnored id) else first
            second.strike order link target

instance : TriggerHost Turn where
  elapsed turn := turn.bullet.elapsed
  position turn := turn.bullet.actor.position
  unitPosition turn := turn.bullet.locator turn.around
  orderFlight order turn := turn.fly order
  orderDamage order turn := turn.damage order
  announce segment cue turn := turn.emit (.ruleFired turn.bullet.id segment cue)
  note notice turn := turn.note notice

/-- Runs the rules that wait for a cue. -/
abbrev Fire := Cue → Turn → Turn

/-- Starts a pending bullet. A rule may end it at once, and then it has never
started for its listeners. -/
def start (fire : Fire) (link : Option Link) (turn : Turn) : Except Refusal Turn :=
  if turn.bullet.phase ≠ .pending then .error (.invalidTransition turn.bullet.id turn.bullet.phase)
  else
    let active : Bullet :=
      { turn.bullet with
        link, elapsed := 0, phase := .active, actor := turn.bullet.actor.edit (.active true) }
    let fired := fire .bulletStart { turn with bullet := active }
    if fired.bullet.phase = .active then .ok (fired.emit (.started fired.bullet.id)) else .ok fired

def finish (fire : Fire) (reason : Option EndReason) (turn : Turn) : Turn :=
  if turn.bullet.phase ≠ .active then turn
  else
    let ended : Bullet :=
      { turn.bullet with
        phase := .ended, actor := turn.bullet.actor.edit (.active false), endReason := reason }
    let fired := fire .bulletEnd { turn with bullet := ended }
    let told := fired.emit (.ended fired.bullet.id reason)
    match told.bullet.link.bind Link.host? with
    | some host => told.record (.endReported host told.bullet.id reason)
    | none => told

/-- Lets an active bullet live for `dt` seconds. A flight that does not stop
on a hit just ends where it is. -/
def update (fire : Fire) (dt : Float32) (turn : Turn) : Turn :=
  if turn.bullet.phase ≠ .active then turn
  else
    let older : Bullet := { turn.bullet with elapsed := turn.bullet.elapsed + dt }
    match older.flight with
    | none => { turn with bullet := older }
    | some flight =>
        if !flight.active then { turn with bullet := older }
        else
          let (next, step) := flight.update (older.guidance turn.around) older.actor.position dt
          let flown : Turn := { turn with bullet := { older with flight := some next } }
          match step with
          | .moved displacement => { flown with bullet := flown.bullet.move displacement }
          | .hit =>
              if flight.plan.stopOnHit then finish fire (some .hit) (fire .bulletHit flown)
              else flown
          | .targetLost =>
              if flight.plan.stopOnHit then finish fire (some .targetLost) flown else flown
          | .inactive => flown

end Turn

end Volley
