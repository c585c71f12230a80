import Volley.Config.Params
import Volley.Number.Angle

/-!
# Flight

A flight carries a projectile to a target: straight, accelerating, along an arc or homing, in any
combination. Every update tests for a hit at the position before the move.
-/

namespace Volley

abbrev Locator := ActorId → Option Vec3

namespace Vec3

/-- A direction is taken from points at least this far apart. -/
def leastSeparation : Float32 :=
  0.001

/-- The unit vector from one point to another; points next to each other face forward. -/
def directionTo (start target : Vec3) : Vec3 :=
  let delta := target - start
  let length := delta.length
  if length < leastSeparation then forward else delta.shrink length

end Vec3

/-- Where a flight is headed. The unit wins over the point as long as it can be located. -/
structure Target where
  unit : Option ActorId
  point : Option Vec3
  deriving DecidableEq, Repr

namespace Target

def nowhere : Target :=
  { unit := none, point := none }

def locate (target : Target) (locator : Locator) : Option Vec3 :=
  match target.unit.bind locator with
  | some position => some position
  | none => target.point

end Target

/-- The parameters of a flight, which stay the same throughout. -/
structure FlightPlan where
  target : Target
  speed : Float32
  acceleration : Float32
  maxSpeed : Option Float32
  arc : Float32
  homing : Bool
  turnRate : Float32
  collisionRadius : Float32
  stopOnHit : Bool
  arcSampling : ArcSampling
  deriving DecidableEq, Repr

namespace FlightPlan

def ofOrder (order : FlyOrder) (target : Target) : FlightPlan :=
  { target, speed := order.speed, acceleration := order.acceleration, maxSpeed := order.maxSpeed,
    arc := order.arc
    homing := order.homing, turnRate := order.turnRate, collisionRadius := order.collisionRadius
    stopOnHit := order.stopOnHit, arcSampling := order.arcSampling }

/-- A straight flight at constant speed to a fixed point. -/
def straight (point : Vec3) (speed : Float32) : FlightPlan :=
  .ofOrder { FlyOrder.standard with speed } { unit := none, point := some point }

end FlightPlan

/-- The square of the hit distance of a flight without a collision radius. -/
def defaultHitDistanceSquared : Float32 :=
  0.01

/-- The length of the fixed sampling window of an arc, in seconds. -/
def arcWindow : Float32 :=
  0.016

/-- The height of a parabola over its ground line at a progress from zero to
one; it peaks at `arc` halfway. -/
def arcHeight (arc progress : Float32) : Float32 :=
  4 * arc * progress * (1 - progress)

def radians (degrees : Float32) : Float32 :=
  degrees * (Angle.half / 180)

def degrees (radians : Float32) : Float32 :=
  radians * 57.2957795130823208767981548141051703

structure Flight where
  plan : FlightPlan
  speed : Float32
  direction : Vec3
  start : Vec3
  totalDistance : Float32
  traveled : Float32
  active : Bool
  deriving DecidableEq, Repr

namespace Flight

inductive Step where
  | moved (displacement : Vec3)
  | hit
  | targetLost
  | inactive
  deriving DecidableEq, Repr

def Step.name : Step → String
  | .moved _ => "moved"
  | .hit => "hit"
  | .targetLost => "targetLost"
  | .inactive => "inactive"

/-- A flight that sets out from `start` for the present position of its target. -/
def launch (plan : FlightPlan) (start : Vec3) (locator : Locator) : Flight :=
  let ready : Flight :=
    { plan, speed := plan.speed, direction := .forward, start, totalDistance := 0, traveled := 0,
      active := true }
  match plan.target.locate locator with
  | some target =>
      { ready with
        direction := start.directionTo target, totalDistance := start.distance target }
  | none => ready

def collides (plan : FlightPlan) (position target : Vec3) : Bool :=
  if plan.collisionRadius ≤ 0 then position.distanceSquared target ≤ defaultHitDistanceSquared
  else position.distance target ≤ plan.collisionRadius

/-- The speed after `dt` seconds, at most the greatest speed. -/
def accelerate (plan : FlightPlan) (speed dt : Float32) : Float32 :=
  let raised := speed + plan.acceleration * dt
  match plan.maxSpeed with
  | some most => smaller raised most
  | none => raised

/-- Turns a direction toward another by at most the angle `budget`. -/
def turn (direction desired : Vec3) (budget : Float32) : Vec3 :=
  let angle := arccos (clamp (direction.dot desired) (-1) 1)
  if angle ≤ budget then desired
  else ((direction.blend desired (budget / angle)).normalize?).getD .forward

def steer (plan : FlightPlan) (direction position target : Vec3) (dt : Float32) : Vec3 :=
  if plan.homing then turn direction (position.directionTo target) (radians plan.turnRate * dt)
  else direction

/-- The vertical rate of the arc at the present progress: a difference quotient backward in time. -/
def arcRate (flight : Flight) (dt : Float32) : Float32 :=
  let window := match flight.plan.arcSampling with
    | .fixedWindow => arcWindow
    | .tickDelta => dt
  if flight.totalDistance ≤ 0 then 0
  else if window ≤ 0 then 0
  else
    let progress := clamp (flight.traveled / flight.totalDistance) 0 1
    let previous := clamp ((flight.traveled - flight.speed * window) / flight.totalDistance) 0 1
    (arcHeight flight.plan.arc progress - arcHeight flight.plan.arc previous) / window

def lift (flight : Flight) (dt : Float32) (displacement : Vec3) : Vec3 :=
  if flight.plan.arc == 0 then displacement
  else { displacement with y := displacement.y + flight.arcRate dt * dt }

def update (flight : Flight) (locator : Locator) (position : Vec3) (dt : Float32) : Flight × Step :=
  if !flight.active then (flight, .inactive)
  else
    match flight.plan.target.locate locator with
    | none => ({ flight with active := false }, .targetLost)
    | some target =>
        if collides flight.plan position target then ({ flight with active := false }, .hit)
        else
          let speed := accelerate flight.plan flight.speed dt
          let step := speed * dt
          let moved : Flight :=
            { flight with
              speed
              traveled := flight.traveled + step
              direction := steer flight.plan flight.direction position target dt }
          (moved, .moved (moved.lift dt (moved.direction.scale step)))

end Flight

end Volley
