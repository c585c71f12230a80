import Volley.Script
import Volley.Snapshot

/-!
# Worlds

A world holds units and bullets and advances them in ticks of fixed length. Time
that is fed in accumulates until it makes a whole tick; `drain?` settles how many
ticks are due before any of them runs.
-/

namespace Volley

/-- Moves units before the bullets of a tick; given the length of the tick. -/
abbrev Gameplay := Float32 → Actor → Actor

/-- A world. The tuning and the frame clock can be withdrawn by the host. The running number of a
tick is known to the systems of the tick, the count of finished ticks is not. -/
structure World where
  timing : Option Timing
  clock : Option FrameClock
  gameplay : List Gameplay
  host : Option HostId
  units : List Actor
  shots : List Shot
  index : ActorIndex
  events : List BulletEvent
  running : UInt64
  tick : UInt64
  time : Float32
  accumulator : Float32

namespace World

/-- An empty world with usable tuning. -/
def create (timing : Timing) : World × List Notice :=
  let (timing, notices) := timing.sanitize
  ({ timing := some timing, clock := some .zero, gameplay := [], host := none, units := []
     shots := [], index := .empty, events := [], running := 0, tick := 0, time := 0
     accumulator := 0 },
    notices)

def config (world : World) : Timing :=
  world.timing.getD .standard

def frameClock (world : World) : FrameClock :=
  world.clock.getD .zero

def around (world : World) (hosts : HostId → Context) : Surroundings :=
  { index := world.index, hosts }

def enqueue (world : World) (effects : List Effect) : World :=
  { world with events := world.events ++ effects.filterMap Effect.queued? }

/-- The positions of the active units and of the bullets in flight or waiting to fly. -/
def positions (world : World) : ActorIndex :=
  .ofList (((world.units.filter fun unit => unit.active).map
      fun unit => (unit.id, unit.position)) ++
    (world.shots.filter fun shot => shot.bullet.isActive).map
      fun shot => (shot.bullet.id, shot.bullet.actor.position))

def reindex (world : World) : World :=
  { world with index := world.positions }

/-! ## Actors -/

def unit? (world : World) (id : ActorId) : Option Actor :=
  world.units.find? fun unit => unit.id = id

def shot? (world : World) (id : ActorId) : Option Shot :=
  world.shots.find? fun shot => shot.bullet.id = id

def actor? (world : World) (id : ActorId) : Option Actor :=
  match world.unit? id with
  | some unit => some unit
  | none => (world.shot? id).map fun shot => shot.bullet.actor

def actors (world : World) : List Actor :=
  world.units ++ world.shots.map fun shot => shot.bullet.actor

def actorCount (world : World) : Nat :=
  world.units.length + world.shots.length

def snapshot (world : World) : Snapshot :=
  .take world.tick world.time world.actors

/-- Removes the first entry that passes a test; the last entry takes its place. -/
def swapErase {α : Type} (p : α → Bool) : List α → List α
  | [] => []
  | a :: rest =>
      if p a then
        match rest.getLast? with
        | some last => last :: rest.dropLast
        | none => []
      else a :: swapErase p rest

def withoutShot (shots : List Shot) (id : ActorId) : List Shot :=
  swapErase (fun shot => shot.bullet.id = id) shots

def replaceFirst {α : Type} (p : α → Bool) (f : α → α) : List α → List α
  | [] => []
  | a :: rest => if p a then f a :: rest else a :: replaceFirst p f rest

def editUnit (changes : List Actor.Edit) (id : ActorId) (units : List Actor) : List Actor :=
  replaceFirst (fun unit => unit.id = id) (fun unit => unit.editAll changes) units

def editShot (changes : List Actor.Edit) (id : ActorId) (shots : List Shot) : List Shot :=
  replaceFirst (fun shot => shot.bullet.id = id)
    (fun shot =>
      { shot with bullet := { shot.bullet with actor := shot.bullet.actor.editAll changes } })
    shots

def edit (world : World) (id : ActorId) (changes : List Actor.Edit) : Except Refusal World :=
  if (world.unit? id).isSome then .ok { world with units := editUnit changes id world.units }
  else if (world.shot? id).isSome then .ok { world with shots := editShot changes id world.shots }
  else .error (.actorNotFound id)

def setVisual (world : World) (id : ActorId) (visual : Option VisualId) : Except Refusal World :=
  world.edit id [.visual visual]

def spawnActor (world : World) (actor : Actor) : Except Refusal World :=
  if (world.actor? actor.id).isSome then .error (.duplicateActor actor.id)
  else .ok { world with units := world.units ++ [actor] }

/-- Subscribes the world's queue to all events of a bullet. -/
def subscribe (bullet : Bullet) : Bullet :=
  { bullet with
    emitter := EventKind.all.foldl (fun emitter kind => (emitter.on kind .queue).1) bullet.emitter }

/-- Starts a bullet and takes it in. Units placed since the last tick can already be located. A
bullet that cannot start is dropped. -/
def spawnShot (world : World) (hosts : HostId → Context)
    (shot : Shot) : Except Refusal (List Effect) × World :=
  if (world.actor? shot.bullet.id).isSome then (.error (.duplicateActor shot.bullet.id), world)
  else
    let ready := world.reindex
    let listening := { shot with bullet := subscribe shot.bullet }
    match listening.perform (ready.around hosts) (.start (some (.world world.host))) with
    | (.refused refusal, _, _) => (.error refusal, ready)
    | (_, started, effects) =>
        (.ok effects, { ready with shots := ready.shots ++ [started] }.enqueue effects)

/-- The reason of bullets that end because they are removed. -/
def removed : EndReason :=
  .other "removed"

/-- Removes an actor; an active bullet is ended first. -/
def removeActor (world : World) (hosts : HostId → Context)
    (id : ActorId) : Except Refusal (World × List Effect) :=
  if (world.unit? id).isSome then
    .ok ({ world with units := world.units.filter fun unit => unit.id ≠ id }.reindex, [])
  else
    match world.shot? id with
    | none => .error (.actorNotFound id)
    | some shot =>
        let (_, _, effects) := shot.perform (world.around hosts) (.finish (some removed))
        .ok (({ world with shots := withoutShot world.shots id }.enqueue effects).reindex, effects)

/-! ## Ticks -/

/-- Lets bullets live for one tick, one after the other, and collects their effects. -/
def advanceShots (around : Surroundings) (dt : Float32) : List Shot → List Shot × List Effect
  | [] => ([], [])
  | shot :: rest =>
      let (_, moved, first) := shot.perform around (.update dt)
      let (others, effects) := advanceShots around dt rest
      (moved :: others, first ++ effects)

def isEnded (shot : Shot) : Bool :=
  shot.bullet.phase = .ended

/-- Removes the ended bullets one by one, in the order in which they stood. -/
def reap (shots : List Shot) : List Shot :=
  ((shots.filter isEnded).map fun shot => shot.bullet.id).foldl withoutShot shots

def applyGameplay (gameplay : List Gameplay) (dt : Float32) (units : List Actor) : List Actor :=
  gameplay.foldl (fun units system => units.map (system dt)) units

/-- Whether ended bullets are removed; without tuning they stay. -/
def reaps (world : World) : Bool :=
  match world.timing with
  | some timing => timing.despawnEnded
  | none => false

/-- One tick: the units move, the index is taken, every bullet lives on, and
the ended ones are removed. -/
def runTick (world : World) (hosts : HostId → Context) (dt : Float32) : World × List Effect :=
  let played :=
    { world with
      running := world.running + 1
      units := applyGameplay world.gameplay dt world.units }.reindex
  let (shots, effects) := advanceShots (played.around hosts) dt played.shots
  let kept := if played.reaps then reap shots else shots
  ({ played with
      shots := kept, tick := played.tick + 1, time := played.time + dt }.enqueue effects,
    effects)

def runTicks (hosts : HostId → Context) (dt : Float32) : (count : Nat) → World → World × List Effect
  | 0, world => (world, [])
  | count + 1, world =>
      let (next, first) := world.runTick hosts dt
      let (last, rest) := runTicks hosts dt count next
      (last, first ++ rest)

/-- Takes ticks of the given length from the accumulated time and returns how many there
are, with those already counted, and what is left. If taking one away does not make the
time less, there is no end to them. -/
def drainFrom? (step : Float32) (count : Nat) (time : Float32) : Option (Nat × Float32) :=
  if step ≤ time then
    let left := time - step
    if left.toBits < time.toBits then drainFrom? step (count + 1) left else none
  else some (count, time)
termination_by time.toBits.toNat
decreasing_by assumption

def drain? (step time : Float32) : Option (Nat × Float32) :=
  drainFrom? step 0 time

/-- Feeds `dt` seconds into the world and runs the ticks that are due; returns their number, or
nothing at all if there is no end to them. -/
def step? (world : World) (hosts : HostId → Context)
    (dt : Float32) : Option (Nat × World × List Effect) :=
  let length := Timing.tickLength world.timing
  if !dt.isFinite then some (0, world, [.noticed (.stepIgnored dt)])
  else
    match drain? length (world.accumulator + larger dt 0) with
    | none => none
    | some (count, left) =>
        let (next, effects) := runTicks hosts length count world
        some (count, { next with accumulator := left }, effects)

def frameUpdate (world : World) (dt : Float32) : World × List Effect :=
  match world.clock with
  | none => (world, [])
  | some clock =>
      let next := clock.advance dt
      ({ world with clock := some next }, [.framed next])

/-! ## Upkeep -/

def drainEvents (world : World) : List BulletEvent × World :=
  (world.events, { world with events := [] })

/-- Removes all actors and sets the clocks back. Tuning, gameplay and host stay. -/
def reset (world : World) : World :=
  { world with
    units := [], shots := [], index := .empty, events := [], clock := some .zero, running := 0
    tick := 0, time := 0, accumulator := 0 }

end World

end Volley
