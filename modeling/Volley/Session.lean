import Volley.Config.Catalog
import Volley.Visual.Binder
import Volley.World

/-!
# Sessions

A session plays levels: it loads a level into a world, feeds the world the time that
passes between frames, and keeps the visuals of the render side in step. Visuals are
brought up to date after all ticks of a frame.
-/

namespace Volley

inductive RunState where
  | idle
  | running
  | paused
  | stopped
  deriving DecidableEq, Repr

def RunState.name : RunState → String
  | .idle => "Idle"
  | .running => "Running"
  | .paused => "Paused"
  | .stopped => "Stopped"

/-- An effect of the world, or a call on the render side. -/
inductive SessionEffect (V : Type) where
  | world (effect : Effect)
  | stage (call : StageCall V)

/-- The outside of a session: the contexts of hosts, the loads that have come in, and the stand-ins
for visuals that could not be loaded. -/
structure Outside (V : Type) where
  hosts : HostId → Context
  arrivals : Arrivals V
  placeholder : VisualRequest → Option V

structure Session where
  world : World
  catalog : Catalog
  binder : Binder
  loads : Nat
  state : RunState
  lastFrame : Option Float
  level : Option Level
  terrain : Option Terrain
  overlay : Overlay
  overlayChanged : Bool
  book : ScriptBook
  programs : Table UInt32 (Program × ScriptBook)

namespace Session

variable {V : Type}

def create (world : World) (catalog : Catalog) : Session :=
  { world, catalog, binder := .empty, loads := 0, state := .idle, lastFrame := none, level := none,
    terrain := none
    overlay := { blockedCells := false, buildCells := false }, overlayChanged := false
    book := .empty
    programs := .empty }

/-- Custom conditions and actions for the bullets fired from now on. -/
def setBook (session : Session) (book : ScriptBook) : Session :=
  { session with book, programs := .empty }

def showBlockedCells (session : Session) (shown : Bool) : Session :=
  { session with overlay := { session.overlay with blockedCells := shown }, overlayChanged := true }

def showBuildCells (session : Session) (shown : Bool) : Session :=
  { session with overlay := { session.overlay with buildCells := shown }, overlayChanged := true }

/-! ## Levels -/

def clearVisuals (session : Session) : Session × List (SessionEffect V) :=
  let (binder, visuals) := session.binder.clear
  ({ session with binder }, visuals.map fun id => .stage (.remove id))

/-- Places the actors of a level in order, up to the first whose id is taken.
Bullets cannot be placed. -/
def place (level : UInt32) : List Placement → World → Option Refusal × World × List Notice
  | [], world => (none, world, [])
  | placement :: rest, world =>
      if placement.kind = .bullet then
        let (refusal, last, notices) := place level rest world
        (refusal, last, .bulletPlaced level placement.id :: notices)
      else
        match world.spawnActor placement.actor with
        | .error refusal => (some refusal, world, [])
        | .ok next => place level rest next

/-- Sets the world to the actors of a level and starts to run it, on the level's
own terrain or on another one. If the actors cannot all be placed, the old level is
gone and the new one has not begun. -/
def loadLevel (session : Session) (levelId : UInt32) (terrainId : Option UInt32) :
    Option Refusal × Session × List (SessionEffect V) :=
  match session.catalog.levels.find? levelId with
  | none => (some (.levelNotFound levelId), session, [])
  | some level =>
      match session.catalog.terrains.find? (terrainId.getD level.terrainId) with
      | none => (some (.terrainNotFound (terrainId.getD level.terrainId)), session, [])
      | some terrain =>
          let (cleared, removals) := session.clearVisuals
          let (refusal, world, notices) := place levelId level.actors cleared.world.reset
          let effects := removals ++ notices.map fun notice => .world (.noticed notice)
          match refusal with
          | some refusal => (some refusal, { cleared with world }, effects)
          | none =>
              (none,
                { cleared with
                  world, level := some level, terrain := some terrain
                  overlayChanged := true, lastFrame := none, state := .running },
                effects)

def pause (session : Session) : Session :=
  if session.state = .running then { session with state := .paused } else session

/-- The time that has passed since the pause is not simulated. -/
def resume (session : Session) : Session :=
  if session.state = .paused then { session with state := .running, lastFrame := none } else session

def stop (session : Session) : Session × List (SessionEffect V) :=
  let (cleared, removals) := session.clearVisuals
  ({ cleared with world := cleared.world.reset, lastFrame := none, state := .stopped }, removals)

/-! ## Bullets -/

/-- The program of a blueprint: the one compiled before, or one compiled now
with the scripts of the moment. -/
def program (session : Session) (blueprintId : UInt32)
    (blueprint : Blueprint) : Program × ScriptBook :=
  match session.programs.find? blueprintId with
  | some compiled => compiled
  | none => (.compile blueprint.segments, session.book)

def fire (session : Session) (hosts : HostId → Context) (id : ActorId)
    (blueprintId faction : UInt32) (position : Vec3) :
    Option Refusal × Session × List (SessionEffect V) :=
  match session.catalog.blueprints.find? blueprintId with
  | none => (some (.blueprintNotFound blueprintId), session, [])
  | some blueprint =>
      let (program, book) := session.program blueprintId blueprint
      let shot : Shot := { bullet := .create id blueprint faction position, program, book }
      let programs := session.programs.insert blueprintId (program, book)
      match session.world.spawnShot hosts shot with
      | (.error refusal, world) => (some refusal, { session with world, programs }, [])
      | (.ok effects, world) => (none, { session with world, programs }, effects.map .world)

/-! ## Frames -/

/-- Links a visual to an actor, or unlinks it; notices if there is no such actor. -/
def link (session : Session) (id : ActorId) (visual : Option VisualId) (notice : Refusal → Notice) :
    Session × List (SessionEffect V) :=
  match session.world.setVisual id visual with
  | .ok world => ({ session with world }, [])
  | .error refusal => (session, [.world (.noticed (notice refusal))])

/-- Takes up what became of one load. -/
def attach (outside : Outside V) (session : Session) :
    BindOutcome V → Session × List (SessionEffect V)
  | .attached actor id visual =>
      let (linked, effects) := session.link actor (some id) .visualUnlinked
      (linked, .stage (.add id visual) :: effects)
  | .discarded _ => (session, [])
  | .failed request error =>
      match outside.placeholder request with
      | none => (session, [.world (.noticed (.visualFailed request.actor error))])
      | some placeholder =>
          let (binder, id) := session.binder.bind request.actor
          let (linked, effects) :=
            { session with binder }.link request.actor (some id) .placeholderUnlinked
          (linked, .world (.noticed (.visualFailed request.actor error)) ::
            .stage (.add id placeholder) :: effects)

/-- Folds a step over a list and collects the effects. -/
def forEach {α : Type} (step : Session → α → Session × List (SessionEffect V)) :
    List α → Session → Session × List (SessionEffect V)
  | [], session => (session, [])
  | a :: rest, session =>
      let (next, first) := step session a
      let (last, others) := forEach step rest next
      (last, first ++ others)

def attachVisuals (outside : Outside V) (snapshot : Snapshot) (session : Session) :
    Session × List (SessionEffect V) :=
  let (binder, outcomes) := session.binder.poll snapshot.isActive outside.arrivals
  forEach (attach outside) outcomes { session with binder }

/-- Starts the load of an active actor that has no visual. -/
def requestVisual (session : Session) (actor : Actor) : Session × List (SessionEffect V) :=
  if !actor.active || actor.visual.isSome || !session.binder.canRequest actor.id then (session, [])
  else
    let load : LoadId := { number := session.loads }
    let request := VisualRequest.ofActor actor
    ({ session with loads := session.loads + 1, binder := (session.binder.request load request).1 },
      [.stage (.load load request)])

def releaseVisual (snapshot : Snapshot) (session : Session) (actor : ActorId) :
    Session × List (SessionEffect V) :=
  match session.binder.release actor with
  | (binder, none) => ({ session with binder }, [])
  | (binder, some id) =>
      let released := { session with binder }
      let (unlinked, effects) :=
        if (snapshot.actor? actor).isSome then released.link actor none .releaseUnlinked
        else (released, [])
      (unlinked, .stage (.remove id) :: effects)

/-- Drops the loads and the visuals of dead actors. -/
def releaseVisuals (snapshot : Snapshot) (session : Session) : Session × List (SessionEffect V) :=
  let isDead (id : ActorId) : Bool := !snapshot.isActive id
  let (binder, _) := session.binder.cancelWhere isDead
  forEach (releaseVisual snapshot) (binder.tracked.filter isDead) { session with binder }

/-- The calls that put every bound visual where its actor stands. -/
def applyVisuals (snapshot : Snapshot) (session : Session) : List (SessionEffect V) :=
  session.binder.bound.filterMap fun (actor, id) =>
    (snapshot.actor? actor).map fun state => .stage (.apply id (.ofActor state))

def drawOverlay (session : Session) : Session × List (SessionEffect V) :=
  if session.overlayChanged then
    ({ session with overlayChanged := false }, [.stage (.overlay session.overlay session.terrain)])
  else (session, [])

/-- Brings the render side up to date with the world. -/
def render (outside : Outside V) (session : Session) : Session × List (SessionEffect V) :=
  let snapshot := session.world.snapshot
  let (attached, first) := attachVisuals outside snapshot session
  let (requested, second) := forEach requestVisual snapshot.actors.toList attached
  let (released, third) := releaseVisuals snapshot requested
  let (drawn, fourth) := released.drawOverlay
  (drawn, first ++ second ++ third ++ released.applyVisuals snapshot ++ fourth)

/-- The time from one frame to the next, cut to the range from zero to `most`. -/
def frameDelta (last : Option Float) (now : Float) (most : Float32) : Float32 :=
  match last with
  | none => 0
  | some last =>
      let passed := now - last
      smaller (if 0 < passed then narrow passed else 0) most

/-- Runs a frame at the time `now`, in seconds, and returns the number of ticks. A session that is
not running has no frames. Nothing is returned if the ticks never end. -/
def frame? (session : Session) (outside : Outside V) (now : Float) :
    Option (Nat × Session × List (SessionEffect V)) :=
  if session.state ≠ .running then some (0, session, [])
  else
    let delta := frameDelta session.lastFrame now session.world.config.maxFrameDelta
    match session.world.step? outside.hosts delta with
    | none => none
    | some (ticks, stepped, first) =>
        let (world, second) := stepped.frameUpdate delta
        let (rendered, third) := { session with world, lastFrame := some now }.render outside
        some (ticks, rendered, (first ++ second).map .world ++ third)

end Session

end Volley
