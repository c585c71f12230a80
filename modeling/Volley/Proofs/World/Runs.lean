import Volley.Proofs.World.Fate

/-!
# Runs of a world

A run is a list of acts on a world. What its bullets tell is kept apart from the events that are in
the queue of the world or have been taken out of it.
-/

namespace Volley.World

structure Moment where
  act : Act
  before : World
  after : World
  effects : List Effect

/-- The moments of a run, the latest first, and the world they lead to. -/
inductive Run (start : World) : List Moment → World → Prop
  | start : Run start [] start
  | next {history : List Moment} {before after : World} {act : Act} {effects : List Effect}
      (hrun : Run start history before) (hperform : before.perform act = some (after, effects)) :
      Run start ({ act, before, after, effects } :: history) after

/-- The events that an act takes out of the queue. -/
def drainedBy (world : World) : Act → List BulletEvent
  | .drainEvents => world.events
  | _ => []

/-- The events that have been taken out of the queue. -/
def drained : List Moment → List BulletEvent
  | [] => []
  | moment :: earlier => drained earlier ++ moment.before.drainedBy moment.act

/-- All events of a run, taken out of the queue or still in it. -/
def stream (history : List Moment) (world : World) : List BulletEvent :=
  drained history ++ world.events

def told : List Moment → List Effect
  | [] => []
  | moment :: earlier => told earlier ++ moment.effects

variable {world next : World} {act : Act} {effects : List Effect}

theorem events_runTicks (hosts : HostId → Context) (dt : Float32) (count : Nat) (world : World) :
    (runTicks hosts dt count world).1.events =
      world.events ++ (runTicks hosts dt count world).2.filterMap Effect.queued? := by
  induction count generalizing world with
  | zero => exact (List.append_nil _).symm
  | succ count ih =>
      rw [runTicks]
      dsimp only
      rw [ih, List.filterMap_append, ← List.append_assoc]
      rfl

/-- Every act but a reset moves events only from its effects to the queue and
from the queue to the host. -/
theorem events_perform (hact : act ≠ .reset) (hperform : world.perform act = some (next, effects)) :
    world.drainedBy act ++ next.events = world.events ++ effects.filterMap Effect.queued? := by
  cases outcome_perform hperform with
  | fired hspawn =>
      obtain ⟨-, -, -, rfl⟩ := spawnShot_eq_ok hspawn
      rfl
  | fireRefused hspawn =>
      rcases spawnShot_eq_error hspawn with rfl | rfl
      · exact (List.append_nil _).symm
      · exact (List.append_nil _).symm
  | removed hremove =>
      rcases removeActor_eq_ok hremove with ⟨-, rfl, rfl⟩ | ⟨-, shot, -, rfl, rfl⟩
      · exact (List.append_nil _).symm
      · rfl
  | edited hedit =>
      rcases unit?_isSome_of_edit hedit with ⟨-, rfl⟩ | ⟨-, -, rfl⟩
      · exact (List.append_nil _).symm
      · exact (List.append_nil _).symm
  | stepped hstep =>
      rcases step?_eq_some hstep with ⟨-, rfl, rfl⟩ | ⟨accumulator, rfl, rfl⟩
      · exact (List.append_nil _).symm
      · exact events_runTicks _ _ _ world
  | drained => rfl
  | emptied => exact (hact rfl).elim
  | _ => exact (List.append_nil _).symm

/-- The moment of an act that ends. -/
def moment (world : World) (act : Act) : Moment :=
  let (after, effects) := (world.perform act).getD (world, [])
  { act, before := world, after, effects }

theorem Run.moment {start : World} {history : List Moment} (hrun : Run start history world)
    {act : Act} (hends : (world.perform act).isSome) :
    Run start (world.moment act :: history) (world.moment act).after := by
  obtain ⟨⟨after, effects⟩, hperform⟩ := Option.isSome_iff_exists.mp hends
  rw [World.moment, hperform]
  exact hrun.next hperform

end Volley.World
