import Volley.Proofs.Bullet.Lifecycle
import Volley.Proofs.Flight.Run

/-!
# Orders to fly

An order to fly is obeyed in full or not at all. If the target that it names, or that the context
names for it, cannot be found, the bullet stays as it is. Otherwise a fresh flight takes the place
of the one before, of which nothing is left. The flight keeps to the context that it was ordered in,
which is that of the bullet from its start on.
-/

namespace Volley

/-- The target of an order: what the order names, be it a unit, a point or both, or
else the defaults of the context. -/
inductive Bullet.Wants (bullet : Bullet) (around : Surroundings) (order : FlyOrder) : Target → Prop
  | named (hnamed : order.unit ≠ none ∨ order.point ≠ none) :
      Wants bullet around order { unit := order.unit, point := order.point }
  | default (hunit : order.unit = none) (hpoint : order.point = none) {context : Context}
      (hcontext : bullet.context? around = some context) :
      Wants bullet around order { unit := context.defaultUnit, point := context.defaultPoint }
  | nothing (hunit : order.unit = none) (hpoint : order.point = none)
      (hcontext : bullet.context? around = none) :
      Wants bullet around order { unit := none, point := none }

theorem Bullet.wants_flightTarget (bullet : Bullet) (around : Surroundings) (order : FlyOrder) :
    bullet.Wants around order (bullet.flightTarget around order) := by
  unfold flightTarget
  split
  · rename_i hnamed
    refine .named ?_
    simpa only [Bool.or_eq_true, Option.isSome_iff_ne_none] using hnamed
  · rename_i hbare
    have hnone : order.unit = none ∧ order.point = none := by
      simpa only [Bool.or_eq_true, not_or, Bool.not_eq_true, Option.isSome_eq_false_iff,
        Option.isNone_iff_eq_none] using hbare
    split
    · rename_i context hcontext
      exact .default hnone.1 hnone.2 hcontext
    · rename_i hcontext
      exact .nothing hnone.1 hnone.2 hcontext

/-- The flight that an order begins at a point, toward the place where its target is. -/
def FlyOrder.flight (order : FlyOrder) (target : Target) (start place : Vec3) : Flight where
  plan := .ofOrder order target
  speed := order.speed
  direction := start.directionTo place
  start := start
  totalDistance := start.distance place
  traveled := 0
  active := true

namespace Turn

variable {turn : Turn} {order : FlyOrder} {place : Vec3}

theorem fly_of_lost
    (hlost : (turn.bullet.flightTarget turn.around order).Lost (turn.bullet.locator turn.around)) :
    turn.fly order = turn.note (.noFlightTarget turn.bullet.id) := by
  unfold fly
  dsimp only
  rw [Target.locate_eq_none_iff.mpr hlost]

theorem fly_of_isAt
    (hplace : (turn.bullet.flightTarget turn.around order).IsAt
      (turn.bullet.locator turn.around) place) :
    turn.fly order = { turn with bullet := { turn.bullet with
      flight := some (order.flight (turn.bullet.flightTarget turn.around order)
        turn.bullet.actor.position place)
      guide := turn.bullet.link } } := by
  have hlocate := Target.locate_eq_some_iff.mpr hplace
  unfold fly Flight.launch
  dsimp only [FlightPlan.ofOrder]
  rw [hlocate]
  rfl

/-- An order to fly leaves the bullet as it is if neither the unit of its target can be
located nor is there a point. Otherwise it puts a fresh flight in the place of whatever flight
there was, under the context of the moment. From then on the target is where its unit is in
that context, or else at its point. -/
theorem fly_all_or_nothing (turn : Turn) (order : FlyOrder) :
    ∃ target, turn.bullet.Wants turn.around order target ∧
      (target.Lost (turn.bullet.locator turn.around) ∧ (turn.fly order).bullet = turn.bullet ∧
          turn.fly order = turn.note (.noFlightTarget turn.bullet.id) ∨
        ∃ place, target.IsAt (turn.bullet.locator turn.around) place ∧
          turn.fly order =
            { turn with bullet := { turn.bullet with
              flight := some (order.flight target turn.bullet.actor.position place),
              guide := turn.bullet.link } } ∧
          (∀ (replaced : Option Flight) (former : Option Link),
            Turn.fly { turn with bullet := { turn.bullet with flight := replaced, guide := former } } order =
              turn.fly order) ∧
          ∀ (later : Surroundings) (position : Vec3),
            (turn.fly order).bullet.targetPosition later = some position ↔
              target.IsAt (turn.bullet.locator later) position) := by
  refine ⟨_, turn.bullet.wants_flightTarget turn.around order, ?_⟩
  cases hlocate : (turn.bullet.flightTarget turn.around order).locate
    (turn.bullet.locator turn.around) with
  | none =>
      have hfly := fly_of_lost (Target.locate_eq_none_iff.mp hlocate)
      exact Or.inl ⟨Target.locate_eq_none_iff.mp hlocate, by rw [hfly]; rfl, hfly⟩
  | some place =>
      have hplace := Target.locate_eq_some_iff.mp hlocate
      have hfly := fly_of_isAt hplace
      refine Or.inr ⟨place, hplace, hfly, fun replaced former => ?_, fun later position => ?_⟩
      · rw [hfly]
        exact fly_of_isAt hplace
      · rw [hfly, ← Target.locate_eq_some_iff]
        rfl

/-! ## The guide of a flight -/

/-- A bullet that has been started flies under its own link, or else as it did before. -/
structure Guides (before after : Turn) : Prop where
  lives : Lives before after
  guided : before.bullet.phase ≠ .pending → after.bullet.flight.isSome →
    after.bullet.guide = after.bullet.link ∨
      before.bullet.flight.isSome ∧ after.bullet.guide = before.bullet.guide

namespace Guides

variable {first second third before after : Turn}

theorem of_eq (hlives : Lives before after) (hflight : after.bullet.flight = before.bullet.flight)
    (hguide : after.bullet.guide = before.bullet.guide) : Guides before after :=
  ⟨hlives, fun _ hsome => .inr ⟨hflight ▸ hsome, hguide⟩⟩

theorem refl (turn : Turn) : Guides turn turn :=
  of_eq (.refl turn) rfl rfl

/-- A bullet that has been started keeps its link, so a flight that was
ordered under it still is. -/
theorem trans (hfirst : Guides first second)
    (hsecond : Guides second third) : Guides first third := by
  refine ⟨hfirst.lives.trans hsecond.lives, fun hbegun hsome => ?_⟩
  have hstarted := hfirst.lives.begun hbegun
  obtain ⟨told, hcourse, -⟩ := hsecond.lives.course
  rcases hsecond.guided hstarted hsome with hown | ⟨hflew, hkept⟩
  · exact .inl hown
  · rcases hfirst.guided hbegun hflew with hown | ⟨hearlier, hsame⟩
    · exact .inl (hkept.trans (hown.trans (hcourse.link_eq hstarted).symm))
    · exact .inr ⟨hearlier, hkept.trans hsame⟩

theorem routine : Routine Guides where
  refl := refl
  trans := trans
  aside turn effect haside := of_eq (Lives.routine.aside turn effect haside) rfl rfl
  launch turn flight := ⟨Lives.routine.launch turn flight, fun _ _ => .inl rfl⟩
  advance turn next hflight :=
    ⟨Lives.routine.advance turn next hflight, fun _ _ => .inr ⟨hflight, rfl⟩⟩
  age turn elapsed := of_eq (Lives.routine.age turn elapsed) rfl rfl
  move turn displacement := by
    refine of_eq (Lives.routine.move turn displacement) ?_ ?_ <;>
    · rw [Bullet.move]

theorem finish {fire : Fire} (hfire : ∀ cue turn, Guides turn (fire cue turn))
    (reason : Option EndReason) (turn : Turn) : Guides turn (turn.finish fire reason) := by
  have hlives := Lives.finish (fun cue turn => (hfire cue turn).lives) turn reason
  rw [finish_eq] at hlives ⊢
  split at hlives
  · rename_i hactive
    refine ⟨by rwa [if_pos hactive], fun _ => ?_⟩
    rw [if_pos hactive, tellEnd_bullet]
    exact (hfire .bulletEnd (turn.closed reason)).guided nofun
  · rename_i hphase
    rw [if_neg hphase]
    exact refl turn

end Guides

theorem Guides.calls : Call.Keep (fun _ => True) Guides where
  host := Guides.routine.host fun turn _ _ => .of_eq (Lives.announce turn _ _) rfl rfl
  perform {fire} hfire {call} hcall turn := by
    have hlives := Lives.calls.perform (fun cue turn => (hfire cue turn).lives) hcall turn
    cases call with
    | start link =>
        refine ⟨hlives, fun hbegun => ?_⟩
        rw [Call.perform, start_eq, if_neg hbegun]
        exact (Guides.refl turn).guided hbegun
    | update dt => exact Guides.routine.update hfire (.finish hfire) dt turn
    | finish reason => exact .finish hfire reason turn
    | fly order => exact Guides.routine.fly turn order
    | damage order => exact Guides.routine.damage turn order
    | _ => exact .of_eq hlives rfl rfl

end Turn

namespace Shot

variable (shot : Shot) (around : Surroundings)

theorem perform_guides (call : Call) :
    Turn.Guides ⟨shot.bullet, around, []⟩
      (call.perform (fire shot.program shot.book nesting) ⟨shot.bullet, around, []⟩).2 :=
  perform_keeps Turn.Guides.calls shot.book.within_true around call.within_true

end Shot

end Volley
