import Mathlib.Data.List.Forall2
import Volley.Proofs.Flight.Run

/-!
# The parts of a plan are independent

Arc, homing and speed are parts of a plan that compose in any combination. The arc bears on the
height alone, homing on the direction alone, and the speed on the distances alone. So two flights
whose plans differ in one of these parts go through the same updates with the same kinds of answers,
and agree in all that the part has no bearing on.
-/

namespace Volley

namespace Flight

variable {first second : Flight} {call : Call} {plan : FlightPlan} {start : Vec3}
  {locator : Locator}

/-- The displacement on the ground, if the flight has been moved. -/
def Step.sideways : Step → Option (Float32 × Float32)
  | .moved displacement => some (displacement.x, displacement.z)
  | .hit | .targetLost | .inactive => none

theorem Step.name_moved (displacement : Vec3) : (Step.moved displacement).name = "moved" := rfl

/-- Flights that agree in all but the arc and the height. -/
structure SameGround (first second : Flight) : Prop where
  plan : second.plan = { first.plan with arc := second.plan.arc, arcSampling := second.plan.arcSampling }
  speed : second.speed = first.speed
  direction : second.direction = first.direction
  traveled : second.traveled = first.traveled
  active : second.active = first.active

/-- Flights that agree in all but homing and the direction. -/
structure SamePace (first second : Flight) : Prop where
  plan : second.plan = { first.plan with homing := second.plan.homing, turnRate := second.plan.turnRate }
  speed : second.speed = first.speed
  traveled : second.traveled = first.traveled
  active : second.active = first.active

/-- Flights that agree in all but the speed and the distances. -/
structure SameCourse (first second : Flight) : Prop where
  plan : second.plan =
    { first.plan with
      speed := second.plan.speed, acceleration := second.plan.acceleration,
      maxSpeed := second.plan.maxSpeed }
  direction : second.direction = first.direction
  active : second.active = first.active

/-- Flights that cannot be told apart by when they end. -/
structure Alike (first second : Flight) : Prop where
  target : second.plan.target = first.plan.target
  collisionRadius : second.plan.collisionRadius = first.plan.collisionRadius
  active : second.active = first.active

theorem SameGround.alike (hsame : SameGround first second) : Alike first second where
  target := by rw [hsame.plan]
  collisionRadius := by rw [hsame.plan]
  active := hsame.active

theorem SamePace.alike (hsame : SamePace first second) : Alike first second where
  target := by rw [hsame.plan]
  collisionRadius := by rw [hsame.plan]
  active := hsame.active

theorem SameCourse.alike (hsame : SameCourse first second) : Alike first second where
  target := by rw [hsame.plan]
  collisionRadius := by rw [hsame.plan]
  active := hsame.active

/-! ## One update -/

theorem Alike.aim_eq (halike : Alike first second)
    (call : Call) : second.aim call = first.aim call := by
  unfold aim collides
  rw [halike.target, halike.collisionRadius, halike.active]

/-- An update moves both flights, or leaves both on the ground. -/
theorem Alike.step {R : Flight → Flight → Prop} (halike : Alike first second)
    (hgrounded : R first.grounded second.grounded)
    (honward : ∀ position target dt, R (first.onward position target dt)
    (second.onward position target dt))
    (call : Call) : R (first.step call) (second.step call) := by
  have haim' := halike.aim_eq call
  cases haim : first.aim call with
  | none =>
      rw [step_of_aim_none haim, step_of_aim_none (haim'.trans haim)]
      exact hgrounded
  | some target =>
      rw [step_of_aim haim, step_of_aim (haim'.trans haim)]
      exact honward call.position target call.dt

/-- Such flights give the same answer as long as neither is moved. -/
theorem Alike.answer_eq (halike : Alike first second) (haim : first.aim call = none) :
    second.answer call = first.answer call := by
  have haim' : second.aim call = none := (halike.aim_eq call).trans haim
  rw [answer_of_aim_none haim, answer_of_aim_none haim', halike.target, halike.active]

theorem Alike.name_answer (halike : Alike first second) (call : Call) :
    (second.answer call).name = (first.answer call).name := by
  cases haim : first.aim call with
  | none => rw [halike.answer_eq haim]
  | some target =>
      rw [answer_of_aim haim, answer_of_aim ((halike.aim_eq call).trans haim), Step.name_moved,
        Step.name_moved]

theorem SameGround.onward (hsame : SameGround first second) (position target : Vec3)
    (dt : Float32) :
    SameGround (first.onward position target dt) (second.onward position target dt) := by
  obtain ⟨hplan, hspeed, hdirection, htraveled, hactive⟩ := hsame
  refine ⟨hplan, ?_, ?_, ?_, hactive⟩
  · unfold Flight.onward accelerate
    rw [hplan, hspeed]
  · unfold Flight.onward steer
    rw [hplan, hdirection]
  · unfold Flight.onward accelerate
    rw [hplan, hspeed, htraveled]

theorem SameGround.step (hsame : SameGround first second) (call : Call) :
    SameGround (first.step call) (second.step call) :=
  hsame.alike.step ⟨hsame.plan, hsame.speed, hsame.direction, hsame.traveled, rfl⟩ hsame.onward call

/-- An arc raises a displacement and leaves it as it is on the ground. -/
theorem sideways_lift (flight : Flight) (dt : Float32) (displacement : Vec3) :
    (Step.moved (flight.lift dt displacement)).sideways = (Step.moved displacement).sideways := by
  unfold lift
  split <;> rfl

theorem SameGround.sideways_answer (hsame : SameGround first second) (call : Call) :
    (second.answer call).sideways = (first.answer call).sideways := by
  cases haim : first.aim call with
  | none => rw [hsame.alike.answer_eq haim]
  | some target =>
      have honward := hsame.onward call.position target call.dt
      rw [answer_of_aim haim, answer_of_aim ((hsame.alike.aim_eq call).trans haim), stretch,
        stretch, sideways_lift,
        sideways_lift, honward.direction, honward.speed]

theorem SamePace.onward (hsame : SamePace first second) (position target : Vec3) (dt : Float32) :
    SamePace (first.onward position target dt) (second.onward position target dt) := by
  obtain ⟨hplan, hspeed, htraveled, hactive⟩ := hsame
  refine ⟨hplan, ?_, ?_, hactive⟩
  · unfold Flight.onward accelerate
    rw [hplan, hspeed]
  · unfold Flight.onward accelerate
    rw [hplan, hspeed, htraveled]

theorem SamePace.step (hsame : SamePace first second) (call : Call) :
    SamePace (first.step call) (second.step call) :=
  hsame.alike.step ⟨hsame.plan, hsame.speed, hsame.traveled, rfl⟩ hsame.onward call

theorem SameCourse.onward (hsame : SameCourse first second) (position target : Vec3)
    (dt : Float32) :
    SameCourse (first.onward position target dt) (second.onward position target dt) := by
  obtain ⟨hplan, hdirection, hactive⟩ := hsame
  refine ⟨hplan, ?_, hactive⟩
  unfold Flight.onward steer
  rw [hplan, hdirection]

theorem SameCourse.step (hsame : SameCourse first second) (call : Call) :
    SameCourse (first.step call) (second.step call) :=
  hsame.alike.step ⟨hsame.plan, hsame.direction, rfl⟩ hsame.onward call

/-! ## Runs -/

section Run

variable (plan : FlightPlan) (start : Vec3) (locator : Locator)

theorem SameGround.launch (arc : Float32) (arcSampling : ArcSampling) :
    SameGround (launch plan start locator)
      (launch { plan with arc, arcSampling } start locator) := by
  unfold Flight.launch
  dsimp only
  cases plan.target.locate locator <;> exact ⟨rfl, rfl, rfl, rfl, rfl⟩

theorem SamePace.launch (homing : Bool) (turnRate : Float32) :
    SamePace (launch plan start locator) (launch { plan with homing, turnRate } start locator) := by
  unfold Flight.launch
  dsimp only
  cases plan.target.locate locator <;> exact ⟨rfl, rfl, rfl, rfl⟩

theorem SameCourse.launch (speed acceleration : Float32) (maxSpeed : Option Float32) :
    SameCourse (launch plan start locator) (launch { plan with speed, acceleration, maxSpeed }
      start locator) := by
  unfold Flight.launch
  dsimp only
  cases plan.target.locate locator <;> exact ⟨rfl, rfl, rfl⟩

/-- What one update keeps of two flights and shows in the two outcomes, all
outcomes of a run show. -/
theorem forall₂_trace {R : Flight → Flight → Prop} {S : Flight × Step → Flight × Step → Prop}
    (hstep : ∀ {first second}, R first second → ∀ call : Call, R (first.step call)
    (second.step call))
    (hshow : ∀ {first second}, R first second →
      ∀ call : Call, S (first.step call, first.answer call) (second.step call, second.answer call))
    (hfirst : R first second) (calls : List Call) :
    List.Forall₂ S (first.trace calls) (second.trace calls) := by
  induction calls generalizing first second with
  | nil =>
      rw [trace_nil, trace_nil]
      exact .nil
  | cons call calls ih =>
      rw [trace_cons, trace_cons]
      exact .cons (hshow hfirst call) (ih (hstep hfirst call))

/-- Flights that set out from the same point for the same target, and are told the same at
every update, go through the same kinds of updates. If they differ in their arcs, they agree in
all but the height. If they differ in homing, they agree in their pace. If they differ in
speed, they agree in their course. -/
theorem parts_independent (calls : List Call) :
    (∀ arc arcSampling,
      List.Forall₂ (fun first second =>
          SameGround first.1 second.1 ∧ second.2.name = first.2.name ∧
            second.2.sideways = first.2.sideways)
        ((launch plan start locator).trace calls)
          ((launch { plan with arc, arcSampling } start locator).trace calls)) ∧
    (∀ homing turnRate,
      List.Forall₂ (fun first second => SamePace first.1 second.1 ∧ second.2.name = first.2.name)
        ((launch plan start locator).trace calls)
          ((launch { plan with homing, turnRate } start locator).trace calls)) ∧
    ∀ speed acceleration maxSpeed,
      List.Forall₂ (fun first second => SameCourse first.1 second.1 ∧ second.2.name = first.2.name)
        ((launch plan start locator).trace calls)
        ((launch { plan with speed, acceleration, maxSpeed } start locator).trace calls) := by
  refine ⟨fun arc arcSampling => ?_, fun homing turnRate => ?_,
    fun speed acceleration maxSpeed => ?_⟩
  · exact forall₂_trace (R := SameGround) SameGround.step
      (fun hsame call => ⟨hsame.step call, hsame.alike.name_answer call,
        hsame.sideways_answer call⟩)
      (.launch plan start locator arc arcSampling) calls
  · exact forall₂_trace (R := SamePace) SamePace.step
      (fun hsame call => ⟨hsame.step call, hsame.alike.name_answer call⟩)
      (.launch plan start locator homing turnRate) calls
  · exact forall₂_trace (R := SameCourse) SameCourse.step
      (fun hsame call => ⟨hsame.step call, hsame.alike.name_answer call⟩)
      (.launch plan start locator speed acceleration maxSpeed) calls

end Run

end Flight

end Volley
