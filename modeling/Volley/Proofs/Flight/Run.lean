import Volley.Flight

/-!
# Runs of a flight

A flight is updated call by call. Each call brings its own positions of the units, so a target may
be anywhere at the next one. An update either moves the flight toward the place where it finds its
target, or leaves it on the ground. All that follows about runs is read off these two cases.
-/

namespace Volley

namespace Target

variable {target : Target} {locator : Locator} {place : Vec3}

/-- Neither can the unit be located nor is a point given. -/
def Lost (target : Target) (locator : Locator) : Prop :=
  target.unit.bind locator = none ∧ target.point = none

/-- Where a target is: at its unit, or else, if the unit cannot be located, at its point. -/
def IsAt (target : Target) (locator : Locator) (place : Vec3) : Prop :=
  target.unit.bind locator = some place ∨ target.unit.bind locator = none ∧
    target.point = some place

theorem locate_eq_none_iff : target.locate locator = none ↔ target.Lost locator := by
  unfold locate Lost
  cases target.unit.bind locator <;> simp

theorem locate_eq_some_iff : target.locate locator = some place ↔ target.IsAt locator place := by
  unfold locate IsAt
  cases target.unit.bind locator <;> simp

end Target

namespace Flight

/-- What a flight is told at one update. -/
structure Call where
  locator : Locator
  position : Vec3
  dt : Float32

variable {flight : Flight} {plan : FlightPlan} {start target : Vec3} {locator : Locator}
  {call : Call} {calls : List Call}

def step (flight : Flight) (call : Call) : Flight :=
  (flight.update call.locator call.position call.dt).1

def answer (flight : Flight) (call : Call) : Step :=
  (flight.update call.locator call.position call.dt).2

def after (flight : Flight) (calls : List Call) : Flight :=
  calls.foldl step flight

/-- The flight after each update of a run, with the answer to it. -/
def trace (flight : Flight) : List Call → List (Flight × Step)
  | [] => []
  | call :: calls => (flight.step call, flight.answer call) :: (flight.step call).trace calls

def answers (flight : Flight) (calls : List Call) : List Step :=
  (flight.trace calls).map Prod.snd

@[simp] theorem after_nil : flight.after [] = flight := rfl

@[simp] theorem after_cons : flight.after (call :: calls) = (flight.step call).after calls := rfl

@[simp] theorem trace_nil : flight.trace [] = [] := rfl

@[simp] theorem trace_cons :
    flight.trace (call :: calls) = (flight.step call, flight.answer call) ::
      (flight.step call).trace calls := rfl

@[simp] theorem answers_nil : flight.answers [] = [] := rfl

@[simp] theorem answers_cons :
    flight.answers (call :: calls) = flight.answer call :: (flight.step call).answers calls := rfl

theorem after_take_succ {n : Nat} (hn : n < calls.length) :
    flight.after (calls.take (n + 1)) = (flight.after (calls.take n)).step calls[n] := by
  rw [after, List.take_succ_eq_append_getElem hn, List.foldl_append]
  rfl

theorem getElem?_answers {n : Nat} (hn : n < calls.length) :
    (flight.answers calls)[n]? = some ((flight.after (calls.take n)).answer calls[n]) := by
  induction calls generalizing flight n with
  | nil => exact absurd hn (Nat.not_lt_zero n)
  | cons call calls ih =>
      cases n with
      | zero => rfl
      | succ n =>
          have hrest : n < calls.length := Nat.lt_of_succ_lt_succ hn
          simpa using @ih (flight.step call) n hrest

/-! ## What an update does -/

/-- The point that the flight moves toward at a call, if it moves at all. -/
def aim (flight : Flight) (call : Call) : Option Vec3 :=
  if flight.active then
    (flight.plan.target.locate call.locator).filter
      fun target => !collides flight.plan call.position target
  else none

/-- A flight that is over where it was. -/
def grounded (flight : Flight) : Flight :=
  { flight with active := false }

/-- A flight that has been moved toward a point for `dt` seconds. -/
def onward (flight : Flight) (position target : Vec3) (dt : Float32) : Flight :=
  { flight with
    speed := accelerate flight.plan flight.speed dt
    traveled := flight.traveled + accelerate flight.plan flight.speed dt * dt
    direction := steer flight.plan flight.direction position target dt }

/-- The displacement by which a flight has just been moved for `dt` seconds. -/
def stretch (flight : Flight) (dt : Float32) : Vec3 :=
  flight.lift dt (flight.direction.scale (flight.speed * dt))

theorem grounded_of_over (hover : flight.active = false) : flight.grounded = flight := by
  rw [grounded, ← hover]

theorem update_of_over (hover : flight.active = false) (locator : Locator) (position : Vec3)
    (dt : Float32) :
    flight.update locator position dt = (flight, .inactive) := by
  rw [update, hover]
  rfl

theorem update_of_lost (hactive : flight.active = true)
    (hlost : flight.plan.target.locate locator = none) (position : Vec3) (dt : Float32) :
    flight.update locator position dt = (flight.grounded, .targetLost) := by
  rw [update, hactive, hlost]
  rfl

theorem update_of_hit (hactive : flight.active = true)
    (htarget : flight.plan.target.locate locator = some target) {position : Vec3}
    (hhit : collides flight.plan position target = true) (dt : Float32) :
    flight.update locator position dt = (flight.grounded, .hit) := by
  rw [update, hactive, htarget]
  exact if_pos hhit

theorem update_of_clear (hactive : flight.active = true)
    (htarget : flight.plan.target.locate locator = some target) {position : Vec3}
    (hclear : collides flight.plan position target = false) (dt : Float32) :
    flight.update locator position dt =
      (flight.onward position target dt,
        .moved ((flight.onward position target dt).stretch dt)) := by
  rw [update, onward, hactive, htarget]
  exact if_neg (ne_true_of_eq_false hclear)

theorem aim_eq_some_iff :
    flight.aim call = some target ↔
      flight.active = true ∧ flight.plan.target.locate call.locator = some target ∧
        collides flight.plan call.position target = false := by
  unfold aim
  cases flight.active <;> simp [Option.filter_eq_some_iff]

theorem aim_eq_none_iff :
    flight.aim call = none ↔
      flight.active = true → ∀ target, flight.plan.target.locate call.locator = some target →
        collides flight.plan call.position target = true := by
  unfold aim
  cases flight.active <;> simp [Option.filter_eq_none_iff]

section Aim

variable (haim : flight.aim call = some target)

include haim

theorem step_of_aim : flight.step call = flight.onward call.position target call.dt := by
  obtain ⟨hactive, hlocate, hclear⟩ := aim_eq_some_iff.mp haim
  rw [step, update_of_clear hactive hlocate hclear]

theorem answer_of_aim :
    flight.answer call = .moved ((flight.onward call.position target call.dt).stretch call.dt) := by
  obtain ⟨hactive, hlocate, hclear⟩ := aim_eq_some_iff.mp haim
  rw [answer, update_of_clear hactive hlocate hclear]

theorem step_direction_of_aim :
    (flight.step call).direction =
      steer flight.plan flight.direction call.position target call.dt := by
  rw [step_of_aim haim]
  rfl

theorem step_active_of_aim : (flight.step call).active = true := by
  rw [step_of_aim haim]
  exact (aim_eq_some_iff.mp haim).1

end Aim

section Ground

variable (haim : flight.aim call = none)

include haim

theorem step_of_aim_none : flight.step call = flight.grounded := by
  cases hactive : flight.active with
  | false => rw [step, update_of_over hactive, grounded_of_over hactive]
  | true =>
      cases hlocate : flight.plan.target.locate call.locator with
      | none => rw [step, update_of_lost hactive hlocate]
      | some target =>
          rw [step, update_of_hit hactive hlocate (aim_eq_none_iff.mp haim hactive target hlocate)]

theorem answer_of_aim_none :
    flight.answer call =
      if flight.active then
        if flight.plan.target.locate call.locator = none then .targetLost else .hit
      else .inactive := by
  cases hactive : flight.active with
  | false => rw [answer, update_of_over hactive, if_neg Bool.false_ne_true]
  | true =>
      cases hlocate : flight.plan.target.locate call.locator with
      | none => rw [answer, update_of_lost hactive hlocate, if_pos rfl, if_pos rfl]
      | some target =>
          rw [answer, update_of_hit hactive hlocate
            (aim_eq_none_iff.mp haim hactive target hlocate), if_pos rfl,
            if_neg (Option.some_ne_none target)]

theorem step_direction_of_aim_none : (flight.step call).direction = flight.direction := by
  rw [step_of_aim_none haim]
  rfl

end Ground

theorem step_plan (flight : Flight) (call : Call) : (flight.step call).plan = flight.plan := by
  cases haim : flight.aim call with
  | none => rw [step_of_aim_none haim, grounded]
  | some target => rw [step_of_aim haim, onward]

theorem after_plan (flight : Flight) (calls : List Call) :
    (flight.after calls).plan = flight.plan := by
  induction calls generalizing flight with
  | nil => rfl
  | cons call calls ih => exact (ih (flight.step call)).trans (step_plan flight call)

@[simp] theorem launch_plan (plan : FlightPlan) (start : Vec3) (locator : Locator) :
    (launch plan start locator).plan = plan := by
  rw [launch]
  split <;> rfl

theorem launch_direction {target : Vec3} (hlocate : plan.target.locate locator = some target) :
    (launch plan start locator).direction = start.directionTo target := by
  rw [launch, hlocate]

/-! ## Turns -/

/-- The angle that a turn measures between two directions. -/
def angle (direction desired : Vec3) : Float32 :=
  arccos (clamp (direction.dot desired) (-1) 1)

/-- How far the flight may turn at a call. -/
def budget (flight : Flight) (call : Call) : Float32 :=
  radians flight.plan.turnRate * call.dt

/-- The mixture of both directions that a turn by less than the whole angle normalizes. -/
def mixture (direction desired : Vec3) (budget : Float32) : Vec3 :=
  direction.blend desired (budget / angle direction desired)

theorem turn_of_le {direction desired : Vec3} {budget : Float32}
    (h : angle direction desired ≤ budget) :
    turn direction desired budget = desired :=
  if_pos h

theorem turn_of_not_le {direction desired : Vec3} {budget : Float32}
    (h : ¬angle direction desired ≤ budget) :
    turn direction desired budget = ((mixture direction desired budget).normalize?).getD .forward :=
  if_neg h

/-- The flight turns at a call all the way toward the given point. -/
def Snaps (flight : Flight) (call : Call) (target : Vec3) : Prop :=
  flight.plan.homing = true ∧ flight.aim call = some target ∧
    angle flight.direction (call.position.directionTo target) ≤ flight.budget call

/-- The flight turns at a call some of the way toward the given point. -/
def Bends (flight : Flight) (call : Call) (target : Vec3) : Prop :=
  flight.plan.homing = true ∧ flight.aim call = some target ∧
    ¬angle flight.direction (call.position.directionTo target) ≤ flight.budget call

/-- What one update does to the direction. -/
theorem step_direction_cases (flight : Flight) (call : Call) :
    (flight.step call).direction = flight.direction ∧ (∀ target, ¬flight.Snaps call target) ∧
      (∀ target, ¬flight.Bends call target) ∨
    (∃ target, flight.Snaps call target ∧
      (flight.step call).direction = call.position.directionTo target) ∨
    ∃ target, flight.Bends call target ∧ (flight.step call).direction =
      ((mixture flight.direction (call.position.directionTo target)
        (flight.budget call)).normalize?).getD .forward := by
  cases haim : flight.aim call with
  | none =>
      refine Or.inl ⟨step_direction_of_aim_none haim, fun target h => ?_, fun target h => ?_⟩
      · rw [h.2.1] at haim
        cases haim
      · rw [h.2.1] at haim
        cases haim
  | some target =>
      have hdirection := step_direction_of_aim haim
      rw [steer] at hdirection
      by_cases hhoming : flight.plan.homing = true
      · rw [if_pos hhoming] at hdirection
        by_cases hle : angle flight.direction (call.position.directionTo target) ≤
          flight.budget call
        · exact Or.inr (Or.inl ⟨target, ⟨hhoming, haim, hle⟩, hdirection.trans (turn_of_le hle)⟩)
        · exact Or.inr (Or.inr ⟨target, ⟨hhoming, haim, hle⟩,
            hdirection.trans (turn_of_not_le hle)⟩)
      · rw [if_neg hhoming] at hdirection
        exact Or.inl ⟨hdirection, fun _ h => hhoming h.1, fun _ h => hhoming h.1⟩

end Flight

end Volley
