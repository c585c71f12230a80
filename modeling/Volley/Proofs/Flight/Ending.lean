import Volley.Proofs.Flight.Run

/-!
# The end of a flight

A flight moves until it ends. It ends once, at an update that finds no target or finds it within
reach, and that update changes nothing but that the flight is over. From then on the flight stays as
it is, even if its target can be located again.
-/

namespace Volley

/-- A place is close enough to be hit: within the collision radius, or next to the
position if there is no such radius. -/
def FlightPlan.Reaches (plan : FlightPlan) (position place : Vec3) : Prop :=
  plan.collisionRadius ≤ 0 ∧ position.distanceSquared place ≤ defaultHitDistanceSquared ∨
    ¬plan.collisionRadius ≤ 0 ∧ position.distance place ≤ plan.collisionRadius

namespace Flight

variable {flight : Flight} {call : Call} {calls : List Call} {position target : Vec3} {n m : Nat}

theorem collides_iff (plan : FlightPlan) (position place : Vec3) :
    collides plan position place = true ↔ plan.Reaches position place := by
  unfold collides FlightPlan.Reaches
  by_cases hradius : plan.collisionRadius ≤ 0 <;> simp [hradius]

/-! ## One update -/

theorem answer_eq_targetLost_iff :
    flight.answer call = .targetLost ↔ flight.active = true ∧
      flight.plan.target.Lost call.locator := by
  rw [← Target.locate_eq_none_iff]
  cases haim : flight.aim call with
  | none =>
      rw [answer_of_aim_none haim]
      cases flight.active <;> simp
  | some target =>
      obtain ⟨-, hlocate, -⟩ := aim_eq_some_iff.mp haim
      simp [answer_of_aim haim, hlocate]

theorem answer_eq_hit_iff :
    flight.answer call = .hit ↔
      flight.active = true ∧
        ∃ place, flight.plan.target.IsAt call.locator place ∧
        flight.plan.Reaches call.position place := by
  simp only [← Target.locate_eq_some_iff, ← collides_iff]
  cases haim : flight.aim call with
  | none =>
      have hhit := aim_eq_none_iff.mp haim
      rw [answer_of_aim_none haim]
      cases hactive : flight.active with
      | false => simp
      | true =>
          cases hlocate : flight.plan.target.locate call.locator with
          | none => simp
          | some target => simp [hhit hactive target hlocate]
  | some target =>
      obtain ⟨-, hlocate, hclear⟩ := aim_eq_some_iff.mp haim
      simp [answer_of_aim haim, hlocate, hclear]

/-- The flight is moved at a call. -/
def Moves (flight : Flight) (call : Call) : Prop :=
  ∃ displacement, flight.answer call = .moved displacement

theorem moves_iff : flight.Moves call ↔ ∃ target, flight.aim call = some target := by
  unfold Moves
  cases haim : flight.aim call with
  | none =>
      rw [answer_of_aim_none haim]
      cases flight.active
      · simp
      · by_cases hlocate : flight.plan.target.locate call.locator = none <;> simp [hlocate]
  | some target => simp [answer_of_aim haim]

theorem aim_of_not_moves (hends : ¬flight.Moves call) : flight.aim call = none := by
  rw [moves_iff] at hends
  exact Option.eq_none_iff_forall_ne_some.mpr fun target haim => hends ⟨target, haim⟩

theorem step_active_iff : (flight.step call).active = true ↔ flight.Moves call := by
  rw [moves_iff]
  cases haim : flight.aim call with
  | none => simp [step_of_aim_none haim, grounded]
  | some target => simp [step_active_of_aim haim]

theorem active_of_moves (hmoves : flight.Moves call) : flight.active = true := by
  obtain ⟨target, haim⟩ := moves_iff.mp hmoves
  exact (aim_eq_some_iff.mp haim).1

theorem step_of_over (hover : flight.active = false) (call : Call) : flight.step call = flight := by
  rw [step, update_of_over hover]

theorem answer_of_over (hover : flight.active = false)
    (call : Call) : flight.answer call = .inactive := by
  rw [answer, update_of_over hover]

theorem step_direction_of_straight (hstraight : flight.plan.homing = false) (call : Call) :
    (flight.step call).direction = flight.direction := by
  cases haim : flight.aim call with
  | none => exact step_direction_of_aim_none haim
  | some target =>
      rw [step_direction_of_aim haim, steer, hstraight]
      rfl

/-! ## Runs -/

/-- Moves, and then perhaps one end, after which there is nothing left to update. -/
inductive Orderly : List Step → Prop
  | moves (displacements : List Vec3) : Orderly (displacements.map .moved)
  | ends (displacements : List Vec3) {last : Step}
      (hlast : last = .hit ∨ last = .targetLost) (idle : Nat) :
      Orderly (displacements.map .moved ++ last :: List.replicate idle .inactive)

theorem Orderly.cons {rest : List Step} (hrest : Orderly rest) (displacement : Vec3) :
    Orderly (.moved displacement :: rest) := by
  cases hrest with
  | moves displacements => exact .moves (displacement :: displacements)
  | ends displacements hlast idle => exact .ends (displacement :: displacements) hlast idle

theorem answers_of_over (hover : flight.active = false) (calls : List Call) :
    flight.answers calls = List.replicate calls.length .inactive := by
  induction calls with
  | nil => rfl
  | cons call calls ih =>
      rw [answers_cons, answer_of_over hover, step_of_over hover, ih]
      rfl

theorem orderly_answers (hactive : flight.active = true)
    (calls : List Call) : Orderly (flight.answers calls) := by
  induction calls generalizing flight with
  | nil => exact .moves []
  | cons call calls ih =>
      rw [answers_cons]
      cases haim : flight.aim call with
      | none =>
          have hlast : flight.answer call = .hit ∨ flight.answer call = .targetLost := by
            rw [answer_of_aim_none haim, if_pos hactive]
            split
            · exact Or.inr rfl
            · exact Or.inl rfl
          rw [step_of_aim_none haim, answers_of_over rfl]
          exact .ends [] hlast calls.length
      | some target =>
          rw [answer_of_aim haim]
          exact (ih (step_active_of_aim haim)).cons _

/-- A flight is still under way exactly if all updates so far have moved it. -/
theorem after_active_iff (hactive : flight.active = true) (hn : n ≤ calls.length) :
    (flight.after (calls.take n)).active = true ↔
      ∀ m (hm : m < n), (flight.after (calls.take m)).Moves calls[m] := by
  induction n with
  | zero => simp [hactive]
  | succ n ih =>
      have hprevious := ih (Nat.le_of_succ_le hn)
      rw [after_take_succ hn, step_active_iff]
      constructor
      · intro hmoves m hm
        rcases Nat.lt_succ_iff_lt_or_eq.mp hm with hearlier | rfl
        · exact hprevious.mp (active_of_moves hmoves) m hearlier
        · exact hmoves
      · intro hall
        exact hall n (Nat.lt_succ_self n)

/-- After an update that does not move it, a flight is on the ground for good. -/
theorem after_eq_grounded (hn : n < calls.length)
    (hends : ¬(flight.after (calls.take n)).Moves calls[n]) (hnm : n < m) (hm : m ≤ calls.length) :
    flight.after (calls.take m) = (flight.after (calls.take n)).grounded := by
  induction hnm with
  | refl => rw [after_take_succ hn, step_of_aim_none (aim_of_not_moves hends)]
  | step hnm ih =>
      rw [after_take_succ hm, ih (Nat.le_of_succ_le hm)]
      exact step_of_over rfl _

theorem after_direction_of_straight (hstraight : flight.plan.homing = false) (calls : List Call) :
    (flight.after calls).direction = flight.direction := by
  induction calls generalizing flight with
  | nil => rfl
  | cons call calls ih =>
      rw [after_cons, ih (by rw [step_plan, hstraight]), step_direction_of_straight hstraight]

/-- How a flight fares from its launch to its end, and what is left of it then. -/
structure EndsOnce (flight : Flight) (calls : List Call) : Prop where
  orderly : Orderly (flight.answers calls)
  active : ∀ n (hn : n ≤ calls.length), (flight.after (calls.take n)).active = true ↔
    ∀ m (hm : m < n), (flight.after (calls.take m)).Moves calls[m]
  lost : ∀ n (hn : n < calls.length), (flight.after (calls.take n)).answer calls[n] = .targetLost ↔
    (flight.after (calls.take n)).active = true ∧ flight.plan.target.Lost calls[n].locator
  hit : ∀ n (hn : n < calls.length), (flight.after (calls.take n)).answer calls[n] = .hit ↔
    (flight.after (calls.take n)).active = true ∧
      ∃ place, flight.plan.target.IsAt calls[n].locator place ∧
      flight.plan.Reaches calls[n].position place
  frozen : ∀ n (hn : n < calls.length), ¬(flight.after (calls.take n)).Moves calls[n] → ∀ m, n < m →
    m ≤ calls.length →
    flight.after (calls.take m) = { flight.after (calls.take n) with active := false }
  direction : flight.plan.homing = false →
    ∀ n, (flight.after (calls.take n)).direction = flight.direction

theorem launch_active (plan : FlightPlan) (start : Vec3) (locator : Locator) :
    (launch plan start locator).active = true := by
  rw [launch]
  split <;> rfl

/-- A flight ends once and freezes, whatever it is told. -/
theorem ends_once (plan : FlightPlan) (start : Vec3) (locator : Locator) (calls : List Call) :
    EndsOnce (launch plan start locator) calls where
  orderly := orderly_answers (launch_active plan start locator) calls
  active n hn := after_active_iff (launch_active plan start locator) hn
  lost n hn := by rw [answer_eq_targetLost_iff, after_plan]
  hit n hn := by rw [answer_eq_hit_iff, after_plan]
  frozen n hn hends m hnm hm := after_eq_grounded hn hends hnm hm
  direction hstraight n := after_direction_of_straight hstraight (calls.take n)

end Flight

end Volley
