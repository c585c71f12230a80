import Mathlib
import Volley.Proofs.Flight.Nudge

/-!
# Pursuit

A homing flight turns toward its target at every update. It turns by no more than its budget and
comes closer to facing the target, unless the budget is large for an angle next to half a turn,
where the chord that the turn follows comes next to the center.
-/

namespace Volley

open Single Real

namespace Flight

open Vec3 (separation)

variable {direction desired : Vec3} {budget : Float32}

namespace Partway

variable (partway : Partway direction desired budget) (hbudget : 1 / 10 ≤ value budget)
  (hangle : value (angle direction desired) ≤ 31 / 10)

include partway hbudget hangle

theorem le_separation_add :
    value (angle direction desired) ≤ separation direction desired + 1 / 5000 := by
  have hlow := partway.value_lt
  have habove := separation_le_add partway.unit partway.unit_desired (by linarith)
    (by linarith) hangle
  have hbelow := angle_le_add partway.unit partway.unit_desired
    (le_max_right (separation direction desired) (1 / 200))
    (max_le (by linarith) (by norm_num)) (le_max_left _ _)
  rcases le_total (separation direction desired) (1 / 200) with hsmall | hlarge
  · rw [max_eq_right hsmall] at hbelow
    linarith
  · rwa [max_eq_left hlarge] at hbelow

theorem le_share : 32 / 1000 ≤ share direction desired budget := by
  have hmul := mul_le_mul_of_nonneg_left hangle partway.share_nonneg
  linarith [partway.le_share_mul_angle]

theorem le_sin_separation_sub : 41 / 1000 ≤ sin (separation direction desired - 1 / 1500) := by
  have hlow := partway.value_lt
  have hbelow := partway.le_separation_add hbudget hangle
  have habove := separation_le_add partway.unit partway.unit_desired (by norm_num)
    (by norm_num) hangle
  have hcubic := Vec3.sub_cube_le_sin (z := 418 / 10000) (by norm_num) (by norm_num)
  have hmono := sin_le_sin_of_le_pi_sub (c := 418 / 10000) (z := separation direction desired -
    1 / 1500) (by norm_num)
    (by linarith) (by linarith [pi_gt_d4])
  norm_num at hcubic
  linarith

/-- The mark of a turn is closer to the desired direction than the old direction is. -/
theorem angle_mark_desired_le :
    InnerProductGeometry.angle (mark direction desired budget) desired.real ≤
      separation direction desired - 1 / 1500 := by
  have hlong := le_norm_mark_of_angle_le budget partway.unit partway.unit_desired hangle
  have hlow := partway.value_lt
  have hbelow := partway.le_separation_add hbudget hangle
  have hgain : (1 - share direction desired budget) * sin (1 / 1500) ≤
      share direction desired budget * sin (separation direction desired - 1 / 1500) :=
    calc (1 - share direction desired budget) * sin (1 / 1500) ≤ 1 * (1 / 1500) :=
          mul_le_mul (by linarith [partway.share_nonneg]) (sin_le (by norm_num))
            (sin_nonneg_of_nonneg_of_le_pi (by norm_num) (by linarith [pi_gt_three])) zero_le_one
      _ ≤ 32 / 1000 * (41 / 1000) := by norm_num
      _ ≤ share direction desired budget * sin (separation direction desired - 1 / 1500) :=
          mul_le_mul (partway.le_share hbudget hangle)
            (partway.le_sin_separation_sub hbudget hangle) (by norm_num)
            partway.share_nonneg
  rw [← partway.unit.angle_bearing partway.unit_desired] at hgain hbelow ⊢
  have hmark := Vec3.angle_chord_le_sub partway.unit.norm_bearing partway.unit_desired.norm_bearing
    partway.share_le_one
    (by linarith) (norm_pos_iff.mp (lt_of_lt_of_le (by norm_num) hlong)) hgain
  rwa [InnerProductGeometry.angle_comm, partway.unit_desired.angle_bearing_left,
    InnerProductGeometry.angle_comm] at hmark

theorem turn_closer :
    value (angle (turn direction desired budget) desired) < value (angle direction desired) := by
  have hlow := partway.value_lt
  have hlong := le_norm_mark_of_angle_le budget partway.unit partway.unit_desired hangle
  obtain ⟨-, hunit, hclose⟩ := partway.turn_spec hlong
  have hmark := partway.angle_mark_desired_le hbudget hangle
  have habove := separation_le_add partway.unit partway.unit_desired (by linarith)
    (by linarith) le_rfl
  have htriangle := InnerProductGeometry.angle_le_angle_add_angle
    (turn direction desired budget).real
    (mark direction desired budget) desired.real
  have hreal : separation (turn direction desired budget) desired ≤ separation direction desired -
      1 / 1500 + 1 / 11000 := by
    rw [separation]
    linarith
  have hmeasured := angle_le_add hunit partway.unit_desired (le_max_right _ (1 / 200))
    (max_le (by linarith) (by norm_num)) (hreal.trans (le_max_left _ _))
  refine hmeasured.trans_lt ?_
  rcases le_total (separation direction desired - 1 / 1500 + 1 / 11000) (1 / 200)
    with hsmall | hlarge
  · rw [max_eq_right hsmall]
    linarith
  · rw [max_eq_left hlarge]
    linarith

end Partway

theorem value_tenth : value 0.1 = 13421773 / 2 ^ 27 := by
  have hunpack : (0.1 : Float32).toModel.unpack =
      .finite .positive 13421773 (-27) (by decide) := rfl
  rw [value_of_unpack hunpack]
  norm_num

/-- A turn with a budget of a tenth at least comes closer to the desired direction,
unless that is all but opposite. -/
theorem turn_closer (hdirection : direction.Unit) (hdesired : desired.Unit)
    (hself : value (angle desired desired) ≤ 979 / 10 ^ 6) (hbudget : 0.1 ≤ budget)
    (hangle : value (angle direction desired) ≤ 31 / 10) :
    angle (turn direction desired budget) desired < angle direction desired ∨
      value (angle direction desired) ≤ 1 / 1000 := by
  have hbefore := (angle_spec hdirection hdesired).1
  by_cases hle : angle direction desired ≤ budget
  · rw [turn_of_le hle, lt_iff_value (angle_spec hdesired hdesired).1 hbefore]
    rcases le_or_gt (value (angle direction desired)) (1 / 1000) with hsmall | hlarge
    · exact Or.inr hsmall
    · exact Or.inl (hself.trans_lt (lt_trans (by norm_num) hlarge))
  · have hfinite := finite_of_le rfl hbefore hbudget hle
    rw [le_iff_value rfl hfinite, value_tenth] at hbudget
    have htenth : 1 / 10 ≤ value budget := le_trans (by norm_num) hbudget
    have hnonneg : 0 ≤ budget := by
      rw [le_iff_value rfl hfinite, value_zero]
      linarith
    have partway : Partway direction desired budget := ⟨hdirection, hdesired, hnonneg, hle⟩
    obtain ⟨-, hunit, -⟩ := partway.turn_spec
      (le_norm_mark_of_angle_le budget hdirection hdesired hangle)
    rw [lt_iff_value (angle_spec hunit hdesired).1 hbefore]
    exact Or.inl (partway.turn_closer htenth hangle)

/-! ## Updates -/

variable {flight : Flight} {plan : FlightPlan} {start target aimed : Vec3} {locator : Locator}
  {call : Call} {calls : List Call}

/-- Every turn that an update makes by less than the whole angle is a gentle one. -/
def Tame (flight : Flight) (call : Call) : Prop :=
  ∀ target, flight.Bends call target →
    Gentle flight.direction (call.position.directionTo target) (flight.budget call)

theorem budget_nonneg (hrate : 0 ≤ flight.plan.turnRate) (hdt : 0 < call.dt)
    (hfinite : (flight.budget call).isFinite = true) :
    0 ≤ flight.budget call := by
  obtain ⟨hradians, hcall⟩ := finite_of_mul hfinite
  obtain ⟨hturn, hfactor⟩ := finite_of_mul hradians
  rw [le_iff_value rfl hturn, value_zero] at hrate
  rw [lt_iff_value rfl hcall, value_zero] at hdt
  rw [le_iff_value rfl hfinite, value_zero]
  have hpositive : (0 : Float32) ≤ Angle.half / 180 := by decide +kernel
  rw [le_iff_value rfl hfactor, value_zero] at hpositive
  have hradians' := ((approximates_mul hturn hfactor).rounds hradians).nonneg
    (mul_nonneg hrate hpositive)
  exact ((approximates_mul hradians hcall).rounds hfinite).nonneg (mul_nonneg hradians' hdt.le)

theorem Bends.partway (hbends : flight.Bends call target) (hunit : flight.direction.Unit)
    (hbudget : 0 ≤ flight.budget call) (hmeasurable : Measurable call.position target) :
    Partway flight.direction (call.position.directionTo target) (flight.budget call) :=
  ⟨hunit, Vec3.directionTo_unit hmeasurable, hbudget, hbends.2.2⟩

theorem not_faint_of_gentle (hunit : flight.direction.Unit) (hbudget : 0 ≤ flight.budget call)
    (hmeasurable : Measurable call.position target) (htame : flight.Tame call)
    (hbends : flight.Bends call target) :
    ¬(mixture flight.direction (call.position.directionTo target) (flight.budget call)).Faint := by
  have partway := hbends.partway hunit hbudget hmeasurable
  exact (partway.turn_spec (partway.le_norm_mark (htame target hbends))).1

section Step

variable (hunit : flight.direction.Unit) (hbudget : 0 ≤ flight.budget call)
  (hmeasurable : ∀ target, flight.aim call = some target → Measurable call.position target)
  (htame : flight.Tame call)

include hunit hbudget hmeasurable htame

theorem step_unit_of_tame : (flight.step call).direction.Unit :=
  step_unit hunit (fun target hsnaps => hmeasurable target hsnaps.2.1) fun target hbends =>
    not_faint_of_gentle hunit hbudget (hmeasurable target hbends.2.1) htame hbends

/-- An update that moves a homing flight turns it by no more than its budget, up to a thousandth. -/
theorem step_turn_le_of_aim (hfinite : (flight.budget call).isFinite = true)
    (hhoming : flight.plan.homing = true) (haim : flight.aim call = some target) :
    value (angle flight.direction (flight.step call).direction) ≤
      value (flight.budget call) + 1 / 1000 := by
  have hdirection := step_direction_of_aim haim
  have hdesired := Vec3.directionTo_unit (hmeasurable target haim)
  rw [steer, if_pos hhoming] at hdirection
  rw [hdirection]
  by_cases hle : angle flight.direction (call.position.directionTo target) ≤ flight.budget call
  · rw [← budget, turn_of_le hle]
    rw [le_iff_value (angle_spec hunit hdesired).1 hfinite] at hle
    linarith
  · have hbends : flight.Bends call target := ⟨hhoming, haim, hle⟩
    exact (hbends.partway hunit hbudget (hmeasurable target haim)).turn_le_add (htame target hbends)

/-- An update that does not move a homing flight leaves the direction as it is, which
is measured as hardly any turn. -/
theorem step_turn_le (hfinite : (flight.budget call).isFinite = true) :
    value (angle flight.direction (flight.step call).direction) ≤
      max (value (flight.budget call)) (1 / 5000) + 1 / 1000 := by
  by_cases hmoves : flight.plan.homing = true ∧ ∃ target, flight.aim call = some target
  · obtain ⟨hhoming, target, haim⟩ := hmoves
    have hturn := step_turn_le_of_aim hunit hbudget hmeasurable htame hfinite hhoming haim
    exact hturn.trans (add_le_add_left (le_max_left _ _) _)
  · have hsame : (flight.step call).direction = flight.direction := by
      rcases step_direction_cases flight call with h | ⟨target, h, -⟩ | ⟨target, h, -⟩
      · exact h.1
      · exact absurd ⟨h.1, target, h.2.1⟩ hmoves
      · exact absurd ⟨h.1, target, h.2.1⟩ hmoves
    rw [hsame]
    exact (angle_self_le hunit).trans (add_le_add_left (le_max_right _ _) _)

end Step

/-- An update of a homing flight comes closer to facing the target. -/
theorem step_closer (hunit : flight.direction.Unit) (hhoming : flight.plan.homing = true)
    (haim : flight.aim call = some target) (hmeasurable : Measurable call.position target)
    (hbudget : 0.1 ≤ flight.budget call)
    (hangle : value (angle flight.direction (call.position.directionTo target)) ≤ 31 / 10) :
    angle (flight.step call).direction (call.position.directionTo target) <
        angle flight.direction (call.position.directionTo target) ∨
      value (angle flight.direction (call.position.directionTo target)) ≤ 1 / 1000 := by
  rw [step_direction_of_aim haim, steer, if_pos hhoming]
  exact turn_closer hunit (Vec3.directionTo_unit hmeasurable)
    (angle_directionTo_self_le hmeasurable) hbudget hangle

/-! ## Runs -/

/-- Every distance over which a run takes a direction is a number. -/
def Ranged (flight : Flight) (calls : List Call) : Prop :=
  ∀ n (hn : n < calls.length) target, (flight.after (calls.take n)).aim calls[n] = some target →
    Measurable calls[n].position target

theorem budget_after (plan : FlightPlan) (start : Vec3) (locator : Locator) (calls : List Call)
    (call : Call) :
    ((launch plan start locator).after calls).budget call = radians plan.turnRate * call.dt := by
  rw [budget, after_plan, launch_plan]

theorem after_launch_unit (hlocate : plan.target.locate locator = some target)
    (hstart : Measurable start target) (hranged : (launch plan start locator).Ranged calls)
    (hclear : (launch plan start locator).Clear calls) :
    ((launch plan start locator).after calls).direction.Unit := by
  have hlaunch : (launch plan start locator).direction.Unit := by
    rw [launch_direction hlocate]
    exact Vec3.directionTo_unit hstart
  have hunit := after_unit hlaunch hclear
    (fun n hn target hsnaps => hranged n hn target hsnaps.2.1) le_rfl
  rwa [List.take_length] at hunit

/-- A homing flight turns by no more than its budget, up to a thousandth, at every update
that moves it and makes a gentle turn if it makes one by less than the whole angle. At
any other update it is not turned. -/
theorem turn_within_budget (hlocate : plan.target.locate locator = some target)
    (hstart : Measurable start target) (hranged : (launch plan start locator).Ranged calls)
    (hclear : (launch plan start locator).Clear calls) (hrate : 0 ≤ plan.turnRate)
    (hdt : 0 < call.dt) (hfinite : (radians plan.turnRate * call.dt).isFinite = true)
    (hmeasurable : ∀ aimed, ((launch plan start locator).after calls).aim call = some aimed →
      Measurable call.position aimed)
    (htame : ((launch plan start locator).after calls).Tame call) :
    (angle ((launch plan start locator).after calls).direction
        (((launch plan start locator).after calls).step call).direction).isFinite = true ∧
      (plan.homing = true → (((launch plan start locator).after calls).aim call).isSome →
        value (angle ((launch plan start locator).after calls).direction
            (((launch plan start locator).after calls).step call).direction) ≤
          value (radians plan.turnRate * call.dt) + 1 / 1000) ∧
      value (angle ((launch plan start locator).after calls).direction
          (((launch plan start locator).after calls).step call).direction) ≤
        max (value (radians plan.turnRate * call.dt)) (1 / 5000) + 1 / 1000 := by
  rw [← budget_after plan start locator calls call] at hfinite ⊢
  have hnonneg := budget_nonneg (by rwa [after_plan, launch_plan]) hdt hfinite
  have hunit := after_launch_unit hlocate hstart hranged hclear
  refine ⟨(angle_spec hunit (step_unit_of_tame hunit hnonneg hmeasurable htame)).1,
    fun hhoming hmoves => ?_,
    step_turn_le hunit hnonneg hmeasurable htame hfinite⟩
  obtain ⟨aimed, haim⟩ := Option.isSome_iff_exists.mp hmoves
  exact step_turn_le_of_aim hunit hnonneg hmeasurable htame hfinite
    (by rwa [after_plan, launch_plan]) haim

/-- What two updates in a row that find the unit across come to. -/
theorem crossing_again_reads :
    Measurable across.position { x := 0, y := 10, z := 0 } ∧
      ((launch crossing .zero ahead).after [across]).aim across = some { x := 0, y := 10, z := 0 } ∧
      (0 ≤ crossing.turnRate ∧ 0 < across.dt ∧
        (radians crossing.turnRate * across.dt).isFinite = true ∧
        0.1 ≤ radians crossing.turnRate * across.dt ∧
        radians crossing.turnRate * across.dt ≤ 0.19921875) ∧
      (angle ((launch crossing .zero ahead).after [across]).direction
        (across.position.directionTo { x := 0, y := 10, z := 0 })).isFinite = true ∧
      1 ≤ angle ((launch crossing .zero ahead).after [across]).direction
        (across.position.directionTo { x := 0, y := 10, z := 0 }) ∧
      angle ((launch crossing .zero ahead).after [across]).direction
        (across.position.directionTo { x := 0, y := 10, z := 0 }) ≤ 3 := by
  decide +kernel

theorem crossing_ranged : (launch crossing .zero ahead).Ranged [across] := by
  intro n hn target haim
  obtain rfl : n = 0 := Nat.lt_one_iff.mp hn
  obtain rfl : target = { x := 0, y := 10, z := 0 } :=
    Option.some.inj (haim.symm.trans crossing_reads.2.1)
  exact crossing_again_reads.1

/-- The second of two updates that find the unit across turns the flight by its budget. -/
theorem crossing_turn_within_budget :
    value (angle ((launch crossing .zero ahead).after [across]).direction
        (((launch crossing .zero ahead).after [across]).step across).direction) ≤
      value (radians crossing.turnRate * across.dt) + 1 / 1000 := by
  have hlocate : crossing.target.locate ahead = some { x := 10, y := 0, z := 0 } := rfl
  obtain ⟨hmeasurable, hagain, ⟨hrate, hdt, hfinite, -, hsmall⟩, -⟩ := crossing_again_reads
  refine (turn_within_budget hlocate crossing_reads.1 crossing_ranged crossing_clear
    hrate hdt hfinite
    (fun aimed haim => ?_) fun aimed hbends => .small ?_).2.1 rfl (Option.isSome_of_eq_some hagain)
  · obtain rfl := Option.some.inj (haim.symm.trans hagain)
    exact hmeasurable
  · have hvalue : value 0.19921875 = 51 / 256 := by
      have hunpack : (0.19921875 : Float32).toModel.unpack =
          .finite .positive 13369344 (-26) (by decide) := rfl
      rw [value_of_unpack hunpack]
      norm_num
    rw [le_iff_value hfinite rfl, hvalue] at hsmall
    rw [budget_after]
    linarith

/-- An update that finds the unit of a flight along the first axis right behind it. -/
def opposite (dt : Float32) : Call where
  locator := fun _ => some { x := -10, y := 0, z := 0 }
  position := .zero
  dt := dt

/-- A homing flight that may turn by two thirds of half a turn in a second. -/
def swerving : FlightPlan :=
  { crossing with turnRate := 120 }

/-- What a turn toward the opposite direction comes to, with a large budget and with a small one. -/
theorem opposite_reads :
    Measurable .zero { x := -10, y := 0, z := 0 } ∧
      ((launch swerving .zero ahead).aim (opposite 1) = some { x := -10, y := 0, z := 0 } ∧
        0 ≤ swerving.turnRate ∧ 0 < (opposite 1).dt ∧
        (radians swerving.turnRate * (opposite 1).dt).isFinite = true ∧
        radians swerving.turnRate * (opposite 1).dt ≤ 3 ∧
        angle (launch swerving .zero ahead).direction
          ((launch swerving .zero ahead).step (opposite 1)).direction =
          Angle.half) ∧
      ((launch crossing .zero ahead).active = true ∧
        (launch crossing .zero ahead).direction = .forward) ∧
      collides crossing .zero { x := -10, y := 0, z := 0 } = false ∧
      steer crossing .forward .zero { x := -10, y := 0, z := 0 } 0.125 = .forward := by
  decide +kernel

/-- The chord from a direction to the opposite one comes past the center, so that
two thirds of it are half a turn. -/
theorem swerving_exceeds_budget :
    swerving.homing = true ∧ (launch swerving .zero ahead).aim (opposite 1) =
      some { x := -10, y := 0, z := 0 } ∧
      Measurable (opposite 1).position { x := -10, y := 0, z := 0 } ∧ 0 ≤ swerving.turnRate ∧
      0 < (opposite 1).dt ∧
      value (radians swerving.turnRate * (opposite 1).dt) + 1 / 1000 <
        value (angle (launch swerving .zero ahead).direction
          ((launch swerving .zero ahead).step (opposite 1)).direction) := by
  obtain ⟨hmeasurable, ⟨haim, hrate, hdt, hfinite, hbudget, hangle⟩, -⟩ := opposite_reads
  refine ⟨rfl, haim, hmeasurable, hrate, hdt, ?_⟩
  rw [le_iff_value hfinite rfl, value_three] at hbudget
  rw [hangle, Angle.value_half]
  norm_num
  linarith

/-- A homing flight comes closer to facing its target at every update with a budget of a tenth at
least, unless the target is right behind it. -/
theorem pursuit_closer (hlocate : plan.target.locate locator = some target)
    (hstart : Measurable start target) (hranged : (launch plan start locator).Ranged calls)
    (hclear : (launch plan start locator).Clear calls) (hhoming : plan.homing = true)
    (haim : ((launch plan start locator).after calls).aim call = some aimed)
    (hmeasurable : Measurable call.position aimed) (hbudget : 0.1 ≤ radians plan.turnRate * call.dt)
    (hangle : value (angle ((launch plan start locator).after calls).direction
      (call.position.directionTo aimed)) ≤ 31 / 10) :
    angle (((launch plan start locator).after calls).step call).direction
      (call.position.directionTo aimed) <
        angle ((launch plan start locator).after calls).direction
          (call.position.directionTo aimed) ∨
      value (angle ((launch plan start locator).after calls).direction
        (call.position.directionTo aimed)) ≤ 1 / 1000 := by
  refine step_closer (after_launch_unit hlocate hstart hranged hclear) ?_ haim hmeasurable ?_ hangle
  · rwa [after_plan, launch_plan]
  · rwa [budget_after]

/-- The second of two updates that find the unit across brings the flight closer to facing it. -/
theorem crossing_pursuit_closer :
    angle (((launch crossing .zero ahead).after [across]).step across).direction
        (across.position.directionTo { x := 0, y := 10, z := 0 }) <
      angle ((launch crossing .zero ahead).after [across]).direction
        (across.position.directionTo { x := 0, y := 10, z := 0 }) := by
  have hlocate : crossing.target.locate ahead = some { x := 10, y := 0, z := 0 } := rfl
  obtain ⟨hmeasurable, hagain, ⟨-, -, -, hbudget, -⟩, hfinite, habove, hbelow⟩ :=
    crossing_again_reads
  refine (pursuit_closer hlocate crossing_reads.1 crossing_ranged crossing_clear rfl hagain
    hmeasurable hbudget
    ?_).resolve_right ?_
  · rw [le_iff_value hfinite rfl, value_three] at hbelow
    exact hbelow.trans (by norm_num)
  · rw [le_iff_value rfl hfinite, value_one] at habove
    linarith

/-- The mixture of opposite directions points along the old one, so the flight keeps flying away. -/
theorem opposite_not_closer :
    crossing.homing = true ∧ (launch crossing .zero ahead).aim (opposite 0.125) =
      some { x := -10, y := 0, z := 0 } ∧
      Measurable (opposite 0.125).position { x := -10, y := 0, z := 0 } ∧
      ¬(({ x := -10, y := 0, z := 0 } : Vec3) - (opposite 0.125).position).length <
        Vec3.leastSeparation ∧
      0.1 ≤ radians crossing.turnRate * (opposite 0.125).dt ∧
      ¬(angle ((launch crossing .zero ahead).step (opposite 0.125)).direction
          ((opposite 0.125).position.directionTo { x := -10, y := 0, z := 0 }) <
            angle (launch crossing .zero ahead).direction
              ((opposite 0.125).position.directionTo { x := -10, y := 0, z := 0 }) ∨
        angle (launch crossing .zero ahead).direction
          ((opposite 0.125).position.directionTo { x := -10, y := 0, z := 0 }) ≤ 0.001) := by
  decide +kernel

/-- One such update leaves the flight as it was, but for how far it has come. -/
theorem step_opposite (hplan : flight.plan = crossing) (hactive : flight.active = true)
    (hdirection : flight.direction = .forward) :
    (flight.step (opposite 0.125)).plan = crossing ∧ (flight.step (opposite 0.125)).active = true ∧
      (flight.step (opposite 0.125)).direction = .forward := by
  have haim : flight.aim (opposite 0.125) = some { x := -10, y := 0, z := 0 } := by
    rw [aim_eq_some_iff, hplan]
    exact ⟨hactive, rfl, opposite_reads.2.2.2.1⟩
  refine ⟨(step_plan _ _).trans hplan, step_active_of_aim haim, ?_⟩
  rw [step_direction_of_aim haim, hplan, hdirection]
  exact opposite_reads.2.2.2.2

/-- However long it goes on, a flight with its unit right behind it flies straight away. -/
theorem after_opposite_forward (n : Nat) :
    ((launch crossing .zero ahead).after (List.replicate n (opposite 0.125))).direction =
      .forward := by
  have hkeeps (flight : Flight) (hplan : flight.plan = crossing) (hactive : flight.active = true)
      (hdirection : flight.direction = .forward) :
      (flight.after (List.replicate n (opposite 0.125))).direction = .forward := by
    induction n generalizing flight with
    | zero => exact hdirection
    | succ n ih =>
        obtain ⟨hplan', hactive', hdirection'⟩ := step_opposite hplan hactive hdirection
        exact ih _ hplan' hactive' hdirection'
  obtain ⟨hactive, hdirection⟩ := opposite_reads.2.2.1
  exact hkeeps _ (launch_plan _ _ _) hactive hdirection

section Tame

variable (hunit : flight.direction.Unit) (hranged : flight.Ranged calls)
  (hbudget : ∀ n (hn : n < calls.length), 0 ≤ (flight.after (calls.take n)).budget calls[n])
  (htame : ∀ n (hn : n < calls.length), (flight.after (calls.take n)).Tame calls[n])

include hunit hranged hbudget htame

theorem after_unit_of_tame {n : Nat} (hn : n ≤ calls.length) :
    (flight.after (calls.take n)).direction.Unit := by
  induction n with
  | zero => exact hunit
  | succ n ih =>
      have hprevious := ih (Nat.le_of_succ_le hn)
      rw [after_take_succ hn]
      exact step_unit_of_tame hprevious (hbudget n hn)
        (fun target haim => hranged n hn target haim) (htame n hn)

/-- A run whose turns are all gentle is a clear one. -/
theorem clear_of_tame : flight.Clear calls := by
  intro n hn target hbends
  have hprevious := after_unit_of_tame hunit hranged hbudget htame hn.le
  exact not_faint_of_gentle hprevious (hbudget n hn) (hranged n hn target hbends.2.1)
    (htame n hn) hbends

/-- No turn of such a run goes beyond its budget, up to a thousandth. -/
theorem after_turn_le {n : Nat} (hn : n < calls.length)
    (hfinite : ((flight.after (calls.take n)).budget calls[n]).isFinite = true) :
    value (angle (flight.after (calls.take n)).direction
      (flight.after (calls.take (n + 1))).direction) ≤
      max (value ((flight.after (calls.take n)).budget calls[n])) (1 / 5000) + 1 / 1000 := by
  rw [after_take_succ hn]
  exact step_turn_le (after_unit_of_tame hunit hranged hbudget htame hn.le) (hbudget n hn)
    (fun target haim => hranged n hn target haim) (htame n hn) hfinite

end Tame

end Flight

end Volley
