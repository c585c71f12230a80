import Mathlib
import Volley.Proofs.Flight.Run
import Volley.Proofs.Space.Direction

/-!
# The length of the direction

The direction of a flight is a unit vector from the launch on, unless a distance overflows where the
direction is taken from two points. Normalizing keeps the length as long as the squared length of
what is normalized does not underflow.
-/

namespace Volley

open Single

namespace Vec3

variable {v : Vec3}

/-- The length is one to four decimals. -/
def Steady (v : Vec3) : Prop :=
  v.Finite ∧ |‖v.real‖ - 1| ≤ 1 / 10 ^ 4

theorem Unit.steady (h : v.Unit) : v.Steady := by
  refine ⟨h.finite, h.norm.trans ?_⟩
  rw [roundoff_eq]
  norm_num

theorem not_steady_of_norm (h : ‖v.real‖ = 0) : ¬v.Steady := by
  rintro ⟨-, hnorm⟩
  rw [h] at hnorm
  norm_num at hnorm

/-- The squared length is positive, but too small to keep its digits. -/
structure Faint (v : Vec3) : Prop where
  pos : 0 < value (v.dot v)
  small : value (v.dot v) < 1 / 2 ^ 100

theorem normalized_unit (h : ¬v.Faint) : (v.normalize?.getD forward).Unit := by
  by_cases hpositive : (v.dot v).isFinite = true ∧ 0 < value (v.dot v)
  · have hlow : 1 / 2 ^ 100 ≤ value (v.dot v) := not_lt.mp fun hlt => h ⟨hpositive.2, hlt⟩
    obtain ⟨direction, hnormalize, hunit, -⟩ := normalize?_spec hpositive.1 hlow
    rw [hnormalize]
    exact hunit
  · rw [normalize?_eq_none hpositive]
    exact forward_unit

end Vec3

namespace Flight

variable {flight : Flight} {plan : FlightPlan} {start target : Vec3} {locator : Locator}
  {call : Call} {calls : List Call}

/-- The distance over which a flight takes its direction from two points is a number. -/
def Measurable (position target : Vec3) : Prop :=
  (target - position).length.isFinite = true

instance (position target : Vec3) : Decidable (Measurable position target) :=
  inferInstanceAs (Decidable (_ = true))

theorem step_unit (hunit : flight.direction.Unit)
    (hsnap : ∀ target, flight.Snaps call target → Measurable call.position target)
    (hbend : ∀ target, flight.Bends call target →
      ¬(mixture flight.direction (call.position.directionTo target) (flight.budget call)).Faint) :
    (flight.step call).direction.Unit := by
  obtain ⟨hsame, -⟩ | ⟨target, hsnaps, hdirection⟩ | ⟨target, hbends, hdirection⟩ :=
    step_direction_cases flight call
  · rw [hsame]
    exact hunit
  · rw [hdirection]
    exact Vec3.directionTo_unit (hsnap target hsnaps)
  · rw [hdirection]
    exact Vec3.normalized_unit (hbend target hbends)

theorem not_steady_of_snaps (hsnaps : flight.Snaps call target)
    (hfar : ¬Measurable call.position target) :
    ¬(flight.step call).direction.Steady := by
  have hdirection : (flight.step call).direction = call.position.directionTo target := by
    rw [step_direction_of_aim hsnaps.2.1, steer, if_pos hsnaps.1]
    exact turn_of_le hsnaps.2.2
  rw [hdirection]
  exact Vec3.not_steady_of_norm (Vec3.norm_directionTo_of_not_finite hfar)

section Run

/-- No update of a run normalizes a mixture whose squared length underflows. -/
def Clear (flight : Flight) (calls : List Call) : Prop :=
  ∀ n (hn : n < calls.length) target, (flight.after (calls.take n)).Bends calls[n] target →
    ¬(mixture (flight.after (calls.take n)).direction (calls[n].position.directionTo target)
      ((flight.after (calls.take n)).budget calls[n])).Faint

theorem after_unit (hunit : flight.direction.Unit) (hclear : flight.Clear calls)
    (hsnap : ∀ n (hn : n < calls.length) target,
      (flight.after (calls.take n)).Snaps calls[n] target → Measurable calls[n].position target)
    {n : Nat} (hn : n ≤ calls.length) :
    (flight.after (calls.take n)).direction.Unit := by
  induction n with
  | zero => exact hunit
  | succ n ih =>
      rw [after_take_succ hn]
      exact step_unit (ih (Nat.le_of_succ_le hn)) (hsnap n hn) (hclear n hn)

/-- The direction is a unit vector after the launch and after every update exactly if the distance
is a number at the launch and at every update that turns the flight all the way. -/
theorem direction_steady_iff (hlocate : plan.target.locate locator = some target)
    (hclear : (launch plan start locator).Clear calls) :
    (∀ n ≤ calls.length, ((launch plan start locator).after (calls.take n)).direction.Steady) ↔
      Measurable start target ∧ ∀ n (hn : n < calls.length) target,
        ((launch plan start locator).after (calls.take n)).Snaps calls[n] target →
          Measurable calls[n].position target := by
  constructor
  · intro hsteady
    refine ⟨?_, fun n hn target hsnaps => ?_⟩
    · by_contra hfar
      have hlaunch := hsteady 0 (Nat.zero_le _)
      rw [List.take_zero, after_nil, launch_direction hlocate] at hlaunch
      exact Vec3.not_steady_of_norm (Vec3.norm_directionTo_of_not_finite hfar) hlaunch
    · by_contra hfar
      have hnext := hsteady (n + 1) hn
      rw [after_take_succ hn] at hnext
      exact not_steady_of_snaps hsnaps hfar hnext
  · rintro ⟨hstart, hsnap⟩ n hn
    refine (after_unit ?_ hclear hsnap hn).steady
    rw [launch_direction hlocate]
    exact Vec3.directionTo_unit hstart

end Run

/-- A point so far away that the squared distance to it overflows. -/
def farPoint : Vec3 :=
  { x := 1e20, y := 0, z := 0 }

/-- The direction to a point at an infinite distance is the zero vector. -/
theorem launch_far_not_steady :
    Vec3.zero.Finite ∧ farPoint.Finite ∧
      (FlightPlan.straight farPoint 3).target.locate (fun _ => none) = some farPoint ∧
      ¬(launch (.straight farPoint 3) .zero fun _ => none).direction.Steady := by
  have hfar : ¬Measurable .zero farPoint := by
    have hinfinite : (farPoint - Vec3.zero).length.isFinite = false := by decide +kernel
    rw [Measurable, hinfinite]
    exact Bool.false_ne_true
  refine ⟨⟨rfl, rfl, rfl⟩, ⟨by decide +kernel, rfl, rfl⟩, rfl, ?_⟩
  rw [launch_direction (show (FlightPlan.straight farPoint 3).target.locate
    (fun _ => none) = some farPoint from rfl)]
  exact Vec3.not_steady_of_norm (Vec3.norm_directionTo_of_not_finite hfar)

/-- A homing flight that faces all but along the first axis, and an update
that finds its unit right behind. -/
def grazing : FlightPlan :=
  { FlightPlan.straight .forward 1 with
    target := { unit := some ⟨7⟩, point := none }, homing := true, turnRate := 180 }

def besides : Locator :=
  fun _ => some { x := 1, y := 1e-22, z := 0 }

def behind : Call where
  locator := fun _ => some { x := -1, y := 0, z := 0 }
  position := .zero
  dt := 0.5

/-- Half of a turn leaves a mixture of which only the faintest coordinate remains, and
its square has lost its digits. -/
theorem step_faint_not_steady : ¬((launch grazing .zero besides).step behind).direction.Steady := by
  have hdirection : ((launch grazing .zero besides).step behind).direction.x = 0 ∧
      ((launch grazing .zero besides).step behind).direction.z = 0 ∧
      0 ≤ ((launch grazing .zero besides).step behind).direction.y ∧
      ((launch grazing .zero besides).step behind).direction.y ≤ 0.953125 := by
    decide +kernel
  obtain ⟨hx, hz, hlow, hhigh⟩ := hdirection
  rintro ⟨hfinite, hnorm⟩
  have hvalue : value 0.953125 = 61 / 64 := by
    have hunpack : (0.953125 : Float32).toModel.unpack =
        .finite .positive 15990784 (-24) (by decide) := rfl
    rw [value_of_unpack hunpack]
    norm_num
  rw [le_iff_value rfl hfinite.y, value_zero] at hlow
  rw [le_iff_value hfinite.y rfl, hvalue] at hhigh
  have hsq := Vec3.norm_sq_eq ((launch grazing .zero besides).step behind).direction.real
  rw [Vec3.real_zero_apply, Vec3.real_one_apply, Vec3.real_two_apply, hx, hz, value_zero] at hsq
  have hone := (abs_le.mp hnorm).1
  norm_num at hone
  nlinarith

/-- A homing flight that faces along the first axis, and an update that finds
its unit across the second. -/
def crossing : FlightPlan :=
  { FlightPlan.straight .forward 1 with
    target := { unit := some ⟨7⟩, point := none }, homing := true, turnRate := 90 }

def ahead : Locator :=
  fun _ => some { x := 10, y := 0, z := 0 }

def across : Call where
  locator := fun _ => some { x := 0, y := 10, z := 0 }
  position := .zero
  dt := 0.125

/-- What the launch and the turn that the update makes come to. -/
theorem crossing_reads :
    Measurable .zero { x := 10, y := 0, z := 0 } ∧
      (launch crossing .zero ahead).aim across = some { x := 0, y := 10, z := 0 } ∧
      ¬angle (launch crossing .zero ahead).direction
        (Vec3.zero.directionTo { x := 0, y := 10, z := 0 }) ≤
        (launch crossing .zero ahead).budget across ∧
      ((mixture (launch crossing .zero ahead).direction
        (Vec3.zero.directionTo { x := 0, y := 10, z := 0 })
        ((launch crossing .zero ahead).budget across)).dot
          (mixture (launch crossing .zero ahead).direction
            (Vec3.zero.directionTo { x := 0, y := 10, z := 0 })
            ((launch crossing .zero ahead).budget across))).isFinite = true ∧
      0.5 ≤ (mixture (launch crossing .zero ahead).direction
        (Vec3.zero.directionTo { x := 0, y := 10, z := 0 })
        ((launch crossing .zero ahead).budget across)).dot
          (mixture (launch crossing .zero ahead).direction
            (Vec3.zero.directionTo { x := 0, y := 10, z := 0 })
            ((launch crossing .zero ahead).budget across)) := by
  decide +kernel

theorem crossing_clear : (launch crossing .zero ahead).Clear [across] := by
  intro n hn target hbends
  obtain ⟨-, haim, -, hfinite, hhalf⟩ := crossing_reads
  obtain rfl : n = 0 := Nat.lt_one_iff.mp hn
  obtain rfl : target = { x := 0, y := 10, z := 0 } := Option.some.inj (hbends.2.1.symm.trans haim)
  rintro ⟨-, hsmall⟩
  have hvalue : value 0.5 = 1 / 2 := by
    have hunpack : (0.5 : Float32).toModel.unpack =
        .finite .positive 8388608 (-24) (by decide) := rfl
    rw [value_of_unpack hunpack]
    norm_num
  rw [le_iff_value rfl hfinite, hvalue] at hhalf
  have hcontradiction : (1 / 2 : ℝ) < 1 / 2 ^ 100 := hhalf.trans_lt hsmall
  norm_num at hcontradiction

theorem crossing_steady : ((launch crossing .zero ahead).after [across]).direction.Steady := by
  have hlocate : crossing.target.locate ahead = some { x := 10, y := 0, z := 0 } := rfl
  obtain ⟨hstart, haim, hbends, -⟩ := crossing_reads
  refine (direction_steady_iff hlocate crossing_clear).mpr ⟨hstart,
    fun n hn target hsnaps => ?_⟩ 1 le_rfl
  obtain rfl : n = 0 := Nat.lt_one_iff.mp hn
  obtain rfl : target = { x := 0, y := 10, z := 0 } := Option.some.inj (hsnaps.2.1.symm.trans haim)
  exact absurd hsnaps.2.2 hbends

end Flight

end Volley
