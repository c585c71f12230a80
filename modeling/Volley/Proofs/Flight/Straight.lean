import Mathlib
import Volley.Proofs.Flight.Run
import Volley.Proofs.Space.Direction

/-!
# Straight flights

A straight flight at constant speed comes to the multiples of one step on the line to its target, up
to a drift of a few roundings for every step. It hits as soon as one of these points lies within the
collision radius; between two of them it can pass its target.
-/

namespace Volley

open Single

/-- A flight and where it is. -/
structure Journey where
  flight : Flight
  position : Vec3

namespace Journey

variable (locator : Locator) (dt : Float32)

def outcome (journey : Journey) : Flight.Step :=
  (journey.flight.update locator journey.position dt).2

/-- One update, with the displacement added to the position. -/
def advance (journey : Journey) : Journey :=
  let (flight, step) := journey.flight.update locator journey.position dt
  match step with
  | .moved displacement => { flight, position := journey.position + displacement }
  | .hit | .targetLost | .inactive => { journey with flight }

def begin (plan : FlightPlan) (start : Vec3) : Journey :=
  { flight := .launch plan start locator, position := start }

end Journey

/-- A straight flight at constant speed. -/
structure FlightPlan.Straight (plan : FlightPlan) : Prop where
  homing : plan.homing = false
  arc : (plan.arc == 0) = true
  acceleration : (plan.acceleration == 0) = true
  maxSpeed : plan.maxSpeed = none
  finite : plan.speed.isFinite = true
  speed : 0 < value plan.speed
  radius : plan.collisionRadius.isFinite = true
  collisionRadius : 0 < value plan.collisionRadius

namespace Flight

variable {plan : FlightPlan} {start target position : Vec3} {locator : Locator} {dt : Float32}
  {flight : Flight} {M : ℝ} {n k : Nat}

/-- The length of one step. -/
noncomputable def stride (plan : FlightPlan) (dt : Float32) : ℝ :=
  value plan.speed * value dt

/-- Where a straight flight would be after so many steps without roundings. -/
noncomputable def waypoint (plan : FlightPlan) (start target : Vec3) (dt : Float32)
    (n : Nat) : Vec3.Space :=
  start.real + (n * stride plan dt) • Vec3.heading start target

/-- The size of everything that the position is computed from. -/
noncomputable def extent (plan : FlightPlan) (dt : Float32) (M : ℝ) : ℝ :=
  M + stride plan dt + value plan.collisionRadius

/-- How far roundings can carry a straight flight off its waypoints, with one step to spare. -/
noncomputable def drift (plan : FlightPlan) (dt : Float32) (M : ℝ) (n : Nat) : ℝ :=
  n * (extent plan dt M / (2 ^ 20 : ℕ))

theorem drift_succ : drift plan dt M (n + 1) = drift plan dt M n + extent plan dt M / 2 ^ 20 := by
  rw [drift, drift, Nat.cast_succ, add_one_mul, Nat.cast_pow, Nat.cast_ofNat]

theorem waypoint_succ :
    waypoint plan start target dt (n + 1) = waypoint plan start target dt n +
      stride plan dt • Vec3.heading start target := by
  rw [waypoint, waypoint, add_assoc, ← add_smul, Nat.cast_succ, add_one_mul]

theorem norm_waypoint_sub_target_le (plan : FlightPlan) (start target : Vec3) (dt : Float32)
    (n : Nat) :
    ‖waypoint plan start target dt n - target.real‖ ≤ |‖target.real - start.real‖ -
      n * stride plan dt| := by
  have hsplit : waypoint plan start target dt n - target.real =
      (n * stride plan dt - ‖target.real - start.real‖) • Vec3.heading start target := by
    rw [waypoint, sub_smul, Vec3.norm_smul_heading]
    abel
  rw [hsplit, norm_smul, Real.norm_eq_abs, abs_sub_comm]
  exact mul_le_of_le_one_right (abs_nonneg _) (Vec3.norm_heading_le start target)

/-- A straight flight on its way, so many steps after the launch. -/
structure Cruising (plan : FlightPlan) (start target : Vec3) (dt : Float32) (M : ℝ) (n : Nat)
    (journey : Journey) : Prop where
  active : journey.flight.active = true
  plan_eq : journey.flight.plan = plan
  direction : journey.flight.direction = start.directionTo target
  finite : journey.flight.speed.isFinite = true
  speed : value journey.flight.speed = value plan.speed
  position : journey.position.Finite
  close : ‖journey.position.real - waypoint plan start target dt n‖ ≤ drift plan dt M n

theorem accelerate_straight (hstraight : plan.Straight) (hdt : dt.isFinite = true) {speed : Float32}
    (hspeed : speed.isFinite = true) :
    (accelerate plan speed dt).isFinite = true ∧
      value (accelerate plan speed dt) = value speed := by
  obtain ⟨sign, hzero⟩ := unpack_eq_zero_of_beq hstraight.acceleration
  have hfinite : plan.acceleration.isFinite = true := by
    rw [isFinite_eq, hzero]
    rfl
  have hvalue : value plan.acceleration = 0 := by rw [value, hzero, unpackedValue_zero]
  have happrox := approximates_mul hfinite hdt
  rw [hvalue, zero_mul] at happrox
  have hproduct := happrox.rounds_of_lt (by norm_num)
  rw [accelerate, hstraight.maxSpeed]
  exact value_add_of_zero hspeed hproduct.finite (hproduct.eq_of_representable representable_zero)

/-- The step that the flight is moved by at a call is nearly the exact one. -/
theorem displacement_close (hlength : (target - start).length.isFinite = true)
    (hapart : ¬(target - start).length < Vec3.leastSeparation) {speed : Float32}
    (hspeed : speed.isFinite = true) (hdt : dt.isFinite = true) (hpos : 0 ≤ value speed * value dt)
    (hsmall : value speed * value dt ≤ 2 ^ 60) :
    ((start.directionTo target).scale (speed * dt)).Finite ∧
      ‖((start.directionTo target).scale (speed * dt)).real -
        (value speed * value dt) • Vec3.heading start target‖ ≤
        9 * roundoff * (value speed * value dt) + 4 * underflow := by
  have hunit := Vec3.directionTo_unit hlength
  have hheading := Vec3.norm_directionTo_sub_heading_le hlength hapart
  have hproduct := (approximates_mul hspeed hdt).rounds_of_lt (by
    rw [abs_of_nonneg hpos]
    exact hsmall.trans_lt (by norm_num))
  have herror := hproduct.abs_sub_le
  rw [abs_of_nonneg hpos] at herror
  have hnonneg := hproduct.nonneg hpos
  generalize start.directionTo target = e at hunit hheading
  have hnorm := (abs_le.mp hunit.norm).2
  have hproduct' : value (speed * dt) ≤ value speed * value dt * (1 + roundoff) + underflow := by
    linarith [(abs_le.mp herror).2]
  have hlength : ‖e.real‖ * value (speed * dt) ≤
      (1 + 5 * roundoff) * (value speed * value dt * (1 + roundoff) + underflow) :=
    mul_le_mul (by linarith) hproduct' hnonneg (by linarith [roundoff_pos])
  have hscaled := Vec3.finite_scale hunit.finite hproduct.finite (by
    rw [abs_of_nonneg hnonneg]
    rw [roundoff_eq, underflow_eq] at hlength
    norm_num at hlength hsmall ⊢
    linarith)
  refine ⟨hscaled, ?_⟩
  have hclose := Vec3.norm_scale_sub_smul_le hscaled hpos (Vec3.heading start target)
  have hheading' := mul_le_mul_of_nonneg_left hheading hpos
  have herror' : |value (speed * dt) - value speed * value dt| * ‖e.real‖ ≤
      (roundoff * (value speed * value dt) + underflow) * (1 + 5 * roundoff) :=
    mul_le_mul herror (by linarith) (norm_nonneg _) ((abs_nonneg _).trans herror)
  have hunderflow := underflow_pos
  rw [abs_of_nonneg hnonneg] at hclose
  rw [roundoff_eq] at *
  linarith

/-- A straight flight at a point, with updates that let some time pass. -/
structure Shot (plan : FlightPlan) (locator : Locator) (start target : Vec3)
    (dt : Float32) : Prop where
  straight : plan.Straight
  locate : plan.target.locate locator = some target
  finite_start : start.Finite
  finite_target : target.Finite
  finite : dt.isFinite = true
  elapses : 0 < value dt

/-- Launch and target lie within the given distance of the origin, and nothing
comes near an overflow. -/
structure Within (plan : FlightPlan) (start target : Vec3) (dt : Float32) (M : ℝ) : Prop where
  norm_start : ‖start.real‖ ≤ M
  norm_target : ‖target.real‖ ≤ M
  extent_le : extent plan dt M ≤ 2 ^ 60

theorem Within.M_nonneg (within : Within plan start target dt M) : 0 ≤ M :=
  (norm_nonneg _).trans within.norm_start

theorem Within.distance_le
    (within : Within plan start target dt M) : ‖target.real - start.real‖ ≤ 2 * M := by
  have := norm_sub_le target.real start.real
  linarith [within.norm_start, within.norm_target]

namespace Shot

variable (shot : Shot plan locator start target dt)

include shot

theorem stride_pos : 0 < stride plan dt :=
  mul_pos shot.straight.speed shot.elapses

theorem length_finite (within : Within plan start target dt M) :
    (target - start).length.isFinite = true := by
  have hM := within.M_nonneg
  have hstride := shot.stride_pos
  have hradius := shot.straight.collisionRadius
  have hextent := within.extent_le
  have hdistance := within.distance_le
  rw [extent] at hextent
  have hfinite := Vec3.finite_sub shot.finite_target shot.finite_start (by linarith)
  have hnorm : ‖(target - start).real‖ ≤ 2 ^ 62 := by
    have hclose := abs_le.mp ((abs_norm_sub_norm_le _ _).trans (Vec3.norm_sub_sub_le hfinite))
    have := hclose.2
    rw [roundoff_eq] at this
    linarith
  exact Vec3.finite_length hfinite hnorm

/-- The launch is the first waypoint. -/
theorem cruising_begin : Cruising plan start target dt M 0 (Journey.begin locator plan start) := by
  have hlaunch := shot.locate
  refine ⟨?_, launch_plan _ _ _, launch_direction hlaunch, ?_, ?_, shot.finite_start, ?_⟩
  · rw [Journey.begin, launch, hlaunch]
  · rw [Journey.begin, launch, hlaunch]
    exact shot.straight.finite
  · rw [Journey.begin, launch, hlaunch]
  · rw [waypoint, drift, Nat.cast_zero, zero_mul, zero_smul, add_zero, zero_mul, Journey.begin,
      sub_self, norm_zero]

end Shot

/-- What an update does to a straight flight that does not hit. -/
theorem update_straight (dt : Float32) (hstraight : plan.Straight)
    (hlocate : plan.target.locate locator = some target) (hplan : flight.plan = plan)
    (hactive : flight.active = true) (hcollides : collides plan position target = false) :
    flight.update locator position dt =
      ({ flight with
          speed := accelerate plan flight.speed dt
          traveled := flight.traveled + accelerate plan flight.speed dt * dt },
        .moved (flight.direction.scale (accelerate plan flight.speed dt * dt))) := by
  subst hplan
  have hsteer : steer flight.plan flight.direction position target dt = flight.direction := by
    rw [steer, hstraight.homing]
    rfl
  rw [update_of_clear hactive hlocate hcollides, stretch, lift, onward, hsteer]
  simp only [hstraight.arc, ↓reduceIte]

theorem outcome_of_collides (hlocate : plan.target.locate locator = some target) {journey : Journey}
    (hplan : journey.flight.plan = plan) (hactive : journey.flight.active = true)
    (hcollides : collides plan journey.position target = true) :
    journey.outcome locator dt = .hit := by
  subst hplan
  rw [Journey.outcome, update_of_hit hactive hlocate hcollides]

namespace Shot

variable (shot : Shot plan locator start target dt) (within : Within plan start target dt M)
  (hapart : ¬(target - start).length < Vec3.leastSeparation)

include shot within hapart

theorem M_pos : 1 / 5000 ≤ M := by
  have hfinite := (Vec3.finite_of_dot (Vec3.finite_length_iff.mp (shot.length_finite within))).1
  obtain ⟨l, hn, -⟩ := Vec3.directionTo_spec (shot.length_finite within) hapart
  have hclose := abs_le.mp ((abs_norm_sub_norm_le _ _).trans (Vec3.norm_sub_sub_le hfinite))
  have hdistance := within.distance_le
  have := hclose.2
  rw [roundoff_eq] at this
  linarith

/-- One step adds at most one share of the drift. -/
theorem cruising_advance {journey : Journey} (hcruising : Cruising plan start target dt M n journey)
    (hmiss : journey.outcome locator dt ≠ .hit)
    (hreach : (n + 1 : ℕ) * stride plan dt ≤ ‖target.real - start.real‖ +
      value plan.collisionRadius)
    (hdrift : drift plan dt M n ≤ value plan.collisionRadius) :
    Cruising plan start target dt M (n + 1) (journey.advance locator dt) := by
  have hcollides : collides plan journey.position target = false := by
    by_contra hcollides
    exact hmiss (outcome_of_collides shot.locate hcruising.plan_eq hcruising.active
      (Bool.eq_true_of_not_eq_false hcollides))
  have hupdate := update_straight dt shot.straight shot.locate hcruising.plan_eq
    hcruising.active hcollides
  obtain ⟨hfinite, hspeed⟩ := accelerate_straight shot.straight shot.finite hcruising.finite
  rw [hcruising.speed] at hspeed
  rw [hcruising.direction] at hupdate
  generalize accelerate plan journey.flight.speed dt = speed at hupdate hfinite hspeed
  have hstride := shot.stride_pos
  have hM := shot.M_pos within hapart
  have hradius := shot.straight.collisionRadius
  have hextent := within.extent_le
  have hproduct : value speed * value dt = stride plan dt := by rw [hspeed, stride]
  obtain ⟨hscaled, hdisplacement⟩ :=
    displacement_close (shot.length_finite within) hapart hfinite shot.finite
    (by rw [hproduct]; exact hstride.le) (by rw [hproduct]; rw [extent] at hextent; linarith)
  rw [hproduct] at hdisplacement
  have hadvance : journey.advance locator dt =
      { flight := (journey.flight.update locator journey.position dt).1
        position := journey.position + (start.directionTo target).scale (speed * dt) } := by
    rw [Journey.advance, hupdate]
  have hfar : ‖waypoint plan start target dt (n + 1)‖ ≤ M + value plan.collisionRadius :=
    Vec3.norm_add_smul_heading_le within.norm_start within.norm_target (by positivity)
      hradius.le hreach
  rw [waypoint_succ] at hfar
  obtain ⟨hposition, hclose⟩ :=
    Vec3.add_close (r := 2 * extent plan dt M) hcruising.position hscaled hcruising.close
    hdisplacement (by
      rw [extent, roundoff_eq, underflow_eq]
      linarith) (by linarith)
  rw [hadvance, hupdate]
  refine ⟨hcruising.active, hcruising.plan_eq, rfl, hfinite, hspeed, hposition, ?_⟩
  rw [waypoint_succ, drift_succ]
  refine hclose.trans ?_
  rw [extent, roundoff_eq, underflow_eq]
  linarith

/-- A waypoint that lies within the radius by more than the drift is a hit. -/
theorem collides_of_near {journey : Journey} (hcruising : Cruising plan start target dt M n journey)
    (hnear : |‖target.real - start.real‖ - n * stride plan dt| + drift plan dt M (n + 1) ≤
      value plan.collisionRadius) :
    collides plan journey.position target = true := by
  have hM := shot.M_pos within hapart
  have hstride := shot.stride_pos
  have hradius := shot.straight.collisionRadius
  have hextent := within.extent_le
  have hwaypoint := norm_waypoint_sub_target_le plan start target dt n
  rw [drift_succ] at hnear
  have hdistance : ‖journey.position.real - target.real‖ ≤ value plan.collisionRadius -
      extent plan dt M / 2 ^ 20 := by
    have htriangle := norm_sub_le_norm_sub_add_norm_sub journey.position.real
      (waypoint plan start target dt n) target.real
    have hclose := hcruising.close
    linarith
  have hbound : ‖journey.position.real - target.real‖ ≤ 2 ^ 60 := by
    rw [extent] at *
    linarith
  have hfinite := Vec3.finite_sub hcruising.position shot.finite_target (hbound.trans (by norm_num))
  have hreal := (abs_le.mp ((abs_norm_sub_norm_le _ _).trans (Vec3.norm_sub_sub_le hfinite))).2
  have hnorm : ‖(journey.position - target).real‖ ≤ 2 ^ 61 := by
    rw [roundoff_eq] at hreal
    linarith
  have hlength := Vec3.finite_length hfinite (hnorm.trans (by norm_num))
  have hcomputed := (abs_le.mp (Vec3.abs_length_sub_le hlength)).2
  have hhit : journey.position.distance target ≤ plan.collisionRadius := by
    refine (le_iff_value hlength shot.straight.radius).mpr ?_
    rw [extent] at *
    rw [roundoff_eq] at *
    linarith
  have hpositive : ¬plan.collisionRadius ≤ 0 := by
    rw [le_iff_value shot.straight.radius rfl, value_zero, not_le]
    exact hradius
  rw [collides, if_neg hpositive]
  exact decide_eq_true hhit

/-- The flight hits at the latest when it comes to such a waypoint. -/
theorem exists_hit_of_near (hnear : |‖target.real - start.real‖ - k * stride plan dt| +
    drift plan dt M (k + 1) ≤
    value plan.collisionRadius) :
    ∃ n ≤ k, ((Journey.advance locator dt)^[n] (.begin locator plan start)).outcome locator
      dt = .hit := by
  by_contra hmiss
  push Not at hmiss
  have hstride := shot.stride_pos
  have hM := within.M_nonneg
  have hradius := shot.straight.collisionRadius
  have hreach : k * stride plan dt ≤ ‖target.real - start.real‖ + value plan.collisionRadius := by
    have := (abs_le.mp (le_refl |‖target.real - start.real‖ - k * stride plan dt|)).1
    have hdrift : 0 ≤ drift plan dt M (k + 1) := by
      rw [drift, extent]
      positivity
    linarith
  have hcruising : ∀ n ≤ k,
      Cruising plan start target dt M n
        ((Journey.advance locator dt)^[n] (.begin locator plan start)) := by
    intro n hn
    induction n with
    | zero => exact shot.cruising_begin
    | succ n ih =>
        rw [Function.iterate_succ_apply']
        refine shot.cruising_advance within hapart (ih (Nat.le_of_succ_le hn))
          (hmiss n (Nat.le_of_succ_le hn)) ?_ ?_
        · refine le_trans ?_ hreach
          gcongr
        · have hdrift : drift plan dt M n ≤ drift plan dt M (k + 1) := by
            rw [drift, drift, extent]
            gcongr
            omega
          have := abs_nonneg (‖target.real - start.real‖ - k * stride plan dt)
          linarith
  exact hmiss k le_rfl (outcome_of_collides shot.locate (hcruising k le_rfl).plan_eq
    (hcruising k le_rfl).active
    (shot.collides_of_near within hapart (hcruising k le_rfl) hnear))

end Shot

/-- The greatest number of steps that a straight flight should need. -/
noncomputable def steps (plan : FlightPlan) (start target : Vec3) (dt : Float32) : Nat :=
  ⌈‖target.real - start.real‖ / stride plan dt⌉₊

/-- The flight hits at one of the updates that it should need at most. -/
def HitsInTime (plan : FlightPlan) (locator : Locator) (start target : Vec3)
    (dt : Float32) : Prop :=
  ∃ n ≤ steps plan start target dt,
  ((Journey.advance locator dt)^[n] (.begin locator plan start)).outcome locator dt = .hit

/-- A straight flight hits in time if one of its waypoints lies within the
collision radius by more than the drift. -/
theorem hits_of_near (shot : Shot plan locator start target dt)
    (within : Within plan start target dt M)
    (hapart : collides plan start target = true ∨ ¬(target - start).length < Vec3.leastSeparation)
    (hk : k ≤ steps plan start target dt)
    (hnear : |‖target.real - start.real‖ - k * stride plan dt| + drift plan dt M (k + 1) ≤
      value plan.collisionRadius) :
    HitsInTime plan locator start target dt := by
  rcases hapart with hcollides | hapart
  · have hbegin : Cruising plan start target dt M 0 (.begin locator plan start) :=
      shot.cruising_begin
    exact ⟨0, Nat.zero_le _, outcome_of_collides shot.locate hbegin.plan_eq hbegin.active hcollides⟩
  · obtain ⟨n, hn, hhit⟩ := shot.exists_hit_of_near within hapart hnear
    exact ⟨n, hn.trans hk, hhit⟩

/-- A shot at a target ten units ahead that takes steps of three units. -/
def pacing (radius : Float32) : FlightPlan :=
  { FlightPlan.straight { x := 10, y := 0, z := 0 } 3 with collisionRadius := radius }

theorem value_ten : value 10 = 10 := by
  rw [value_of_unpack (show (10 : Float32).toModel.unpack =
    .finite .positive 10485760 (-20) (by decide) from rfl)]
  norm_num

theorem norm_ten : ‖({ x := 10, y := 0, z := 0 } : Vec3).real‖ = 10 := by
  rw [← sq_eq_sq₀ (norm_nonneg _) (by norm_num), Vec3.norm_sq_eq, Vec3.real_zero_apply,
    Vec3.real_one_apply,
    Vec3.real_two_apply, value_ten, value_zero]
  norm_num

theorem real_zero : Vec3.zero.real = 0 := by
  ext i
  match i with
  | 0 => exact value_zero
  | 1 => exact value_zero
  | 2 => exact value_zero

theorem stride_pacing (radius : Float32) : stride (pacing radius) 1 = 3 := by
  rw [stride, value_one, mul_one]
  exact value_three

theorem steps_pacing (radius : Float32) :
    steps (pacing radius) .zero { x := 10, y := 0, z := 0 } 1 = 4 := by
  have hceil : ⌈(10 : ℝ) / 3⌉₊ = 4 := by
    rw [Nat.ceil_eq_iff (by norm_num)]
    norm_num
  rw [steps, stride_pacing, real_zero, sub_zero, norm_ten, hceil]

theorem pacing_straight {radius : Float32} (hfinite : radius.isFinite = true)
    (hradius : 0 < value radius) :
    (pacing radius).Straight := by
  have hzero : ((0 : Float32) == 0) = true := rfl
  refine ⟨rfl, hzero, hzero, rfl, show (3 : Float32).isFinite = true from rfl, ?_, hfinite, hradius⟩
  change 0 < value 3
  rw [value_three]
  norm_num

theorem pacing_shot {radius : Float32} (hfinite : radius.isFinite = true)
    (hradius : 0 < value radius) :
    Shot (pacing radius) (fun _ => none) .zero { x := 10, y := 0, z := 0 } 1 :=
  { straight := pacing_straight hfinite hradius
    locate := rfl
    finite_start := ⟨rfl, rfl, rfl⟩
    finite_target := ⟨rfl, rfl, rfl⟩
    finite := rfl
    elapses := by rw [value_one]; exact one_pos }

/-- What the steps with a small radius come to, and the way to the target. -/
theorem pacing_reads :
    (∀ n ≤ 4, ((Journey.advance (fun _ => none) 1)^[n] (.begin
      (fun _ => none) (pacing 0.1) .zero)).outcome
        (fun _ => none) 1 ≠ .hit) ∧
      ¬(({ x := 10, y := 0, z := 0 } : Vec3) - Vec3.zero).length < Vec3.leastSeparation := by
  decide +kernel

/-- A radius of a tenth lies between two steps of three: the flight passes its target. -/
theorem pacing_passes :
    Shot (pacing 0.1) (fun _ => none) .zero { x := 10, y := 0, z := 0 } 1 ∧
      ¬HitsInTime (pacing 0.1) (fun _ => none) .zero { x := 10, y := 0, z := 0 } 1 := by
  refine ⟨pacing_shot rfl ?_, ?_⟩
  · rw [value_of_unpack (show (0.1 : Float32).toModel.unpack =
      .finite .positive 13421773 (-27) (by decide) from rfl)]
    norm_num
  · rintro ⟨n, hn, hhit⟩
    rw [steps_pacing] at hn
    exact pacing_reads.1 n hn hhit

/-- A shot so far out that half a unit is lost when it is added to the position. -/
def creeping : FlightPlan :=
  { FlightPlan.straight { x := 16777220, y := 0, z := 0 } 0.5 with collisionRadius := 0.5 }

/-- A radius of a whole step is no help to a flight that roundings hold in place. -/
theorem creeping_stalls :
    Shot creeping (fun _ => none) { x := 16777216, y := 0, z := 0 }
      { x := 16777220, y := 0, z := 0 } 1 ∧
      stride creeping 1 ≤ value creeping.collisionRadius ∧
      ¬HitsInTime creeping (fun _ => none) { x := 16777216, y := 0, z := 0 }
        { x := 16777220, y := 0, z := 0 } 1 := by
  have hhalf : value 0.5 = 1 / 2 := by
    rw [value_of_unpack (show (0.5 : Float32).toModel.unpack =
      .finite .positive 8388608 (-24) (by decide) from rfl)]
    norm_num
  have hstride : stride creeping 1 = 1 / 2 := by
    rw [stride, value_one, mul_one]
    exact hhalf
  have hzero : ((0 : Float32) == 0) = true := rfl
  have hdistance : ‖({ x := 16777220, y := 0, z := 0 } : Vec3).real -
    ({ x := 16777216, y := 0, z := 0 } : Vec3).real‖ = 4 := by
    rw [← sq_eq_sq₀ (norm_nonneg _) (by norm_num), Vec3.norm_sq_eq]
    simp only [PiLp.sub_apply, Vec3.real_zero_apply, Vec3.real_one_apply,
      Vec3.real_two_apply, value_zero]
    rw [value_of_unpack (show (16777220 : Float32).toModel.unpack =
      .finite .positive 8388610 1 (by decide) from rfl),
      value_of_unpack (show (16777216 : Float32).toModel.unpack =
        .finite .positive 8388608 1 (by decide) from rfl)]
    norm_num
  refine ⟨⟨⟨rfl, hzero, hzero, rfl, show (0.5 : Float32).isFinite = true from rfl, ?_,
    show (0.5 : Float32).isFinite = true from rfl, ?_⟩,
    rfl, ⟨rfl, rfl, rfl⟩, ⟨rfl, rfl, rfl⟩, rfl, ?_⟩, ?_, ?_⟩
  · exact hhalf.symm ▸ one_half_pos
  · exact hhalf.symm ▸ one_half_pos
  · exact value_one.symm ▸ one_pos
  · rw [hstride]
    exact hhalf.ge
  · rintro ⟨n, hn, hhit⟩
    have hceil : ⌈(4 : ℝ) / (1 / 2)⌉₊ = 8 := by
      rw [Nat.ceil_eq_iff (by norm_num)]
      norm_num
    rw [steps, hdistance, hstride, hceil] at hn
    have hmiss : ∀ n ≤ 8, ((Journey.advance (fun _ => none) 1)^[n] (.begin (fun _ => none) creeping
        { x := 16777216, y := 0, z := 0 })).outcome (fun _ => none) 1 ≠ .hit := by
      decide +kernel
    exact hmiss n hn hhit

/-- The third step of three ends within two units of the target. -/
theorem pacing_hits :
    HitsInTime (pacing 2) (fun _ => none) .zero { x := 10, y := 0, z := 0 } 1 := by
  have htwo : value 2 = 2 := by
    rw [value_of_unpack (show (2 : Float32).toModel.unpack =
      .finite .positive 8388608 (-22) (by decide) from rfl)]
    norm_num
  have hextent : extent (pacing 2) 1 10 = 15 := by
    rw [extent, stride_pacing, show value (pacing 2).collisionRadius = 2 from htwo]
    norm_num
  have hwithin : Within (pacing 2) .zero { x := 10, y := 0, z := 0 } 1 10 :=
    { norm_start := by rw [real_zero, norm_zero]; norm_num
      norm_target := norm_ten.le
      extent_le := by rw [hextent]; norm_num }
  refine hits_of_near (k := 3) (pacing_shot rfl (by rw [htwo]; exact two_pos)) hwithin
    (Or.inr pacing_reads.2) ?_ ?_
  · rw [steps_pacing]
    decide
  · rw [stride_pacing, real_zero, sub_zero, norm_ten, drift, hextent,
      show value (pacing 2).collisionRadius = 2 from htwo]
    norm_num

/-- Some waypoint is at most half a step away from the target. -/
theorem exists_near_waypoint {d s : ℝ} (hd : 0 ≤ d)
    (hs : 0 < s) : ∃ k ≤ ⌈d / s⌉₊, |d - k * s| ≤ s / 2 := by
  have hfloor := Nat.floor_le (show 0 ≤ d / s by positivity)
  have hceil := Nat.lt_floor_add_one (d / s)
  rw [le_div_iff₀ hs] at hfloor
  rw [div_lt_iff₀ hs] at hceil
  rcases le_or_gt (d - ⌊d / s⌋₊ * s) (s / 2) with hlow | hhigh
  · refine ⟨⌊d / s⌋₊, Nat.floor_le_ceil _, ?_⟩
    rw [abs_of_nonneg (by linarith)]
    exact hlow
  · refine ⟨⌊d / s⌋₊ + 1, Nat.succ_le_of_lt ?_, ?_⟩
    · rw [Nat.lt_ceil, lt_div_iff₀ hs]
      linarith
    · push_cast
      rw [abs_of_nonpos (by linarith)]
      linarith

/-- No straight flight tunnels through a target with a radius of half a step and the drift. -/
theorem hits_of_half_stride_le (shot : Shot plan locator start target dt)
    (within : Within plan start target dt M)
    (hapart : collides plan start target = true ∨ ¬(target - start).length < Vec3.leastSeparation)
    (hradius : stride plan dt / 2 + drift plan dt M (steps plan start target dt + 1) ≤
      value plan.collisionRadius) :
    HitsInTime plan locator start target dt := by
  obtain ⟨k, hk, hhalf⟩ := exists_near_waypoint (norm_nonneg (target.real - start.real))
    shot.stride_pos
  refine hits_of_near shot within hapart hk ?_
  have hdrift : drift plan dt M (k + 1) ≤ drift plan dt M (steps plan start target dt + 1) := by
    have hM := within.M_nonneg
    have hstride := shot.stride_pos
    have hpositive := shot.straight.collisionRadius
    rw [drift, drift, extent]
    gcongr
    exact hk
  linarith

end Flight

end Volley
