import Mathlib.Algebra.Order.Field.Basic
import Mathlib.Tactic.Linarith
import Mathlib.Tactic.NormNum
import Mathlib.Tactic.Ring
import Volley.Proofs.Flight.Ending

/-!
# The arc of a flight

An arc adds to every displacement a gain in height that is computed from three readings of the
flight: its speed, how far it has traveled, and the whole distance. Here the readings and the gains
are computed with any kind of numbers. In single precision they are the readings and the gains of a
flight. In exact numbers the gains of a flight that samples its arc over the ticks themselves sum up
to the height of the parabola, so such a flight lands.
-/

namespace Volley

/-- Numbers of two of which one is the lesser. -/
class Lesser (α : Type) where
  lesser : α → α → α

export Lesser (lesser)

instance : Lesser Float32 := ⟨smaller⟩

/-- What a plan says about speed and height. -/
structure Profile (α : Type) where
  acceleration : α
  maxSpeed : Option α
  arc : α
  arcSampling : ArcSampling
  window : α

/-- The readings of a flight that its arc depends on. -/
structure Gauge (α : Type) where
  speed : α
  traveled : α
  total : α

/-! ## With any numbers -/

section Numbers

variable {α : Type} [Add α] [Mul α] [Lesser α]

def Profile.accelerate (profile : Profile α) (speed dt : α) : α :=
  let raised := speed + profile.acceleration * dt
  match profile.maxSpeed with
  | some most => lesser raised most
  | none => raised

namespace Gauge

def advance (profile : Profile α) (gauge : Gauge α) (dt : α) : Gauge α :=
  let speed := profile.accelerate gauge.speed dt
  { gauge with speed, traveled := gauge.traveled + speed * dt }

def along (profile : Profile α) (gauge : Gauge α) (dts : List α) : Gauge α :=
  dts.foldl (advance profile) gauge

theorem along_take_succ (profile : Profile α) (gauge : Gauge α) {dts : List α} {n : Nat}
    (hn : n < dts.length) :
    gauge.along profile (dts.take (n + 1)) =
      (gauge.along profile (dts.take n)).advance profile dts[n] := by
  rw [along, List.take_succ_eq_append_getElem hn, List.foldl_append]
  rfl

end Gauge

variable [OfNat α 0] [OfNat α 1] [OfNat α 4] [Sub α] [Div α] [LT α] [LE α] [DecidableLT α]
  [DecidableLE α]

/-- The height of a parabola at a progress from zero to one. -/
def Profile.height (profile : Profile α) (progress : α) : α :=
  4 * profile.arc * progress * (1 - progress)

namespace Gauge

def outset (speed total : α) : Gauge α :=
  { speed, traveled := 0, total }

/-- The share of the whole distance that a distance is, from none to all of it. -/
def progress (gauge : Gauge α) (distance : α) : α :=
  let share := distance / gauge.total
  let raised := if share < 0 then 0 else share
  if 1 < raised then 1 else raised

/-- The vertical rate of the arc: a difference quotient backward in time. -/
def rate (profile : Profile α) (gauge : Gauge α) (dt : α) : α :=
  let window := match profile.arcSampling with
    | .fixedWindow => profile.window
    | .tickDelta => dt
  if gauge.total ≤ 0 then 0
  else if window ≤ 0 then 0
  else
    (profile.height (gauge.progress gauge.traveled) -
      profile.height (gauge.progress (gauge.traveled - gauge.speed * window))) / window

/-- What the arc adds to the height in the tick after which a gauge is read. -/
def gain (profile : Profile α) (gauge : Gauge α) (dt : α) : α :=
  gauge.rate profile dt * dt

/-- What the arc adds to the height in every tick of a run. -/
def gains (profile : Profile α) (gauge : Gauge α) : List α → List α
  | [] => []
  | dt :: dts => (gauge.advance profile dt).gain profile dt ::
      (gauge.advance profile dt).gains profile dts

theorem getElem?_gains (profile : Profile α) (gauge : Gauge α) {dts : List α} {n : Nat}
    (hn : n < dts.length) :
    (gauge.gains profile dts)[n]? =
      some ((gauge.along profile (dts.take (n + 1))).gain profile dts[n]) := by
  induction dts generalizing gauge n with
  | nil => exact absurd hn (Nat.not_lt_zero n)
  | cons dt dts ih =>
      cases n with
      | zero => rfl
      | succ n => exact ih (gauge.advance profile dt) (Nat.lt_of_succ_lt_succ hn)

end Gauge

end Numbers

/-! ## In single precision -/

def FlightPlan.profile (plan : FlightPlan) : Profile Float32 where
  acceleration := plan.acceleration
  maxSpeed := plan.maxSpeed
  arc := plan.arc
  arcSampling := plan.arcSampling
  window := arcWindow

def Vec3.raised (v : Vec3) (gain : Float32) : Vec3 :=
  { v with y := v.y + gain }

namespace Flight

variable {flight : Flight} {plan : FlightPlan} {call : Call} {calls : List Call}
  {position target : Vec3} {dt : Float32}

def gauge (flight : Flight) : Gauge Float32 where
  speed := flight.speed
  traveled := flight.traveled
  total := flight.totalDistance

theorem accelerate_eq (plan : FlightPlan) (speed dt : Float32) :
    accelerate plan speed dt = plan.profile.accelerate speed dt := by
  unfold accelerate Profile.accelerate FlightPlan.profile
  cases plan.maxSpeed <;> rfl

theorem gauge_onward (flight : Flight) (position target : Vec3) (dt : Float32) :
    (flight.onward position target dt).gauge = flight.gauge.advance flight.plan.profile dt := by
  unfold gauge onward Gauge.advance
  rw [accelerate_eq]

theorem arcRate_eq (flight : Flight) (dt : Float32) :
    flight.arcRate dt = flight.gauge.rate flight.plan.profile dt := by
  unfold arcRate Gauge.rate gauge FlightPlan.profile
  cases flight.plan.arcSampling <;> rfl

theorem gauge_launch (plan : FlightPlan) (start : Vec3) (locator : Locator) :
    (launch plan start locator).gauge =
      .outset plan.speed (launch plan start locator).totalDistance := by
  unfold launch gauge Gauge.outset
  cases plan.target.locate locator <;> rfl

theorem gauge_step (hmoves : flight.Moves call) :
    (flight.step call).gauge = flight.gauge.advance flight.plan.profile call.dt := by
  obtain ⟨target, haim⟩ := moves_iff.mp hmoves
  rw [step_of_aim haim, gauge_onward]

/-- The displacement of a flight without its arc. -/
def level (flight : Flight) (dt : Float32) : Vec3 :=
  flight.direction.scale (flight.speed * dt)

theorem stretch_eq (harc : (flight.plan.arc == 0) = false) (dt : Float32) :
    flight.stretch dt = (flight.level dt).raised (flight.gauge.gain flight.plan.profile dt) := by
  rw [stretch, lift, if_neg (ne_true_of_eq_false harc), arcRate_eq]
  rfl

theorem answer_eq_of_moves (harc : (flight.plan.arc == 0) = false) (hmoves : flight.Moves call) :
    flight.answer call =
      .moved (((flight.step call).level call.dt).raised
        ((flight.gauge.advance flight.plan.profile call.dt).gain flight.plan.profile call.dt)) := by
  obtain ⟨target, haim⟩ := moves_iff.mp hmoves
  have harc' : ((flight.step call).plan.arc == 0) = false := by rwa [step_plan]
  rw [answer_of_aim haim, ← step_of_aim haim, stretch_eq harc', gauge_step hmoves, step_plan]

theorem gauge_after {n : Nat} (hn : n ≤ calls.length)
    (hmoves : ∀ m (hm : m < calls.length), m < n → (flight.after (calls.take m)).Moves calls[m]) :
    (flight.after (calls.take n)).gauge =
      flight.gauge.along flight.plan.profile ((calls.map Call.dt).take n) := by
  induction n with
  | zero => rfl
  | succ n ih =>
      have hprevious := ih (Nat.le_of_succ_le hn)
        fun m hm hlt => hmoves m hm (Nat.lt_succ_of_lt hlt)
      have hdts : n < (calls.map Call.dt).length := by rwa [List.length_map]
      rw [after_take_succ hn, gauge_step (hmoves n hn (Nat.lt_succ_self n)), after_plan, hprevious,
        Gauge.along_take_succ _ _ hdts, List.getElem_map]

/-- In a run of moves the arc adds to every displacement what the gauge gains in that tick. -/
theorem answers_of_moves (harc : (flight.plan.arc == 0) = false)
    (hmoves : ∀ n (hn : n < calls.length), (flight.after (calls.take n)).Moves calls[n]) {n : Nat}
    (hn : n < calls.length) :
    ∃ gain, (flight.gauge.gains flight.plan.profile (calls.map Call.dt))[n]? = some gain ∧
      (flight.answers calls)[n]? =
        some (.moved (((flight.after (calls.take (n + 1))).level calls[n].dt).raised gain)) := by
  have hdts : n < (calls.map Call.dt).length := by rwa [List.length_map]
  have hgauge := gauge_after (Nat.le_of_lt hn) fun m hm _ => hmoves m hm
  have harc' : ((flight.after (calls.take n)).plan.arc == 0) = false := by rwa [after_plan]
  refine ⟨_, Gauge.getElem?_gains _ _ hdts, ?_⟩
  rw [getElem?_answers hn, answer_eq_of_moves harc' (hmoves n hn), after_take_succ hn,
    after_plan, hgauge,
    Gauge.along_take_succ _ _ hdts, List.getElem_map]

end Flight

/-! ## In exact numbers -/

section Exact

variable {K : Type} [Field K] [LinearOrder K]

instance : Lesser K := ⟨min⟩

namespace Gauge

variable {profile : Profile K} {gauge : Gauge K} {dt : K}

/-- The height of the parabola over the place to which the flight has come. -/
def altitude (profile : Profile K) (gauge : Gauge K) : K :=
  profile.height (gauge.progress gauge.traveled)

section Tick

variable (hsampling : profile.arcSampling = .tickDelta)

include hsampling

/-- A tick takes the flight from one altitude to the next: one step back from
where it has come it was before. -/
theorem gain_advance (htotal : 0 < gauge.total) (hdt : 0 < dt) :
    (gauge.advance profile dt).gain profile dt =
      (gauge.advance profile dt).altitude profile - gauge.altitude profile := by
  have hback : (gauge.advance profile dt).traveled - (gauge.advance profile dt).speed * dt =
      gauge.traveled :=
    add_sub_cancel_right _ _
  have htotal' : ¬(gauge.advance profile dt).total ≤ 0 := not_le.mpr htotal
  unfold gain rate
  rw [hsampling]
  dsimp only
  rw [if_neg htotal', if_neg (not_le.mpr hdt), hback, div_mul_cancel₀ _ hdt.ne']
  rfl

theorem sum_gains {dts : List K} (htotal : 0 < gauge.total) (hdts : ∀ dt ∈ dts, 0 < dt) :
    (gauge.gains profile dts).sum = (gauge.along profile dts).altitude profile -
      gauge.altitude profile := by
  induction dts generalizing gauge with
  | nil => exact (sub_self _).symm
  | cons dt dts ih =>
      obtain ⟨hdt, hrest⟩ := List.forall_mem_cons.mp hdts
      have htotal' : 0 < (gauge.advance profile dt).total := htotal
      calc (gauge.gains profile (dt :: dts)).sum
          = (gauge.advance profile dt).gain profile dt +
            ((gauge.advance profile dt).gains profile dts).sum := List.sum_cons
        _ = ((gauge.advance profile dt).altitude profile - gauge.altitude profile) +
              (((gauge.advance profile dt).along profile dts).altitude profile -
                (gauge.advance profile dt).altitude profile) := by
            rw [gain_advance hsampling htotal hdt, ih htotal' hrest]
        _ = ((gauge.advance profile dt).along profile dts).altitude profile -
            gauge.altitude profile := by ring
        _ = (gauge.along profile (dt :: dts)).altitude profile - gauge.altitude profile := rfl

end Tick

theorem progress_eq (gauge : Gauge K) (distance : K) :
    gauge.progress distance = min (max (distance / gauge.total) 0) 1 := by
  unfold progress
  dsimp only
  have hraised : (if distance / gauge.total < 0 then 0 else distance / gauge.total) =
      max (distance / gauge.total) 0 := by
    split_ifs with hlow
    · exact (max_eq_right hlow.le).symm
    · exact (max_eq_left (not_lt.mp hlow)).symm
  rw [hraised]
  split_ifs with hhigh
  · exact (min_eq_right hhigh.le).symm
  · exact (min_eq_left (not_lt.mp hhigh)).symm

theorem along_total (profile : Profile K) (gauge : Gauge K) (dts : List K) :
    (gauge.along profile dts).total = gauge.total := by
  induction dts generalizing gauge with
  | nil => rfl
  | cons dt dts ih => exact ih (gauge.advance profile dt)

variable [IsStrictOrderedRing K]

theorem altitude_outset (profile : Profile K) (speed total : K) :
    (outset speed total).altitude profile = 0 := by
  have hprogress : (outset speed total).progress (outset speed total).traveled = 0 := by
    rw [progress_eq, outset, zero_div, max_self, min_eq_left zero_le_one]
  rw [altitude, hprogress, Profile.height, mul_zero, zero_mul]

theorem altitude_of_total_le (profile : Profile K) (htotal : 0 < gauge.total)
    (htraveled : gauge.total ≤ gauge.traveled) :
    gauge.altitude profile = 0 := by
  have hshare : 1 ≤ gauge.traveled / gauge.total := (one_le_div htotal).mpr htraveled
  have hprogress : gauge.progress gauge.traveled = 1 := by
    rw [progress_eq, max_eq_left (zero_le_one.trans hshare), min_eq_right hshare]
  rw [altitude, hprogress, Profile.height, sub_self, mul_zero]

/-- The parabola peaks at the height of the arc. -/
theorem abs_altitude_le (profile : Profile K) (gauge : Gauge K) :
    |gauge.altitude profile| ≤ |profile.arc| := by
  have hnonneg : 0 ≤ gauge.progress gauge.traveled := by
    rw [progress_eq]
    exact le_min (le_max_right _ _) zero_le_one
  have hle : gauge.progress gauge.traveled ≤ 1 := by
    rw [progress_eq]
    exact min_le_right _ _
  unfold altitude Profile.height
  generalize gauge.progress gauge.traveled = share at hnonneg hle
  have hlow : 0 ≤ 4 * (share * (1 - share)) := by
    have hproduct := mul_nonneg hnonneg (sub_nonneg.mpr hle)
    linarith
  have hhigh : 4 * (share * (1 - share)) ≤ 1 := by
    have hsquare := sq_nonneg (2 * share - 1)
    linarith
  calc |4 * profile.arc * share * (1 - share)| = |profile.arc * (4 * (share * (1 - share)))| := by
        congr 1
        ring
    _ = |profile.arc| * (4 * (share * (1 - share))) := by rw [abs_mul, abs_of_nonneg hlow]
    _ ≤ |profile.arc| * 1 := mul_le_mul_of_nonneg_left hhigh (abs_nonneg _)
    _ = |profile.arc| := mul_one _

end Gauge

end Exact

namespace Flight

/-- In a run of moves in single precision, a flight with an arc is read by its gauge, and the arc
adds to every displacement what the gauge gains in that tick. The same gauge in exact numbers, with
an arc sampled over the ticks, gains in all the height of the parabola where the flight has come.
So it gains nothing in all once the flight has come to its end, never more than the arc, and
nothing at all in a tick beyond the end. -/
theorem arc_lands :
    (∀ (plan : FlightPlan) (start : Vec3) (locator : Locator) (calls : List Call),
      (plan.arc == 0) = false →
      (∀ n (hn : n < calls.length),
        ((launch plan start locator).after (calls.take n)).Moves calls[n]) →
      let outset := Gauge.outset plan.speed (launch plan start locator).totalDistance
      ∀ n (hn : n < calls.length),
        let moved := (launch plan start locator).after (calls.take (n + 1))
        moved.gauge = outset.along plan.profile ((calls.map Call.dt).take (n + 1)) ∧
          ∃ gain, (outset.gains plan.profile (calls.map Call.dt))[n]? = some gain ∧
            ((launch plan start locator).answers calls)[n]? =
              some (.moved ((moved.level calls[n].dt).raised gain))) ∧
    ∀ (K : Type) [Field K] [LinearOrder K] [IsStrictOrderedRing K] (profile : Profile K)
      (speed total : K) (dts : List K),
      profile.arcSampling = .tickDelta → 0 < total → (∀ dt ∈ dts, 0 < dt) →
      let outset := Gauge.outset speed total
      let reading := outset.along profile dts
      (outset.gains profile dts).sum = profile.height (min (max (reading.traveled / total) 0) 1) ∧
        (total ≤ reading.traveled → (outset.gains profile dts).sum = 0) ∧
        |(outset.gains profile dts).sum| ≤ |profile.arc| ∧
        ∀ dt, 0 < dt → total ≤ reading.traveled → total ≤ (reading.advance profile dt).traveled →
          (reading.advance profile dt).gain profile dt = 0 := by
  constructor
  · intro plan start locator calls harc hmoves outset n hn moved
    have hplan : (launch plan start locator).plan = plan := launch_plan plan start locator
    have hgauge := gauge_after hn fun m hm _ => hmoves m hm
    have hanswers := answers_of_moves (by rwa [hplan]) hmoves hn
    rw [gauge_launch, hplan] at hgauge hanswers
    exact ⟨hgauge, hanswers⟩
  · intro K _ _ _ profile speed total dts hsampling htotal hdts outset reading
    have hreading : reading.total = total := Gauge.along_total profile outset dts
    have hpositive : 0 < reading.total := hreading ▸ htotal
    have hsum : (outset.gains profile dts).sum = reading.altitude profile := by
      rw [Gauge.sum_gains hsampling htotal hdts, Gauge.altitude_outset, sub_zero]
    have hlanded : total ≤ reading.traveled → reading.altitude profile = 0 := by
      intro htraveled
      exact Gauge.altitude_of_total_le profile hpositive (hreading.le.trans htraveled)
    refine ⟨?_, ?_, ?_, ?_⟩
    · rw [hsum, Gauge.altitude, Gauge.progress_eq, hreading]
    · rwa [hsum]
    · rw [hsum]
      exact Gauge.abs_altitude_le profile reading
    · intro dt hdt hbefore hafter
      have hnext : (reading.advance profile dt).altitude profile = 0 :=
        Gauge.altitude_of_total_le profile hpositive (hreading.le.trans hafter)
      rw [Gauge.gain_advance hsampling hpositive hdt, hnext, hlanded hbefore, sub_zero]

/-- A shot over ten units at a speed of ten, with an arc of two. -/
def lob : FlightPlan :=
  { FlightPlan.straight { x := 10, y := 0, z := 0 } 10 with arc := 2, arcSampling := .tickDelta }

def rising : Call where
  locator := fun _ => none
  position := .zero
  dt := 0.25

/-- The same arc in exact numbers. -/
def parabola : Profile ℚ where
  acceleration := 0
  maxSpeed := none
  arc := 2
  arcSampling := .tickDelta
  window := 2 / 125

/-- The first tick raises the shot by what its gauge gains; after half a second it is at its peak,
and after a second it has landed. -/
theorem lob_lands :
    (∃ gain, ((Gauge.outset lob.speed (launch lob .zero fun _ => none).totalDistance).gains
      lob.profile [0.25])[0]? = some gain ∧
      ((launch lob .zero fun _ => none).answers [rising])[0]? =
        some (.moved ((((launch lob .zero fun _ => none).step rising).level 0.25).raised gain))) ∧
      ((Gauge.outset 10 10).gains parabola [1 / 4, 1 / 4]).sum = 2 ∧
      ((Gauge.outset 10 10).gains parabola [1 / 4, 1 / 4, 1 / 2]).sum = 0 := by
  have hclosed : (launch lob .zero fun _ => none).aim rising = some { x := 10, y := 0, z := 0 } ∧
    (lob.arc == 0) = false := by
    decide +kernel
  obtain ⟨haim, harc⟩ := hclosed
  have hmoves : ∀ n (hn : n < [rising].length),
      ((launch lob .zero fun _ => none).after ([rising].take n)).Moves [rising][n] := by
    intro n hn
    obtain rfl : n = 0 := Nat.lt_one_iff.mp hn
    exact moves_iff.mpr ⟨_, haim⟩
  refine ⟨(arc_lands.1 lob .zero (fun _ => none) [rising] harc hmoves 0 Nat.one_pos).2, ?_, ?_⟩
  · rw [(arc_lands.2 ℚ parabola 10 10 [1 / 4, 1 / 4] rfl (by norm_num) (by norm_num)).1]
    norm_num [parabola, Profile.height, Gauge.along, Gauge.advance,
      Profile.accelerate, Gauge.outset]
  · refine (arc_lands.2 ℚ parabola 10 10 [1 / 4, 1 / 4, 1 / 2] rfl (by norm_num)
      (by norm_num)).2.1 ?_
    norm_num [parabola, Gauge.along, Gauge.advance, Profile.accelerate, Gauge.outset]

end Flight

end Volley
