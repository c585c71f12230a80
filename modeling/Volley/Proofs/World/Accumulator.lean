import Volley.World
import Volley.Proofs.Number.Single

/-!
# When the ticks that are due come to an end

A step takes the length of a tick from the accumulated time until less than that is left. The
subtraction is rounded, so it may leave the time as it is, and then the ticks never end. Whether
they do is settled by the first two ticks: a tick that counts more than half of the last digit of
the time keeps counting as the time gets less, and one that counts for less gets through at most
once before it reaches finer digits.
-/

namespace Volley.World

open Single Nearest

/-- The time left after some ticks have been taken from it. -/
def leftAfter (step : Float32) : Nat → Float32 → Float32
  | 0, time => time
  | ticks + 1, time => leftAfter step ticks (time - step)

/-- Two ticks, if they are due, make the time less. -/
def Drains (step time : Float32) : Prop :=
  step ≤ time → time - step < time ∧ (step ≤ time - step → time - step - step < time - step)

variable {step time : Float32} {m k n j : Nat}

theorem isSome_drainFrom?_of_not_le (hdone : ¬step ≤ time)
    (count : Nat) : (drainFrom? step count time).isSome := by
  rw [drainFrom?, if_neg hdone]
  rfl

theorem isSome_drainFrom?_of_le (hdue : step ≤ time) (count : Nat) :
    (drainFrom? step count time).isSome ↔
      (time - step).toBits < time.toBits ∧ (drainFrom? step (count + 1) (time - step)).isSome := by
  rw [drainFrom?, if_pos hdue]
  dsimp only
  split
  · rename_i hless
    exact ⟨fun hsome => ⟨hless, hsome⟩, And.right⟩
  · rename_i hmore
    exact ⟨fun hsome => absurd hsome (by simp), fun hboth => absurd hboth.1 hmore⟩

theorem leftAfter_eq_self (hstuck : time - step = time)
    (ticks : Nat) : leftAfter step ticks time = time := by
  induction ticks with
  | zero => rfl
  | succ ticks ih => rw [leftAfter, hstuck, ih]

/-- A tick either makes the time less or leaves it as it is. -/
theorem sub_eq_or_lt (hstep : Holds step n j) (hn : 0 < n) (hdue : step ≤ time) :
    time - step = time ∨ (time - step).toBits < time.toBits := by
  rcases holds_or_infinite_of_le hstep hn hdue with ⟨m, k, htime⟩ | hinfinite
  · have hle := (hstep.le_iff_value htime).mp hdue
    obtain ⟨q, i, hleft, hvalue⟩ := htime.sub hstep hn hle
    have hbelow : q * 2 ^ i ≤ m * 2 ^ k := by
      rw [hvalue]
      exact nearest_le htime.canonical.1 (Nat.sub_le _ _)
    rcases Nat.lt_or_eq_of_le hbelow with hlt | heq
    · exact Or.inr ((hleft.lt_iff_bits htime).mp ((hleft.lt_iff_value htime).mpr hlt))
    · refine Or.inl (eq_of_toNat_toBits ?_)
      have hnot := mt (htime.canonical.mul_lt_mul_iff hleft.canonical).mpr (Nat.not_lt.mpr heq.ge)
      have hnot' := mt (hleft.canonical.mul_lt_mul_iff htime.canonical).mpr (Nat.not_lt.mpr heq.le)
      rw [hleft.bits, htime.bits]
      omega
  · exact Or.inl (hinfinite.sub hstep)

theorem isSome_drainFrom?_iff_exists (hstep : Holds step n j) (hn : 0 < n) (count : Nat) :
    (drainFrom? step count time).isSome ↔ ∃ ticks, ¬step ≤ leftAfter step ticks time := by
  constructor
  · intro hsome
    induction hbits : time.toBits.toNat using Nat.strongRecOn generalizing time count with
    | ind bits ih =>
        by_cases hdue : step ≤ time
        · obtain ⟨hless, hrest⟩ := (isSome_drainFrom?_of_le hdue count).mp hsome
          have hdecrease : (time - step).toBits.toNat < bits := by
            rw [← hbits]
            exact UInt32.lt_iff_toNat_lt.mp hless
          obtain ⟨ticks, hdone⟩ := ih _ hdecrease (count + 1) hrest rfl
          exact ⟨ticks + 1, hdone⟩
        · exact ⟨0, hdue⟩
  · rintro ⟨ticks, hdone⟩
    induction ticks generalizing time count with
    | zero => exact isSome_drainFrom?_of_not_le hdone count
    | succ ticks ih =>
        by_cases hdue : step ≤ time
        · rcases sub_eq_or_lt hstep hn hdue with hstuck | hless
          · rw [leftAfter_eq_self hstuck] at hdone
            exact absurd hdue hdone
          · exact (isSome_drainFrom?_of_le hdue count).mpr ⟨hless, ih (count + 1) hdone⟩
        · exact isSome_drainFrom?_of_not_le hdue count

/-- A tick that counts more than half of the last digit of the time always drains it, since the
digits of what is left are no coarser. -/
theorem isSome_drainFrom?_of_digit (hstep : Holds step n j) (hn : 0 < n) (htime : Holds time m k)
    (hdigit : 2 ^ k < 2 * (n * 2 ^ j)) (count : Nat) : (drainFrom? step count time).isSome := by
  induction hbits : time.toBits.toNat using Nat.strongRecOn generalizing time m k count with
  | ind bits ih =>
      by_cases hdue : step ≤ time
      · have hle := (hstep.le_iff_value htime).mp hdue
        obtain ⟨q, i, hleft, hvalue⟩ := htime.sub hstep hn hle
        have hlt := nearest_sub_lt htime.canonical (Nat.mul_pos hn (Nat.two_pow_pos j)) hle hdigit
        rw [← hvalue] at hlt
        have hless := (hleft.lt_iff_bits htime).mp ((hleft.lt_iff_value htime).mpr hlt)
        have hcoarse : 2 ^ i ≤ 2 ^ k :=
          Nat.pow_le_pow_right (by omega) (hleft.canonical.power_le htime.canonical hlt.le)
        refine (isSome_drainFrom?_of_le hdue count).mpr ⟨hless, ?_⟩
        refine ih _ ?_ hleft (by omega) (count + 1) rfl
        rw [← hbits]
        exact UInt32.lt_iff_toNat_lt.mp hless
      · exact isSome_drainFrom?_of_not_le hdue count

theorem sub_lt_iff_bits (hstep : Holds step n j) (hn : 0 < n) (hdue : step ≤ time) :
    time - step < time ↔ (time - step).toBits < time.toBits := by
  rcases holds_or_infinite_of_le hstep hn hdue with ⟨m, k, htime⟩ | hinfinite
  · obtain ⟨q, i, hleft, -⟩ := htime.sub hstep hn ((hstep.le_iff_value htime).mp hdue)
    exact hleft.lt_iff_bits htime
  · rw [hinfinite.sub hstep]
    exact ⟨fun hlt => absurd hlt hinfinite.not_lt_self, fun hlt => absurd hlt (UInt32.lt_irrefl _)⟩

/-- A tick that counts too little drains the time all the same if the time is a power of two: below
it, the digits are fine enough. -/
theorem isSome_drainFrom?_of_least (hstep : Holds step n j) (hn : 0 < n)
    (htime : Holds time (2 ^ 23) k) (hk : 0 < k) (hdue : step ≤ time) (hless : time - step < time)
    (hdigit : 2 ^ k < 2 * (2 * (n * 2 ^ j))) (count : Nat) :
    (drainFrom? step count (time - step)).isSome := by
  obtain ⟨q, i, hleft, -⟩ := htime.sub hstep hn ((hstep.le_iff_value htime).mp hdue)
  have hfiner := hleft.canonical.finer hk ((hleft.lt_iff_value htime).mp hless)
  exact isSome_drainFrom?_of_digit hstep hn hleft (by omega) count

/-- From an even significand, a tick that counts half of the last digit at most can
only be taken at a power of two. -/
theorem isSome_drainFrom?_of_even (hstep : Holds step n j) (hn : 0 < n) (htime : Holds time m k)
    (hk : 0 < k) (heven : m % 2 = 0) (hdigit : 2 * (n * 2 ^ j) ≤ 2 ^ k)
    (hless : step ≤ time → time - step < time) (count : Nat) :
    (drainFrom? step count time).isSome := by
  by_cases hdue : step ≤ time
  · have hpos : 0 < n * 2 ^ j := Nat.mul_pos hn (Nat.two_pow_pos j)
    obtain ⟨q, i, hleft, hvalue⟩ := htime.sub hstep hn ((hstep.le_iff_value htime).mp hdue)
    have hlt := (hleft.lt_iff_value htime).mp (hless hdue)
    rw [hvalue] at hlt
    refine (isSome_drainFrom?_of_le hdue count).mpr
      ⟨(sub_lt_iff_bits hstep hn hdue).mp (hless hdue), ?_⟩
    rcases of_nearest_sub_lt htime.canonical hpos hdigit hlt with ⟨rfl, hhalf⟩ | ⟨hodd, -⟩
    · exact isSome_drainFrom?_of_least hstep hn htime hk hdue (hless hdue) hhalf (count + 1)
    · omega
  · exact isSome_drainFrom?_of_not_le hdue count

theorem isSome_drainFrom?_sub (hstep : Holds step n j) (hn : 0 < n) (htime : Holds time m k)
    (hdue : step ≤ time) (hless : time - step < time)
    (hnext : step ≤ time - step → time - step - step < time - step) (count : Nat) :
    (drainFrom? step count (time - step)).isSome := by
  have hpos : 0 < n * 2 ^ j := Nat.mul_pos hn (Nat.two_pow_pos j)
  obtain ⟨q, i, hleft, hvalue⟩ := htime.sub hstep hn ((hstep.le_iff_value htime).mp hdue)
  have hlt := (hleft.lt_iff_value htime).mp hless
  by_cases hdigit : 2 ^ k < 2 * (n * 2 ^ j)
  · have hcoarse : 2 ^ i ≤ 2 ^ k :=
      Nat.pow_le_pow_right (by omega) (hleft.canonical.power_le htime.canonical hlt.le)
    exact isSome_drainFrom?_of_digit hstep hn hleft (Nat.lt_of_le_of_lt hcoarse hdigit) count
  · have hk : 0 < k := by
      apply Nat.pos_of_ne_zero
      intro hzero
      rw [hzero] at hdigit
      omega
    rw [hvalue] at hlt
    rcases of_nearest_sub_lt htime.canonical hpos (Nat.not_lt.mp hdigit) hlt with
      ⟨rfl, hhalf⟩ | ⟨hodd, hlarge, hhalf, hpredecessor⟩
    · exact isSome_drainFrom?_of_least hstep hn htime hk hdue hless hhalf count
    · -- the tie went down to an even significand
      have hcanonical : Canonical (m - 1) k := by
        have hdigits := htime.canonical.1
        exact ⟨by omega, Or.inr (by omega)⟩
      obtain ⟨rfl, rfl⟩ := hcanonical.eq_of_mul_eq hleft.canonical (hvalue.trans hpredecessor)
      exact isSome_drainFrom?_of_even hstep hn hleft hk (by omega) hhalf.le hnext count

theorem isSome_drainFrom?_of_drains (hstep : Holds step n j) (hn : 0 < n)
    (hdrains : Drains step time) (count : Nat) :
    (drainFrom? step count time).isSome := by
  by_cases hdue : step ≤ time
  · obtain ⟨hless, hnext⟩ := hdrains hdue
    refine (isSome_drainFrom?_of_le hdue count).mpr ⟨(sub_lt_iff_bits hstep hn hdue).mp hless, ?_⟩
    rcases holds_or_infinite_of_le hstep hn hdue with ⟨m, k, htime⟩ | hinfinite
    · exact isSome_drainFrom?_sub hstep hn htime hdue hless hnext (count + 1)
    · rw [hinfinite.sub hstep] at hless
      exact absurd hless hinfinite.not_lt_self
  · exact isSome_drainFrom?_of_not_le hdue count

theorem isSome_drainFrom?_iff_drains (hstep : Holds step n j) (hn : 0 < n) (count : Nat) :
    (drainFrom? step count time).isSome ↔ Drains step time := by
  refine ⟨fun hsome hdue => ?_, fun hdrains => isSome_drainFrom?_of_drains hstep hn hdrains count⟩
  obtain ⟨hless, hrest⟩ := (isSome_drainFrom?_of_le hdue count).mp hsome
  refine ⟨(sub_lt_iff_bits hstep hn hdue).mpr hless, ?_⟩
  intro hdueNext
  exact (sub_lt_iff_bits hstep hn hdueNext).mpr ((isSome_drainFrom?_of_le hdueNext _).mp hrest).1

/-- The ticks taken are the fewest after which less than a tick is left. -/
theorem drainFrom?_eq_some {count total : Nat} {left : Float32}
    (hdrain : drainFrom? step count time = some (total, left)) :
    ∃ ticks, total = count + ticks ∧ left = leftAfter step ticks time ∧ ¬step ≤ left ∧
      ∀ earlier < ticks, step ≤ leftAfter step earlier time := by
  induction hbits : time.toBits.toNat using Nat.strongRecOn generalizing time count with
  | ind bits ih =>
      rw [drainFrom?] at hdrain
      split at hdrain
      · rename_i hdue
        dsimp only at hdrain
        split at hdrain
        · rename_i hless
          have hdecrease : (time - step).toBits.toNat < bits := by
            rw [← hbits]
            exact UInt32.lt_iff_toNat_lt.mp hless
          obtain ⟨ticks, htotal, hleft, hdone, hearlier⟩ := ih _ hdecrease hdrain rfl
          refine ⟨ticks + 1, by omega, hleft, hdone, ?_⟩
          intro earlier hlt
          cases earlier with
          | zero => exact hdue
          | succ earlier => exact hearlier earlier (by omega)
        · cases hdrain
      · rename_i hdone
        cases hdrain
        exact ⟨0, rfl, rfl, hdone, fun earlier hlt => absurd hlt (Nat.not_lt_zero _)⟩

theorem exists_holds_of_isTimestep
    (hstep : Timing.isTimestep step = true) : ∃ n j, Holds step n j ∧ 0 < n := by
  rw [Timing.isTimestep, Bool.and_eq_true, decide_eq_true_iff] at hstep
  obtain ⟨hfinite, hpos⟩ := hstep
  rcases Nat.lt_trichotomy step.toBits.toNat (255 * 2 ^ 23) with hheld | hinfinite | hbeyond
  · obtain ⟨n, j, hheld⟩ := exists_holds hheld
    have hlt := (holds_zero.lt_iff_value hheld).mp hpos
    exact ⟨n, j, hheld, Nat.pos_of_mul_pos_right (by omega)⟩
  · have hunpacked : step.toModel.unpack = _ := IsInfinite.unpack_eq hinfinite
    change step.toModel.unpack.isFinite = true at hfinite
    rw [hunpacked] at hfinite
    cases hfinite
  · exact absurd hpos (holds_zero.not_lt_beyond hbeyond)

theorem exists_holds_tickLength (timing : Option Timing) :
    ∃ n j, Holds (Timing.tickLength timing) n j ∧ 0 < n := by
  have hstandard : Timing.isTimestep Timing.standard.fixedTimestep = true := rfl
  apply exists_holds_of_isTimestep
  cases timing with
  | none => exact hstandard
  | some timing =>
      rw [Timing.tickLength]
      split
      · assumption
      · exact hstandard

/-- A step returns exactly if the first two ticks that are due make the time less, and then it has
run as many ticks as it takes until less than one is left. -/
theorem step?_isSome_iff (world : World) (hosts : HostId → Context) {dt : Float32}
    (hfinite : dt.isFinite = true) :
    let step := Timing.tickLength world.timing
    let time := world.accumulator + larger dt 0
    ((∃ ticks, ¬step ≤ leftAfter step ticks time) ↔ Drains step time) ∧
      ((world.step? hosts dt).isSome ↔ Drains step time) ∧
      ∀ count next effects, world.step? hosts dt = some (count, next, effects) →
        next.accumulator = leftAfter step count time ∧
        (∀ earlier < count, step ≤ leftAfter step earlier time) ∧
          ¬step ≤ next.accumulator ∧ (next.accumulator < step ∨ next.accumulator.isNaN = true) := by
  intro step time
  obtain ⟨n, j, hstep, hn⟩ := exists_holds_tickLength world.timing
  have hdrains : (drainFrom? step 0 time).isSome ↔ Drains step time :=
    isSome_drainFrom?_iff_drains hstep hn 0
  refine ⟨(isSome_drainFrom?_iff_exists hstep hn 0).symm.trans hdrains, ?_, ?_⟩
  · rw [← hdrains, step?]
    dsimp only
    rw [if_neg (by simp [hfinite])]
    have hdrain : drain? (Timing.tickLength world.timing) (world.accumulator + larger dt 0) =
        drainFrom? step 0 time := rfl
    rw [hdrain]
    cases drainFrom? step 0 time <;> simp
  · intro count next effects hreturn
    rw [step?] at hreturn
    dsimp only at hreturn
    rw [if_neg (by simp [hfinite])] at hreturn
    split at hreturn
    · cases hreturn
    · rename_i total left hdrain
      obtain ⟨ticks, htotal, hleft, hdone, hearlier⟩ := drainFrom?_eq_some hdrain
      cases hreturn
      rw [Nat.zero_add] at htotal
      rw [htotal]
      exact ⟨hleft, hearlier, hdone, (hstep.le_or_lt hn left).resolve_left hdone⟩

theorem standard_step?_isSome :
    (1 : Float32).isFinite = true ∧
      ((World.create .standard).1.step? (fun _ => .silent) 1).isSome := by
  have hfinite : (1 : Float32).isFinite = true := rfl
  refine ⟨hfinite, (step?_isSome_iff _ _ hfinite).2.1.mpr ?_⟩
  unfold Drains
  decide +kernel

/-- From two million seconds, the thirtieth part of one cannot be taken. -/
theorem standard_step?_endless :
    Timing.standard.sanitize.1 = .standard ∧ (2000000 : Float32).isFinite = true ∧
      (World.create .standard).1.step? (fun _ => .silent) 2000000 = none ∧
      ∀ ticks, Timing.standard.fixedTimestep ≤
        leftAfter Timing.standard.fixedTimestep ticks (0 + larger 2000000 0) := by
  refine ⟨rfl, rfl, ?_, fun ticks => ?_⟩
  · rw [← Option.isNone_iff_eq_none]
    decide +kernel
  · rw [leftAfter_eq_self rfl]
    decide +kernel

end Volley.World
