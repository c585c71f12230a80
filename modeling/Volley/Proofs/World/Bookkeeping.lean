import Mathlib.Logic.Function.Iterate
import Volley.Proofs.Number.Sum
import Volley.Proofs.World.Accumulator
import Volley.Proofs.World.FrameRate

/-!
# The books of the clocks

A world counts its ticks twice and adds up their lengths, and it keeps the time that does
not make a whole tick yet. A step brings all four forward together, a reset sets all four
back, and nothing else touches them.
-/

namespace Volley.World

open Single

variable {world next : World} {effects : List Effect} {hosts : HostId → Context}
  {length dt step time left : Float32} {count total n j m k : Nat}

/-! ## Time that is drained -/

theorem drainFrom?_of_infinite (hstep : Holds step n j) (htime : IsInfinite time) (count : Nat) :
    drainFrom? step count time = none := by
  rw [drainFrom?, if_pos (htime.le hstep)]
  dsimp only
  rw [htime.sub hstep, if_neg (UInt32.lt_irrefl _)]

theorem exists_holds_leftAfter (hstep : Holds step n j) (hn : 0 < n) (htime : Holds time m k)
    (hearlier : ∀ earlier < count, step ≤ leftAfter step earlier time) :
    ∃ q i, Holds (leftAfter step count time) q i := by
  induction count generalizing time m k with
  | zero => exact ⟨m, k, htime⟩
  | succ count ih =>
      have hdue : step ≤ time := hearlier 0 (Nat.succ_pos count)
      obtain ⟨q, i, hless, -⟩ := htime.sub hstep hn ((hstep.le_iff_value htime).mp hdue)
      exact ih hless fun earlier hlt => hearlier (earlier + 1) (Nat.succ_lt_succ hlt)

/-- Every tick that is drained leaves a number with lesser bits. -/
theorem total_le_of_drainFrom? (hdrain : drainFrom? step count time = some (total, left)) :
    total + left.toBits.toNat ≤ count + time.toBits.toNat := by
  fun_induction drainFrom? step count time with
  | case1 count time hdue rest hless ih =>
      have hlater := ih hdrain
      have hbits := UInt32.lt_iff_toNat_lt.mp hless
      omega
  | case2 => cases hdrain
  | case3 =>
      cases hdrain
      exact le_rfl

theorem exists_holds_larger_zero
    (hfinite : dt.isFinite = true) : ∃ m k, Holds (larger dt 0) m k := by
  rw [larger, if_neg (show ¬(0 : Float32).isNaN = true by decide +kernel)]
  split
  · exact ⟨0, 0, holds_zero⟩
  · split
    · rename_i hpos
      have hlength : Timing.isTimestep dt = true := by
        rw [Timing.isTimestep, hfinite, decide_eq_true hpos]; rfl
      obtain ⟨m, k, hholds, -⟩ := exists_holds_of_isTimestep hlength
      exact ⟨m, k, hholds⟩
    · exact ⟨0, 0, holds_zero⟩

/-- What is left of the time is a number again, and less than a tick. -/
theorem left_of_drain? (hlength : Holds length n j) (hn : 0 < n) (htime : Holds time m k)
    (hfinite : dt.isFinite = true)
    (hdrain : drain? length (time + larger dt 0) = some (count, left)) :
    (∃ q i, Holds left q i) ∧ left < length ∧ count < 2 ^ 32 := by
  obtain ⟨q, i, hfed⟩ := exists_holds_larger_zero hfinite
  rcases htime.add hfed with ⟨p, r, hsum⟩ | hinfinite
  · obtain ⟨ticks, hcount, rfl, hdone, hearlier⟩ := drainFrom?_eq_some hdrain
    rw [Nat.zero_add] at hcount
    obtain ⟨q', i', hleft⟩ := exists_holds_leftAfter hlength hn hsum hearlier
    have hbound := total_le_of_drainFrom? hdrain
    have hbits := (time + larger dt 0).toBits.toNat_lt
    refine ⟨⟨q', i', hleft⟩, ?_, by omega⟩
    rw [hlength.le_iff_value hleft] at hdone
    exact (hleft.lt_iff_value hlength).mpr (Nat.lt_of_not_le hdone)
  · exact absurd hdrain (by rw [drain?, drainFrom?_of_infinite hlength hinfinite]; exact nofun)

/-! ## What changes the clocks -/

/-- The tuning of a world, both counts of its ticks, its time, and the time that is left over. -/
def ledger (world : World) : Option Timing × UInt64 × UInt64 × Float32 × Float32 :=
  (world.timing, world.running, world.tick, world.time, world.accumulator)

theorem ledger_spawnShot (world : World) (hosts : HostId → Context) (shot : Shot) :
    (world.spawnShot hosts shot).2.ledger = world.ledger := by
  rw [spawnShot]
  split
  · rfl
  · dsimp only
    split <;> rfl

theorem ledger_removeActor {id : ActorId}
    (hremove : world.removeActor hosts id = .ok (next, effects)) :
    next.ledger = world.ledger := by
  rcases removeActor_eq_ok hremove with ⟨-, -, rfl⟩ | ⟨-, shot, -, -, rfl⟩
  · rfl
  · rfl

theorem ledger_edit {id : ActorId} {changes : List Actor.Edit}
    (hedit : world.edit id changes = .ok next) :
    next.ledger = world.ledger := by
  rcases unit?_isSome_of_edit hedit with ⟨-, rfl⟩ | ⟨-, -, rfl⟩
  · rfl
  · rfl

/-- An act is a step, or it sets the world back, or it leaves the clocks as they are. -/
theorem ledger_perform {act : Act} (hperform : world.perform act = some (next, effects)) :
    (∃ hosts dt count, world.step? hosts dt = some (count, next, effects)) ∨ next = world.reset ∨
      next.ledger = world.ledger := by
  cases outcome_perform hperform with
  | stepped hstep => exact .inl ⟨_, _, _, hstep⟩
  | emptied => exact .inr (.inl rfl)
  | fired hspawn =>
      exact .inr (.inr (congrArg
        (fun result => result.2.ledger) hspawn ▸ ledger_spawnShot world _ _))
  | fireRefused hspawn =>
      exact .inr (.inr (congrArg
        (fun result => result.2.ledger) hspawn ▸ ledger_spawnShot world _ _))
  | removed hremove => exact .inr (.inr (ledger_removeActor hremove))
  | edited hedit => exact .inr (.inr (ledger_edit hedit))
  | _ => exact .inr (.inr rfl)

theorem add_one_add_ofNat (tick : UInt64) (count : Nat) :
    tick + 1 + .ofNat count = tick + .ofNat (count + 1) := by
  rw [UInt64.add_assoc, Nat.add_comm count, UInt64.ofNat_add]
  rfl

theorem clocks_runTicks (hosts : HostId → Context) (length : Float32) (count : Nat)
    (world : World) :
    (runTicks hosts length count world).1.tick = world.tick + .ofNat count ∧
      (runTicks hosts length count world).1.running = world.running + .ofNat count ∧
        (runTicks hosts length count world).1.time = (· + length)^[count] world.time := by
  induction count generalizing world with
  | zero => simp [runTicks]
  | succ count ih =>
      obtain ⟨htick, hrunning, htime⟩ := ih (world.runTick hosts length).1
      refine ⟨htick.trans ?_, hrunning.trans ?_, htime⟩
      · exact add_one_add_ofNat world.tick count
      · exact add_one_add_ofNat world.running count

/-- Where the books of a world stand if its ticks have the given length. -/
structure Punctual (length : Float32) (world : World) : Prop where
  tuned : Timing.tickLength world.timing = length
  ticks : world.running = world.tick
  time : IsDuration world.time
  accumulator : ∃ m k, Holds world.accumulator m k
  left : world.accumulator < length

theorem exists_drain_of_step? (hstep : world.step? hosts dt = some (count, next, effects))
    (hfinite : dt.isFinite = true) :
    ∃ left, drain? (Timing.tickLength world.timing) (world.accumulator + larger dt 0) =
      some (count, left) ∧
      next = { (runTicks hosts (Timing.tickLength world.timing) count world).1 with
               accumulator := left } := by
  rw [step?] at hstep
  dsimp only at hstep
  rw [if_neg (by simp [hfinite])] at hstep
  split at hstep
  · cases hstep
  · rename_i total left hdrain
    cases hstep
    exact ⟨left, hdrain, rfl⟩

theorem step?_of_not_finite (world : World) (hosts : HostId → Context)
    (hfinite : ¬dt.isFinite = true) :
    world.step? hosts dt = some (0, world, [.noticed (.stepIgnored dt)]) := by
  rw [step?]
  exact if_pos (by simpa using hfinite)

theorem time_runTicks (htime : IsDuration time) (hlength : Holds length n j) (count : Nat) :
    IsDuration ((· + length)^[count] time) := by
  induction count generalizing time with
  | zero => exact htime
  | succ count ih => exact ih (htime.add hlength)

theorem zero_lt_tickLength (timing : Option Timing) : 0 < Timing.tickLength timing := by
  obtain ⟨n, j, hlength, hn⟩ := exists_holds_tickLength timing
  rw [holds_zero.lt_iff_value hlength, Nat.zero_mul]
  exact Nat.mul_pos hn (Nat.two_pow_pos j)

theorem punctual_reset (world : World) : Punctual (Timing.tickLength world.timing) world.reset where
  tuned := rfl
  ticks := rfl
  time := .inl ⟨0, 0, holds_zero⟩
  accumulator := ⟨0, 0, holds_zero⟩
  left := zero_lt_tickLength world.timing

theorem Punctual.congr (hpunctual : Punctual length world) (hledger : next.ledger = world.ledger) :
    Punctual length next := by
  obtain ⟨htiming, hrunning, htick, htime, haccumulator⟩ := by
    simpa only [ledger, Prod.mk.injEq] using hledger
  obtain ⟨htuned, hticks, hduration, hholds, hleft⟩ := hpunctual
  exact ⟨htiming ▸ htuned, hrunning.trans (hticks.trans htick.symm), htime ▸ hduration,
    haccumulator ▸ hholds,
    haccumulator ▸ hleft⟩

theorem Punctual.step? (hpunctual : Punctual length world)
    (hstep : world.step? hosts dt = some (count, next, effects)) :
    Punctual length next ∧ count < 2 ^ 32 ∧ next.tick = world.tick + .ofNat count ∧
      next.time = (· + length)^[count] world.time := by
  obtain ⟨n, j, hlength, hn⟩ := exists_holds_tickLength world.timing
  rw [hpunctual.tuned] at hlength
  obtain ⟨m, k, haccumulator⟩ := hpunctual.accumulator
  by_cases hfinite : dt.isFinite = true
  · obtain ⟨left, hdrain, rfl⟩ := exists_drain_of_step? hstep hfinite
    rw [hpunctual.tuned] at hdrain ⊢
    obtain ⟨hleft, hless, hcount⟩ := left_of_drain? hlength hn haccumulator hfinite hdrain
    obtain ⟨htick, hrunning, htime⟩ := clocks_runTicks hosts length count world
    refine ⟨⟨?_, ?_, ?_, hleft, hless⟩, hcount, htick, htime⟩
    · exact (congrArg Timing.tickLength (timing_runTicks hosts length count world)).trans
        hpunctual.tuned
    · rw [htick, hrunning, hpunctual.ticks]
    · rw [htime]
      exact time_runTicks hpunctual.time hlength count
  · rw [step?_of_not_finite world hosts hfinite] at hstep
    cases hstep
    exact ⟨hpunctual, by decide, (UInt64.add_zero _).symm, rfl⟩

theorem Punctual.perform (hpunctual : Punctual length world) {act : Act}
    (hperform : world.perform act = some (next, effects)) : Punctual length next := by
  rcases ledger_perform hperform with ⟨hosts, dt, count, hstep⟩ | rfl | hledger
  · exact (hpunctual.step? hstep).1
  · exact hpunctual.tuned ▸ punctual_reset world
  · exact hpunctual.congr hledger

/-! ## Runs -/

/-- The worlds that come up where every tick has the given length. A host may bring in other
systems, take the frame clock away, and change the tuning as long as the ticks keep their length. -/
inductive Reaches (length : Float32) : World → Prop
  | created {timing : Timing} (hlength : Timing.tickLength (create timing).1.timing = length) :
      Reaches length (create timing).1
  | acted {world next : World} {act : Act} {effects : List Effect} (hreaches : Reaches length world)
      (hperform : world.perform act = some (next, effects)) : Reaches length next
  | equipped {world : World} (hreaches : Reaches length world) (gameplay : List Gameplay) :
      Reaches length { world with gameplay }
  | unclocked {world : World} (hreaches : Reaches length world) :
      Reaches length { world with clock := none }
  | retuned {world : World} {timing : Option Timing} (hreaches : Reaches length world)
      (hlength : Timing.tickLength timing = length) : Reaches length { world with timing }

end Volley.World
