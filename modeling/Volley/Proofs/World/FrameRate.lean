import Volley.Proofs.World.Guise

/-!
# How time is split does not matter

Time is fed into a world in portions, with frames in between. Only the number of ticks that have run
counts for the world: between two ticks nothing changes but the time that is left over and the frame
clock, and no tick looks at either.
-/

namespace Volley.World

/-- One call that lets time pass. -/
inductive Pass where
  | step (hosts : HostId → Context) (dt : Float32)
  | frame (dt : Float32)

/-- The number of ticks that a call runs and the world after it, unless the ticks never end. -/
def pass? (world : World) : Pass → Option (Nat × World)
  | .step hosts dt => (world.step? hosts dt).map fun (count, next, _) => (count, next)
  | .frame dt => some (0, (world.frameUpdate dt).1)

/-- The number of ticks that some calls run one after the other, and the world after them. -/
def passAll? : World → List Pass → Option (Nat × World)
  | world, [] => some (0, world)
  | world, pass :: rest => do
      let (count, next) ← world.pass? pass
      let (more, last) ← next.passAll? rest
      return (count + more, last)

/-- The hosts of a call answer like the given ones, except perhaps to requests for damage. -/
def Pass.Heeds (hosts : HostId → Context) : Pass → Prop
  | .step others _ => HostsAgree others hosts
  | .frame _ => True

/-- The world with other time left over and another frame clock. -/
def retimed (world : World) (accumulator : Float32) (clock : Option FrameClock) : World :=
  { world with accumulator, clock }

variable {hosts others : HostId → Context} {world next first second : World}

/-! ## Ticks do not look at left-over time -/

theorem runTick_retimed (world : World) (hosts : HostId → Context) (dt accumulator : Float32)
    (clock : Option FrameClock) :
    ((world.retimed accumulator clock).runTick hosts dt).1 =
      (world.runTick hosts dt).1.retimed accumulator clock := rfl

theorem runTicks_retimed (hosts : HostId → Context) (dt : Float32) (count : Nat) (world : World)
    (accumulator : Float32) (clock : Option FrameClock) :
    (runTicks hosts dt count (world.retimed accumulator clock)).1 =
      (runTicks hosts dt count world).1.retimed accumulator clock := by
  induction count generalizing world with
  | zero => rfl
  | succ count ih =>
      rw [runTicks, runTicks]
      dsimp only
      rw [runTick_retimed, ih]

theorem runTicks_add (hosts : HostId → Context) (dt : Float32) (count more : Nat) (world : World) :
    (runTicks hosts dt (count + more) world).1 =
      (runTicks hosts dt more (runTicks hosts dt count world).1).1 := by
  induction count generalizing world with
  | zero => rw [Nat.zero_add, runTicks]
  | succ count ih =>
      rw [Nat.succ_add, runTicks, runTicks]
      exact ih _

theorem timing_runTicks (hosts : HostId → Context) (dt : Float32) (count : Nat) (world : World) :
    (runTicks hosts dt count world).1.timing = world.timing := by
  induction count generalizing world with
  | zero => rfl
  | succ count ih => exact ih _

theorem runTicks_eq_of_agree (hagree : HostsAgree hosts others) (dt : Float32) (count : Nat)
    (world : World) :
    (runTicks hosts dt count world).1 = (runTicks others dt count world).1 :=
  alike_self_iff.mp ((alike_self_iff.mpr rfl).runTicks Actor.guise_self world.goesBy_self
    hagree dt count).1

/-! ## Calls that let time pass -/

/-- The worlds that some ticks can lead to. -/
def After (hosts : HostId → Context) (count : Nat) (world next : World) : Prop :=
  ∃ accumulator clock,
    next = (runTicks hosts (Timing.tickLength world.timing) count world).1.retimed accumulator clock

theorem After.trans {count more : Nat} (hfirst : After hosts count world next) {last : World}
    (hrest : After hosts more next last) : After hosts (count + more) world last := by
  obtain ⟨left, frame, rfl⟩ := hfirst
  obtain ⟨accumulator, clock, rfl⟩ := hrest
  have htiming : ((runTicks hosts (Timing.tickLength world.timing) count world).1.retimed left
      frame).timing =
      world.timing := timing_runTicks hosts _ count world
  refine ⟨accumulator, clock, ?_⟩
  rw [runTicks_retimed, runTicks_add, htiming]
  rfl

theorem after_pass? {pass : Pass} (hheeds : pass.Heeds hosts) {count : Nat}
    (hpass : world.pass? pass = some (count, next)) : After hosts count world next := by
  cases pass with
  | frame dt =>
      cases hpass
      obtain ⟨clock, hclock⟩ := frameUpdate_fst world dt
      exact ⟨world.accumulator, clock, hclock⟩
  | step others dt =>
      obtain ⟨⟨ticks, stepped, effects⟩, hstep, hsame⟩ := Option.map_eq_some_iff.mp hpass
      cases hsame
      obtain ⟨accumulator, rfl⟩ := runTicks_of_step? hstep
      rw [runTicks_eq_of_agree hheeds]
      exact ⟨accumulator, _, rfl⟩

theorem after_passAll? {passes : List Pass} (hheeds : ∀ pass ∈ passes, pass.Heeds hosts)
    {count : Nat}
    (hpasses : world.passAll? passes = some (count, next)) : After hosts count world next := by
  induction passes generalizing world count with
  | nil =>
      cases hpasses
      exact ⟨next.accumulator, next.clock, rfl⟩
  | cons pass rest ih =>
      obtain ⟨⟨ticks, middle⟩, hpass, hrest⟩ := Option.bind_eq_some_iff.mp hpasses
      obtain ⟨⟨more, last⟩, hmore, hsame⟩ := Option.bind_eq_some_iff.mp hrest
      cases hsame
      have hfirst := after_pass? (hheeds pass List.mem_cons_self) hpass
      exact hfirst.trans (ih (fun later hlater =>
        hheeds later (List.mem_cons_of_mem _ hlater)) hmore)

/-- However time is split into steps and frames, worlds in which as many ticks have run differ only
in the time that is left over and in the frame clock. -/
theorem passAll?_eq_of_ticks_eq {passes splits : List Pass}
    (hpasses : ∀ pass ∈ passes, pass.Heeds hosts) (hsplits : ∀ pass ∈ splits, pass.Heeds hosts)
    {ticks : Nat} (hfirst : world.passAll? passes = some (ticks, first))
    (hsecond : world.passAll? splits = some (ticks, second)) :
    second = { first with accumulator := second.accumulator, clock := second.clock } := by
  obtain ⟨_, _, rfl⟩ := after_passAll? hpasses hfirst
  obtain ⟨_, _, rfl⟩ := after_passAll? hsplits hsecond
  rfl

/-! Two ticks, fed in at once or in two steps around a frame; more time is left over in the end. -/

def atOnce : List Pass :=
  [.step (fun _ => .silent) 0.07]

def inPortions : List Pass :=
  [.step (fun _ => .silent) 0.05, .frame 0.05, .step (fun _ => .silent) 0.03]

theorem inPortions_eq_atOnce :
    ∃ first second : World, (create .standard).1.passAll? atOnce = some (2, first) ∧
      (create .standard).1.passAll? inPortions = some (2, second) ∧
      second = { first with accumulator := second.accumulator, clock := second.clock } := by
  have hfirst : ((create .standard).1.passAll? atOnce).map Prod.fst = some 2 := by decide +kernel
  have hsecond : ((create .standard).1.passAll? inPortions).map Prod.fst = some 2 := by
    decide +kernel
  obtain ⟨⟨_, first⟩, hfirst, rfl⟩ := Option.map_eq_some_iff.mp hfirst
  obtain ⟨⟨_, second⟩, hsecond, rfl⟩ := Option.map_eq_some_iff.mp hsecond
  have hheeds : ∀ pass ∈ atOnce, pass.Heeds fun _ => .silent := by
    simp [atOnce, Pass.Heeds, HostsAgree.refl]
  have hheed : ∀ pass ∈ inPortions, pass.Heeds fun _ => .silent := by
    simp [inPortions, Pass.Heeds, HostsAgree.refl]
  exact ⟨first, second, hfirst, hsecond, passAll?_eq_of_ticks_eq hheeds hheed hfirst hsecond⟩

end Volley.World
