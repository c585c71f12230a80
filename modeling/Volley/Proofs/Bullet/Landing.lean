import Volley.Proofs.Bullet.Lifecycle
import Volley.Proofs.Flight.Run

/-!
# Bullets without scripts

The rules of a bullet without scripts order flights and damage, and announce that they have fired.
They leave the bullet as it is, but for its flight and for what its listeners have heard. So how a
tick ends for such a bullet is settled by its flight alone.
-/

namespace Volley

/-! ## What rules without scripts leave -/

namespace Turn

/-- Only the flight with its guide and the listeners of the bullet may have changed. -/
structure Steered (before after : Turn) : Prop where
  around : after.around = before.around
  bullet : after.bullet =
    { before.bullet with
      flight := after.bullet.flight, guide := after.bullet.guide, emitter := after.bullet.emitter }

namespace Steered

theorem refl (turn : Turn) : Steered turn turn :=
  ⟨rfl, rfl⟩

theorem trans {first second third : Turn} (hfirst : Steered first second)
    (hsecond : Steered second third) :
    Steered first third := by
  refine ⟨hsecond.around.trans hfirst.around, ?_⟩
  rw [hsecond.bullet, hfirst.bullet]

theorem record (turn : Turn) (effect : Effect) : Steered turn (turn.record effect) :=
  ⟨rfl, rfl⟩

theorem fly (turn : Turn) (order : FlyOrder) : Steered turn (turn.fly order) := by
  rw [Turn.fly]
  dsimp only
  split
  · exact record turn _
  · exact ⟨rfl, rfl⟩

theorem strike (turn : Turn) (order : DamageOrder) (link : Link) (target : ActorId) :
    Steered turn (turn.strike order link target) := by
  rw [Turn.strike]
  dsimp only
  split
  · exact record turn _
  · cases link.host? <;> cases (link.context turn.around).damage _ <;> exact ⟨rfl, rfl⟩

theorem remark (turn : Turn) (remarked : Bool) (notice : Notice) :
    Steered turn (if remarked then turn.note notice else turn) := by
  cases remarked with
  | false => exact refl turn
  | true => exact record turn _

theorem damage (turn : Turn) (order : DamageOrder) : Steered turn (turn.damage order) := by
  rw [Turn.damage]
  dsimp only
  split
  · exact record turn _
  · split
    · exact record turn _
    · split
      · exact record turn _
      · exact ((remark turn _ _).trans (remark _ _ _)).trans (strike _ order _ _)

theorem keeps : TriggerHost.Keeps Steered where
  refl := refl
  trans := trans
  orderFlight order turn := fly turn order
  orderDamage order turn := damage turn order
  announce _ _ _ := ⟨rfl, rfl⟩
  note _ turn := record turn _

end Steered

end Turn

/-- The rules of a bullet that wait for a cue, with no scripts to call. -/
def Shot.rules (shot : Shot) : Turn.Fire := fun cue turn =>
  (shot.program.run .none cue turn).2

theorem Shot.rules_steered (shot : Shot) (cue : Cue)
    (turn : Turn) : turn.Steered (shot.rules cue turn) := by
  refine Program.run_keeps Turn.Steered.keeps (fun name action haction => ?_) shot.program cue turn
  cases haction

theorem Shot.fire_of_empty {shot : Shot} (hbook : shot.book = .empty) :
    Shot.fire shot.program shot.book nesting = shot.rules := by
  rw [hbook]
  rfl

/-! ## How a tick ends -/

namespace Bullet

def older (bullet : Bullet) (dt : Float32) : Bullet :=
  { bullet with elapsed := bullet.elapsed + dt }

/-- A bullet whose flight is over. -/
def landed (bullet : Bullet) (flight : Flight) (dt : Float32) : Bullet :=
  { bullet.older dt with flight := some { flight with active := false } }

/-- A bullet that is under way, with a flight that is not over. -/
structure Flies (bullet : Bullet) (flight : Flight) : Prop where
  phase : bullet.phase = .active
  carried : bullet.flight = some flight
  active : flight.active = true

/-- A bullet is over where it was, for a reason; its last rules may have
ordered a flight that is never begun. -/
def IsOver (bullet : Bullet) (reason : EndReason) (after : Bullet) : Prop :=
  after = { bullet with
    phase := .ended, actor := bullet.actor.edit (.active false), endReason :=
      some reason, flight := after.flight
    guide := after.guide, emitter := after.emitter }

theorem position_move (bullet : Bullet) (displacement : Vec3) :
    (bullet.move displacement).actor.position = bullet.actor.position + displacement := by
  rw [move]
  split <;> rfl

end Bullet

namespace Turn

/-- A bullet ends, and its last rules run. -/
def ending (rules : Fire) (reason : EndReason) (turn : Turn) : Turn :=
  (rules .bulletEnd (turn.closed (some reason))).tellEnd (some reason)

/-- What a tick makes of a bullet whose flight locates units by `sight`. -/
structure Ticked (rules : Fire) (sight : Locator) (dt : Float32) (before after : Turn) : Prop where
  resting : before.bullet.phase ≠ .active → after = before
  aging : before.bullet.phase = .active → before.bullet.isFlying = false →
    after = { before with bullet := before.bullet.older dt }
  lost : ∀ flight, before.bullet.Flies flight → flight.plan.target.locate sight = none →
    let grounded : Turn := { before with bullet := before.bullet.landed flight dt }
    if flight.plan.stopOnHit then
      after = grounded.ending rules .targetLost ∧ grounded.bullet.IsOver .targetLost after.bullet
    else after = grounded
  hit : ∀ flight target, before.bullet.Flies flight →
    flight.plan.target.locate sight = some target →
    Flight.collides flight.plan before.bullet.actor.position target = true →
    let grounded : Turn := { before with bullet := before.bullet.landed flight dt }
    if flight.plan.stopOnHit then
      after = (rules .bulletHit grounded).ending rules .hit ∧
        grounded.bullet.IsOver .hit after.bullet
    else after = grounded
  clear : ∀ flight target, before.bullet.Flies flight →
    flight.plan.target.locate sight = some target →
    Flight.collides flight.plan before.bullet.actor.position target = false →
    ∃ next displacement, flight.update sight before.bullet.actor.position dt =
      (next, .moved displacement) ∧
      next.active = true ∧
      after = { before with bullet := { before.bullet.older dt with flight := some next }.move displacement } ∧
      after.bullet.phase = .active ∧
      after.bullet.actor.position = before.bullet.actor.position + displacement

variable {rules : Fire} {turn fired : Turn} {flight : Flight} {dt : Float32}

theorem update_of_flies (hflies : turn.bullet.Flies flight) {next : Flight} {step : Flight.Step}
    (hstep : flight.update (turn.bullet.guidance turn.around) turn.bullet.actor.position dt =
      (next, step)) :
    turn.update rules dt =
      ({ turn with bullet := { turn.bullet.older dt with flight := some next } } : Turn).stepped
        rules flight step := by
  have holder : flight.update ((turn.older dt).bullet.guidance (turn.older dt).around)
      (turn.older dt).bullet.actor.position dt = (next, step) := hstep
  rw [turn.update_eq rules dt hflies.phase, hflies.carried]
  dsimp only
  rw [hflies.active]
  exact pursue_eq holder

variable (hrules : ∀ cue turn, Steered turn (rules cue turn))

include hrules

theorem finish_of_steered (hsteered : Steered turn fired) (hactive : turn.bullet.phase = .active)
    (reason : EndReason) :
    fired.finish rules (some reason) = fired.ending rules reason ∧
      turn.bullet.IsOver reason (fired.finish rules (some reason)).bullet := by
  have hphase : fired.bullet.phase = .active := by rw [hsteered.bullet, ← hactive]
  have hends : fired.finish rules (some reason) = fired.ending rules reason := by
    rw [finish_eq, if_pos hphase]
    rfl
  refine ⟨hends, ?_⟩
  rw [hends, ending, tellEnd_bullet, Bullet.IsOver, emit,
    (hrules .bulletEnd (fired.closed (some reason))).bullet,
    closed, hsteered.bullet]

theorem ticked (turn : Turn) (dt : Float32) :
    Ticked rules (turn.bullet.guidance turn.around) dt turn (turn.update rules dt) where
  resting hphase := update_of_not_active rules dt hphase
  aging hactive hnone := by
    rw [turn.update_eq rules dt hactive]
    split
    · rfl
    · rename_i flight hflight
      have hover : flight.active = false := by simpa only [Bullet.isFlying, hflight] using hnone
      rw [hover]
      rfl
  lost flight hflies hlost := by
    rw [update_of_flies hflies (Flight.update_of_lost hflies.active hlost _ dt), stepped]
    intro grounded
    split
    · exact finish_of_steered hrules (Steered.refl grounded) hflies.phase .targetLost
    · rfl
  hit flight target hflies htarget hhit := by
    rw [update_of_flies hflies (Flight.update_of_hit hflies.active htarget hhit dt), stepped]
    intro grounded
    split
    · exact finish_of_steered hrules (hrules .bulletHit grounded) hflies.phase .hit
    · rfl
  clear flight target hflies htarget hclear := by
    have hstep := Flight.update_of_clear hflies.active htarget hclear dt
    refine ⟨_, _, hstep, hflies.active, ?_⟩
    rw [update_of_flies hflies hstep, stepped]
    exact ⟨rfl, hflies.phase, Bullet.position_move _ _⟩

end Turn

end Volley
