import Volley.Proofs.Bullet.Lifecycle

/-!
# The active flag of a bullet

Whether a bullet is under way is kept twice: its phase says so, and so does the flag of its actor. A
bullet sets the flag whenever its phase changes, and leaves it alone otherwise.
-/

namespace Volley

/-- The changes that leave the active flag alone. -/
def Actor.Edit.SparesActivity : Edit → Prop
  | .active _ => False
  | _ => True

theorem Actor.active_edit (actor : Actor) {change : Edit} (hspares : change.SparesActivity) :
    (actor.edit change).active = actor.active := by
  cases change with
  | active value => exact hspares.elim
  | _ => rfl

/-- The flag follows the phase: it says what the phase says once that has
changed, and is the same until then. -/
inductive Bullet.Follows (before after : Bullet) : Prop
  | stays (hphase : after.phase = before.phase) (hflag : after.actor.active = before.actor.active)
  | turns (hage : before.phase.age < after.phase.age) (hflag : after.actor.active = after.isActive)

namespace Bullet

variable {first second third : Bullet}

theorem isActive_congr
    (hphase : second.phase = first.phase) : second.isActive = first.isActive := by
  rw [isActive, isActive, hphase]

theorem Follows.trans (hfirst : Follows first second)
    (hsecond : Follows second third) : Follows first third := by
  cases hfirst with
  | stays hphase hflag =>
      cases hsecond with
      | stays hnext hkept => exact .stays (hnext.trans hphase) (hkept.trans hflag)
      | turns hage hset => exact .turns (hphase ▸ hage) hset
  | turns hage hset =>
      cases hsecond with
      | stays hnext hkept =>
          exact .turns (hnext ▸ hage) (hkept.trans (hset.trans (isActive_congr hnext).symm))
      | turns hlater hreset => exact .turns (Nat.lt_trans hage hlater) hreset

theorem active_move (bullet : Bullet) (displacement : Vec3) :
    (bullet.move displacement).actor.active = bullet.actor.active := by
  rw [move]
  split <;> rfl

end Bullet

namespace Turn

def Follows (before after : Turn) : Prop :=
  before.bullet.Follows after.bullet

theorem Follows.routine : Routine Follows where
  refl _ := .stays rfl rfl
  trans hfirst hsecond := Bullet.Follows.trans hfirst hsecond
  aside _ _ _ := .stays rfl rfl
  launch _ _ := .stays rfl rfl
  advance _ _ _ := .stays rfl rfl
  age _ _ := .stays rfl rfl
  move turn displacement := .stays rfl (turn.bullet.active_move displacement)

theorem Follows.emit (turn : Turn) (event : BulletEvent) : Follows turn (turn.emit event) :=
  .stays rfl rfl

section

variable {fire : Fire} (hfire : ∀ cue turn, Follows turn (fire cue turn)) (turn : Turn)

include hfire

theorem Follows.start {link : Option Link} {started : Turn}
    (hstart : turn.start fire link = .ok started) :
    Follows turn started := by
  rw [start_eq] at hstart
  split at hstart
  · rename_i hpending
    have hopened : Follows turn (turn.opened link) := by
      refine .turns ?_ rfl
      rw [hpending]
      exact Nat.zero_lt_one
    have hfired := Bullet.Follows.trans hopened (hfire .bulletStart (turn.opened link))
    dsimp only at hstart
    split at hstart
    · cases hstart
      exact Bullet.Follows.trans hfired (Follows.emit _ _)
    · cases hstart
      exact hfired
  · cases hstart

theorem Follows.finish (reason : Option EndReason) : Follows turn (turn.finish fire reason) := by
  rw [finish_eq]
  split
  · rename_i hactive
    have hclosed : Follows turn (turn.closed reason) := by
      refine .turns ?_ rfl
      rw [hactive]
      exact Nat.one_lt_two
    have htold : Follows (fire .bulletEnd (turn.closed reason))
        ((fire .bulletEnd (turn.closed reason)).tellEnd reason) := by
      rw [Follows, tellEnd_bullet]
      exact Follows.emit _ _
    exact Bullet.Follows.trans hclosed (Bullet.Follows.trans (hfire .bulletEnd _) htold)
  · exact Follows.routine.refl turn

end

/-- Whatever runs within an operation, only the edits of scripts set the flag to something else. -/
theorem Follows.calls : Call.Keep Actor.Edit.SparesActivity Follows where
  host := Follows.routine.host fun turn _ _ => Follows.emit turn _
  perform {fire} hfire {call} hcall turn := by
    cases call with
    | start link =>
        rw [Call.perform]
        split
        · rename_i hstart
          exact Follows.start hfire turn hstart
        · exact Follows.routine.refl turn
    | update dt =>
        exact Follows.routine.update hfire
          (fun reason turn => Follows.finish hfire turn reason) dt turn
    | finish reason => exact Follows.finish hfire turn reason
    | edit change => exact .stays rfl (turn.bullet.actor.active_edit hcall)
    | fly order => exact Follows.routine.fly turn order
    | damage order => exact Follows.routine.damage turn order
    | _ => exact .stays rfl rfl

end Turn

theorem Shot.perform_follows {shot : Shot} (hbook : shot.book.Within Actor.Edit.SparesActivity)
    (around : Surroundings) {call : Call} (hcall : call.Within Actor.Edit.SparesActivity) :
    shot.bullet.Follows (shot.perform around call).2.1.bullet :=
  Shot.perform_keeps Turn.Follows.calls hbook around hcall

end Volley
