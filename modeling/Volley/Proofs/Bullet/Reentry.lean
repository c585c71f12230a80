import Volley.Proofs.Bullet.Lifecycle
import Volley.Proofs.Table

/-!
# Calls from within rules

Rules run only when their bullet has been started, so no script can start it. Each call to do so is
refused, and a script might as well leave it out and go on as if it had been refused. So the one
start that a bullet may have is a call from outside.
-/

namespace Volley

open Effect (milestones)

/-- A script that leaves out its calls to start the bullet, and goes on as if
they had been refused. -/
def Script.withoutStarts : Script → Bullet → Script
  | .done, _ => .done
  | .call first next, bullet =>
      if first.isStart then
        (next (.refused (.invalidTransition bullet.id bullet.phase)) bullet).withoutStarts bullet
      else .call first fun reply after => (next reply after).withoutStarts after

def ScriptBook.withoutStarts (book : ScriptBook) : ScriptBook :=
  { book with
    actions := book.actions.mapValues fun action params bullet =>
      (action params bullet).withoutStarts bullet }

section

variable {fire other : Turn.Fire}
  (hagree : ∀ cue turn, turn.bullet.phase ≠ .pending → fire cue turn = other cue turn)

include hagree

theorem Turn.finish_congr (turn : Turn) (reason : Option EndReason) :
    turn.finish fire reason = turn.finish other reason := by
  have hrules := hagree .bulletEnd (turn.closed reason) fun hpending => by cases hpending
  rw [finish_eq, finish_eq, hrules]

theorem Turn.pursue_congr {turn : Turn} (hactive : turn.bullet.phase = .active) (flight : Flight)
    (dt : Float32) :
    turn.pursue fire flight dt = turn.pursue other flight dt := by
  have hrules : ∀ flight, fire .bulletHit { turn with bullet := { turn.bullet with flight } } =
      other .bulletHit { turn with bullet := { turn.bullet with flight } } :=
    fun flight => hagree .bulletHit _ (by simp [hactive])
  rw [pursue, pursue]
  obtain ⟨next, step⟩ := flight.update (turn.bullet.guidance turn.around)
    turn.bullet.actor.position dt
  dsimp only
  cases step with
  | hit =>
      dsimp only
      rw [hrules, finish_congr hagree]
  | targetLost =>
      dsimp only
      rw [finish_congr hagree]
  | _ => rfl

/-- An operation runs rules only when the bullet has been started. -/
theorem Call.perform_congr (call : Call) (turn : Turn) :
    call.perform fire turn = call.perform other turn := by
  cases call with
  | start link =>
      have hrules := hagree .bulletStart (turn.opened link) fun hpending => by cases hpending
      rw [perform, perform, Turn.start_eq, Turn.start_eq, hrules]
  | update dt =>
      rw [perform, perform]
      by_cases hactive : turn.bullet.phase = .active
      · rw [turn.update_eq fire dt hactive, turn.update_eq other dt hactive]
        split
        · rfl
        · rename_i flight hflight
          have holder : (turn.older dt).bullet.phase = .active := hactive
          rw [Turn.pursue_congr hagree holder]
      · rw [Turn.update_of_not_active fire dt hactive, Turn.update_of_not_active other dt hactive]
  | finish reason => rw [perform, perform, turn.finish_congr hagree]
  | _ => rfl

variable (hother : ∀ cue turn, Turn.Lives turn (other cue turn))

include hother

theorem Script.perform_withoutStarts (script : Script) {turn : Turn}
    (hbegun : turn.bullet.phase ≠ .pending) :
    script.perform fire turn = (script.withoutStarts turn.bullet).perform other turn := by
  induction script generalizing turn with
  | done => rfl
  | call first next ih =>
      rw [perform, withoutStarts, first.perform_congr hagree]
      by_cases hstart : first.isStart
      · have hrefused : first.perform other turn =
            (.refused (.invalidTransition turn.bullet.id turn.bullet.phase), turn) := by
          cases first with
          | start link => rw [Call.perform, Turn.start_eq, if_neg hbegun]
          | _ => cases hstart
        rw [if_pos hstart, hrefused]
        exact ih _ _ hbegun
      · have hlives : turn.Lives (first.perform other turn).2 :=
          Turn.Lives.calls.perform hother first.within_true turn
        rw [if_neg hstart, perform]
        exact ih _ _ (hlives.begun hbegun)

theorem ScriptBook.agree_withoutStarts (book : ScriptBook) :
    (book.handlers fire).Agree
      (fun turn => turn.bullet.phase ≠ .pending) (book.withoutStarts.handlers other) := by
  refine ⟨rfl, fun name => ?_⟩
  change Option.Rel _ ((book.actions.find? name).map _)
    (((book.actions.mapValues _).find? name).map _)
  rw [Table.find?_mapValues]
  cases book.actions.find? name with
  | none => exact .none
  | some action =>
      refine .some fun params turn hbegun => ⟨?_, ?_⟩
      · exact (action params turn.bullet).perform_withoutStarts hagree hother hbegun
      · exact (Script.perform_keeps Turn.Lives.calls hother (Script.within_true _)
          turn).begun hbegun

end

namespace Shot

theorem keeps_begun : TriggerHost.Keeps fun before after : Turn =>
    before.bullet.phase ≠ .pending → after.bullet.phase ≠ .pending where
  refl _ hbegun := hbegun
  trans hfirst hsecond hbegun := hsecond (hfirst hbegun)
  orderFlight order turn := (Turn.Lives.calls.host.orderFlight order turn).begun
  orderDamage order turn := (Turn.Lives.calls.host.orderDamage order turn).begun
  note notice turn := (Turn.Lives.calls.host.note notice turn).begun
  announce segment cue turn := (Turn.Lives.calls.host.announce segment cue turn).begun

/-- By induction on the depth, since the scripts of one depth run their rules one deeper. -/
theorem fire_withoutStarts (program : Program) (book : ScriptBook) (depth : Nat) (cue : Cue)
    {turn : Turn} (hbegun : turn.bullet.phase ≠ .pending) :
    fire program book depth cue turn = fire program book.withoutStarts depth cue turn := by
  induction depth generalizing cue turn with
  | zero => rfl
  | succ depth ih =>
      have hlives := Turn.Lives.fire program book.withoutStarts depth
      have hagree := book.agree_withoutStarts (fun cue turn hbegun => ih cue hbegun) hlives
      exact congrArg Prod.snd (Program.run_eq keeps_begun hagree hbegun program cue)

/-- However scripts call the operations of their bullet from within its rules, every call finds
and leaves the bullet somewhere in its life, and a script is never granted a start. The life as
a whole is told once: that it has started, unless it had ended by then, and that it has ended,
with the reason of the first end. -/
theorem lifecycle_of_calls (program : Program) (book : ScriptBook) :
    (∀ depth call turn, Call.Orderly (fire program book depth) call turn ∧
        call.perform (fire program book depth) turn =
          call.perform (fire program book.withoutStarts depth) turn) ∧
      ∀ id blueprint faction position emitter calls,
        let shot : Shot := { bullet := { Bullet.create id blueprint faction position with emitter }, program, book }
        (shot.performAll calls).2.1.bullet.Lived (milestones id (shot.performAll calls).2.2) ∧
          granted calls (shot.performAll calls).1 ≤ 1 := by
  refine ⟨fun depth call turn =>
    ⟨Call.orderly (Turn.Lives.fire program book depth) call turn, ?_⟩, ?_⟩
  · exact call.perform_congr (fun cue turn => fire_withoutStarts program book depth cue) turn
  intro id blueprint faction position emitter calls shot
  have hid : shot.bullet.id = id := Actor.editAll_id _ _
  obtain ⟨hlast, hcourse⟩ := shot.performAll_lives calls
  refine ⟨?_, shot.granted_le_one calls⟩
  rw [← hid]
  exact hcourse.lived hlast rfl

end Shot

end Volley
