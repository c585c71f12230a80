import Volley.Proofs.Bullet.Lookups

/-!
# Bullets under another index

The index of a world bears on the end of a bullet only through the units that its last rules look
up. The flight is not among them, since a bullet that has ended is not updated. If another index has
the same answers for all these lookups, then the end comes out the same.
-/

namespace Volley

open Lookup (AllBy)

def Surroundings.reindexed (around : Surroundings) (index : ActorIndex) : Surroundings :=
  { around with index }

/-- Contexts are the same under every index, but for the positions of units. -/
theorem Link.context_reindexed (link : Link) (around : Surroundings) (index : ActorIndex) :
    link.context (around.reindexed index) =
      { link.context around with
        unitPosition := (link.context (around.reindexed index)).unitPosition } := by
  cases link with
  | host id => rfl
  | world inner => cases inner <;> rfl

theorem Target.locate_congr {target : Target} {first second : Locator}
    (hsame : ∀ unit ∈ target.unit, first unit = second unit) :
    target.locate first = target.locate second := by
  rw [locate, locate]
  cases hunit : target.unit with
  | none => rfl
  | some unit =>
      rw [Option.bind_some, Option.bind_some, hsame unit hunit]

theorem Flight.launch_congr {plan : FlightPlan} {first second : Locator}
    (hsame : plan.target.locate first = plan.target.locate second) (start : Vec3) :
    launch plan start first = launch plan start second := by
  rw [launch, launch, hsame]

namespace Turn

/-- A bullet in the middle of an operation, with another index from now on. -/
def reindexed (turn : Turn) (index : ActorIndex) : Turn :=
  { turn with around := turn.around.reindexed index }

@[simp]
theorem bullet_reindexed (turn : Turn) (index : ActorIndex) :
    (turn.reindexed index).bullet = turn.bullet := rfl

@[simp]
theorem around_reindexed (turn : Turn) (index : ActorIndex) :
    (turn.reindexed index).around = turn.around.reindexed index := rfl

/-! ## Orders and ends -/

variable {turn : Turn} {index : ActorIndex}

theorem flightTarget_reindexed (turn : Turn) (index : ActorIndex) (order : FlyOrder) :
    turn.bullet.flightTarget (turn.around.reindexed index) order =
      turn.bullet.flightTarget turn.around order := by
  rw [Bullet.flightTarget, Bullet.flightTarget, Bullet.context?, Bullet.context?]
  cases turn.bullet.link with
  | none => rfl
  | some link =>
      rw [Option.map_some, link.context_reindexed]
      rfl

theorem strike_reindexed (turn : Turn) (index : ActorIndex) (order : DamageOrder) (link : Link)
    (target : ActorId) :
    (turn.reindexed index).strike order link target =
      (turn.strike order link target).reindexed index := by
  rw [strike, strike, reindexed, link.context_reindexed]
  dsimp only
  split
  · rfl
  · generalize (link.context turn.around).damage _ = applied
    cases link.host? <;> cases applied <;> rfl

theorem remark_reindexed (turn : Turn) (index : ActorIndex) (remarked : Bool) (notice : Notice) :
    (if remarked then (turn.reindexed index).note notice else turn.reindexed index) =
      (if remarked then turn.note notice else turn).reindexed index := by
  cases remarked <;> rfl

theorem damage_reindexed (turn : Turn) (index : ActorIndex) (order : DamageOrder) :
    (turn.reindexed index).damage order = (turn.damage order).reindexed index := by
  rw [damage, damage, bullet_reindexed, around_reindexed]
  cases turn.bullet.link with
  | none => rfl
  | some link =>
      dsimp only
      split
      · rfl
      · rw [link.context_reindexed]
        dsimp only
        cases (link.context turn.around).defaultUnit with
        | none => rfl
        | some target =>
            dsimp only
            rw [remark_reindexed, remark_reindexed, strike_reindexed]

theorem tellEnd_reindexed (turn : Turn) (index : ActorIndex) (reason : Option EndReason) :
    (turn.reindexed index).tellEnd reason = (turn.tellEnd reason).reindexed index := by
  have hemit : (turn.reindexed index).emit (.ended (turn.reindexed index).bullet.id reason) =
      (turn.emit (.ended turn.bullet.id reason)).reindexed index := rfl
  rw [tellEnd, tellEnd, hemit]
  dsimp only [bullet_reindexed]
  split <;> rfl

/-- A bullet that has ended, and locates units by `sight` under the index. -/
structure Rests (index : ActorIndex) (sight : Locator) (turn : Turn) : Prop where
  ended : turn.bullet.phase = .ended
  locator : turn.bullet.locator (turn.around.reindexed index) = sight

variable {sight : Locator} (hrests : turn.Rests index sight)

include hrests

theorem Rests.abides {after : Turn} (habides : Abides turn after) : after.Rests index sight := by
  obtain ⟨⟨-, told, hcourse, -⟩, haround⟩ := habides
  obtain ⟨-, hended, hlink, -⟩ := hcourse.of_ended hrests.ended
  refine ⟨hended, ?_⟩
  rw [haround, Bullet.locator, hlink]
  exact hrests.locator

theorem Rests.locate_eq {target : Target} (hlookups : AllBy sight (turn.aim target)) :
    target.locate (turn.bullet.locator (turn.around.reindexed index)) =
      target.locate (turn.bullet.locator turn.around) := by
  rw [hrests.locator]
  refine Target.locate_congr fun unit hunit => (hlookups (turn.lookup unit) ?_).symm
  exact List.mem_map_of_mem (Option.mem_toList.mpr hunit)

theorem Rests.fly_reindexed {order : FlyOrder}
    (hlookups : AllBy sight (turn.aim (turn.bullet.flightTarget turn.around order))) :
    (turn.reindexed index).fly order = (turn.fly order).reindexed index := by
  have hlocate := hrests.locate_eq hlookups
  rw [fly, fly, bullet_reindexed, around_reindexed, flightTarget_reindexed]
  dsimp only
  rw [hlocate, Flight.launch_congr hlocate]
  split <;> rfl

/-! ## Calls after the end -/

/-- A bullet that has ended is neither started nor updated nor ended again. -/
theorem Rests.call_reindexed {fire : Fire} {asking : Asking} {call : Call}
    (hlookups : AllBy sight (call.lookups fire asking turn)) :
    call.perform fire (turn.reindexed index) =
      ((call.perform fire turn).1, (call.perform fire turn).2.reindexed index) := by
  have hpending : turn.bullet.phase ≠ .pending := by simp [hrests.ended]
  have hactive : turn.bullet.phase ≠ .active := by simp [hrests.ended]
  cases call with
  | start link =>
      rw [Call.perform, Call.perform, start_eq, start_eq, bullet_reindexed, if_neg hpending,
        if_neg hpending]
  | update dt =>
      rw [Call.perform, Call.perform, update_of_not_active fire dt hactive]
      exact congrArg (Prod.mk Reply.done) (update_of_not_active fire dt hactive)
  | finish reason =>
      rw [Call.perform, Call.perform, finish_eq, finish_eq, bullet_reindexed, if_neg hactive,
        if_neg hactive]
  | fly order => exact congrArg (Prod.mk Reply.done) (hrests.fly_reindexed hlookups)
  | damage order => exact congrArg (Prod.mk Reply.done) (turn.damage_reindexed index order)
  | _ => rfl

variable {fire : Fire} {asking : Asking} (habides : ∀ cue turn, Abides turn (fire cue turn))

include habides

theorem Rests.script_reindexed {script : Script}
    (hlookups : AllBy sight (script.lookups fire asking turn)) :
    script.perform fire (turn.reindexed index) = (script.perform fire turn).reindexed index := by
  induction script generalizing turn with
  | done => rfl
  | call first next ih =>
      obtain ⟨hfirst, hrest⟩ := List.forall_mem_append.mp hlookups
      have hafter := hrests.abides (Abides.calls.perform habides first.within_true turn)
      rw [Script.perform, Script.perform, hrests.call_reindexed hfirst]
      exact ih _ _ hafter hrest

/-- What a program says to a bullet is answered the same under the other index. -/
theorem Rests.answer_reindexed {book : ScriptBook} {said : HostCall}
    (hlookups : AllBy sight (said.lookups (book.lookups fire asking) turn)) :
    said.answer (book.handlers fire) (turn.reindexed index) =
      ((said.answer (book.handlers fire) turn).1,
        (said.answer (book.handlers fire) turn).2.reindexed index) := by
  cases said with
  | unitPosition unit =>
      have hfound : turn.bullet.locator turn.around unit = sight unit :=
        hlookups _ List.mem_cons_self
      exact congrArg (·, turn.reindexed index) ((congrFun hrests.locator unit).trans hfound.symm)
  | fly order => exact congrArg (Prod.mk ()) (hrests.fly_reindexed hlookups)
  | damage order => exact congrArg (Prod.mk ()) (turn.damage_reindexed index order)
  | action name params =>
      rw [HostCall.lookups, ScriptBook.lookups] at hlookups
      rw [HostCall.answer, HostCall.answer, ScriptBook.handlers]
      dsimp only
      cases haction : book.actions.find? name with
      | none => rfl
      | some action =>
          rw [haction] at hlookups
          exact congrArg (Prod.mk ()) (hrests.script_reindexed habides hlookups)
  | condition name params =>
      rw [HostCall.answer, HostCall.answer, ScriptBook.handlers]
      dsimp only
      cases book.conditions.find? name <;> rfl
  | _ => rfl

theorem Rests.dialogue_reindexed {α : Type} {book : ScriptBook} {dialogue : Dialogue α}
    (hlookups : AllBy sight (dialogue.lookups (book.handlers fire)
    (book.lookups fire asking) turn)) :
    (dialogue.play (book.handlers fire) (turn.reindexed index)).host =
      (dialogue.play (book.handlers fire) turn).host.reindexed index := by
  induction dialogue generalizing turn with
  | done value => rfl
  | call said next ih =>
      obtain ⟨hsaid, hrest⟩ := List.forall_mem_append.mp hlookups
      have hanswer := said.answer_keeps Abides.calls.host (Abides.handlers habides book) turn
      have hafter := hrests.abides hanswer
      rw [Dialogue.play, Dialogue.play, hrests.answer_reindexed habides hsaid]
      exact ih _ hafter hrest

end Turn

namespace Shot

variable {index : ActorIndex} {sight : Locator}

/-- The rules of one depth run none of a deeper one, since their bullet has ended. -/
theorem fire_reindexed (program : Program) (book : ScriptBook) (depth : Nat) (cue : Cue)
    {turn : Turn} (hrests : turn.Rests index sight)
    (hlookups : AllBy sight (asking program book depth cue turn)) :
    fire program book depth cue (turn.reindexed index) =
      (fire program book depth cue turn).reindexed index := by
  cases depth with
  | zero => rfl
  | succ depth =>
      rw [fire]
      dsimp only
      rw [Program.run_eq_play, Program.run_eq_play]
      exact hrests.dialogue_reindexed (Turn.Abides.fire program book depth) hlookups

/-- The end of a bullet cannot tell two indices apart that have the same answers for its lookups. -/
theorem finish_reindexed {shot : Shot} {around : Surroundings} {reason : Option EndReason}
    (hlookups : AllBy (shot.bullet.locator (around.reindexed index))
    (shot.lookups around (.finish reason))) :
    shot.perform (around.reindexed index) (.finish reason) =
      shot.perform around (.finish reason) := by
  rw [perform, perform, Call.perform, Call.perform, Turn.finish_eq, Turn.finish_eq]
  dsimp only
  split
  · rename_i hactive
    rw [lookups, Call.lookups, Turn.askFinish, if_pos hactive] at hlookups
    have hrests : (Turn.closed ⟨shot.bullet, around, []⟩ reason).Rests index
      (shot.bullet.locator (around.reindexed index)) := ⟨rfl, rfl⟩
    have hrules := fire_reindexed shot.program shot.book nesting .bulletEnd hrests hlookups
    have hclosed : Turn.closed ⟨shot.bullet, around.reindexed index, []⟩ reason =
        (Turn.closed ⟨shot.bullet, around, []⟩ reason).reindexed index := rfl
    rw [hclosed, hrules, Turn.tellEnd_reindexed]
    rfl
  · rfl

end Shot

end Volley
