import Volley.Proofs.Bullet.Life
import Volley.Proofs.Emitter

/-!
# The life of a bullet

Scripts may start, update and end a bullet while its rules run, so these operations nest in each
other at any depth. What a bullet goes through while an operation is under way depends only on the
phase before and the phase after, and so does what is told about it. Such courses join, and every
operation keeps to one, whatever runs within it.
-/

namespace Volley

open Effect (publics milestones)

/-- Calls that leave a bullet where it is in its life and publish nothing. -/
def Call.isOrder : Call → Bool
  | .start _ | .update _ | .finish _ | .announce _ _ => false
  | _ => true

def Call.isStart : Call → Bool
  | .start _ => true
  | _ => false

namespace Phase

/-- The phases in the order in which a bullet goes through them. -/
def age : Phase → Nat
  | .pending => 0
  | .active => 1
  | .ended => 2

end Phase

namespace Bullet

/-- What is told when a bullet has started. -/
def greeting (bullet : Bullet) : Effect :=
  .emitted (.started bullet.id)

/-- What is told when a bullet has ended: first that it has, and then to the host of its context. -/
def farewell (bullet : Bullet) : List Effect :=
  .emitted (.ended bullet.id bullet.endReason) ::
    (bullet.link.bind Link.host?).toList.map
      fun host => .endReported host bullet.id bullet.endReason

/-- How a bullet goes on, with what is told meanwhile. -/
inductive Course (before after : Bullet) : List Effect → Prop
  | stays (hphase : after.phase = before.phase) (hlink : after.link = before.link)
      (hreason : after.endReason = before.endReason) : Course before after []
  | starts (hpending : before.phase = .pending) (hactive : after.phase = .active) :
      Course before after [before.greeting]
  | ends (hactive : before.phase = .active) (hended : after.phase = .ended)
      (hlink : after.link = before.link) :
      Course before after after.farewell
  | passes (hpending : before.phase = .pending) (hended : after.phase = .ended)
      {started : List Effect}
      (hstarted : started.Sublist [before.greeting]) :
        Course before after (started ++ after.farewell)

/-- What has been told of a bullet since it was created. -/
inductive Lived (bullet : Bullet) : List Effect → Prop
  | pending (hphase : bullet.phase = .pending) : Lived bullet []
  | active (hphase : bullet.phase = .active) : Lived bullet [bullet.greeting]
  | ended (hphase : bullet.phase = .ended) {started : List Effect}
      (hstarted : started.Sublist [bullet.greeting]) :
      Lived bullet (started ++ bullet.farewell)

variable {first second third before after : Bullet} {told more : List Effect}

theorem greeting_eq (hid : after.id = before.id) : after.greeting = before.greeting := by
  rw [greeting, greeting, hid]

theorem farewell_eq (hid : after.id = before.id) (hlink : after.link = before.link)
    (hreason : after.endReason = before.endReason) : after.farewell = before.farewell := by
  rw [farewell, farewell, hid, hlink, hreason]

theorem milestones_greeting (hid : after.id = before.id) :
    milestones before.id [after.greeting] = [after.greeting] := by
  simp [milestones, greeting, Effect.isMilestone, hid]

theorem milestones_farewell (hid : after.id = before.id) :
    milestones before.id after.farewell = after.farewell := by
  refine List.filter_eq_self.mpr fun effect heffect => ?_
  rcases List.mem_cons.mp heffect with rfl | hreport
  · exact decide_eq_true hid
  · obtain ⟨host, -, rfl⟩ := List.mem_map.mp hreport
    exact decide_eq_true hid

theorem Course.refl (bullet : Bullet) : Course bullet bullet [] :=
  .stays rfl rfl rfl

/-- Courses join. A bullet that has ended has nowhere to go. -/
theorem Course.trans (hstep : second.id = first.id) (hlast : third.id = second.id)
    (hfirst : Course first second told)
    (hsecond : Course second third more) : Course first third (told ++ more) := by
  cases hfirst with
  | stays hphase hlink hreason =>
      rw [List.nil_append]
      cases hsecond with
      | stays hnext hkept hsame =>
          exact .stays (hnext.trans hphase) (hkept.trans hlink) (hsame.trans hreason)
      | starts hpending hactive =>
          rw [greeting_eq hstep]
          exact .starts (hphase.symm.trans hpending) hactive
      | ends hactive hended hkept =>
          exact .ends (hphase.symm.trans hactive) hended (hkept.trans hlink)
      | passes hpending hended hstarted =>
          rw [greeting_eq hstep] at hstarted
          exact .passes (hphase.symm.trans hpending) hended hstarted
  | starts hpending hactive =>
      cases hsecond with
      | stays hnext hkept hsame =>
          rw [List.append_nil]
          exact .starts hpending (hnext.trans hactive)
      | starts hstill => exact nomatch hactive.symm.trans hstill
      | ends hstill hended hkept => exact .passes hpending hended (List.Sublist.refl _)
      | passes hstill => exact nomatch hactive.symm.trans hstill
  | ends hactive hended hlink =>
      cases hsecond with
      | stays hnext hkept hsame =>
          rw [List.append_nil, ← farewell_eq hlast hkept hsame]
          exact .ends hactive (hnext.trans hended) (hkept.trans hlink)
      | starts hstill => exact nomatch hended.symm.trans hstill
      | ends hstill => exact nomatch hended.symm.trans hstill
      | passes hstill => exact nomatch hended.symm.trans hstill
  | passes hpending hended hstarted =>
      cases hsecond with
      | stays hnext hkept hsame =>
          rw [List.append_nil, ← farewell_eq hlast hkept hsame]
          exact .passes hpending (hnext.trans hended) hstarted
      | starts hstill => exact nomatch hended.symm.trans hstill
      | ends hstill => exact nomatch hended.symm.trans hstill
      | passes hstill => exact nomatch hended.symm.trans hstill

theorem Course.age_le
    (hcourse : Course before after told) : before.phase.age ≤ after.phase.age := by
  cases hcourse with
  | stays hphase => exact Nat.le_of_eq (congrArg Phase.age hphase.symm)
  | starts hpending => simp [hpending, Phase.age]
  | ends hactive hended => simp [hactive, hended, Phase.age]
  | passes hpending => simp [hpending, Phase.age]

/-- Once a bullet has started it keeps its context. -/
theorem Course.link_eq (hcourse : Course before after told) (hbegun : before.phase ≠ .pending) :
    after.link = before.link := by
  cases hcourse with
  | stays hphase hlink hreason => exact hlink
  | starts hpending => exact (hbegun hpending).elim
  | ends hactive hended hlink => exact hlink
  | passes hpending => exact (hbegun hpending).elim

theorem Course.begun (hcourse : Course before after told) (hbegun : before.phase ≠ .pending) :
    after.phase ≠ .pending := by
  cases hcourse with
  | stays hphase => rwa [hphase]
  | starts hpending => exact (hbegun hpending).elim
  | ends hactive hended => simp [hended]
  | passes hpending => exact (hbegun hpending).elim

/-- An ended bullet stays as it is, and nothing more is told. -/
theorem Course.of_ended (hcourse : Course before after told) (hended : before.phase = .ended) :
    told = [] ∧ after.phase = .ended ∧ after.link = before.link ∧
      after.endReason = before.endReason := by
  cases hcourse with
  | stays hphase hlink hreason => exact ⟨rfl, hphase.trans hended, hlink, hreason⟩
  | starts hpending => exact nomatch hended.symm.trans hpending
  | ends hactive => exact nomatch hended.symm.trans hactive
  | passes hpending => exact nomatch hended.symm.trans hpending

/-- While a bullet is under way either nothing is told, or it ends. -/
theorem Course.of_active (hcourse : Course before after told) (hactive : before.phase = .active) :
    after.link = before.link ∧
      (after.phase = .active ∧ told = [] ∨ after.phase = .ended ∧ told = after.farewell) := by
  cases hcourse with
  | stays hphase hlink hreason => exact ⟨hlink, Or.inl ⟨hphase.trans hactive, rfl⟩⟩
  | starts hpending => exact nomatch hactive.symm.trans hpending
  | ends hstill hended hlink => exact ⟨hlink, Or.inr ⟨hended, rfl⟩⟩
  | passes hpending => exact nomatch hactive.symm.trans hpending

theorem Course.lived (hcourse : Course before after told) (hid : after.id = before.id)
    (hpending : before.phase = .pending) : after.Lived told := by
  cases hcourse with
  | stays hphase => exact .pending (hphase.trans hpending)
  | starts hstill hactive =>
      rw [← greeting_eq hid]
      exact .active hactive
  | ends hactive => exact nomatch hpending.symm.trans hactive
  | passes hstill hended hstarted =>
      rw [← greeting_eq hid] at hstarted
      exact .ended hended hstarted

theorem id_move (bullet : Bullet) (displacement : Vec3) :
    (bullet.move displacement).id = bullet.id := by
  rw [move]
  split
  · exact (Actor.edit_id _ _).trans (Actor.edit_id _ _)
  · exact Actor.edit_id _ _

theorem emitter_move (bullet : Bullet) (displacement : Vec3) :
    (bullet.move displacement).emitter = bullet.emitter := by
  rw [move]

end Bullet

namespace Turn

/-- A bullet is where it was in its life, and just that has been told. -/
structure Speaks (told : List Effect) (before after : Turn) : Prop where
  id : after.bullet.id = before.bullet.id
  phase : after.bullet.phase = before.bullet.phase
  link : after.bullet.link = before.bullet.link
  reason : after.bullet.endReason = before.bullet.endReason
  told : publics after.effects = publics before.effects ++ told

theorem Speaks.trans {told more : List Effect} {first second third : Turn}
    (hfirst : Speaks told first second)
    (hsecond : Speaks more second third) : Speaks (told ++ more) first third where
  id := hsecond.id.trans hfirst.id
  phase := hsecond.phase.trans hfirst.phase
  link := hsecond.link.trans hfirst.link
  reason := hsecond.reason.trans hfirst.reason
  told := by rw [hsecond.told, hfirst.told, List.append_assoc]

theorem Speaks.quiet {before after : Turn} (hid : after.bullet.id = before.bullet.id)
    (hphase : after.bullet.phase = before.bullet.phase)
    (hlink : after.bullet.link = before.bullet.link)
    (hreason : after.bullet.endReason = before.bullet.endReason)
    (htold : publics after.effects = publics before.effects) : Speaks [] before after :=
  ⟨hid, hphase, hlink, hreason, by rw [htold, List.append_nil]⟩

theorem publics_record_of_aside (turn : Turn) {id : ActorId} {effect : Effect}
    (haside : effect.Aside id) :
    publics (turn.record effect).effects = publics turn.effects := by
  rw [record, Effect.publics_append]
  cases effect with
  | noticed notice => exact List.append_nil _
  | damageCaused host request applied => exact List.append_nil _
  | _ => exact haside.elim

theorem Speaks.routine : Routine (Speaks []) where
  refl _ := .quiet rfl rfl rfl rfl rfl
  trans hfirst hsecond := hfirst.trans hsecond
  aside turn _ haside := .quiet rfl rfl rfl rfl (turn.publics_record_of_aside haside)
  launch _ _ := .quiet rfl rfl rfl rfl rfl
  advance _ _ _ := .quiet rfl rfl rfl rfl rfl
  age _ _ := .quiet rfl rfl rfl rfl rfl
  move turn displacement := .quiet (turn.bullet.id_move displacement) rfl rfl rfl rfl

theorem publics_emit (turn : Turn) (event : BulletEvent) :
    publics (turn.emit event).effects = publics turn.effects ++ [.emitted event] := by
  have hreactions : publics (turn.bullet.emitter.emit event).2 = [] :=
    Effect.publics_reactions fun _ => Emitter.isReaction_of_mem_emit
  rw [emit, Effect.publics_append]
  exact congrArg (fun reactions => publics turn.effects ++ .emitted event :: reactions) hreactions

theorem Speaks.announce (turn : Turn) (segment : UInt32) (cue : Cue) :
    Speaks [.emitted (.ruleFired turn.bullet.id segment cue)] turn
      (turn.emit (.ruleFired turn.bullet.id segment cue)) :=
  ⟨rfl, rfl, rfl, rfl, turn.publics_emit _⟩

/-- A bullet has gone on, and just that has been told of its life. -/
structure Lives (before after : Turn) : Prop where
  id : after.bullet.id = before.bullet.id
  course : ∃ told, before.bullet.Course after.bullet told ∧
    milestones before.bullet.id after.effects = milestones before.bullet.id before.effects ++ told

theorem Lives.begun {before after : Turn} (hlives : Lives before after)
    (hbegun : before.bullet.phase ≠ .pending) :
    after.bullet.phase ≠ .pending := by
  obtain ⟨told, hcourse, -⟩ := hlives.course
  exact hcourse.begun hbegun

theorem Lives.trans {first second third : Turn} (hfirst : Lives first second)
    (hsecond : Lives second third) :
    Lives first third := by
  obtain ⟨hid, told, hcourse, htold⟩ := hfirst
  obtain ⟨hlast, more, hnext, hmore⟩ := hsecond
  refine ⟨hlast.trans hid, told ++ more, hcourse.trans hid hlast hnext, ?_⟩
  rw [hid] at hmore
  rw [hmore, htold, List.append_assoc]

theorem Speaks.lives {told : List Effect} {before after : Turn} (hspeaks : Speaks told before after)
    (hquiet : milestones before.bullet.id told = []) : Lives before after := by
  refine ⟨hspeaks.id, [], .stays hspeaks.phase hspeaks.link hspeaks.reason, ?_⟩
  rw [← Effect.milestones_publics, hspeaks.told, Effect.milestones_append,
    Effect.milestones_publics, hquiet]

theorem Lives.refl (turn : Turn) : Lives turn turn :=
  (Speaks.routine.refl turn).lives rfl

theorem Lives.routine : Routine Lives where
  refl := Lives.refl
  trans := Lives.trans
  aside turn effect haside := (Speaks.routine.aside turn effect haside).lives rfl
  launch turn flight := (Speaks.routine.launch turn flight).lives rfl
  advance turn next hflight := (Speaks.routine.advance turn next hflight).lives rfl
  age turn elapsed := (Speaks.routine.age turn elapsed).lives rfl
  move turn displacement := (Speaks.routine.move turn displacement).lives rfl

/-! ## Starting and ending -/

/-- A bullet that has just been started, before any rule has run. -/
def opened (turn : Turn) (link : Option Link) : Turn :=
  { turn with
    bullet := { turn.bullet with
      link, elapsed := 0, phase := .active, actor := turn.bullet.actor.edit (.active true) } }

/-- A bullet that has just ended, before any rule has run. -/
def closed (turn : Turn) (reason : Option EndReason) : Turn :=
  { turn with
    bullet := { turn.bullet with
      phase := .ended, actor := turn.bullet.actor.edit (.active false), endReason := reason } }

/-- The end of a bullet is told to its listeners and to the host. -/
def tellEnd (turn : Turn) (reason : Option EndReason) : Turn :=
  let told := turn.emit (.ended turn.bullet.id reason)
  match told.bullet.link.bind Link.host? with
  | some host => told.record (.endReported host told.bullet.id reason)
  | none => told

theorem start_eq (turn : Turn) (fire : Fire) (link : Option Link) :
    turn.start fire link =
      if turn.bullet.phase = .pending then
        let fired := fire .bulletStart (turn.opened link)
        .ok (if fired.bullet.phase = .active then fired.emit (.started fired.bullet.id) else fired)
      else .error (.invalidTransition turn.bullet.id turn.bullet.phase) := by
  rw [start, ite_not]
  split
  · exact (apply_ite Except.ok _ _ _).symm
  · rfl

theorem finish_eq (turn : Turn) (fire : Fire) (reason : Option EndReason) :
    turn.finish fire reason =
      if turn.bullet.phase = .active then (fire .bulletEnd (turn.closed reason)).tellEnd reason
        else turn := by
  rw [finish, ite_not]
  rfl

theorem tellEnd_bullet (turn : Turn) (reason : Option EndReason) :
    (turn.tellEnd reason).bullet = (turn.emit (.ended turn.bullet.id reason)).bullet := by
  rw [tellEnd]
  split <;> rfl

theorem publics_tellEnd (turn : Turn) :
    publics (turn.tellEnd turn.bullet.endReason).effects = publics turn.effects ++
      turn.bullet.farewell := by
  have hemitted := turn.publics_emit (.ended turn.bullet.id turn.bullet.endReason)
  have hlink : (turn.emit (.ended turn.bullet.id turn.bullet.endReason)).bullet.link =
      turn.bullet.link := rfl
  rw [tellEnd, Bullet.farewell, hlink]
  cases turn.bullet.link.bind Link.host? with
  | none => exact hemitted
  | some host =>
      dsimp only
      rw [record, Effect.publics_append, hemitted, List.append_assoc]
      rfl

theorem milestones_tellEnd (turn : Turn) :
    milestones turn.bullet.id (turn.tellEnd turn.bullet.endReason).effects =
      milestones turn.bullet.id turn.effects ++ turn.bullet.farewell := by
  rw [← Effect.milestones_publics, publics_tellEnd, Effect.milestones_append,
    Effect.milestones_publics,
    Bullet.milestones_farewell rfl]

section

variable {fire : Fire} (hfire : ∀ cue turn, Lives turn (fire cue turn)) (turn : Turn)

include hfire

theorem Lives.finish (reason : Option EndReason) : Lives turn (turn.finish fire reason) := by
  rw [finish_eq]
  split
  · rename_i hactive
    have hid : (turn.closed reason).bullet.id = turn.bullet.id := turn.bullet.actor.edit_id _
    obtain ⟨hsame, told, hcourse, hquiet⟩ := hfire .bulletEnd (turn.closed reason)
    generalize fire .bulletEnd (turn.closed reason) = fired at *
    obtain ⟨rfl, hended, hlink, rfl⟩ := hcourse.of_ended rfl
    refine ⟨?_, (fired.tellEnd fired.bullet.endReason).bullet.farewell, ?_, ?_⟩
    · rw [tellEnd_bullet]
      exact hsame.trans hid
    · refine .ends hactive ?_ ?_
      · rw [tellEnd_bullet]
        exact hended
      · rw [tellEnd_bullet]
        exact hlink
    · have hfarewell : (fired.tellEnd fired.bullet.endReason).bullet.farewell =
          fired.bullet.farewell := by
        rw [tellEnd_bullet]
        rfl
      have htelling := fired.milestones_tellEnd
      rw [hsame, hid] at htelling
      rw [htelling, hfarewell]
      rw [hid, List.append_nil] at hquiet
      rw [hquiet]
      rfl
  · exact .refl turn

theorem Lives.start {link : Option Link} {started : Turn}
    (hstart : turn.start fire link = .ok started) :
    Lives turn started ∧ started.bullet.phase ≠ .pending ∧ started.bullet.link = link := by
  rw [start_eq] at hstart
  split at hstart
  · rename_i hpending
    have hid : (turn.opened link).bullet.id = turn.bullet.id := turn.bullet.actor.edit_id _
    obtain ⟨hsame, told, hcourse, hquiet⟩ := hfire .bulletStart (turn.opened link)
    obtain ⟨hlink, hcases⟩ := hcourse.of_active rfl
    dsimp only at hstart
    generalize fire .bulletStart (turn.opened link) = fired at *
    rcases hcases with ⟨hactive, rfl⟩ | ⟨hended, rfl⟩
    · rw [if_pos hactive] at hstart
      cases hstart
      have hstarts : turn.bullet.Course (fired.emit (.started fired.bullet.id)).bullet
          [turn.bullet.greeting] :=
        .starts hpending hactive
      refine ⟨⟨hsame.trans hid, _, hstarts, ?_⟩, ?_, hlink⟩
      · rw [hid, List.append_nil] at hquiet
        rw [← Effect.milestones_publics, publics_emit, Effect.milestones_append,
          Effect.milestones_publics,
          hquiet, hsame, hid]
        exact congrArg _ (Bullet.milestones_greeting rfl)
      · rw [show (fired.emit _).bullet.phase = .active from hactive]
        simp
    · have hnot : fired.bullet.phase ≠ .active := by simp [hended]
      rw [if_neg hnot] at hstart
      cases hstart
      have hpasses : turn.bullet.Course started.bullet ([] ++ started.bullet.farewell) :=
        .passes hpending hended (List.nil_sublist _)
      refine ⟨⟨hsame.trans hid, _, hpasses, ?_⟩, by simp [hended], hlink⟩
      rw [hid] at hquiet
      exact hquiet
  · cases hstart

end

theorem update_of_not_active {turn : Turn} (fire : Fire) (dt : Float32)
    (hphase : turn.bullet.phase ≠ .active) :
    turn.update fire dt = turn := by
  rw [update, if_pos hphase]

theorem Speaks.order (fire : Fire) {call : Call} (hcall : call.isOrder) (turn : Turn) :
    Speaks [] turn (call.perform fire turn).2 := by
  cases call with
  | edit change => exact .quiet (turn.bullet.actor.edit_id change) rfl rfl rfl rfl
  | fly order => exact Speaks.routine.fly turn order
  | damage order => exact Speaks.routine.damage turn order
  | on kind respond => exact .quiet rfl rfl rfl rfl rfl
  | off kind listener =>
      refine .quiet rfl rfl rfl rfl ?_
      rw [Call.perform, Effect.publics_append]
      split
      · exact List.append_nil _
      · exact List.append_nil _
  | signal value =>
      refine .quiet rfl rfl rfl rfl ?_
      rw [Call.perform, record, Effect.publics_append]
      exact List.append_nil _
  | _ => cases hcall

theorem Lives.announce (turn : Turn) (segment : UInt32) (cue : Cue) :
    Lives turn (turn.emit (.ruleFired turn.bullet.id segment cue)) :=
  (Speaks.announce turn segment cue).lives rfl

theorem Lives.calls : Call.Keep (fun _ => True) Lives where
  host := Lives.routine.host Lives.announce
  perform {fire} hfire {call} _ turn := by
    cases call with
    | start link =>
        rw [Call.perform]
        split
        · rename_i started hstart
          exact (Lives.start hfire turn hstart).1
        · exact .refl turn
    | update dt =>
        exact Lives.routine.update hfire (fun reason turn => Lives.finish hfire turn reason) dt turn
    | finish reason => exact Lives.finish hfire turn reason
    | announce segment cue => exact Lives.announce turn segment cue
    | _ => exact (Speaks.order fire rfl turn).lives rfl

theorem Lives.fire (program : Program) (book : ScriptBook) (depth : Nat) (cue : Cue) (turn : Turn) :
    Lives turn (Shot.fire program book depth cue turn) :=
  Shot.fire_keeps Lives.calls program book.within_true depth cue turn

end Turn

/-! ## Calls, at any depth -/

/-- What a call does to the life of a bullet, whatever the rules do that run within it. -/
structure Call.Orderly (fire : Turn.Fire) (call : Call) (turn : Turn) : Prop where
  lives : turn.Lives (call.perform fire turn).2
  forward : turn.bullet.phase.age ≤ (call.perform fire turn).2.bullet.phase.age
  bound : turn.bullet.phase ≠ .pending → (call.perform fire turn).2.bullet.link = turn.bullet.link
  settled : turn.bullet.phase = .ended → (call.perform fire turn).2.bullet.phase = .ended ∧
    (call.perform fire turn).2.bullet.endReason = turn.bullet.endReason
  start : ∀ link, call = .start link →
    if turn.bullet.phase = .pending then
      (call.perform fire turn).1 = .done ∧ (call.perform fire turn).2.bullet.phase ≠ .pending ∧
        (call.perform fire turn).2.bullet.link = link
    else call.perform fire turn =
      (.refused (.invalidTransition turn.bullet.id turn.bullet.phase), turn)
  finish : ∀ reason, call = .finish reason →
    if turn.bullet.phase = .active then
      (call.perform fire turn).2.bullet.phase = .ended ∧
        (call.perform fire turn).2.bullet.endReason = reason
    else call.perform fire turn = (.done, turn)
  update : ∀ dt, call = .update dt → turn.bullet.phase ≠ .active →
    call.perform fire turn = (.done, turn)

section

variable {fire : Turn.Fire} (hfire : ∀ cue turn, Turn.Lives turn (fire cue turn))

include hfire

theorem Turn.finish_ended {turn : Turn} (hactive : turn.bullet.phase = .active)
    (reason : Option EndReason) :
    (turn.finish fire reason).bullet.phase = .ended ∧
      (turn.finish fire reason).bullet.endReason = reason := by
  obtain ⟨told, hcourse, -⟩ := (hfire .bulletEnd (turn.closed reason)).course
  obtain ⟨-, hended, -, hreason⟩ := hcourse.of_ended rfl
  rw [Turn.finish_eq, if_pos hactive, Turn.tellEnd_bullet]
  exact ⟨hended, hreason⟩

theorem Call.orderly (call : Call) (turn : Turn) : call.Orderly fire turn := by
  have hlives : turn.Lives (call.perform fire turn).2 :=
    Turn.Lives.calls.perform hfire call.within_true turn
  obtain ⟨told, hcourse, -⟩ := hlives.course
  refine ⟨hlives, hcourse.age_le, hcourse.link_eq, fun hended => ?_, ?_, ?_, ?_⟩
  · obtain ⟨-, hphase, -, hreason⟩ := hcourse.of_ended hended
    exact ⟨hphase, hreason⟩
  · rintro link rfl
    rw [Call.perform]
    split
    · rename_i hpending
      cases hstart : turn.start fire link with
      | ok started => exact ⟨rfl, (Turn.Lives.start hfire turn hstart).2⟩
      | error refusal =>
          rw [Turn.start_eq, if_pos hpending] at hstart
          cases hstart
    · rename_i hbegun
      rw [Turn.start_eq, if_neg hbegun]
  · rintro reason rfl
    split
    · rename_i hactive
      exact Turn.finish_ended hfire hactive reason
    · rename_i hphase
      rw [Call.perform, Turn.finish_eq, if_neg hphase]
  · rintro dt rfl hphase
    rw [Call.perform, Turn.update_of_not_active fire dt hphase]

end

/-! ## Calls from outside, one after the other -/

namespace Shot

/-- Performs operations from outside in turn, with the replies and all effects. -/
def performAll (shot : Shot) : List (Surroundings × Call) → List Reply × Shot × List Effect
  | [] => ([], shot, [])
  | (around, call) :: rest =>
      let (reply, next, first) := shot.perform around call
      let (replies, last, effects) := next.performAll rest
      (reply :: replies, last, first ++ effects)

theorem performAll_cons (shot : Shot) (around : Surroundings) (call : Call)
    (rest : List (Surroundings × Call)) :
    shot.performAll ((around, call) :: rest) =
      ((shot.perform around call).1 :: ((shot.perform around call).2.1.performAll rest).1,
        ((shot.perform around call).2.1.performAll rest).2.1,
        (shot.perform around call).2.2 ++ ((shot.perform around call).2.1.performAll rest).2.2) :=
          rfl

theorem perform_orderly (shot : Shot) (around : Surroundings) (call : Call) :
    call.Orderly (fire shot.program shot.book nesting) ⟨shot.bullet, around, []⟩ :=
  Call.orderly (Turn.Lives.fire _ _ _) call _

/-- Whatever is called from outside, the bullet goes on, and what is told of its life tells how. -/
theorem performAll_lives (shot : Shot) (calls : List (Surroundings × Call)) :
    (shot.performAll calls).2.1.bullet.id = shot.bullet.id ∧
      shot.bullet.Course (shot.performAll calls).2.1.bullet
        (milestones shot.bullet.id (shot.performAll calls).2.2) := by
  induction calls generalizing shot with
  | nil => exact ⟨rfl, .refl shot.bullet⟩
  | cons made rest ih =>
      obtain ⟨around, call⟩ := made
      obtain ⟨hid, told, hcourse, htold⟩ := (shot.perform_orderly around call).lives
      obtain ⟨hlast, hnext⟩ := ih (shot.perform around call).2.1
      have hfirst : milestones shot.bullet.id (shot.perform around call).2.2 = told := htold
      have hsame : (shot.perform around call).2.1.bullet.id = shot.bullet.id := hid
      rw [performAll_cons]
      refine ⟨hlast.trans hid, ?_⟩
      rw [hsame] at hnext
      rw [Effect.milestones_append, hfirst]
      exact hcourse.trans hid hlast hnext

/-- How many calls to start a bullet are granted. -/
def granted (calls : List (Surroundings × Call)) (replies : List Reply) : Nat :=
  (calls.zip replies).countP fun made => made.1.2.isStart && decide (made.2 = .done)

theorem granted_eq_zero (shot : Shot) (calls : List (Surroundings × Call))
    (hbegun : shot.bullet.phase ≠ .pending) :
    granted calls (shot.performAll calls).1 = 0 := by
  induction calls generalizing shot with
  | nil => rfl
  | cons made rest ih =>
      obtain ⟨around, call⟩ := made
      have horderly := shot.perform_orderly around call
      obtain ⟨told, hcourse, -⟩ := horderly.lives.course
      rw [performAll_cons, granted, List.zip_cons_cons, List.countP_cons_of_neg, ← granted]
      · exact ih _ (hcourse.begun hbegun)
      · cases call with
        | start link =>
            have hrefused := horderly.start link rfl
            rw [if_neg hbegun] at hrefused
            have hreply : (shot.perform around (.start link)).1 =
                .refused (.invalidTransition _ _) :=
              congrArg Prod.fst hrefused
            simp [hreply]
        | _ => simp [Call.isStart]

theorem granted_le_one (shot : Shot) (calls : List (Surroundings × Call)) :
    granted calls (shot.performAll calls).1 ≤ 1 := by
  induction calls generalizing shot with
  | nil => exact Nat.zero_le 1
  | cons made rest ih =>
      obtain ⟨around, call⟩ := made
      by_cases hpending : shot.bullet.phase = .pending
      · have horderly := shot.perform_orderly around call
        rw [performAll_cons, granted, List.zip_cons_cons, List.countP_cons]
        change granted rest _ + _ ≤ 1
        cases call with
        | start link =>
            have hstarted := horderly.start link rfl
            rw [if_pos hpending] at hstarted
            rw [granted_eq_zero (shot.perform around (.start link)).2.1 rest hstarted.2.1]
            rw [Nat.zero_add]
            split
            · exact Nat.le_refl 1
            · exact Nat.zero_le 1
        | _ => simpa [Call.isStart] using ih _
      · rw [granted_eq_zero shot _ hpending]
        exact Nat.zero_le 1

end Shot

end Volley
