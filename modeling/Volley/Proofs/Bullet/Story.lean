import Mathlib.Data.List.Induction
import Volley.Proofs.Bullet.Lifecycle

/-!
# What a bullet without scripts tells

A program without custom actions leaves a bullet where it is in its life, so rules never run within
rules. What a call tells is then one chapter: nothing, how the bullet starts, or how it ends. A
bullet starts and ends once, and the chapters of its life make a story.
-/

namespace Volley

open Effect (publics)

namespace Turn

/-- The announcements of rules, each by its segment. -/
def rings (id : ActorId) (cue : Cue) (fired : List UInt32) : List Effect :=
  fired.map fun segment => .emitted (.ruleFired id segment cue)

/-- Some of the rules that wait for a cue have been announced, in the order of
declaration, and that is all. -/
def Rings (program : Program) (cue : Cue) (before after : Turn) : Prop :=
  ∃ fired, fired.Sublist (program.waiting cue) ∧
    Speaks (rings before.bullet.id cue fired) before after

theorem counts_speaks (cue : Cue) :
    TriggerHost.Counts cue fun fired before after =>
      Speaks (rings before.bullet.id cue fired) before after where
  quiet := Speaks.routine.obeys
  append hfirst hsecond := by
    rw [rings, List.map_append]
    rw [hfirst.id] at hsecond
    exact hfirst.trans hsecond
  announce segment turn := Speaks.announce turn segment cue

theorem fire_rings {program : Program} (hplain : program.Plain) (book : ScriptBook) (depth : Nat)
    (cue : Cue) (turn : Turn) : Rings program cue turn (Shot.fire program book depth cue turn) := by
  cases depth with
  | zero => exact ⟨[], List.nil_sublist _, Speaks.routine.refl turn⟩
  | succ depth => exact Program.run_counts (counts_speaks cue) hplain turn

end Turn

/-! ## Chapters -/

open Turn (rings)

/-- A flight that stops on a hit meets its target when the bullet lives on for `dt` seconds. -/
def Bullet.Collides (bullet : Bullet) (around : Surroundings) (dt : Float32) : Prop :=
  bullet.phase = .active ∧ ∃ flight, bullet.flight = some flight ∧ flight.plan.stopOnHit ∧
    (flight.update (bullet.guidance around) bullet.actor.position dt).2 = .hit

/-- What one call tells. -/
inductive Bullet.Chapter (program : Program) (around : Surroundings) (call : Call)
    (before after : Bullet) :
    List Effect → Prop
  | quiet (hstart : call.isStart → before.phase ≠ .pending) (hphase : after.phase = before.phase)
      (hlink : after.link = before.link) (hreason : after.endReason = before.endReason) :
      Chapter program around call before after []
  | opens {fired : List UInt32} (hcall : call = .start after.link)
      (hpending : before.phase = .pending)
      (hactive : after.phase = .active) (hfired : fired.Sublist (program.waiting .bulletStart)) :
      Chapter program around call before after (rings before.id .bulletStart fired ++
        [before.greeting])
  | closes {hits ends : List UInt32} (hstart : call.isStart = false)
      (hactive : before.phase = .active)
      (hended : after.phase = .ended) (hlink : after.link = before.link)
      (hhits : hits.Sublist (program.waiting .bulletHit))
      (hends : ends.Sublist (program.waiting .bulletEnd))
      (hcollides : hits ≠ [] → after.endReason = some .hit ∧ ∃ dt, call = .update dt ∧
        before.Collides around dt) :
      Chapter program around call before after
        (rings before.id .bulletHit hits ++ (rings before.id .bulletEnd ends ++ after.farewell))

namespace Turn

section

variable {program : Program} {fire : Fire}
  (hfire : ∀ cue turn, Rings program cue turn (fire cue turn))

include hfire

theorem Rings.start {turn : Turn} (link : Option Link) (hpending : turn.bullet.phase = .pending) :
    ∃ started, turn.start fire link = .ok started ∧ started.bullet.phase = .active ∧
      started.bullet.link = link ∧
      ∃ fired, fired.Sublist (program.waiting .bulletStart) ∧
        publics started.effects =
          publics turn.effects ++ (rings turn.bullet.id .bulletStart fired ++
            [turn.bullet.greeting]) := by
  obtain ⟨fired, hfired, hspeaks⟩ := hfire .bulletStart (turn.opened link)
  have hid : (turn.opened link).bullet.id = turn.bullet.id := turn.bullet.actor.edit_id _
  rw [start_eq, if_pos hpending]
  generalize fire .bulletStart (turn.opened link) = ready at *
  have hactive : ready.bullet.phase = .active := hspeaks.phase
  dsimp only
  rw [if_pos hactive]
  refine ⟨_, rfl, hactive, hspeaks.link, fired, hfired, ?_⟩
  rw [publics_emit, hspeaks.told, hspeaks.id, hid, List.append_assoc]
  rfl

theorem Rings.finish {turn : Turn} (hactive : turn.bullet.phase = .active)
    (reason : Option EndReason) :
    (turn.finish fire reason).bullet.phase = .ended ∧
      (turn.finish fire reason).bullet.link = turn.bullet.link ∧
      (turn.finish fire reason).bullet.endReason = reason ∧
      ∃ ends, ends.Sublist (program.waiting .bulletEnd) ∧
        publics (turn.finish fire reason).effects =
          publics turn.effects ++
            (rings turn.bullet.id .bulletEnd ends ++
              (turn.finish fire reason).bullet.farewell) := by
  obtain ⟨ends, hends, hspeaks⟩ := hfire .bulletEnd (turn.closed reason)
  have hid : (turn.closed reason).bullet.id = turn.bullet.id := turn.bullet.actor.edit_id _
  rw [finish_eq, if_pos hactive]
  generalize fire .bulletEnd (turn.closed reason) = done at *
  obtain rfl : done.bullet.endReason = reason := hspeaks.reason
  rw [tellEnd_bullet]
  refine ⟨hspeaks.phase, hspeaks.link, rfl, ends, hends, ?_⟩
  have hfarewell : (done.emit (.ended done.bullet.id done.bullet.endReason)).bullet.farewell =
      done.bullet.farewell := rfl
  rw [publics_tellEnd, hspeaks.told, hid, hfarewell, List.append_assoc]
  rfl

end

/-- What a call tells is a chapter. -/
def Recounts (program : Program) (call : Call) (before after : Turn) : Prop :=
  ∃ told, before.bullet.Chapter program before.around call after.bullet told ∧
    publics after.effects = publics before.effects ++ told

theorem Speaks.recounts {program : Program} {call : Call} {before after : Turn}
    (hspeaks : Speaks [] before after)
    (hstart : call.isStart → before.bullet.phase ≠ .pending) : Recounts program call before after :=
  ⟨[], .quiet hstart hspeaks.phase hspeaks.link hspeaks.reason, hspeaks.told⟩

section

variable {program : Program} {fire : Fire}
  (hfire : ∀ cue turn, Rings program cue turn (fire cue turn))

include hfire

/-- The rules that wait for a hit run before the end, if at all. -/
theorem Speaks.recounts_finish {call : Call} {turn struck : Turn} {hits : List UInt32}
    {reason : Option EndReason}
    (hspeaks : Speaks (rings turn.bullet.id .bulletHit hits) turn struck)
    (hstart : call.isStart = false)
    (hactive : turn.bullet.phase = .active) (hhits : hits.Sublist (program.waiting .bulletHit))
    (hcollides : hits ≠ [] → reason = some .hit ∧ ∃ dt, call = .update dt ∧
      turn.bullet.Collides turn.around dt) :
    Recounts program call turn (struck.finish fire reason) := by
  obtain ⟨hended, hlink, hreason, ends, hends, htold⟩ :=
    Rings.finish hfire (hspeaks.phase.trans hactive) reason
  rw [hspeaks.id] at htold
  rw [hspeaks.link] at hlink
  rw [← hreason] at hcollides
  refine ⟨_, .closes hstart hactive hended hlink hhits hends hcollides, ?_⟩
  rw [htold, hspeaks.told, List.append_assoc]

theorem Speaks.recounts_end {call : Call} {turn before : Turn} (hspeaks : Speaks [] turn before)
    (hstart : call.isStart = false) (hactive : turn.bullet.phase = .active)
    (reason : Option EndReason) :
    Recounts program call turn (before.finish fire reason) := by
  have hrings : Speaks (rings turn.bullet.id .bulletHit []) turn before := hspeaks
  exact hrings.recounts_finish hfire hstart hactive (List.nil_sublist _)
    fun hhits => (hhits rfl).elim

theorem recounts_pursue {flight : Flight} {dt : Float32} {turn older : Turn}
    (hactive : turn.bullet.phase = .active) (hflight : turn.bullet.flight = some flight)
    (holder : older = turn.older dt) :
    Recounts program (.update dt) turn (older.pursue fire flight dt) := by
  have hspeaks (next : Flight) :
      Speaks [] turn { older with bullet := { older.bullet with flight := some next } } := by
    rw [holder]
    have hcarried : (turn.older dt).bullet.flight.isSome := Option.isSome_of_eq_some hflight
    exact Speaks.routine.trans (Speaks.routine.age turn _) (Speaks.routine.advance _ next hcarried)
  have hstart : (Call.update dt).isStart → turn.bullet.phase ≠ .pending :=
    fun hstart => by cases hstart
  rw [pursue]
  dsimp only
  split
  · exact (Speaks.routine.trans (hspeaks _) (Speaks.routine.move _ _)).recounts hstart
  · rename_i hstep
    split
    · rename_i hstop
      obtain ⟨hits, hhits, hstruck⟩ := hfire .bulletHit
        { older with bullet := { older.bullet with
          flight := some (flight.update (older.bullet.guidance older.around)
            older.bullet.actor.position dt).1 } }
      change Speaks (rings older.bullet.id .bulletHit hits) _ _ at hstruck
      rw [show older.bullet.id = turn.bullet.id from (hspeaks flight).id] at hstruck
      refine ((hspeaks _).trans hstruck).recounts_finish hfire rfl hactive hhits
        fun _ => ⟨rfl, dt, rfl, hactive, ?_⟩
      rw [holder] at hstep
      exact ⟨flight, hflight, hstop, hstep⟩
    · exact (hspeaks _).recounts hstart
  · split
    · exact (hspeaks _).recounts_end hfire rfl hactive _
    · exact (hspeaks _).recounts hstart
  · exact (hspeaks _).recounts hstart

theorem Rings.recounts {call : Call} (hcall : ∀ segment cue, call ≠ .announce segment cue)
    (turn : Turn) :
    Recounts program call turn (call.perform fire turn).2 := by
  cases call with
  | start link =>
      by_cases hpending : turn.bullet.phase = .pending
      · obtain ⟨started, hstart, hactive, hlink, fired, hfired, htold⟩ :=
          Rings.start hfire link hpending
        rw [Call.perform, hstart]
        refine ⟨_, .opens ?_ hpending hactive hfired, htold⟩
        rw [hlink]
      · rw [Call.perform, start_eq, if_neg hpending]
        exact (Speaks.routine.refl turn).recounts fun _ => hpending
  | update dt =>
      rw [Call.perform]
      have hstart : (Call.update dt).isStart → turn.bullet.phase ≠ .pending :=
        fun hstart => by cases hstart
      by_cases hactive : turn.bullet.phase = .active
      · have holder : Speaks [] turn (turn.older dt) := Speaks.routine.age turn _
        rw [update_eq turn fire dt hactive]
        split
        · exact holder.recounts hstart
        · rename_i flight hflight
          split
          · exact holder.recounts hstart
          · exact recounts_pursue hfire hactive hflight rfl
      · rw [update_of_not_active fire dt hactive]
        exact (Speaks.routine.refl turn).recounts hstart
  | finish reason =>
      rw [Call.perform]
      by_cases hactive : turn.bullet.phase = .active
      · exact (Speaks.routine.refl turn).recounts_end hfire rfl hactive reason
      · rw [finish_eq, if_neg hactive]
        exact (Speaks.routine.refl turn).recounts fun hstart => by cases hstart
  | announce segment cue => exact (hcall segment cue rfl).elim
  | _ => exact (Speaks.order fire rfl turn).recounts fun hstart => by cases hstart

end

end Turn

/-! ## Stories -/

namespace Shot

/-- The context of the first call to start a bullet, if there is such a call. -/
def opening? (calls : List (Surroundings × Call)) : Option (Option Link) :=
  calls.findSome? fun made =>
    match made.2 with
    | .start link => some link
    | _ => none

/-- All that has been told of a bullet since it was created, by the calls that have been made. -/
inductive Story (shot : Shot) (calls : List (Surroundings × Call))
    (bullet : Bullet) : List Effect → Prop
  | untold (hphase : bullet.phase = .pending) (hopening : opening? calls = none) :
      Story shot calls bullet []
  | opened {fired : List UInt32} (hphase : bullet.phase = .active)
      (hopening : opening? calls = some bullet.link)
      (hfired : fired.Sublist (shot.program.waiting .bulletStart)) :
      Story shot calls bullet (rings bullet.id .bulletStart fired ++ [bullet.greeting])
  | closed {fired hits ends : List UInt32} (hphase : bullet.phase = .ended)
      (hopening : opening? calls = some bullet.link)
      (hfired : fired.Sublist (shot.program.waiting .bulletStart))
      (hhits : hits.Sublist (shot.program.waiting .bulletHit))
      (hends : ends.Sublist (shot.program.waiting .bulletEnd))
      (hcollides : hits ≠ [] → bullet.endReason = some .hit ∧ ∃ earlier around dt later,
        calls = earlier ++ (around, .update dt) :: later ∧
          (shot.performAll earlier).2.1.bullet.Collides around dt) :
      Story shot calls bullet
        (rings bullet.id .bulletStart fired ++ [bullet.greeting] ++
          (rings bullet.id .bulletHit hits ++ (rings bullet.id .bulletEnd ends ++ bullet.farewell)))

theorem opening?_concat (calls : List (Surroundings × Call)) (around : Surroundings) (call : Call) :
    opening? (calls ++ [(around, call)]) =
      (opening? calls).or (match call with | .start link => some link | _ => none) := by
  rw [opening?, List.findSome?_append]
  cases call <;> rfl

theorem performAll_concat (shot : Shot) (calls : List (Surroundings × Call)) (around : Surroundings)
    (call : Call) :
    (shot.performAll (calls ++ [(around, call)])).2 =
      (((shot.performAll calls).2.1.perform around call).2.1,
        (shot.performAll calls).2.2 ++ ((shot.performAll calls).2.1.perform around call).2.2) := by
  induction calls generalizing shot with
  | nil => exact Prod.ext rfl (List.append_nil _)
  | cons made rest ih =>
      obtain ⟨first, made⟩ := made
      rw [List.cons_append, performAll_cons, performAll_cons]
      dsimp only
      rw [ih, List.append_assoc]

theorem performAll_program (shot : Shot) (calls : List (Surroundings × Call)) :
    (shot.performAll calls).2.1.program = shot.program := by
  induction calls generalizing shot with
  | nil => rfl
  | cons made rest ih => exact ih _

/-- A story goes on by a chapter. -/
theorem Story.next {shot : Shot} {calls : List (Surroundings × Call)} {bullet after : Bullet}
    {told more : List Effect} {around : Surroundings} {call : Call}
    (hstory : shot.Story calls bullet told) (hbullet : bullet = (shot.performAll calls).2.1.bullet)
    (hid : after.id = bullet.id) (hchapter : bullet.Chapter shot.program around call after more) :
    shot.Story (calls ++ [(around, call)]) after (told ++ more) := by
  cases hchapter with
  | quiet hstart hphase hlink hreason =>
      rw [List.append_nil]
      cases hstory with
      | untold hpending hopening =>
          refine .untold (hphase.trans hpending) ?_
          rw [opening?_concat, hopening]
          cases call with
          | start link => exact (hstart rfl hpending).elim
          | _ => rfl
      | opened hactive hopening hfired =>
          rw [← Bullet.greeting_eq hid, ← hid]
          refine .opened (hphase.trans hactive) ?_ hfired
          rw [opening?_concat, hopening, hlink]
          rfl
      | closed hended hopening hfired hhits hends hcollides =>
          rw [← Bullet.greeting_eq hid, ← Bullet.farewell_eq hid hlink hreason, ← hid]
          refine .closed (hphase.trans hended) ?_ hfired hhits hends fun hhit => ?_
          · rw [opening?_concat, hopening, hlink]
            rfl
          · obtain ⟨hstruck, earlier, place, dt, later, rfl, hmet⟩ := hcollides hhit
            exact ⟨hreason.trans hstruck, earlier, place, dt,
              later ++ [(around, call)], by simp, hmet⟩
  | opens hcall hpending hactive hfired =>
      cases hstory with
      | untold hphase hopening =>
          rw [List.nil_append, ← Bullet.greeting_eq hid, ← hid]
          refine .opened hactive ?_ hfired
          rw [opening?_concat, hopening, hcall]
          rfl
      | opened hphase => exact nomatch hpending.symm.trans hphase
      | closed hphase => exact nomatch hpending.symm.trans hphase
  | closes hstart hactive hended hlink hhits hends hcollides =>
      cases hstory with
      | untold hphase => exact nomatch hactive.symm.trans hphase
      | opened hphase hopening hfired =>
          rw [← Bullet.greeting_eq hid, ← hid]
          refine .closed hended ?_ hfired hhits hends fun hhit => ?_
          · rw [opening?_concat, hopening, hlink]
            rfl
          · obtain ⟨hstruck, dt, rfl, hmet⟩ := hcollides hhit
            rw [hbullet] at hmet
            exact ⟨hstruck, calls, around, dt, [], rfl, hmet⟩
      | closed hphase => exact nomatch hactive.symm.trans hphase

theorem perform_recounts {shot : Shot} (hplain : shot.program.Plain) (around : Surroundings)
    {call : Call} (hcall : ∀ segment cue, call ≠ .announce segment cue) :
    shot.bullet.Chapter shot.program around call (shot.perform around call).2.1.bullet
      (publics (shot.perform around call).2.2) := by
  obtain ⟨told, hchapter, htold⟩ :=
    Turn.Rings.recounts (Turn.fire_rings hplain shot.book nesting) hcall ⟨shot.bullet, around, []⟩
  rw [show publics (shot.perform around call).2.2 = told from htold]
  exact hchapter

theorem performAll_story {shot : Shot} (hpending : shot.bullet.phase = .pending)
    (hplain : shot.program.Plain) {calls : List (Surroundings × Call)}
    (hcalls : ∀ made ∈ calls, ∀ segment cue, made.2 ≠ .announce segment cue) :
    shot.Story calls (shot.performAll calls).2.1.bullet (publics (shot.performAll calls).2.2) := by
  induction calls using List.reverseRecOn with
  | nil => exact .untold hpending rfl
  | append_singleton calls made ih =>
      obtain ⟨around, call⟩ := made
      obtain ⟨hearlier, hcall⟩ := List.forall_mem_append.mp hcalls
      have hstory := ih hearlier
      have hprogram := shot.performAll_program calls
      have hchapter := perform_recounts (hprogram ▸ hplain) around
        (hcall _ (List.mem_singleton_self _))
      rw [hprogram] at hchapter
      rw [shot.performAll_concat calls around call, Effect.publics_append]
      exact hstory.next rfl (perform_id _ around call) hchapter

/-- The life of a bullet whose program takes no custom action is a story, whatever is called
and however its listeners respond. -/
theorem story_of_plain {program : Program} (hplain : program.Plain) (book : ScriptBook)
    (id : ActorId) (blueprint : Blueprint) (faction : UInt32) (position : Vec3) (emitter : Emitter)
    {calls : List (Surroundings × Call)}
    (hcalls : ∀ made ∈ calls, ∀ segment cue, made.2 ≠ .announce segment cue) :
    let shot : Shot := { bullet := { Bullet.create id blueprint faction position with emitter }, program, book }
    shot.Story calls (shot.performAll calls).2.1.bullet (publics (shot.performAll calls).2.2) :=
  performAll_story rfl hplain hcalls

/-! An arrow that is shot where it already is, and hits at once. -/

def arrow : Program :=
  { segments :=
      [{ id := 1
         rules :=
           [{ cue := .bulletStart, conditions := [],
              actions := [.fly { FlyOrder.standard with point := some .zero }] },
            { cue := .bulletEnd, conditions := [], actions := [] }] },
       { id := 2, rules := [{ cue := .bulletHit, conditions := [], actions := [] }] }] }

def shooting : List (Surroundings × Call) :=
  let around : Surroundings := { index := .empty, hosts := fun _ => .silent }
  [(around, .start (some (.host ⟨5⟩))), (around, .update 0.05), (around, .start none)]

theorem arrow_story :
    ∃ bullet told,
      Story { bullet := World.subscribe (.create ⟨9⟩ ⟨1, "", none, "", []⟩ 0 .zero),
              program := arrow, book := .empty }
        shooting bullet told ∧
      told.filterMap Effect.emitted? =
        [.ruleFired ⟨9⟩ 1 .bulletStart, .started ⟨9⟩, .ruleFired ⟨9⟩ 2 .bulletHit,
          .ruleFired ⟨9⟩ 1 .bulletEnd,
          .ended ⟨9⟩ (some .hit)] := by
  have hplain : arrow.Plain := by decide
  have hcalls : ∀ made ∈ shooting, ∀ segment cue, made.2 ≠ .announce segment cue := by
    simp [shooting]
  have hstory := story_of_plain hplain .empty ⟨9⟩ ⟨1, "", none, "", []⟩ 0 .zero
    (World.subscribe (.create ⟨9⟩ ⟨1, "", none, "", []⟩ 0 .zero)).emitter hcalls
  exact ⟨_, _, hstory, by decide +kernel⟩

end Shot

end Volley
