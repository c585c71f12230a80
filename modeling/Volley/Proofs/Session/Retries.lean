import Volley.Proofs.Session.Calls
import Volley.Proofs.Session.Tracking

/-!
# One load for each stay

While an actor stays in the picture its visual is loaded for once: by the first frame that sees it.
Whatever becomes of the load, the binder keeps some state for the actor from then on, and no frame
that sees the actor makes it one that allows another load. The state goes when a frame misses the
actor, and with it goes the record of the load.
-/

open scoped List

namespace Volley

variable {V : Type} {id : ActorId}

/-! ## Who has a load started -/

def StageCall.asker? : StageCall V → Option ActorId
  | .load _ request => some request.actor
  | _ => none

/-- The actors for whom loads are started, in order. -/
def askers (effects : List (SessionEffect V)) : List ActorId :=
  picked StageCall.asker? effects

theorem mem_askers_iff {effects : List (SessionEffect V)} :
    id ∈ askers effects ↔ ∃ load request, .stage (.load load request) ∈ effects ∧
      request.actor = id := by
  rw [askers, picked, List.mem_filterMap]
  constructor
  · rintro ⟨effect, hmem, hasks⟩
    cases effect with
    | world told => cases hasks
    | stage call =>
        cases call with
        | load load request => exact ⟨load, request, hmem, Option.some.inj hasks⟩
        | _ => cases hasks
  · rintro ⟨load, request, hmem, rfl⟩
    exact ⟨_, hmem, rfl⟩

namespace Session

variable {session : Session} {outside : Outside V}

theorem askers_render (session : Session) (outside : Outside V) :
    askers (session.render outside).2 =
      askers (requestVisuals (V := V) session.world.snapshot (session.attached outside)).2 := by
  rw [askers, picked_render, picked_attachVisuals fun _ _ => rfl,
    picked_releaseVisuals fun _ => rfl,
    picked_applyVisuals fun _ _ => rfl, picked_drawOverlay fun _ _ => rfl, List.nil_append,
    List.append_nil,
    List.append_nil, List.append_nil]
  rfl

theorem askers_forEach_sublist (actors : List Actor) (session : Session) :
    (askers (forEach (requestVisual (V := V)) actors session).2).Sublist (actors.map Actor.id) := by
  induction actors generalizing session with
  | nil => exact List.Sublist.refl []
  | cons actor rest ih =>
      rw [forEach, askers, picked_append, List.map_cons]
      rcases requestVisual_cases (V := V) session actor with ⟨-, hcase⟩ | ⟨-, hcase⟩
      · rw [hcase]
        exact (ih _).cons_cons actor.id
      · rw [hcase]
        exact (ih session).cons actor.id

theorem nodup_askers_render (hdistinct : session.world.Distinct) (outside : Outside V) :
    (askers (session.render outside).2).Nodup := by
  rw [askers_render]
  exact hdistinct.snapshot_nodup.sublist (askers_forEach_sublist _ _)

theorem Sound.mem_askers_render_iff (hsound : session.Sound) (hdistinct : session.world.Distinct) :
    id ∈ askers (session.render outside).2 ↔
      ∃ actor, session.world.actor? id = some actor ∧
        ((session.cell id).attach outside id (session.world.snapshot.isActive id)).Wants actor := by
  rw [askers_render, mem_askers_iff, ← hsound.attached_cell]
  constructor
  · rintro ⟨load, request, hload, rfl⟩
    obtain ⟨actor, hmem, hwants, rfl, -⟩ := load_mem_requestVisuals hdistinct.snapshot_nodup hload
    exact ⟨actor, hdistinct.mem_snapshot_iff.mp hmem, hwants⟩
  · rintro ⟨actor, hactor, hwants⟩
    obtain rfl := World.actor?_id hactor
    obtain ⟨load, -, hload⟩ := requestVisuals_cell_of_wants (V := V) hdistinct.snapshot_nodup
      (hdistinct.mem_snapshot_iff.mpr hactor) hwants
    exact ⟨load, .ofActor actor, hload, rfl⟩

/-- If an active actor is linked to nothing but what the binder holds for it, a frame starts a load
for it just if nothing that the binder has stands in the way. -/
theorem Sound.asks_iff (hsound : session.Sound) (hdistinct : session.world.Distinct)
    (hshows : session.world.Shows id) (hrecorded : (session.cell id).Recorded) :
    id ∈ askers (session.render outside).2 ↔ (session.cell id).Idle := by
  rw [hsound.mem_askers_render_iff hdistinct, hdistinct.isActive_iff.mpr hshows]
  constructor
  · rintro ⟨actor, -, hwants⟩
    exact Cell.Idle.of_attach hwants.2.2
  · intro hidle
    obtain ⟨actor, hactor, hactive⟩ := hshows
    rw [(hsound.cells id).attach_of_idle hidle]
    exact ⟨actor, hactor, hactive, visual_of_idle hrecorded hidle hactor, hidle⟩

end Session

/-! ## Frames that see an actor -/

namespace Moment

/-- The moment is a frame of a running session. -/
def isFrame (moment : Moment V) : Bool :=
  match moment.act with
  | .frame _ _ => moment.before.state = .running
  | _ => false

/-- The moment is a frame, and the actor is active when its ticks are over. -/
def Sees (id : ActorId) (moment : Moment V) : Prop :=
  ∃ outside now count stepped told, moment.act = .frame outside now ∧
    moment.before.state = .running ∧
    moment.before.world.step? outside.hosts
          (Session.frameDelta moment.before.lastFrame now
            moment.before.world.config.maxFrameDelta) =
        some (count, stepped, told) ∧
      stepped.snapshot.isActive id = true

theorem Executes.isFrame {moment : Moment V} {outside : Outside V}
    (hexecutes : moment.Executes outside) :
    moment.isFrame = true := by
  obtain ⟨now, hact, hrunning⟩ := hexecutes
  rw [Moment.isFrame, hact, hrunning]
  rfl

theorem Sees.isFrame {moment : Moment V} (hsees : moment.Sees id) : moment.isFrame = true := by
  obtain ⟨outside, now, -, -, -, hact, hrunning, -⟩ := hsees
  exact Executes.isFrame ⟨now, hact, hrunning⟩

/-- There is a frame in the history, and the latest one sees the actor. -/
def SeenLast (id : ActorId) (history : List (Moment V)) : Prop :=
  ∃ past ∈ history.find? isFrame, past.Sees id

theorem seenLast_cons_of_isFrame {moment : Moment V} (hframe : moment.isFrame = true)
    (history : List (Moment V)) :
    SeenLast id (moment :: history) ↔ moment.Sees id := by
  rw [SeenLast, List.find?_cons_of_pos hframe]
  simp

theorem seenLast_cons_of_not_isFrame {moment : Moment V} (hframe : moment.isFrame = false)
    (history : List (Moment V)) : SeenLast id (moment :: history) ↔ SeenLast id history := by
  rw [SeenLast, SeenLast, List.find?_cons_of_neg (by simp [hframe])]

/-- How often the moment starts a load for the actor. -/
def requests (id : ActorId) (moment : Moment V) : Nat :=
  (askers moment.effects).count id

/-- The session that a frame draws: the one that its ticks leave. -/
structure Draws (moment : Moment V) (outside : Outside V) (stepped : Session) : Prop where
  binder : stepped.binder = moment.before.binder
  shown : stepped.world.shown Actor.badge <+~ moment.before.world.shown Actor.badge
  after : moment.after = (stepped.render outside).1
  askers : askers moment.effects = Volley.askers (stepped.render outside).2
  sees_iff : ∀ id, moment.Sees id ↔ stepped.world.snapshot.isActive id = true

end Moment

namespace Session

variable {moment : Moment V} {history : List (Moment V)} {start session : Session}

theorem Tame.exists_draws (htame : moment.before.Tame Actor.Edit.SparesVisual Actor.badge)
    (hperform : moment.before.perform moment.act = some (moment.after, moment.effects))
    (hframe : moment.isFrame = true) : ∃ outside stepped, moment.Draws outside stepped := by
  obtain ⟨outside, now, hact, hrunning⟩ : ∃ outside now, moment.act = .frame outside now ∧
      moment.before.state = .running := by
    rw [Moment.isFrame] at hframe
    split at hframe
    · rename_i outside now hact
      exact ⟨outside, now, hact, of_decide_eq_true hframe⟩
    · cases hframe
  rw [hact] at hperform
  obtain ⟨count, stepped, first, clock, told, hstep, hafter, heffects⟩ :=
    perform_frame_eq_some hrunning hperform
  have hshown := World.shown_step? Actor.blind_badge htame.world hstep
  refine ⟨outside, moment.before.ticked stepped clock now, rfl, hshown, hafter, ?_, fun id => ?_⟩
  · rw [heffects, askers, picked_append, picked_world]
    rfl
  · constructor
    · rintro ⟨other, later, others, world, effects, hsame, -, hagain, hactive⟩
      rw [hact] at hsame
      cases hsame
      rw [hstep] at hagain
      cases hagain
      exact hactive
    · intro hactive
      exact ⟨outside, now, count, stepped, first, hact, hrunning, hstep, hactive⟩

theorem Tame.passage_id (htame : moment.before.Tame Actor.Edit.SparesVisual Actor.badge)
    (hperform : moment.before.perform moment.act = some (moment.after, moment.effects)) :
    Passage Actor.id moment := by
  have hids := tame_id (ids_of_badges htame.world.gameplay)
  exact hids.passage Actor.blind_id moment.act.within_id (deed_perform hperform)

theorem Passage.idle (hpassage : Passage Actor.id moment) (hframe : moment.isFrame = false)
    (hkeeps : ¬moment.Clears) :
    moment.after.binder = moment.before.binder ∧ ∀ call, ¬moment.Calls call := by
  cases hpassage with
  | frame outside hexecutes stepped hbinder hshown hafter hcalls =>
      rw [hexecutes.isFrame] at hframe
      cases hframe
  | cleared hidle hclears hbinder hdistinct hbare hcalls => exact (hkeeps hclears).elim
  | quiet hidle hkeeps hbinder hchange hcalls => exact ⟨hbinder, hcalls⟩

/-- What the binder knows of an actor tells whether the latest frame saw it. -/
structure Follows (history : List (Moment V)) (session : Session) (id : ActorId) : Prop where
  steady : session.Steady
  recorded : (session.cell id).Recorded
  not_cancelled : (session.cell id).state ≠ some .cancelled
  seen_iff : (session.cell id).state.isSome ↔ Moment.SeenLast id history

section Draws

variable {outside : Outside V} {drawn : Session} (hdraws : moment.Draws outside drawn)
  (hfollows : Follows history moment.before id)

include hdraws hfollows

theorem Follows.of_draws : drawn.Steady ∧ (drawn.cell id).Recorded ∧
    (drawn.cell id).state = (moment.before.cell id).state := by
  have hstate : (drawn.cell id).state = (moment.before.cell id).state := by
    rw [cell, cell, hdraws.binder]
  refine ⟨⟨?_, hfollows.steady.sound.of_binder_eq hdraws.binder⟩, fun visual hlink => ?_, hstate⟩
  · exact hfollows.steady.distinct.of_subperm (subperm_ids hdraws.shown)
  · rw [hstate]
    exact hfollows.recorded visual
      ((link_change_iff hfollows.steady.distinct (.fewer hdraws.shown)).mp hlink).2

/-- A frame that sees an actor starts a load for it just if the frame before did not see it. -/
theorem Follows.mem_askers_iff (hsees : moment.Sees id) :
    id ∈ askers moment.effects ↔ ¬Moment.SeenLast id history := by
  obtain ⟨hsteady, hrecorded, hstate⟩ := hfollows.of_draws hdraws
  have hshows := hsteady.distinct.isActive_iff.mp ((hdraws.sees_iff id).mp hsees)
  rw [hdraws.askers, hsteady.sound.asks_iff hsteady.distinct hshows hrecorded, Cell.Idle, hstate,
    ← hfollows.seen_iff, Option.not_isSome_iff_eq_none]
  exact or_iff_left hfollows.not_cancelled

theorem Follows.nodup_askers : (askers moment.effects).Nodup := by
  rw [hdraws.askers]
  exact nodup_askers_render (hfollows.of_draws hdraws).1.distinct outside

theorem Follows.frame_state :
    ((moment.after.cell id).state.isSome ↔ moment.Sees id) ∧
      (moment.after.cell id).state ≠ some .cancelled := by
  obtain ⟨hsteady, hrecorded, -⟩ := hfollows.of_draws hdraws
  rw [hdraws.sees_iff, hsteady.distinct.isActive_iff, hdraws.after]
  exact hsteady.sound.render_state hsteady.distinct outside id hrecorded

end Draws

/-- The frame that first sees an actor starts one load for it, and the following ones
start none as long as they see it. -/
theorem Follows.requests_eq (hfollows : Follows history moment.before id)
    (htame : moment.before.Tame Actor.Edit.SparesVisual Actor.badge)
    (hperform : moment.before.perform moment.act = some (moment.after, moment.effects))
    (hsees : moment.Sees id) :
    (Moment.SeenLast id history → moment.requests id = 0) ∧
      (¬Moment.SeenLast id history → moment.requests id = 1) := by
  obtain ⟨outside, drawn, hdraws⟩ := htame.exists_draws hperform hsees.isFrame
  have hasks := hfollows.mem_askers_iff hdraws hsees
  constructor
  · intro hseen
    exact List.count_eq_zero.mpr fun hmem => hasks.mp hmem hseen
  · intro hmissed
    exact List.count_eq_one_of_mem (hfollows.nodup_askers hdraws) (hasks.mpr hmissed)

/-! ## Runs after a level is loaded -/

theorem Steady.recorded_step (hsteady : moment.before.Steady) (hids : Passage Actor.id moment)
    (hbadges : Passage Actor.badge moment)
    (hrecorded : (moment.before.cell id).Recorded) : (moment.after.cell id).Recorded := by
  intro visual hlinked
  rw [hsteady.resolved_step hids]
  rcases (hsteady.link_step hbadges hrecorded).mp hlinked with hstages | ⟨hdrops, -, hbefore⟩
  · exact Or.inl hstages
  · exact Or.inr ⟨hdrops, hrecorded visual hbefore⟩

theorem Follows.step (hfollows : Follows history moment.before id)
    (htame : moment.before.Tame Actor.Edit.SparesVisual Actor.badge)
    (hspares : moment.act.Within Actor.Edit.SparesVisual Actor.badge)
    (hperform : moment.before.perform moment.act = some (moment.after, moment.effects))
    (hkeeps : ¬moment.Clears) :
    Follows (moment :: history) moment.after id := by
  have hids : Passage Actor.id moment := htame.passage_id hperform
  have hbadges : Passage Actor.badge moment :=
    htame.passage Actor.blind_badge hspares (deed_perform hperform)
  have hsteady := hfollows.steady.passage hids
  have hrecorded := hfollows.steady.recorded_step hids hbadges hfollows.recorded
  cases hframe : moment.isFrame with
  | true =>
      obtain ⟨outside, drawn, hdraws⟩ := htame.exists_draws hperform hframe
      obtain ⟨hseen, hlive⟩ := hfollows.frame_state hdraws
      refine ⟨hsteady, hrecorded, hlive, ?_⟩
      rw [hseen, Moment.seenLast_cons_of_isFrame hframe]
  | false =>
      have hstate : (moment.after.cell id).state = (moment.before.cell id).state := by
        rw [cell, cell, (hids.idle hframe hkeeps).1]
      refine ⟨hsteady, hrecorded, hstate ▸ hfollows.not_cancelled, ?_⟩
      rw [hstate, hfollows.seen_iff, Moment.seenLast_cons_of_not_isFrame hframe]

theorem Run.follows (hrun : Run start history session) (hstart : Follows (V := V) [] start id)
    (htame : start.Tame Actor.Edit.SparesVisual Actor.badge)
    (hkeeps : ∀ past ∈ history, ¬past.Clears)
    (hspares : ∀ past ∈ history, past.act.Within Actor.Edit.SparesVisual Actor.badge) :
    Follows history session id := by
  induction hrun with
  | start => exact hstart
  | @next history before after act effects hrun hperform ih =>
      rw [List.forall_mem_cons] at hkeeps hspares
      have hbefore := hrun.tame_of htame hspares.2
      have hearlier : Follows history (⟨act, before, after, effects⟩ : Moment V).before id :=
        ih hkeeps.2 hspares.2
      exact hearlier.step hbefore hspares.1 hperform hkeeps.1

theorem Run.of_append {later earlier : List (Moment V)}
    (hrun : Run start (later ++ earlier) session) :
    ∃ middle, Run start earlier middle := by
  induction later generalizing session with
  | nil => exact ⟨session, hrun⟩
  | cons moment later ih =>
      obtain ⟨-, hbefore, -⟩ := hrun.cons
      exact ih hbefore

/-- Every moment of a run finds an actor followed. -/
theorem Run.follows_at {later earlier : List (Moment V)}
    (hrun : Run start (later ++ moment :: earlier) session)
    (hstart : Follows (V := V) [] start id) (htame : start.Tame Actor.Edit.SparesVisual Actor.badge)
    (hkeeps : ∀ past ∈ later ++ moment :: earlier, ¬past.Clears)
    (hspares : ∀ past ∈ later ++ moment :: earlier,
      past.act.Within Actor.Edit.SparesVisual Actor.badge) :
    Follows earlier moment.before id ∧ moment.before.Tame Actor.Edit.SparesVisual Actor.badge ∧
      moment.before.perform moment.act = some (moment.after, moment.effects) ∧ ¬moment.Clears := by
  obtain ⟨middle, hrun⟩ := hrun.of_append
  obtain ⟨-, hbefore, hperform⟩ := hrun.cons
  obtain ⟨hmoment, hearlier⟩ := List.forall_mem_cons.mp (List.forall_mem_append.mp hkeeps).2
  have hwithin := (List.forall_mem_cons.mp (List.forall_mem_append.mp hspares).2).2
  exact ⟨hbefore.follows hstart htame hearlier hwithin, hbefore.tame_of htame hwithin,
    hperform, hmoment⟩

theorem Deed.clears {before after : Session} {act : Act V} {effects : List (SessionEffect V)}
    (hdeed : Deed before act after effects)
    (hclears : (⟨act, before, after, effects⟩ : Moment V).Clears) :
    after.binder = .empty ∧ after.world.Distinct ∧
      ∀ actor ∈ after.world.actors, actor.visual = none := by
  cases hdeed with
  | kept hframe hkeeps hworld hbinder hbook hprograms => exact (hkeeps hclears).elim
  | cleared _ hworld hdistinct hbinder _ _ =>
      refine ⟨hbinder, hdistinct, ?_⟩
      rw [hworld]
      exact fun actor => visual_of_mem_opened
  | _ => exact hclears.elim

/-- Nothing is known of anybody, and nobody is linked to anything, when a
session has been cleared. -/
theorem follows_of_clears {entry : Moment V} (hclears : entry.Clears)
    (hperform : entry.before.perform entry.act = some (entry.after, entry.effects)) (id : ActorId) :
    Follows (V := V) [] entry.after id := by
  obtain ⟨hbinder, hdistinct, hbare⟩ := (deed_perform hperform).clears hclears
  have hstate : (entry.after.cell id).state = none := by
    rw [cell, hbinder]
    rfl
  refine ⟨⟨hdistinct, .of_binder_eq_empty hbinder⟩, fun visual hlink => ?_, ?_, ?_⟩
  · obtain ⟨actor, hactor, hvisual⟩ := link_eq_some_iff.mp hlink
    rw [hbare actor (hdistinct.actor?_eq_some_iff.mp hactor).1] at hvisual
    cases hvisual
  · simp [hstate]
  · simp [hstate, Moment.SeenLast]

end Session

/-! ## Stretches -/

/-- A stretch of a history, the latest moment first: every frame of it sees the actor, the first one
among them, and the frame before it does not. -/
structure Stretch (id : ActorId) (others : List (Moment V)) (first : Moment V)
    (earlier : List (Moment V)) : Prop where
  first : first.Sees id
  others : ∀ past ∈ others, past.isFrame = true → past.Sees id
  earlier : ¬Moment.SeenLast id earlier

theorem Moment.seenLast_append {others : List (Moment V)} {first : Moment V}
    (hfirst : first.Sees id) (hothers : ∀ past ∈ others, past.isFrame = true → past.Sees id)
    (earlier : List (Moment V)) :
    SeenLast id (others ++ first :: earlier) := by
  induction others with
  | nil => exact (seenLast_cons_of_isFrame hfirst.isFrame earlier).mpr hfirst
  | cons moment rest ih =>
      obtain ⟨hmoment, hrest⟩ := List.forall_mem_cons.mp hothers
      cases hframe : moment.isFrame with
      | true => exact (seenLast_cons_of_isFrame hframe _).mpr (hmoment hframe)
      | false => exact (seenLast_cons_of_not_isFrame hframe _).mpr (ih hrest)

namespace Session

variable {session : Session} {entry first : Moment V} {later others earlier : List (Moment V)}

/-- There is no storm of retries. After a level is loaded, an actor that a stretch of frames sees
has one load started for it, by the first of these frames. The others start none, whether the load
has come in, has failed or is never heard of again. -/
theorem requests_of_stretch (hclears : entry.Clears)
    (hperform : entry.before.perform entry.act = some (entry.after, entry.effects))
    (htame : entry.after.Tame Actor.Edit.SparesVisual Actor.badge)
    (hrun : Run entry.after (later ++ others ++ first :: earlier) session)
    (hkeeps : ∀ past ∈ later ++ others ++ first :: earlier, ¬past.Clears)
    (hspares : ∀ past ∈ later ++ others ++ first :: earlier,
      past.act.Within Actor.Edit.SparesVisual Actor.badge)
    (hstretch : Stretch id others first earlier) :
    first.requests id = 1 ∧ ∀ past ∈ others, past.requests id = 0 := by
  have hentry := follows_of_clears hclears hperform id
  constructor
  · obtain ⟨hfollows, hbefore, hfirst, -⟩ := hrun.follows_at hentry htame hkeeps hspares
    exact (hfollows.requests_eq hbefore hfirst hstretch.first).2 hstretch.earlier
  · intro past hmem
    obtain ⟨front, rest, rfl⟩ := List.append_of_mem hmem
    have hsplit : later ++ (front ++ past :: rest) ++ first :: earlier =
        (later ++ front) ++ past :: (rest ++ first :: earlier) := by simp
    rw [hsplit] at hrun hkeeps hspares
    obtain ⟨hfollows, hbefore, hpast, hidle⟩ := hrun.follows_at hentry htame hkeeps hspares
    cases hframe : past.isFrame with
    | false =>
        refine List.count_eq_zero.mpr fun hasks => ?_
        obtain ⟨load, request, hload, -⟩ := mem_askers_iff.mp hasks
        exact ((hbefore.passage_id hpast).idle hframe hidle).2 _ hload
    | true =>
        have hrest : ∀ other ∈ rest, other.isFrame = true → other.Sees id := fun other hother =>
          hstretch.others other (List.mem_append_right _ (List.mem_cons_of_mem _ hother))
        exact (hfollows.requests_eq hbefore hpast (hstretch.others past hmem hframe)).1
          (Moment.seenLast_append hstretch.first hrest earlier)

/-! The archer's load fails, and there is no stand-in for the archer. -/

def failing : Outside String :=
  { waiting with arrivals := fun _ => some (.error (.load "broken")) }

def failed : Moment String :=
  asking.after.moment (.frame failing 0.016)

def enduring : Moment String :=
  failed.after.moment (.frame waiting 0.032)

theorem sees_of_snapshot {moment : Moment V} {outside : Outside V} {now : Float}
    (hact : moment.act = .frame outside now) (hrunning : moment.before.state = .running)
    (hactive : ((moment.before.world.step? outside.hosts
        (frameDelta moment.before.lastFrame now moment.before.world.config.maxFrameDelta)).map
          fun result => result.2.1.snapshot.isActive id) = some true) : moment.Sees id := by
  obtain ⟨⟨count, stepped, told⟩, hstep, hsame⟩ := Option.map_eq_some_iff.mp hactive
  exact ⟨outside, now, count, stepped, told, hact, hrunning, hstep, hsame⟩

theorem stretch_enduring : Stretch ⟨7⟩ [enduring, failed] asking [] where
  first := sees_of_snapshot (moment_act _ _) (by decide +kernel) (by decide +kernel)
  others := by
    simp only [List.forall_mem_cons]
    exact ⟨fun _ => sees_of_snapshot (moment_act _ _) (by decide +kernel) (by decide +kernel),
      fun _ => sees_of_snapshot (moment_act _ _) (by decide +kernel) (by decide +kernel),
      List.forall_mem_nil _⟩
  earlier := fun ⟨_, hlast, _⟩ => nomatch hlast

def entering : Moment String :=
  opening.moment (.loadLevel 1 none)

theorem run_enduring :
    Run entering.after ([] ++ [enduring, failed] ++ [asking]) enduring.after := by
  have hasking : Run campaigning [asking] asking.after := Run.start.moment (by decide +kernel)
  have hfailed : Run campaigning [failed, asking] failed.after := hasking.moment (by decide +kernel)
  exact hfailed.moment (by decide +kernel)

theorem enduring_requests :
    asking.requests ⟨7⟩ = 1 ∧ failed.requests ⟨7⟩ = 0 ∧ enduring.requests ⟨7⟩ = 0 := by
  have hentering : Run opening [entering] entering.after := Run.start.moment rfl
  have htame : entering.after.Tame Actor.Edit.SparesVisual Actor.badge :=
    hentering.tame unlinked_standard.tame (List.forall_mem_singleton.mpr trivial)
  have hkeeps : ∀ past ∈ [enduring, failed, asking], ¬past.Clears := by
    simp only [List.forall_mem_cons]
    exact ⟨not_false, not_false, not_false, List.forall_mem_nil _⟩
  have hspares : ∀ past ∈ [enduring, failed, asking],
      past.act.Within Actor.Edit.SparesVisual Actor.badge := by
    simp only [List.forall_mem_cons]
    exact ⟨trivial, trivial, trivial, List.forall_mem_nil _⟩
  have hclears : entering.Clears := ⟨_, rfl, rfl⟩
  obtain ⟨hfirst, hothers⟩ :=
    requests_of_stretch hclears rfl htame run_enduring hkeeps hspares stretch_enduring
  exact ⟨hfirst, hothers failed (by simp), hothers enduring (by simp)⟩

end Session

end Volley
