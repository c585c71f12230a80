import Volley.Proofs.Session.Run

/-!
# Whose visual a load brings

An actor asks for a load, and what the load brings goes to whoever bears the actor's id when it
comes in. Frames see to it that these are the same as long as a frame sees every actor that goes. An
actor that comes in under the id of one that no frame has missed is handed the visual of the other.
-/

open scoped List

namespace Volley

variable {V : Type}

/-- A load brings its own visual if its actor is there, and a stand-in if it has failed. -/
def Outside.Delivers (outside : Outside V) (load : LoadId) (request : VisualRequest) (live : Prop)
    (visual : V) : Prop :=
  outside.arrivals load = some (.ok visual) ∧ live ∨
    (∃ error, outside.arrivals load = some (.error error)) ∧
    outside.placeholder request = some visual

theorem Outside.delivery_eq_some_iff {outside : Outside V} {load : LoadId} {request : VisualRequest}
    {live : Bool} {visual : V} :
    outside.delivery load request live = some visual ↔
      outside.Delivers load request (live = true) visual := by
  rw [delivery, Delivers]
  cases outside.arrivals load with
  | none => simp
  | some result =>
      cases result with
      | error error => simp
      | ok loaded => cases live <;> simp

theorem Cell.delivered_eq_some_iff {outside : Outside V} {cell : Cell} {live : Bool} {visual : V} :
    cell.delivered outside live = some visual ↔
      ∃ load request, cell.pending = some { load, request } ∧
        outside.Delivers load request (live = true) visual := by
  rw [delivered, Option.bind_eq_some_iff]
  constructor
  · rintro ⟨pending, hpending, hdelivery⟩
    exact ⟨pending.load, pending.request, hpending, Outside.delivery_eq_some_iff.mp hdelivery⟩
  · rintro ⟨load, request, hpending, hdelivers⟩
    exact ⟨_, hpending, Outside.delivery_eq_some_iff.mpr hdelivers⟩

namespace Moment

def Asks (load : LoadId) (request : VisualRequest) (moment : Moment V) : Prop :=
  moment.Calls (.load load request)

/-- The load is over: it has come in, or a frame has missed its actor, or the
session was cleared. -/
def Settles (load : LoadId) (id : ActorId) (moment : Moment V) : Prop :=
  moment.Clears ∨
    ∃ outside, moment.Executes outside ∧
    ((outside.arrivals load).isSome ∨ ¬moment.after.world.Shows id)

end Moment

/-- The moments since a load was asked for that is not over. -/
def Awaited (history : List (Moment V)) (load : LoadId) (request : VisualRequest)
    (since : List (Moment V)) : Prop :=
  Since (Moment.Asks load request) (Moment.Settles load request.actor) history since

/-- Whatever the moment adds to the stage, it adds for an actor that has been there since it asked
for it, and that actor is linked to it. -/
def Moment.Faithful (history : List (Moment V)) (outside : Outside V) (moment : Moment V) : Prop :=
  ∀ visual content, moment.Calls (.add visual content) →
    ∃ load request since, visual = .ofActor request.actor ∧ Awaited history load request since ∧
      outside.Delivers load request (moment.after.world.Shows request.actor) content ∧
      ∀ actor, moment.after.world.actor? request.actor = some actor →
        (∀ past ∈ since, past.Has request.actor) ∧
        (actor.active = true → actor.visual = some visual)

theorem Moment.settles_iff {moment : Moment V} {outside : Outside V}
    (hexecutes : moment.Executes outside) {load : LoadId} {id : ActorId} :
    moment.Settles load id ↔ (outside.arrivals load).isSome ∨ ¬moment.after.world.Shows id := by
  constructor
  · rintro (hclears | ⟨other, hother, hover⟩)
    · exact (hexecutes.not_clears hclears).elim
    · rwa [hexecutes.unique hother]
  · intro hover
    exact Or.inr ⟨outside, hexecutes, hover⟩

namespace Session

variable {moment : Moment V} {outside : Outside V} {id : ActorId} {load : LoadId}
  {request : VisualRequest}

/-- A load that is pending after a moment was asked for at the moment, or it was
pending before and is not over. -/
theorem Steady.pending_step (hsteady : moment.before.Steady) (hpassage : Passage Actor.id moment) :
    (moment.after.cell id).pending = some { load, request } ↔
      request.actor = id ∧ moment.Asks load request ∨
        ¬moment.Settles load id ∧ (moment.before.cell id).pending = some { load, request } := by
  cases hpassage with
  | frame outside hexecutes stepped hbinder hshown hafter hcalls =>
      have hrenders : Renders moment outside stepped := ⟨hbinder, hshown, hafter, hcalls⟩
      have hstepped := hrenders.steady hsteady
      rw [Moment.settles_iff hexecutes, hrenders.retouches.shows_iff, hafter,
        hstepped.sound.render_pending_iff hstepped.distinct, hrenders.pending_eq, Moment.Asks,
        hcalls, not_or, not_not,
        Option.not_isSome_iff_eq_none]
      apply or_congr_right
      rw [and_comm]
  | cleared hidle hclears hbinder hdistinct hbare hcalls =>
      rw [cell, hbinder]
      refine iff_of_false (fun hpending => by cases hpending) ?_
      rintro (⟨-, hasks⟩ | ⟨hkeeps, -⟩)
      · exact hcalls _ hasks
      · exact hkeeps (Or.inl hclears)
  | quiet hidle hkeeps hbinder hchange hcalls =>
      have hsettles : ¬moment.Settles load id := by
        rintro (hclears | ⟨outside, hexecutes, -⟩)
        · exact hkeeps hclears
        · exact hidle outside hexecutes
      have hpending : (moment.after.cell id).pending = (moment.before.cell id).pending := by
        rw [cell, cell, hbinder]
      rw [hpending]
      constructor
      · intro hwaits
        exact Or.inr ⟨hsettles, hwaits⟩
      · rintro (⟨-, hasks⟩ | ⟨-, hwaits⟩)
        · exact (hcalls _ hasks).elim
        · exact hwaits

variable {world : World} {catalog : Catalog} {history : List (Moment V)} {session : Session}

/-- By induction on the history: the binder waits for a load exactly as long as the history does. -/
theorem Run.pending_iff (hdistinct : world.Distinct)
    (hgameplay : ∀ system ∈ world.gameplay, ∀ dt actor, (system dt actor).id = actor.id)
    (hrun : Run (create world catalog) history session) :
    (session.cell id).pending = some { load, request } ↔
      request.actor = id ∧ ∃ since, Awaited history load request since := by
  induction history generalizing session with
  | nil =>
      cases hrun
      refine iff_of_false (fun hpending => by cases hpending) ?_
      rintro ⟨-, since, hsince⟩
      cases hsince
  | cons moment history ih =>
      have hpassage := hrun.passage_id hgameplay
      obtain ⟨rfl, hbefore, -⟩ := hrun.cons
      have hsteady := hbefore.steady hdistinct hgameplay
      rw [hsteady.pending_step hpassage, ih hbefore]
      simp only [Awaited, exists_since_cons_iff]
      by_cases hactor : request.actor = id
      · subst hactor
        simp only [true_and]
      · simp only [hactor, false_and, and_false, or_self]

/-! ## Frames -/

theorem Steady.adds_iff (hsteady : moment.before.Steady) (hpassage : Passage Actor.id moment)
    (hexecutes : moment.Executes outside) {visual : VisualId} {content : V} :
    moment.Calls (.add visual content) ↔
      ∃ load request, visual = .ofActor request.actor ∧
        (moment.before.cell request.actor).pending = some { load, request } ∧
        outside.Delivers load request (moment.after.world.Shows request.actor) content := by
  obtain ⟨stepped, hrenders⟩ := hpassage.exists_renders hexecutes
  have hstepped := hrenders.steady hsteady
  rw [hrenders.calls, hstepped.sound.add_mem_render_iff]
  simp only [Cell.delivered_eq_some_iff, hstepped.distinct.isActive_iff, hrenders.pending_eq,
    hrenders.retouches.shows_iff]
  constructor
  · rintro ⟨id, rfl, load, request, hwaits, hdelivers⟩
    have hactor : request.actor = id := (hsteady.sound.cells id).request _ hwaits
    subst hactor
    exact ⟨load, request, rfl, hwaits, hdelivers⟩
  · rintro ⟨load, request, rfl, hwaits, hdelivers⟩
    exact ⟨request.actor, rfl, load, request, hwaits, hdelivers⟩

/-- An active actor is linked to what a frame adds for it. -/
theorem Steady.visual_of_adds (hsteady : moment.before.Steady) (hpassage : Passage Actor.id moment)
    (hexecutes : moment.Executes outside) {content : V}
    (hadds : moment.Calls (.add (.ofActor id) content)) {actor : Actor}
    (hactor : moment.after.world.actor? id = some actor) (hactive : actor.active = true) :
    actor.visual = some (.ofActor id) := by
  obtain ⟨stepped, hrenders⟩ := hpassage.exists_renders hexecutes
  have hstepped := hrenders.steady hsteady
  have hshows : stepped.world.Shows id :=
    (hrenders.retouches.shows_iff id).mp ⟨actor, hactor, hactive⟩
  rw [hrenders.calls, hstepped.sound.added_iff, hstepped.distinct.isActive_iff.mpr hshows] at hadds
  have hlink : ((stepped.render outside).1.cell id).link = _ :=
    hstepped.sound.render_link_of_shows hstepped.distinct hshows
  rw [← hrenders.after, hadds, cell, hactor] at hlink
  obtain ⟨other, -, hsame⟩ := Option.map_eq_some_iff.mp hlink.symm
  exact hsame.symm

/-- A load is asked for by an actor, for itself. -/
theorem Steady.asker (hsteady : moment.before.Steady) (hpassage : Passage Actor.id moment)
    (hasks : moment.Asks load request) :
    ∃ actor, moment.after.world.actor? actor.id = some actor ∧ actor.active = true ∧
      request = .ofActor actor := by
  cases hpassage with
  | frame outside hexecutes stepped hbinder hshown hafter hcalls =>
      have hrenders : Renders moment outside stepped := ⟨hbinder, hshown, hafter, hcalls⟩
      have hstepped := hrenders.steady hsteady
      obtain ⟨before, hbefore, hactive, rfl, -⟩ :=
        load_mem_render hstepped.distinct ((hcalls _).mp hasks)
      have hbare := hrenders.retouches.bare before.id
      rw [hbefore] at hbare
      obtain ⟨actor, hactor, hsame⟩ := Option.map_eq_some_iff.mp hbare
      have hid : actor.bare.id = before.bare.id := congrArg Actor.id hsame
      have hshown : actor.bare.active = before.bare.active := congrArg Actor.active hsame
      have hrequest : VisualRequest.ofActor before.bare = .ofActor actor.bare :=
        congrArg VisualRequest.ofActor hsame.symm
      refine ⟨actor, ?_, hshown.trans hactive, hrequest⟩
      rw [show actor.id = before.id from hid]
      exact hactor
  | cleared hidle hclears hbinder hdistinct hbare hcalls => exact (hcalls _ hasks).elim
  | quiet hidle hkeeps hbinder hchange hcalls => exact (hcalls _ hasks).elim

/-- A frame brings no actors in. -/
theorem Passage.isSome_before (hpassage : Passage Actor.id moment)
    (hexecutes : moment.Executes outside) (hhas : moment.Has id) :
    (moment.before.world.actor? id).isSome := by
  obtain ⟨stepped, hrenders⟩ := hpassage.exists_renders hexecutes
  rw [Moment.Has, hrenders.retouches.actor?_isSome, World.actor?_isSome_iff] at hhas
  exact World.actor?_isSome_iff.mpr (hrenders.ids.subset hhas)

theorem Run.has_of_asks (hdistinct : world.Distinct)
    (hgameplay : ∀ system ∈ world.gameplay, ∀ dt actor, (system dt actor).id = actor.id)
    (hrun : Run (create world catalog) history session) :
    ∀ past ∈ history, past.Asks load request → past.Has request.actor := by
  intro past hmem hasks
  obtain ⟨earlier, hpast⟩ := hrun.of_mem hmem
  have hpassage := hpast.passage_id hgameplay
  obtain ⟨-, hbefore, -⟩ := hpast.cons
  obtain ⟨actor, hactor, -, rfl⟩ := (hbefore.steady hdistinct hgameplay).asker hpassage hasks
  exact Option.isSome_of_eq_some hactor

/-- Every visual that a frame adds is added for the actor that asked for it, unless
another one has come in under the actor's id between the request and the frame. No frame
has then seen the id without an actor. -/
theorem frame_faithful_iff (hdistinct : world.Distinct)
    (hgameplay : ∀ system ∈ world.gameplay, ∀ dt actor, (system dt actor).id = actor.id)
    (hrun : Run (create world catalog) (moment :: history) session)
    (hexecutes : moment.Executes outside) :
    (∀ load request, moment.Asks load request →
      ∃ actor, moment.after.world.actor? actor.id = some actor ∧ actor.active = true ∧
      request = .ofActor actor) ∧
    (moment.Faithful history outside ↔
      ∀ load request since, Awaited history load request since →
        (∃ content, outside.Delivers load request
          (moment.after.world.Shows request.actor) content) →
        moment.Has request.actor → ∀ past ∈ since, ¬past.Spawns request.actor) := by
  have hpassage := hrun.passage_id hgameplay
  obtain ⟨rfl, hbefore, -⟩ := hrun.cons
  have hsteady := hbefore.steady hdistinct hgameplay
  refine ⟨fun load request => hsteady.asker hpassage, ?_⟩
  constructor
  · intro hfaithful load request since hsince hdelivers hhas
    obtain ⟨content, hdelivers⟩ := hdelivers
    have hwaits := (hbefore.pending_iff hdistinct hgameplay).mpr ⟨rfl, since, hsince⟩
    have hadds := (hsteady.adds_iff hpassage hexecutes).mpr ⟨load, request, rfl, hwaits, hdelivers⟩
    obtain ⟨other, asked, others, hname, hothers, -, hactor⟩ := hfaithful _ content hadds
    -- The binder waits for one load of an actor only, so the load that the frame is faithful to is
    -- this one.
    have hid : request.actor = asked.actor := VisualId.ofActor_injective hname
    have hother := (hbefore.pending_iff hdistinct hgameplay).mpr ⟨hid.symm, others, hothers⟩
    rw [hwaits] at hother
    cases hother
    obtain rfl := hsince.unique hothers
    obtain ⟨actor, hthere⟩ := Option.isSome_iff_exists.mp hhas
    have hsome := hpassage.isSome_before hexecutes hhas
    exact (hsince.has_iff hbefore (hbefore.has_of_asks hdistinct hgameplay) hsome).mp
      (hactor actor hthere).1
  · intro hunspawned visual content hadds
    obtain ⟨load, request, rfl, hwaits, hdelivers⟩ := (hsteady.adds_iff hpassage hexecutes).mp hadds
    obtain ⟨-, since, hsince⟩ := (hbefore.pending_iff hdistinct hgameplay).mp hwaits
    refine ⟨load, request, since, rfl, hsince, hdelivers, fun actor hactor => ⟨?_, ?_⟩⟩
    · have hhas : moment.Has request.actor := Option.isSome_of_eq_some hactor
      have hsome := hpassage.isSome_before hexecutes hhas
      refine (hsince.has_iff hbefore (hbefore.has_of_asks hdistinct hgameplay) hsome).mpr ?_
      exact hunspawned load request since hsince ⟨content, hdelivers⟩ hhas
    · exact hsteady.visual_of_adds hpassage hexecutes hadds hactor

theorem rewarding_faithful_iff :
    Run opening (rewarding :: asked) rewarding.after ∧ rewarding.Executes answering ∧
      (∀ load request, rewarding.Asks load request →
        ∃ actor, rewarding.after.world.actor? actor.id = some actor ∧ actor.active = true ∧
          request = .ofActor actor) ∧
      (rewarding.Faithful asked answering ↔
        ∀ load request since, Awaited asked load request since →
          (∃ content, answering.Delivers load request
            (rewarding.after.world.Shows request.actor) content) →
          rewarding.Has request.actor → ∀ past ∈ since, ¬past.Spawns request.actor) := by
  have hexecutes : rewarding.Executes answering := ⟨0.016, rfl, by decide +kernel⟩
  exact ⟨run_rewarding, hexecutes,
    frame_faithful_iff (World.distinct_of_actors_nil rfl)
      (fun _ hsystem => absurd hsystem List.not_mem_nil) run_rewarding hexecutes⟩

/-- What has happened when a tower has taken the place of the archer before
the archer's visual comes in. -/
def replaced : List (Moment String) :=
  coming asking.after :: leaving asking.after :: asked

def misdelivering : Moment String :=
  (coming asking.after).after.moment (.frame answering 0.016)

theorem misdelivering_unfaithful :
    Run opening (misdelivering :: replaced) misdelivering.after ∧ misdelivering.Executes answering ∧
      ¬misdelivering.Faithful replaced answering := by
  have hleaving : Run opening (leaving asking.after :: asked) (leaving asking.after).after :=
    run_asked.moment (by decide +kernel)
  have hcoming : Run opening replaced (coming asking.after).after :=
    hleaving.moment (by decide +kernel)
  refine ⟨hcoming.moment (by decide +kernel), ⟨0.016, rfl, by decide +kernel⟩, ?_⟩
  intro hfaithful
  have hadds : misdelivering.Calls (.add (.ofActor ⟨7⟩) "archer") :=
    Moment.calls_iff.mpr (by decide +kernel)
  obtain ⟨load, request, since, hname, hsince, -, hactor⟩ := hfaithful _ _ hadds
  have hquiet : (coming asking.after).effects.filterMap SessionEffect.call? = [] ∧
      (leaving asking.after).effects.filterMap SessionEffect.call? = [] := by decide +kernel
  cases hsince with
  | begun hasks =>
      rw [Moment.Asks, Moment.calls_iff, hquiet.1] at hasks
      cases hasks
  | lasted hsince _ _ =>
      cases hsince with
      | begun hasks =>
          rw [Moment.Asks, Moment.calls_iff, hquiet.2] at hasks
          cases hasks
      | lasted hsince _ _ =>
          have hgone : ((leaving asking.after).after.world.actor? ⟨7⟩).isSome = false := by
            decide +kernel
          have hthere : (misdelivering.after.world.actor? ⟨7⟩).isSome := by decide +kernel
          rw [VisualId.ofActor_injective hname] at hgone hthere
          obtain ⟨actor, hfound⟩ := Option.isSome_iff_exists.mp hthere
          have hhas := (hactor actor hfound).1 (leaving asking.after)
            (List.mem_cons_of_mem _ List.mem_cons_self)
          rw [Moment.Has, hgone] at hhas
          cases hhas

end Session

end Volley
